import ClojureRt.Runtime.Reductions
import ClojureRt.Runtime.VectorSeq.Enumeration

/-!
# Seqs enumerate their vectors

A chunked seq that was moved denotes the elements from its position on, in its
operations and in its chunks, and a reverse seq all elements backwards.  The
sizes are signed words of 32 bits, so that this holds up to a length; and a
negative index into a chunk is not refused where it leads into the block before
the chunk.
-/

open ClojureRt.Runtime.Vector
  (PersistentVector Layout Lays blockOf refs refs_immediate refs_boxNil
    refs_nonneg)

namespace ClojureRt
namespace Runtime
namespace VectorSeq

open RefCount RefCount.Program
open Sharing (Address RTValue)
open ChunkAt (BeforeWindow slot_cases)

/-- The element at a signed index. -/
def elementAt (elements : List RTValue) (i : BitVec 32) : Option RTValue :=
  if 0 ≤ i.toInt then elements[i.toNat]? else none

/-- A chunk gives some elements: their number, and each at its index, with an
exception or the default at other indices. -/
structure ChunkGives
    (heap : SeqHeap)
    (chunk : Address)
    (elements : List RTValue)
    (i : BitVec 32) : Prop where
  count : Runs (ArrayChunk.count chunk) heap fun result _ =>
    result.toInt = elements.length
  nth : Runs (ArrayChunk.nth chunk i) heap fun result _ =>
    match elementAt elements i with
    | some value => result = .ok value
    | none => ∃ exception, result = .error exception
  nthDefault : ∀ notFound, Backed heap (own chunk + refs notFound) →
    Runs (ArrayChunk.nthDefault chunk i notFound) heap fun result _ =>
      result = (elementAt elements i).getD notFound

/-- A chunked seq gives some elements, of which the first ones are in its
chunk. -/
structure SeqGives
    (text : RTValue → String)
    (heap : SeqHeap)
    (address : Address)
    (elements : List RTValue)
    (inChunk : Nat)
    (i : BitVec 32) : Prop where
  first : Runs (ChunkedSeq.first address) heap fun result _ =>
    elements.head? = some result
  count : Runs (ChunkedSeq.count address) heap fun result _ =>
    result.toInt = elements.length
  isText : Runs (ChunkedSeq.toString text address) heap fun result _ =>
    result = "(" ++ " ".intercalate (elements.map text) ++ ")"
  enumerate : Runs (ChunkedSeq.enumerate elements.length address) heap
    fun result _ =>
    result = elements
  chunkedFirst : Runs (ChunkedSeq.chunkedFirst address) heap fun result after =>
    ∃ chunk, result = .pointer chunk ∧
      ChunkGives after chunk (elements.take inChunk) i

/-- The seqs over a vector give its elements: a chunked seq after some movements
those from its position on, and the reverse seq all of them backwards. -/
structure SeqsEnumerate
    (text : RTValue → String)
    (heap : SeqHeap)
    (address : Address)
    (layout : Layout)
    (movements : List Movement)
    (i : BitVec 32) : Prop where
  chunked : Runs (do let first ← seq address; moveAll movements first) heap
    fun result after =>
    if positionAfter movements 0 < layout.elements.length then
      ∃ new, result = .pointer new ∧
        SeqGives text after new
          (layout.elements.drop (positionAfter movements 0))
          (32 - positionAfter movements 0 % 32) i
    else result = .boxNil
  reverse : Runs (rseq address) heap fun result after =>
    if 0 < layout.elements.length then
      ∃ new, result = .pointer new ∧
        Runs (ReverseSeq.enumerate layout.elements.length new) after
          fun values _ =>
          values = layout.elements.reverse
    else result = .boxNil

/-- The sizes fit, and the index does not lead into the block before the
chunk. -/
def Within (layout : Layout) (position : Nat) (i : BitVec 32) : Prop :=
  layout.elements.length ≤ 2 ^ 31 ∧
    (position < layout.elements.length →
      layout.elements.length - position < 2 ^ 31 ∧ ¬ BeforeWindow position i)

section Enumeration

variable
  {heap : SeqHeap}
  {self : Address}
  {it : PersistentVectorIterator}
  {vector : PersistentVector}
  {layout : Layout}
  {position : Nat}

/-! ## Chunks -/

/-- A chunk has the first ones of the elements from its position on. -/
theorem window_eq_take (layout : Layout) (position : Nat) :
    window layout position = (layout.elements.drop position).take
      (32 - position % 32) := by
  have start : 32 * (position / 32) + position % 32 = position :=
    Nat.div_add_mod position 32
  rw [window, blockOf, List.drop_take, List.drop_drop, start]

/-- The window has the elements of the block at the indices that are not before
it. -/
theorem elementAt_window
    (inside : position < layout.elements.length)
    {i : BitVec 32}
    (notBefore : ¬ BeforeWindow position i) :
    elementAt (window layout position) i =
      (blockOf layout.elements position)[wordAdd (position % 32)
        (toWord i)]? := by
  unfold elementAt
  obtain ⟨same, nonneg⟩ | ⟨before, _⟩ | ⟨_, negative, beyond⟩ :=
    slot_cases inside i
  · rw [if_pos nonneg, same]
  · exact absurd before notBefore
  · rw [if_neg (not_le.mpr negative), List.getElem?_eq_none beyond]

/-- Before the window there are elements of the block. -/
theorem element_before
    (inside : position < layout.elements.length)
    {i : BitVec 32}
    (before : BeforeWindow position i) :
    elementAt (window layout position) i = none ∧
      ∃ value, (blockOf layout.elements position)[wordAdd (position % 32)
        (toWord i)]? =
        some value := by
  refine ⟨if_neg (not_le.mpr before.1), ?_⟩
  obtain ⟨_, nonneg⟩ | ⟨_, within⟩ | ⟨notBefore, _⟩ := slot_cases inside i
  · exact absurd nonneg (not_le.mpr before.1)
  · exact ⟨_, List.getElem?_eq_getElem within⟩
  · exact absurd before notBefore

/-- A chunk gives its elements for the indices that do not lead into the block
before it. -/
theorem chunkGives_iff
    {chunk node : Address}
    (chunkAt : ChunkAt heap chunk node layout position)
    (inside : position < layout.elements.length)
    (backed : Backed heap (own chunk))
    (i : BitVec 32) :
    ChunkGives heap chunk (window layout position) i ↔
      ¬ BeforeWindow position i := by
  constructor
  · intro gives before
    obtain ⟨isNone, value, isValue⟩ := element_before inside before
    obtain ⟨result, _, _, found, missing⟩ :=
      (chunkAt.runs_nth backed i).and gives.nth
    rw [isValue] at found
    rw [isNone] at missing
    obtain ⟨exception, isError⟩ := missing
    cases found.symm.trans isError
  · intro notBefore
    have same := elementAt_window inside notBefore
    refine ⟨chunkAt.runs_count inside backed, ?_, ?_⟩
    · rw [same]
      exact chunkAt.runs_nth backed i
    · intro notFound notFoundBacked
      rw [same]
      exact chunkAt.runs_nthDefault notFoundBacked i

/-! ## Seqs -/

theorem seqGives_iff
    (text : RTValue → String)
    (seqAt : SeqAt heap self it vector layout position)
    (backed : Backed heap (own self))
    (i : BitVec 32) :
    SeqGives text heap self (layout.elements.drop position)
      (32 - position % 32) i ↔
      layout.elements.length - position < 2 ^ 31 ∧
        ¬ BeforeWindow position i := by
  have inside := seqAt.isAt.inside
  have isElement := List.getElem?_eq_getElem inside
  have counts : Runs (ChunkedSeq.count self) heap (fun result _ =>
      result.toInt = (layout.elements.drop position).length) ↔
        layout.elements.length - position < 2 ^ 31 := by
    apply (seqAt.runs_count backed).iff
    rintro _ after ⟨rfl, _⟩
    rw [List.length_drop]
    exact SignedWords.toInt_ofNat_eq_iff _
  have chunks : Runs (ChunkedSeq.chunkedFirst self) heap (fun result after =>
      ∃ chunk, result = .pointer chunk ∧ ChunkGives after chunk
        ((layout.elements.drop position).take (32 - position % 32)) i) ↔
        ¬ BeforeWindow position i := by
    apply (seqAt.runs_chunkedFirst backed).iff
    rintro _ after ⟨chunk, node, rfl, chunkAt, trade⟩
    rw [← window_eq_take, ← chunkGives_iff chunkAt inside
      (trade.given_backed backed (own_nonneg chunk)) i]
    constructor
    · rintro ⟨other, isChunk, gives⟩
      obtain rfl := RTValue.pointer.inj isChunk
      exact gives
    · exact fun gives => ⟨chunk, rfl, gives⟩
  constructor
  · intro gives
    exact ⟨counts.mp gives.count, chunks.mp gives.chunkedFirst⟩
  · rintro ⟨fits, notBefore⟩
    refine ⟨?_, counts.mpr fits, ?_, ?_, chunks.mpr notBefore⟩
    · apply (seqAt.runs_first backed isElement).mono
      rintro _ after ⟨rfl, _⟩
      rw [List.head?_drop, isElement]
    · exact (seqAt.runs_toString text backed).mono fun _ _ shown => shown.1
    · rw [List.length_drop]
      exact seqAt.runs_enumerate backed le_rfl

/-- The reverse seq of a vector. -/
theorem reverse_iff
    (lays : Lays (vectors heap) self vector layout)
    (backed : Backed heap (own self)) :
    Runs (rseq self) heap (fun result after =>
      if 0 < layout.elements.length then
        ∃ new, result = .pointer new ∧
          Runs (ReverseSeq.enumerate layout.elements.length new) after
            fun values _ =>
            values = layout.elements.reverse
      else result = .boxNil) ↔ layout.elements.length ≤ 2 ^ 31 := by
  apply (runs_rseq lays backed rfl).iff
  rintro result after (⟨none, rfl⟩ | ⟨new, rfl, reverseAt, newBacked⟩)
  · split
    · next some =>
        have isShort :=
          SignedWords.toInt_ofNat_eq_iff (layout.elements.length - 1)
        refine iff_of_false ?_ ?_
        · rintro ⟨_, isPointer, _⟩
          cases isPointer
        · omega
    · exact iff_of_true rfl (by omega)
  · have inside := reverseAt.inside
    have small := reverseAt.small
    rw [if_pos (by omega)]
    have enumerates : Runs (ReverseSeq.enumerate layout.elements.length new)
      after (fun values _ =>
        values = layout.elements.reverse) ↔
          layout.elements.length ≤ 2 ^ 31 := by
      apply (reverseAt.runs_enumerate newBacked inside).iff
      rintro _ _ rfl
      constructor
      · intro same
        have length := congrArg List.length same
        rw [length_backwards inside, List.length_reverse] at length
        omega
      · intro fits
        have isLast : (BitVec.ofNat 32 (layout.elements.length - 1)).toNat =
            layout.elements.length - 1 := by
          rw [BitVec.toNat_ofNat]
          exact Nat.mod_eq_of_lt (by omega)
        rw [isLast, backwards, Nat.sub_add_cancel (by omega), List.take_length]
    rw [← enumerates]
    constructor
    · rintro ⟨other, isNew, runs⟩
      obtain rfl := RTValue.pointer.inj isNew
      exact runs
    · exact fun runs => ⟨new, rfl, runs⟩

/-- A chunked seq after some movements. -/
theorem chunked_iff
    (text : RTValue → String)
    (lays : Lays (vectors heap) self vector layout)
    (backed : Backed heap (own self))
    (movements : List Movement)
    (i : BitVec 32) :
    Runs (do let first ← seq self; moveAll movements first) heap
      (fun result after =>
      if positionAfter movements 0 < layout.elements.length then
        ∃ new, result = .pointer new ∧
          SeqGives text after new
            (layout.elements.drop (positionAfter movements 0))
            (32 - positionAfter movements 0 % 32) i
      else result = .boxNil) ↔
        (positionAfter movements 0 < layout.elements.length →
          layout.elements.length - positionAfter movements 0 < 2 ^ 31 ∧
            ¬ BeforeWindow (positionAfter movements 0) i) := by
  have arrives : Runs (do let first ← seq self; moveAll movements first) heap
      (Arrives vector layout (positionAfter movements 0)) := by
    apply Runs.bind
    exact (runs_seq lays backed).mono fun _ _ started =>
      runs_moveAll started movements
  apply arrives.iff
  rintro result after (⟨beyond, rfl⟩ | ⟨new, it, rfl, newAt, newBacked⟩)
  · rw [if_neg (not_lt.mpr beyond)]
    exact iff_of_true rfl fun within => absurd within (not_lt.mpr beyond)
  · have inside := newAt.isAt.inside
    rw [if_pos inside, imp_iff_right inside,
      ← seqGives_iff text newAt newBacked i]
    constructor
    · rintro ⟨other, isNew, gives⟩
      obtain rfl := RTValue.pointer.inj isNew
      exact gives
    · exact fun gives => ⟨new, rfl, gives⟩

/-- A vector of 34 elements, of which the last two are in the tail. -/
def seamHeap : SeqHeap :=
  ((Heap.empty.set 0
    (some ⟨1, .runtime
      (.node ⟨.leafNode, 0, (List.range 32).map (.immediate ·)⟩)⟩)).set 1
    (some ⟨1, .runtime
      (.node ⟨.leafNode, 0, [.immediate 32, .immediate 33]⟩)⟩)).set 2
    (some ⟨1, .runtime (.vector ⟨34, 0, 0, some 1, some 0, .boxNil⟩)⟩)

/-- One full block, and a tail of two elements. -/
def seamLayout : Layout where
  height := 0
  root := some ⟨0, (List.range 32).map (.immediate ·), [0]⟩
  tail := ⟨1, [.immediate 32, .immediate 33], [1]⟩
  flat := fun _ => rfl
  tight := fun _ _ _ never => by cases never
  tailNodes := rfl
  atMost := by decide
  nonempty := fun _ _ => List.cons_ne_nil _ _
  nodup := by decide

theorem lays_seamHeap : Lays (vectors seamHeap) 2
    ⟨34, 0, 0, some 1, some 0, .boxNil⟩
    seamLayout where
  found := rfl
  fits := ⟨rfl, rfl, rfl, rfl⟩
  isTrie := by
    intro trie isTrie
    obtain rfl := Option.some.inj (Option.mem_toList.mp isTrie)
    exact ⟨0, rfl, rfl, rfl⟩
  isTail := ⟨0, rfl⟩

theorem backed_seamHeap : Backed seamHeap (own 2) := by
  apply backed_of_inside (own_nonneg 2)
  · decide +kernel
  · decide +kernel
  · intro address beyond
    exact own_of_ne
      (Nat.ne_of_gt (Nat.lt_of_lt_of_le (by decide : 2 < 3) beyond))

end Enumeration

end VectorSeq
end Runtime
end ClojureRt
