import ClojureRt.Runtime.VectorSeq.Texts

/-!
# Reverse seqs

A reverse seq is a position of a vector, and its operations go down from there.
What is left of it are the elements up to the position, from the last one to the
first.
-/

open ClojureRt.Runtime.Vector
  (PersistentVector PersistentVectorNode Layout Lays addresses refs refs_pointer
    refs_boxNil refs_nonneg)

namespace ClojureRt
namespace Runtime
namespace VectorSeq

open RefCount RefCount.Program
open Sharing (Address RTValue)

/-- A reverse seq at a position of a vector. -/
structure ReverseAt
    (heap : SeqHeap)
    (address v : Address)
    (vector : PersistentVector)
    (layout : Layout)
    (position : Nat) : Prop where
  found : heap.object? address =
    some (.reverseSeq ⟨v, BitVec.ofNat 32 position⟩)
  lays : Lays (vectors heap) v vector layout
  inside : position < layout.elements.length
  small : position < 2 ^ 31

/-- The elements of a reverse seq. -/
def backwards (layout : Layout) (position : Nat) : List RTValue :=
  (layout.elements.take (position + 1)).reverse

section Positions

variable {layout : Layout} {position : Nat}

theorem length_backwards (inside : position < layout.elements.length) :
    (backwards layout position).length = position + 1 := by
  rw [backwards, List.length_reverse, List.length_take]
  omega

theorem backwards_zero
    {value : RTValue}
    (isElement : layout.elements[0]? = some value) :
    backwards layout 0 = [value] := by
  rw [backwards, List.take_add_one, isElement]
  rfl

theorem backwards_succ
    {value : RTValue}
    (isElement : layout.elements[position + 1]? = some value) :
    backwards layout (position + 1) = value :: backwards layout position := by
  rw [backwards, List.take_add_one, isElement, Option.toList_some,
    List.reverse_append, List.reverse_singleton, List.singleton_append,
    backwards]

/-- The index before a position. -/
theorem ofNat_pred : BitVec.ofNat 32
    (position + 1) - 1 = BitVec.ofNat 32 position := by
  apply BitVec.eq_of_toNat_eq
  rw [BitVec.toNat_sub, BitVec.toNat_ofNat, BitVec.toNat_ofNat]
  have one : (1 : BitVec 32).toNat = 1 := rfl
  rw [one]
  omega

theorem toWord_ofNat (small : position < 2 ^ 31) :
    toWord (BitVec.ofNat 32 position) = position := by
  have signed := (SignedWords.toInt_ofNat_eq_iff position).mpr small
  rw [toWord, SignedWords.signExtend_of_nonneg (by omega), BitVec.toNat_ofNat]
  exact Nat.mod_eq_of_lt (by omega)

end Positions

section Operations

variable
  {heap : SeqHeap}
  {self v : Address}
  {vector : PersistentVector}
  {layout : Layout}
  {position : Nat}

/-- An element is taken from a vector that something on the heap holds. -/
theorem runs_nthOfHeld
    {index : Nat}
    {value : RTValue}
    (lays : Lays (vectors heap) v vector layout)
    (isElement : layout.elements[index]? = some value)
    (refers : ∃ source, heap.Refers source v)
    (nonneg : ∀ address, 0 ≤ heap.excess address)
    {Result : Type}
    {next : RTValue → Code Result}
    {post : Result → SeqHeap → Prop}
    (runs : ∀ after, Trade heap after 0 (refs value) →
      Runs (next value) after post) :
    Runs (do retain v; let value ← nth v index; next value) heap post := by
  obtain ⟨source, refers⟩ := refers
  have nothing : Backed heap 0 := ⟨fun _ => le_rfl, nonneg⟩
  apply Runs.bind
  apply Runs.retain_trade nonneg refers
  intro retained same retain
  have retainedLays : Lays (vectors retained) v vector layout :=
    lays_of_objects lays (vectors_eq (congrFun same v)) fun address _ =>
      vectors_eq (congrFun same address)
  apply Runs.bind
  apply runs_nth retainedLays isElement
    (retain.given_backed nothing (own_nonneg v))
  intro after take
  exact runs after (retain.trans take (own_nonneg v))

namespace ReverseAt

theorem refers (reverseAt : ReverseAt heap self v vector layout position) :
    ∃ source, heap.Refers source v :=
  ⟨self, _, reverseAt.found, List.mem_singleton_self v⟩

/-- A reverse seq that is reached from references, from which everything is as
before. -/
theorem of_reached
    {after : SeqHeap}
    {rest : Address → Int}
    (reverseAt : ReverseAt heap self v vector layout position)
    (same : ∀ address, Reached heap rest address →
      after.object? address = heap.object? address)
    (reached : Reached heap rest self) :
    ReverseAt after self v vector layout position where
  found := by rw [same self reached, reverseAt.found]
  lays := by
    apply lays_of_reached reverseAt.lays same
    exact reached.referred reverseAt.found (List.mem_singleton_self v)
  inside := reverseAt.inside
  small := reverseAt.small

/-- A reverse seq that is still owned. -/
theorem of_owned
    {after : SeqHeap}
    {taken given : Address → Int}
    (reverseAt : ReverseAt heap self v vector layout position)
    (trade : Trade heap after taken given)
    (backed : Backed heap (taken + own self)) :
    ReverseAt after self v vector layout position :=
  reverseAt.of_reached (trade.frame _ (own_nonneg self) backed)
    (Reached.of_own self)

theorem of_objects
    {after : SeqHeap}
    (reverseAt : ReverseAt heap self v vector layout position)
    (same : after.object? = heap.object?) :
    ReverseAt after self v vector layout position where
  found := by rw [same, reverseAt.found]
  lays := lays_of_objects reverseAt.lays (vectors_eq (congrFun same v))
    fun address _ =>
    vectors_eq (congrFun same address)
  inside := reverseAt.inside
  small := reverseAt.small

theorem runs_load
    {Result : Type}
    (reverseAt : ReverseAt heap self v vector layout position)
    {next : PersistentVectorReverseSeq → Code Result}
    {post : Result → SeqHeap → Prop}
    (runs : Runs (next ⟨v, BitVec.ofNat 32 position⟩) heap post) :
    Runs (do let seq ← loadReverseSeq self; next seq) heap post := by
  apply Runs.bind
  unfold loadReverseSeq
  apply Runs.bind
  apply Runs.load reverseAt.found
  exact Runs.pure runs

theorem runs_first
    (reverseAt : ReverseAt heap self v vector layout position)
    (backed : Backed heap (own self))
    {value : RTValue}
    (isElement : layout.elements[position]? = some value) :
    Runs (ReverseSeq.first self) heap fun result after =>
      result = value ∧ Trade heap after (own self) (refs value) := by
  unfold ReverseSeq.first
  apply reverseAt.runs_load
  dsimp only
  rw [toWord_ofNat reverseAt.small]
  apply runs_nthOfHeld reverseAt.lays isElement reverseAt.refers
    backed.excess_nonneg
  intro taken take
  have kept := (take.keep (own_nonneg self)).of_eq (zero_add _) (add_comm _ _)
  have keptBacked :=
    kept.given_backed backed (nonneg_add (own_nonneg self) (refs_nonneg value))
  apply runs_releaseSelf (keptBacked.left (own_nonneg self) (refs_nonneg value))
  intro after release
  refine ⟨rfl, kept.trans ?_ keptBacked.nonneg⟩
  exact (release.keep (refs_nonneg value)).of_eq rfl (zero_add _)

theorem runs_count
    (reverseAt : ReverseAt heap self v vector layout position)
    (backed : Backed heap (own self)) :
    Runs (ReverseSeq.count self) heap fun result after =>
      result = BitVec.ofNat 32 (position + 1) ∧
        Trade heap after (own self) 0 := by
  unfold ReverseSeq.count
  apply reverseAt.runs_load
  apply runs_releaseSelf backed
  intro after release
  exact ⟨(BitVec.ofNat_add position 1).symm, release⟩

/-- The end of a step: nil at the first position, else a seq at the one
before. -/
def Moved
    (heap : SeqHeap)
    (self v : Address)
    (vector : PersistentVector)
    (layout : Layout)
    (position : Nat)
    (result : RTValue)
    (after : SeqHeap) : Prop :=
  Trade heap after (own self) (refs result) ∧
    ((position = 0 ∧ result = .boxNil) ∨
      ∃ new before, position = before + 1 ∧ result = .pointer new ∧
        ReverseAt after new v vector layout before)

theorem runs_next
    (reverseAt : ReverseAt heap self v vector layout position)
    (backed : Backed heap (own self)) :
    Runs (ReverseSeq.next self) heap
      (Moved heap self v vector layout position) := by
  have inside := reverseAt.inside
  have small := reverseAt.small
  have signed := (SignedWords.toInt_ofNat_eq_iff position).mpr small
  unfold ReverseSeq.next
  apply reverseAt.runs_load
  dsimp only
  rw [signed]
  cases position with
  | zero =>
      rw [Nat.cast_zero, if_pos le_rfl]
      apply runs_releaseSelf backed
      intro after release
      exact ⟨by rwa [refs_boxNil], .inl ⟨rfl, rfl⟩⟩
  | succ before =>
      rw [if_neg (by omega), ofNat_pred]
      apply Runs.bind
      apply Runs.isReusable reverseAt.found
      split
      · next isOne =>
          apply Runs.bind
          have samePlain : plain (.reverseSeq ⟨v, BitVec.ofNat 32 before⟩) =
              plain (.reverseSeq ⟨v, BitVec.ofNat 32 (before + 1)⟩) := rfl
          apply runs_writeSeq reverseAt.found (beq_iff_eq.mp isOne) samePlain
          intro after stored vectorsSame trade
          have storedLays : Lays (vectors after) v vector layout :=
            lays_of_objects reverseAt.lays (vectorsSame v) fun address _ =>
              vectorsSame address
          apply Runs.pure
          refine ⟨by rwa [refs_pointer], .inr ⟨self, before, rfl, rfl, ?_⟩⟩
          exact ⟨stored, storedLays, by omega, by omega⟩
      · have nonneg : ¬ (BitVec.ofNat 32 before).toInt < 0 := by
          rw [(SignedWords.toInt_ofNat_eq_iff before).mpr (by omega)]
          omega
        have references : Referencing.references
            (Object.reverseSeq ⟨v, BitVec.ofNat 32 before⟩) = [v] := rfl
        unfold ReverseSeq.create
        rw [if_neg nonneg]
        apply Runs.bind
        apply Runs.bind
        refine Runs.mono
          (runs_newSeq backed.excess_nonneg reverseAt.refers references
          fun new created isNew kept create => ?_) fun _ retained runs =>
            Runs.bind runs
        apply Runs.pure
        apply runs_replaceSelf backed create
        intro after release createdBacked trade
        refine ⟨by rwa [refs_pointer], .inr ⟨new, before, rfl, rfl, ?_⟩⟩
        have createdAt : ReverseAt created new v vector layout before :=
          ⟨isNew, lays_of_kept reverseAt.lays kept, by omega, by omega⟩
        exact createdAt.of_owned release createdBacked

theorem runs_toStringFrom
    (text : RTValue → String)
    {remaining : Nat}
    {i : BitVec 32}
    {isFirst : Bool}
    {res : String}
    (reverseAt : ReverseAt heap self v vector layout position)
    (isRemaining : remaining ≤ position + 1)
    (isIndex : remaining ≠ 0 → i = BitVec.ofNat 32 (remaining - 1))
    (backed : Backed heap (own self)) :
    Runs (ReverseSeq.toStringFrom text v remaining i isFirst res) heap
      fun result after =>
      result = res ++
        joined isFirst ((layout.elements.take remaining).reverse.map text) ∧
        Trade heap after 0 0 := by
  have inside := reverseAt.inside
  have small := reverseAt.small
  induction remaining generalizing heap i isFirst res with
  | zero => exact Runs.pure ⟨(String.append_empty).symm, Trade.refl heap 0⟩
  | succ remaining inductionHypothesis =>
      have isElement :=
        List.getElem?_eq_getElem (Nat.lt_of_lt_of_le isRemaining inside)
      have isWord : toWord i = remaining := by
        rw [isIndex (Nat.succ_ne_zero _), Nat.add_sub_cancel]
        exact toWord_ofNat (by omega)
      have start : Backed heap (0 + own self) := backed.of_eq (zero_add _).symm
      rw [List.take_add_one, isElement, Option.toList_some, List.reverse_append,
        List.reverse_singleton, List.singleton_append, List.map_cons, joined,
        ← String.append_assoc, ← String.append_assoc, ReverseSeq.toStringFrom,
        isWord]
      apply runs_nthOfHeld reverseAt.lays isElement reverseAt.refers
        backed.excess_nonneg
      intro taken take
      have takenBacked := take.backed start (refs_nonneg _) (own_nonneg self)
      apply Runs.bind
      apply runs_text (takenBacked.left (refs_nonneg _) (own_nonneg self))
      intro released release
      have trade := take.trans release (refs_nonneg _)
      have releasedAt := reverseAt.of_owned trade start
      have releasedBacked :=
        trade.backed start (fun _ => le_rfl) (own_nonneg self)
      have nextIndex : remaining ≠ 0 →
          i - 1 = BitVec.ofNat 32 (remaining - 1) := by
        intro more
        obtain ⟨before, rfl⟩ := Nat.exists_eq_succ_of_ne_zero more
        rw [isIndex (Nat.succ_ne_zero _), Nat.add_sub_cancel]
        exact ofNat_pred
      apply (inductionHypothesis releasedAt (by omega) nextIndex
        (releasedBacked.of_eq (zero_add _))).mono
      rintro result after ⟨rfl, last⟩
      exact ⟨rfl, trade.trans last fun _ => le_rfl⟩

/-- The text of a reverse seq. -/
theorem runs_toString
    (text : RTValue → String)
    (reverseAt : ReverseAt heap self v vector layout position)
    (backed : Backed heap (own self)) :
    Runs (ReverseSeq.toString text self) heap fun result after =>
      result = "(" ++ " ".intercalate ((backwards layout position).map text) ++ ")" ∧
        Trade heap after (own self) 0 := by
  have signed := (SignedWords.toInt_ofNat_eq_iff position).mpr reverseAt.small
  have isRemaining : ((position : Int) + 1).toNat = position + 1 := by omega
  unfold ReverseSeq.toString
  apply reverseAt.runs_load
  dsimp only
  rw [signed, isRemaining]
  apply Runs.bind
  apply (reverseAt.runs_toStringFrom text le_rfl (fun _ => rfl) backed).mono
  rintro res between ⟨rfl, trade⟩
  have kept := (trade.keep (own_nonneg self)).of_eq (zero_add _) (zero_add _)
  apply runs_releaseSelf (kept.given_backed backed (own_nonneg self))
  intro after release
  rw [joined_true]
  exact ⟨rfl, kept.trans release (own_nonneg self)⟩

end ReverseAt

end Operations

end VectorSeq
end Runtime
end ClojureRt
