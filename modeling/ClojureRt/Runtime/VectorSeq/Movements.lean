import ClojureRt.Lib.SignedWords
import ClojureRt.Runtime.VectorSeq.Iterators

/-!
# What the operations on seqs do

An operation takes a reference to a seq and gives one to what it returns.  It
moves a seq in place where nobody else can see that, and otherwise makes another
one, so that the seqs and vectors that others hold stay as they are.
-/

open ClojureRt.Runtime.Vector
  (PersistentVector PersistentVectorNode Layout Lays addresses blockOf
    getElem?_blockOf refs refs_pointer refs_boxNil refs_nonneg)

namespace ClojureRt
namespace Runtime
namespace VectorSeq

open RefCount RefCount.Program
open Sharing (Address RTValue NodeType)

/-- A chunked seq at a position of a vector. -/
structure SeqAt
    (heap : SeqHeap)
    (address : Address)
    (it : PersistentVectorIterator)
    (vector : PersistentVector)
    (layout : Layout)
    (position : Nat) : Prop where
  found : heap.object? address = some (.chunkedSeq it)
  isAt : At heap it vector layout position

section Operations

variable
  {heap : SeqHeap}
  {self : Address}
  {it : PersistentVectorIterator}
  {vector : PersistentVector}
  {layout : Layout}
  {position : Nat}

/-- A value from the heap is taken for a reference. -/
theorem runs_takeValue
    {Result : Type}
    {value : RTValue}
    (backed : Backed heap (own self))
    (refers : ∀ address ∈ addresses value, ∃ source, heap.Refers source address)
    {next : Code Result}
    {post : Result → SeqHeap → Prop}
    (runs : ∀ after, Trade heap after (own self) (refs value) →
      Runs next after post) :
    Runs (do retainValue value; release self; next) heap post := by
  apply Runs.bind
  apply runs_retainValue backed.excess_nonneg refers
  intro retained _ retain
  have kept := (retain.keep (own_nonneg self)).of_eq (zero_add _) (add_comm _ _)
  have keptBacked :=
    kept.given_backed backed (nonneg_add (own_nonneg self) (refs_nonneg value))
  apply Runs.bind
  apply Runs.release_trade
    (keptBacked.left (own_nonneg self) (refs_nonneg value))
  intro after _ release
  apply runs after
  apply kept.trans _ keptBacked.nonneg
  exact (release.keep (refs_nonneg value)).of_eq rfl (zero_add _)

/-- The end of the operations that give no reference. -/
theorem runs_releaseSelf
    {Result : Type}
    {result : Result}
    (backed : Backed heap (own self))
    {post : Result → SeqHeap → Prop}
    (holds : ∀ after, Trade heap after (own self) 0 → post result after) :
    Runs (do release self; pure result) heap post := by
  apply Runs.bind
  apply Runs.release_trade backed
  intro after _ release
  exact Runs.pure (holds after release)

/-- A new seq over the vector of another object. -/
theorem runs_newSeq
    {parent : Address}
    {object : Object}
    (nonneg : ∀ address, 0 ≤ heap.excess address)
    (refers : ∃ source, heap.Refers source parent)
    (references : Referencing.references object = [parent])
    {post : Address → SeqHeap → Prop}
    (holds : ∀ new after, after.object? new = some object →
      (∀ other old, heap.object? other = some old →
        after.object? other = some old) →
      Trade heap after 0 (own new) → post new after) :
    Runs (retain parent) heap fun _ retained =>
      Runs (allocate object) retained post := by
  obtain ⟨source, refers⟩ := refers
  apply Runs.retain_trade nonneg refers
  intro retained same retain
  apply Runs.allocate_trade
  intro after isNew others allocated
  rw [references, owns_singleton] at allocated
  apply holds _ after isNew _ (retain.trans allocated (own_nonneg parent))
  intro other old isOld
  rw [← same] at isOld
  rw [others other (Nat.ne_of_lt (Heap.lt_next_of_object isOld)), isOld]

/-- The end of the operations that give a new object. -/
theorem runs_replaceSelf
    {created : SeqHeap}
    {new : Address}
    {Result : Type}
    {result : Result}
    (backed : Backed heap (own self))
    (create : Trade heap created 0 (own new))
    {post : Result → SeqHeap → Prop}
    (holds : ∀ after, Trade created after (own self) 0 →
      Backed created (own self + own new) →
      Trade heap after (own self) (own new) → post result after) :
    Runs (do release self; pure result) created post := by
  have newNonneg := own_nonneg new
  have owned :=
    (create.keep (own_nonneg self)).of_eq (zero_add _) (add_comm _ _)
  have createdBacked :=
    owned.given_backed backed (nonneg_add (own_nonneg self) newNonneg)
  apply runs_releaseSelf (createdBacked.left (own_nonneg self) newNonneg)
  intro after release
  apply holds after release createdBacked
  exact owned.trans ((release.keep newNonneg).of_eq rfl (zero_add _))
    createdBacked.nonneg

/-- A seq is written by the one who has the only reference to it. -/
theorem runs_writeSeq
    {moved object : Object}
    (found : heap.object? self = some object)
    (isOne : heap.count self = 1)
    (samePlain : plain moved = plain object)
    {post : Unit → SeqHeap → Prop}
    (holds : ∀ after, after.object? self = some moved →
      (∀ address,
        (vectors after).object? address = (vectors heap).object? address) →
      Trade heap after (own self) (own self) → post () after) :
    Runs (store self moved) heap post := by
  apply Runs.store_trade found isOne
  intro after stored others _ trade
  apply holds after stored (vectors_eq_of_stored found stored others samePlain)
  apply (trade 0 fun _ => le_rfl).of_eq (add_zero _)
  rw [references_of_plain samePlain, add_sub_cancel_right, add_zero]

/-- A node refers to what is in its slots. -/
theorem refers_of_slot
    {block : Address}
    {node : PersistentVectorNode}
    {slot : Nat}
    {value : RTValue}
    (found : (vectors heap).object? block = some (.node node))
    (isSlot : node.array[slot]? = some value) :
    ∀ address ∈ addresses value, ∃ source, heap.Refers source address := by
  intro address isIn
  refine ⟨block, _, object_of_node.mp found, ?_⟩
  exact List.mem_flatMap.mpr ⟨value, List.mem_of_getElem? isSlot, isIn⟩

/-- What is reached from a reference is what it refers to, or something refers
to it. -/
theorem refers_of_reached
    {address : Address}
    (reached : Reached heap (own self) address)
    (distinct : address ≠ self) : ∃ source, heap.Refers source address := by
  cases reached with
  | owned address positive =>
      rw [own_of_ne distinct] at positive
      exact absurd positive (lt_irrefl 0)
  | referred source target object _ _ found refers =>
      exact ⟨source, object, found, refers⟩

namespace SeqAt

theorem reached (seqAt : SeqAt heap self it vector layout position) :
    Reached heap (own self) it.parent :=
  (Reached.of_own self).referred seqAt.found (List.mem_singleton_self _)

/-- A seq that is reached from references, from which everything is as
before. -/
theorem of_reached
    {after : SeqHeap}
    {rest : Address → Int}
    (seqAt : SeqAt heap self it vector layout position)
    (same : ∀ address, Reached heap rest address →
      after.object? address = heap.object? address)
    (reached : Reached heap rest self) :
    SeqAt after self it vector layout position where
  found := by rw [same self reached, seqAt.found]
  isAt := by
    apply seqAt.isAt.of_reached same
    exact reached.referred seqAt.found (List.mem_singleton_self _)

/-- A seq that is still owned. -/
theorem of_owned
    {after : SeqHeap}
    {taken given : Address → Int}
    (seqAt : SeqAt heap self it vector layout position)
    (trade : Trade heap after taken given)
    (backed : Backed heap (taken + own self)) :
    SeqAt after self it vector layout position :=
  seqAt.of_reached (trade.frame _ (own_nonneg self) backed)
    (Reached.of_own self)

theorem of_objects
    {after : SeqHeap}
    (seqAt : SeqAt heap self it vector layout position)
    (same : after.object? = heap.object?) :
    SeqAt after self it vector layout position where
  found := by rw [same, seqAt.found]
  isAt := seqAt.isAt.of_vectors fun address =>
    vectors_eq (congrFun same address)

theorem runs_load
    {Result : Type}
    (seqAt : SeqAt heap self it vector layout position)
    {next : PersistentVectorIterator → Code Result}
    {post : Result → SeqHeap → Prop}
    (runs : Runs (next it) heap post) :
    Runs (do let it ← loadChunkedSeq self; next it) heap post := by
  apply Runs.bind
  apply runs_loadChunkedSeq seqAt.found
  exact runs

theorem runs_first
    (seqAt : SeqAt heap self it vector layout position)
    (backed : Backed heap (own self))
    {value : RTValue}
    (isElement : layout.elements[position]? = some value) :
    Runs (ChunkedSeq.first self) heap fun result after =>
      result = value ∧ Trade heap after (own self) (refs value) := by
  have inside := seqAt.isAt.inside
  unfold ChunkedSeq.first
  apply seqAt.runs_load
  apply Runs.bind
  apply runs_loadVector seqAt.isAt.lays.found
  rw [seqAt.isAt.lays.fits.count, seqAt.isAt.index,
    if_neg (Nat.not_le.mpr inside)]
  apply Runs.bind
  apply runs_iteratorGet seqAt.isAt isElement
  intro block node isNode isIn
  apply runs_takeValue backed
  · intro address isAddress
    refine ⟨block, _, object_of_node.mp isNode, ?_⟩
    exact List.mem_flatMap.mpr ⟨value, isIn, isAddress⟩
  · exact fun after trade => Runs.pure ⟨rfl, trade⟩

theorem runs_count
    (seqAt : SeqAt heap self it vector layout position)
    (backed : Backed heap (own self)) :
    Runs (ChunkedSeq.count self) heap fun result after =>
      result = BitVec.ofNat 32 (layout.elements.length - position) ∧
        Trade heap after (own self) 0 := by
  have inside := seqAt.isAt.inside
  unfold ChunkedSeq.count
  apply seqAt.runs_load
  apply Runs.bind
  apply runs_loadVector seqAt.isAt.lays.found
  rw [seqAt.isAt.lays.fits.count, seqAt.isAt.index, Vector.wordSub,
    if_pos (Nat.le_of_lt inside)]
  exact runs_releaseSelf backed fun after trade => ⟨rfl, trade⟩

/-- The seq itself or a new one comes to the other position. -/
theorem runs_moveTo
    {moved : PersistentVectorIterator}
    {target : Nat}
    (seqAt : SeqAt heap self it vector layout position)
    (backed : Backed heap (own self))
    (sameParent : moved.parent = it.parent)
    (movedAt : At heap moved vector layout target) :
    Runs (ChunkedSeq.moveTo self (heap.count self == 1) moved) heap
      fun result after =>
      ∃ new, result = .pointer new ∧
        SeqAt after new moved vector layout target ∧
        Trade heap after (own self) (own new) := by
  have samePlain : plain (.chunkedSeq moved) = plain (.chunkedSeq it) :=
    congrArg (fun parent => Vector.Object.other [parent]) sameParent
  unfold ChunkedSeq.moveTo
  split
  · next isOne =>
      apply Runs.bind
      apply runs_writeSeq seqAt.found (beq_iff_eq.mp isOne) samePlain
      intro after stored vectorsSame trade
      exact Runs.pure
        ⟨self, rfl, ⟨stored, movedAt.of_vectors vectorsSame⟩, trade⟩
  · have refers : ∃ source, heap.Refers source moved.parent :=
      ⟨self, _, seqAt.found,
        by rw [sameParent]; exact List.mem_singleton_self it.parent⟩
    unfold ChunkedSeq.create
    apply Runs.bind
    apply Runs.bind
    apply runs_newSeq backed.excess_nonneg refers rfl
    intro new created isNew kept create
    apply runs_replaceSelf backed create
    intro after release createdBacked trade
    have createdAt : SeqAt created new moved vector layout target :=
      ⟨isNew, movedAt.of_kept kept⟩
    exact ⟨new, rfl, createdAt.of_owned release createdBacked, trade⟩

/-- The end of a movement: nil, or the seq at the other position. -/
def Moved
    (heap : SeqHeap)
    (self : Address)
    (vector : PersistentVector)
    (layout : Layout)
    (target : Nat)
    (result : RTValue)
    (after : SeqHeap) : Prop :=
  Trade heap after (own self) (refs result) ∧
    ((layout.elements.length ≤ target ∧ result = .boxNil) ∨
      ∃ new it, result = .pointer new ∧ SeqAt after new it vector layout target)

theorem moved_of_moveTo
    {moved : PersistentVectorIterator}
    {target : Nat}
    (seqAt : SeqAt heap self it vector layout position)
    (backed : Backed heap (own self))
    (sameParent : moved.parent = it.parent)
    (movedAt : At heap moved vector layout target) :
    Runs (ChunkedSeq.moveTo self (heap.count self == 1) moved) heap
      (Moved heap self vector layout target) := by
  apply (seqAt.runs_moveTo backed sameParent movedAt).mono
  rintro result after ⟨new, rfl, newAt, trade⟩
  exact ⟨by rwa [refs_pointer], .inr ⟨new, moved, rfl, newAt⟩⟩

theorem moved_of_end
    {target : Nat}
    (backed : Backed heap (own self))
    (beyond : layout.elements.length ≤ target) :
    Runs (do release self; pure .boxNil) heap
      (Moved heap self vector layout target) := by
  apply runs_releaseSelf backed
  intro after release
  exact ⟨by rwa [refs_boxNil], .inl ⟨beyond, rfl⟩⟩

theorem runs_next
    (seqAt : SeqAt heap self it vector layout position)
    (backed : Backed heap (own self)) :
    Runs (ChunkedSeq.next self) heap
      (Moved heap self vector layout (position + 1)) := by
  have lays := seqAt.isAt.lays
  unfold ChunkedSeq.next
  apply seqAt.runs_load
  apply Runs.bind
  apply Runs.isReusable seqAt.found
  apply Runs.bind
  apply runs_iteratorNext seqAt.isAt
  · intro moved sameParent movedAt
    apply Runs.bind
    apply runs_loadVector (by rw [sameParent]; exact lays.found)
    rw [lays.fits.count, movedAt.index, if_neg (Nat.not_le.mpr movedAt.inside)]
    exact seqAt.moved_of_moveTo backed sameParent movedAt
  · intro moved sameParent isIndex isEnd
    apply Runs.bind
    apply runs_loadVector (by rw [sameParent]; exact lays.found)
    rw [lays.fits.count, isIndex, if_pos (Nat.le_of_eq isEnd.symm)]
    exact moved_of_end backed (Nat.le_of_eq isEnd.symm)

theorem runs_chunkedNext
    (seqAt : SeqAt heap self it vector layout position)
    (backed : Backed heap (own self)) :
    Runs (ChunkedSeq.chunkedNext self) heap
      (Moved heap self vector layout (32 * (position / 32) + 32)) := by
  have isAt := seqAt.isAt
  have lays := isAt.lays
  have inside := isAt.inside
  have lengthBlock := length_blockOf layout.elements position
  unfold ChunkedSeq.chunkedNext
  apply seqAt.runs_load
  apply Runs.bind
  apply Runs.isReusable seqAt.found
  apply isAt.runs_block
  intro block transientID _ _ found
  have isIndex :
      it.index + Vector.wordSub (blockOf layout.elements position).length
      it.blockIndex = min (32 * (position / 32) + 32)
        layout.elements.length := by
    rw [isAt.index, isAt.blockIndex, lengthBlock, Vector.wordSub,
      if_pos (by omega)]
    omega
  dsimp only
  rw [isIndex]
  apply Runs.bind
  apply runs_loadVector lays.found
  rw [lays.fits.count]
  split
  · next beyond => exact moved_of_end backed (by omega)
  · next within =>
      have isTarget : min (32 * (position / 32) + 32) layout.elements.length =
          32 * (position / 32) + 32 := by omega
      rw [isTarget] at within ⊢
      apply Runs.bind
      apply runs_nthBlock lays (by omega)
      intro newBlock isNew
      refine seqAt.moved_of_moveTo backed (by rfl) ?_
      exact ⟨lays, by omega, rfl, ⟨newBlock, rfl, isNew⟩, by dsimp only; omega⟩

/-- `drop` of a positive number. -/
theorem runs_drop
    (seqAt : SeqAt heap self it vector layout position)
    (backed : Backed heap (own self))
    {n : BitVec 32}
    (positive : 0 < n.toInt) :
    Runs (ChunkedSeq.drop self n) heap
      (Moved heap self vector layout (position + n.toNat)) := by
  have lays := seqAt.isAt.lays
  have isWord : toWord n = n.toNat :=
    SignedWords.signExtend_of_nonneg (Int.le_of_lt positive)
  unfold ChunkedSeq.drop
  rw [if_neg (Int.not_le.mpr positive)]
  apply seqAt.runs_load
  apply Runs.bind
  apply Runs.isReusable seqAt.found
  dsimp only
  rw [isWord, seqAt.isAt.index]
  apply Runs.bind
  apply runs_loadVector lays.found
  rw [lays.fits.count]
  split
  · next beyond => exact moved_of_end backed beyond
  · next within =>
      have mask : (position + n.toNat) &&& 31 = (position + n.toNat) % 32 :=
        Nat.and_two_pow_sub_one_eq_mod _ 5
      apply Runs.bind
      apply runs_nthBlock lays (Nat.lt_of_not_le within)
      intro newBlock isNew
      refine seqAt.moved_of_moveTo backed (by rfl) ?_
      exact ⟨lays, Nat.lt_of_not_le within, rfl, ⟨newBlock, rfl, isNew⟩, mask⟩

/-- `drop` of nothing gives the seq back. -/
theorem runs_drop_nothing
    (seqAt : SeqAt heap self it vector layout position)
    {n : BitVec 32}
    (nothing : n.toInt ≤ 0) :
    Runs (ChunkedSeq.drop self n) heap
      (Moved heap self vector layout position) := by
  unfold ChunkedSeq.drop
  rw [if_pos nothing]
  refine Runs.pure ⟨?_, .inr ⟨self, it, rfl, seqAt⟩⟩
  rw [refs_pointer]
  exact Trade.refl heap (own self)

end SeqAt

/-! ## Chunks -/

/-- A chunk over the block of a position, from the position on. -/
structure ChunkAt
    (heap : SeqHeap)
    (address node : Address)
    (layout : Layout)
    (position : Nat) : Prop where
  found : heap.object? address = some (.arrayChunk ⟨node, position % 32⟩)
  isBlock : IsBlock heap layout position node

theorem SeqAt.runs_chunkedFirst
    (seqAt : SeqAt heap self it vector layout position)
    (backed : Backed heap (own self)) :
    Runs (ChunkedSeq.chunkedFirst self) heap fun result after =>
      ∃ chunk node, result = .pointer chunk ∧
        ChunkAt after chunk node layout position ∧
        Trade heap after (own self) (own chunk) := by
  have isAt := seqAt.isAt
  obtain ⟨block, isBlock, isNode, transientID, found⟩ := isAt.block
  unfold ChunkedSeq.chunkedFirst ArrayChunk.create
  apply seqAt.runs_load
  rw [isBlock]
  apply Runs.bind
  apply Runs.pure
  have reached := reached_layout isAt.lays seqAt.reached isNode
  have distinct : block ≠ self := by
    intro same
    have isSeq := seqAt.found
    rw [← same, object_of_node.mp found] at isSeq
    cases isSeq
  apply Runs.bind
  apply Runs.bind
  apply runs_newSeq backed.excess_nonneg
    (refers_of_reached reached distinct) rfl
  intro new created isNew kept create
  apply runs_replaceSelf backed create
  intro after release createdBacked trade
  have newNonneg := own_nonneg new
  have blockReached : Reached created (own new) block :=
    (Reached.of_own new).referred isNew (List.mem_singleton_self block)
  refine ⟨new, block, rfl,
    ⟨?_, isNode, transientID, object_of_node.mpr ?_⟩, trade⟩
  · rw [release.frame _ newNonneg createdBacked new (Reached.of_own new), isNew,
      isAt.blockIndex]
  · rw [release.frame _ newNonneg createdBacked block blockReached]
    exact kept block _ (object_of_node.mp found)

section Chunks

variable {node : Address}

/-- The elements of the chunk. -/
def window (layout : Layout) (position : Nat) : List RTValue :=
  (blockOf layout.elements position).drop (position % 32)

namespace ChunkAt

theorem runs_load
    {Result : Type}
    (chunkAt : ChunkAt heap self node layout position)
    {next : ArrayChunk → PersistentVectorNode → Code Result}
    {post : Result → SeqHeap → Prop}
    (runs : ∀ transientID, (vectors heap).object? node =
        some (.node
          ⟨.leafNode, transientID, blockOf layout.elements position⟩) →
      Runs (next ⟨node, position % 32⟩
        ⟨.leafNode, transientID, blockOf layout.elements position⟩) heap post) :
    Runs (do
      let chunk ← loadArrayChunk self
      let node ← loadNode chunk.node
      next chunk node) heap post := by
  obtain ⟨_, transientID, found⟩ := chunkAt.isBlock
  apply Runs.bind
  apply Runs.bind
  apply Runs.load chunkAt.found
  apply Runs.pure
  apply Runs.bind
  apply runs_loadNode found
  exact runs transientID found

theorem length_window (inside : position < layout.elements.length) :
    (window layout position).length =
        (blockOf layout.elements position).length - position % 32 ∧
      position % 32 < (blockOf layout.elements position).length ∧
      (blockOf layout.elements position).length ≤ 32 := by
  have length := length_blockOf layout.elements position
  rw [window, List.length_drop]
  omega

theorem runs_count
    (chunkAt : ChunkAt heap self node layout position)
    (inside : position < layout.elements.length)
    (backed : Backed heap (own self)) :
    Runs (ArrayChunk.count self) heap fun result _ =>
      result.toInt = (window layout position).length := by
  obtain ⟨isLength, below, atMost⟩ := length_window inside
  unfold ArrayChunk.count
  apply chunkAt.runs_load
  intro transientID _
  apply runs_releaseSelf backed
  intro _ _
  dsimp only
  rw [Vector.wordSub, if_pos (Nat.le_of_lt below), ← isLength]
  exact (SignedWords.toInt_ofNat_eq_iff _).mpr (by omega)

/-- The index is before the chunk, but in its block. -/
def BeforeWindow (position : Nat) (i : BitVec 32) : Prop :=
  i.toInt < 0 ∧ 0 ≤ i.toInt + (position % 32 : Nat)

/-- The slot that an index leads to. -/
theorem slot_cases
    (inside : position < layout.elements.length)
    (i : BitVec 32) :
    ((window layout position)[i.toNat]? =
        (blockOf layout.elements position)[wordAdd (position % 32)
          (toWord i)]? ∧
      0 ≤ i.toInt) ∨
    (BeforeWindow position i ∧ wordAdd (position % 32) (toWord i) <
      (blockOf layout.elements position).length) ∨
    (¬ BeforeWindow position i ∧ i.toInt < 0 ∧
      (blockOf layout.elements position).length ≤
      wordAdd (position % 32) (toWord i)) := by
  obtain ⟨_, below, atMost⟩ := length_window inside
  have small := i.isLt
  unfold wordAdd
  rcases lt_or_ge i.toInt 0 with negative | nonneg
  · have isWord : (toWord i : Int) = 2 ^ 64 + i.toInt :=
      SignedWords.signExtend_of_neg negative
    have atLeast := BitVec.le_toInt i
    right
    by_cases before : BeforeWindow position i
    · refine .inl ⟨before, ?_⟩
      have := before.2
      omega
    · refine .inr ⟨before, negative, ?_⟩
      have : i.toInt + (position % 32 : Nat) < 0 := by
        by_contra nonneg
        exact before ⟨negative, not_lt.mp nonneg⟩
      omega
  · have isWord : toWord i = i.toNat := SignedWords.signExtend_of_nonneg nonneg
    have fits : position % 32 + i.toNat < 2 ^ 64 := by omega
    refine .inl ⟨?_, nonneg⟩
    rw [isWord, window, List.getElem?_drop, Nat.mod_eq_of_lt fits]

/-- What `nth` gives: the element of the window, or the one of the block that is
so far before the window, or an exception. -/
theorem runs_nth
    (chunkAt : ChunkAt heap self node layout position)
    (backed : Backed heap (own self))
    (i : BitVec 32) :
    Runs (ArrayChunk.nth self i) heap fun result _ =>
      match (blockOf layout.elements position)[wordAdd (position % 32)
        (toWord i)]? with
      | some value => result = .ok value
      | none => ∃ exception, result = .error exception := by
  unfold ArrayChunk.nth
  apply chunkAt.runs_load
  intro transientID found
  dsimp only
  split
  · next beyond =>
      rw [List.getElem?_eq_none beyond]
      apply runs_releaseSelf backed
      exact fun _ _ => ⟨_, rfl⟩
  · next within =>
      have isSlot := List.getElem?_eq_getElem (Nat.lt_of_not_le within)
      apply Runs.bind
      apply runs_slotValue isSlot
      rw [isSlot]
      apply runs_takeValue backed (refers_of_slot found isSlot)
      exact fun _ _ => Runs.pure rfl

/-- What `nth_default` gives: the same element, or the default in its place. -/
theorem runs_nthDefault
    (chunkAt : ChunkAt heap self node layout position)
    {notFound : RTValue}
    (backed : Backed heap (own self + refs notFound))
    (i : BitVec 32) :
    Runs (ArrayChunk.nthDefault self i notFound) heap fun result _ =>
      result = ((blockOf layout.elements position)[wordAdd (position % 32)
        (toWord i)]?).getD
        notFound := by
  have selfBacked := backed.left (own_nonneg self) (refs_nonneg notFound)
  unfold ArrayChunk.nthDefault
  apply chunkAt.runs_load
  intro transientID found
  dsimp only
  split
  · next beyond =>
      rw [List.getElem?_eq_none beyond]
      apply runs_releaseSelf selfBacked
      exact fun _ _ => rfl
  · next within =>
      have isSlot := List.getElem?_eq_getElem (Nat.lt_of_not_le within)
      apply Runs.bind
      apply runs_slotValue isSlot
      rw [isSlot]
      apply Runs.bind
      apply runs_retainValue backed.excess_nonneg (refers_of_slot found isSlot)
      intro retained _ retain
      have kept := (retain.keep backed.nonneg).of_eq (zero_add _) rfl
      have retainedBacked := kept.given_backed backed
        (nonneg_add (refs_nonneg _) backed.nonneg)
      have restBacked := retainedBacked.right (refs_nonneg _) backed.nonneg
      apply Runs.bind
      apply runs_releaseValue
        (restBacked.right (own_nonneg self) (refs_nonneg notFound))
      intro released release
      have releasedBacked := release.backed (restBacked.of_eq (add_comm _ _))
        (fun _ => le_rfl) (own_nonneg self)
      apply runs_releaseSelf (releasedBacked.of_eq (zero_add _))
      exact fun _ _ => rfl

end ChunkAt

end Chunks

end Operations

end VectorSeq
end Runtime
end ClojureRt
