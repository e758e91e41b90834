import ClojureRt.Lib.GivenHeap
import ClojureRt.Runtime.PersistentList.Reduction
import ClojureRt.Runtime.VectorSeq.SeqReduction

/-!
# Arguments that are released twice

`RT_invokeMethodWithFrame` releases the arguments of a call, and an
implementation that consumes them has done so before.  Every such call takes one
reference to each argument too many, which shows where the reduced sequence
keeps its elements: after the reduction the counts do not cover the references
that are left.
-/

namespace ClojureRt
namespace Runtime

open RefCount RefCount.Program
open Sharing (Address RTValue)

namespace VectorSeq

open ClojureRt.Runtime.Vector
  (PersistentVector PersistentVectorNode Layout leafLayout Lays IsTail wordSub
    refs refsAll refs_pointer refs_immediate refs_nonneg refsAll_nil
    refsAll_cons)

theorem releases_releaseValue : Releases refs releaseValue where
  runs _ _ backed := runs_releaseValue backed fun _ trade => trade
  ensures heap value := by
    cases value with
    | immediate word =>
        apply Ensures.pure
        refine ⟨fun address => ?_, fun _ _ found => found⟩
        rw [refs_immediate, Pi.zero_apply, sub_zero]
    | pointer address =>
        rw [refs_pointer]
        exact Ensures.release_any

section Reductions

variable
  {impl : RTValue → RTValue → Code RTValue}
  {domain : RTValue → Prop}
  {held : Address → Int}
  {heap : SeqHeap}
  {self : Address}
  {vector : PersistentVector}
  {layout : Layout}
  {acc value start f : RTValue}

/-- The reduction of one slot. -/
theorem ensures_reduceSlots_single
    (implements : Implements refs held domain .consumes impl)
    (heldNonneg : ∀ address, 0 ≤ held address)
    {node : Address}
    {source : PersistentVectorNode}
    {slot : Nat}
    (found : (vectors heap).object? node = some (.node source))
    (isSlot : source.array[slot]? = some value)
    (accIn : domain acc)
    (valueIn : domain value)
    (backed : Backed heap (refs acc + held)) :
    Ensures (reduceSlots (invokeMethodWithFrame impl) node [slot] acc) heap
      fun reduction after =>
      ∀ address,
        after.excess address = heap.excess address + refs reduction.1 address -
        2 * refs acc address - refs value address := by
  rw [reduceSlots]
  apply Ensures.bind_of_runs
  apply runs_loadNode found
  apply Ensures.bind_of_runs
  apply runs_slotValue isSlot
  apply Ensures.bind_of_runs
  apply runs_retainValue backed.excess_nonneg
  · intro address isIn
    refine ⟨node, _, object_of_node.mp found, ?_⟩
    exact List.mem_flatMap.mpr ⟨value, List.mem_of_getElem? isSlot, isIn⟩
  intro retained _ retain
  have retainedBacked : Backed retained (refs acc + refs value + held) := by
    apply (retain.backed (backed.of_eq (zero_add _).symm) (refs_nonneg value)
      (result_nonneg heldNonneg acc)).of_eq
    abel
  apply Ensures.bind
  apply (implements.ensures_callAndRelease releases_releaseValue accIn valueIn
    retainedBacked.nonneg (fun _ => le_rfl)
      (retainedBacked.of_eq (add_zero _).symm)).mono
  rintro next called ⟨excess, _⟩
  rw [reduceSlots]
  apply Ensures.bind
  apply Ensures.pure
  apply Ensures.pure
  intro address
  rw [excess, retain.excess, Pi.zero_apply]
  ring

theorem ensures_finish {reduction : Reduction} :
    Ensures (do release self; releaseValue f; pure reduction) heap
      fun result after =>
      result = reduction ∧ ∀ address, after.excess address =
        heap.excess address - own self address - refs f address := by
  apply Ensures.bind
  apply Ensures.release_any.mono
  rintro _ released ⟨release, _⟩
  apply Ensures.bind
  apply (releases_releaseValue.ensures released f).mono
  rintro _ after ⟨last, _⟩
  apply Ensures.pure
  refine ⟨rfl, fun address => ?_⟩
  rw [last, release]

/-- The reduction of a seq at the last element of a vector without a trie. -/
theorem ChunkedSeq.ensures_reduce_last
    {it : PersistentVectorIterator}
    (implements : Implements refs (refs f) domain .consumes impl)
    (found : heap.object? self = some (.chunkedSeq it))
    (lays : Lays (vectors heap) it.parent vector layout)
    (noRoot : layout.root = none)
    (isElement : layout.elements[it.index]? = some value)
    (isLast : layout.elements.length = it.index + 1)
    (startIn : domain start)
    (valueIn : domain value)
    (backed : Backed heap (own self + (refs start + refs f))) :
    Ensures (ChunkedSeq.reduce (invokeMethodWithFrame impl) self f start) heap
      fun reduction after => ∀ address, after.excess address =
        heap.excess address + refs reduction.1 address - 2 * refs start
          address - refs value address - own self address - refs f address := by
  obtain ⟨transientID, foundTail⟩ := lays.isTail
  have isTail : layout.elements = layout.tail.elements := by
    rw [Layout.elements, noRoot]
    rfl
  have isStart : wordSub vector.count layout.tail.elements.length = 0 := by
    rw [lays.tailOffset, noRoot]
    rfl
  have slots : List.range' it.index (layout.tail.elements.length - it.index) =
      [it.index] := by
    rw [← isTail, isLast, Nat.add_sub_cancel_left]
    rfl
  unfold ChunkedSeq.reduce
  apply Ensures.bind_of_runs
  apply runs_loadChunkedSeq found
  apply Ensures.bind_of_runs
  apply runs_loadVector lays.found
  rw [lays.fits.tail]
  apply Ensures.bind_of_runs
  apply Runs.bind
  apply runs_loadNode foundTail
  apply Runs.pure
  dsimp only
  rw [isStart, Nat.zero_sub]
  apply Ensures.bind
  apply Ensures.pure
  apply Ensures.bind
  unfold ChunkedSeq.reduceTail
  rw [lays.fits.count, lays.fits.tail, if_pos (by omega)]
  dsimp only
  rw [if_neg (Nat.not_lt_zero _), Nat.sub_zero]
  apply Ensures.bind
  apply Ensures.pure
  apply Ensures.bind_of_runs
  apply runs_loadNode foundTail
  dsimp only
  rw [slots]
  apply (ensures_reduceSlots_single implements (refs_nonneg f) foundTail
    (isTail ▸ isElement) startIn valueIn
      (backed.right (own_nonneg self)
      (result_nonneg (refs_nonneg f) start))).mono
  intro rest passed excess
  apply ensures_finish.mono
  rintro _ after ⟨rfl, finish⟩ address
  rw [finish, excess]

end Reductions

/-! ## A vector of copies

The value is a seq that somebody else holds, too. -/

/-- The header of a vector without a trie. -/
def leafHeader (address count : Nat) : PersistentVector where
  count := count
  shift := 0
  transientID := 0
  tail := some address
  root := none
  metadata := .boxNil

/-- A seq at the start of a vector without a trie. -/
theorem at_of_leaf
    {heap : SeqHeap}
    {leaf parent : Address}
    {elements : List RTValue}
    {count : Nat}
    (isLeaf : heap.object? leaf =
      some (.runtime (.node ⟨.leafNode, 0, elements⟩)))
    (isVector : heap.object? parent =
      some (.runtime (.vector (leafHeader leaf count))))
    (isCount : elements.length = count)
    (nonempty : 0 < elements.length)
    (atMost : elements.length ≤ 32) :
    At heap ⟨0, 0, some leaf, parent⟩ (leafHeader leaf count)
      (leafLayout leaf elements atMost) 0 where
  lays :=
    { found := object_of_vector.mpr isVector
      fits := ⟨isCount.symm, rfl, rfl, rfl⟩
      isTrie := by simp [leafLayout]
      isTail := ⟨0, object_of_node.mpr isLeaf⟩ }
  inside := nonempty
  index := rfl
  block := by
    refine ⟨leaf, rfl, List.mem_singleton_self _, 0, ?_⟩
    have whole : Vector.blockOf elements 0 = elements := by
      exact List.take_of_length_le atMost
    exact (object_of_node.mpr isLeaf).trans
      (congrArg _ (congrArg _ (congrArg _ whole.symm)))
  blockIndex := rfl

theorem refsAll_replicate (count : Nat) (value : RTValue) (address : Address) :
    refsAll (List.replicate count value) address =
      count * refs value address := by
  induction count with
  | zero => simp
  | succ count inductionHypothesis =>
      rw [List.replicate_succ, refsAll_cons, Pi.add_apply, inductionHypothesis]
      push_cast
      ring

section Copies

variable (bound other : Address) (copies more : Nat)

/-- The vector at `bound + 1` has copies of the seq at `other`, and the seq at
`bound + 2` is over this vector.  There are `more` references to the seq at
`other` besides. -/
def copiesHeap : SeqHeap :=
  ((((((Heap.filled (.runtime (.other [])) 2 bound other).set
    bound (some
      ⟨1, .runtime
      (.node ⟨.leafNode, 0, List.replicate copies (.pointer other)⟩)⟩)).set
    (bound + 1) (some ⟨2, .runtime (.vector (leafHeader bound copies))⟩)).set
    (bound + 2) (some ⟨1, .chunkedSeq ⟨0, 0, some bound, bound + 1⟩⟩)).set
    (bound + 3)
    (some ⟨1, .runtime
    (.node ⟨.leafNode, 0, [.immediate 5, .immediate 7]⟩)⟩)).set
    (bound + 4) (some ⟨1, .runtime (.vector (leafHeader (bound + 3) 2))⟩)).set
    other (some
      ⟨copies + more, .chunkedSeq ⟨0, 0, some (bound + 3), bound + 4⟩⟩)

variable {bound other copies more}

theorem copiesHeap_excess (below : other < bound) (target : Address) :
    (copiesHeap bound other copies more).excess target =
      (if target < bound ∧ target ≠ other then 2 else 0) +
      own (bound + 1) target +
        own (bound + 2) target + more * own other target := by
  have ofCopies : owns (Referencing.references (Object.runtime (.node
      ⟨.leafNode, 0, List.replicate copies (.pointer other)⟩))) target =
        copies * own other target := by
    rw [owns_references_runtime_node, refsAll_replicate, refs_pointer]
  have ofPair : owns (Referencing.references (Object.runtime (.node
      ⟨.leafNode, 0, [.immediate 5, .immediate 7]⟩))) target = 0 :=
    congrFun owns_nil target
  have ofVector (leaf count : Nat) :
      owns (Referencing.references (Object.runtime (.vector
      (leafHeader leaf count)))) target = own leaf target := by
    exact congrFun (owns_singleton leaf) target
  have ofSeq (leaf parent : Address) :
      owns (Referencing.references (Object.chunkedSeq
      ⟨0, 0, some leaf, parent⟩)) target = own parent target :=
    congrFun (owns_singleton parent) target
  unfold copiesHeap
  rw [Heap.excess_set_fresh, Heap.excess_set_fresh, Heap.excess_set_fresh,
    Heap.excess_set_fresh, Heap.excess_set_fresh, Heap.excess_set_fresh,
    Heap.excess_filled rfl, ofCopies, ofPair, ofVector, ofVector, ofSeq, ofSeq]
  · push_cast
    ring
  -- every cell was empty before
  all_goals
    have apart (offset : Nat) : other ≠ bound + offset :=
      Nat.ne_of_lt (below.trans_le (Nat.le_add_right bound offset))
    simp [Heap.set, Heap.filled, Function.update, below.ne, apart]

theorem copiesHeap_backed
    (below : other < bound)
    {held : Address → Int}
    (nonneg : ∀ address, 0 ≤ held address)
    (atOther : held other ≤ more)
    (others : ∀ address, address < bound → address ≠ other → held address ≤ 2)
    (beyond : ∀ address, bound ≤ address →
      held address ≤ own (bound + 1) address + own (bound + 2) address) :
    Backed (copiesHeap bound other copies more) held where
  nonneg := nonneg
  le_excess := by
    intro address
    rw [copiesHeap_excess below]
    have vectorNonneg := own_nonneg (bound + 1) address
    have seqNonneg := own_nonneg (bound + 2) address
    by_cases isOther : address = other
    · subst isOther
      rw [if_neg fun both => both.2 rfl, own_self]
      omega
    · rw [own_of_ne isOther]
      by_cases inside : address < bound
      · rw [if_pos ⟨inside, isOther⟩]
        have := others address inside isOther
        omega
      · rw [if_neg fun both => inside both.1]
        have := beyond address (Nat.le_of_not_lt inside)
        omega

/-- The seq over the copies. -/
theorem copiesHeap_seq (below : other < bound) :
    (copiesHeap bound other copies more).object? (bound + 2) =
      some (.chunkedSeq ⟨0, 0, some bound, bound + 1⟩) := by
  have apart : bound + 2 ≠ other :=
    Nat.ne_of_gt (below.trans_le (Nat.le_add_right bound 2))
  simp [copiesHeap, Heap.object?, Heap.set, Function.update, apart]

theorem copiesHeap_at
    (below : other < bound)
    (nonempty : 0 < copies)
    (atMost : copies ≤ 32) :
    At (copiesHeap bound other copies more) ⟨0, 0, some bound, bound + 1⟩
      (leafHeader bound copies)
      (leafLayout bound (List.replicate copies (.pointer other))
        (by simpa using atMost)) 0 := by
  have apart (offset : Nat) : bound + offset ≠ other :=
    Nat.ne_of_gt (below.trans_le (Nat.le_add_right bound offset))
  have isLeaf : (copiesHeap bound other copies more).object? bound =
      some (.runtime
        (.node ⟨.leafNode, 0, List.replicate copies (.pointer other)⟩)) := by
    simp [copiesHeap, Heap.object?, Heap.set, Function.update, below.ne']
  have isVector : (copiesHeap bound other copies more).object? (bound + 1) =
      some (.runtime (.vector (leafHeader bound copies))) := by
    simp [copiesHeap, Heap.object?, Heap.set, Function.update, apart]
  exact at_of_leaf isLeaf isVector List.length_replicate
    (by rwa [List.length_replicate]) (by rwa [List.length_replicate])

/-- The seq that is copied. -/
theorem copiesHeap_other :
    (copiesHeap bound other copies more).object? other =
      some (.chunkedSeq ⟨0, 0, some (bound + 3), bound + 4⟩) := by
  simp [copiesHeap, Heap.object?]

theorem copiesHeap_other_leaf (below : other < bound) :
    (copiesHeap bound other copies more).object? (bound + 3) =
      some (.runtime (.node ⟨.leafNode, 0, [.immediate 5, .immediate 7]⟩)) := by
  have apart : bound + 3 ≠ other :=
    Nat.ne_of_gt (below.trans_le (Nat.le_add_right bound 3))
  simp [copiesHeap, Heap.object?, Heap.set, Function.update, apart]

theorem copiesHeap_other_vector (below : other < bound) :
    (copiesHeap bound other copies more).object? (bound + 4) =
      some (.runtime (.vector (leafHeader (bound + 3) 2))) := by
  have apart : bound + 4 ≠ other :=
    Nat.ne_of_gt (below.trans_le (Nat.le_add_right bound 4))
  simp [copiesHeap, Heap.object?, Heap.set, Function.update, apart]

theorem copiesHeap_other_at (below : other < bound) :
    At (copiesHeap bound other copies more) ⟨0, 0, some (bound + 3), bound + 4⟩
      (leafHeader (bound + 3) 2)
      (leafLayout (bound + 3) [.immediate 5, .immediate 7] (by decide)) 0 :=
  at_of_leaf (copiesHeap_other_leaf below) (copiesHeap_other_vector below) rfl
    (by decide)
    (by decide)

/-- The seq that is copied does not lead to the one over the copies. -/
theorem copiesHeap_unreached (below : other < bound) :
    ¬ Reached (copiesHeap bound other copies more) (own other) (bound + 2) := by
  intro reached
  have within :=
    reached.within (fun address => address = other ∨ address = bound + 4 ∨
    address = bound + 3) ?_ ?_
  · have apart : bound + 2 ≠ other :=
      Nat.ne_of_gt (below.trans_le (Nat.le_add_right bound 2))
    simp [apart] at within
  · intro address positive
    by_contra isOther
    rw [own_of_ne (fun same => isOther (.inl same))] at positive
    exact lt_irrefl 0 positive
  · rintro source object (rfl | rfl | rfl) found target refers
    · obtain rfl := Option.some.inj (copiesHeap_other.symm.trans found)
      exact .inr (.inl (List.mem_singleton.mp refers))
    · obtain rfl :=
        Option.some.inj ((copiesHeap_other_vector below).symm.trans found)
      exact .inr (.inr (List.mem_singleton.mp refers))
    · obtain rfl :=
        Option.some.inj ((copiesHeap_other_leaf below).symm.trans found)
      exact absurd refers (List.not_mem_nil)

end Copies

/-- Addresses beyond those of some values, and the references to an address from
them. -/
theorem exists_bound (other : Address) (start f : RTValue) :
    ∃ bound more,
      other < bound ∧
      ((more : Nat) : Int) = 1 + refs start other + refs f other ∧
      ∀ address, bound ≤ address → refs start address = 0 ∧
        refs f address = 0 := by
  have beyond (value : RTValue) : ∃ bound, ∀ address, bound ≤ address →
      refs value address = 0 := by
    cases value with
    | immediate word => exact ⟨0, fun _ _ => by rw [refs_immediate]; rfl⟩
    | pointer pointed =>
        refine ⟨pointed + 1, fun address isBeyond => ?_⟩
        rw [refs_pointer, own_of_ne (Nat.ne_of_gt isBeyond)]
  obtain ⟨first, isFirst⟩ := beyond start
  obtain ⟨second, isSecond⟩ := beyond f
  refine ⟨max (other + 1) (max first second),
    (1 + refs start other + refs f other).toNat, ?_, ?_, ?_⟩
  · exact Nat.lt_of_lt_of_le (Nat.lt_succ_self other) (Nat.le_max_left _ _)
  · apply Int.toNat_of_nonneg
    have := refs_nonneg start other
    have := refs_nonneg f other
    omega
  · intro address isBeyond
    rw [max_le_iff, max_le_iff] at isBeyond
    exact ⟨isFirst address isBeyond.2.1, isSecond address isBeyond.2.2⟩


section Overrun

variable
  {impl : RTValue → RTValue → Code RTValue}
  {domain : RTValue → Prop}
  {bound other : Address}
  {more : Nat}
  {start f : RTValue}

/-- What is held of the vector of copies and of the seqs. -/
theorem copiesHeap_holds
    (copies : Nat)
    (below : other < bound)
    (isMore : (more : Int) = 1 + refs start other + refs f other)
    (beyond : ∀ address, bound ≤ address → refs start address = 0 ∧
      refs f address = 0) :
    Backed (copiesHeap bound other copies more)
      (own (bound + 2) + (refs start + refs f) + own other +
        own (bound + 1)) := by
  have atMostOne (value : RTValue) (address : Address) :
      refs value address ≤ 1 := by
    cases value with
    | immediate word =>
        rw [refs_immediate]
        exact Int.zero_le_ofNat 1
    | pointer pointed =>
        rw [refs_pointer, own]
        split <;> decide
  have apart {address : Address} (inside : address < bound) (offset : Nat) :
      address ≠ bound + offset :=
    Nat.ne_of_lt (inside.trans_le (Nat.le_add_right bound offset))
  apply copiesHeap_backed below
  · exact nonneg_add (nonneg_add (nonneg_add (own_nonneg _)
      (result_nonneg (refs_nonneg f) start)) (own_nonneg other)) (own_nonneg _)
  · simp only [Pi.add_apply, own_self, own_of_ne (apart below 1),
      own_of_ne (apart below 2)]
    omega
  · intro address inside isOther
    have := atMostOne start address
    have := atMostOne f address
    simp only [Pi.add_apply, own_of_ne (apart inside 1),
      own_of_ne (apart inside 2), own_of_ne isOther]
    omega
  · intro address isBeyond
    have isOther : address ≠ other := Nat.ne_of_gt (below.trans_le isBeyond)
    simp only [Pi.add_apply, own_of_ne isOther, beyond address isBeyond]
    omega

/-- What is held of the seq over the copies, and of the copied seq. -/
theorem copiesHeap_seq_backed
    (copies : Nat)
    (below : other < bound)
    (isMore : (more : Int) = 1 + refs start other + refs f other)
    (beyond : ∀ address, bound ≤ address → refs start address = 0 ∧
      refs f address = 0) :
    Backed (copiesHeap bound other copies more)
      (own (bound + 2) + (refs start + refs f) + own other) :=
  (copiesHeap_holds copies below isMore beyond).left
    (nonneg_add
      (nonneg_add (own_nonneg _) (result_nonneg (refs_nonneg f) start))
      (own_nonneg other)) (own_nonneg _)

/-- After the reduction of one copy the counts do not cover the result and the
seq. -/
theorem ensures_reduce_copy
    (implements : Implements refs (refs f) domain .consumes impl)
    (below : other < bound)
    (isMore : (more : Int) = 1 + refs start other + refs f other)
    (beyond : ∀ address, bound ≤ address → refs start address = 0 ∧
      refs f address = 0)
    (otherIn : domain (.pointer other))
    (startIn : domain start) :
    Ensures (ChunkedSeq.reduce (invokeMethodWithFrame impl) (bound + 2) f start)
      (copiesHeap bound other 1 more) fun reduction after =>
        after.excess other = refs reduction.1 other - refs start other := by
  have isAt : At (copiesHeap bound other 1 more) ⟨0, 0, some bound, bound + 1⟩
      _ _ 0 :=
    copiesHeap_at below (by decide) (by decide)
  have apart : other ≠ bound + 2 :=
    Nat.ne_of_lt (below.trans_le (Nat.le_add_right bound 2))
  have taken := (copiesHeap_seq_backed 1 below isMore beyond).left
    (nonneg_add (own_nonneg _) (result_nonneg (refs_nonneg f) start))
    (own_nonneg other)
  apply (ChunkedSeq.ensures_reduce_last implements (copiesHeap_seq below)
    isAt.lays rfl rfl rfl startIn otherIn taken).mono
  intro reduction after excess
  rw [excess, copiesHeap_excess below, if_neg fun both => both.2 rfl, own_self,
    own_of_ne apart,
    own_of_ne (Nat.ne_of_lt (below.trans_le (Nat.le_add_right bound 1))),
    refs_pointer, own_self]
  omega

/-- After the reduction of two copies without an initial value they do not,
either. -/
theorem ensures_reduce2_copies
    (implements : Implements refs (refs f) domain .consumes impl)
    (invokeDynamic : Code RTValue)
    (below : other < bound)
    (isMore : (more : Int) = 1 + refs .boxNil other + refs f other)
    (beyond : ∀ address, bound ≤ address → refs .boxNil address = 0 ∧
      refs f address = 0)
    (otherIn : domain (.pointer other)) :
    Ensures (ChunkedSeq.reduce2 (invokeMethodWithFrame impl) invokeDynamic
      (bound + 2) f)
      (copiesHeap bound other 2 more) fun reduction after =>
        after.excess other = refs reduction.1 other - 1 := by
  have isAt : At (copiesHeap bound other 2 more) ⟨0, 0, some bound, bound + 1⟩
      _ _ 0 :=
    copiesHeap_at below (by decide) (by decide)
  have apart : other ≠ bound + 2 :=
    Nat.ne_of_lt (below.trans_le (Nat.le_add_right bound 2))
  have taken := (copiesHeap_seq_backed 2 below isMore beyond).left
    (nonneg_add (own_nonneg _) (result_nonneg (refs_nonneg f) _))
    (own_nonneg other)
  rw [Vector.refs_boxNil, zero_add] at taken
  obtain ⟨moved, written, same, isStored, sameParent, isIndex, _, written',
      lays, backed⟩ :=
    ChunkedSeq.reduce2_eq (invokeMethodWithFrame impl) invokeDynamic
      (copiesHeap_seq below) isAt
      rfl taken
  apply Ensures.of_eq same
  split
  · next tooFew => exact absurd tooFew (show ¬ 2 ≤ 0 + 1 by decide)
  apply (ChunkedSeq.ensures_reduce_last implements isStored lays rfl
    (by rw [isIndex]; rfl) (by rw [isIndex]; rfl) otherIn otherIn backed).mono
  intro reduction after excess
  rw [excess, written', copiesHeap_excess below, if_neg fun both => both.2 rfl,
    own_self,
    own_of_ne apart,
    own_of_ne (Nat.ne_of_lt (below.trans_le (Nat.le_add_right bound 1))),
    refs_pointer, own_self]
  rw [Vector.refs_boxNil, Pi.zero_apply] at isMore
  omega

end Overrun

end VectorSeq

namespace PersistentList

theorem releases_releaseValue : Releases refs releaseValue where
  runs _ _ backed := runs_releaseValue_trade backed fun _ trade => trade
  ensures heap value := by
    cases value with
    | immediate word =>
        apply Ensures.pure
        refine ⟨fun address => ?_, fun _ _ found => found⟩
        rw [refs_immediate, Pi.zero_apply, sub_zero]
    | pointer address =>
        rw [refs_pointer]
        exact Ensures.release_any

section Reductions

variable
  {impl : RTValue → RTValue → Code RTValue}
  {domain : RTValue → Prop}
  {heap : ListHeap}
  {self next : Address}
  {start value f : RTValue}

/-- The end of a list, if it is still there. -/
theorem ensures_reduceCells_end
    {invoke : RTValue → RTValue → Code RTValue}
    {fuel : Nat}
    {metadata : RTValue}
    (isEnd : ∀ object, heap.object? next = some object →
      object = .list ⟨boxNull, none, 0, metadata⟩) :
    Ensures (reduceCells invoke (fuel + 1) (some next) start) heap
      fun reduction after =>
      reduction = (start, []) ∧
        ∀ address,
          after.excess address = heap.excess address - own next address := by
  rw [reduceCells]
  apply Ensures.bind
  unfold loadList
  apply Ensures.bind
  apply Ensures.load
  intro object found
  rw [isEnd object found]
  apply Ensures.pure
  rw [if_pos rfl]
  apply Ensures.bind
  apply Ensures.release_any.mono
  rintro _ after ⟨release, _⟩
  exact Ensures.pure ⟨rfl, release⟩

/-- The loop over a list of one value that somebody else holds, too. -/
theorem ensures_reduceCells_single
    (implements : Implements refs (refs f) domain .consumes impl)
    {metadata endMetadata : RTValue}
    (isValue : value ≠ boxNull)
    (found : heap.object? self = some (.list ⟨value, some next, 1, metadata⟩))
    (isEnd : heap.object? next = some (.list ⟨boxNull, none, 0, endMetadata⟩))
    (isShared : heap.count self ≠ 1)
    (startIn : domain start)
    (valueIn : domain value)
    (backed : Backed heap (own self + (refs start + refs f)))
    (fuel : Nat) :
    Ensures (reduceCells (invokeMethodWithFrame impl) (fuel + 1 + 1) (some self)
      start) heap fun reduction after =>
      ∀ address,
        after.excess address = heap.excess address + refs reduction.1 address -
        2 * refs start address - refs value address - own self address := by
  have selfNonneg := own_nonneg self
  have nextNonneg := own_nonneg next
  have valueNonneg := refs_nonneg value
  have startNonneg : ∀ address, 0 ≤ (refs start + refs f) address :=
    nonneg_add (refs_nonneg start) (refs_nonneg f)
  rw [reduceCells]
  apply Ensures.bind_of_runs
  apply runs_loadList found
  rw [if_neg isValue]
  apply Ensures.bind_of_runs
  apply Runs.isReusable found
  rw [if_neg (by simpa using isShared)]
  apply Ensures.bind_of_runs
  apply runs_retainValue_trade backed.excess_nonneg
  · intro address isIn
    exact ⟨self, _, found,
      List.mem_append_left _ (List.mem_append_right _ isIn)⟩
  intro first sameFirst retainFirst
  have firstBacked := retainFirst.backed (backed.of_eq (zero_add _).symm)
    valueNonneg (nonneg_add selfNonneg startNonneg)
  have refers : first.Refers self next :=
    ⟨_, by rw [sameFirst, found], next_mem_references⟩
  apply Ensures.bind_of_runs
  apply Runs.retain_trade firstBacked.excess_nonneg refers
  intro retained sameRetained retainNext
  have retainedBacked : Backed retained
      (refs start + refs value + refs f + (own self + own next)) := by
    apply (retainNext.backed (firstBacked.of_eq (zero_add _).symm) nextNonneg
      firstBacked.nonneg).of_eq
    abel
  apply Ensures.bind
  apply (implements.ensures_callAndRelease releases_releaseValue
    startIn valueIn
    (nonneg_add (nonneg_add (refs_nonneg start) valueNonneg) (refs_nonneg f))
    (nonneg_add selfNonneg nextNonneg) retainedBacked).mono
  rintro result called ⟨excess, kept⟩
  apply Ensures.bind
  apply Ensures.release_any.mono
  rintro _ released ⟨release, stays⟩
  apply Ensures.bind
  have stillEnd (object : Object)
      (isObject : released.object? next = some object) :
      object = .list ⟨boxNull, none, 0, endMetadata⟩ := by
    have reached : Reached retained (own self + own next) next := by
      apply (Reached.of_own next).mono
      intro other
      rw [Pi.add_apply]
      have := selfNonneg other
      omega
    have isBefore := kept next reached object (stays next object isObject)
    rw [sameRetained, sameFirst, isEnd] at isBefore
    exact (Option.some.inj isBefore).symm
  apply (ensures_reduceCells_end stillEnd).mono
  rintro rest after ⟨rfl, last⟩
  apply Ensures.pure
  intro address
  rw [last, release, excess, retainNext.excess, retainFirst.excess]
  simp only [Pi.zero_apply]
  ring

/-- The reduction of a list of one value that somebody else holds, too. -/
theorem ensures_reduce_single
    (implements : Implements refs (refs f) domain .consumes impl)
    {metadata endMetadata : RTValue}
    (isValue : value ≠ boxNull)
    (found : heap.object? self = some (.list ⟨value, some next, 1, metadata⟩))
    (isEnd : heap.object? next = some (.list ⟨boxNull, none, 0, endMetadata⟩))
    (isShared : heap.count self ≠ 1)
    (startIn : domain start)
    (valueIn : domain value)
    (backed : Backed heap (own self + (refs start + refs f))) :
    Ensures (reduce (invokeMethodWithFrame impl) self f start) heap
      fun reduction after =>
      ∀ address,
        after.excess address = heap.excess address + refs reduction.1 address -
        2 * refs start address - refs value address - own self address -
          refs f address := by
  obtain ⟨fuel, isFuel⟩ : ∃ fuel, heap.next = fuel + 1 :=
    Nat.exists_eq_succ_of_ne_zero
      (Nat.ne_of_gt (Nat.zero_lt_of_lt (Heap.lt_next_of_object found)))
  have looping :=
    ensures_reduceCells_single implements isValue found isEnd isShared startIn
      valueIn backed fuel
  rw [← isFuel] at looping
  have along :
      Ensures (alongChain fun fuel =>
      reduceCells (invokeMethodWithFrame impl) fuel
      (some self) start) heap _ := ⟨looping.of_result⟩
  unfold reduce
  apply Ensures.bind
  apply along.mono
  intro reduction folded excess
  apply Ensures.bind
  apply (releases_releaseValue.ensures folded f).mono
  rintro _ after ⟨last, _⟩
  apply Ensures.pure
  intro address
  rw [last, excess]

end Reductions

/-! ## A list of one value

The value is an empty list, and the end of the list is the one that all lists
share. -/

theorem refs_eq_vector (value : RTValue) : refs value = Vector.refs value := by
  cases value <;> rfl

section Single

variable (bound other : Address) (more : Nat)

/-- The list at `bound` of the empty list at `other`, to which there are `more`
references besides. -/
def singleHeap : ListHeap :=
  ((Heap.filled (.list emptyCell) 3 bound other).set
    bound (some ⟨2, .list ⟨.pointer other, some emptyList, 1, .boxNil⟩⟩)).set
    other (some ⟨2 + more, .list emptyCell⟩)

variable {bound other more}

theorem singleHeap_excess (below : other < bound) (target : Address) :
    (singleHeap bound other more).excess target =
      (if target < bound ∧ target ≠ other then 3 else 0) +
      2 * own bound target -
        own emptyList target + (1 + more) * own other target := by
  have ofEmpty :
      owns (Referencing.references (Object.list emptyCell)) target = 0 :=
    congrFun owns_nil target
  have ofSingle : owns (Referencing.references (Object.list
      ⟨.pointer other, some emptyList, 1, .boxNil⟩)) target =
        own emptyList target + own other target := by
    rw [owns_references_list, owns_some, refs_pointer, refs_boxNil, add_zero,
      Pi.add_apply]
  unfold singleHeap
  rw [Heap.excess_set_fresh, Heap.excess_set_fresh, Heap.excess_filled rfl,
    ofEmpty, ofSingle]
  · push_cast
    ring
  · exact Heap.filled_cells_beyond _ _ _ le_rfl
  · rw [Heap.set_cells_of_ne _ _ below.ne, Heap.filled_cells_hole]

theorem singleHeap_found (below : other < bound) :
    (singleHeap bound other more).object? bound =
      some (.list ⟨.pointer other, some emptyList, 1, .boxNil⟩) := by
  rw [singleHeap, Heap.object?, Heap.set_cells_of_ne _ _ below.ne',
    Heap.set_cells_self]
  rfl

theorem singleHeap_count (below : other < bound) :
    (singleHeap bound other more).count bound = 2 := by
  rw [singleHeap, Heap.count, Heap.set_cells_of_ne _ _ below.ne',
    Heap.set_cells_self]
  rfl

theorem singleHeap_end (below : other < bound) :
    (singleHeap bound other more).object? emptyList =
    some (.list emptyCell) := by
  by_cases isOther : emptyList = other
  · rw [isOther, singleHeap, Heap.object?, Heap.set_cells_self]
    rfl
  · have inside : emptyList < bound := Nat.zero_lt_of_lt below
    rw [singleHeap, Heap.object?, Heap.set_cells_of_ne _ _ isOther,
      Heap.set_cells_of_ne _ _ inside.ne, Heap.filled]
    dsimp only
    rw [if_pos ⟨inside, isOther⟩]
    rfl

theorem singleHeap_backed
    {f : RTValue}
    (below : other < bound)
    (isMore : (more : Int) = 1 + refs f other)
    (beyond : ∀ address, bound ≤ address → refs f address = 0) :
    Backed (singleHeap bound other more)
      (own bound + (refs (.pointer other) + refs f)) where
  nonneg := nonneg_add (own_nonneg bound)
    (nonneg_add (refs_nonneg (.pointer other)) (refs_nonneg f))
  le_excess := by
    intro address
    have atMostOne (pointed : Address) : own pointed address ≤ 1 := by
      rw [own]
      split <;> decide
    have fromFunction : refs f address ≤ 1 := by
      cases f with
      | immediate word =>
          rw [refs_immediate]
          exact Int.zero_le_ofNat 1
      | pointer pointed =>
          rw [refs_pointer]
          exact atMostOne pointed
    have atEnd := atMostOne emptyList
    rw [singleHeap_excess below, refs_pointer]
    simp only [Pi.add_apply]
    by_cases isOther : address = other
    · subst isOther
      rw [if_neg fun both => both.2 rfl, own_self, own_of_ne below.ne]
      omega
    by_cases isBound : address = bound
    · subst isBound
      have notEnd : address ≠ emptyList :=
        Nat.ne_of_gt (Nat.zero_lt_of_lt below)
      rw [own_self, own_of_ne isOther, own_of_ne notEnd, beyond address le_rfl,
        if_neg fun both => lt_irrefl _ both.1]
      omega
    · rw [own_of_ne isOther, own_of_ne isBound]
      by_cases inside : address < bound
      · rw [if_pos ⟨inside, isOther⟩]
        omega
      · have notEnd : address ≠ emptyList := by
          rintro rfl
          exact inside (Nat.zero_lt_of_lt below)
        rw [if_neg fun both => inside both.1,
          beyond address (Nat.le_of_not_lt inside),
          own_of_ne notEnd]
        omega

/-- After the reduction of the list, from the value itself on, the counts do not
cover the result. -/
theorem ensures_reduce_singleHeap
    {impl : RTValue → RTValue → Code RTValue}
    {domain : RTValue → Prop}
    {f : RTValue}
    (implements : Implements refs (refs f) domain .consumes impl)
    (below : other < bound)
    (isMore : (more : Int) = 1 + refs f other)
    (beyond : ∀ address, bound ≤ address → refs f address = 0)
    (otherIn : domain (.pointer other)) :
    Ensures (reduce (invokeMethodWithFrame impl) bound f (.pointer other))
      (singleHeap bound other more) fun reduction after =>
        after.excess other < refs reduction.1 other := by
  have isShared : (singleHeap bound other more).count bound ≠ 1 := by
    rw [singleHeap_count below]
    decide
  have isValue : RTValue.pointer other ≠ boxNull := by
    intro same
    cases same
  apply (ensures_reduce_single implements isValue (singleHeap_found below)
    (singleHeap_end below)
    isShared otherIn otherIn (singleHeap_backed below isMore beyond)).mono
  intro reduction after excess
  have atEnd := own_nonneg emptyList other
  rw [excess, singleHeap_excess below, if_neg fun both => both.2 rfl, own_self,
    own_of_ne below.ne, refs_pointer, own_self]
  omega

end Single

end PersistentList
end Runtime
end ClojureRt
