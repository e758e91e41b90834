import ClojureRt.Runtime.PersistentList.Rules

/-!
# Lists as sequences

Lists that are built with `conj` have the values in the order of the cells.
Taking `first` and then `next` delivers them one after the other, and then once
more the mark in the last cell: `next` is nil only where there is no further
cell, and the cell without a value is one.
-/

namespace ClojureRt
namespace Runtime
namespace PersistentList

open RefCount RefCount.Program
open Sharing (Address RTValue)

/-! ## Code that writes new objects only -/

/-- The counts have changed, and nothing was written but new objects. -/
def Grows (heap after : ListHeap) (change : Address → Int) : Prop :=
  Since heap after change (fun _ => False) fun address => heap.next ≤ address

namespace Grows

variable {heap middle after : ListHeap} {change change' : Address → Int}

theorem of_since
    {written : Address → Prop}
    (since : Since heap after change (fun _ => False) written)
    (fresh : ∀ address, written address → heap.next ≤ address) :
    Grows heap after change :=
  since.weaken rfl (fun _ => id) fresh

theorem change_eq (grows : Grows heap after change) (same : change = change') :
    Grows heap after change' :=
  same ▸ grows

theorem trans
    (first : Grows heap middle change)
    (second : Grows middle after change') :
    Grows heap after (change + change') := by
  apply (Since.trans first second).weaken rfl
  · rintro address (never | never) <;> exact never
  · rintro address (isNew | isNew)
    · exact isNew
    · exact first.effect.next_le.trans isNew

theorem holds
    {held held' : List Address}
    (grows : Grows heap after change)
    (before : Holds heap held)
    (le : ∀ address, owns held' address ≤ owns held address + change address) :
    Holds after held' :=
  Since.holds grows before le

theorem kept
    (grows : Grows heap after change)
    {address : Address}
    {object : Object}
    (found : heap.object? address = some object)
    (present : ∃ now, after.object? address = some now) :
    after.object? address = some object := by
  rw [Since.object_eq grows (Nat.not_le.mpr (Heap.lt_next_of_object found))
    present, found]

theorem isList
    {address : Address}
    {values : List RTValue}
    {held : List Address}
    (grows : Grows heap after change)
    (before : IsList heap address values)
    (holdsAfter : Holds after held)
    (isHeld : address ∈ held) : IsList after address values := by
  apply before.of_kept _ holdsAfter.excess_nonneg (holdsAfter.present isHeld)
  intro other object found present
  exact grows.kept found present

end Grows

/-! ## The operations on one cell -/

section Operations

variable {heap : ListHeap} {self : Address} {cell : Cell}

/-- A cell refers to the rest of the list. -/
theorem rest_subset
    {rest : Address}
    (isRest : cell.rest = some rest) :
    addresses (.pointer rest) ⊆ Referencing.references (Object.list cell) := by
  intro address isIn
  rw [List.mem_singleton.mp isIn]
  apply List.mem_append_left _ (List.mem_append_left _ _)
  rw [isRest]
  exact List.mem_singleton_self rest

/-- A value of the list is taken for the list. -/
theorem runs_takeValue
    {Result : Type}
    (found : heap.object? self = some (.list cell))
    (holds : Holds heap [self])
    {value : RTValue}
    (isValue : addresses value ⊆ Referencing.references (Object.list cell))
    {next : Code Result}
    {post : Result → ListHeap → Prop}
    (runs : ∀ after, Grows heap after (refs value - own self) →
      Runs next after post) :
    Runs (do retainValue value; release self; next) heap post := by
  apply Runs.bind
  apply runs_retainValue (Since.refl heap)
    fun address isIn => holds.reference_present found (isValue isIn)
  intro middle _ retained
  apply Runs.bind
  apply Runs.release_since retained
  · intro other
    have owned := holds other
    have := refs_nonneg value other
    rw [owns_singleton] at owned
    rw [Pi.add_apply, Pi.zero_apply]
    omega
  intro after _ since
  apply runs after
  apply Grows.of_since (since.weaken (by abel) (fun _ => id) fun _ => id)
  exact fun _ never => never.elim

theorem runs_release
    (holds : Holds heap [self])
    {post : Unit → ListHeap → Prop}
    (released : ∀ after, Grows heap after (-own self) → post () after) :
    Runs (release self) heap post := by
  apply Runs.release_since (Since.refl heap)
  · intro other
    have owned := holds other
    rw [owns_singleton] at owned
    rw [Pi.zero_apply]
    omega
  intro after _ since
  apply released after
  apply Grows.of_since (since.weaken (zero_sub _) (fun _ => id) fun _ => id)
  exact fun _ never => never.elim

theorem runs_first
    (found : heap.object? self = some (.list cell))
    (holds : Holds heap [self]) :
    Runs (first self) heap fun result after =>
      result = cell.first ∧ Grows heap after (refs cell.first - own self) := by
  unfold first
  apply Runs.bind
  apply runs_loadList found
  split
  · next isNull =>
      apply Runs.bind
      apply runs_release holds
      intro after grows
      apply Runs.pure
      rw [isNull, refs_boxNull, zero_sub]
      exact ⟨rfl, grows⟩
  · apply runs_takeValue found holds
    · intro address isIn
      exact List.mem_append_left _ (List.mem_append_right _ isIn)
    · intro after grows
      exact Runs.pure ⟨rfl, grows⟩

/-- What `next` delivers. -/
def Cell.next (cell : Cell) : RTValue :=
  match cell.rest with
  | none => .boxNil
  | some rest => .pointer rest

theorem runs_next
    (found : heap.object? self = some (.list cell))
    (holds : Holds heap [self]) :
    Runs (next self) heap fun result after =>
      result = cell.next ∧ Grows heap after (refs cell.next - own self) := by
  unfold next Cell.next
  apply Runs.bind
  apply runs_loadList found
  cases isRest : cell.rest with
  | none =>
      apply Runs.bind
      apply runs_release holds
      intro after grows
      apply Runs.pure
      rw [refs_boxNil, zero_sub]
      exact ⟨rfl, grows⟩
  | some rest =>
      apply runs_takeValue found holds (rest_subset isRest)
      intro after grows
      exact Runs.pure ⟨rfl, grows⟩

theorem runs_pop
    (found : heap.object? self = some (.list cell))
    (holds : Holds heap [self, emptyList]) :
    Runs (pop self) heap fun result after =>
      result = cell.rest.getD emptyList ∧
        Grows heap after (own result - own self) := by
  unfold pop
  apply Runs.bind
  apply runs_loadList found
  cases isRest : cell.rest with
  | none =>
      apply Runs.bind
      apply runs_release holds.head
      intro middle released
      have emptyHeld : Holds middle [emptyList] := by
        apply released.holds holds
        intro other
        rw [owns_cons self, Pi.add_apply, Pi.neg_apply]
        omega
      apply Runs.bind
      apply Runs.retain_since released
        (emptyHeld.present (List.mem_singleton_self _))
      intro after _ since
      apply Runs.pure
      refine ⟨rfl, Since.weaken since ?_ (fun _ => id) fun _ => id⟩
      abel
  | some rest =>
      apply runs_takeValue found holds.head (rest_subset isRest)
      intro after grows
      exact Runs.pure ⟨rfl, grows.change_eq (by rw [refs_pointer])⟩

theorem runs_count
    (found : heap.object? self = some (.list cell))
    (holds : Holds heap [self]) :
    Runs (count self) heap fun result after =>
      result = cell.count ∧ Grows heap after (-own self) := by
  unfold count
  apply Runs.bind
  apply runs_loadList found
  apply Runs.bind
  apply runs_release holds
  intro after grows
  exact Runs.pure ⟨rfl, grows⟩

theorem runs_getMeta
    (found : heap.object? self = some (.list cell))
    (holds : Holds heap [self]) :
    Runs (getMeta self) heap fun result after =>
      result = cell.metadata ∧
        Grows heap after (refs cell.metadata - own self) := by
  unfold getMeta
  apply Runs.bind
  apply runs_loadList found
  apply runs_takeValue found holds
  · intro address isIn
    exact List.mem_append_right _ isIn
  · intro after grows
    exact Runs.pure ⟨rfl, grows⟩

/-- `conj` takes the list and the value. -/
theorem runs_conj
    (found : heap.object? self = some (.list cell))
    {value : RTValue}
    (isValue : value ≠ boxNull) :
    Runs (conj self value) heap fun result after =>
      after.object? result =
        some (.list ⟨value, some self, cell.count + 1, .boxNil⟩) ∧
        (∀ other < heap.next, after.object? other = heap.object? other) ∧
        result = heap.next ∧
          Grows heap after (own result - (own self + refs value)) := by
  unfold conj create countOfRest
  apply Runs.bind
  apply Runs.bind
  apply runs_loadList found
  apply Runs.pure
  apply Runs.allocate_since (Since.refl heap)
  intro after stored others since
  rw [if_neg isValue] at stored
  refine ⟨stored, fun other below => others other (Nat.ne_of_lt below), rfl, ?_⟩
  apply Since.weaken since
  · rw [owns_references_list, owns_some, refs_boxNil]
    abel
  · exact fun _ => id
  · rintro address (never | isNew)
    · exact never.elim
    · exact Nat.le_of_eq isNew.symm

end Operations

/-! ## Construction -/

section Construction

variable {heap : ListHeap} {self : Address} {values : List RTValue}

theorem runs_conj_isList
    (isList : IsList heap self values)
    {value : RTValue}
    (isValue : value ≠ boxNull)
    (holds : Holds heap (self :: addresses value)) :
    Runs (conj self value) heap fun result after =>
      IsList after result (value :: values) ∧
        Grows heap after (own result - (own self + refs value)) := by
  obtain ⟨cell, found, _, isCount⟩ := isList.cell
  apply (runs_conj found isValue).mono
  rintro result after ⟨stored, _, _, grows⟩
  refine ⟨⟨isValue, self, .boxNil, ?_, ?_⟩, grows⟩
  · rw [stored, isCount]
    congr 3
    exact (BitVec.ofNat_add values.length 1).symm
  · -- the new cell holds on to the rest
    have nonneg (other : Address) : 0 ≤ after.excess other := by
      have owned := holds other
      have := own_nonneg result other
      rw [owns_cons, Pi.add_apply] at owned
      rw [grows.effect.excess, Pi.sub_apply, Pi.add_apply, refs]
      omega
    apply isList.of_kept
      (fun other object found present => grows.kept found present) nonneg
    exact Heap.object_of_reference nonneg stored
      (List.mem_append_left _
        (List.mem_append_left _ (List.mem_singleton_self self)))

/-- Values that are added one after the other end up in front, the last one
first. -/
theorem runs_conjAll
    {args : List RTValue}
    (isList : IsList heap self values)
    (areValues : boxNull ∉ args)
    (holds : Holds heap (self :: addressesOf args)) :
    Runs (conjAll self args) heap fun result after =>
      IsList after result (args.reverse ++ values) ∧
        Grows heap after
          (own result - (own self + owns (addressesOf args))) := by
  induction args generalizing heap self values with
  | nil =>
      apply Runs.pure
      refine ⟨isList,
        Since.weaken (Since.refl heap) ?_ (fun _ => id) fun _ never =>
          never.elim⟩
      rw [owns_addressesOf_nil]
      abel
  | cons arg args inductionHypothesis =>
      obtain ⟨isValue, others⟩ := List.ne_and_not_mem_of_not_mem_cons areValues
      have argHolds : Holds heap (self :: addresses arg) := by
        intro other
        have owned := holds other
        have := owns_nonneg (addressesOf args) other
        rw [owns_cons, owns_addressesOf_cons, Pi.add_apply,
          Pi.add_apply] at owned
        rw [owns_cons, Pi.add_apply]
        unfold refs at owned
        omega
      rw [conjAll]
      apply Runs.bind
      apply (runs_conj_isList isList (Ne.symm isValue) argHolds).mono
      rintro next middle ⟨nextList, grown⟩
      have nextHolds : Holds middle (next :: addressesOf args) := by
        apply grown.holds holds
        intro other
        simp only [owns_cons, owns_addressesOf_cons, Pi.add_apply, Pi.sub_apply]
        omega
      apply (inductionHypothesis nextList others nextHolds).mono
      rintro result after ⟨resultList, grows⟩
      refine ⟨?_, (grown.trans grows).change_eq ?_⟩
      · rw [List.reverse_cons, List.append_assoc]
        exact resultList
      · rw [owns_addressesOf_cons]
        abel

theorem runs_empty
    (holds : Holds heap [emptyList]) :
    Runs empty heap fun result after =>
      result = emptyList ∧ Grows heap after (own emptyList) := by
  unfold empty
  apply Runs.bind
  apply Runs.retain_since (Since.refl heap)
    (holds.present (List.mem_singleton_self _))
  intro after _ since
  apply Runs.pure
  refine ⟨rfl,
    Since.weaken since (zero_add _) (fun _ => id) fun _ never => never.elim⟩

/-- The empty list with some values added. -/
theorem runs_conjAll_empty
    {args : List RTValue}
    (isEmpty : IsList heap emptyList [])
    (areValues : boxNull ∉ args)
    (holds : Holds heap (emptyList :: addressesOf args)) :
    Runs (do let list ← empty; conjAll list args) heap fun result after =>
      IsList after result args.reverse ∧
        Grows heap after (own result - owns (addressesOf args)) := by
  apply Runs.bind
  apply (runs_empty holds.head).mono
  rintro list middle ⟨rfl, grown⟩
  have retained :
      Holds middle (emptyList :: emptyList :: addressesOf args) := by
    apply grown.holds holds
    intro other
    rw [owns_cons emptyList (emptyList :: _), Pi.add_apply]
    omega
  have emptyKept := grown.isList isEmpty retained List.mem_cons_self
  apply (runs_conjAll emptyKept areValues retained.tail).mono
  rintro result after ⟨resultList, grows⟩
  rw [List.append_nil] at resultList
  refine ⟨resultList, (grown.trans grows).change_eq ?_⟩
  abel

theorem runs_fromArray
    {args : List RTValue}
    (isEmpty : IsList heap emptyList [])
    (areValues : boxNull ∉ args)
    (holds : Holds heap (emptyList :: addressesOf args)) :
    Runs (fromArray args) heap fun result after =>
      IsList after result args ∧
        Grows heap after (own result - owns (addressesOf args)) := by
  have reversed : Holds heap (emptyList :: addressesOf args.reverse) := by
    intro other
    rw [owns_cons, owns_addressesOf_reverse, ← owns_cons]
    exact holds other
  have notIn : boxNull ∉ args.reverse := by rwa [List.mem_reverse]
  apply (runs_conjAll_empty isEmpty notIn reversed).mono
  rintro result after ⟨resultList, grows⟩
  rw [List.reverse_reverse] at resultList
  rw [owns_addressesOf_reverse] at grows
  exact ⟨resultList, grows⟩

end Construction

/-! ## Enumeration -/

theorem addressesOf_append_boxNull (values : List RTValue) :
    addressesOf (values ++ [boxNull]) = addressesOf values := by
  rw [addressesOf, List.flatMap_append]
  exact List.append_nil _

/-- The values of a chain come in the order of its cells. -/
theorem runs_enumerate
    {heap : ListHeap}
    {self : Address}
    {cells : List Cell}
    (isChain : Cells heap (some self) cells)
    (holds : Holds heap [self])
    {fuel : Nat}
    (enough : cells.length ≤ fuel) :
    Runs (enumerate fuel self) heap fun result after =>
      result = cells.map Cell.first ∧
        Grows heap after
          (owns (addressesOf (cells.map Cell.first)) - own self) := by
  induction fuel generalizing heap self cells with
  | zero =>
      rw [List.length_eq_zero_iff.mp (Nat.le_zero.mp enough)] at isChain
      exact isChain.elim
  | succ fuel inductionHypothesis =>
      cases cells with
      | nil => exact isChain.elim
      | cons cell cells =>
          obtain ⟨found, restChain⟩ := isChain
          rw [enumerate]
          apply Runs.bind
          apply Runs.retain_since (Since.refl heap)
            (holds.present List.mem_cons_self)
          intro retained _ since
          have retainedGrows : Grows heap retained (own self) :=
            Since.weaken since (zero_add _) (fun _ => id) fun _ never =>
              never.elim
          have twice : Holds retained [self, self] := by
            apply retainedGrows.holds holds
            intro other
            rw [owns_cons, Pi.add_apply]
            omega
          have foundRetained :=
            retainedGrows.kept found (twice.present List.mem_cons_self)
          apply Runs.bind
          apply (runs_first foundRetained twice.head).mono
          rintro value middle ⟨rfl, firstGrows⟩
          have once : Holds middle [self] := by
            apply firstGrows.holds twice
            intro other
            have := refs_nonneg cell.first other
            simp only [owns_cons, owns_nil, Pi.add_apply, Pi.sub_apply,
              Pi.zero_apply]
            omega
          have foundMiddle :=
            firstGrows.kept foundRetained (once.present List.mem_cons_self)
          apply Runs.bind
          apply (runs_next foundMiddle once).mono
          rintro link after ⟨rfl, nextGrows⟩
          have grown := (retainedGrows.trans firstGrows).trans nextGrows
          rw [List.map_cons, owns_addressesOf_cons]
          cases isRest : cell.rest with
          | none =>
              rw [isRest] at restChain
              cases cells with
              | cons _ _ => exact restChain.elim
              | nil =>
                  rw [Cell.next, isRest]
                  apply Runs.pure
                  refine ⟨rfl, grown.change_eq ?_⟩
                  rw [Cell.next, isRest, List.map_nil, owns_addressesOf_nil,
                    refs_boxNil]
                  abel
          | some rest =>
              rw [isRest] at restChain
              have restHolds : Holds after [rest] := by
                apply nextGrows.holds once
                intro other
                simp only [owns_singleton, Cell.next, isRest, refs_pointer,
                  Pi.sub_apply]
                omega
              have restAfter : Cells after (some rest) cells := by
                apply restChain.of_kept
                · intro other object isObject present
                  apply grown.kept isObject present
                · exact restHolds.excess_nonneg
                · rintro address ⟨⟩
                  exact restHolds.present List.mem_cons_self
              rw [Cell.next, isRest]
              apply Runs.bind
              apply (inductionHypothesis restAfter restHolds
                (Nat.le_of_succ_le_succ enough)).mono
              rintro result last ⟨rfl, restGrows⟩
              apply Runs.pure
              refine ⟨rfl, (grown.trans restGrows).change_eq ?_⟩
              rw [Cell.next, isRest, refs_pointer]
              abel

/-- The values of a list come in order, and the mark of its last cell after
them. -/
theorem runs_enumerate_isList
    {heap : ListHeap}
    {self : Address}
    {values : List RTValue}
    (isList : IsList heap self values)
    (holds : Holds heap [self])
    {fuel : Nat}
    (enough : values.length < fuel) :
    Runs (enumerate fuel self) heap fun result after =>
      result = values ++ [boxNull] ∧
        Grows heap after (owns (addressesOf values) - own self) := by
  obtain ⟨cells, isChain, firsts⟩ := isList.cells
  have long : cells.length ≤ fuel := by
    have := congrArg List.length firsts
    rw [List.length_map, List.length_append, List.length_singleton] at this
    omega
  have runs := runs_enumerate isChain holds long
  rwa [firsts, addressesOf_append_boxNull] at runs

end PersistentList
end Runtime
end ClojureRt
