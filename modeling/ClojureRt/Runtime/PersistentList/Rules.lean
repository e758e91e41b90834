import ClojureRt.Runtime.PersistentList.Defs
import Mathlib.Tactic.Abel

/-!
# Rules for lists

What the pieces of the list operations do to the heap, and which values a chain
of cells stands for.  A chain that somebody holds on to stays, since every cell
refers to the next.
-/

namespace ClojureRt
namespace Runtime
namespace PersistentList

open RefCount RefCount.Program
open Sharing (Address RTValue)

/-! ## Counting references -/

/-- The references in a value. -/
def refs (value : RTValue) : Address → Int :=
  owns (addresses value)

/-- The addresses in values. -/
def addressesOf (values : List RTValue) : List Address :=
  values.flatMap addresses

@[simp]
theorem refs_pointer (address : Address) : refs
    (.pointer address) = own address := by
  simp [refs, addresses, owns_cons]

@[simp]
theorem refs_immediate (word : Nat) : refs (.immediate word) = 0 := by
  simp [refs, addresses]

@[simp]
theorem refs_boxNil : refs .boxNil = 0 :=
  refs_immediate 0

@[simp]
theorem refs_boxNull : refs boxNull = 0 :=
  refs_immediate 1

theorem refs_nonneg (value : RTValue)
    (other : Address) : 0 ≤ refs value other :=
  owns_nonneg _ other

@[simp]
theorem owns_some (address : Address) : owns
    (some address).toList = own address :=
  owns_singleton address

@[simp]
theorem owns_none : owns (none : Option Address).toList = 0 :=
  owns_nil

@[simp]
theorem owns_addressesOf_nil : owns (addressesOf []) = 0 := by
  simp [addressesOf]

@[simp]
theorem owns_addressesOf_cons (value : RTValue) (values : List RTValue) :
    owns (addressesOf (value :: values)) = refs value +
      owns (addressesOf values) := by
  simp [addressesOf, refs, owns_append]

theorem owns_addressesOf_reverse (values : List RTValue) :
    owns (addressesOf values.reverse) = owns (addressesOf values) := by
  funext other
  unfold owns addressesOf
  rw [List.Perm.count_eq ((List.reverse_perm values).flatMap_right addresses)]

@[simp]
theorem owns_references_list (cell : Cell) :
    owns (Referencing.references (Object.list cell)) =
      owns cell.rest.toList + refs cell.first + refs cell.metadata := by
  rw [refs, refs, ← owns_append, ← owns_append]
  rfl

/-! ## Pieces of code -/

section Rules

variable
  {base heap : ListHeap}
  {change : Address → Int}
  {changed written : Address → Prop}

theorem runs_loadList
    {address : Address}
    {cell : Cell}
    (found : heap.object? address = some (.list cell))
    {post : Cell → ListHeap → Prop}
    (holds : post cell heap) : Runs (loadList address) heap post := by
  unfold loadList
  apply Runs.bind
  apply Runs.load found
  exact Runs.pure holds

theorem runs_retainValue
    (since : Since base heap change changed written)
    {value : RTValue}
    (present : ∀ address ∈ addresses value, ∃ object,
      heap.object? address = some object)
    {post : Unit → ListHeap → Prop}
    (holds : ∀ after, after.object? = heap.object? →
      Since base after (change + refs value) changed written → post () after) :
    Runs (retainValue value) heap post := by
  cases value with
  | immediate word =>
      rw [refs_immediate, add_zero] at holds
      exact Runs.pure (holds heap rfl since)
  | pointer address =>
      rw [refs_pointer] at holds
      exact Runs.retain_since since (present address List.mem_cons_self) holds

theorem runs_retainPointer
    (since : Since base heap change changed written)
    {pointer : Option Address}
    (present : ∀ address ∈ pointer.toList, ∃ object,
      heap.object? address = some object)
    {post : Unit → ListHeap → Prop}
    (holds : ∀ after, after.object? = heap.object? →
      Since base after (change + owns pointer.toList) changed written →
        post () after) :
    Runs (retainPointer pointer) heap post := by
  cases pointer with
  | none =>
      rw [owns_none, add_zero] at holds
      exact Runs.pure (holds heap rfl since)
  | some address =>
      rw [owns_some] at holds
      exact Runs.retain_since since (present address (by simp)) holds

theorem runs_releaseValue
    (since : Since base heap change changed written)
    {value : RTValue}
    (owned : ∀ other, refs value other ≤ base.excess other + change other)
    {post : Unit → ListHeap → Prop}
    (holds : ∀ after,
      (∀ other object, after.object? other = some object →
        heap.object? other = some object) →
      Since base after (change - refs value) changed written → post () after) :
    Runs (releaseValue value) heap post := by
  cases value with
  | immediate word =>
      rw [refs_immediate, sub_zero] at holds
      exact Runs.pure (holds heap (fun _ _ found => found) since)
  | pointer address =>
      rw [refs_pointer] at owned holds
      exact Runs.release_since since owned holds

end Rules

/-! ## The values of a list -/

/-- A chain of cells from an address on to a cell without a value. -/
def IsList (heap : ListHeap) : Address → List RTValue → Prop
  | address, [] =>
      ∃ metadata,
        heap.object? address = some (.list ⟨boxNull, none, 0, metadata⟩)
  | address, value :: values =>
      value ≠ boxNull ∧ ∃ rest metadata, heap.object? address = some (.list
        ⟨value, some rest, BitVec.ofNat 32 (values.length + 1), metadata⟩) ∧
          IsList heap rest values

namespace IsList

variable {heap after : ListHeap} {address : Address} {values : List RTValue}

/-- The first cell. -/
theorem cell
    (isList : IsList heap address values) :
    ∃ cell, heap.object? address = some (.list cell) ∧
      cell.first = values.headD boxNull ∧
        cell.count = BitVec.ofNat 32 values.length := by
  cases values with
  | nil =>
      obtain ⟨metadata, found⟩ := isList
      exact ⟨_, found, rfl, rfl⟩
  | cons value values =>
      obtain ⟨_, rest, metadata, found, _⟩ := isList
      exact ⟨_, found, rfl, rfl⟩

/-- What an owner of the list has kept is the same list. -/
theorem of_kept
    (isList : IsList heap address values)
    (kept : ∀ other object, heap.object? other = some object →
      (∃ now, after.object? other = some now) →
      after.object? other = some object)
    (nonneg : ∀ other, 0 ≤ after.excess other)
    (present : ∃ now, after.object? address = some now) :
    IsList after address values := by
  induction values generalizing address with
  | nil =>
      obtain ⟨metadata, found⟩ := isList
      exact ⟨metadata, kept address _ found present⟩
  | cons value values inductionHypothesis =>
      obtain ⟨isValue, rest, metadata, found, restList⟩ := isList
      have foundAfter := kept address _ found present
      have restPresent := Heap.object_of_reference nonneg foundAfter
        (List.mem_append_left _
          (List.mem_append_left _ (List.mem_singleton_self rest)))
      exact ⟨isValue, rest, metadata, foundAfter,
        inductionHypothesis restList restPresent⟩

theorem of_objects
    (isList : IsList heap address values)
    (same : after.object? = heap.object?) : IsList after address values := by
  induction values generalizing address with
  | nil =>
      obtain ⟨metadata, found⟩ := isList
      exact ⟨metadata, by rw [same, found]⟩
  | cons value values inductionHypothesis =>
      obtain ⟨isValue, rest, metadata, found, restList⟩ := isList
      exact ⟨isValue, rest, metadata,
        by rw [same, found], inductionHypothesis restList⟩

end IsList

/-! ## Chains -/

/-- The cells on the way from a link to the end. -/
def Cells (heap : ListHeap) : Option Address → List Cell → Prop
  | none, [] => True
  | some address, cell :: cells =>
      heap.object? address = some (.list cell) ∧ Cells heap cell.rest cells
  | _, _ => False

theorem Cells.of_kept
    {heap after : ListHeap}
    {start : Option Address}
    {cells : List Cell}
    (isChain : Cells heap start cells)
    (kept : ∀ other object, heap.object? other = some object →
      (∃ now, after.object? other = some now) →
      after.object? other = some object)
    (nonneg : ∀ other, 0 ≤ after.excess other)
    (present : ∀ address ∈ start, ∃ now, after.object? address = some now) :
    Cells after start cells := by
  induction cells generalizing start with
  | nil =>
      cases start with
      | none => trivial
      | some address => exact isChain.elim
  | cons cell cells inductionHypothesis =>
      cases start with
      | none => exact isChain.elim
      | some address =>
          obtain ⟨found, restChain⟩ := isChain
          have foundAfter := kept address _ found (present address rfl)
          refine ⟨foundAfter, inductionHypothesis restChain ?_⟩
          intro rest isRest
          apply Heap.object_of_reference nonneg foundAfter
          exact List.mem_append_left _
            (List.mem_append_left _ (Option.mem_toList.mpr isRest))

/-- The cells of a list; the last one has no value. -/
theorem IsList.cells
    {heap : ListHeap}
    {address : Address}
    {values : List RTValue}
    (isList : IsList heap address values) :
    ∃ cells, Cells heap (some address) cells ∧
      cells.map Cell.first = values ++ [boxNull] := by
  induction values generalizing address with
  | nil =>
      obtain ⟨metadata, found⟩ := isList
      exact ⟨[_], ⟨found, trivial⟩, rfl⟩
  | cons value values inductionHypothesis =>
      obtain ⟨_, rest, metadata, found, restList⟩ := isList
      obtain ⟨cells, restCells, firsts⟩ := inductionHypothesis restList
      refine ⟨_ :: cells, ⟨found, restCells⟩, ?_⟩
      rw [List.map_cons, firsts]
      rfl

end PersistentList
end Runtime
end ClojureRt
