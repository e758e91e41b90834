import ClojureRt.Lib.Trade

/-!
# Heaps that are given cell by cell

An object in a cell that was empty owns what it refers to, and its count is
owned by whoever gave it.  A heap can start out with the same object in all
cells up to a bound, except for one of them.
-/

namespace ClojureRt
namespace RefCount

open Referencing

variable {Object : Type}

/-- An object in every cell below a bound, except for one of them. -/
def Heap.filled (object : Object) (count bound hole : Nat) : Heap Object where
  cells address := if address < bound ∧
    address ≠ hole then some ⟨count, object⟩ else none
  next := bound
  bounded := by
    intro address beyond
    exact if_neg fun inside => Nat.not_lt.mpr beyond inside.1

theorem Heap.filled_cells_hole (object : Object) (count bound hole : Nat) :
    (Heap.filled object count bound hole).cells hole = none :=
  if_neg fun inside => inside.2 rfl

theorem Heap.filled_cells_beyond
    (object : Object)
    (count hole : Nat)
    {bound address : Nat}
    (beyond : bound ≤ address) :
    (Heap.filled object count bound hole).cells address = none :=
  (Heap.filled object count bound hole).bounded address beyond

section References

variable [Referencing Object]

theorem Heap.excess_set_fresh
    (heap : Heap Object)
    {address : Nat}
    (fresh : heap.cells address = none)
    (count : Nat)
    (object : Object)
    (target : Nat) :
    (heap.set address (some ⟨count, object⟩)).excess target =
      heap.excess target + count * own address target - owns (references object)
        target := by
  rw [Heap.excess_set]
  simp only [Heap.count, Heap.referencesAt, fresh, Cell.countOf,
    Cell.referencesOf, List.count_nil, own, owns]
  split <;> push_cast <;> ring

theorem Heap.excess_filled
    {object : Object}
    (none : references object = [])
    (count bound hole target : Nat) :
    (Heap.filled object count bound hole).excess target =
      if target < bound ∧ target ≠ hole then (count : Int) else 0 := by
  have incoming :
      (Heap.filled object count bound hole).incoming target = 0 := by
    apply Finset.sum_eq_zero
    intro source _
    rw [Heap.referencesAt, filled]
    dsimp only
    split
    · rw [Cell.referencesOf, none, List.count_nil]
    · exact List.count_nil
  rw [Heap.excess, incoming, Heap.count, filled]
  dsimp only
  split
  · simp [Cell.countOf]
  · simp [Cell.countOf]

/-- What is reached stays within some addresses that are held and closed under
references. -/
theorem Reached.within
    {heap : Heap Object}
    {held : Nat → Int}
    {address : Nat}
    (reached : Reached heap held address)
    (among : Nat → Prop)
    (isHeld : ∀ address, 0 < held address → among address)
    (closed : ∀ source object,
      among source → heap.object? source = some object →
      ∀ target ∈ references object, among target) : among address := by
  induction reached with
  | owned address positive => exact isHeld address positive
  | referred source target object _ _ found refers inductionHypothesis =>
      exact closed source object inductionHypothesis found target refers

/-- What is held is covered, where that can be checked address by address. -/
theorem backed_of_inside
    {heap : Heap Object}
    {held : Nat → Int}
    (nonneg : ∀ address, 0 ≤ held address)
    (closed : ∀ source < heap.next, ∀ target ∈ heap.referencesAt source,
      target < heap.next)
    (inside : ∀ address < heap.next, held address ≤ heap.excess address)
    (outside : ∀ address, heap.next ≤ address → held address = 0) :
    Backed heap held where
  nonneg := nonneg
  le_excess := by
    intro address
    by_cases below : address < heap.next
    · exact inside address below
    have beyond : heap.next ≤ address := Nat.le_of_not_lt below
    have incoming : heap.incoming address = 0 := by
      apply Finset.sum_eq_zero
      intro source isSource
      apply List.count_eq_zero.mpr
      exact fun isIn =>
        below (closed source (Finset.mem_range.mp isSource) address isIn)
    rw [outside address beyond, Heap.excess, Heap.count,
      heap.bounded address beyond, incoming]
    exact le_rfl

end References

end RefCount
end ClojureRt
