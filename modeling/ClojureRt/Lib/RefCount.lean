import Mathlib.Algebra.BigOperators.Group.Finset.Basic
import Mathlib.Data.Fintype.EquivFin
import Mathlib.Data.List.Count
import Mathlib.Logic.Relation
import Mathlib.Order.RelClasses
import Mathlib.Order.WellFounded
import Mathlib.Tactic.Linarith
import Mathlib.Tactic.Ring

/-!
# Heaps with reference counts

A heap holds objects, each with a count, and an object says which addresses it
refers to. What the count of an object exceeds the references from the heap by
is what belongs to whoever runs on the heap.  Every operation changes this
excess by an amount that can be read off it, whether or not the counts were
right before.
-/

namespace ClojureRt
namespace RefCount

/-- The addresses an object refers to, one entry for each reference. -/
class Referencing (Object : Type) where
  references : Object → List Nat

open Referencing

/-- An object and the number of references to it. -/
structure Cell (Object : Type) where
  count : Nat
  object : Object

/-- The count in a cell, 0 where nothing is stored. -/
def Cell.countOf {Object : Type} : Option (Cell Object) → Nat
  | some cell => cell.count
  | none => 0

/-- The references from a cell. -/
def Cell.referencesOf {Object : Type} [Referencing Object] : Option
    (Cell Object) → List Nat
  | some cell => references cell.object
  | none => []

/-- A heap, with the first address that was never used. -/
structure Heap (Object : Type) where
  cells : Nat → Option (Cell Object)
  next : Nat
  bounded : ∀ address, next ≤ address → cells address = none

variable {Object : Type}

namespace Heap

/-- The heap without any object. -/
def empty : Heap Object where
  cells := fun _ => none
  next := 0
  bounded := fun _ _ => rfl

/-- The heap with another cell at an address. -/
def set (heap : Heap Object) (address : Nat) (cell : Option (Cell Object)) :
    Heap Object where
  cells := Function.update heap.cells address cell
  next := max heap.next (address + 1)
  bounded := by
    intro other beyond
    have distinct : other ≠ address := by omega
    rw [Function.update_of_ne distinct]
    exact heap.bounded other (by omega)

/-- The object at an address, if there is one. -/
def object? (heap : Heap Object) (address : Nat) : Option Object :=
  (heap.cells address).map Cell.object

/-- The count of the object at an address. -/
def count (heap : Heap Object) (address : Nat) : Nat :=
  Cell.countOf (heap.cells address)

@[simp]
theorem set_cells_self (heap : Heap Object) (address : Nat)
    (cell : Option (Cell Object)) :
    (heap.set address cell).cells address = cell := by
  simp [set]

theorem set_cells_of_ne
    (heap : Heap Object)
    {address other : Nat}
    (cell : Option (Cell Object))
    (distinct : other ≠ address) :
    (heap.set address cell).cells other = heap.cells other := by
  simp [set, distinct]

/-- What is stored has an address that was used. -/
theorem lt_next_of_cells
    {heap : Heap Object}
    {address : Nat}
    {cell : Cell Object}
    (found : heap.cells address = some cell) :
    address < heap.next := by
  by_contra beyond
  rw [heap.bounded address (by omega)] at found
  cases found

/-- The same for an object. -/
theorem lt_next_of_object
    {heap : Heap Object}
    {address : Nat}
    {object : Object}
    (found : heap.object? address = some object) :
    address < heap.next := by
  obtain ⟨cell, isCell, _⟩ := Option.map_eq_some_iff.mp found
  exact lt_next_of_cells isCell

/-- A cell that is written in place uses no new address. -/
theorem set_next_of_lt
    (heap : Heap Object)
    {address : Nat}
    (cell : Option (Cell Object))
    (below : address < heap.next) :
    (heap.set address cell).next = heap.next := by
  simp only [set]
  omega

/-- Every object satisfies a condition, which may depend on its address. -/
def All (heap : Heap Object) (valid : Nat → Object → Prop) : Prop :=
  ∀ address object, heap.object? address = some object → valid address object

/-- The condition is to be shown of the new object only. -/
theorem All.set
    {heap : Heap Object}
    {valid : Nat → Object → Prop}
    (all : heap.All valid)
    {address count : Nat}
    {object : Object}
    (isValid : valid address object) :
    (heap.set address (some ⟨count, object⟩)).All valid := by
  intro other stored found
  by_cases same : other = address
  · subst same
    simp only [object?, set_cells_self, Option.map_some,
      Option.some.injEq] at found
    rwa [← found]
  · rw [object?, heap.set_cells_of_ne _ same] at found
    exact all other stored found

/-- The sum of the counts. -/
def total (heap : Heap Object) : Nat :=
  ∑ address ∈ Finset.range heap.next, heap.count address

/-- The sum of the counts after a cell was written, without a subtraction. -/
theorem total_set
    (heap : Heap Object)
    {address : Nat}
    (cell : Option (Cell Object))
    (below : address < heap.next) :
    (heap.set address cell).total + heap.count address = heap.total +
    Cell.countOf cell := by
  have member : address ∈ Finset.range heap.next := Finset.mem_range.mpr below
  have others : ∑ other ∈ (Finset.range heap.next).erase address,
      (heap.set address cell).count other =
        ∑ other ∈ (Finset.range heap.next).erase address, heap.count other := by
    apply Finset.sum_congr rfl
    intro other isOther
    unfold count
    rw [set_cells_of_ne heap cell (Finset.ne_of_mem_erase isOther)]
  unfold total
  rw [set_next_of_lt heap cell below, ← Finset.add_sum_erase _ _ member,
    ← Finset.add_sum_erase _ (fun other => heap.count other) member, others]
  simp only [count, set_cells_self]
  omega

section References

variable [Referencing Object]

/-- The references from the object at an address. -/
def referencesAt (heap : Heap Object) (address : Nat) : List Nat :=
  Cell.referencesOf (heap.cells address)

/-- How many references to an address the heap holds. -/
def incoming (heap : Heap Object) (target : Nat) : Nat :=
  ∑ source ∈ Finset.range heap.next, (heap.referencesAt source).count target

/-- The part of a count that no reference from the heap accounts for. -/
def excess (heap : Heap Object) (address : Nat) : Int :=
  (heap.count address : Int) - heap.incoming address

/-- The addresses that were never used hold no references. -/
theorem incoming_eq_sum_of_le
    (heap : Heap Object)
    (target : Nat)
    {bound : Nat}
    (large : heap.next ≤ bound) :
    heap.incoming target =
      ∑ source ∈ Finset.range bound,
        (heap.referencesAt source).count target := by
  apply Finset.sum_subset (Finset.range_mono large)
  intro source _ beyond
  have unused := heap.bounded source (by simpa using beyond)
  simp [referencesAt, unused, Cell.referencesOf]

/-- The references to an address after a cell was written, without a
subtraction. -/
theorem incoming_set
    (heap : Heap Object)
    (address target : Nat)
    (cell : Option (Cell Object)) :
    (heap.set address cell).incoming target + (heap.referencesAt address).count
    target =
      heap.incoming target +
        (Cell.referencesOf cell).count target := by
  have member : address ∈ Finset.range (heap.set address cell).next := by
    simp [set]
  have others : ∑ source ∈ (Finset.range (heap.set address cell).next).erase
      address,
      ((heap.set address cell).referencesAt source).count target =
        ∑ source ∈ (Finset.range (heap.set address cell).next).erase address,
          (heap.referencesAt source).count target := by
    apply Finset.sum_congr rfl
    intro other isOther
    unfold referencesAt
    rw [set_cells_of_ne heap cell (Finset.ne_of_mem_erase isOther)]
  rw [heap.incoming_eq_sum_of_le target (le_max_left heap.next (address + 1))]
  unfold incoming
  rw [← Finset.add_sum_erase _ _ member,
    ← Finset.add_sum_erase (Finset.range (max heap.next (address + 1)))
      (fun source => (heap.referencesAt source).count target) member]
  simp only [set, Function.update_self, referencesAt] at others ⊢
  omega

/-- What writing a cell does to the excess. -/
theorem excess_set
    (heap : Heap Object)
    (address target : Nat)
    (cell : Option (Cell Object)) :
    (heap.set address cell).excess target =
      heap.excess target +
        (if target = address then (Cell.countOf cell : Int) - heap.count
          address else 0) +
        ((heap.referencesAt address).count target : Int) -
        (Cell.referencesOf cell).count target := by
  have sums := heap.incoming_set address target cell
  unfold excess
  by_cases same : target = address
  · subst same
    simp only [count, set_cells_self, if_pos]
    omega
  · simp only [count, set_cells_of_ne heap cell same, if_neg same]
    omega

/-- An object that is referred to, or whose count somebody owns a part of, is
there. -/
theorem cells_of_excess
    {heap : Heap Object}
    {address : Nat}
    (positive : 0 < (heap.incoming address : Int) + heap.excess address) :
    ∃ cell, heap.cells address = some cell ∧ 0 < cell.count := by
  unfold excess count at positive
  cases found : heap.cells address with
  | none =>
      simp only [found, Cell.countOf] at positive
      omega
  | some cell =>
      simp only [found, Cell.countOf] at positive
      exact ⟨cell, rfl, by omega⟩

/-- What an object refers to has a reference from the heap. -/
theorem incoming_pos
    {heap : Heap Object}
    {source target : Nat}
    (refers : target ∈ heap.referencesAt source) :
    0 < heap.incoming target := by
  have member : source ∈ Finset.range heap.next := by
    rw [Finset.mem_range]
    by_contra beyond
    rw [referencesAt, heap.bounded source (by omega)] at refers
    cases refers
  have positive := List.count_pos_iff.mpr refers
  unfold incoming
  rw [← Finset.add_sum_erase _ _ member]
  omega

end References

end Heap

/-! ## What an operation does -/

/-- One reference to an address. -/
def own (address : Nat) : Nat → Int :=
  fun other => if other = address then 1 else 0

/-- The references in a list. -/
def owns (addresses : List Nat) : Nat → Int :=
  fun other => addresses.count other

@[simp]
theorem owns_nil : owns [] = 0 := by
  funext other
  simp [owns]

theorem owns_cons (address : Nat) (addresses : List Nat) :
    owns (address :: addresses) = own address + owns addresses := by
  funext other
  simp only [owns, own, Pi.add_apply, List.count_cons, beq_iff_eq]
  by_cases same : other = address
  · subst same
    simp
    omega
  · simp [same, Ne.symm same]

/-- The references of two lists. -/
theorem owns_append (first second : List Nat) :
    owns (first ++ second) = owns first + owns second := by
  funext other
  simp [owns, List.count_append]

/-- A list has no negative number of references. -/
theorem owns_nonneg (addresses : List Nat)
    (other : Nat) : 0 ≤ owns addresses other := by
  simp [owns]

section Effects

variable [Referencing Object]

/-- The excess grows by `change`, and among the objects that were there before
only those that are `changed` have other fields than before. -/
structure Effect
    (before after : Heap Object)
    (change : Nat → Int)
    (changed : Nat → Prop) :
    Prop where
  excess : ∀ address,
    after.excess address = before.excess address + change address
  kept : ∀ address cell, address < before.next → ¬ changed address →
    after.cells address = some cell → before.object? address = some cell.object
  next_le : before.next ≤ after.next

namespace Effect

/-- Doing nothing. -/
theorem refl (heap : Heap Object) : Effect heap heap 0 fun _ => False where
  excess := by simp
  kept := by
    intro address cell _ _ found
    simp [Heap.object?, found]
  next_le := Nat.le_refl _

/-- The change may be given otherwise, and more may be said to have changed. -/
theorem weaken
    {before after : Heap Object}
    {change change' : Nat → Int}
    {changed changed' : Nat → Prop}
    (effect : Effect before after change changed)
    (sameChange : change = change')
    (more : ∀ address, address < before.next → changed address →
      changed' address) :
    Effect before after change' changed' where
  excess := by
    subst sameChange
    exact effect.excess
  kept := by
    intro address cell below unchanged found
    apply effect.kept address cell below _ found
    exact fun isChanged => unchanged (more address below isChanged)
  next_le := effect.next_le

/-- One effect after the other. -/
theorem trans
    {first second third : Heap Object}
    {change change' : Nat → Int}
    {changed changed' : Nat → Prop}
    (left : Effect first second change changed)
    (right : Effect second third change' changed') :
    Effect first third (change + change') fun address => changed address ∨
      changed' address where
  excess := by
    intro address
    rw [right.excess, left.excess, Pi.add_apply]
    ring
  kept := by
    intro address cell below unchanged found
    push Not at unchanged
    have middle :=
      right.kept address cell (Nat.lt_of_lt_of_le below left.next_le)
        unchanged.2 found
    obtain ⟨middleCell, isMiddle, sameObject⟩ :=
      Option.map_eq_some_iff.mp middle
    rw [left.kept address middleCell below unchanged.1 isMiddle, sameObject]
  next_le := Nat.le_trans left.next_le right.next_le

/-- The second one leaves every object as it is. -/
theorem trans_unchanged
    {first second third : Heap Object}
    {change change' : Nat → Int}
    {changed : Nat → Prop}
    (left : Effect first second change changed)
    (right : Effect second third change' fun _ => False) :
    Effect first third (change + change') changed := by
  apply (left.trans right).weaken rfl
  intro address _ either
  exact either.resolve_right fun never => never

/-- Writing a cell changes the excess by the count, by the references that the
old cell gives up and by those that the new one takes. -/
theorem of_set
    (heap : Heap Object)
    (address : Nat)
    (cell : Option (Cell Object)) :
    Effect heap (heap.set address cell)
      (fun target =>
        (Cell.countOf cell - heap.count address) * own address target +
        owns (heap.referencesAt address) target -
          owns (Cell.referencesOf cell) target)
      (· = address) where
  excess := by
    intro target
    rw [heap.excess_set address target cell]
    simp only [own, owns]
    split <;> ring
  kept := by
    intro other found _ distinct isFound
    rw [heap.set_cells_of_ne cell distinct] at isFound
    simp [Heap.object?, isFound]
  next_le := Nat.le_max_left _ _

end Effect

/-! ## What stays alive -/

/-- Who is referred to by an object is there, where no count is too small. -/
theorem Heap.object_of_reference
    {heap : Heap Object}
    (nonneg : ∀ address, 0 ≤ heap.excess address)
    {source target : Nat}
    {object : Object}
    (found : heap.object? source = some object)
    (refers : target ∈ references object) :
    ∃ other, heap.object? target = some other := by
  obtain ⟨cell, isCell, rfl⟩ := Option.map_eq_some_iff.mp found
  have incoming : 0 < heap.incoming target := by
    apply Heap.incoming_pos
    rw [Heap.referencesAt, isCell]
    exact refers
  have atTarget := nonneg target
  have positive : 0 < (heap.incoming target : Int) + heap.excess target := by
    omega
  obtain ⟨targetCell, isTarget, _⟩ := Heap.cells_of_excess positive
  exact ⟨targetCell.object, by simp [Heap.object?, isTarget]⟩

/-- Who is owned is there. -/
theorem Heap.object_of_owned
    {heap : Heap Object}
    {address : Nat}
    (owned : 0 < heap.excess address) :
    ∃ object, heap.object? address = some object := by
  have positive : 0 < (heap.incoming address : Int) + heap.excess address := by
    omega
  obtain ⟨cell, isCell, _⟩ := Heap.cells_of_excess positive
  exact ⟨cell.object, by simp [Heap.object?, isCell]⟩

/-- What is not changed is as it was. -/
theorem Effect.object_eq
    {before after : Heap Object}
    {change : Nat → Int}
    {changed : Nat → Prop}
    (effect : Effect before after change changed)
    {address : Nat}
    {object now : Object}
    (found : before.object? address = some object)
    (unchanged : ¬ changed address)
    (isNow : after.object? address = some now) :
    now = object := by
  obtain ⟨cell, isCell, rfl⟩ := Option.map_eq_some_iff.mp isNow
  have kept :=
    effect.kept address cell (Heap.lt_next_of_object found) unchanged isCell
  rw [found, Option.some.injEq] at kept
  exact kept.symm

/-- An address that an owner keeps alive: he owns it, or it is referred to by an
object that he keeps alive and that stays as it is. -/
inductive Pinned (heap : Heap Object) (held : Nat → Int)
    (changed : Nat → Prop) : Nat → Prop
  | owned (address : Nat) (positive : 0 < held address) :
      Pinned heap held changed address
  | referred
      (source target : Nat)
      (object : Object)
      (pinned : Pinned heap held changed source)
      (unchanged : ¬ changed source)
      (found : heap.object? source = some object)
      (refers : target ∈ references object) :
      Pinned heap held changed target

namespace Pinned

variable {heap later : Heap Object} {held change : Nat → Int}
  {changed : Nat → Prop}

/-- With more references and fewer changes the address is still kept alive. -/
theorem weaken
    {held' : Nat → Int}
    {changed' : Nat → Prop}
    {address : Nat}
    (pinned : Pinned heap held changed address)
    (more : ∀ other, 0 < held other → 0 < held' other)
    (fewer : ∀ other, changed' other → changed other) :
    Pinned heap held' changed' address := by
  induction pinned with
  | owned address positive => exact .owned address (more address positive)
  | referred source target object _ unchanged found refers
      inductionHypothesis =>
      exact .referred source target object inductionHypothesis
        (fun isChanged => unchanged (fewer source isChanged)) found refers

/-- What an owner keeps alive is on the heap after the effect. -/
theorem object
    {address : Nat}
    (pinned : Pinned heap held changed address)
    (effect : Effect heap later change changed)
    (nonneg : ∀ other, 0 ≤ later.excess other)
    (keeps : ∀ other, 0 < held other → 0 < later.excess other) :
    ∃ object, later.object? address = some object := by
  induction pinned with
  | owned address positive =>
      exact Heap.object_of_owned (keeps address positive)
  | referred source target object _ unchanged found refers
      inductionHypothesis =>
      obtain ⟨now, isNow⟩ := inductionHypothesis
      rw [effect.object_eq found unchanged isNow] at isNow
      exact Heap.object_of_reference nonneg isNow refers

/-- What an owner keeps alive is there after an effect that leaves him what he
holds. -/
theorem present
    {held change : Nat → Int}
    {changed changed' : Nat → Prop}
    {address : Nat}
    (pinned : Pinned heap held changed address)
    (effect : Effect heap later change changed')
    (fewer : ∀ other, changed' other → changed other)
    (nonneg : ∀ other, 0 ≤ held other)
    (keeps : ∀ other, held other ≤ later.excess other) :
    ∃ object, later.object? address = some object := by
  apply (pinned.weaken (fun _ positive => positive) fewer).object effect
  · exact fun other => (nonneg other).trans (keeps other)
  · exact fun other positive => lt_of_lt_of_le positive (keeps other)

end Pinned

end Effects

/-! ## Programs -/

/-- A computation on a heap.  It has no result where it uses an address at which
nothing is stored. -/
def Program (Object α : Type) : Type :=
  Heap Object → Option (α × Heap Object)

namespace Program

variable {α β : Type}

instance : Monad (Program Object) where
  pure value := fun heap => some (value, heap)
  bind program next := fun heap =>
    match program heap with
    | some (value, after) => next value after
    | none => none

/-- A computation that cannot go on. -/
def undefined : Program Object α :=
  fun _ => none

/-- Stores an object at a new address; the caller has the first reference to
it. -/
def allocate (object : Object) : Program Object Nat :=
  fun heap => some (heap.next, heap.set heap.next (some ⟨1, object⟩))

/-- Reads the object at an address. -/
def load (address : Nat) : Program Object Object :=
  fun heap => (heap.cells address).map fun cell => (cell.object, heap)

/-- Writes an object in place. -/
def store (address : Nat) (object : Object) : Program Object Unit :=
  fun heap => (heap.cells address).map fun cell =>
    ((), heap.set address (some { cell with object }))

/-- Whether the caller has the only reference to an object. -/
def isReusable (address : Nat) : Program Object Bool :=
  fun heap => (heap.cells address).map fun cell => (cell.count == 1, heap)

/-- Adds a reference to an object. -/
def retain (address : Nat) : Program Object Unit :=
  fun heap => (heap.cells address).map fun cell =>
    ((), heap.set address (some { cell with count := cell.count + 1 }))

/-! ### Total correctness -/

/-- The program has a result, and it satisfies the condition. -/
def Runs (program : Program Object α) (heap : Heap Object)
    (post : α → Heap Object → Prop) :
    Prop :=
  ∃ value after, program heap = some (value, after) ∧ post value after

/-- A program that returns at once. -/
theorem Runs.pure
    {value : α}
    {heap : Heap Object}
    {post : α → Heap Object → Prop}
    (holds : post value heap) :
    Runs (Pure.pure value) heap post :=
  ⟨value, heap, rfl, holds⟩

/-- The rest of a program after its first part has run. -/
theorem bind_eq
    {first : Program Object α}
    {next : α → Program Object β}
    {heap middle : Heap Object}
    {value : α}
    (result : first heap = some (value, middle)) :
    (first >>= next) heap = next value middle := by
  change (match first heap with | some (value, after) => next value after | none => none) = _
  rw [result]

/-- The second program runs on what the first one returns. -/
theorem Runs.bind
    {program : Program Object α}
    {next : α → Program Object β}
    {heap : Heap Object}
    {post : β → Heap Object → Prop}
    (runs : Runs program heap fun value after => Runs (next value) after post) :
    Runs (program >>= next) heap post := by
  obtain ⟨value, middle, first, result, after, second, holds⟩ := runs
  exact ⟨result, after, (bind_eq first).trans second, holds⟩

/-- A result that satisfies a condition satisfies a weaker one. -/
theorem Runs.mono
    {program : Program Object α}
    {heap : Heap Object}
    {post post' : α → Heap Object → Prop}
    (runs : Runs program heap post)
    (weaker : ∀ value after, post value after → post' value after) :
    Runs program heap post' := by
  obtain ⟨value, after, result, holds⟩ := runs
  exact ⟨value, after, result, weaker value after holds⟩

/-- The converse of `Runs.pure`. -/
theorem Runs.of_pure
    {value : α}
    {heap : Heap Object}
    {post : α → Heap Object → Prop}
    (runs : Runs (Pure.pure value) heap post) : post value heap := by
  obtain ⟨_, _, isResult, holds⟩ := runs
  cases isResult
  exact holds

/-- The converse of `Runs.bind`. -/
theorem Runs.of_bind
    {program : Program Object α}
    {next : α → Program Object β}
    {heap : Heap Object}
    {post : β → Heap Object → Prop}
    (runs : Runs (program >>= next) heap post) :
    Runs program heap fun value after => Runs (next value) after post := by
  obtain ⟨result, after, isResult, holds⟩ := runs
  change (match program heap with | some (value, after) => next value after | none => none) = _
    at isResult
  cases first : program heap with
  | none => simp [first] at isResult
  | some pair =>
      rw [first] at isResult
      exact ⟨pair.1, pair.2, first, result, after, isResult, holds⟩

/-- What is shown about the result may use that it is the result. -/
theorem Runs.with_result
    {program : Program Object α}
    {heap : Heap Object}
    {post : α → Heap Object → Prop}
    (runs : Runs program heap fun value after =>
      program heap = some (value, after) → post value after) :
    Runs program heap post := by
  obtain ⟨value, after, result, holds⟩ := runs
  exact ⟨value, after, result, holds result⟩

/-- A new object leaves the counts of the others as they are. -/
theorem count_of_allocate
    {object : Object}
    {heap after : Heap Object}
    {new other : Nat}
    (result : allocate object heap = some (new, after))
    (old : other < heap.next) : after.count other = heap.count other := by
  cases result
  rw [Heap.count, heap.set_cells_of_ne _ (Nat.ne_of_lt old), Heap.count]

/-- Writing leaves all counts as they are. -/
theorem count_of_store
    {object : Object}
    {heap after : Heap Object}
    {address : Nat}
    (result : store address object heap = some ((), after))
    (other : Nat) : after.count other = heap.count other := by
  obtain ⟨cell, found, same⟩ := Option.map_eq_some_iff.mp result
  cases same
  by_cases isStored : other = address
  · subst isStored
    simp [Heap.count, found, Cell.countOf]
  · rw [Heap.count, heap.set_cells_of_ne _ isStored, Heap.count]

/-- Reading what is there. -/
theorem Runs.load
    {heap : Heap Object}
    {address : Nat}
    {object : Object}
    {post : Object → Heap Object → Prop}
    (found : heap.object? address = some object)
    (holds : post object heap) :
    Runs (load address) heap post := by
  obtain ⟨cell, isCell, rfl⟩ := Option.map_eq_some_iff.mp found
  exact ⟨cell.object, heap, by simp [Program.load, isCell], holds⟩

/-- The count of what is there. -/
theorem Runs.isReusable
    {heap : Heap Object}
    {address : Nat}
    {object : Object}
    {post : Bool → Heap Object → Prop}
    (found : heap.object? address = some object)
    (holds : post (heap.count address == 1) heap) :
    Runs (isReusable address) heap post := by
  obtain ⟨cell, isCell, rfl⟩ := Option.map_eq_some_iff.mp found
  refine ⟨cell.count == 1, heap, by simp [Program.isReusable, isCell], ?_⟩
  simpa [Heap.count, isCell, Cell.countOf] using holds

/-! ### Partial correctness -/

/-- If the program has a result, it satisfies the condition. -/
structure Ensures
    (program : Program Object α)
    (heap : Heap Object)
    (post : α → Heap Object → Prop) :
    Prop where
  of_result : ∀ value after, program heap = some (value, after) →
    post value after

/-- A program that returns at once. -/
theorem Ensures.pure
    {value : α}
    {heap : Heap Object}
    {post : α → Heap Object → Prop}
    (holds : post value heap) :
    Ensures (Pure.pure value) heap post := by
  constructor
  intro result after isResult
  cases isResult
  exact holds

/-- The second program runs on what the first one returns. -/
theorem Ensures.bind
    {program : Program Object α}
    {next : α → Program Object β}
    {heap : Heap Object}
    {post : β → Heap Object → Prop}
    (ensures : Ensures program heap fun value after =>
      Ensures (next value) after post) :
    Ensures (program >>= next) heap post := by
  constructor
  intro result after isResult
  change (match program heap with | some (value, after) => next value after | none => none) = _
    at isResult
  cases first : program heap with
  | none => simp [first] at isResult
  | some pair =>
      rw [first] at isResult
      exact (ensures.of_result pair.1 pair.2 first).of_result result after
        isResult

/-- A result that satisfies a condition satisfies a weaker one. -/
theorem Ensures.mono
    {program : Program Object α}
    {heap : Heap Object}
    {post post' : α → Heap Object → Prop}
    (ensures : Ensures program heap post)
    (weaker : ∀ value after, post value after → post' value after) :
    Ensures program heap post' :=
  ⟨fun value after result =>
    weaker value after (ensures.of_result value after result)⟩

/-- There is only one result. -/
theorem Runs.ensures
    {program : Program Object α}
    {heap : Heap Object}
    {post : α → Heap Object → Prop}
    (runs : Runs program heap post) : Ensures program heap post := by
  obtain ⟨value, after, isResult, holds⟩ := runs
  constructor
  intro other later isOther
  rw [isResult, Option.some.injEq, Prod.mk.injEq] at isOther
  rwa [← isOther.1, ← isOther.2]

/-- What follows a program that has a result. -/
theorem Ensures.bind_of_runs
    {program : Program Object α}
    {next : α → Program Object β}
    {heap : Heap Object}
    {post : β → Heap Object → Prop}
    (runs : Runs program heap fun value after =>
      Ensures (next value) after post) :
    Ensures (program >>= next) heap post :=
  Ensures.bind runs.ensures

/-- There is no result to satisfy anything. -/
theorem Ensures.undefined {heap : Heap Object} {post : α → Heap Object → Prop} :
    Ensures undefined heap post := by
  constructor
  intro result after isResult
  cases isResult


/-! ### Conditions on every object -/

/-- Where nothing is stored there is no result. -/
theorem Ensures.load
    {heap : Heap Object}
    {address : Nat}
    {post : Object → Heap Object → Prop}
    (holds : ∀ object, heap.object? address = some object → post object heap) :
    Ensures (load address) heap post := by
  constructor
  intro object after result
  obtain ⟨cell, found, same⟩ := Option.map_eq_some_iff.mp result
  cases same
  exact holds cell.object (by simp [Heap.object?, found])

/-- The count of what is there. -/
theorem Ensures.isReusable
    {heap : Heap Object}
    {address : Nat}
    {post : Bool → Heap Object → Prop}
    (holds : post (heap.count address == 1) heap) :
    Ensures (isReusable address) heap post := by
  constructor
  intro reusable after result
  obtain ⟨cell, found, same⟩ := Option.map_eq_some_iff.mp result
  cases same
  simpa [Heap.count, found, Cell.countOf] using holds

section Objects

variable {valid : Nat → Object → Prop} {heap : Heap Object}

/-- The condition is to be shown of the new object. -/
theorem Ensures.allocate
    (all : heap.All valid)
    {object : Object}
    (isValid : valid heap.next object)
    {post : Nat → Heap Object → Prop}
    (holds : ∀ after, after.All valid → heap.next ≤ after.next →
      after.object? heap.next = some object → post heap.next after) :
    Ensures (allocate object) heap post := by
  constructor
  intro address after result
  cases result
  apply holds
  · exact all.set isValid
  · exact Nat.le_max_left _ _
  · simp [Heap.object?]

/-- The condition is to be shown of the object that is written. -/
theorem Ensures.store
    (all : heap.All valid)
    {address : Nat}
    {object : Object}
    (isValid : valid address object)
    {post : Unit → Heap Object → Prop}
    (holds : ∀ after, after.All valid → heap.next ≤ after.next →
      after.object? address = some object →
      (∀ other, other ≠ address → after.object? other = heap.object? other) →
      post () after) :
    Ensures (store address object) heap post := by
  constructor
  intro _ after result
  obtain ⟨cell, found, same⟩ := Option.map_eq_some_iff.mp result
  cases same
  apply holds
  · exact all.set isValid
  · exact Nat.le_max_left _ _
  · simp [Heap.object?]
  · intro other distinct
    simp [Heap.object?, heap.set_cells_of_ne _ distinct]

/-- A reference more changes no object. -/
theorem Ensures.retain
    (all : heap.All valid)
    {address : Nat}
    {post : Unit → Heap Object → Prop}
    (holds : ∀ after, after.All valid → heap.next ≤ after.next →
      after.object? = heap.object? → post () after) :
    Ensures (retain address) heap post := by
  constructor
  intro _ after result
  obtain ⟨cell, found, same⟩ := Option.map_eq_some_iff.mp result
  cases same
  have stored : heap.object? address = some cell.object := by
    simp [Heap.object?, found]
  apply holds
  · exact all.set (all address cell.object stored)
  · exact Nat.le_max_left _ _
  · funext other
    by_cases isAddress : other = address
    · subst isAddress
      simp [Heap.object?, found]
    · simp [Heap.object?, heap.set_cells_of_ne _ isAddress]

end Objects

/-! ### Operations on counts -/

section Counting

variable [Referencing Object]

/-- Releases addresses one after the other; an object that nobody refers to any
more is freed and releases what it refers to first. -/
def releaseAll : Nat → List Nat → Heap Object → Option (Heap Object)
  | _, [], heap => some heap
  | 0, _ :: _, _ => none
  | fuel + 1, address :: rest, heap =>
      match heap.cells address with
      | none => none
      | some ⟨0, _⟩ => none
      | some ⟨1, object⟩ =>
          releaseAll fuel (references object ++ rest) (heap.set address none)
      | some ⟨count + 2, object⟩ =>
          releaseAll fuel rest (heap.set address (some ⟨count + 1, object⟩))

/-- Takes a reference to an object away. -/
def release (address : Nat) : Program Object Unit :=
  fun heap =>
    (releaseAll (heap.total + 1) [address] heap).map fun after => ((), after)

/-- Freeing an object with one reference to it. -/
theorem effect_set_none
    {heap : Heap Object}
    {address : Nat}
    {object : Object}
    (found : heap.cells address = some ⟨1, object⟩) :
    Effect heap (heap.set address none) (owns (references object) - own address)
      fun _ => False := by
  have effect := Effect.of_set heap address none
  refine ⟨?_, ?_, effect.next_le⟩
  · intro target
    rw [effect.excess target]
    simp only [Heap.count, Heap.referencesAt, found, Cell.countOf,
      Cell.referencesOf, owns_nil, Pi.sub_apply, Pi.zero_apply]
    push_cast
    ring
  · intro other cell below _ isFound
    by_cases same : other = address
    · subst same
      simp at isFound
    · exact effect.kept other cell below same isFound

/-- Changing a count. -/
theorem effect_set_count
    {heap : Heap Object}
    {address : Nat}
    {cell : Cell Object}
    (found : heap.cells address = some cell)
    (count : Nat) :
    Effect heap (heap.set address (some ⟨count, cell.object⟩))
      (fun target => (count - cell.count) * own address target) fun _ =>
        False := by
  have effect := Effect.of_set heap address (some ⟨count, cell.object⟩)
  refine ⟨?_, ?_, effect.next_le⟩
  · intro target
    rw [effect.excess target]
    simp only [Heap.count, Heap.referencesAt, found, Cell.countOf,
      Cell.referencesOf]
    ring
  · intro other otherCell below _ isFound
    by_cases same : other = address
    · subst same
      rw [Heap.set_cells_self, Option.some.injEq] at isFound
      simp [Heap.object?, found, ← isFound]
    · exact effect.kept other otherCell below same isFound

/-- By induction on the fuel: what is freed gives up its references, and these
are released in turn. -/
theorem releaseAll_effect
    {fuel : Nat}
    {worklist : List Nat}
    {heap after : Heap Object}
    (result : releaseAll fuel worklist heap = some after) :
    Effect heap after (-owns worklist) fun _ => False := by
  fun_induction releaseAll fuel worklist heap with
  | case1 =>
      cases result
      exact (Effect.refl _).weaken (by simp) (fun _ _ never => never)
  | case2 | case3 | case4 => cases result
  | case5 fuel address rest heap object found inductionHypothesis =>
      have freed := effect_set_none found
      apply (freed.trans (inductionHypothesis result)).weaken
      · rw [owns_append, owns_cons]
        funext other
        simp only [Pi.add_apply, Pi.sub_apply, Pi.neg_apply]
        ring
      · intro _ _ either
        exact either.elim id id
  | case6 fuel address rest heap count object found inductionHypothesis =>
      have lowered := effect_set_count found (count + 1)
      apply (lowered.trans (inductionHypothesis result)).weaken
      · rw [owns_cons]
        funext other
        simp only [Pi.add_apply, Pi.neg_apply]
        push_cast
        ring
      · intro _ _ either
        exact either.elim id id

/-- No address is used for the first time. -/
theorem releaseAll_next
    {fuel : Nat}
    {worklist : List Nat}
    {heap after : Heap Object}
    (result : releaseAll fuel worklist heap = some after) :
    after.next = heap.next := by
  fun_induction releaseAll fuel worklist heap with
  | case1 =>
      cases result
      rfl
  | case2 | case3 | case4 => cases result
  | case5 fuel address rest heap object found inductionHypothesis =>
      rw [inductionHypothesis result,
        heap.set_next_of_lt _ (Heap.lt_next_of_cells found)]
  | case6 fuel address rest heap count object found inductionHypothesis =>
      rw [inductionHypothesis result,
        heap.set_next_of_lt _ (Heap.lt_next_of_cells found)]

/-- An object that is still there was there before, and is the same. -/
theorem releaseAll_kept
    {fuel : Nat}
    {worklist : List Nat}
    {heap after : Heap Object}
    (result : releaseAll fuel worklist heap = some after)
    {address : Nat}
    {object : Object}
    (found : after.object? address = some object) :
    heap.object? address = some object := by
  obtain ⟨cell, isCell, rfl⟩ := Option.map_eq_some_iff.mp found
  apply (releaseAll_effect result).kept address cell _
    (fun never => never) isCell
  rw [← releaseAll_next result]
  exact Heap.lt_next_of_cells isCell

/-- What is owned can be released, with the sum of the counts as fuel. -/
theorem releaseAll_isSome
    {fuel : Nat}
    {worklist : List Nat}
    {heap : Heap Object}
    (enough : heap.total < fuel)
    (owned : ∀ address, owns worklist address ≤ heap.excess address) :
    ∃ after, releaseAll fuel worklist heap = some after := by
  induction fuel generalizing worklist heap with
  | zero => omega
  | succ fuel inductionHypothesis =>
      cases worklist with
      | nil => exact ⟨heap, rfl⟩
      | cons address rest =>
          have restOwned : ∀ other,
              own address other + owns rest other ≤ heap.excess other := by
            intro other
            have := owned other
            rwa [owns_cons] at this
          have positive : 0 < (heap.incoming address : Int) +
              heap.excess address := by
            have atAddress := restOwned address
            have nonneg := owns_nonneg rest address
            simp only [own, if_pos] at atAddress
            omega
          obtain ⟨⟨count, object⟩, found, countPositive⟩ :=
            Heap.cells_of_excess positive
          have below := Heap.lt_next_of_cells found
          cases count with
          | zero => simp at countPositive
          | succ count =>
              cases count with
              | zero =>
                  rw [releaseAll, found]
                  have sums := heap.total_set none below
                  simp only [Heap.count, found, Cell.countOf] at sums
                  apply inductionHypothesis (by omega)
                  intro other
                  rw [(effect_set_none found).excess other, owns_append]
                  have := restOwned other
                  simp only [Pi.add_apply, Pi.sub_apply]
                  omega
              | succ count =>
                  rw [releaseAll, found]
                  have sums := heap.total_set (some ⟨count + 1, object⟩) below
                  simp only [Heap.count, found, Cell.countOf] at sums
                  apply inductionHypothesis (by omega)
                  intro other
                  rw [(effect_set_count found (count + 1)).excess other]
                  have := restOwned other
                  push_cast
                  linarith

/-! ### Rules for the operations

The effects since a heap `base` add up. -/

section Accumulating

variable {base heap : Heap Object} {change : Nat → Int} {changed : Nat → Prop}

/-- A new object has one reference, and takes those to what it contains. -/
theorem Runs.allocate
    (effect : Effect base heap change changed)
    {object : Object}
    {post : Nat → Heap Object → Prop}
    (holds : ∀ after, after.object? heap.next = some object →
      (∀ other, other ≠ heap.next → after.object? other = heap.object? other) →
      heap.next < after.next →
      Effect base after (change + (own heap.next - owns (references object)))
        changed →
      post heap.next after) :
    Runs (allocate object) heap post := by
  have unused := heap.bounded heap.next (Nat.le_refl _)
  refine ⟨heap.next, heap.set heap.next (some ⟨1, object⟩), rfl,
    holds _ ?_ ?_ ?_ ?_⟩
  · simp [Heap.object?]
  · intro other distinct
    simp [Heap.object?, heap.set_cells_of_ne _ distinct]
  · exact Nat.lt_of_lt_of_le (Nat.lt_succ_self _) (Nat.le_max_right _ _)
  · apply effect.trans_unchanged
    apply (Effect.of_set heap heap.next (some ⟨1, object⟩)).weaken
    · funext target
      simp [Heap.count, Heap.referencesAt, unused, Cell.countOf,
        Cell.referencesOf]
    · intro address below same
      omega

/-- The old object gives up its references, and the new one takes its own. -/
theorem Runs.store
    (effect : Effect base heap change changed)
    {address : Nat}
    {object old : Object}
    {post : Unit → Heap Object → Prop}
    (found : heap.object? address = some old)
    (holds : ∀ after, after.object? address = some object →
      (∀ other, other ≠ address → after.object? other = heap.object? other) →
      Effect base after
        (change + (owns (references old) - owns (references object)))
        (fun other => changed other ∨ other = address) →
      post () after) :
    Runs (store address object) heap post := by
  obtain ⟨cell, isCell, rfl⟩ := Option.map_eq_some_iff.mp found
  refine ⟨(), heap.set address (some ⟨cell.count, object⟩),
    by simp [Program.store, isCell],
    holds _ ?_ ?_ ?_⟩
  · simp [Heap.object?]
  · intro other distinct
    simp [Heap.object?, heap.set_cells_of_ne _ distinct]
  · apply effect.trans
    apply (Effect.of_set heap address (some ⟨cell.count, object⟩)).weaken
    · funext target
      simp [Heap.count, Heap.referencesAt, isCell, Cell.countOf,
        Cell.referencesOf]
    · exact fun _ _ same => same

/-- A reference more. -/
theorem Runs.retain
    (effect : Effect base heap change changed)
    {address : Nat}
    {object : Object}
    {post : Unit → Heap Object → Prop}
    (found : heap.object? address = some object)
    (holds : ∀ after, after.object? = heap.object? →
      Effect base after (change + own address) changed → post () after) :
    Runs (retain address) heap post := by
  obtain ⟨cell, isCell, rfl⟩ := Option.map_eq_some_iff.mp found
  refine ⟨(), heap.set address (some ⟨cell.count + 1, cell.object⟩),
    by simp [Program.retain, isCell], holds _ ?_ ?_⟩
  · funext other
    by_cases same : other = address
    · subst same
      simp [Heap.object?, isCell]
    · simp [Heap.object?, heap.set_cells_of_ne _ same]
  · apply effect.trans_unchanged
    apply (effect_set_count isCell (cell.count + 1)).weaken
    · funext target
      push_cast
      ring
    · exact fun _ _ never => never

/-- A release takes a reference and changes no object that is still there. -/
theorem Runs.release
    (effect : Effect base heap change changed)
    {address : Nat}
    {post : Unit → Heap Object → Prop}
    (owned : ∀ other, own address other ≤ base.excess other + change other)
    (holds : ∀ after,
      (∀ other object, after.object? other = some object →
        heap.object? other = some object) →
      Effect heap after (-own address) (fun _ => False) →
      Effect base after (change - own address) changed → post () after) :
    Runs (release address) heap post := by
  have single : owns [address] = own address := by simp [owns_cons]
  have listOwned : ∀ other, owns [address] other ≤ heap.excess other := by
    intro other
    rw [single, effect.excess other]
    exact owned other
  obtain ⟨after, result⟩ :=
    releaseAll_isSome (Nat.lt_succ_self heap.total) listOwned
  have released : Effect heap after (-own address) fun _ => False := by
    rw [← single]
    exact releaseAll_effect result
  refine ⟨(), after, by simp [Program.release, result],
    holds after (fun _ _ => releaseAll_kept result) released ?_⟩
  rw [sub_eq_add_neg]
  exact effect.trans_unchanged released

end Accumulating

/-- A release changes no object that is still there. -/
theorem Ensures.release
    {valid : Nat → Object → Prop}
    {heap : Heap Object}
    (all : heap.All valid)
    {address : Nat}
    {post : Unit → Heap Object → Prop}
    (holds : ∀ after, after.All valid → heap.next ≤ after.next →
      (∀ other object, after.object? other = some object →
        heap.object? other = some object) →
      post () after) :
    Ensures (release address) heap post := by
  constructor
  intro _ after result
  obtain ⟨released, isReleased, same⟩ := Option.map_eq_some_iff.mp result
  cases same
  have effect := releaseAll_effect isReleased
  have kept : ∀ other object, after.object? other = some object →
      heap.object? other = some object := fun _ _ => releaseAll_kept isReleased
  exact holds after
    (fun other object found => all other object (kept other object found))
    effect.next_le kept

end Counting

end Program

/-! ## References for a while

A reference that is retained and released again leaves the heap as it was. -/

section Borrowing

/-- One more for an address. -/
def one (address : Nat) : Nat → Nat :=
  fun other => if other = address then 1 else 0

namespace Heap

/-- The heap with larger counts. -/
def raise (heap : Heap Object) (amounts : Nat → Nat) : Heap Object where
  cells := fun address =>
    (heap.cells address).map fun cell =>
      { cell with count := cell.count + amounts address }
  next := heap.next
  bounded := by
    intro address beyond
    rw [heap.bounded address beyond]
    rfl

/-- A heap is given by its cells and by the first address that was not used. -/
theorem ext_cells
    {first second : Heap Object}
    (sameCells : first.cells = second.cells)
    (sameNext : first.next = second.next) : first = second := by
  cases first
  cases second
  cases sameCells
  cases sameNext
  rfl

/-- Raising the counts by nothing. -/
@[simp]
theorem raise_zero (heap : Heap Object) : heap.raise 0 = heap := by
  apply ext_cells
  · funext address
    simp [raise]
  · rfl

/-- The objects are the same. -/
@[simp]
theorem raise_object (heap : Heap Object) (amounts : Nat → Nat) :
    (heap.raise amounts).object? = heap.object? := by
  funext address
  simp [raise, object?, Function.comp_def]

/-- The cells of a heap with larger counts. -/
theorem raise_cells
    {heap : Heap Object}
    {address : Nat}
    {cell : Cell Object}
    (found : heap.cells address = some cell)
    (amounts : Nat → Nat) :
    (heap.raise amounts).cells address =
      some { cell with count := cell.count + amounts address } := by
  simp [raise, found]

/-- Raising one count further. -/
theorem raise_set
    {heap : Heap Object}
    {address : Nat}
    {cell : Cell Object}
    (found : heap.cells address = some cell)
    (amounts later : Nat → Nat)
    (others : ∀ other, other ≠ address → later other = amounts other) :
    (heap.raise amounts).set address
    (some { cell with count := cell.count + later address }) =
      heap.raise later := by
  have below := lt_next_of_cells found
  apply ext_cells
  · funext other
    by_cases same : other = address
    · subst same
      rw [set_cells_self, raise_cells found]
    · rw [set_cells_of_ne _ _ same]
      simp only [raise, others other same]
  · exact set_next_of_lt _ _ below

end Heap

namespace Program

/-- To retain is to raise one count. -/
theorem retain_raise
    {heap : Heap Object}
    {address : Nat}
    {object : Object}
    (found : heap.object? address = some object)
    (amounts : Nat → Nat) :
    retain address (heap.raise amounts) =
      some ((), heap.raise (amounts + one address)) := by
  obtain ⟨cell, isCell, _⟩ := Option.map_eq_some_iff.mp found
  have raised := Heap.raise_set isCell amounts (amounts + one address)
    (by intro other distinct; simp [one, distinct])
  rw [retain, Heap.raise_cells isCell, Option.map_some, ← raised]
  simp [one, Nat.add_assoc]

/-- To release is to take back a count that was raised, if the object has
another one. -/
theorem release_raise
    [Referencing Object]
    {heap : Heap Object}
    {address : Nat}
    (positive : 0 < heap.count address)
    (amounts : Nat → Nat) :
    release address (heap.raise (amounts + one address)) =
      some ((), heap.raise amounts) := by
  obtain ⟨cell, isCell⟩ : ∃ cell, heap.cells address = some cell := by
    cases isCell : heap.cells address with
    | none => simp [Heap.count, isCell, Cell.countOf] at positive
    | some cell => exact ⟨cell, rfl⟩
  rw [Heap.count, isCell, Cell.countOf] at positive
  obtain ⟨count, isCount⟩ :=
    Nat.exists_eq_succ_of_ne_zero (Nat.pos_iff_ne_zero.mp positive)
  have atCell := Heap.raise_cells isCell (amounts + one address)
  have isTwo : cell.count + (amounts + one address) address = count +
      amounts address + 2 := by
    simp [one, isCount]
    omega
  have lowered := Heap.raise_set isCell (amounts + one address) amounts
    (by intro other distinct; simp [one, distinct])
  rw [isTwo] at atCell
  rw [release, releaseAll, atCell]
  simp only [releaseAll, Option.map_some]
  rw [← lowered, isCount]
  congr 5
  omega

end Program

/-! ## What an effect leaves alone -/

/-- What is reached from objects that are still there, and that were not
changed, is there and was not changed either, if nobody refers to what was
changed. -/
theorem Pinned.object_kept
    [Referencing Object]
    {before after : Heap Object}
    {held change : Nat → Int}
    {changed : Nat → Prop}
    (effect : Effect before after change changed)
    (nonneg : ∀ address, 0 ≤ before.excess address)
    (nonnegAfter : ∀ address, 0 ≤ after.excess address)
    (unreferenced : ∀ address, changed address → before.incoming address = 0)
    (start : ∀ address, 0 < held address → ¬ changed address ∧
      (∃ object, before.object? address = some object) ∧
      ∃ object, after.object? address = some object)
    {address : Nat}
    (pinned : Pinned before held (fun _ => False) address) :
    after.object? address = before.object? address := by
  have same {address : Nat} {object now : Object}
      (found : before.object? address = some object)
      (unchanged : ¬ changed address)
      (isNow : after.object? address = some now) :
      after.object? address = before.object? address := by
    rw [isNow, found, effect.object_eq found unchanged isNow]
  induction pinned with
  | owned address positive =>
      obtain ⟨unchanged, ⟨object, found⟩, now, isNow⟩ := start address positive
      exact same found unchanged isNow
  | referred source target object _ _ found refers inductionHypothesis =>
      obtain ⟨old, isOld⟩ := Heap.object_of_reference nonneg found refers
      have sourceNow : after.object? source = some object := by
        rw [inductionHypothesis, found]
      obtain ⟨now, isNow⟩ :=
        Heap.object_of_reference nonnegAfter sourceNow refers
      apply same isOld _ isNow
      intro isChanged
      obtain ⟨cell, isCell, rfl⟩ := Option.map_eq_some_iff.mp found
      have refersFrom : target ∈ before.referencesAt source := by
        rw [Heap.referencesAt, isCell]
        exact refers
      have := Heap.incoming_pos refersFrom
      rw [unreferenced target isChanged] at this
      exact Nat.lt_irrefl 0 this

/-- What is reached stays reached if it stays as it is. -/
theorem Pinned.of_kept
    [Referencing Object]
    {heap later : Heap Object}
    {held : Nat → Int}
    {changed : Nat → Prop}
    (same : ∀ address, Pinned heap held changed address →
      later.object? address = heap.object? address)
    {address : Nat}
    (pinned : Pinned heap held changed address) :
    Pinned later held changed address := by
  induction pinned with
  | owned address positive => exact .owned address positive
  | referred source target object sourcePinned unchanged found refers
      inductionHypothesis =>
      apply Pinned.referred source target object inductionHypothesis unchanged
        _ refers
      rw [same source sourcePinned, found]

end Borrowing

/-! ## What is freed -/

section Freeing

/-- The count of an object that is there is not 0. -/
def Heap.Positive (heap : Heap Object) : Prop :=
  ∀ address cell, heap.cells address = some cell → 0 < cell.count

/-- The count is to be shown of the new cell only. -/
theorem Heap.Positive.set
    {heap : Heap Object}
    (positive : heap.Positive)
    {address : Nat}
    {cell : Option (Cell Object)}
    (isPositive : ∀ stored, cell = some stored → 0 < stored.count) :
    (heap.set address cell).Positive := by
  intro other stored found
  by_cases same : other = address
  · subst same
    rw [Heap.set_cells_self] at found
    exact isPositive stored found
  · rw [heap.set_cells_of_ne cell same] at found
    exact positive other stored found

variable {α β : Type}

/-- The program keeps the counts of what is there above 0. -/
def Program.KeepsPositive (program : Program Object α) : Prop :=
  ∀ heap, heap.Positive →
    Program.Ensures program heap fun _ after => after.Positive

namespace Program.KeepsPositive

/-- A program that returns at once. -/
theorem pure (value : α) : KeepsPositive (Pure.pure value : Program Object α) :=
  fun _ positive => Ensures.pure positive

/-- One program after the other. -/
theorem bind
    {program : Program Object α}
    {next : α → Program Object β}
    (first : program.KeepsPositive)
    (second : ∀ value, (next value).KeepsPositive) :
    (program >>= next).KeepsPositive := by
  intro heap positive
  apply Ensures.bind
  exact (first heap positive).mono fun value after isPositive =>
    second value after isPositive

/-- There is no heap afterwards. -/
theorem undefined : KeepsPositive (Program.undefined : Program Object α) :=
  fun _ _ => Ensures.undefined

/-- Reading changes nothing. -/
theorem load (address : Nat) : KeepsPositive
    (Program.load address : Program Object Object) :=
  fun _ positive => Ensures.load fun _ _ => positive

/-- A new object has the count 1. -/
theorem allocate
    (object : Object) : (Program.allocate object).KeepsPositive := by
  intro heap positive
  constructor
  intro address after result
  cases result
  apply positive.set
  intro stored isStored
  cases isStored
  exact Nat.one_pos

/-- The count stays. -/
theorem store (address : Nat) (object : Object) :
    (Program.store address object).KeepsPositive := by
  intro heap positive
  constructor
  intro _ after result
  obtain ⟨cell, found, same⟩ := Option.map_eq_some_iff.mp result
  cases same
  apply positive.set
  intro stored isStored
  cases isStored
  exact positive address cell found

/-- The count grows. -/
theorem retain (address : Nat) : KeepsPositive
    (Program.retain address : Program Object Unit) := by
  intro heap positive
  constructor
  intro _ after result
  obtain ⟨cell, found, same⟩ := Option.map_eq_some_iff.mp result
  cases same
  apply positive.set
  intro stored isStored
  cases isStored
  exact Nat.succ_pos cell.count

/-- By induction on the fuel: an object whose count would become 0 is freed. -/
theorem releaseAll
    [Referencing Object]
    {fuel : Nat}
    {worklist : List Nat}
    {heap after : Heap Object}
    (positive : heap.Positive)
    (result : Program.releaseAll fuel worklist heap = some after) :
    after.Positive := by
  fun_induction Program.releaseAll fuel worklist heap with
  | case1 =>
      cases result
      exact positive
  | case2 | case3 | case4 => cases result
  | case5 fuel address rest heap object found inductionHypothesis =>
      apply inductionHypothesis (positive.set _) result
      intro stored isStored
      cases isStored
  | case6 fuel address rest heap count object found inductionHypothesis =>
      apply inductionHypothesis (positive.set _) result
      intro stored isStored
      cases isStored
      exact Nat.succ_pos count

/-- An object whose last reference is taken away is freed. -/
theorem release [Referencing Object] (address : Nat) :
    KeepsPositive (Program.release address : Program Object Unit) := by
  intro heap positive
  constructor
  intro _ after result
  obtain ⟨released, isReleased, same⟩ := Option.map_eq_some_iff.mp result
  cases same
  exact releaseAll positive isReleased

end Program.KeepsPositive

/-- Where every object satisfies a condition before the program, every object
does after it, and the result satisfies another one. -/
def Program.Keeps
    (valid : Nat → Object → Prop)
    (program : Program Object α)
    (post : α → Prop) : Prop :=
  ∀ heap : Heap Object, heap.All valid →
    Program.Ensures program heap fun value after => after.All valid ∧ post value

namespace Program.Keeps

variable {valid : Nat → Object → Prop} {post : α → Prop}

/-- A program that returns at once. -/
theorem pure {value : α} (holds : post value) :
    Keeps valid (Pure.pure value : Program Object α) post :=
  fun _ all => Ensures.pure ⟨all, holds⟩

/-- One program after the other, where the first one says what it returns. -/
theorem bind
    {program : Program Object α}
    {next : α → Program Object β}
    {post' : β → Prop}
    (first : program.Keeps valid post)
    (second : ∀ value, post value → (next value).Keeps valid post') :
    (program >>= next).Keeps valid post' := by
  intro heap all
  apply Ensures.bind
  apply (first heap all).mono
  rintro value after ⟨allAfter, holds⟩
  exact second value holds after allAfter

/-- A value that satisfies a condition satisfies a weaker one. -/
theorem mono
    {program : Program Object α}
    {post' : α → Prop}
    (keeps : program.Keeps valid post)
    (weaker : ∀ value, post value → post' value) : program.Keeps valid post' :=
  fun heap all => (keeps heap all).mono fun value _ holds =>
    ⟨holds.1, weaker value holds.2⟩

/-- There is no heap afterwards. -/
theorem undefined : Keeps valid (Program.undefined : Program Object α) post :=
  fun _ _ => Ensures.undefined

/-- What is loaded satisfies the condition. -/
theorem load (address : Nat) :
    Keeps valid (Program.load address : Program Object Object)
      (valid address) :=
  fun _ all => Ensures.load fun object found => ⟨all, all address object found⟩

/-- The object that is written satisfies the condition. -/
theorem store
    {address : Nat}
    {object : Object}
    (isValid : valid address object) :
    (Program.store address object).Keeps valid fun _ => True :=
  fun _ all =>
    Ensures.store all isValid fun _ allAfter _ _ _ => ⟨allAfter, trivial⟩

/-- A reference more changes no object. -/
theorem retain (address : Nat) :
    Keeps valid (Program.retain address : Program Object Unit) fun _ => True :=
  fun _ all => Ensures.retain all fun _ allAfter _ _ => ⟨allAfter, trivial⟩

/-- What is left after a release was there before. -/
theorem release [Referencing Object] (address : Nat) :
    Keeps valid (Program.release address : Program Object Unit) fun _ => True :=
  fun _ all => Ensures.release all fun _ allAfter _ _ => ⟨allAfter, trivial⟩

end Program.Keeps

/-- One object refers to another. -/
def Heap.Refers [Referencing Object] (heap : Heap Object)
    (source target : Nat) : Prop :=
  ∃ object, heap.object? source = some object ∧ target ∈ references object

/-- A reference in a list is a reference from the object. -/
theorem Heap.refers_of_referencesAt
    [Referencing Object]
    {heap : Heap Object}
    {source target : Nat}
    (refers : target ∈ heap.referencesAt source) :
    heap.Refers source target := by
  unfold referencesAt at refers
  cases found : heap.cells source with
  | none => simp [found, Cell.referencesOf] at refers
  | some cell =>
      rw [found] at refers
      exact ⟨cell.object, by simp [object?, found], refers⟩

/-- What has a reference from the heap has an object that refers to it. -/
theorem Heap.exists_refers_of_incoming
    [Referencing Object]
    {heap : Heap Object}
    {target : Nat}
    (positive : 0 < heap.incoming target) : ∃ source,
    heap.Refers source target := by
  obtain ⟨source, _, counted⟩ :=
    Finset.exists_ne_zero_of_sum_ne_zero (Nat.pos_iff_ne_zero.mp positive)
  have refers := List.count_pos_iff.mp (Nat.pos_iff_ne_zero.mpr counted)
  exact ⟨source, refers_of_referencesAt refers⟩

/-- Where nobody owns any of some objects, and they are referred to by one
another only and in no cycle, none of them is there. -/
theorem Heap.cells_eq_none_of_acyclic
    [Referencing Object]
    {heap : Heap Object}
    (among : Nat → Prop)
    (positive : heap.Positive)
    (unowned : ∀ address, among address → heap.excess address = 0)
    (sources : ∀ source target, heap.Refers source target → among target →
      among source)
    (acyclic : ∀ address, ¬ Relation.TransGen
      (fun source target => heap.Refers source target ∧ among source ∧
        among target)
      address address)
    {address : Nat}
    (isAmong : among address) : heap.cells address = none := by
  let Live := {address : Fin heap.next // among address}
  let before : Live → Live → Prop := fun source target =>
    Relation.TransGen
      (fun source target => heap.Refers source target ∧ among source ∧
        among target)
      source.1 target.1
  have isTrans : IsTrans Live before :=
    ⟨fun _ _ _ first second => first.trans second⟩
  have isIrrefl : Std.Irrefl before := ⟨fun source => acyclic source.1⟩
  have wellFounded : WellFounded before :=
    Finite.wellFounded_of_trans_of_irrefl before
  have none_of_live (live : Live) : heap.cells live.1 = none := by
    induction live using wellFounded.induction with
    | _ live inductionHypothesis =>
        cases found : heap.cells live.1 with
        | none => rfl
        | some cell =>
            have counted := positive live.1 cell found
            have noExcess := unowned live.1 live.2
            have incoming : 0 < heap.incoming live.1 := by
              simp only [excess, count, found, Cell.countOf] at noExcess
              omega
            obtain ⟨source, refers⟩ := exists_refers_of_incoming incoming
            obtain ⟨object, isObject, isReferred⟩ := refers
            have below := lt_next_of_object isObject
            have sourceAmong :=
              sources source live.1 ⟨object, isObject, isReferred⟩ live.2
            have sourceNone := inductionHypothesis
              ⟨⟨source, below⟩, sourceAmong⟩
              (.single ⟨⟨object, isObject, isReferred⟩, sourceAmong, live.2⟩)
            simp [object?, sourceNone] at isObject
  by_cases below : address < heap.next
  · exact none_of_live ⟨⟨address, below⟩, isAmong⟩
  · exact heap.bounded address (by omega)

end Freeing

end RefCount
end ClojureRt
