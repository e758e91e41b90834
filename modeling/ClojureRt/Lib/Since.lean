import ClojureRt.Lib.RefCount

/-!
# What has happened since a heap

Code that takes and gives references is described by what has happened since the
heap it started from: how the counts changed beyond the references from the
heap, which of the old objects may have other fields, and which addresses were
written.  Every object that is there now was there before, or its address was
written.
-/

namespace ClojureRt
namespace RefCount

variable {Object : Type} [Referencing Object]

theorem own_nonneg (address other : Nat) : 0 ≤ own address other := by
  unfold own
  split <;> decide

theorem own_self (address : Nat) : own address address = 1 := by
  simp [own]

theorem owns_singleton (address : Nat) : owns [address] = own address := by
  rw [owns_cons, owns_nil, add_zero]

/-- The references are among those that belong to whoever runs on the heap. -/
def Holds (heap : Heap Object) (held : List Nat) : Prop :=
  ∀ address, owns held address ≤ heap.excess address

namespace Holds

variable {heap : Heap Object} {held : List Nat}

theorem excess_nonneg (holds : Holds heap held)
    (address : Nat) : 0 ≤ heap.excess address :=
  (owns_nonneg held address).trans (holds address)

theorem head
    {address : Nat}
    (holds : Holds heap (address :: held)) : Holds heap [address] := by
  intro other
  have owned := holds other
  have := owns_nonneg held other
  rw [owns_cons, Pi.add_apply] at owned
  rw [owns_singleton]
  omega

theorem tail
    {address : Nat}
    (holds : Holds heap (address :: held)) : Holds heap held := by
  intro other
  have owned := holds other
  have := own_nonneg address other
  rw [owns_cons, Pi.add_apply] at owned
  omega

theorem present (holds : Holds heap held) {address : Nat}
    (isHeld : address ∈ held) :
    ∃ object, heap.object? address = some object := by
  apply Heap.object_of_owned
  have positive := List.count_pos_iff.mpr isHeld
  have := holds address
  unfold owns at this
  omega

/-- What an object that is there refers to is there. -/
theorem reference_present
    (holds : Holds heap held)
    {source target : Nat}
    {object : Object}
    (found : heap.object? source = some object)
    (refers : target ∈ Referencing.references object) :
    ∃ other, heap.object? target = some other :=
  Heap.object_of_reference holds.excess_nonneg found refers

end Holds

/-- What has happened since a heap `base`. -/
structure Since
    (base heap : Heap Object)
    (change : Nat → Int)
    (changed written : Nat → Prop) : Prop where
  effect : Effect base heap change changed
  kept : ∀ address object, heap.object? address = some object →
    ¬ written address →
    base.object? address = some object

namespace Since

variable
  {base heap : Heap Object}
  {change change' : Nat → Int}
  {changed changed' written written' : Nat → Prop}

theorem refl (heap : Heap Object) : Since heap heap 0
    (fun _ => False) fun _ => False where
  effect := Effect.refl heap
  kept _ _ found _ := found

theorem weaken
    (since : Since base heap change changed written)
    (sameChange : change = change')
    (moreChanged : ∀ address, changed address → changed' address)
    (moreWritten : ∀ address, written address → written' address) :
    Since base heap change' changed' written' where
  effect := since.effect.weaken sameChange fun address _ => moreChanged address
  kept address object found unwritten :=
    since.kept address object found fun isWritten =>
      unwritten (moreWritten address isWritten)

theorem trans
    {middle : Heap Object}
    (first : Since base middle change changed written)
    (second : Since middle heap change' changed' written') :
    Since base heap (change + change')
      (fun address => changed address ∨ changed' address)
      fun address => written address ∨ written' address where
  effect := first.effect.trans second.effect
  kept address object found unwritten :=
    first.kept address object
      (second.kept address object found fun isWritten =>
        unwritten (.inr isWritten))
      fun isWritten => unwritten (.inl isWritten)

/-- What is held after some code, if that is no more than what was held before
it, with what it gave and without what it took. -/
theorem holds
    {held held' : List Nat}
    (since : Since base heap change changed written)
    (held_before : Holds base held)
    (le : ∀ address, owns held' address ≤ owns held address + change address) :
    Holds heap held' := by
  intro address
  have := held_before address
  have := le address
  rw [since.effect.excess]
  omega

/-- An object that is still there and was not written is what it was. -/
theorem object_eq
    (since : Since base heap change changed written)
    {address : Nat}
    (unwritten : ¬ written address)
    (present : ∃ object, heap.object? address = some object) :
    heap.object? address = base.object? address := by
  obtain ⟨object, found⟩ := present
  rw [found, since.kept address object found unwritten]

end Since

namespace Program

omit [Referencing Object] in
/-- A program has one result. -/
theorem Runs.and
    {Result : Type}
    {program : Program Object Result}
    {heap : Heap Object}
    {post post' : Result → Heap Object → Prop}
    (first : Runs program heap post)
    (second : Runs program heap post') :
    Runs program heap fun value after => post value after ∧
      post' value after := by
  obtain ⟨value, after, isResult, holds⟩ := first
  exact ⟨value, after, isResult, holds,
    second.ensures.of_result value after isResult⟩

omit [Referencing Object] in
/-- What a run shows decides whether it shows something else. -/
theorem Runs.iff
    {Result : Type}
    {program : Program Object Result}
    {heap : Heap Object}
    {post post' : Result → Heap Object → Prop}
    {condition : Prop}
    (runs : Runs program heap post)
    (same : ∀ value after, post value after → (post' value after ↔ condition)) :
    Runs program heap post' ↔ condition := by
  constructor
  · intro shows
    obtain ⟨value, after, _, holds, holds'⟩ := runs.and shows
    exact (same value after holds).mp holds'
  · intro holds
    exact runs.mono fun value after shown => (same value after shown).mpr holds

variable
  {base heap : Heap Object}
  {change : Nat → Int}
  {changed written : Nat → Prop}

theorem Runs.retain_since
    (since : Since base heap change changed written)
    {address : Nat}
    (present : ∃ object, heap.object? address = some object)
    {post : Unit → Heap Object → Prop}
    (holds : ∀ after, after.object? = heap.object? →
      Since base after (change + own address) changed written → post () after) :
    Runs (Program.retain address) heap post := by
  obtain ⟨object, found⟩ := present
  apply Runs.retain since.effect found
  intro after same effect
  refine holds after same ⟨effect, ?_⟩
  rw [same]
  exact since.kept

theorem Runs.release_since
    (since : Since base heap change changed written)
    {address : Nat}
    (owned : ∀ other, own address other ≤ base.excess other + change other)
    {post : Unit → Heap Object → Prop}
    (holds : ∀ after,
      (∀ other object, after.object? other = some object →
        heap.object? other = some object) →
      Since base after (change - own address) changed written → post () after) :
    Runs (Program.release address) heap post := by
  apply Runs.release since.effect owned
  intro after kept _ effect
  apply holds after kept
  refine ⟨effect, ?_⟩
  intro other object found
  exact since.kept other object (kept other object found)

theorem Runs.allocate_since
    (since : Since base heap change changed written)
    {object : Object}
    {post : Nat → Heap Object → Prop}
    (holds : ∀ after, after.object? heap.next = some object →
      (∀ other, other ≠ heap.next → after.object? other = heap.object? other) →
      Since base after
        (change + (own heap.next - owns (Referencing.references object)))
        changed
        (fun other => written other ∨ other = heap.next) →
        post heap.next after) :
    Runs (Program.allocate object) heap post := by
  apply Runs.allocate since.effect
  intro after found others _ effect
  refine holds after found others ⟨effect, ?_⟩
  intro other stored isStored unwritten
  rw [not_or] at unwritten
  rw [others other unwritten.2] at isStored
  exact since.kept other stored isStored unwritten.1

theorem Runs.store_since
    (since : Since base heap change changed written)
    {address : Nat}
    {object old : Object}
    (found : heap.object? address = some old)
    {post : Unit → Heap Object → Prop}
    (holds : ∀ after, after.object? address = some object →
      (∀ other, other ≠ address → after.object? other = heap.object? other) →
      Since base after
        (change + (owns (Referencing.references old) -
          owns (Referencing.references object)))
        (fun other => changed other ∨ other = address)
        (fun other => written other ∨ other = address) → post () after) :
    Runs (Program.store address object) heap post := by
  apply Runs.store since.effect found
  intro after isStored others effect
  refine holds after isStored others ⟨effect, ?_⟩
  intro other stored isThere unwritten
  rw [not_or] at unwritten
  rw [others other unwritten.2] at isThere
  exact since.kept other stored isThere unwritten.1

end Program

end RefCount
end ClojureRt
