import ClojureRt.Lib.RefCount

/-!
# Exchanges of references

Code that takes some references and gives others changes the counts by just
that.  An object that somebody else has a reference to stays as it is, and every
object that is there afterwards and was not given away was there before.

Exchanges compose, and they leave alone what is held besides.  The rules are for
objects without references of their own, which a release frees and nothing else.
-/

namespace ClojureRt
namespace RefCount

variable {Object : Type}

/-- The counts are large enough for the references. -/
def Owned (heap : Heap Object) (held : List Nat) : Prop :=
  ∀ address, held.count address ≤ heap.count address

/-- Consumed references become given ones. -/
structure Exchange
    (before : Heap Object)
    (consumed given : List Nat)
    (after : Heap Object) : Prop where
  counts : ∀ address,
    after.count address + consumed.count address = before.count address +
      given.count address
  kept : ∀ address, address ∉ given → 0 < after.count address →
    after.object? address = before.object? address
  others : ∀ address, consumed.count address < before.count address →
    after.object? address = before.object? address

namespace Exchange

variable {before middle after : Heap Object}
  {consumed given result rest : List Nat}

theorem refl (heap : Heap Object)
    (held : List Nat) : Exchange heap held held heap where
  counts _ := rfl
  kept _ _ _ := rfl
  others _ _ := rfl

theorem trans
    (first : Exchange before consumed given middle)
    (second : Exchange middle given result after) :
    Exchange before consumed result after where
  counts := by
    intro address
    have := first.counts address
    have := second.counts address
    omega
  kept := by
    intro address notResult positive
    rw [second.kept address notResult positive]
    have noResult := List.count_eq_zero.mpr notResult
    have := first.counts address
    have := second.counts address
    by_cases isGiven : address ∈ given
    · -- somebody else had a reference all along
      have := List.count_pos_iff.mpr isGiven
      exact first.others address (by omega)
    · have := List.count_eq_zero.mpr isGiven
      exact first.kept address isGiven (by omega)
  others := by
    intro address isShared
    have := first.counts address
    rw [second.others address (by omega), first.others address isShared]

/-- What is held besides is not touched. -/
theorem frame (exchange : Exchange before consumed given after)
    (rest : List Nat) :
    Exchange before (consumed ++ rest) (given ++ rest) after where
  counts := by
    intro address
    have := exchange.counts address
    rw [List.count_append, List.count_append]
    omega
  kept := by
    intro address notGiven positive
    exact exchange.kept address
      (fun isGiven => notGiven (List.mem_append_left _ isGiven)) positive
  others := by
    intro address isShared
    rw [List.count_append] at isShared
    exact exchange.others address (by omega)

/-- The order of references does not matter. -/
theorem perm
    {consumed' given' : List Nat}
    (exchange : Exchange before consumed given after)
    (sameConsumed : consumed.Perm consumed')
    (sameGiven : given.Perm given') :
    Exchange before consumed' given' after where
  counts := by
    intro address
    rw [← sameConsumed.count_eq, ← sameGiven.count_eq]
    exact exchange.counts address
  kept := by
    intro address notGiven positive
    exact exchange.kept address
      (fun isGiven => notGiven (sameGiven.mem_iff.mp isGiven)) positive
  others := by
    intro address isShared
    rw [← sameConsumed.count_eq] at isShared
    exact exchange.others address isShared

theorem owned
    (exchange : Exchange before consumed given after)
    (owned : Owned before (consumed ++ rest)) :
    Owned after (given ++ rest) := by
  intro address
  have := owned address
  have := exchange.counts address
  rw [List.count_append] at *
  omega

/-- An object that is held besides stays as it is. -/
theorem object_eq
    (exchange : Exchange before consumed given after)
    (owned : Owned before (consumed ++ rest))
    {address : Nat}
    (isHeld : address ∈ rest) :
    after.object? address = before.object? address := by
  apply exchange.others
  have := owned address
  have := List.count_pos_iff.mpr isHeld
  rw [List.count_append] at *
  omega

end Exchange

namespace Owned

variable {heap : Heap Object} {held rest : List Nat} {address : Nat}

theorem count_pos (owned : Owned heap held) (isHeld : address ∈ held) :
    0 < heap.count address :=
  (List.count_pos_iff.mpr isHeld).trans_le (owned address)

end Owned

namespace Program

variable {heap : Heap Object} {address : Nat}

theorem count_set (heap : Heap Object) (address other : Nat)
    (cell : Option (Cell Object)) :
    (heap.set address cell).count other =
      if other = address then Cell.countOf cell else heap.count other := by
  unfold Heap.count
  by_cases same : other = address
  · rw [if_pos same, same, Heap.set_cells_self]
  · rw [if_neg same, Heap.set_cells_of_ne _ _ same]

theorem object?_set_of_ne
    (heap : Heap Object)
    {address other : Nat}
    (cell : Option (Cell Object))
    (distinct : other ≠ address) :
    (heap.set address cell).object? other = heap.object? other := by
  rw [Heap.object?, Heap.set_cells_of_ne _ _ distinct, Heap.object?]

/-- A new object is given. -/
theorem Runs.allocate_exchange
    {object : Object}
    {post : Nat → Heap Object → Prop}
    (holds : ∀ after, after.object? heap.next = some object →
      after.count heap.next = 1 → Exchange heap [] [heap.next] after →
        post heap.next after) :
    Runs (Program.allocate object) heap post := by
  have unused : heap.count heap.next = 0 := by
    rw [Heap.count, heap.bounded heap.next (Nat.le_refl _)]
    rfl
  refine ⟨heap.next, heap.set heap.next (some ⟨1, object⟩), rfl,
    holds _ ?_ ?_ ⟨?_, ?_, ?_⟩⟩
  · simp [Heap.object?]
  · simp [Heap.count, Cell.countOf]
  · intro other
    rw [count_set, List.count_nil, List.count_singleton]
    by_cases same : other = heap.next
    · simp [same, unused, Cell.countOf]
    · simp [same, Ne.symm same]
  · intro other notNew _
    exact object?_set_of_ne heap _
      (fun same => notNew (List.mem_singleton.mpr same))
  · intro other isShared
    apply object?_set_of_ne
    rintro rfl
    rw [unused] at isShared
    exact absurd isShared (Nat.not_lt_zero _)

/-- An object with one reference is overwritten. -/
theorem Runs.store_exchange
    {object old : Object}
    (found : heap.object? address = some old)
    (isOne : heap.count address = 1)
    {post : Unit → Heap Object → Prop}
    (holds : ∀ after, after.object? address = some object →
      Exchange heap [address] [address] after → post () after) :
    Runs (Program.store address object) heap post := by
  obtain ⟨cell, isCell, rfl⟩ := Option.map_eq_some_iff.mp found
  have sameCount : heap.count address = cell.count := by
    rw [Heap.count, isCell]
    rfl
  refine ⟨(), heap.set address (some ⟨cell.count, object⟩),
    by simp [Program.store, isCell],
    holds _ ?_ ⟨?_, ?_, ?_⟩⟩
  · simp [Heap.object?]
  · intro other
    rw [count_set]
    by_cases same : other = address
    · rw [if_pos same, same, sameCount]
      rfl
    · rw [if_neg same]
  · intro other notAddress _
    exact object?_set_of_ne heap _
      (fun same => notAddress (List.mem_singleton.mpr same))
  · intro other isShared
    apply object?_set_of_ne
    rintro rfl
    rw [isOne, List.count_singleton_self] at isShared
    exact absurd isShared (Nat.lt_irrefl 1)

/-- A reference to an object without references is given up. -/
theorem Runs.release_exchange
    [Referencing Object]
    {object : Object}
    (found : heap.object? address = some object)
    (isLeaf : Referencing.references object = [])
    (isOwned : 0 < heap.count address)
    {post : Unit → Heap Object → Prop}
    (holds : ∀ after, Exchange heap [address] [] after → post () after) :
    Runs (Program.release address) heap post := by
  obtain ⟨⟨count, object⟩, isCell, rfl⟩ := Option.map_eq_some_iff.mp found
  have isCount : heap.count address = count := by
    rw [Heap.count, isCell]
    rfl
  have exchange (cell : Option (Cell Object))
      (lower : Cell.countOf cell + 1 = count)
      (same : 0 < Cell.countOf cell → cell.map Cell.object = some object) :
      Exchange heap [address] [] (heap.set address cell) := by
    refine ⟨?_, ?_, ?_⟩
    · intro other
      rw [count_set, List.count_nil, List.count_singleton]
      by_cases isSame : other = address
      · simp [isSame, isCount, lower]
      · simp [isSame, Ne.symm isSame]
    · intro other _ positive
      by_cases isSame : other = address
      · rw [count_set, if_pos isSame] at positive
        rw [isSame, found, Heap.object?, Heap.set_cells_self, same positive]
      · exact object?_set_of_ne heap _ isSame
    · intro other isShared
      by_cases isSame : other = address
      · rw [isSame, isCount, List.count_singleton_self] at isShared
        rw [isSame, found, Heap.object?, Heap.set_cells_self, same (by omega)]
      · exact object?_set_of_ne heap _ isSame
  cases count with
  | zero =>
      rw [isCount] at isOwned
      exact absurd isOwned (Nat.lt_irrefl 0)
  | succ count =>
      cases count with
      | zero =>
          refine ⟨(), heap.set address none, ?_, holds _ (exchange none rfl ?_)⟩
          · simp [Program.release, releaseAll, isCell, isLeaf]
          · intro positive
            exact absurd positive (Nat.lt_irrefl 0)
      | succ count =>
          refine ⟨(), heap.set address (some ⟨count + 1, object⟩), ?_,
            holds _ (exchange (some ⟨count + 1, object⟩) rfl fun _ => rfl)⟩
          simp [Program.release, releaseAll, isCell]

end Program

/-! ## What is held -/

/-- Since a heap `base`, the consumed references have become the held ones,
which are counted. -/
structure Holding
    (base : Heap Object)
    (consumed : List Nat)
    (heap : Heap Object)
    (held : List Nat) : Prop where
  exchange : Exchange base consumed held heap
  owned : Owned heap held

namespace Holding

variable {base heap : Heap Object} {consumed held rest : List Nat}
  {address : Nat}

theorem start (owned : Owned heap held) : Holding heap held heap held :=
  ⟨Exchange.refl heap held, owned⟩

theorem perm (holding : Holding base consumed heap held)
    (same : held.Perm rest) :
    Holding base consumed heap rest where
  exchange := holding.exchange.perm (List.Perm.refl _) same
  owned := by
    intro address
    rw [← same.count_eq]
    exact holding.owned address

/-- A part of what is held is exchanged. -/
theorem andThen
    {after : Heap Object}
    {used made : List Nat}
    (holding : Holding base consumed heap (used ++ rest))
    (exchange : Exchange heap used made after) :
    Holding base consumed after (made ++ rest) where
  exchange := holding.exchange.trans (exchange.frame rest)
  owned := exchange.owned holding.owned

theorem runs_allocate
    (holding : Holding base consumed heap held)
    {object : Object}
    {post : Nat → Heap Object → Prop}
    (holds : ∀ after new, Holding base consumed after (new :: held) →
      after.object? new = some object → after.count new = 1 →
      (∀ other ∈ held, after.object? other = heap.object? other) →
      post new after) :
    Program.Runs (Program.allocate object) heap post := by
  apply Program.Runs.allocate_exchange
  intro after stored isOne exchange
  apply holds after heap.next (holding.andThen exchange) stored isOne
  intro other isHeld
  exact exchange.object_eq holding.owned isHeld

theorem runs_store
    (holding : Holding base consumed heap (address :: rest))
    {object old : Object}
    (found : heap.object? address = some old)
    (isOne : heap.count address = 1)
    {post : Unit → Heap Object → Prop}
    (holds : ∀ after, Holding base consumed after (address :: rest) →
      after.object? address = some object →
      (∀ other ∈ rest, after.object? other = heap.object? other) →
      post () after) :
    Program.Runs (Program.store address object) heap post := by
  apply Program.Runs.store_exchange found isOne
  intro after stored exchange
  apply holds after (holding.andThen exchange) stored
  intro other isHeld
  exact exchange.object_eq holding.owned isHeld

theorem runs_release
    [Referencing Object]
    (holding : Holding base consumed heap (address :: rest))
    {object : Object}
    (found : heap.object? address = some object)
    (isLeaf : Referencing.references object = [])
    {post : Unit → Heap Object → Prop}
    (holds : ∀ after, Holding base consumed after rest →
      (∀ other ∈ rest, after.object? other = heap.object? other) →
      post () after) :
    Program.Runs (Program.release address) heap post := by
  apply Program.Runs.release_exchange found isLeaf
    (holding.owned.count_pos List.mem_cons_self)
  intro after exchange
  apply holds after (holding.andThen exchange)
  intro other isHeld
  exact exchange.object_eq holding.owned isHeld

end Holding

end RefCount
end ClojureRt
