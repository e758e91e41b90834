import ClojureRt.Lib.Since

/-!
# Trades

Code that owns some references gives them up for others, and leaves alone
whatever is reached from the references of somebody else.  It may retain what
the heap refers to, and write an object that it alone refers to.  Trades
compose, and they keep what is owned besides.
-/

namespace ClojureRt
namespace RefCount

variable {Object : Type} [Referencing Object]

theorem nonneg_add
    {first second : Nat → Int}
    (nonneg : ∀ address, 0 ≤ first address)
    (nonneg' : ∀ address, 0 ≤ second address)
    (address : Nat) : 0 ≤ (first + second) address :=
  Int.add_nonneg (nonneg address) (nonneg' address)

/-- What is reached from held references. -/
abbrev Reached (heap : Heap Object) (held : Nat → Int) : Nat → Prop :=
  Pinned heap held fun _ => False

/-- The counts are large enough for what is held and for the references from the
heap. -/
structure Backed (heap : Heap Object) (held : Nat → Int) : Prop where
  nonneg : ∀ address, 0 ≤ held address
  le_excess : ∀ address, held address ≤ heap.excess address

namespace Backed

variable {heap : Heap Object} {held held' : Nat → Int}

theorem excess_nonneg (backed : Backed heap held)
    (address : Nat) : 0 ≤ heap.excess address :=
  (backed.nonneg address).trans (backed.le_excess address)

theorem mono
    (backed : Backed heap held)
    (nonneg : ∀ address, 0 ≤ held' address)
    (le : ∀ address, held' address ≤ held address) : Backed heap held' where
  nonneg := nonneg
  le_excess address := (le address).trans (backed.le_excess address)

theorem left
    (backed : Backed heap (held + held'))
    (nonneg : ∀ address, 0 ≤ held address)
    (nonneg' : ∀ address, 0 ≤ held' address) : Backed heap held := by
  apply backed.mono nonneg
  intro address
  have := nonneg' address
  rw [Pi.add_apply]
  omega

theorem right
    (backed : Backed heap (held + held'))
    (nonneg : ∀ address, 0 ≤ held address)
    (nonneg' : ∀ address, 0 ≤ held' address) : Backed heap held' := by
  apply backed.mono nonneg'
  intro address
  have := nonneg address
  rw [Pi.add_apply]
  omega

theorem of_eq (backed : Backed heap held) (same : held = held') :
    Backed heap held' :=
  same ▸ backed

/-- What is reached is there. -/
theorem present
    (backed : Backed heap held)
    {address : Nat}
    (reached : Reached heap held address) : ∃ object,
    heap.object? address = some object := by
  induction reached with
  | owned address positive =>
      exact Heap.object_of_owned
        (lt_of_lt_of_le positive (backed.le_excess address))
  | referred source target object _ _ found refers _ =>
      exact Heap.object_of_reference backed.excess_nonneg found refers

end Backed

theorem Reached.mono
    {heap : Heap Object}
    {held held' : Nat → Int}
    {address : Nat}
    (reached : Reached heap held address)
    (le : ∀ other, held other ≤ held' other) : Reached heap held' address :=
  reached.weaken (fun other positive => lt_of_lt_of_le positive (le other))
    fun _ never => never

theorem Reached.referred
    {heap : Heap Object}
    {held : Nat → Int}
    {source target : Nat}
    {object : Object}
    (reached : Reached heap held source)
    (found : heap.object? source = some object)
    (refers : target ∈ Referencing.references object) :
    Reached heap held target :=
  Pinned.referred source target object reached id found refers

/-- What is reached does not depend on what is in the objects besides the
references. -/
theorem Reached.of_references
    {heap later : Heap Object}
    {held : Nat → Int}
    (same : ∀ address object, heap.object? address = some object →
      ∃ other, later.object? address = some other ∧
        Referencing.references other = Referencing.references object)
    {address : Nat}
    (reached : Reached heap held address) : Reached later held address := by
  induction reached with
  | owned address positive => exact .owned address positive
  | referred source target object _ _ found refers inductionHypothesis =>
      obtain ⟨other, isOther, references⟩ := same source object found
      exact inductionHypothesis.referred isOther (references ▸ refers)

theorem Reached.of_own {heap : Heap Object} (address : Nat) : Reached heap
    (own address) address :=
  .owned address (by rw [own_self]; decide)

/-- An object with one reference, which is not from the heap. -/
theorem unreferenced_of_count_one
    {heap : Heap Object}
    {address : Nat}
    (isOne : heap.count address = 1)
    (owned : 1 ≤ heap.excess address)
    {source : Nat}
    {object : Object}
    (found : heap.object? source = some object) :
    address ∉ Referencing.references object := by
  intro refers
  obtain ⟨cell, isCell, rfl⟩ := Option.map_eq_some_iff.mp found
  have refersFrom : address ∈ heap.referencesAt source := by
    rw [Heap.referencesAt, isCell]
    exact refers
  have := Heap.incoming_pos refersFrom
  rw [Heap.excess, isOne] at owned
  omega

/-- Where nothing on the heap refers to an object, all of its count is owned. -/
theorem count_eq_of_unreferenced
    {heap : Heap Object}
    {address : Nat}
    (unreferenced : ∀ source object, heap.object? source = some object →
      address ∉ Referencing.references object) :
    (heap.count address : Int) = heap.excess address := by
  have none : heap.incoming address = 0 := by
    by_contra some
    obtain ⟨source, object, found, refers⟩ :=
      Heap.exists_refers_of_incoming (Nat.pos_of_ne_zero some)
    exact unreferenced source object found refers
  rw [Heap.excess, none]
  omega

/-- Nobody else reaches an object with one reference. -/
theorem not_reached_of_count_one
    {heap : Heap Object}
    {address : Nat}
    {rest more : Nat → Int}
    (isOne : heap.count address = 1)
    (nonneg : ∀ other, 0 ≤ rest other)
    (nonnegMore : ∀ other, 0 ≤ more other)
    (backed : Backed heap (own address + more + rest)) :
    ¬ Reached heap rest address := by
  have owned := backed.le_excess address
  have := nonneg address
  have := nonnegMore address
  rw [Pi.add_apply, Pi.add_apply, own_self] at owned
  intro reached
  cases reached with
  | owned address positive =>
      rw [Heap.excess, isOne] at owned
      omega
  | referred source target object _ _ found refers =>
      exact unreferenced_of_count_one isOne (by omega) found refers

/-- Some references are taken and others given.  What is reached from the
references of others stays as it is, and who has the only reference to an object
still has it. -/
structure Trade (heap after : Heap Object) (taken given : Nat → Int) :
    Prop where
  excess : ∀ address,
    after.excess address = heap.excess address + (given address - taken address)
  frame : ∀ rest : Nat → Int, (∀ address, 0 ≤ rest address) →
    Backed heap (taken + rest) →
    ∀ address, Reached heap rest address →
      after.object? address = heap.object? address
  sole : ∀ address, taken address < heap.excess address →
    heap.count address = 1 →
    after.count address = 1

namespace Trade

variable
  {heap middle after : Heap Object}
  {more taken given taken' given' rest : Nat → Int}

/-- Nothing happens to what is held. -/
theorem refl (heap : Heap Object) (held : Nat → Int) :
    Trade heap heap held held where
  excess := by simp
  frame _ _ _ _ _ := rfl
  sole _ _ isOne := isOne

theorem of_eq
    (trade : Trade heap after taken given)
    (sameTaken : taken = taken')
    (sameGiven : given = given') : Trade heap after taken' given' :=
  sameTaken ▸ sameGiven ▸ trade

/-- What is given is backed, and so is what was held besides. -/
theorem backed
    (trade : Trade heap after taken given)
    (before : Backed heap (taken + rest))
    (nonnegGiven : ∀ address, 0 ≤ given address)
    (nonnegRest : ∀ address, 0 ≤ rest address) :
    Backed after (given + rest) where
  nonneg := nonneg_add nonnegGiven nonnegRest
  le_excess := by
    intro address
    have owned := before.le_excess address
    rw [Pi.add_apply] at owned
    rw [trade.excess, Pi.add_apply]
    omega

theorem given_backed
    (trade : Trade heap after taken given)
    (before : Backed heap taken)
    (nonneg : ∀ address, 0 ≤ given address) : Backed after given := by
  rw [← add_zero taken] at before
  rw [← add_zero given]
  exact trade.backed before nonneg fun _ => le_rfl

/-- What others reach, they reach afterwards. -/
theorem reached
    (trade : Trade heap after taken given)
    (before : Backed heap (taken + rest))
    (nonnegRest : ∀ address, 0 ≤ rest address)
    {address : Nat}
    (reached : Reached heap rest address) : Reached after rest address :=
  reached.of_kept (trade.frame rest nonnegRest before)

theorem trans
    (first : Trade heap middle taken given)
    (second : Trade middle after given given')
    (nonnegGiven : ∀ address, 0 ≤ given address) :
    Trade heap after taken given' where
  excess := by
    intro address
    rw [second.excess, first.excess]
    omega
  frame := by
    intro rest nonnegRest before address isReached
    have between := first.backed before nonnegGiven nonnegRest
    have reachedBetween := first.reached before nonnegRest isReached
    rw [second.frame rest nonnegRest between address reachedBetween,
      first.frame rest nonnegRest before address isReached]
  sole := by
    intro address owned isOne
    apply second.sole address _ (first.sole address owned isOne)
    rw [first.excess]
    omega

/-- References that are held all the time. -/
theorem keep
    (trade : Trade heap after taken given)
    (nonneg : ∀ address, 0 ≤ more address) :
    Trade heap after (taken + more) (given + more) where
  excess := by
    intro address
    rw [trade.excess, Pi.add_apply, Pi.add_apply]
    omega
  frame := by
    intro rest nonnegRest before address isReached
    apply trade.frame (more + rest) (nonneg_add nonneg nonnegRest)
    · rwa [← add_assoc]
    · apply isReached.mono
      intro other
      have := nonneg other
      rw [Pi.add_apply]
      omega
  sole := by
    intro address owned isOne
    have := nonneg address
    rw [Pi.add_apply] at owned
    exact trade.sole address (by omega) isOne

/-- A part of what is held is traded. -/
theorem andThen
    (first : Trade heap middle taken (taken' + rest))
    (second : Trade middle after taken' given')
    (nonneg : ∀ address, 0 ≤ taken' address)
    (nonnegRest : ∀ address, 0 ≤ rest address) :
    Trade heap after taken (given' + rest) :=
  first.trans (second.keep nonnegRest) (nonneg_add nonneg nonnegRest)

end Trade

/-- The only reference to an object stays the only one while nothing comes to
refer to the object. -/
theorem count_one_of_unreferenced
    {heap after : Heap Object}
    {address : Nat}
    (isOne : heap.count address = 1)
    (owned : 1 ≤ heap.excess address)
    (same : after.excess address = heap.excess address)
    (unreferenced : ∀ source object, after.object? source = some object →
      address ∉ Referencing.references object) : after.count address = 1 := by
  have count := count_eq_of_unreferenced unreferenced
  have atMost : heap.excess address ≤ 1 := by
    rw [Heap.excess, isOne]
    omega
  omega

theorem own_of_ne {address other : Nat} (distinct : other ≠ address) :
    own address other = 0 :=
  if_neg distinct

namespace Program

variable {heap : Heap Object} {address : Nat}

/-- Retaining something that is not held by one reference alone. -/
theorem Runs.retain_held
    {held : Nat → Int}
    (backed : Backed heap held)
    (present : ∃ object, heap.object? address = some object)
    (shared : held address < heap.excess address → heap.count address ≠ 1)
    {post : Unit → Heap Object → Prop}
    (holds : ∀ after, after.object? = heap.object? →
      Trade heap after held (held + own address) → post () after) :
    Runs (Program.retain address) heap post := by
  obtain ⟨object, found⟩ := present
  apply Runs.retain (Effect.refl heap) found
  intro after same effect
  have excess (other : Nat) : after.excess other = heap.excess other +
      own address other := by
    rw [effect.excess, Pi.add_apply, Pi.zero_apply, zero_add]
  refine holds after same ⟨fun other => ?_, fun _ _ _ _ _ => by rw [same], ?_⟩
  · rw [excess, Pi.add_apply]
    omega
  intro other owned isOne
  have nonneg := backed.nonneg other
  have atLeast : 1 ≤ heap.excess other := by omega
  have distinct : other ≠ address := by
    rintro rfl
    exact shared owned isOne
  apply count_one_of_unreferenced isOne atLeast
  · rw [excess, own_of_ne distinct, add_zero]
  · intro source object isObject
    rw [same] at isObject
    exact unreferenced_of_count_one isOne atLeast isObject

/-- Another reference to what an object refers to. -/
theorem Runs.retain_trade
    (nonneg : ∀ other, 0 ≤ heap.excess other)
    {source : Nat}
    (refers : heap.Refers source address)
    {post : Unit → Heap Object → Prop}
    (holds : ∀ after, after.object? = heap.object? →
      Trade heap after 0 (own address) →
      post () after) :
    Runs (Program.retain address) heap post := by
  obtain ⟨object, found, refers⟩ := refers
  have nothing : Backed heap 0 := ⟨fun _ => le_rfl, nonneg⟩
  apply Runs.retain_held nothing (Heap.object_of_reference nonneg found refers)
  · intro owned isOne
    exact unreferenced_of_count_one isOne owned found refers
  · rwa [zero_add]

/-- Another reference to something that there is a reference to among what is
owned. -/
theorem Runs.retain_among
    {owned : Nat → Int}
    (backed : Backed heap owned)
    (isOwned : 1 ≤ owned address)
    {post : Unit → Heap Object → Prop}
    (holds : ∀ after, after.object? = heap.object? →
      Trade heap after owned (owned + own address) → post () after) :
    Runs (Program.retain address) heap post := by
  apply Runs.retain_held backed
    (backed.present (.owned address (by omega))) _ holds
  intro less isOne
  rw [Heap.excess, isOne] at less
  omega

/-- Another reference to what is owned. -/
theorem Runs.retain_own
    (backed : Backed heap (own address))
    {post : Unit → Heap Object → Prop}
    (holds : ∀ after, after.object? = heap.object? →
      Trade heap after (own address) (own address + own address) →
        post () after) :
    Runs (Program.retain address) heap post :=
  Runs.retain_among backed (by rw [own_self]) holds

theorem Runs.release_trade
    (backed : Backed heap (own address))
    {post : Unit → Heap Object → Prop}
    (holds : ∀ after,
      (∀ other object, after.object? other = some object →
        heap.object? other = some object) →
      Trade heap after (own address) 0 → post () after) :
    Runs (Program.release address) heap post := by
  apply Runs.release (Effect.refl heap)
  · intro other
    have := backed.le_excess other
    rw [Pi.zero_apply, add_zero]
    exact this
  intro after kept _ effect
  apply holds after kept
  have excess (other : Nat) :
      after.excess other = heap.excess other - own address other := by
    rw [effect.excess, Pi.sub_apply, Pi.zero_apply]
    omega
  refine ⟨fun other => ?_, ?_, ?_⟩
  · rw [excess, Pi.zero_apply]
    omega
  · intro rest nonneg before other reached
    have remains (other : Nat) : rest other ≤ after.excess other := by
      have owned := before.le_excess other
      rw [Pi.add_apply] at owned
      rw [excess]
      omega
    obtain ⟨object, found⟩ := before.present (reached.mono fun other => by
      have := own_nonneg address other
      rw [Pi.add_apply]
      omega)
    have stays : ∃ now, after.object? other = some now :=
      Pinned.present reached effect (fun _ never => never) nonneg remains
    obtain ⟨now, isNow⟩ := stays
    rw [isNow, kept other now isNow]
  · intro other owned isOne
    have nonneg := own_nonneg address other
    have atMost : heap.excess other ≤ 1 := by
      rw [Heap.excess, isOne]
      omega
    apply count_one_of_unreferenced isOne (by omega)
    · rw [excess]
      omega
    · intro source object isObject
      exact unreferenced_of_count_one isOne (by omega)
        (kept source object isObject)

theorem Runs.allocate_trade
    {object : Object}
    {post : Nat → Heap Object → Prop}
    (holds : ∀ after, after.object? heap.next = some object →
      (∀ other, other ≠ heap.next → after.object? other = heap.object? other) →
      Trade heap after (owns (Referencing.references object)) (own heap.next) →
      post heap.next after) :
    Runs (Program.allocate object) heap post := by
  apply Runs.with_result
  apply Runs.allocate (Effect.refl heap)
  intro after found others _ effect result
  refine holds after found others ⟨fun other => ?_, ?_, ?_⟩
  · rw [effect.excess, Pi.add_apply, Pi.zero_apply, Pi.sub_apply]
    omega
  · intro rest _ before other reached
    apply others
    rintro rfl
    have owned : Reached heap (owns (Referencing.references object) + rest)
        heap.next := by
      apply reached.mono
      intro other
      have := owns_nonneg (Referencing.references object) other
      rw [Pi.add_apply]
      omega
    obtain ⟨now, isNow⟩ := before.present owned
    exact Nat.lt_irrefl _ (Heap.lt_next_of_object isNow)
  · intro other owned isOne
    have nonneg := owns_nonneg (Referencing.references object) other
    have positive : 0 < heap.excess other := by omega
    obtain ⟨now, isNow⟩ := Heap.object_of_owned positive
    rw [count_of_allocate result (Heap.lt_next_of_object isNow), isOne]

/-- An object that the code alone refers to is written. -/
theorem Runs.store_trade
    {object old : Object}
    (found : heap.object? address = some old)
    (isOne : heap.count address = 1)
    {post : Unit → Heap Object → Prop}
    (holds : ∀ after, after.object? address = some object →
      (∀ other, other ≠ address → after.object? other = heap.object? other) →
      after.count = heap.count →
      (∀ more : Nat → Int, (∀ other, 0 ≤ more other) →
        Trade heap after (own address + more)
        (own address + more + owns (Referencing.references old) -
          owns (Referencing.references object))) → post () after) :
    Runs (Program.store address object) heap post := by
  apply Runs.with_result
  apply Runs.store (Effect.refl heap) found
  intro after stored others effect result
  have count : after.count = heap.count := funext fun other =>
    count_of_store result other
  refine holds after stored others count ?_
  intro more nonnegMore
  refine ⟨fun other => ?_, ?_, ?_⟩
  · simp only [effect.excess, Pi.add_apply, Pi.sub_apply, Pi.zero_apply]
    omega
  · intro rest nonneg backed other reached
    apply others
    rintro rfl
    exact not_reached_of_count_one isOne nonneg nonnegMore backed reached
  · intro other _ isOne
    rw [count, isOne]

end Program

end RefCount
end ClojureRt
