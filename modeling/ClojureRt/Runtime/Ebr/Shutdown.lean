import ClojureRt.Lib.RefCount
import Mathlib.Algebra.Order.BigOperators.Group.Finset

/-!
# Shutting reclamation down

`Ebr_shutdown` releases what is pending when no other thread is left.  A release
can free an object, and freeing it releases what the object refers to, or
retires it again.  The shutdown looks at the list of pending values once, so a
value that is retired while the list is drained stays on the new list.
-/

namespace ClojureRt
namespace Runtime
namespace Ebr
namespace Shutdown

open RefCount

/-- Words that are no pointers are not counted. -/
inductive RTValue
  | word (bits : BitVec 64)
  | pointer (address : Nat)
  deriving DecidableEq

/-- The address in a value, where it is a pointer. -/
def RTValue.addresses : RTValue → List Nat
  | .word _ => []
  | .pointer address => [address]

/-! ## Destroying objects -/

/-- The objects whose destructors retire something, and those whose destructors
release what they refer to. -/
inductive Object
  | varType (root sym metadata : RTValue)
  | namespaceType (name mappings aliases : RTValue)
  | concurrentHashMapType (root : RTValue)
  | concurrentHashMapNodeType (entries : List (RTValue × RTValue))
  | otherType (children : List RTValue)

/-- What a destructor does. -/
inductive Step
  | release (value : RTValue)
  | autorelease (value : RTValue)

/-- `Object_destroy`.  Where the source asks whether a root is null or metadata
is nil, the value is no pointer, and retiring it does nothing. -/
def Object.destroy : Object → List Step
  | .varType root sym metadata =>
      [.autorelease root, .release sym, .autorelease metadata]
  | .namespaceType name mappings aliases =>
      [.release name, .autorelease mappings, .autorelease aliases]
  | .concurrentHashMapType root => [.release root]
  | .concurrentHashMapNodeType entries =>
      entries.flatMap fun entry => [.autorelease entry.1, .autorelease entry.2]
  | .otherType children => children.map .release

/-- The address that a step of a destructor gives up. -/
def Step.address : Step → List Nat
  | .release value => value.addresses
  | .autorelease value => value.addresses

/-- The address that a step retires. -/
def Step.retires : Step → List Nat
  | .release _ => []
  | .autorelease value => value.addresses

/-- What some steps release or retire. -/
def addressesOf (steps : List Step) : List Nat :=
  steps.flatMap Step.address

/-- What some steps retire. -/
def retiresOf (steps : List Step) : List Nat :=
  steps.flatMap Step.retires

instance : Referencing Object where
  references object := addressesOf object.destroy

/-- A heap whose objects have a destructor. -/
abbrev ValueHeap := Heap Object

/-! ## States -/

/-- The heap and the shared variables.  The retired objects are given by their
values, the last one first; when they were retired does not matter here.  The
state of the thread that runs is its `pending_count`. -/
structure State where
  heap : ValueHeap
  pendingReclamation : List Nat
  reclaimerRunning : Bool
  registryHead : List Nat
  threadState : Option Nat
  -- ghost
  /-- The pointers that were retired and not reclaimed before the shutdown. -/
  retired : List Nat
  /-- The values that were released since, as they were taken off the list. -/
  released : List Nat

/-- `autorelease`.  It counts in the state of the thread, which has to be
registered. -/
def autorelease (state : State) : RTValue → Option State
  | .word _ => some state
  | .pointer address =>
      state.threadState.map fun pendingCount =>
        { state with
          pendingReclamation := address :: state.pendingReclamation
          threadState := some (pendingCount + 1)
          retired := address :: state.retired }

/-- Does the steps, and those of the destructors that they come to. -/
def run : Nat → List Step → State → Option State
  | _, [], state => some state
  | 0, _ :: _, _ => none
  | fuel + 1, .autorelease value :: rest, state => do
      let after ← autorelease state value
      run fuel rest after
  | fuel + 1, .release (.word _) :: rest, state => run fuel rest state
  | fuel + 1, .release (.pointer address) :: rest, state =>
      match state.heap.cells address with
      | none => none
      | some ⟨0, _⟩ => none
      | some ⟨1, object⟩ =>
          run fuel (object.destroy ++ rest)
            { state with heap := state.heap.set address none }
      | some ⟨count + 2, object⟩ =>
          run fuel rest
            { state with
              heap := state.heap.set address (some ⟨count + 1, object⟩) }

/-- How many steps the destructors on a heap have. -/
def destructorSteps (heap : ValueHeap) : Nat :=
  ∑ address ∈ Finset.range heap.next,
    ((heap.object? address).elim 0 fun object => object.destroy.length)

/-- `release` in a state. -/
def release (state : State) (value : RTValue) : Option State :=
  run (1 + destructorSteps state.heap) [.release value] state

/-- The loop of `Ebr_shutdown` over the list that it has taken. -/
def drain : List Nat → State → Option State
  | [], state => some state
  | value :: garbage, state => do
      let after ← release state (.pointer value)
      drain garbage { after with released := value :: after.released }

/-- `Ebr_shutdown` -/
def shutdown (state : State) : Option State := do
  let drained ← drain state.pendingReclamation
    { state with reclaimerRunning := false, pendingReclamation := [] }
  return { drained with registryHead := [], threadState := none }

/-- A state before the shutdown: the list owns its references. -/
structure Ready extends State where
  owned : ∀ address, owns pendingReclamation address ≤ heap.excess address
  positive : heap.Positive
  retired_eq : retired = pendingReclamation
  released_eq : released = []

/-- Every retired value was released once, and nothing is pending. -/
def Settled (state : State) : Prop :=
  (∀ value, state.released.count value = state.retired.count value) ∧
    state.pendingReclamation = []

/-- There are objects, none of which retires anything, that contain every object
whose references are all from them or from the list. -/
def NoneRetires (start : Ready) : Prop :=
  ∃ freed : Finset Nat,
    (∀ address ∈ freed, ∀ object, start.heap.object? address = some object →
      retiresOf object.destroy = []) ∧
    ∀ address object, start.heap.object? address = some object →
      start.heap.count address ≤ start.pendingReclamation.count address +
        ∑ source ∈ freed, (start.heap.referencesAt source).count address →
      address ∈ freed

/-! ## Steps and heaps -/

@[simp]
theorem addressesOf_append (first second : List Step) :
    addressesOf (first ++ second) = addressesOf first ++
      addressesOf second := by
  simp [addressesOf]

@[simp]
theorem retiresOf_append (first second : List Step) :
    retiresOf (first ++ second) = retiresOf first ++ retiresOf second := by
  simp [retiresOf]

theorem referencesAt_of_object
    {heap : ValueHeap}
    {address : Nat}
    {object : Object}
    (found : heap.object? address = some object) :
    heap.referencesAt address = addressesOf object.destroy := by
  obtain ⟨cell, isCell, rfl⟩ := Option.map_eq_some_iff.mp found
  rw [Heap.referencesAt, isCell]
  rfl

theorem referencesAt_of_none
    {heap : ValueHeap}
    {address : Nat}
    (notFound : heap.object? address = none) :
    heap.referencesAt address = [] := by
  rw [Heap.object?, Option.map_eq_none_iff] at notFound
  rw [Heap.referencesAt, notFound]
  rfl

theorem referencesAt_congr
    {first second : ValueHeap}
    {address : Nat}
    (same : first.object? address = second.object? address) :
    first.referencesAt address = second.referencesAt address := by
  cases found : second.object? address with
  | none =>
      rw [referencesAt_of_none found, referencesAt_of_none (same.trans found)]
  | some object =>
      rw [referencesAt_of_object found,
        referencesAt_of_object (same.trans found)]

theorem destructorSteps_set
    {heap : ValueHeap}
    {address : Nat}
    {cell : Cell Object}
    (found : heap.cells address = some cell)
    (later : Option (Cell Object)) :
    destructorSteps (heap.set address later) + cell.object.destroy.length =
      destructorSteps heap +
        (later.elim 0 fun stored => stored.object.destroy.length) := by
  have below := Heap.lt_next_of_cells found
  have member : address ∈ Finset.range heap.next := Finset.mem_range.mpr below
  have others : ∑ other ∈ (Finset.range heap.next).erase address,
      (((heap.set address later).object? other).elim 0 fun object =>
        object.destroy.length) =
        ∑ other ∈ (Finset.range heap.next).erase address,
          ((heap.object? other).elim 0 fun object =>
            object.destroy.length) := by
    apply Finset.sum_congr rfl
    intro other isOther
    rw [Heap.object?,
      Heap.set_cells_of_ne heap later (Finset.ne_of_mem_erase isOther),
      ← Heap.object?]
  unfold destructorSteps
  rw [Heap.set_next_of_lt heap later below, ← Finset.add_sum_erase _ _ member,
    ← Finset.add_sum_erase _ (fun other => (heap.object? other).elim 0 _)
      member, others]
  simp only [Heap.object?, Heap.set_cells_self, found, Option.map_some,
    Option.elim_some]
  cases later <;> simp <;> omega

/-! ## A shutdown during which nothing is retired -/

/-- The state of a heap while a list is drained, if only some objects are freed:
what is still to be released is owned. -/
structure Draining
    (base : ValueHeap)
    (freed : Finset Nat)
    (pending : List Nat)
    (heap : ValueHeap)
    (remaining : List Nat) : Prop where
  kept : ∀ address,
    address ∉ freed → heap.object? address = base.object? address
  before : ∀ address object, heap.object? address = some object →
    base.object? address = some object
  excess : ∀ address,
    heap.excess address = base.excess address - owns pending address +
      owns remaining address

/-- The objects to which all references are from some objects and a list. -/
def Closed (base : ValueHeap) (freed : Finset Nat)
    (pending : List Nat) : Prop :=
  ∀ address object, base.object? address = some object →
    base.count address ≤ pending.count address +
      ∑ source ∈ freed, (base.referencesAt source).count address →
    address ∈ freed

section Settling

variable {base heap : ValueHeap} {freed : Finset Nat} {pending : List Nat}

theorem incoming_le
    (kept : ∀ address,
      address ∉ freed → heap.object? address = base.object? address)
    (target : Nat) :
    base.incoming target ≤ heap.incoming target +
      ∑ source ∈ freed, (base.referencesAt source).count target := by
  have bound := le_max_left base.next heap.next
  rw [base.incoming_eq_sum_of_le target bound,
    heap.incoming_eq_sum_of_le target (le_max_right base.next heap.next),
    ← Finset.sum_filter_add_sum_filter_not
      (Finset.range (max base.next heap.next)) (· ∈ freed)]
  have inside : ∑ source ∈ (Finset.range (max base.next heap.next)).filter
      (· ∈ freed),
      (base.referencesAt source).count target ≤
        ∑ source ∈ freed, (base.referencesAt source).count target := by
    apply Finset.sum_le_sum_of_subset
    intro source isIn
    exact (Finset.mem_filter.mp isIn).2
  have outside : ∑ source ∈ (Finset.range (max base.next heap.next)).filter
      (· ∉ freed),
      (base.referencesAt source).count target ≤
        ∑ source ∈ Finset.range (max base.next heap.next),
          (heap.referencesAt source).count target := by
    calc
      _ = ∑ source ∈ (Finset.range (max base.next heap.next)).filter
            (· ∉ freed),
            (heap.referencesAt source).count target := by
          apply Finset.sum_congr rfl
          intro source isOut
          rw [referencesAt_congr (kept source (Finset.mem_filter.mp isOut).2)]
      _ ≤ _ := Finset.sum_le_sum_of_subset (Finset.filter_subset _ _)
  omega

/-- Only objects that have lost all their references are freed. -/
theorem Draining.mem_freed
    {address : Nat}
    {object : Object}
    {remaining : List Nat}
    (draining : Draining base freed pending heap (address :: remaining))
    (closed : Closed base freed pending)
    (found : heap.cells address = some ⟨1, object⟩) : address ∈ freed := by
  have isObject : heap.object? address = some object := by
    simp [Heap.object?, found]
  apply closed address object (draining.before address object isObject)
  have excess := draining.excess address
  have incoming := incoming_le draining.kept address
  have owned := owns_nonneg remaining address
  rw [owns_cons, Pi.add_apply] at excess
  simp only [Heap.excess, own, if_pos, owns] at excess owned
  have single : heap.count address = 1 := by
    rw [Heap.count, found, Cell.countOf]
  omega

theorem Draining.free
    {address : Nat}
    {object : Object}
    {remaining : List Nat}
    (draining : Draining base freed pending heap (address :: remaining))
    (closed : Closed base freed pending)
    (found : heap.cells address = some ⟨1, object⟩) :
    Draining base freed pending (heap.set address none)
      (addressesOf object.destroy ++ remaining) where
  kept other notFreed := by
    have distinct : other ≠ address := by
      rintro rfl
      exact notFreed (draining.mem_freed closed found)
    rw [← draining.kept other notFreed, Heap.object?,
      heap.set_cells_of_ne none distinct, ← Heap.object?]
  before other stored isStored := by
    apply draining.before other stored
    by_cases same : other = address
    · subst same
      simp [Heap.object?] at isStored
    · rwa [Heap.object?, heap.set_cells_of_ne none same,
        ← Heap.object?] at isStored
  excess other := by
    rw [(Program.effect_set_none found).excess other, draining.excess other,
      owns_cons, owns_append]
    simp only [Pi.add_apply, Pi.sub_apply]
    change _ + (owns (addressesOf object.destroy) other - own address other) = _
    ring

theorem Draining.lower
    {address count : Nat}
    {object : Object}
    {remaining : List Nat}
    (draining : Draining base freed pending heap (address :: remaining))
    (found : heap.cells address = some ⟨count + 2, object⟩) :
    Draining base freed pending (heap.set address (some ⟨count + 1, object⟩))
      remaining := by
  have sameObjects (other : Nat) :
      (heap.set address (some ⟨count + 1, object⟩)).object? other =
      heap.object? other := by
    by_cases same : other = address
    · subst same
      simp [Heap.object?, found]
    · rw [Heap.object?, heap.set_cells_of_ne _ same, ← Heap.object?]
  constructor
  · intro other notFreed
    rw [sameObjects other, draining.kept other notFreed]
  · intro other stored isStored
    rw [sameObjects other] at isStored
    exact draining.before other stored isStored
  · intro other
    rw [(Program.effect_set_count found (count + 1)).excess other,
      draining.excess other, owns_cons, Pi.add_apply]
    push_cast
    ring

theorem run_of_draining
    (owned : ∀ address, owns pending address ≤ base.excess address)
    (noneRetires : ∀ address ∈ freed, ∀ object,
      base.object? address = some object →
      retiresOf object.destroy = [])
    (closed : Closed base freed pending)
    (fuel : Nat)
    (steps : List Step)
    {remaining : List Nat}
    {state : State}
    (draining : Draining base freed pending state.heap
      (addressesOf steps ++ remaining))
    (noRetires : retiresOf steps = [])
    (enough : steps.length + destructorSteps state.heap ≤ fuel) :
    ∃ heap, run fuel steps state = some { state with heap } ∧
      Draining base freed pending heap remaining := by
  induction fuel generalizing steps state with
  | zero =>
      cases steps with
      | nil => exact ⟨state.heap, rfl, draining⟩
      | cons step steps => simp at enough
  | succ fuel inductionHypothesis =>
      cases steps with
      | nil => exact ⟨state.heap, rfl, draining⟩
      | cons step steps =>
          rw [List.length_cons] at enough
          cases step with
          | autorelease value =>
              cases value with
              | pointer address =>
                  simp [retiresOf, Step.retires, RTValue.addresses] at noRetires
              | word bits =>
                  exact inductionHypothesis steps draining noRetires (by omega)
          | release value =>
              cases value with
              | word bits =>
                  exact inductionHypothesis steps draining noRetires (by omega)
              | pointer address =>
                  have released : Draining base freed pending state.heap
                      (address :: (addressesOf steps ++ remaining)) := draining
                  have positive :
                      0 < (state.heap.incoming address : Int) +
                        state.heap.excess address := by
                    have := owned address
                    have := owns_nonneg (addressesOf steps ++ remaining) address
                    rw [released.excess address, owns_cons, Pi.add_apply, own,
                      if_pos rfl]
                    omega
                  obtain ⟨⟨count, object⟩, found, countPositive⟩ :=
                    Heap.cells_of_excess positive
                  have fewer := destructorSteps_set found
                  rcases count with _ | _ | count
                  · exact absurd countPositive (Nat.lt_irrefl 0)
                  · have isFreed := released.mem_freed closed found
                    have isObject :
                        state.heap.object? address = some object := by
                      simp [Heap.object?, found]
                    have silent := noneRetires address isFreed object
                      (released.before address object isObject)
                    have after := fewer none
                    obtain ⟨heap, result, done⟩ := @inductionHypothesis
                      (object.destroy ++ steps)
                      { state with heap := state.heap.set address none }
                      (by simpa using released.free closed found)
                      (by rw [retiresOf_append, silent]; exact noRetires)
                      (by
                        simp only [Option.elim_none] at after
                        rw [List.length_append]
                        change _ + destructorSteps
                          (state.heap.set address none) ≤ fuel
                        omega)
                    exact ⟨heap, by rw [run, found]; exact result, done⟩
                  · have after := fewer (some ⟨count + 1, object⟩)
                    obtain ⟨heap, result, done⟩ := @inductionHypothesis steps
                      { state with
                        heap := state.heap.set address
                          (some ⟨count + 1, object⟩) }
                      (released.lower found) noRetires
                      (by
                        simp only [Option.elim_some] at after
                        change _ + destructorSteps
                          (state.heap.set address (some ⟨count + 1, object⟩)) ≤
                          fuel
                        omega)
                    exact ⟨heap, by rw [run, found]; exact result, done⟩

theorem drain_of_draining
    (state : State)
    (owned : ∀ address, owns pending address ≤ base.excess address)
    (noneRetires : ∀ address ∈ freed, ∀ object,
      base.object? address = some object →
      retiresOf object.destroy = [])
    (closed : Closed base freed pending)
    {garbage : List Nat}
    (draining : Draining base freed pending state.heap garbage) :
    ∃ heap, drain garbage state =
      some { state with heap, released := garbage.reverse ++ state.released } := by
  induction garbage generalizing state with
  | nil => exact ⟨state.heap, rfl⟩
  | cons value garbage inductionHypothesis =>
      obtain ⟨heap, result, later⟩ := run_of_draining owned noneRetires closed
        (1 + destructorSteps state.heap) [.release (.pointer value)] draining
        rfl (by simp)
      obtain ⟨final, isFinal⟩ := inductionHypothesis
        { state with heap, released := value :: state.released } later
      refine ⟨final, ?_⟩
      rw [drain, release, result]
      change drain garbage
        { state with heap, released := value :: state.released } = _
      rw [isFinal]
      simp

end Settling

/-! ## What a shutdown leaves pending -/

/-- What some steps have done, with the pointers that were retired by them and
by the destructors that they came to. -/
structure Done (state after : State) (steps : List Step) (retired : List Nat) :
    Prop where
  pendingReclamation : after.pendingReclamation = retired ++
    state.pendingReclamation
  retired_eq : after.retired = retired ++ state.retired
  released_eq : after.released = state.released
  byStep : ∀ address ∈ retiresOf steps, address ∈ retired
  byDestructor : ∀ address object, state.heap.object? address = some object →
    after.heap.object? address = none → ∀ other ∈ retiresOf object.destroy,
      other ∈ retired
  before : ∀ address object, after.heap.object? address = some object →
    state.heap.object? address = some object
  effect : Effect state.heap after.heap
    (owns retired - owns (addressesOf steps)) fun _ => False
  positive : state.heap.Positive → after.heap.Positive

theorem Done.nil (state : State) : Done state state [] [] where
  pendingReclamation := rfl
  retired_eq := rfl
  released_eq := rfl
  byStep := by simp [retiresOf]
  byDestructor := by
    intro address object found notFound
    rw [found] at notFound
    cases notFound
  before := fun _ _ => id
  effect := by simpa [addressesOf] using Effect.refl state.heap
  positive := id

theorem Done.retire
    {state after : State}
    {address pendingCount : Nat}
    {steps : List Step}
    {retired : List Nat}
    (done : Done
      { state with
        pendingReclamation := address :: state.pendingReclamation
        threadState := some (pendingCount + 1)
        retired := address :: state.retired }
      after steps retired) :
    Done state after (.autorelease (.pointer address) :: steps)
      (retired ++ [address]) where
  pendingReclamation := by
    rw [done.pendingReclamation]
    simp
  retired_eq := by
    rw [done.retired_eq]
    simp
  released_eq := done.released_eq
  byStep := by
    intro other isIn
    rcases List.mem_cons.mp isIn with rfl | isLater
    · simp
    · exact List.mem_append_left _ (done.byStep other isLater)
  byDestructor := by
    intro freed object found notFound other isIn
    exact List.mem_append_left _
      (done.byDestructor freed object found notFound other isIn)
  before := done.before
  effect := by
    apply done.effect.weaken _ fun _ _ => id
    rw [show addressesOf (.autorelease (.pointer address) :: steps) =
      address :: addressesOf steps from rfl, owns_append, owns_cons, owns_cons,
      owns_nil]
    funext other
    simp only [Pi.add_apply, Pi.sub_apply, Pi.zero_apply]
    ring
  positive := done.positive

theorem Done.free
    {state after : State}
    {address : Nat}
    {object : Object}
    (found : state.heap.cells address = some ⟨1, object⟩)
    {steps : List Step}
    {retired : List Nat}
    (done : Done { state with heap := state.heap.set address none } after
      (object.destroy ++ steps) retired) :
    Done state after (.release (.pointer address) :: steps) retired where
  pendingReclamation := done.pendingReclamation
  retired_eq := done.retired_eq
  released_eq := done.released_eq
  byStep := by
    intro other isIn
    apply done.byStep other
    rw [retiresOf_append]
    exact List.mem_append_right _ isIn
  byDestructor := by
    intro freed stored isStored notFound other isIn
    by_cases same : freed = address
    · subst same
      have isObject : state.heap.object? freed = some object := by
        simp [Heap.object?, found]
      rw [isObject, Option.some.injEq] at isStored
      apply done.byStep other
      rw [retiresOf_append, isStored]
      exact List.mem_append_left _ isIn
    · apply done.byDestructor freed stored _ notFound other isIn
      change (state.heap.set address none).object? freed = _
      rwa [Heap.object?, state.heap.set_cells_of_ne none same, ← Heap.object?]
  before := by
    intro other stored isStored
    have isSet : (state.heap.set address none).object? other = some stored :=
      done.before other stored isStored
    by_cases same : other = address
    · subst same
      simp [Heap.object?] at isSet
    · rwa [Heap.object?, state.heap.set_cells_of_ne none same,
        ← Heap.object?] at isSet
  effect := by
    have freed := Program.effect_set_none found
    apply (freed.trans done.effect).weaken
    · rw [addressesOf_append, owns_append,
        show addressesOf (.release (.pointer address) :: steps) =
        address :: addressesOf steps from rfl, owns_cons]
      funext other
      simp only [Pi.add_apply, Pi.sub_apply]
      change owns (addressesOf object.destroy) other - own address other + _ = _
      ring
    · exact fun _ _ either => either.elim id id
  positive := by
    intro positive
    apply done.positive
    apply positive.set
    intro stored isStored
    cases isStored

theorem Done.lower
    {state after : State}
    {address count : Nat}
    {object : Object}
    (found : state.heap.cells address = some ⟨count + 2, object⟩)
    {steps : List Step}
    {retired : List Nat}
    (done : Done
      { state with heap := state.heap.set address (some ⟨count + 1, object⟩) }
        after steps
      retired) :
    Done state after (.release (.pointer address) :: steps) retired := by
  have sameObjects (other : Nat) :
      (state.heap.set address (some ⟨count + 1, object⟩)).object? other =
        state.heap.object? other := by
    by_cases same : other = address
    · subst same
      simp [Heap.object?, found]
    · rw [Heap.object?, state.heap.set_cells_of_ne _ same, ← Heap.object?]
  refine ⟨done.pendingReclamation, done.retired_eq, done.released_eq,
    done.byStep, ?_, ?_, ?_, ?_⟩
  · intro freed stored isStored
    exact done.byDestructor freed stored ((sameObjects freed).trans isStored)
  · intro other stored isStored
    exact (sameObjects other).symm.trans (done.before other stored isStored)
  · have lowered := Program.effect_set_count found (count + 1)
    apply (lowered.trans done.effect).weaken
    · rw [show addressesOf (.release (.pointer address) :: steps) =
        address :: addressesOf steps from rfl, owns_cons]
      funext other
      simp only [Pi.add_apply, Pi.sub_apply]
      push_cast
      ring
    · exact fun _ _ either => either.elim id id
  · intro positive
    apply done.positive
    apply positive.set
    intro stored isStored
    cases isStored
    exact Nat.succ_pos count

theorem run_done
    {fuel : Nat}
    {steps : List Step}
    {state after : State}
    (result : run fuel steps state = some after) :
    ∃ retired, Done state after steps retired := by
  induction fuel generalizing steps state with
  | zero =>
      cases steps with
      | nil =>
          cases result
          exact ⟨[], .nil _⟩
      | cons step steps => cases result
  | succ fuel inductionHypothesis =>
      cases steps with
      | nil =>
          cases result
          exact ⟨[], .nil _⟩
      | cons step steps =>
          cases step with
          | autorelease value =>
              obtain ⟨middle, isMiddle, later⟩ :=
                Option.bind_eq_some_iff.mp result
              obtain ⟨retired, done⟩ := inductionHypothesis later
              cases value with
              | word bits =>
                  cases isMiddle
                  exact ⟨retired, { done with }⟩
              | pointer address =>
                  obtain ⟨pendingCount, _, rfl⟩ :=
                    Option.map_eq_some_iff.mp isMiddle
                  exact ⟨retired ++ [address], done.retire⟩
          | release value =>
              cases value with
              | word bits =>
                  obtain ⟨retired, done⟩ := inductionHypothesis result
                  exact ⟨retired, { done with }⟩
              | pointer address =>
                  rw [run] at result
                  split at result
                  · cases result
                  · cases result
                  · next object found =>
                      obtain ⟨retired, done⟩ := inductionHypothesis result
                      exact ⟨retired, done.free found⟩
                  · next count object found =>
                      obtain ⟨retired, done⟩ := inductionHypothesis result
                      exact ⟨retired, done.lower found⟩

/-- What draining a list has done. -/
structure Drained (state after : State) (garbage retired : List Nat) :
    Prop where
  pendingReclamation : after.pendingReclamation = retired ++
    state.pendingReclamation
  byDestructor : ∀ address object, state.heap.object? address = some object →
    after.heap.object? address = none → ∀ other ∈ retiresOf object.destroy,
      other ∈ retired
  before : ∀ address object, after.heap.object? address = some object →
    state.heap.object? address = some object
  effect : Effect state.heap after.heap (owns retired - owns garbage)
    fun _ => False
  positive : state.heap.Positive → after.heap.Positive

theorem drain_drained
    {garbage : List Nat}
    {state after : State}
    (result : drain garbage state = some after) :
    ∃ retired, Drained state after garbage retired := by
  induction garbage generalizing state with
  | nil =>
      cases result
      have done := Done.nil after
      exact ⟨[], rfl, done.byDestructor, done.before, done.effect, id⟩
  | cons value garbage inductionHypothesis =>
      obtain ⟨middle, isMiddle, later⟩ := Option.bind_eq_some_iff.mp result
      obtain ⟨retired, done⟩ := run_done isMiddle
      obtain ⟨retiredLater, drained⟩ := inductionHypothesis later
      refine ⟨retiredLater ++ retired, ?_, ?_, ?_, ?_, ?_⟩
      · rw [drained.pendingReclamation, List.append_assoc]
        exact congrArg _ done.pendingReclamation
      · intro address object found notFound other isIn
        rw [List.mem_append]
        cases isThere : middle.heap.object? address with
        | none =>
            exact Or.inr
              (done.byDestructor address object found isThere other isIn)
        | some stored =>
            have same := done.before address stored isThere
            rw [found, Option.some.injEq] at same
            subst same
            exact Or.inl
              (drained.byDestructor address object isThere notFound other isIn)
      · intro address object found
        exact done.before address object (drained.before address object found)
      · apply (done.effect.trans drained.effect).weaken
        · rw [owns_append, owns_cons,
            show addressesOf [.release (.pointer value)] = [value] from rfl,
            owns_cons, owns_nil]
          funext other
          simp only [Pi.add_apply, Pi.sub_apply, Pi.zero_apply]
          ring
        · exact fun _ _ either => either.elim id id
      · exact fun positive => drained.positive (done.positive positive)

/-- The references that were lost are those from the objects that were freed. -/
theorem incoming_add_le
    (heap after : ValueHeap)
    (freed : Finset Nat)
    (below : ∀ address ∈ freed, address < heap.next)
    (isFreed : ∀ address ∈ freed, after.object? address = none)
    (before : ∀ address object, after.object? address = some object →
      heap.object? address = some object)
    (target : Nat) :
    after.incoming target + ∑ source ∈ freed,
    (heap.referencesAt source).count target ≤
      heap.incoming target := by
  have fewer (source : Nat) :
      (after.referencesAt source).count target ≤
      (heap.referencesAt source).count target := by
    cases found : after.object? source with
    | none => simp [referencesAt_of_none found]
    | some object =>
        rw [referencesAt_of_object found,
          referencesAt_of_object (before source object found)]
  have bound := le_max_left heap.next after.next
  rw [heap.incoming_eq_sum_of_le target bound,
    after.incoming_eq_sum_of_le target (le_max_right heap.next after.next)]
  have isSubset : freed ⊆ Finset.range (max heap.next after.next) := by
    intro address isIn
    exact Finset.mem_range.mpr ((below address isIn).trans_le bound)
  rw [← Finset.sum_sdiff isSubset, ← Finset.sum_sdiff isSubset]
  have noneLeft : ∑ source ∈ freed,
      (after.referencesAt source).count target = 0 := by
    apply Finset.sum_eq_zero
    intro source isIn
    simp [referencesAt_of_none (isFreed source isIn)]
  have others := Finset.sum_le_sum
    (s := Finset.range (max heap.next after.next) \ freed) fun source _ =>
      fewer source
  omega

/-! ## The shutdown -/

/-- A Var with a root that nobody else refers to is retired, and then the
runtime is shut down. -/
def retiredVar : Ready where
  heap :=
    (Heap.empty.set 0 (some ⟨1, .varType (.pointer 1) (.word 0) (.word 0)⟩)).set
    1
      (some ⟨1, .otherType []⟩)
  pendingReclamation := [0]
  reclaimerRunning := true
  registryHead := [0]
  threadState := some 1
  retired := [0]
  released := []
  owned := by
    intro address
    rw [Heap.excess_set, Heap.excess_set]
    match address with
    | 0 => decide
    | 1 => decide
    | address + 2 =>
        simp [owns, Heap.excess, Heap.count, Heap.incoming, Heap.referencesAt,
          Heap.empty, Cell.countOf, Cell.referencesOf, Referencing.references,
          addressesOf, Object.destroy, Step.address, RTValue.addresses,
          Heap.set]
  positive := by
    apply Heap.Positive.set
    · apply Heap.Positive.set
      · intro address cell found
        cases found
      · intro stored isStored
        cases isStored
        decide
    · intro stored isStored
      cases isStored
      decide
  retired_eq := rfl
  released_eq := rfl

end Shutdown
end Ebr
end Runtime
end ClojureRt
