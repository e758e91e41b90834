import ClojureRt.Runtime.PersistentArrayMap.Updates

/-!
# The counts of array maps

Every operation takes references from its caller and gives others back, so the
count of an object is that of the references to it: those of the heap, those of
the caller, and that of the runtime to the empty map.  It goes wrong in two
places.  A copy does not retain the value of the key 0.0, and
`PersistentArrayMap_withMeta` keeps the reference to the map that it copied.

Comparisons of keys are given by a function of the objects on the heap.
-/

namespace ClojureRt
namespace Runtime
namespace PersistentArrayMap

open RefCount RefCount.Program

/-! ## Metadata -/

/-- `PersistentArrayMap_withMeta` -/
def withMeta (self : Address) (metadata : RTValue) : Code Address := do
  let reusable ← isReusable self
  let map ← loadMap self
  if reusable then do
    store self (.map { map with metadata })
    releaseValue map.metadata
    pure self
  else do
    let new ← copy map map.entries
    retainChildren map.entries 0 none
    let copied ← loadMap new
    store new (.map { copied with metadata })
    releaseValue copied.metadata
    pure new

/-- `PersistentArrayMap_getMeta` -/
def getMeta (self : Address) : Code RTValue := do
  let map ← loadMap self
  retainValue map.metadata
  release self
  pure map.metadata

/-! ## Calls -/

/-- How keys are compared. -/
abbrev Comparison := (Address → Option Object) → RTValue → RTValue → Bool

/-- The comparison as the operations take it. -/
def Comparison.on (compare : Comparison) (heap : MapHeap) : RTValue →
    RTValue → Bool :=
  compare heap.object?

theorem Comparison.countBlind (compare : Comparison) :
    CountBlind compare.on := by
  intro before after same
  unfold Comparison.on
  rw [same]

/-- What a caller does with its references. -/
inductive Call
  | assoc (self : Address) (key value : RTValue)
  | dissoc (self : Address) (key : RTValue)
  | get (self : Address) (key : RTValue)
  | indexOf (self : Address) (key : RTValue)
  | withMeta (self : Address) (metadata : RTValue)
  | getMeta (self : Address)
  | retain (address : Address)
  | release (address : Address)
  deriving DecidableEq

namespace Call

/-- The references that the caller gives. -/
def consumed : Call → List Address
  | assoc self key value => self :: (addresses key ++ addresses value)
  | dissoc self key => self :: addresses key
  | get self key => self :: addresses key
  | indexOf self key => self :: addresses key
  | withMeta self metadata => self :: addresses metadata
  | getMeta self => [self]
  | retain address => [address]
  | release address => [address]

/-- The map that is operated on. -/
def map? : Call → Option Address
  | assoc self _ _ => some self
  | dissoc self _ => some self
  | get self _ => some self
  | indexOf self _ => some self
  | withMeta self _ => some self
  | getMeta self => some self
  | retain _ => none
  | release _ => none

/-- The code of a call. -/
def run (compare : Comparison) : Call → Code Outcome
  | assoc self key value => do
      let result ← PersistentArrayMap.assoc compare.on self key value
      pure (.ofResult result)
  | dissoc self key => do
      let address ← PersistentArrayMap.dissoc compare.on self key
      pure (.gives [address])
  | get self key => do
      let value ← PersistentArrayMap.get compare.on self key
      pure (.gives (addresses value))
  | indexOf self key => do
      let _ ← PersistentArrayMap.indexOf compare.on self key
      pure (.gives [])
  | withMeta self metadata => do
      let address ← PersistentArrayMap.withMeta self metadata
      pure (.gives [address])
  | getMeta self => do
      let value ← PersistentArrayMap.getMeta self
      pure (.gives (addresses value))
  | retain address => do
      Program.retain address
      pure (.gives [address, address])
  | release address => do
      Program.release address
      pure (.gives [])

end Call

/-- The heap, and the references that the caller holds. -/
structure Holdings where
  heap : MapHeap
  held : Multiset Address

namespace Holdings

/-- Every count is that of the references. -/
def Conserved (state : Holdings) : Prop :=
  ∀ address, (state.heap.count address : Int) =
    state.heap.incoming address + state.held.count address +
      own emptyArrayMap address

/-- The caller holds what it gives, and the map is one. -/
structure Owns (state : Holdings) (call : Call) : Prop where
  held : (call.consumed : Multiset Address) ≤ state.held
  map : ∀ self ∈ call.map?, ∃ map, state.heap.object? self = some (.map map)

/-- The state after a call.  There is none if it uses an object that has been
freed. -/
def perform
    (compare : Comparison)
    (state : Holdings)
    (call : Call) : Option (Outcome × Holdings) :=
  match call.run compare state.heap with
  | some (outcome, heap) =>
      some (outcome, ⟨heap, state.held - call.consumed + outcome.references⟩)
  | none => none

/-- A copy retains all that it shares, and metadata is attached in place. -/
def Accounts (compare : Comparison) (state : Holdings) : Call → Prop
  | .assoc self key _ =>
      ∀ map, state.heap.object? self = some (.map map) →
        state.heap.count self ≠ 1 →
        ¬ Full compare.on state.heap key map →
        ∀ j entry,
          AssocList.indexOf (compare.on state.heap) key map.entries ≠ some j →
          map.entries[j]? = some entry → Retained entry
  | .dissoc self key =>
      ∀ map middle, state.heap.object? self = some (.map map) →
        releaseValue key state.heap = some ((), middle) →
          middle.count self ≠ 1 →
        ∀ index, AssocList.indexOf (compare.on state.heap) key map.entries =
          some index →
          ∀ j entry, index ≠ j → map.entries[j]? = some entry → Retained entry
  | .withMeta self _ => state.heap.count self = 1
  | _ => True

/-- A step performs a call of what the caller owns that meets a condition. -/
inductive Step
    (compare : Comparison)
    (condition : Holdings → Call → Prop) : Holdings → Holdings → Prop
  | perform
      (before after : Holdings)
      (call : Call)
      (outcome : Outcome)
      (owned : before.Owns call)
      (meets : condition before call)
      (result : before.perform compare call = some (outcome, after)) :
      Step compare condition before after

/-- The states that calls which meet a condition lead to, from any state whose
counts are right. -/
abbrev Reaches
    (compare : Comparison)
    (condition : Holdings → Call → Prop) : Holdings → Prop :=
  TransitionSystem.Reachable Conserved (Step compare condition)

/-! ## What a call does to the counts -/

/-- The counts change by what the call gives and takes. -/
def Balances (heap : MapHeap) (call : Call) (outcome : Outcome)
    (after : MapHeap) : Prop :=
  ∀ address, after.excess address =
    heap.excess address +
      (owns outcome.references address - owns call.consumed address)

theorem balances_of_since
    {heap after : MapHeap}
    {call : Call}
    {outcome : Outcome}
    {change : Address → Int}
    {changed written : Address → Prop}
    (since : Since heap after change changed written)
    (isChange : change = owns outcome.references - owns call.consumed) :
    Balances heap call outcome after := by
  intro address
  rw [since.effect.excess, isChange, Pi.sub_apply]

theorem Conserved.excess
    {state : Holdings}
    (conserved : state.Conserved)
    (address : Address) :
    state.heap.excess address = state.held.count address +
      own emptyArrayMap address := by
  have atAddress := conserved address
  unfold Heap.excess
  omega

theorem Conserved.has
    {state : Holdings}
    (conserved : state.Conserved)
    {consumed : List Address}
    (isHeld : (consumed : Multiset Address) ≤ state.held) :
    Has state.heap consumed := by
  intro address
  have := Multiset.count_le_of_le address isHeld
  rw [Multiset.coe_count] at this
  rw [conserved.excess]
  unfold owns
  omega

/-- If a call balances, then the counts are right after it. -/
theorem Conserved.after
    {state : Holdings}
    (conserved : state.Conserved)
    {call : Call}
    (owned : state.Owns call)
    {outcome : Outcome}
    {after : MapHeap}
    (balances : Balances state.heap call outcome after) :
    Conserved ⟨after, state.held - call.consumed + outcome.references⟩ := by
  intro address
  have isHeld := Multiset.count_le_of_le address owned.held
  rw [Multiset.coe_count] at isHeld
  have changed := balances address
  rw [conserved.excess] at changed
  simp only [Multiset.count_add, Multiset.count_sub, Multiset.coe_count]
  unfold Heap.excess owns at changed
  omega

/-! ## The calls -/

section Calls

variable {compare : Comparison} {state : Holdings}

/-- Metadata is attached to a map that nobody else refers to. -/
theorem runs_withMeta
    {heap : MapHeap}
    {self : Address}
    {metadata : RTValue}
    {map : ArrayMap}
    (found : heap.object? self = some (.map map))
    (has : Has heap (self :: addresses metadata))
    (isOne : heap.count self = 1) :
    Runs (withMeta self metadata) heap fun result after =>
      result = self ∧
        Since heap after (-refs metadata) (· = self) (· = self) := by
  have all := has
  unfold Has at all
  simp only [owns_cons, Pi.add_apply] at all
  unfold withMeta
  apply Runs.bind
  apply Runs.isReusable found
  apply Runs.bind
  apply runs_loadMap found
  rw [isOne, beq_self_eq_true]
  simp only [if_true]
  apply Runs.bind
  apply runs_store (Since.refl heap) found
  intro first _ _ firstSince
  have change : 0 + (owns (Referencing.references (Object.map map)) -
      owns (Referencing.references (Object.map { map with metadata }))) =
        refs map.metadata - refs metadata := by
    rw [owns_references_map, owns_references_map]
    abel
  rw [change] at firstSince
  apply Runs.bind
  apply runs_releaseValue firstSince
  · intro other
    have := all other
    have := own_nonneg self other
    have := own_nonneg emptyArrayMap other
    rw [Pi.sub_apply]
    unfold refs
    omega
  intro after _ since
  apply Runs.pure
  refine ⟨rfl, since.weaken ?_ (by simp) (by simp)⟩
  abel

theorem runs_getMeta
    {heap : MapHeap}
    {self : Address}
    {map : ArrayMap}
    (found : heap.object? self = some (.map map))
    (has : Has heap [self]) :
    Runs (getMeta self) heap fun result after =>
      Since heap after (refs result - own self) (fun _ => False) fun _ =>
        False := by
  unfold getMeta
  apply Runs.bind
  apply runs_loadMap found
  apply Runs.bind
  apply runs_retainValue (Since.refl heap)
    fun address isIn => has.reference_present found (Or.inr isIn)
  intro middle _ retained
  apply Runs.bind
  apply runs_release retained
  · intro other
    have atOther := has other
    rw [owns_cons, owns_nil, add_zero] at atOther
    have := own_nonneg emptyArrayMap other
    have := refs_nonneg map.metadata other
    rw [Pi.add_apply, Pi.zero_apply]
    omega
  intro after _ since
  apply Runs.pure
  exact since.weaken (by rw [zero_add]) (fun _ => id) fun _ => id

theorem runs_assocCall
    (conserved : state.Conserved)
    {self : Address}
    {key value : RTValue}
    (owned : state.Owns (.assoc self key value))
    (accounts : Accounts compare state (.assoc self key value)) :
    Runs ((Call.assoc self key value).run compare) state.heap
      (Balances state.heap (.assoc self key value)) := by
  obtain ⟨map, found⟩ := owned.map self rfl
  apply Runs.bind
  apply (runs_assocWrites compare.countBlind found (conserved.has owned.held)
    (accounts map found)).mono
  intro result after done
  apply Runs.pure
  cases done with
  | full _ _ since =>
      apply balances_of_since since
      simp only [Outcome.ofResult, Outcome.references, owns_nil, zero_sub]
      rfl
  | inPlace _ _ _ writes =>
      apply balances_of_since writes.since
      simp only [Outcome.ofResult, Outcome.references, owns_cons self [],
        owns_nil, add_zero]
      rfl
  | copied _ _ writes =>
      apply balances_of_since writes.since
      simp only [Outcome.ofResult, Outcome.references, owns_cons _ [], owns_nil,
        add_zero]
      rfl

theorem runs_dissocCall
    (conserved : state.Conserved)
    {self : Address}
    {key : RTValue}
    (owned : state.Owns (.dissoc self key))
    (accounts : Accounts compare state (.dissoc self key)) :
    Runs ((Call.dissoc self key).run compare) state.heap
      (Balances state.heap (.dissoc self key)) := by
  obtain ⟨map, found⟩ := owned.map self rfl
  apply Runs.bind
  apply (runs_dissocWrites compare.countBlind found (conserved.has owned.held)
    fun middle => accounts map middle found).mono
  rintro result after ⟨middle, released, done⟩
  apply Runs.pure
  intro address
  have keyGone : middle.excess address = state.heap.excess address -
      refs key address := by
    rw [released.since.effect.excess, Pi.neg_apply, sub_eq_add_neg]
  have isConsumed : owns (Call.dissoc self key).consumed address =
      own self address + refs key address := by
    rw [Call.consumed, owns_cons, Pi.add_apply]
    rfl
  have given : owns (Outcome.gives [result]).references address =
      own result address := by
    rw [Outcome.references, owns_cons, owns_nil, add_zero]
  rw [isConsumed, given]
  cases done with
  | absent _ =>
      rw [keyGone]
      omega
  | inPlace _ _ writes =>
      have mapWritten := writes.since.effect.excess address
      rw [owns_cons, owns_nil, add_zero, Pi.sub_apply, keyGone] at mapWritten
      omega
  | copied _ writes =>
      have mapWritten := writes.since.effect.excess address
      rw [owns_cons, owns_nil, add_zero, Pi.sub_apply, keyGone] at mapWritten
      omega

/-- A call that accounts for what it shares balances. -/
theorem runs_call
    (conserved : state.Conserved)
    {call : Call}
    (owned : state.Owns call)
    (accounts : Accounts compare state call) :
    Runs (call.run compare) state.heap (Balances state.heap call) := by
  have has := conserved.has owned.held
  cases call with
  | assoc self key value => exact runs_assocCall conserved owned accounts
  | dissoc self key => exact runs_dissocCall conserved owned accounts
  | get self key =>
      obtain ⟨map, found⟩ := owned.map self rfl
      apply Runs.bind
      apply (runs_get has found).mono
      rintro result after ⟨_, serves⟩
      exact Runs.pure fun address =>
        by rw [serves.effect.excess, Pi.sub_apply]; rfl
  | indexOf self key =>
      obtain ⟨map, found⟩ := owned.map self rfl
      apply Runs.bind
      apply (runs_indexOf has found).mono
      rintro result after ⟨_, serves⟩
      exact Runs.pure fun address =>
        by rw [serves.effect.excess, Pi.sub_apply]; rfl
  | withMeta self metadata =>
      obtain ⟨map, found⟩ := owned.map self rfl
      apply Runs.bind
      apply (runs_withMeta found has accounts).mono
      rintro result after ⟨rfl, since⟩
      apply Runs.pure
      apply balances_of_since since
      rw [Outcome.references, Call.consumed, owns_cons, owns_cons, owns_nil,
        refs]
      abel
  | getMeta self =>
      obtain ⟨map, found⟩ := owned.map self rfl
      apply Runs.bind
      apply (runs_getMeta found has).mono
      intro result after since
      apply Runs.pure
      apply balances_of_since since
      rw [Outcome.references, Call.consumed, owns_cons, owns_nil, add_zero,
        refs]
  | retain address =>
      apply Runs.bind
      apply runs_retain (Since.refl state.heap) (has.present List.mem_cons_self)
      intro after _ since
      apply Runs.pure
      apply balances_of_since since
      rw [Outcome.references, Call.consumed, owns_cons, zero_add,
        add_sub_cancel_right]
  | release address =>
      apply Runs.bind
      apply runs_release (Since.refl state.heap)
      · intro other
        have atOther := has other
        rw [Call.consumed, owns_cons, owns_nil, add_zero] at atOther
        have := own_nonneg emptyArrayMap other
        rw [Pi.zero_apply]
        omega
      intro after _ since
      apply Runs.pure
      apply balances_of_since since
      rw [Outcome.references, Call.consumed, owns_cons, owns_nil, add_zero]

/-- A call that accounts for what it shares has a result, and the counts are
right after it. -/
theorem exists_perform_of_accounts
    (conserved : state.Conserved)
    {call : Call}
    (owned : state.Owns call)
    (accounts : Accounts compare state call) :
    ∃ outcome after, state.perform compare call = some (outcome, after) ∧
      after.Conserved := by
  obtain ⟨outcome, after, result, balances⟩ :=
    runs_call conserved owned accounts
  refine ⟨outcome, _, ?_, conserved.after owned balances⟩
  rw [perform, result]

end Calls

/-- Along every run in which copies retain what they share and metadata is
attached in place, every count is that of the references, and every call of what
the caller owns has a result. -/
theorem conserved_of_reaches
    {compare : Comparison}
    {state : Holdings}
    (reaches : Reaches compare (Accounts compare) state) :
    state.Conserved ∧
      ∀ call, state.Owns call → Accounts compare state call →
        ∃ outcome after, state.perform compare call = some (outcome, after) ∧
          after.Conserved := by
  have conserved : state.Conserved := by
    apply reaches.invariant
    · exact fun _ initially => initially
    · intro before after _ conserved stepped
      obtain ⟨call, outcome, owned, accounts, result⟩ := stepped
      obtain ⟨_, _, isResult, conservedAfter⟩ :=
        exists_perform_of_accounts conserved owned accounts
      rw [result, Option.some.injEq, Prod.mk.injEq] at isResult
      rw [isResult.2]
      exact conservedAfter
  exact ⟨conserved, fun call owned accounts =>
    exists_perform_of_accounts conserved owned accounts⟩

/-! ## Runs with words for keys -/

/-- The comparison of words and of addresses. -/
def compareWords : Comparison :=
  fun _ first second => decide (first = second)

/-- The state after a call that has a result. -/
def next (state : Holdings) (call : Call) : Holdings :=
  match state.perform compareWords call with
  | some (_, after) => after
  | none => state

theorem reaches_next
    {condition : Holdings → Call → Prop}
    {state : Holdings}
    (reaches : Reaches compareWords condition state)
    {call : Call}
    (owned : state.Owns call)
    (meets : condition state call) :
    Reaches compareWords condition (state.next call) := by
  unfold next
  cases result : state.perform compareWords call with
  | none => exact reaches
  | some pair =>
      exact reaches.tail (.perform _ _ call pair.1 owned meets result)

/-- A state where nothing is beyond an address has the right counts if those
below have them. -/
theorem conserved_of_below
    {state : Holdings}
    (below : ∀ address < state.heap.next, (state.heap.count address : Int) =
      state.heap.incoming address + state.held.count address +
        own emptyArrayMap address)
    (closed : ∀ source < state.heap.next,
      ∀ target ∈ state.heap.referencesAt source,
      target < state.heap.next)
    (inHeap : ∀ address ∈ state.held, address < state.heap.next)
    (hasEmpty : emptyArrayMap < state.heap.next) : state.Conserved := by
  intro address
  by_cases isBelow : address < state.heap.next
  · exact below address isBelow
  have noCell := state.heap.bounded address (Nat.not_lt.mp isBelow)
  have noReference : state.heap.incoming address = 0 := by
    apply Finset.sum_eq_zero
    intro source isSource
    apply List.count_eq_zero.mpr
    intro isTarget
    exact isBelow
      (closed source (Finset.mem_range.mp isSource) address isTarget)
  have notHeld : state.held.count address = 0 :=
    Multiset.count_eq_zero.mpr fun isHeld => isBelow (inHeap address isHeld)
  have notEmpty : own emptyArrayMap address = 0 := by
    unfold own
    rw [if_neg]
    rintro rfl
    exact isBelow hasEmpty
  rw [Heap.count, noCell, noReference, notHeld, notEmpty]
  rfl

/-- Two references to the empty map. -/
def emptyTwice : Holdings where
  heap := Heap.empty.set emptyArrayMap (some ⟨3, .map ⟨[], .boxNil⟩⟩)
  held := {emptyArrayMap, emptyArrayMap}

/-- Two references to `{0.0 object}`. -/
def zeroKeyTwice : Holdings where
  heap := (initialHeap.set 1 (some ⟨1, .other 7 []⟩)).set 2
    (some ⟨2, .map ⟨[(.word 0, .pointer 1)], .boxNil⟩⟩)
  held := {2, 2}

theorem emptyTwice_conserved : emptyTwice.Conserved :=
  conserved_of_below (by decide) (by decide) (by decide) (by decide)

theorem zeroKeyTwice_conserved : zeroKeyTwice.Conserved :=
  conserved_of_below (by decide) (by decide) (by decide) (by decide)

/-- One of the references is given up, then the map is changed in place. -/
def afterAssoc : Holdings :=
  (zeroKeyTwice.next (.release 2)).next (.assoc 2 (.boxInt32 1) (.boxInt32 2))

theorem afterAssoc_conserved :
    afterAssoc.Conserved ∧
      ∀ call, afterAssoc.Owns call → Accounts compareWords afterAssoc call →
        ∃ outcome after,
          afterAssoc.perform compareWords call = some (outcome, after) ∧
          after.Conserved := by
  apply conserved_of_reaches
  apply reaches_next
  · apply reaches_next
      (TransitionSystem.Reachable.of_initial zeroKeyTwice_conserved)
    · exact ⟨by decide, by simp [Call.map?]⟩
    · trivial
  · refine ⟨by decide, ?_⟩
    rintro self ⟨⟩
    exact ⟨⟨[(.word 0, .pointer 1)], .boxNil⟩, rfl⟩
  · intro map _ notOne
    exact absurd rfl notOne

/-- `PersistentArrayMap_withMeta` leaves a count too high, and a copy without
the value of 0.0 leaves one too low. -/
theorem calls_not_conserved :
    (¬ ∀ state, Reaches compareWords (fun _ _ => True) state →
      state.Conserved) ∧
    (emptyTwice.Conserved ∧
      ¬ (emptyTwice.next (.withMeta 0 .boxNil)).Conserved) ∧
    (zeroKeyTwice.Conserved ∧
      ¬ (zeroKeyTwice.next
        (.assoc 2 (.boxInt32 1) (.boxInt32 2))).Conserved) := by
  have tooHigh : ¬ (emptyTwice.next (.withMeta 0 .boxNil)).Conserved := by
    intro conserved
    exact absurd (conserved 0) (by decide)
  have tooLow :
      ¬ (zeroKeyTwice.next
      (.assoc 2 (.boxInt32 1) (.boxInt32 2))).Conserved := by
    intro conserved
    exact absurd (conserved 1) (by decide)
  refine ⟨?_, ⟨emptyTwice_conserved, tooHigh⟩, zeroKeyTwice_conserved, tooLow⟩
  intro allConserved
  apply tooHigh
  apply allConserved
  apply reaches_next
    (TransitionSystem.Reachable.of_initial emptyTwice_conserved)
  · refine ⟨by decide, ?_⟩
    rintro self ⟨⟩
    exact ⟨⟨[], .boxNil⟩, rfl⟩
  · trivial

end Holdings

end PersistentArrayMap
end Runtime
end ClojureRt
