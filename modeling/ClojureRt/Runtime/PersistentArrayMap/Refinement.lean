import ClojureRt.Runtime.PersistentArrayMap.Updates

/-!
# Array maps are finite maps

Along every run the maps of a caller hold what they should, as long as no copy
leaves out an entry: the counts are right, so a map that is changed in place has
no other owner.
-/

namespace ClojureRt
namespace Runtime
namespace PersistentArrayMap

open RefCount RefCount.Program

variable {equals : MapHeap → RTValue → RTValue → Bool}

/-! ## The invariant -/

/-- The counts are those of the caller, and every map holds what it should. -/
structure Sound (equals : MapHeap → RTValue → RTValue → Bool)
    (state : State) : Prop where
  excess : ∀ address,
    state.heap.excess address = state.held.count address +
      own emptyArrayMap address
  empty : state.heap.object? emptyArrayMap = some (.map ⟨[], .boxNil⟩)
  expected : ∀ address map, state.heap.object? address = some (.map map) →
    map.entries = state.expected address
  distinct : ∀ address map, state.heap.object? address = some (.map map) →
    AssocList.Distinct (equals state.heap) map.entries
  bound : ∀ address map, state.heap.object? address = some (.map map) →
    map.entries.length ≤ ArrayMap.hashtableThreshold

/-- The contents that maps should have, with those of a result. -/
def follow
    (expected : Address → Entries)
    (result : Option (Address × Entries)) : Address → Entries :=
  match result with
  | none => expected
  | some (address, entries) => Function.update expected address entries

/-- What is held can be consumed. -/
theorem Sound.has
    {state : State}
    (sound : Sound equals state)
    {consumed : List Address}
    (isHeld : (consumed : Multiset Address) ≤ state.held) :
    Has state.heap consumed := by
  intro address
  have := Multiset.count_le_of_le address isHeld
  rw [Multiset.coe_count] at this
  rw [sound.excess]
  unfold owns
  omega

section Serving

variable
  {heap after : MapHeap}
  {consumed : List Address}
  {outcome : Outcome}
  {result : Option (Address × Entries)}
  {changed : Address → Prop}

/-- What changes has one reference, and the call consumes it. -/
theorem Serves.consumed_eq
    (serves : Serves equals heap consumed outcome result changed after)
    {address : Address}
    (isChanged : changed address) :
    heap.count address = 1 ∧ ∃ rest, consumed = address :: rest := by
  obtain ⟨isOne, isHead⟩ := serves.sole address isChanged
  cases consumed with
  | nil => cases isHead
  | cons first rest =>
      cases isHead
      exact ⟨isOne, rest, rfl⟩

/-- Nobody refers to what an operation changes. -/
theorem Serves.unreferenced
    (serves : Serves equals heap consumed outcome result changed after)
    (has : Has heap consumed)
    (address : Address)
    (isChanged : changed address) : heap.incoming address = 0 := by
  obtain ⟨isOne, rest, rfl⟩ := serves.consumed_eq isChanged
  exact (has.sole isOne).1

/-- What others hold does not change. -/
theorem Serves.not_changed_of_held
    (serves : Serves equals heap consumed outcome result changed after)
    {held : Address → Int}
    (has : ∀ address,
      owns consumed address + held address ≤ heap.excess address)
    {address : Address}
    (positive : 0 < held address) : ¬ changed address := by
  intro isChanged
  obtain ⟨isOne, rest, rfl⟩ := serves.consumed_eq isChanged
  have atAddress := has address
  rw [owns_cons, Pi.add_apply, own_self] at atAddress
  have := owns_nonneg rest address
  unfold Heap.excess at atAddress
  omega

/-- What is reached from references that the operation does not get stays as it
is. -/
theorem Serves.others_kept
    (serves : Serves equals heap consumed outcome result changed after)
    (has : Has heap consumed)
    {held : Address → Int}
    (nonneg : ∀ address, 0 ≤ held address)
    (hasOthers : ∀ address,
      owns consumed address + held address ≤ heap.excess address)
    {address : Address}
    (pinned : Pinned heap held (fun _ => False) address) :
    after.object? address = heap.object? address := by
  have heldAfter (other : Address) : held other ≤ after.excess other := by
    have := hasOthers other
    have := owns_nonneg outcome.references other
    rw [serves.effect.excess, Pi.sub_apply]
    omega
  apply Pinned.object_kept serves.effect has.nonneg
    (fun other => (nonneg other).trans
    (heldAfter other)) (serves.unreferenced has) _ pinned
  intro other positive
  refine ⟨serves.not_changed_of_held hasOthers positive, ?_, ?_⟩
  · apply Heap.object_of_owned
    have := hasOthers other
    have := owns_nonneg consumed other
    omega
  · exact Heap.object_of_owned (lt_of_lt_of_le positive (heldAfter other))

/-- Keys that an operation leaves alone compare as before. -/
theorem Serves.equals_eq
    (framed : Framed equals)
    (serves : Serves equals heap consumed outcome result changed after)
    (has : Has heap consumed)
    (nonnegAfter : ∀ address, 0 ≤ after.excess address)
    {first second : RTValue}
    (alone : ∀ target, target ∈ addresses first ∨ target ∈ addresses second →
      ¬ changed target ∧ (∃ object, heap.object? target = some object) ∧
        ∃ object, after.object? target = some object) :
    equals after first second = equals heap first second := by
  apply framed.frame
  intro address pinned
  apply Pinned.object_kept serves.effect has.nonneg nonnegAfter
    (serves.unreferenced has) _ pinned
  intro other positive
  apply alone
  by_contra neither
  push Not at neither
  have noFirst : (addresses first).count other = 0 :=
    List.count_eq_zero.mpr neither.1
  have noSecond : (addresses second).count other = 0 :=
    List.count_eq_zero.mpr neither.2
  unfold refs owns at positive
  rw [Pi.add_apply, noFirst, noSecond] at positive
  exact absurd positive (by decide)

end Serving

/-- An operation that serves the caller keeps the invariant. -/
theorem Sound.after
    {state : State}
    (framed : Framed equals)
    (sound : Sound equals state)
    {consumed : List Address}
    {outcome : Outcome}
    {result : Option (Address × Entries)}
    {changed : Address → Prop}
    {after : MapHeap}
    (isHeld : (consumed : Multiset Address) ≤ state.held)
    (serves : Serves equals state.heap consumed outcome result changed after) :
    Sound equals ⟨after, state.held - consumed + outcome.references,
      follow state.expected result⟩ := by
  have has := sound.has isHeld
  have excess (address : Address) : after.excess address =
      ((state.held - consumed + outcome.references).count address : Int) +
        own emptyArrayMap address := by
    have := Multiset.count_le_of_le address isHeld
    rw [Multiset.coe_count] at this
    rw [serves.effect.excess, sound.excess, Multiset.count_add,
      Multiset.count_sub, Multiset.coe_count, Multiset.coe_count, Pi.sub_apply]
    unfold owns
    omega
  have nonnegAfter (address : Address) : 0 ≤ after.excess address := by
    rw [excess]
    have := own_nonneg emptyArrayMap address
    omega
  -- the keys of a map that is there now compare as before
  have agree {address : Address} {map : ArrayMap}
      (isThere : after.object? address = some (.map map))
      (keys : ∀ entry ∈ map.entries, ∀ target ∈ addresses entry.1,
        ¬ changed target ∧ ∃ object, state.heap.object? target = some object)
      (distinct : AssocList.Distinct (equals state.heap) map.entries) :
      AssocList.Distinct (equals after) map.entries := by
    have alone (entry : RTValue × RTValue) (isEntry : entry ∈ map.entries)
        (target : Address)
        (isTarget : target ∈ addresses entry.1) :
        ¬ changed target ∧ (∃ object, state.heap.object? target = some object) ∧
          ∃ object, after.object? target = some object := by
      obtain ⟨unchanged, isObject⟩ := keys entry isEntry target isTarget
      refine ⟨unchanged, isObject,
        Heap.object_of_reference nonnegAfter isThere ?_⟩
      exact List.mem_append_left _ (key_mem_entryAddresses isEntry isTarget)
    apply AssocList.distinct_congr _ distinct
    intro entry isEntry other isOther
    symm
    apply serves.equals_eq framed has nonnegAfter
    rintro target (inFirst | inSecond)
    · exact alone entry isEntry target inFirst
    · exact alone other isOther target inSecond
  have oldKeys {address : Address} {map : ArrayMap}
      (found : state.heap.object? address = some (.map map))
      (entry : RTValue × RTValue) (isEntry : entry ∈ map.entries)
      (target : Address)
      (isTarget : target ∈ addresses entry.1) :
      ¬ changed target ∧ ∃ object, state.heap.object? target = some object := by
    have isReference : target ∈ Referencing.references (Object.map map) :=
      List.mem_append_left _ (key_mem_entryAddresses isEntry isTarget)
    refine ⟨?_, Heap.object_of_reference has.nonneg found isReference⟩
    intro isChanged
    obtain ⟨isOne, rest, isConsumed⟩ := serves.consumed_eq isChanged
    rw [isConsumed] at has
    exact has.not_referred isOne found isReference
  have mapAfter (address : Address) (map : ArrayMap)
      (isThere : after.object? address = some (.map map)) :
      map.entries = follow state.expected result address ∧
        AssocList.Distinct (equals after) map.entries ∧
        map.entries.length ≤ ArrayMap.hashtableThreshold := by
    by_cases isResult : ∃ entries, result = some (address, entries)
    · obtain ⟨entries, isResult⟩ := isResult
      obtain ⟨written, isWritten, sameEntries⟩ :=
        serves.map address entries isResult
      rw [isThere, Option.some.injEq, Object.map.injEq] at isWritten
      subst isWritten sameEntries
      refine ⟨?_, ?_, serves.bound address _ isResult⟩
      · rw [isResult, follow, Function.update_self]
      · exact agree isThere (serves.keys address _ isResult)
          (serves.distinct address _ isResult)
    · have found := (serves.kept address map isThere).resolve_left isResult
      refine ⟨?_,
        agree isThere (oldKeys found) (sound.distinct address map found),
        sound.bound address map found⟩
      rw [sound.expected address map found]
      cases result with
      | none => rfl
      | some written =>
          have different : address ≠ written.1 :=
            fun same => isResult ⟨written.2, by rw [same]⟩
          rw [follow, Function.update_of_ne different]
  refine ⟨excess, ?_, fun address map isThere =>
    (mapAfter address map isThere).1,
    fun address map isThere => (mapAfter address map isThere).2.1,
    fun address map isThere => (mapAfter address map isThere).2.2⟩
  have owned : 0 < after.excess emptyArrayMap := by
    rw [excess, own_self]
    omega
  obtain ⟨object, isObject⟩ := Heap.object_of_owned owned
  have unchanged : ¬ changed emptyArrayMap := by
    intro isChanged
    obtain ⟨isOne, rest, isConsumed⟩ := serves.consumed_eq isChanged
    rw [isConsumed] at has
    exact (has.sole isOne).2.2 rfl
  rw [serves.effect.object_eq sound.empty unchanged isObject] at isObject
  exact isObject

/-- The initial heap has the empty map. -/
theorem initialHeap_cells (address : Address) :
    initialHeap.cells address =
      if address = emptyArrayMap then some ⟨1, .map ⟨[], .boxNil⟩⟩
      else none := by
  unfold initialHeap
  by_cases same : address = emptyArrayMap
  · rw [if_pos same, same, Heap.set_cells_self]
  · rw [if_neg same, Heap.set_cells_of_ne _ _ same]
    rfl

/-- At the start every variable has what it should. -/
theorem sound_initial : Sound equals ⟨initialHeap, 0, fun _ => []⟩ := by
  have object_eq (address : Address) (map : ArrayMap)
      (found : initialHeap.object? address = some (.map map)) :
      map.entries = [] := by
    rw [Heap.object?, initialHeap_cells] at found
    split at found
    · cases found
      rfl
    · cases found
  constructor
  · intro address
    have nothing : (Heap.empty : MapHeap).excess address = 0 := rfl
    have noReferences : (Heap.empty : MapHeap).referencesAt emptyArrayMap =
      [] := rfl
    rw [initialHeap, Heap.excess_set, nothing, noReferences]
    unfold own
    split <;> simp [Cell.countOf, Cell.referencesOf, Heap.count, Heap.empty,
      Referencing.references, entryAddresses, addresses, RTValue.boxNil]
  · rw [Heap.object?, initialHeap_cells, if_pos rfl]
    rfl
  · intro address map found
    exact object_eq address map found
  · intro address map found
    rw [object_eq address map found]
    exact List.Pairwise.nil
  · intro address map found
    rw [object_eq address map found]
    exact Nat.zero_le _

/-! ## What every operation does -/

/-- What the refinement assumes of an operation: `createMany` gets at most 128
pairs with different keys, and `equals` is an equivalence on the keys of the map
and the one of the operation. -/
def InDomain
    (equals : MapHeap → RTValue → RTValue → Bool)
    (state : State) : Operation → Prop
  | .createMany pairs =>
      pairs.length ≤ ArrayMap.hashtableThreshold ∧
        AssocList.Distinct (equals state.heap) pairs
  | .assoc self key _ | .dissoc self key | .get self key | .indexOf self key =>
      ∃ map, state.heap.object? self = some (.map map) ∧
        AssocList.IsEquivalenceOn (KeysOf map key) (equals state.heap)
  | _ => True

/-- A map that is copied has no entry, apart from that of the key, with a key of
zeros and an object for a value. -/
def KeepsChildren
    (equals : MapHeap → RTValue → RTValue → Bool)
    (state : State) : Operation → Prop
  | .assoc self key _ =>
      ∀ map, state.heap.object? self = some (.map map) →
        state.heap.count self ≠ 1 →
        ¬ Full equals state.heap key map →
        ∀ entry ∈ map.entries, equals state.heap key entry.1 = false →
          Retained entry
  | .dissoc self key =>
      ∀ map middle, state.heap.object? self = some (.map map) →
        releaseValue key state.heap = some ((), middle) →
          middle.count self ≠ 1 →
        AssocList.indexOf (equals state.heap) key map.entries ≠ none →
        ∀ entry ∈ map.entries, equals state.heap key entry.1 = false →
          Retained entry
  | _ => True

/-- The operation puts a new key into a map of 128 entries. -/
def Overflows
    (equals : MapHeap → RTValue → RTValue → Bool)
    (state : State) : Operation → Prop
  | .assoc self key _ =>
      ∃ map, state.heap.object? self = some (.map map) ∧
        Full equals state.heap key map
  | _ => False

/-- What the caller holds besides what the operation gets. -/
def State.others (state : State) (operation : Operation) : Address → Int :=
  fun address => (state.held - operation.consumed).count address

/-- The operation keeps the invariant and all that the caller still has. -/
structure Performed
    (equals : MapHeap → RTValue → RTValue → Bool)
    (state : State)
    (operation : Operation)
    (outcome : Outcome)
    (after : MapHeap) : Prop where
  sound : Sound equals
    ⟨after, state.held - operation.consumed + outcome.references,
    state.expect equals operation outcome⟩
  others : ∀ address,
    Pinned state.heap (state.others operation) (fun _ => False) address →
    after.object? address = state.heap.object? address
  throws : (∃ exception, outcome = .throws exception) ↔
    Overflows equals state operation

section Operations

variable {state : State} {operation : Operation}

/-- There are references for the call and for the others. -/
theorem Sound.hasOthers
    (sound : Sound equals state)
    (isHeld : (operation.consumed : Multiset Address) ≤ state.held)
    (address : Address) :
    owns operation.consumed address + state.others operation address ≤
      state.heap.excess address := by
  have := Multiset.count_le_of_le address isHeld
  rw [Multiset.coe_count] at this
  have := own_nonneg emptyArrayMap address
  rw [sound.excess, State.others, Multiset.count_sub, Multiset.coe_count]
  unfold owns
  omega

/-- Nothing is held a negative number of times. -/
theorem State.others_nonneg (state : State) (operation : Operation)
    (address : Address) :
    0 ≤ state.others operation address :=
  Int.natCast_nonneg _

/-- An operation that serves its caller leaves the maps of the others as they
are. -/
theorem performed_of_serves
    (framed : Framed equals)
    (sound : Sound equals state)
    (isHeld : (operation.consumed : Multiset Address) ≤ state.held)
    {outcome : Outcome}
    {result : Option (Address × Entries)}
    {changed : Address → Prop}
    {after : MapHeap}
    (serves : Serves equals state.heap operation.consumed outcome result
      changed after)
    (expects : state.expect equals operation outcome =
      follow state.expected result)
    (throws : (∃ exception, outcome = .throws exception) ↔
      Overflows equals state operation) :
    Performed equals state operation outcome after where
  sound := by
    rw [expects]
    exact sound.after framed isHeld serves
  others := fun _ pinned =>
    serves.others_kept (sound.has isHeld) (state.others_nonneg operation)
    (sound.hasOthers isHeld) pinned
  throws := throws

/-- An operation that gives references does not throw. -/
theorem gives_throws_iff
    {references : List Address}
    (fits : ¬ Overflows equals state operation) :
    (∃ exception, Outcome.gives references = .throws exception) ↔
      Overflows equals state operation :=
  iff_of_false (fun ⟨_, impossible⟩ => by cases impossible) fits

/-- An object is made from references that are held. -/
theorem runs_newObject
    (framed : Framed equals)
    (sound : Sound equals state)
    {content : Nat}
    {references : List Address}
    (isHeld : ((Operation.newObject content references).consumed :
      Multiset Address) ≤
      state.held) :
    Runs ((Operation.newObject content references).run equals) state.heap
      (Performed equals state (.newObject content references)) := by
  apply Runs.bind
  apply runs_allocate (Since.refl state.heap)
  intro after stored _ since
  apply Runs.pure
  have serves :
      Serves equals state.heap references (.gives [state.heap.next]) none
      (fun _ => False) after := by
    apply serves_of_since
    apply since.weaken _ (fun _ => id)
    · rintro address (never | isNew) map found
      · exact never
      · rw [isNew, stored] at found
        cases found
    · rw [zero_add, Outcome.references, owns_cons, owns_nil, add_zero]
      rfl
  exact performed_of_serves framed sound isHeld serves rfl (gives_throws_iff id)

/-- The empty map. -/
theorem runs_empty
    (framed : Framed equals)
    (sound : Sound equals state)
    (isHeld : ((Operation.empty).consumed : Multiset Address) ≤ state.held) :
    Runs (Operation.empty.run equals) state.heap
      (Performed equals state .empty) := by
  apply Runs.bind
  unfold PersistentArrayMap.empty
  apply Runs.bind
  apply runs_retain (Since.refl state.heap) ⟨_, sound.empty⟩
  intro after same since
  apply Runs.pure
  apply Runs.pure
  have has : Has state.heap (Operation.empty.consumed) := sound.has isHeld
  have isThere : after.object? emptyArrayMap = some (.map ⟨[], .boxNil⟩) := by
    rw [same, sound.empty]
  have serves : Serves equals state.heap (Operation.empty.consumed)
      (.gives [emptyArrayMap])
      (some (emptyArrayMap, [])) (fun _ => False) after := by
    apply serves_same has sound.empty List.Pairwise.nil (Nat.zero_le _)
      _ isThere
    apply since.weaken _ (fun _ => id) fun _ => id
    rw [Operation.consumed, owns_nil, sub_zero, zero_add]
  exact performed_of_serves framed sound isHeld serves rfl (gives_throws_iff id)

/-- A map of some entries. -/
theorem runs_createMany
    (framed : Framed equals)
    (sound : Sound equals state)
    {pairs : Entries}
    (isHeld : ((Operation.createMany pairs).consumed : Multiset Address) ≤
      state.held)
    (bound : pairs.length ≤ ArrayMap.hashtableThreshold)
    (distinct : AssocList.Distinct (equals state.heap) pairs) :
    Runs ((Operation.createMany pairs).run equals) state.heap
      (Performed equals state (.createMany pairs)) := by
  have has : Has state.heap (entryAddresses pairs) := sound.has isHeld
  apply Runs.bind
  unfold PersistentArrayMap.createMany
  rw [if_neg (by omega)]
  apply Runs.bind
  apply runs_allocate (Since.refl state.heap)
  intro after stored _ since
  apply Runs.pure
  apply Runs.pure
  have serves : Serves equals state.heap (entryAddresses pairs)
      (.gives [state.heap.next])
      (some (state.heap.next, pairs)) (fun _ => False) after := by
    refine serves_new ?_ distinct bound ⟨_, stored, rfl⟩ ?_
    · intro entry isEntry target isTarget
      exact has.present (key_mem_entryAddresses isEntry isTarget)
    · apply since.weaken _ (fun _ => id)
      · rintro address (never | isNew)
        · exact never.elim
        · exact isNew
      · rw [owns_references_map, RTValue.boxNil, refs_word, add_zero, zero_add,
          refsEntries]
  exact performed_of_serves framed sound isHeld serves rfl (gives_throws_iff id)

/-- A map has one more reference. -/
theorem runs_retainHeld
    (framed : Framed equals)
    (sound : Sound equals state)
    {address : Address}
    (isHeld : ((Operation.retain address).consumed : Multiset Address) ≤
      state.held) :
    Runs ((Operation.retain address).run equals) state.heap
      (Performed equals state (.retain address)) := by
  have has : Has state.heap [address] := sound.has isHeld
  apply Runs.bind
  apply runs_retain (Since.refl state.heap) (has.present List.mem_cons_self)
  intro after _ since
  apply Runs.pure
  have serves :
      Serves equals state.heap [address] (.gives [address, address]) none
      (fun _ => False) after := by
    apply serves_of_since
    apply since.weaken _ (fun _ => id) fun _ => False.elim
    rw [Outcome.references, owns_cons, zero_add, add_sub_cancel_right]
  exact performed_of_serves framed sound isHeld serves rfl (gives_throws_iff id)

/-- A map has one reference less. -/
theorem runs_releaseHeld
    (framed : Framed equals)
    (sound : Sound equals state)
    {address : Address}
    (isHeld : ((Operation.release address).consumed : Multiset Address) ≤
      state.held) :
    Runs ((Operation.release address).run equals) state.heap
      (Performed equals state (.release address)) := by
  have has : Has state.heap [address] := sound.has isHeld
  apply Runs.bind
  apply runs_release (Since.refl state.heap)
  · intro other
    have atOther := has other
    rw [owns_cons, owns_nil, add_zero] at atOther
    have := own_nonneg emptyArrayMap other
    rw [Pi.zero_apply]
    omega
  intro after _ since
  apply Runs.pure
  have serves :
      Serves equals state.heap [address] (.gives []) none (fun _ => False)
      after := by
    apply serves_of_since
    apply since.weaken _ (fun _ => id) fun _ => False.elim
    rw [Outcome.references, owns_cons, owns_nil, add_zero]
  exact performed_of_serves framed sound isHeld serves rfl (gives_throws_iff id)

/-- A map that is held is as the operations need it. -/
theorem Sound.ready
    (framed : Framed equals)
    (sound : Sound equals state)
    {self : Address}
    {key : RTValue}
    {map : ArrayMap}
    (found : state.heap.object? self = some (.map map))
    (equivalence : AssocList.IsEquivalenceOn (KeysOf map key)
      (equals state.heap)) :
    Ready equals state.heap self key map where
  framed := framed
  found := found
  equivalence := equivalence
  distinct := sound.distinct self map found
  bound := sound.bound self map found

/-- `assoc` on a map that is held. -/
theorem runs_assocHeld
    (framed : Framed equals)
    (sound : Sound equals state)
    {self : Address}
    {key value : RTValue}
    (isHeld : ((Operation.assoc self key value).consumed : Multiset Address) ≤
      state.held)
    (inDomain : InDomain equals state (.assoc self key value))
    (keeps : KeepsChildren equals state (.assoc self key value)) :
    Runs ((Operation.assoc self key value).run equals) state.heap
      (Performed equals state (.assoc self key value)) := by
  obtain ⟨map, found, equivalence⟩ := inDomain
  have has : Has state.heap (self :: (addresses key ++ addresses value)) :=
    sound.has isHeld
  apply Runs.bind
  apply (runs_assoc (sound.ready framed found equivalence) has
    (keeps map found)).mono
  intro result after done
  apply Runs.pure
  cases done with
  | thrown _ isFull serves =>
      apply performed_of_serves framed sound isHeld serves rfl
      exact iff_of_true ⟨tooLarge, rfl⟩ ⟨map, found, isFull⟩
  | done _ address changed notFull serves =>
      apply performed_of_serves framed sound isHeld serves
      · rw [sound.expected self map found]
        rfl
      · apply gives_throws_iff
        rintro ⟨other, isOther, isFull⟩
        rw [found, Option.some.injEq, Object.map.injEq] at isOther
        rw [← isOther] at isFull
        exact notFull isFull

/-- `dissoc` on a map that is held. -/
theorem runs_dissocHeld
    (framed : Framed equals)
    (sound : Sound equals state)
    {self : Address}
    {key : RTValue}
    (isHeld : ((Operation.dissoc self key).consumed : Multiset Address) ≤
      state.held)
    (inDomain : InDomain equals state (.dissoc self key))
    (keeps : KeepsChildren equals state (.dissoc self key)) :
    Runs ((Operation.dissoc self key).run equals) state.heap
      (Performed equals state (.dissoc self key)) := by
  obtain ⟨map, found, equivalence⟩ := inDomain
  have has : Has state.heap (self :: addresses key) := sound.has isHeld
  have hasOthers (other : Address) :
      own self other + owns (addresses key) other +
        state.others (.dissoc self key) other ≤
        state.heap.excess other := by
    have all := sound.hasOthers isHeld other
    change owns (self :: addresses key) other + _ ≤ _ at all
    rwa [owns_cons, Pi.add_apply] at all
  apply Runs.bind
  apply (runs_dissoc (sound.ready framed found equivalence) has
    fun middle isMiddle => keeps map middle found isMiddle).mono
  intro result after done
  apply Runs.pure
  obtain ⟨middle, keyServes, mapServes⟩ := done.phases
  -- the key goes first
  have keyHeld : (addresses key : Multiset Address) ≤ state.held :=
    (Multiset.le_cons_self _ self).trans isHeld
  have soundMiddle := sound.after framed keyHeld keyServes
  have selfHeld : (([self] : List Address) : Multiset Address) ≤
      state.held - (addresses key : Multiset Address) +
        ((Outcome.gives []).references : Multiset Address) := by
    rw [Multiset.le_iff_count] at isHeld ⊢
    intro address
    have atAddress :
        Multiset.count address ((self :: addresses key : List Address) :
        Multiset Address) ≤ state.held.count address := isHeld address
    rw [Multiset.coe_count, List.count_cons] at atAddress
    simp only [Multiset.coe_count, Multiset.count_add, Multiset.count_sub,
      List.count_cons, List.count_nil]
    omega
  have keepsOthers (address : Address)
      (pinned : Pinned state.heap (state.others (.dissoc self key))
        (fun _ => False) address) :
      middle.object? address = state.heap.object? address := by
    apply keyServes.others_kept (sound.has keyHeld) (state.others_nonneg _)
      _ pinned
    intro other
    have := hasOthers other
    have := own_nonneg self other
    omega
  have hasMiddle := soundMiddle.has selfHeld
  have foundMiddle : middle.object? self = some (.map map) := by
    obtain ⟨object, isObject⟩ := hasMiddle.present List.mem_cons_self
    rw [keyServes.effect.object_eq found id isObject] at isObject
    exact isObject
  obtain ⟨changed, serves⟩ :=
    mapServes (soundMiddle.distinct self map foundMiddle)
  have soundAfter := soundMiddle.after framed selfHeld serves
  refine ⟨?_, ?_, gives_throws_iff id⟩
  · have sameHeld : state.held - (addresses key : Multiset Address) +
        ((Outcome.gives []).references : Multiset Address) -
        (([self] : List Address) :
          Multiset Address) =
        state.held -
          ((Operation.dissoc self key).consumed : Multiset Address) := by
      ext address
      change _ = Multiset.count address
        (state.held - (self :: addresses key : List Address))
      simp only [Multiset.coe_count, Multiset.count_add, Multiset.count_sub,
        List.count_cons, List.count_nil, Outcome.references]
      omega
    rw [sameHeld] at soundAfter
    rw [sound.expected self map found] at soundAfter
    exact soundAfter
  · intro address pinned
    rw [← keepsOthers address pinned]
    apply serves.others_kept hasMiddle (state.others_nonneg _) _
      (pinned.of_kept keepsOthers)
    intro other
    have := hasOthers other
    rw [owns_cons, owns_nil, add_zero, keyServes.effect.excess,
      Outcome.references, owns_nil, Pi.sub_apply, Pi.zero_apply]
    omega

/-- `get` on a map that is held. -/
theorem runs_getHeld
    (framed : Framed equals)
    (sound : Sound equals state)
    {self : Address}
    {key : RTValue}
    {map : ArrayMap}
    (isHeld : ((Operation.get self key).consumed : Multiset Address) ≤
      state.held)
    (found : state.heap.object? self = some (.map map)) :
    Runs ((Operation.get self key).run equals) state.heap
      (Performed equals state (.get self key)) := by
  have has : Has state.heap (self :: addresses key) := sound.has isHeld
  apply Runs.bind
  apply (runs_get has found).mono
  rintro result after ⟨_, serves⟩
  apply Runs.pure
  exact performed_of_serves framed sound isHeld serves rfl (gives_throws_iff id)

/-- `indexOf` on a map that is held. -/
theorem runs_indexOfHeld
    (framed : Framed equals)
    (sound : Sound equals state)
    {self : Address}
    {key : RTValue}
    {map : ArrayMap}
    (isHeld : ((Operation.indexOf self key).consumed : Multiset Address) ≤
      state.held)
    (found : state.heap.object? self = some (.map map)) :
    Runs ((Operation.indexOf self key).run equals) state.heap
      (Performed equals state (.indexOf self key)) := by
  have has : Has state.heap (self :: addresses key) := sound.has isHeld
  apply Runs.bind
  apply (runs_indexOf has found).mono
  rintro result after ⟨_, serves⟩
  apply Runs.pure
  exact performed_of_serves framed sound isHeld serves rfl (gives_throws_iff id)

/-- Every operation of the domain that keeps all children does what it
should. -/
theorem runs_operation
    (framed : Framed equals)
    (sound : Sound equals state)
    (isHeld : (operation.consumed : Multiset Address) ≤ state.held)
    (inDomain : InDomain equals state operation)
    (keeps : KeepsChildren equals state operation) :
    Runs (operation.run equals) state.heap
      (Performed equals state operation) := by
  cases operation with
  | newObject content references => exact runs_newObject framed sound isHeld
  | empty => exact runs_empty framed sound isHeld
  | createMany pairs =>
      exact runs_createMany framed sound isHeld inDomain.1 inDomain.2
  | assoc self key value =>
      exact runs_assocHeld framed sound isHeld inDomain keeps
  | dissoc self key => exact runs_dissocHeld framed sound isHeld inDomain keeps
  | get self key =>
      obtain ⟨map, found, _⟩ := inDomain
      exact runs_getHeld framed sound isHeld found
  | indexOf self key =>
      obtain ⟨map, found, _⟩ := inDomain
      exact runs_indexOfHeld framed sound isHeld found
  | retain address => exact runs_retainHeld framed sound isHeld
  | release address => exact runs_releaseHeld framed sound isHeld

/-- Case by case over the operations. -/
theorem exists_perform
    (framed : Framed equals)
    (sound : Sound equals state)
    (isHeld : (operation.consumed : Multiset Address) ≤ state.held)
    (inDomain : InDomain equals state operation)
    (keeps : KeepsChildren equals state operation) :
    ∃ outcome after, state.perform equals operation = some (outcome, after) ∧
      Sound equals after ∧
        Performed equals state operation outcome after.heap := by
  obtain ⟨outcome, after, result, performed⟩ :=
    runs_operation framed sound isHeld inDomain keeps
  refine ⟨outcome, _, ?_, performed.sound, performed⟩
  rw [State.perform, if_pos isHeld, result]

end Operations

/-- The invariant holds along every run. -/
theorem sound_of_reaches
    (framed : Framed equals)
    {state : State}
    (reaches : Reaches equals
      (fun before operation => InDomain equals before operation ∧
        KeepsChildren equals before operation) state) :
    Sound equals state := by
  apply reaches.invariant
  · rintro start rfl
    exact sound_initial
  · intro before after _ sound stepped
    obtain ⟨operation, outcome, meets, result⟩ := stepped
    have isHeld : (operation.consumed : Multiset Address) ≤ before.held := by
      by_contra notHeld
      rw [State.perform, if_neg notHeld] at result
      cases result
    obtain ⟨_, _, isResult, soundAfter, _⟩ :=
      exists_perform framed sound isHeld meets.1 meets.2
    rw [result, Option.some.injEq, Prod.mk.injEq] at isResult
    rw [isResult.2]
    exact soundAfter

/-! ## What a caller sees -/

/-- The maps of a caller are finite maps. -/
structure Refines (equals : MapHeap → RTValue → RTValue → Bool)
    (state : State) : Prop where
  /-- A map that the caller holds has the entries that it should have, in their
  order. -/
  entries : ∀ address ∈ state.held, ∀ map,
    state.heap.object? address = some (.map map) →
    map.entries = state.expected address ∧
      AssocList.Distinct (equals state.heap) map.entries ∧
      map.entries.length ≤ ArrayMap.hashtableThreshold
  /-- `PersistentArrayMap_get` finds the value of a key. -/
  get : ∀ self key map, state.heap.object? self = some (.map map) →
    (self :: addresses key : List Address) ≤ state.held →
    Runs (get equals self key) state.heap fun result _ =>
      result = valueOf
        (AssocList.get (equals state.heap) key (state.expected self))
  /-- `PersistentArrayMap_indexOf` finds the index of a key. -/
  indexOf : ∀ self key map, state.heap.object? self = some (.map map) →
    (self :: addresses key : List Address) ≤ state.held →
    Runs (indexOf equals self key) state.heap fun result _ =>
      result = AssocList.indexOf (equals state.heap) key (state.expected self)
  /-- After an update, lookups see a finite map with the key changed. -/
  assoc : ∀ self map key value other, self ∈ state.held →
    state.heap.object? self = some (.map map) →
    AssocList.IsEquivalenceOn
      (fun known => known = other ∨ KeysOf map key known) (equals state.heap) →
    AssocList.get (equals state.heap) other
        (AssocList.assoc (equals state.heap) key value (state.expected self)) =
      if equals state.heap other key then some value
      else AssocList.get (equals state.heap) other (state.expected self)
  /-- After a removal, lookups see a finite map without the key. -/
  dissoc : ∀ self map key other, self ∈ state.held →
    state.heap.object? self = some (.map map) →
    AssocList.IsEquivalenceOn
      (fun known => known = other ∨ KeysOf map key known) (equals state.heap) →
    AssocList.get (equals state.heap) other
        (AssocList.dissoc (equals state.heap) key (state.expected self)) =
      if equals state.heap other key then none
      else AssocList.get (equals state.heap) other (state.expected self)
  /-- Every operation does what it should, and throws only where the map is
  full.  What is   reached from the other references stays as it is. -/
  operation : ∀ operation,
    (operation.consumed : Multiset Address) ≤ state.held →
    InDomain equals state operation → KeepsChildren equals state operation →
    ∃ outcome after, state.perform equals operation = some (outcome, after) ∧
      ((∃ exception, outcome = .throws exception) ↔
        Overflows equals state operation) ∧
      ∀ address,
        Pinned state.heap (state.others operation) (fun _ => False) address →
        after.heap.object? address = state.heap.object? address

/-- Every map that is held is the finite map that it should be. -/
theorem Sound.refines
    {state : State}
    (framed : Framed equals)
    (sound : Sound equals state) : Refines equals state where
  entries address _ map found :=
    ⟨sound.expected address map found, sound.distinct address map found,
      sound.bound address map found⟩
  get self key map found isHeld := by
    apply (runs_get (sound.has isHeld) found).mono
    rintro result after ⟨isValue, _⟩
    rwa [← sound.expected self map found]
  indexOf self key map found isHeld := by
    apply (runs_indexOf (sound.has isHeld) found).mono
    rintro result after ⟨isIndex, _⟩
    rwa [← sound.expected self map found]
  assoc self map key value other _ found equivalence := by
    rw [← sound.expected self map found]
    apply AssocList.get_assoc_on equivalence (Or.inr (Or.inl rfl))
      (Or.inl rfl) value
    exact fun entry isEntry => Or.inr (within_keysOf entry isEntry)
  dissoc self map key other _ found equivalence := by
    rw [← sound.expected self map found]
    apply AssocList.get_dissoc_on equivalence (Or.inr (Or.inl rfl))
      (Or.inl rfl) _ (sound.distinct self map found)
    exact fun entry isEntry => Or.inr (within_keysOf entry isEntry)
  operation operation isHeld inDomain keeps := by
    obtain ⟨outcome, after, result, _, performed⟩ :=
      exists_perform framed sound isHeld inDomain keeps
    exact ⟨outcome, after, result, performed.throws, performed.others⟩

/-- Along every run in which no copy leaves out a child, the maps of the caller
are finite maps. -/
theorem refines_of_reaches
    (framed : Framed equals)
    {state : State}
    (reaches : Reaches equals
      (fun before operation => InDomain equals before operation ∧
        KeepsChildren equals before operation) state) :
    Refines equals state :=
  (sound_of_reaches framed reaches).refines framed

/-! ## Runs with words for keys -/

/-- The comparison of words and of addresses. -/
def sameWord (_ : MapHeap) (first second : RTValue) : Bool :=
  decide (first = second)

/-- Comparing words does not look at the heap. -/
theorem framed_sameWord : Framed sameWord where
  frame := fun _ _ _ _ _ => rfl

/-- Comparing words is an equivalence. -/
theorem isEquivalence_sameWord (heap : MapHeap) (domain : RTValue → Prop) :
    AssocList.IsEquivalenceOn domain (sameWord heap) :=
  AssocList.IsEquivalence.of_decidableEq.on domain

/-- The state after an operation that has a result. -/
def State.next (state : State) (operation : Operation) : State :=
  match state.perform sameWord operation with
  | some (_, after) => after
  | none => state

/-- One more operation. -/
theorem reaches_next
    {condition : State → Operation → Prop}
    {state : State}
    (reaches : Reaches sameWord condition state)
    {operation : Operation}
    (meets : condition state operation) :
    Reaches sameWord condition (state.next operation) := by
  unfold State.next
  cases result : state.perform sameWord operation with
  | none => exact reaches
  | some pair => exact reaches.tail (.perform _ _ operation pair.1 meets result)

/-- A map with an object, which is held twice. -/
def sharedMap : State :=
  State.next
    (State.next
      (State.next ⟨initialHeap, 0, fun _ => []⟩ (.newObject 7 []))
      (.createMany [(.boxInt32 1, .pointer 1)]))
    (.retain 2)

/-- One of the two references is taken by `assoc`, which makes a copy.  The copy
is held twice and loses a key by `dissoc`, which makes another one, and the
first map is changed in place. -/
def afterAssoc : State :=
  State.next
    (State.next
      (State.next
        (State.next sharedMap (.assoc 2 (.boxInt32 3) (.boxInt32 4)))
        (.retain 3))
      (.dissoc 3 (.boxInt32 1)))
    (.assoc 2 (.boxInt32 1) (.boxInt32 5))

/-- The copies and the changed map have the entries that the operations give
them. -/
example :
    afterAssoc.heap.object? 2 =
      some (.map ⟨[(.boxInt32 1, .boxInt32 5)], .boxNil⟩) ∧
    afterAssoc.heap.object? 3 =
      some (.map ⟨[(.boxInt32 1, .pointer 1), (.boxInt32 3, .boxInt32 4)],
        .boxNil⟩) ∧
    afterAssoc.heap.object? 4 =
      some (.map ⟨[(.boxInt32 3, .boxInt32 4)], .boxNil⟩) := by
  decide

/-- The maps after these operations. -/
theorem refines_afterAssoc : Refines sameWord afterAssoc := by
  apply refines_of_reaches framed_sameWord
  apply reaches_next
  · apply reaches_next
    · apply reaches_next
      · apply reaches_next
        · apply reaches_next
          · apply reaches_next
            · exact reaches_next (TransitionSystem.Reachable.of_initial rfl)
                ⟨trivial, trivial⟩
            · exact ⟨⟨by decide, List.pairwise_singleton _ _⟩, trivial⟩
          · exact ⟨trivial, trivial⟩
        · refine ⟨⟨⟨[(.boxInt32 1, .pointer 1)], .boxNil⟩, rfl,
            isEquivalence_sameWord _ _⟩, ?_⟩
          intro map found _ _ entry isEntry _
          cases found
          rw [List.mem_singleton.mp isEntry]
          exact .inl (by decide)
      · exact ⟨trivial, trivial⟩
    · refine ⟨⟨⟨_, .boxNil⟩, rfl, isEquivalence_sameWord _ _⟩, ?_⟩
      intro map middle found _ _ _ entry isEntry _
      cases found
      rcases List.mem_cons.mp isEntry with rfl | isEntry
      · exact .inl (by decide)
      · rw [List.mem_singleton.mp isEntry]
        exact .inl (by decide)
  · refine ⟨⟨⟨[(.boxInt32 1, .pointer 1)], .boxNil⟩, rfl,
      isEquivalence_sameWord _ _⟩, ?_⟩
    intro map _ notOne
    exact absurd rfl notOne

/-- A map with the key 0.0 was copied, and the original released. -/
def afterCopy : State :=
  State.next
    (State.next
      (State.next
        (State.next
          (State.next ⟨initialHeap, 0, fun _ => []⟩ (.newObject 7 []))
          (.createMany [(.word 0, .pointer 1)]))
        (.retain 2))
      (.assoc 2 (.boxInt32 1) (.boxInt32 2)))
    (.release 2)

/-- The copy refers to an object that has been freed. -/
theorem afterCopy_not_served :
    ¬ ∀ (equals : MapHeap → RTValue → RTValue → Bool) (state : State),
      Framed equals →
      Reaches equals (InDomain equals) state →
      ∀ operation, (operation.consumed : Multiset Address) ≤ state.held →
        InDomain equals state operation →
        ∃ outcome after,
          state.perform equals operation = some (outcome, after) := by
  intro served
  have reaches : Reaches sameWord (InDomain sameWord) afterCopy := by
    apply reaches_next
    · apply reaches_next
      · apply reaches_next
        · apply reaches_next
          · exact reaches_next
              (TransitionSystem.Reachable.of_initial rfl) trivial
          · exact ⟨by decide, List.pairwise_singleton _ _⟩
        · trivial
      · exact ⟨⟨[(.word 0, .pointer 1)], .boxNil⟩, rfl,
          isEquivalence_sameWord _ _⟩
    · trivial
  obtain ⟨outcome, after, result⟩ := served sameWord afterCopy
    framed_sameWord reaches (.get 3 (.word 0)) (by decide)
    ⟨⟨[(.word 0, .pointer 1), (.boxInt32 1, .boxInt32 2)], .boxNil⟩, rfl,
      isEquivalence_sameWord _ _⟩
  have isNone : (afterCopy.perform sameWord (.get 3 (.word 0))).isNone =
    true := by decide
  rw [result] at isNone
  cases isNone

end PersistentArrayMap
end Runtime
end ClojureRt
