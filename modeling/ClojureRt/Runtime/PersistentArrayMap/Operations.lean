import ClojureRt.Runtime.PersistentArrayMap.Rules

/-!
# What the operations on array maps do

An operation that finds everything in order gives back a map with the right
entries.  The only object that it changes is a map that nobody else refers to.
-/

namespace ClojureRt
namespace Runtime
namespace PersistentArrayMap

open RefCount RefCount.Program

/-- The comparison of two values depends on what is reached from them only. -/
structure Framed (equals : MapHeap → RTValue → RTValue → Bool) : Prop where
  frame : ∀ before after first second,
    (∀ address,
      Pinned before (refs first + refs second) (fun _ => False) address →
      after.object? address = before.object? address) →
    equals after first second = equals before first second

/-- The comparison does not depend on counts. -/
def CountBlind (equals : MapHeap → RTValue → RTValue → Bool) : Prop :=
  ∀ before after : MapHeap, after.object? = before.object? →
    equals after = equals before

theorem Framed.countBlind
    {equals : MapHeap → RTValue → RTValue → Bool}
    (framed : Framed equals) : CountBlind equals := by
  intro before after same
  funext first second
  apply framed.frame
  intro address _
  rw [same]

/-! ## Borrowed references -/

section Borrowing

/-- One more for the address in a value. -/
def ones : RTValue → Address → Nat
  | .pointer address => one address
  | .word _ => 0

variable {heap : MapHeap}

theorem runs_retain_raise
    {address : Address}
    (present : ∃ object, heap.object? address = some object)
    (amounts : Address → Nat)
    {post : Unit → MapHeap → Prop}
    (holds : post () (heap.raise (amounts + one address))) :
    Runs (retain address) (heap.raise amounts) post := by
  obtain ⟨object, found⟩ := present
  exact ⟨(), _, retain_raise found amounts, holds⟩

theorem runs_retainValue_raise
    {value : RTValue}
    (present : ∀ address ∈ addresses value, ∃ object,
      heap.object? address = some object)
    (amounts : Address → Nat)
    {post : Unit → MapHeap → Prop}
    (holds : post () (heap.raise (amounts + ones value))) :
    Runs (retainValue value) (heap.raise amounts) post := by
  cases value with
  | word bits => exact Runs.pure holds
  | pointer address =>
      exact runs_retain_raise (present address List.mem_cons_self) amounts holds

theorem runs_releaseValue_raise
    {value : RTValue}
    (positive : ∀ address ∈ addresses value, 0 < heap.count address)
    (amounts : Address → Nat)
    {post : Unit → MapHeap → Prop}
    (holds : post () (heap.raise amounts)) :
    Runs (releaseValue value) (heap.raise (amounts + ones value)) post := by
  cases value with
  | word bits => exact Runs.pure holds
  | pointer address =>
      exact ⟨(), _, release_raise (positive address List.mem_cons_self) amounts,
        holds⟩

variable {equals : MapHeap → RTValue → RTValue → Bool}

/-- The search gives back a borrowed reference to the map. -/
theorem runs_indexOf_raise
    (blind : CountBlind equals)
    {self : Address}
    {key : RTValue}
    {map : ArrayMap}
    (found : heap.object? self = some (.map map))
    (positive : 0 < heap.count self)
    (amounts : Address → Nat)
    {post : Option Nat → MapHeap → Prop}
    (holds : Runs (releaseValue key) (heap.raise amounts) fun _ after =>
      post (AssocList.indexOf (equals heap) key map.entries) after) :
    Runs (indexOf equals self key) (heap.raise (amounts + one self)) post := by
  unfold indexOf
  apply Runs.bind
  apply runs_loadMap (by rw [Heap.raise_object, found])
  apply Runs.bind
  refine ⟨_, _, rfl, ?_⟩
  rw [blind heap _ (Heap.raise_object heap _)]
  apply Runs.bind
  refine ⟨(), _, release_raise positive amounts, ?_⟩
  apply Runs.bind
  exact holds.mono fun _ _ isPost => Runs.pure isPost

end Borrowing

/-! ## What a caller needs -/

/-- The caller has these references, and the runtime has one to the empty
map. -/
def Has (heap : MapHeap) (consumed : List Address) : Prop :=
  ∀ address,
    owns consumed address + own emptyArrayMap address ≤ heap.excess address

section Has

variable {heap : MapHeap} {consumed : List Address}

theorem Has.nonneg (has : Has heap consumed) (address : Address) :
    0 ≤ heap.excess address := by
  have := has address
  have := owns_nonneg consumed address
  have := own_nonneg emptyArrayMap address
  omega

theorem Has.excess_pos
    (has : Has heap consumed)
    {address : Address}
    (isConsumed : address ∈ consumed) : 0 < heap.excess address := by
  have atAddress := has address
  have := own_nonneg emptyArrayMap address
  have := List.count_pos_iff.mpr isConsumed
  unfold owns at atAddress
  omega

theorem Has.present
    (has : Has heap consumed)
    {address : Address}
    (isConsumed : address ∈ consumed) : ∃ object,
    heap.object? address = some object :=
  Heap.object_of_owned (has.excess_pos isConsumed)

theorem Has.count_pos
    (has : Has heap consumed)
    {address : Address}
    (isConsumed : address ∈ consumed) : 0 < heap.count address := by
  have := has.excess_pos isConsumed
  unfold Heap.excess at this
  omega

/-- The only reference to a map is that of the caller. -/
theorem Has.sole
    {self : Address}
    (has : Has heap (self :: consumed))
    (isOne : heap.count self = 1) :
    heap.incoming self = 0 ∧ self ∉ consumed ∧ self ≠ emptyArrayMap := by
  have atSelf := has self
  rw [owns_cons, Pi.add_apply, own_self] at atSelf
  unfold Heap.excess at atSelf
  have restNonneg := owns_nonneg consumed self
  have emptyNonneg := own_nonneg emptyArrayMap self
  refine ⟨by omega, ?_, ?_⟩
  · intro isConsumed
    have := List.count_pos_iff.mpr isConsumed
    unfold owns at atSelf
    omega
  · intro isEmpty
    rw [isEmpty, own_self] at atSelf
    rw [isEmpty] at isOne restNonneg
    omega

theorem Has.reference_present
    (has : Has heap consumed)
    {address : Address}
    {map : ArrayMap}
    (found : heap.object? address = some (.map map))
    {target : Address}
    (refers : target ∈ entryAddresses map.entries ∨
      target ∈ addresses map.metadata) :
    ∃ object, heap.object? target = some object :=
  Heap.object_of_reference has.nonneg found (List.mem_append.mpr refers)

/-- Nobody refers to a map that only the caller refers to. -/
theorem Has.not_referred
    {self : Address}
    (has : Has heap (self :: consumed))
    (isOne : heap.count self = 1)
    {source : Address}
    {object : Object}
    (found : heap.object? source = some object) :
    self ∉ Referencing.references object := by
  intro refers
  obtain ⟨cell, isCell, rfl⟩ := Option.map_eq_some_iff.mp found
  have refersFrom : self ∈ heap.referencesAt source := by
    rw [Heap.referencesAt, isCell]
    exact refers
  have positive := Heap.incoming_pos refersFrom
  rw [(has.sole isOne).1] at positive
  exact Nat.lt_irrefl 0 positive

end Has

/-! ## What an operation does -/

/-- The operation turns the consumed references into those of the outcome.
It changes no object that somebody else refers to, and the only map that is
new or changed is its result: one with different keys, all of which were
there before. -/
structure Serves
    (equals : MapHeap → RTValue → RTValue → Bool)
    (heap : MapHeap)
    (consumed : List Address)
    (outcome : Outcome)
    (result : Option (Address × Entries))
    (changed : Address → Prop)
    (after : MapHeap) : Prop where
  effect : Effect heap after (owns outcome.references - owns consumed) changed
  sole : ∀ address, changed address → heap.count address = 1 ∧
    consumed.head? = some address
  kept : ∀ address map, after.object? address = some (.map map) →
    (∃ entries, result = some (address, entries)) ∨
    heap.object? address = some (.map map)
  map : ∀ address entries, result = some (address, entries) →
    ∃ map, after.object? address = some (.map map) ∧ map.entries = entries
  distinct : ∀ address entries, result = some (address, entries) →
    AssocList.Distinct (equals heap) entries
  bound : ∀ address entries, result = some (address, entries) →
    entries.length ≤ ArrayMap.hashtableThreshold
  keys : ∀ address entries, result = some (address, entries) →
    ∀ entry ∈ entries, ∀ target ∈ addresses entry.1,
      ¬ changed target ∧ ∃ object, heap.object? target = some object

section Serving

variable
  {equals : MapHeap → RTValue → RTValue → Bool}
  {heap after : MapHeap}
  {consumed : List Address}
  {outcome : Outcome}

/-- An operation that writes no map. -/
theorem serves_of_since
    (since : Since heap after (owns outcome.references - owns consumed)
      (fun _ => False)
      fun address => ∀ map, after.object? address ≠ some (.map map)) :
    Serves equals heap consumed outcome none (fun _ => False) after where
  effect := since.effect
  sole := by simp
  kept := by
    intro address map found
    refine Or.inr (since.kept address _ found ?_)
    intro isOther
    exact isOther map found
  map := by simp
  distinct := by simp
  bound := by simp
  keys := by simp

/-- The keys of new entries: old ones, or such that the caller brings along. -/
def KeysFrom (map : ArrayMap) (brought : List Address)
    (entries : Entries) : Prop :=
  ∀ entry ∈ entries, ∀ target ∈ addresses entry.1,
    target ∈ entryAddresses map.entries ∨ target ∈ brought

variable
  {self : Address}
  {brought : List Address}
  {map : ArrayMap}
  {entries : Entries}

/-- The consumed references have become one to a map that was written. -/
structure Writes
    (heap : MapHeap)
    (consumed : List Address)
    (result : Address)
    (updated : ArrayMap)
    (changed : Address → Prop)
    (after : MapHeap) : Prop where
  since : Since heap after (own result - owns consumed) changed (· = result)
  stored : ∀ object, after.object? result = some object → object = .map updated

/-- A map is changed in place. -/
theorem serves_inPlace
    (has : Has heap (self :: brought))
    (found : heap.object? self = some (.map map))
    (isOne : heap.count self = 1)
    (writes : Writes heap (self :: brought) self { map with entries }
      (· = self) after)
    (distinct : AssocList.Distinct (equals heap) entries)
    (bound : entries.length ≤ ArrayMap.hashtableThreshold)
    (keys : KeysFrom map brought entries) :
    Serves equals heap (self :: brought) (.gives [self]) (some (self, entries))
      (· = self) after where
  effect := by
    apply writes.since.effect.weaken _ fun _ _ => id
    rw [Outcome.references, owns_cons self [], owns_nil, add_zero]
  sole := by
    rintro address rfl
    exact ⟨isOne, rfl⟩
  kept := by
    intro address other isThere
    by_cases isSelf : address = self
    · exact Or.inl ⟨entries, by rw [isSelf]⟩
    · exact Or.inr (writes.since.kept address _ isThere isSelf)
  map := by
    intro address written isResult
    cases isResult
    have owned : 0 < after.excess self := by
      have atSelf := has self
      rw [owns_cons, Pi.add_apply, own_self] at atSelf
      have := own_nonneg emptyArrayMap self
      rw [writes.since.effect.excess, Pi.sub_apply, owns_cons, Pi.add_apply,
        own_self]
      omega
    obtain ⟨object, isObject⟩ := Heap.object_of_owned owned
    rw [writes.stored object isObject] at isObject
    exact ⟨_, isObject, rfl⟩
  distinct := by
    intro address written isResult
    cases isResult
    exact distinct
  bound := by
    intro address written isResult
    cases isResult
    exact bound
  keys := by
    intro address written isResult entry isEntry target isTarget
    cases isResult
    rcases keys entry isEntry target isTarget with isOld | isBrought
    · refine ⟨?_, has.reference_present found (Or.inl isOld)⟩
      rintro rfl
      exact has.not_referred isOne found (List.mem_append_left _ isOld)
    · refine ⟨?_, has.present (List.mem_cons_of_mem _ isBrought)⟩
      rintro rfl
      exact (has.sole isOne).2.1 isBrought

/-- A map is new. -/
theorem serves_new
    {new : Address}
    (keys : ∀ entry ∈ entries, ∀ target ∈ addresses entry.1,
      ∃ object, heap.object? target = some object)
    (distinct : AssocList.Distinct (equals heap) entries)
    (bound : entries.length ≤ ArrayMap.hashtableThreshold)
    (stored : ∃ written, after.object? new = some (.map written) ∧
      written.entries = entries)
    (since : Since heap after (own new - owns consumed) (fun _ => False)
      (· = new)) :
    Serves equals heap consumed (.gives [new]) (some (new, entries))
      (fun _ => False) after where
  effect := by
    apply since.effect.weaken _ fun _ _ => id
    rw [Outcome.references, owns_cons new, owns_nil, add_zero]
  sole := by simp
  kept := by
    intro address other isThere
    by_cases isNew : address = new
    · exact Or.inl ⟨entries, by rw [isNew]⟩
    · exact Or.inr (since.kept address _ isThere isNew)
  map := by
    intro address written isResult
    cases isResult
    exact stored
  distinct := by
    intro address written isResult
    cases isResult
    exact distinct
  bound := by
    intro address written isResult
    cases isResult
    exact bound
  keys := by
    intro address written isResult entry isEntry target isTarget
    cases isResult
    exact ⟨id, keys entry isEntry target isTarget⟩

/-- A map is copied. -/
theorem serves_copy
    {new : Address}
    (has : Has heap (self :: brought))
    (found : heap.object? self = some (.map map))
    (writes : Writes heap (self :: brought) new { map with entries }
      (fun _ => False) after)
    (distinct : AssocList.Distinct (equals heap) entries)
    (bound : entries.length ≤ ArrayMap.hashtableThreshold)
    (keys : KeysFrom map brought entries) :
    Serves equals heap (self :: brought) (.gives [new]) (some (new, entries))
      (fun _ => False)
      after := by
  apply serves_new _ distinct bound _ writes.since
  · intro entry isEntry target isTarget
    rcases keys entry isEntry target isTarget with isOld | isBrought
    · exact has.reference_present found (Or.inl isOld)
    · exact has.present (List.mem_cons_of_mem _ isBrought)
  · have owned : 0 < after.excess new := by
      have atNew := has new
      have := own_nonneg emptyArrayMap new
      rw [writes.since.effect.excess, Pi.sub_apply, own_self]
      omega
    obtain ⟨object, isObject⟩ := Heap.object_of_owned owned
    rw [writes.stored object isObject] at isObject
    exact ⟨_, isObject, rfl⟩

end Serving

end PersistentArrayMap
end Runtime
end ClojureRt
