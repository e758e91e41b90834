import ClojureRt.Runtime.PersistentArrayMap.Operations

/-!
# Updates of array maps

`PersistentArrayMap_assoc` and `PersistentArrayMap_dissoc`, one branch after the
other: the map may have the key or not, and it may be changed in place or has to
be copied.
-/

namespace ClojureRt
namespace Runtime
namespace PersistentArrayMap

open RefCount RefCount.Program

/-! ## Addresses of updated entries -/

section Addresses

variable {compare : RTValue → RTValue → Bool} {key value : RTValue}
  {entries : Entries}

theorem mem_entryAddresses_assoc
    {address : Address}
    (isIn : address ∈
      entryAddresses (AssocList.assoc compare key value entries)) :
    address ∈ entryAddresses entries ∨
      address ∈ addresses key ++ addresses value := by
  obtain ⟨entry, isEntry, isPart⟩ := List.mem_flatMap.mp isIn
  rcases AssocList.mem_assoc isEntry with isOld | ⟨isValue, isKey⟩
  · exact Or.inl (List.mem_flatMap.mpr ⟨entry, isOld, isPart⟩)
  · rcases List.mem_append.mp isPart with inKey | inValue
    · rcases isKey with ⟨old, isOld, same⟩ | isNew
      · rw [← same] at inKey
        exact Or.inl (key_mem_entryAddresses isOld inKey)
      · rw [isNew] at inKey
        exact Or.inr (List.mem_append_left _ inKey)
    · rw [isValue] at inValue
      exact Or.inr (List.mem_append_right _ inValue)

theorem mem_entryAddresses_dissoc
    {address : Address}
    (isIn : address ∈ entryAddresses (AssocList.dissoc compare key entries)) :
    address ∈ entryAddresses entries := by
  obtain ⟨entry, isEntry, isPart⟩ := List.mem_flatMap.mp isIn
  exact List.mem_flatMap.mpr
    ⟨entry, (AssocList.dissoc_sublist key entries).subset isEntry, isPart⟩

theorem keysFrom_assoc {map : ArrayMap} :
    KeysFrom map (addresses key ++ addresses value)
      (AssocList.assoc compare key value map.entries) :=
  fun _ isEntry _ isTarget =>
    mem_entryAddresses_assoc (key_mem_entryAddresses isEntry isTarget)

theorem keysFrom_dissoc {map : ArrayMap} {brought : List Address} :
    KeysFrom map brought (AssocList.dissoc compare key map.entries) :=
  fun _ isEntry _ isTarget =>
    Or.inl (mem_entryAddresses_dissoc (key_mem_entryAddresses isEntry isTarget))

theorem assoc_of_none (absent : AssocList.indexOf compare key entries = none) :
    AssocList.assoc compare key value entries = entries ++ [(key, value)] := by
  rw [AssocList.assoc, absent]

theorem assoc_of_some {index : Nat}
    (found : AssocList.indexOf compare key entries = some index) :
    AssocList.assoc compare key value entries =
      entries.modify index fun entry => (entry.1, value) := by
  rw [AssocList.assoc, found]

theorem dissoc_of_some {index : Nat}
    (found : AssocList.indexOf compare key entries = some index) :
    AssocList.dissoc compare key entries = entries.eraseIdx index := by
  rw [AssocList.dissoc, found]

end Addresses

/-! ## `PersistentArrayMap_assoc` -/

section Assoc

variable
  {equals : MapHeap → RTValue → RTValue → Bool}
  {heap : MapHeap}
  {self : Address}
  {key value : RTValue}
  {map : ArrayMap}

/-- The keys of the map and another one. -/
def KeysOf (map : ArrayMap) (key : RTValue) : RTValue → Prop :=
  fun other => other = key ∨ ∃ entry ∈ map.entries, entry.1 = other

theorem within_keysOf : AssocList.Within (KeysOf map key) map.entries :=
  fun entry isEntry => Or.inr ⟨entry, isEntry, rfl⟩

/-- What holds before an update of a map. -/
structure Ready
    (equals : MapHeap → RTValue → RTValue → Bool)
    (heap : MapHeap)
    (address : Address)
    (key : RTValue)
    (map : ArrayMap) : Prop where
  framed : Framed equals
  found : heap.object? address = some (.map map)
  equivalence : AssocList.IsEquivalenceOn (KeysOf map key) (equals heap)
  distinct : AssocList.Distinct (equals heap) map.entries
  bound : map.entries.length ≤ ArrayMap.hashtableThreshold

/-- The map is full, and the key is new. -/
def Full
    (equals : MapHeap → RTValue → RTValue → Bool)
    (heap : MapHeap)
    (key : RTValue)
    (map : ArrayMap) : Prop :=
  AssocList.indexOf (equals heap) key map.entries = none ∧
    ArrayMap.hashtableThreshold ≤ map.entries.length

/-- What `PersistentArrayMap_assoc` comes to. -/
inductive AssocDone
    (equals : MapHeap → RTValue → RTValue → Bool)
    (heap : MapHeap)
    (self : Address)
    (key value : RTValue)
    (map : ArrayMap) : Except Exception Address → MapHeap → Prop
  | thrown (after : MapHeap) (isFull : Full equals heap key map)
      (serves : Serves equals heap (self :: (addresses key ++ addresses value))
        (.throws tooLarge) none (fun _ => False) after) :
      AssocDone equals heap self key value map (.error tooLarge) after
  | done (after : MapHeap) (address : Address) (changed : Address → Prop)
      (notFull : ¬ Full equals heap key map)
      (serves : Serves equals heap (self :: (addresses key ++ addresses value))
        (.gives [address])
        (some (address, AssocList.assoc (equals heap) key value map.entries))
        changed after) :
      AssocDone equals heap self key value map (.ok address) after

/-- Retaining, searching and releasing leaves the heap as it was. -/
theorem runs_search
    (blind : CountBlind equals)
    {rest : List Address}
    (has : Has heap (self :: (addresses key ++ rest)))
    (found : heap.object? self = some (.map map))
    {β : Type}
    {next : Option Nat → Code β}
    {post : β → MapHeap → Prop}
    (holds : Runs (next (AssocList.indexOf (equals heap) key map.entries))
      heap post) :
    Runs (do
      retain self
      retainValue key
      let found ← indexOf equals self key
      next found) heap post := by
  have keyConsumed (address : Address) (isIn : address ∈ addresses key) :
      address ∈ self :: (addresses key ++ rest) :=
    List.mem_cons_of_mem _ (List.mem_append_left _ isIn)
  rw [← Heap.raise_zero heap]
  apply Runs.bind
  apply runs_retain_raise ⟨_, found⟩
  apply Runs.bind
  apply runs_retainValue_raise fun address isIn =>
    has.present (keyConsumed address isIn)
  apply Runs.bind
  rw [add_assoc, add_comm (one self), ← add_assoc]
  apply runs_indexOf_raise blind found (has.count_pos List.mem_cons_self)
  apply runs_releaseValue_raise fun address isIn =>
    has.count_pos (keyConsumed address isIn)
  rwa [Heap.raise_zero]

theorem owns_brought :
    owns (addresses key ++ addresses value) = refs key + refs value :=
  owns_append _ _

/-- A full map: all that was brought is given up. -/
theorem runs_assocFull
    (has : Has heap (self :: (addresses key ++ addresses value))) :
    Runs (do
      release self
      releaseValue key
      releaseValue value
      pure (.error tooLarge)) heap
        fun (result : Except Exception Address) after =>
        result = .error tooLarge ∧
          Since heap after (-owns (self :: (addresses key ++ addresses value)))
            (fun _ => False) fun _ => False := by
  have all := has
  unfold Has at all
  simp only [owns_cons, owns_brought, Pi.add_apply] at all
  apply Runs.bind
  apply runs_release (Since.refl heap)
  · intro other
    have := all other
    have := refs_nonneg key other
    have := refs_nonneg value other
    have := own_nonneg emptyArrayMap other
    rw [Pi.zero_apply]
    omega
  intro first _ firstSince
  apply Runs.bind
  apply runs_releaseValue firstSince
  · intro other
    have := all other
    have := refs_nonneg value other
    have := own_nonneg emptyArrayMap other
    rw [Pi.sub_apply, Pi.zero_apply]
    omega
  intro second _ secondSince
  apply Runs.bind
  apply runs_releaseValue secondSince
  · intro other
    have := all other
    have := own_nonneg emptyArrayMap other
    rw [Pi.sub_apply, Pi.sub_apply, Pi.zero_apply]
    omega
  intro after _ since
  apply Runs.pure
  refine ⟨rfl, since.weaken ?_ (fun _ => id) fun _ => id⟩
  rw [owns_cons, owns_brought]
  abel

/-- A new key in a map that is changed in place. -/
theorem runs_assocNew_inPlace (found : heap.object? self = some (.map map)) :
    Runs (do
      store self (.map { map with entries := map.entries ++ [(key, value)] })
      pure (.ok self)) heap fun (result : Except Exception Address) after =>
        result = .ok self ∧
          Writes heap (self :: (addresses key ++ addresses value)) self
            { map with entries := map.entries ++ [(key, value)] } (· = self)
              after := by
  apply Runs.bind
  apply runs_store (Since.refl heap) found
  intro after stored _ since
  apply Runs.pure
  refine ⟨rfl, ⟨since.weaken ?_ (by simp) (by simp), ?_⟩⟩
  · rw [owns_references_map, owns_references_map, owns_cons, owns_brought]
    simp only [refsEntries_append, refsEntries_cons, refsEntries_nil]
    abel
  · intro object isObject
    rw [stored, Option.some.injEq] at isObject
    exact isObject.symm

/-- A copy with its children. -/
theorem runs_copyRetaining
    {rest : List Address}
    (has : Has heap (self :: rest))
    (found : heap.object? self = some (.map map))
    {entries : Entries}
    {except : Option Nat}
    (present : ∀ address ∈ entryAddresses entries, ∃ object,
      heap.object? address = some object)
    {β : Type}
    {next : Address → Code β}
    {post : β → MapHeap → Prop}
    (holds : ∀ after,
      after.object? heap.next = some (.map { map with entries }) →
      (∀ other, other ≠ heap.next → after.object? other = heap.object? other) →
      Since heap after
        (own heap.next - refsEntries entries + retainedChildren entries
          0 except)
        (fun _ => False) (· = heap.next) → Runs (next heap.next) after post) :
    Runs (do
      let retVal ← copy map entries
      retainChildren entries 0 except
      next retVal) heap post := by
  apply Runs.bind
  apply runs_copy (Since.refl heap)
    fun address isIn => has.reference_present found (Or.inr isIn)
  intro middle stored others copied
  apply Runs.bind
  apply runs_retainChildren copied
  · intro address isIn
    by_cases isNew : address = heap.next
    · rw [isNew]
      exact ⟨_, stored⟩
    · rw [others address isNew]
      exact present address isIn
  · intro after same since
    apply holds after
    · rw [same, stored]
    · rw [same]
      exact others
    · apply since.weaken _ (fun _ => id)
      · rintro address (never | isNew)
        · exact never.elim
        · exact isNew
      · rw [zero_add]

/-- What the updated entries refer to is there. -/
theorem assoc_present
    {compare : RTValue → RTValue → Bool}
    (found : heap.object? self = some (.map map))
    (has : Has heap (self :: (addresses key ++ addresses value)))
    {address : Address}
    (isIn : address ∈
      entryAddresses (AssocList.assoc compare key value map.entries)) :
    ∃ object, heap.object? address = some object := by
  rcases mem_entryAddresses_assoc isIn with isOld | isBrought
  · exact has.reference_present found (Or.inl isOld)
  · exact has.present (List.mem_cons_of_mem _ isBrought)

/-- A new key in a copy. -/
theorem runs_assocNew_copy
    {compare : RTValue → RTValue → Bool}
    (found : heap.object? self = some (.map map))
    (has : Has heap (self :: (addresses key ++ addresses value)))
    (absent : AssocList.indexOf compare key map.entries = none)
    (retained : ∀ entry ∈ map.entries, Retained entry) :
    Runs (do
      let retVal ← copy map (map.entries ++ [(key, value)])
      retainChildren (map.entries ++ [(key, value)]) 0 (some map.entries.length)
      release self
      pure (.ok retVal)) heap fun (result : Except Exception Address) after =>
        result = .ok heap.next ∧
          Writes heap (self :: (addresses key ++ addresses value)) heap.next
            { map with entries := map.entries ++ [(key, value)] }
              (fun _ => False) after := by
  have isAssoc : AssocList.assoc compare key value map.entries =
      map.entries ++ [(key, value)] := assoc_of_none absent
  have atEnd : (map.entries ++ [(key, value)])[map.entries.length]? =
      some (key, value) := by
    simp
  have kept (j : Nat) (other : RTValue × RTValue)
      (different : j ≠ map.entries.length)
      (isOther : (map.entries ++ [(key, value)])[j]? = some other) :
      Retained other := by
    rcases Nat.lt_or_gt_of_ne different with below | above
    · rw [List.getElem?_append_left below] at isOther
      exact retained other (List.mem_of_getElem? isOther)
    · rw [List.getElem?_eq_none (by simp; omega)] at isOther
      cases isOther
  have children := retainedChildren_except atEnd kept 0
  rw [Nat.zero_add] at children
  have change : own heap.next - refsEntries (map.entries ++ [(key, value)]) +
      retainedChildren (map.entries ++ [(key, value)]) 0
        (some map.entries.length) =
        own heap.next - refs key - refs value := by
    rw [← children]
    abel
  apply runs_copyRetaining has found
  · rw [← isAssoc]
    exact fun address isIn => assoc_present found has isIn
  intro middle stored _ copied
  rw [change] at copied
  apply Runs.bind
  apply runs_release copied
  · intro other
    have atOther := has other
    rw [owns_cons, owns_brought, Pi.add_apply, Pi.add_apply] at atOther
    have := own_nonneg emptyArrayMap other
    have := own_nonneg heap.next other
    rw [Pi.sub_apply, Pi.sub_apply]
    omega
  intro after keptBack since
  apply Runs.pure
  refine ⟨rfl, ⟨since.weaken ?_ (fun _ => id) (fun _ => id), ?_⟩⟩
  · rw [owns_cons, owns_brought]
    abel
  · intro object isObject
    have there := keptBack _ _ isObject
    rw [stored, Option.some.injEq] at there
    exact there.symm

theorem notFull_of_found
    {index : Nat}
    (found : AssocList.indexOf (equals heap) key map.entries = some index) :
    ¬ Full equals heap key map := by
  rintro ⟨absent, _⟩
  rw [found] at absent
  cases absent

/-- A key that the map has, in a map that is changed in place. -/
theorem runs_assocFound_inPlace
    (found : heap.object? self = some (.map map))
    (has : Has heap (self :: (addresses key ++ addresses value)))
    {index : Nat}
    {old : RTValue × RTValue}
    (isOld : map.entries[index]? = some old) :
    Runs (do
      store self (.map { map with
        entries := map.entries.modify index fun entry => (entry.1, value) })
      releaseValue old.2
      releaseValue key
      pure (.ok self)) heap fun (result : Except Exception Address) after =>
        result = .ok self ∧
          Writes heap (self :: (addresses key ++ addresses value)) self
            { map with entries := map.entries.modify index fun entry => (entry.1, value) }
            (· = self) after := by
  have all := has
  unfold Has at all
  simp only [owns_cons, owns_brought, Pi.add_apply] at all
  have change : 0 + (owns (Referencing.references (Object.map map)) -
      owns (Referencing.references (Object.map { map with
        entries := map.entries.modify index fun entry => (entry.1, value) }))) =
        refs old.2 - refs value := by
    have refsOld : refsEntries map.entries = refsEntries
        (map.entries.modify index fun entry => (entry.1, value)) + refs old.2 -
        refs value := by
      rw [refsEntries_modify isOld value]
      abel
    rw [owns_references_map, owns_references_map]
    simp only [refsOld]
    abel
  apply Runs.bind
  apply runs_store (Since.refl heap) found
  intro first stored _ firstSince
  rw [change] at firstSince
  apply Runs.bind
  apply runs_releaseValue firstSince
  · intro other
    have := all other
    have := refs_nonneg key other
    have := own_nonneg self other
    have := own_nonneg emptyArrayMap other
    rw [Pi.sub_apply]
    omega
  intro second keptFirst secondSince
  apply Runs.bind
  apply runs_releaseValue secondSince
  · intro other
    have := all other
    have := own_nonneg self other
    have := own_nonneg emptyArrayMap other
    rw [Pi.sub_apply, Pi.sub_apply]
    omega
  intro after keptSecond since
  apply Runs.pure
  refine ⟨rfl, ⟨since.weaken ?_ (by simp) (by simp), ?_⟩⟩
  · rw [owns_cons, owns_brought]
    abel
  · intro object isObject
    have there := keptFirst _ _ (keptSecond _ _ isObject)
    rw [stored, Option.some.injEq] at there
    exact there.symm

/-- A key that the map has, in a copy. -/
theorem runs_assocFound_copy
    {compare : RTValue → RTValue → Bool}
    (found : heap.object? self = some (.map map))
    (has : Has heap (self :: (addresses key ++ addresses value)))
    {index : Nat}
    (isIndex : AssocList.indexOf compare key map.entries = some index)
    {old : RTValue × RTValue}
    (isOld : map.entries[index]? = some old)
    (retained : ∀ j entry, j ≠ index → map.entries[j]? = some entry →
      Retained entry) :
    Runs (do
      let retVal ← copy map
        (map.entries.modify index fun entry => (entry.1, value))
      retainChildren (map.entries.modify index fun entry => (entry.1, value)) 0
        (some index)
      retainValue old.1
      release self
      releaseValue key
      pure (.ok retVal)) heap fun (result : Except Exception Address) after =>
        result = .ok heap.next ∧
          Writes heap (self :: (addresses key ++ addresses value)) heap.next
            { map with entries := map.entries.modify index fun entry => (entry.1, value) }
            (fun _ => False) after := by
  have isAssoc : AssocList.assoc compare key value map.entries =
      map.entries.modify index fun entry => (entry.1, value) :=
        assoc_of_some isIndex
  have all := has
  unfold Has at all
  simp only [owns_cons, owns_brought, Pi.add_apply] at all
  have isNew :
    (map.entries.modify index fun entry => (entry.1, value))[index]? =
      some (old.1, value) := by
    rw [List.getElem?_modify_eq, isOld]
    rfl
  have kept (j : Nat) (other : RTValue × RTValue) (different : j ≠ index)
      (isOther : (map.entries.modify index fun entry => (entry.1, value))[j]? =
        some other) :
      Retained other := by
    rw [List.getElem?_modify_ne _ _ different.symm] at isOther
    exact retained j other different isOther
  have children := retainedChildren_except isNew kept 0
  rw [Nat.zero_add] at children
  have change : own heap.next -
      refsEntries (map.entries.modify index fun entry => (entry.1, value)) +
      retainedChildren (map.entries.modify index fun entry => (entry.1, value))
        0 (some index) =
        own heap.next - refs old.1 - refs value := by
    rw [← children]
    abel
  apply runs_copyRetaining has found
  · rw [← isAssoc]
    exact fun address isIn => assoc_present found has isIn
  intro first stored others copied
  rw [change] at copied
  apply Runs.bind
  apply runs_retainValue copied
  · intro address isIn
    by_cases isCopy : address = heap.next
    · rw [isCopy]
      exact ⟨_, stored⟩
    · rw [others address isCopy]
      apply has.reference_present found
      exact Or.inl (key_mem_entryAddresses (List.mem_of_getElem? isOld) isIn)
  intro second sameSecond secondSince
  apply Runs.bind
  apply runs_release secondSince
  · intro other
    have := all other
    have := refs_nonneg key other
    have := own_nonneg heap.next other
    have := own_nonneg emptyArrayMap other
    simp only [Pi.add_apply, Pi.sub_apply]
    omega
  intro third keptSecond thirdSince
  apply Runs.bind
  apply runs_releaseValue thirdSince
  · intro other
    have := all other
    have := own_nonneg heap.next other
    have := own_nonneg emptyArrayMap other
    simp only [Pi.add_apply, Pi.sub_apply]
    omega
  intro after keptThird since
  apply Runs.pure
  refine ⟨rfl, ⟨since.weaken ?_ (fun _ => id) (fun _ => id), ?_⟩⟩
  · rw [owns_cons, owns_brought]
    abel
  · intro object isObject
    have there := keptSecond _ _ (keptThird _ _ isObject)
    rw [sameSecond, stored, Option.some.injEq] at there
    exact there.symm

/-- What `PersistentArrayMap_assoc` does to the counts and to its map. -/
inductive AssocWrites
    (equals : MapHeap → RTValue → RTValue → Bool)
    (heap : MapHeap)
    (self : Address)
    (key value : RTValue)
    (map : ArrayMap) : Except Exception Address → MapHeap → Prop
  | full (after : MapHeap) (isFull : Full equals heap key map)
      (since : Since heap after
        (-owns (self :: (addresses key ++ addresses value)))
        (fun _ => False) fun _ => False) :
      AssocWrites equals heap self key value map (.error tooLarge) after
  | inPlace (after : MapHeap)
      (notFull : ¬ Full equals heap key map)
      (isOne : heap.count self = 1)
      (writes : Writes heap (self :: (addresses key ++ addresses value)) self
        { map with
          entries := AssocList.assoc (equals heap) key value map.entries }
        (· = self) after) :
      AssocWrites equals heap self key value map (.ok self) after
  | copied (after : MapHeap)
      (notFull : ¬ Full equals heap key map)
      (writes : Writes heap (self :: (addresses key ++ addresses value))
        heap.next
        { map with
          entries := AssocList.assoc (equals heap) key value map.entries }
        (fun _ => False) after) :
      AssocWrites equals heap self key value map (.ok heap.next) after

/-- `PersistentArrayMap_assoc`, unless it copies a map with an entry that it
does not retain. -/
theorem runs_assocWrites
    (blind : CountBlind equals)
    (found : heap.object? self = some (.map map))
    (has : Has heap (self :: (addresses key ++ addresses value)))
    (retained : heap.count self ≠ 1 → ¬ Full equals heap key map →
      ∀ j entry, AssocList.indexOf (equals heap) key map.entries ≠ some j →
        map.entries[j]? = some entry → Retained entry) :
    Runs (assoc equals self key value) heap
      (AssocWrites equals heap self key value map) := by
  unfold assoc
  apply runs_search blind has found
  apply Runs.bind
  apply Runs.isReusable found
  apply Runs.bind
  apply runs_loadMap found
  cases isIndex : AssocList.indexOf (equals heap) key map.entries with
  | none =>
      by_cases isLarge : ArrayMap.hashtableThreshold ≤ map.entries.length
      · simp only [if_pos isLarge]
        apply (runs_assocFull has).mono
        rintro result after ⟨rfl, since⟩
        exact .full after ⟨isIndex, isLarge⟩ since
      have notFull : ¬ Full equals heap key map :=
        fun isFull => isLarge isFull.2
      simp only [if_neg isLarge]
      cases isOne : heap.count self == 1 with
      | true =>
          apply (runs_assocNew_inPlace found).mono
          rintro result after ⟨rfl, writes⟩
          rw [← assoc_of_none isIndex] at writes
          exact .inPlace after notFull (beq_iff_eq.mp isOne) writes
      | false =>
          have allRetained (entry : RTValue × RTValue)
              (isEntry : entry ∈ map.entries) :
              Retained entry := by
            obtain ⟨j, isJ⟩ := List.mem_iff_getElem?.mp isEntry
            exact retained (beq_eq_false_iff_ne.mp isOne) notFull j entry
              (by simp [isIndex]) isJ
          apply (runs_assocNew_copy found has isIndex allRetained).mono
          rintro result after ⟨rfl, writes⟩
          rw [← assoc_of_none isIndex] at writes
          exact .copied after notFull writes
  | some index =>
      obtain ⟨old, isOld, _⟩ := AssocList.getElem?_indexOf isIndex
      have notFull := notFull_of_found isIndex
      apply Runs.bind
      apply runs_entryAt isOld
      cases isOne : heap.count self == 1 with
      | true =>
          apply (runs_assocFound_inPlace found has isOld).mono
          rintro result after ⟨rfl, writes⟩
          rw [← assoc_of_some isIndex] at writes
          exact .inPlace after notFull (beq_iff_eq.mp isOne) writes
      | false =>
          have othersRetained (j : Nat) (entry : RTValue × RTValue)
              (different : j ≠ index)
              (isJ : map.entries[j]? = some entry) : Retained entry := by
            apply retained (beq_eq_false_iff_ne.mp isOne) notFull j entry _ isJ
            rw [isIndex, ne_eq, Option.some.injEq]
            exact different.symm
          apply (runs_assocFound_copy found has isIndex isOld
            othersRetained).mono
          rintro result after ⟨rfl, writes⟩
          rw [← assoc_of_some isIndex] at writes
          exact .copied after notFull writes

theorem Ready.distinct_assoc (ready : Ready equals heap self key map)
    (value : RTValue) :
    AssocList.Distinct (equals heap)
      (AssocList.assoc (equals heap) key value map.entries) :=
  AssocList.distinct_assoc ready.equivalence (Or.inl rfl) value within_keysOf
    ready.distinct

/-- A key that the map lacks, with room for it. -/
theorem Ready.bound_new
    (ready : Ready equals heap self key map)
    (notFull : ¬ Full equals heap key map)
    (value : RTValue) :
    (AssocList.assoc (equals heap) key value map.entries).length ≤
      ArrayMap.hashtableThreshold := by
  have := ready.bound
  cases found : AssocList.indexOf (equals heap) key map.entries with
  | none =>
      rw [assoc_of_none found, List.length_append, List.length_singleton]
      have room : ¬ ArrayMap.hashtableThreshold ≤ map.entries.length :=
        fun isFull => notFull ⟨found, isFull⟩
      omega
  | some index =>
      rw [assoc_of_some found, List.length_modify]
      exact this

/-- In a map with different keys, the entries that are not at the index of the
key have other keys. -/
theorem Ready.other_key
    (ready : Ready equals heap self key map)
    {j : Nat}
    {entry : RTValue × RTValue}
    (different : AssocList.indexOf (equals heap) key map.entries ≠ some j)
    (isJ : map.entries[j]? = some entry) : equals heap key entry.1 = false := by
  cases found : AssocList.indexOf (equals heap) key map.entries with
  | none =>
      exact List.findIdx?_eq_none_iff.mp found entry (List.mem_of_getElem? isJ)
  | some index =>
      rw [found, ne_eq, Option.some.injEq] at different
      exact AssocList.eq_false_of_ne_indexOf ready.equivalence (Or.inl rfl)
        within_keysOf ready.distinct found (fun same => different same.symm) isJ

/-- `PersistentArrayMap_assoc`, unless it copies a map with an entry that it
does not retain. -/
theorem runs_assoc
    (ready : Ready equals heap self key map)
    (has : Has heap (self :: (addresses key ++ addresses value)))
    (retained : heap.count self ≠ 1 → ¬ Full equals heap key map →
      ∀ entry ∈ map.entries, equals heap key entry.1 = false → Retained entry) :
    Runs (assoc equals self key value) heap
      (AssocDone equals heap self key value map) := by
  have othersRetained (shared : heap.count self ≠ 1)
      (notFull : ¬ Full equals heap key map)
      (j : Nat) (entry : RTValue × RTValue)
      (different : AssocList.indexOf (equals heap) key map.entries ≠ some j)
      (isJ : map.entries[j]? = some entry) : Retained entry :=
    retained shared notFull entry (List.mem_of_getElem? isJ)
      (ready.other_key different isJ)
  apply (runs_assocWrites ready.framed.countBlind ready.found has
    othersRetained).mono
  intro result after done
  cases done with
  | full _ isFull since =>
      apply AssocDone.thrown after isFull
      apply serves_of_since
      apply since.weaken _ (fun _ => id) (fun _ => False.elim)
      rw [Outcome.references, owns_nil, zero_sub]
  | inPlace _ notFull isOne writes =>
      apply AssocDone.done after self (· = self) notFull
      exact serves_inPlace has ready.found isOne writes
        (ready.distinct_assoc value)
        (ready.bound_new notFull value) keysFrom_assoc
  | copied _ notFull writes =>
      apply AssocDone.done after heap.next (fun _ => False) notFull
      exact serves_copy has ready.found writes (ready.distinct_assoc value)
        (ready.bound_new notFull value) keysFrom_assoc

end Assoc

/-! ## `PersistentArrayMap_dissoc` -/

section Dissoc

variable
  {equals : MapHeap → RTValue → RTValue → Bool}
  {heap : MapHeap}
  {self : Address}
  {key : RTValue}
  {map : ArrayMap}

/-- A map stays as it is and goes to the caller. -/
theorem serves_same
    {consumed : List Address}
    {after : MapHeap}
    (has : Has heap consumed)
    (found : heap.object? self = some (.map map))
    (distinct : AssocList.Distinct (equals heap) map.entries)
    (bound : map.entries.length ≤ ArrayMap.hashtableThreshold)
    (since : Since heap after (own self - owns consumed) (fun _ => False)
      fun _ => False)
    (isThere : after.object? self = some (.map map)) :
    Serves equals heap consumed (.gives [self]) (some (self, map.entries))
      (fun _ => False) after where
  effect := by
    apply since.effect.weaken _ fun _ _ => id
    rw [Outcome.references, owns_cons, owns_nil, add_zero]
  sole := by simp
  kept := fun address other stored => Or.inr (since.kept address _ stored id)
  map := by
    intro address written isResult
    cases isResult
    exact ⟨map, isThere, rfl⟩
  distinct := by
    intro address written isResult
    cases isResult
    exact distinct
  bound := by
    intro address written isResult
    cases isResult
    exact bound
  keys := by
    intro address written isResult entry isEntry target isTarget
    cases isResult
    exact ⟨id,
      has.reference_present found
        (Or.inl (key_mem_entryAddresses isEntry isTarget))⟩

/-- An entry that goes, in a map that is changed in place. -/
theorem runs_dissocFound_inPlace
    (found : heap.object? self = some (.map map))
    (has : Has heap [self])
    {index : Nat}
    {old : RTValue × RTValue}
    (isOld : map.entries[index]? = some old) :
    Runs (do
      store self (.map { map with entries := map.entries.eraseIdx index })
      releaseValue old.1
      releaseValue old.2
      pure self) heap fun result after =>
        result = self ∧
          Writes heap [self] self
            { map with entries := map.entries.eraseIdx index } (· = self)
            after := by
  have nonneg := has.nonneg
  have change : 0 + (owns (Referencing.references (Object.map map)) -
      owns (Referencing.references (Object.map { map with
        entries := map.entries.eraseIdx index }))) = refs old.1 +
          refs old.2 := by
    rw [owns_references_map, owns_references_map]
    simp only [← refsEntries_eraseIdx isOld]
    abel
  apply Runs.bind
  apply runs_store (Since.refl heap) found
  intro first stored _ firstSince
  rw [change] at firstSince
  apply Runs.bind
  apply runs_releaseValue firstSince
  · intro other
    have := nonneg other
    have := refs_nonneg old.2 other
    rw [Pi.add_apply]
    omega
  intro second keptFirst secondSince
  apply Runs.bind
  apply runs_releaseValue secondSince
  · intro other
    have := nonneg other
    simp only [Pi.add_apply, Pi.sub_apply]
    omega
  intro after keptSecond since
  apply Runs.pure
  refine ⟨rfl, ⟨since.weaken ?_ (by simp) (by simp), ?_⟩⟩
  · rw [owns_cons, owns_nil]
    abel
  · intro object isObject
    have there := keptFirst _ _ (keptSecond _ _ isObject)
    rw [stored, Option.some.injEq] at there
    exact there.symm

/-- An entry that goes, in a copy. -/
theorem runs_dissocFound_copy
    (found : heap.object? self = some (.map map))
    (has : Has heap [self])
    {index : Nat}
    (retained : ∀ entry ∈ map.entries.eraseIdx index, Retained entry) :
    Runs (do
      let retVal ← copy map (map.entries.eraseIdx index)
      retainChildren (map.entries.eraseIdx index) 0 none
      release self
      pure retVal) heap fun result after =>
        result = heap.next ∧
          Writes heap [self] heap.next
            { map with entries := map.entries.eraseIdx index }
            (fun _ => False) after := by
  have children : retainedChildren (map.entries.eraseIdx index) 0 none =
      refsEntries (map.entries.eraseIdx index) := by
    apply retainedChildren_of_lt retained
    intro j isJ
    cases isJ
  apply runs_copyRetaining has found
  · intro address isIn
    obtain ⟨entry, isEntry, isPart⟩ := List.mem_flatMap.mp isIn
    have isOld : address ∈ entryAddresses map.entries :=
      List.mem_flatMap.mpr ⟨entry, List.mem_of_mem_eraseIdx isEntry, isPart⟩
    exact has.reference_present found (Or.inl isOld)
  intro middle stored _ copied
  rw [children, sub_add_cancel] at copied
  apply Runs.bind
  apply runs_release copied
  · intro other
    have atOther := has other
    rw [owns_cons, owns_nil, Pi.add_apply, Pi.zero_apply] at atOther
    have := own_nonneg emptyArrayMap other
    have := own_nonneg heap.next other
    omega
  intro after keptBack since
  apply Runs.pure
  refine ⟨rfl, ⟨since.weaken ?_ (fun _ => id) (fun _ => id), ?_⟩⟩
  · rw [owns_cons, owns_nil, add_zero]
  · intro object isObject
    have there := keptBack _ _ isObject
    rw [stored, Option.some.injEq] at there
    exact there.symm

/-- What `PersistentArrayMap_dissoc` does to the counts and to its map after the
key is given up. -/
inductive DissocWrites
    (compare : RTValue → RTValue → Bool)
    (self : Address)
    (key : RTValue)
    (map : ArrayMap)
    (middle : MapHeap) : Address → MapHeap → Prop
  | absent (isAbsent : AssocList.indexOf compare key map.entries = none) :
      DissocWrites compare self key map middle self middle
  | inPlace (after : MapHeap) (isOne : middle.count self = 1)
      (writes : Writes middle [self] self
        { map with entries := AssocList.dissoc compare key map.entries }
          (· = self) after) :
      DissocWrites compare self key map middle self after
  | copied (after : MapHeap)
      (writes : Writes middle [self] middle.next
        { map with entries := AssocList.dissoc compare key map.entries }
          (fun _ => False) after) :
      DissocWrites compare self key map middle middle.next after

/-- The key goes first. -/
structure KeyReleased
    (heap : MapHeap)
    (address : Address)
    (key : RTValue)
    (map : ArrayMap)
    (middle : MapHeap) : Prop where
  since : Since heap middle (-refs key) (fun _ => False) fun _ => False
  has : Has middle [address]
  found : middle.object? address = some (.map map)

theorem runs_releaseKey
    (found : heap.object? self = some (.map map))
    (has : Has heap (self :: addresses key)) :
    Runs (releaseValue key) heap fun _ middle =>
      KeyReleased heap self key map middle := by
  apply runs_releaseValue (Since.refl heap)
  · intro other
    have atOther := has other
    rw [owns_cons, Pi.add_apply] at atOther
    have := own_nonneg self other
    have := own_nonneg emptyArrayMap other
    rw [Pi.zero_apply, add_zero]
    unfold refs
    omega
  intro middle keptBack since
  have hasMiddle : Has middle [self] := by
    intro other
    have atOther := has other
    rw [owns_cons, Pi.add_apply] at atOther
    rw [owns_cons, owns_nil, add_zero, since.effect.excess, Pi.sub_apply,
      Pi.zero_apply]
    unfold refs
    omega
  refine ⟨?_, hasMiddle, ?_⟩
  · apply since.weaken _ (fun _ => id) fun _ => id
    rw [zero_sub]
  · obtain ⟨object, isObject⟩ := hasMiddle.present List.mem_cons_self
    have there := keptBack self object isObject
    rw [found, Option.some.injEq] at there
    rw [isObject, there]

/-- `PersistentArrayMap_dissoc`, unless it copies a map with an entry that it
does not retain. -/
theorem runs_dissocWrites
    (blind : CountBlind equals)
    (found : heap.object? self = some (.map map))
    (has : Has heap (self :: addresses key))
    (retained : ∀ middle, releaseValue key heap = some ((), middle) →
      middle.count self ≠ 1 →
      ∀ index, AssocList.indexOf (equals heap) key map.entries = some index →
        ∀ j entry, index ≠ j → map.entries[j]? = some entry → Retained entry) :
    Runs (dissoc equals self key) heap fun result after =>
      ∃ middle, KeyReleased heap self key map middle ∧
        DissocWrites (equals heap) self key map middle result after := by
  obtain ⟨_, middle, isMiddle, released⟩ := runs_releaseKey found has
  unfold dissoc
  rw [← Heap.raise_zero heap]
  apply Runs.bind
  apply runs_retain_raise ⟨_, found⟩
  apply Runs.bind
  apply runs_indexOf_raise blind found (has.count_pos List.mem_cons_self)
  rw [Heap.raise_zero]
  refine ⟨(), middle, isMiddle, ?_⟩
  cases isIndex : AssocList.indexOf (equals heap) key map.entries with
  | none => exact Runs.pure ⟨middle, released, .absent isIndex⟩
  | some index =>
      have isDissoc := dissoc_of_some isIndex
      obtain ⟨old, isOld, _⟩ := AssocList.getElem?_indexOf isIndex
      apply Runs.bind
      apply Runs.isReusable released.found
      apply Runs.bind
      apply runs_loadMap released.found
      apply Runs.bind
      apply runs_entryAt isOld
      cases isOne : middle.count self == 1 with
      | true =>
          apply (runs_dissocFound_inPlace released.found released.has
            isOld).mono
          rintro result after ⟨rfl, writes⟩
          rw [← isDissoc] at writes
          exact ⟨middle, released, .inPlace after (beq_iff_eq.mp isOne) writes⟩
      | false =>
          have othersRetained (entry : RTValue × RTValue)
              (isEntry : entry ∈ map.entries.eraseIdx index) :
              Retained entry := by
            obtain ⟨j, different, isJ⟩ :=
              List.mem_eraseIdx_iff_getElem?.mp isEntry
            exact retained middle isMiddle (beq_eq_false_iff_ne.mp isOne) index
              isIndex j entry different.symm isJ
          apply (runs_dissocFound_copy released.found released.has
            othersRetained).mono
          rintro result after ⟨rfl, writes⟩
          rw [← isDissoc] at writes
          exact ⟨middle, released, .copied after writes⟩

/-- What `PersistentArrayMap_dissoc` comes to: first the key goes, then the
entry. -/
structure DissocDone
    (equals : MapHeap → RTValue → RTValue → Bool)
    (heap : MapHeap)
    (address : Address)
    (key : RTValue)
    (map : ArrayMap)
    (result : Address)
    (after : MapHeap) : Prop where
  phases : ∃ middle,
    Serves equals heap (addresses key) (.gives []) none (fun _ => False)
      middle ∧
    (AssocList.Distinct (equals middle) map.entries →
      ∃ changed, Serves equals middle [address] (.gives [result])
        (some (result, AssocList.dissoc (equals heap) key map.entries))
        changed after)

/-- `PersistentArrayMap_dissoc`, unless it copies a map with an entry that it
does not retain. -/
theorem runs_dissoc
    (ready : Ready equals heap self key map)
    (has : Has heap (self :: addresses key))
    (retained : ∀ middle, releaseValue key heap = some ((), middle) →
      middle.count self ≠ 1 →
      AssocList.indexOf (equals heap) key map.entries ≠ none →
      ∀ entry ∈ map.entries, equals heap key entry.1 = false → Retained entry) :
    Runs (dissoc equals self key) heap
      (DissocDone equals heap self key map) := by
  have shorter :
      (AssocList.dissoc (equals heap) key map.entries).Sublist map.entries :=
    AssocList.dissoc_sublist key map.entries
  have bound := shorter.length_le.trans ready.bound
  have othersRetained (middle : MapHeap)
      (isMiddle : releaseValue key heap = some ((), middle))
      (shared : middle.count self ≠ 1) (index : Nat)
      (isIndex : AssocList.indexOf (equals heap) key map.entries = some index)
      (j : Nat) (entry : RTValue × RTValue) (different : index ≠ j)
      (isJ : map.entries[j]? = some entry) : Retained entry := by
    apply retained middle isMiddle shared (by simp [isIndex]) entry
      (List.mem_of_getElem? isJ)
    apply ready.other_key _ isJ
    rw [isIndex, ne_eq, Option.some.injEq]
    exact different
  apply (runs_dissocWrites ready.framed.countBlind ready.found has
    othersRetained).mono
  rintro result after ⟨middle, released, done⟩
  refine ⟨middle, ?_, fun distinct => ?_⟩
  · apply serves_of_since
    apply released.since.weaken _ (fun _ => id) fun _ => False.elim
    rw [Outcome.references, owns_nil, zero_sub]
    rfl
  cases done with
  | absent isAbsent =>
      have unchanged : AssocList.dissoc (equals heap) key map.entries =
          map.entries := by
        rw [AssocList.dissoc, isAbsent]
      rw [unchanged]
      refine ⟨fun _ => False,
        serves_same released.has released.found distinct ready.bound ?_
          released.found⟩
      apply (Since.refl _).weaken _ (fun _ => id) fun _ => id
      rw [owns_cons, owns_nil, add_zero, sub_self]
  | inPlace _ isOne writes =>
      exact ⟨_, serves_inPlace released.has released.found isOne writes
        (distinct.sublist shorter) bound keysFrom_dissoc⟩
  | copied _ writes =>
      exact ⟨_, serves_copy released.has released.found writes
        (distinct.sublist shorter) bound keysFrom_dissoc⟩

/-! ## Lookups -/

/-- What `PersistentArrayMap_get` returns for what it finds. -/
def valueOf (found : Option RTValue) : RTValue :=
  if found.getD .boxNull = .boxNull then .boxNil else found.getD .boxNull

theorem addresses_valueOf (found : Option RTValue) :
    addresses (valueOf found) = addresses (found.getD .boxNull) := by
  unfold valueOf
  split
  · next isNull =>
      rw [isNull]
      rfl
  · rfl

/-- A caller gives up a map and a key. -/
theorem runs_releaseBoth
    {base : MapHeap}
    {change : Address → Int}
    (has : Has base (self :: addresses key))
    (nonneg : ∀ other, 0 ≤ change other)
    (since : Since base heap change (fun _ => False) fun _ => False)
    {β : Type}
    {result : β}
    {post : β → MapHeap → Prop}
    (holds : ∀ after,
      Since base after (change - own self - refs key) (fun _ => False)
        (fun _ => False) →
      post result after) :
    Runs (do
      release self
      releaseValue key
      pure result) heap post := by
  have all := has
  unfold Has at all
  simp only [owns_cons, Pi.add_apply] at all
  apply Runs.bind
  apply runs_release since
  · intro other
    have := all other
    have := nonneg other
    have := owns_nonneg (addresses key) other
    have := own_nonneg emptyArrayMap other
    omega
  intro middle _ middleSince
  apply Runs.bind
  apply runs_releaseValue middleSince
  · intro other
    have := all other
    have := nonneg other
    have := own_nonneg emptyArrayMap other
    rw [Pi.sub_apply]
    unfold refs
    omega
  intro after _ afterSince
  exact Runs.pure (holds after afterSince)

/-- `PersistentArrayMap_indexOf` finds the index of the key. -/
theorem runs_indexOf
    (has : Has heap (self :: addresses key))
    (found : heap.object? self = some (.map map)) :
    Runs (indexOf equals self key) heap fun result after =>
      result = AssocList.indexOf (equals heap) key map.entries ∧
        Serves equals heap (self :: addresses key) (.gives []) none
          (fun _ => False) after := by
  unfold indexOf
  apply Runs.bind
  apply runs_loadMap found
  apply Runs.bind
  refine ⟨_, heap, rfl, ?_⟩
  have nonneg (other : Address) : 0 ≤ (0 : Address → Int) other := Int.le_refl 0
  apply runs_releaseBoth has nonneg (Since.refl heap)
  intro after since
  refine ⟨rfl,
    serves_of_since (since.weaken ?_ (fun _ => id) fun _ => False.elim)⟩
  rw [Outcome.references, owns_nil, owns_cons, refs]
  abel

/-- `PersistentArrayMap_get` gives one reference to the value of the key. -/
theorem runs_getSince
    (has : Has heap (self :: addresses key))
    (found : heap.object? self = some (.map map)) :
    Runs (get equals self key) heap fun result after =>
      result = valueOf (AssocList.get (equals heap) key map.entries) ∧
        Since heap after (refs result - own self - refs key) (fun _ => False)
          fun _ => False := by
  unfold get
  apply Runs.bind
  apply runs_loadMap found
  apply Runs.bind
  refine ⟨_, heap, rfl, ?_⟩
  apply Runs.bind
  apply runs_retainValue (Since.refl heap)
  · intro address isIn
    cases isFound : AssocList.get (equals heap) key map.entries with
    | none =>
        rw [isFound] at isIn
        cases isIn
    | some value =>
        obtain ⟨entry, isEntry, _, isValue⟩ :=
          AssocList.exists_mem_of_get isFound
        rw [isFound, Option.getD_some, ← isValue] at isIn
        exact has.reference_present found
          (Or.inl (value_mem_entryAddresses isEntry isIn))
  intro middle _ retained
  rw [zero_add] at retained
  apply runs_releaseBoth has (refs_nonneg _) retained
  intro after since
  refine ⟨rfl, since.weaken ?_ (fun _ => id) fun _ => id⟩
  have same : refs (valueOf (AssocList.get (equals heap) key map.entries)) =
      refs ((AssocList.get (equals heap) key map.entries).getD .boxNull) := by
    rw [refs, addresses_valueOf, refs]
  exact congrArg (fun given => given - own self - refs key) same.symm

/-- `PersistentArrayMap_get` finds the value of the key. -/
theorem runs_get
    (has : Has heap (self :: addresses key))
    (found : heap.object? self = some (.map map)) :
    Runs (get equals self key) heap fun result after =>
      result = valueOf (AssocList.get (equals heap) key map.entries) ∧
        Serves equals heap (self :: addresses key)
          (.gives (addresses result)) none (fun _ => False) after := by
  apply (runs_getSince has found).mono
  rintro result after ⟨isResult, since⟩
  refine ⟨isResult,
    serves_of_since (since.weaken ?_ (fun _ => id) fun _ => False.elim)⟩
  rw [Outcome.references, owns_cons, refs, refs]
  abel

end Dissoc

end PersistentArrayMap
end Runtime
end ClojureRt
