import ClojureRt.Lib.Since
import ClojureRt.Runtime.PersistentArrayMap.Defs
import Mathlib.Tactic.Abel

/-!
# Rules for array maps

Each rule says that a piece of code runs, and what has happened since a heap
`base`: how the counts changed, which of the old objects may have other fields,
and that every object that is there was there before or was written.
-/

namespace ClojureRt
namespace Runtime
namespace PersistentArrayMap

open RefCount RefCount.Program

/-! ## Counting references -/

/-- The references in a value. -/
def refs (value : RTValue) : Address → Int :=
  owns (addresses value)

/-- The references in entries. -/
def refsEntries (entries : Entries) : Address → Int :=
  owns (entryAddresses entries)

/-- A pointer is one reference. -/
@[simp]
theorem refs_pointer (address : Address) : refs
    (.pointer address) = own address := by
  simp [refs, addresses, owns_cons]

/-- A word is no reference. -/
@[simp]
theorem refs_word (bits : BitVec 64) : refs (.word bits) = 0 := by
  simp [refs, addresses]

@[simp]
theorem refsEntries_nil : refsEntries [] = 0 := by
  simp [refsEntries, entryAddresses]

@[simp]
theorem refsEntries_cons (entry : RTValue × RTValue) (entries : Entries) :
    refsEntries (entry :: entries) = refs entry.1 + refs entry.2 +
      refsEntries entries := by
  simp [refsEntries, entryAddresses, refs, owns_append, add_assoc]

/-- The references of two lists of entries. -/
@[simp]
theorem refsEntries_append (first second : Entries) :
    refsEntries (first ++ second) = refsEntries first + refsEntries second := by
  simp [refsEntries, entryAddresses, owns_append]

/-- A map refers to its keys, to its values and to the metadata. -/
@[simp]
theorem owns_references_map (map : ArrayMap) :
    owns (Referencing.references (Object.map map)) =
      refsEntries map.entries + refs map.metadata := by
  rw [refsEntries, refs, ← owns_append]
  rfl

/-- A value has no negative number of references. -/
theorem refs_nonneg (value : RTValue)
    (other : Address) : 0 ≤ refs value other :=
  owns_nonneg _ other

/-- The key of an entry is among the addresses. -/
theorem key_mem_entryAddresses
    {entries : Entries}
    {entry : RTValue × RTValue}
    (isEntry : entry ∈ entries)
    {address : Address}
    (isIn : address ∈ addresses entry.1) : address ∈ entryAddresses entries :=
  List.mem_flatMap.mpr ⟨entry, isEntry, List.mem_append_left _ isIn⟩

/-- The value of an entry is among the addresses. -/
theorem value_mem_entryAddresses
    {entries : Entries}
    {entry : RTValue × RTValue}
    (isEntry : entry ∈ entries)
    {address : Address}
    (isIn : address ∈ addresses entry.2) : address ∈ entryAddresses entries :=
  List.mem_flatMap.mpr ⟨entry, isEntry, List.mem_append_right _ isIn⟩

/-! ### Entries that change -/

/-- A new value takes the place of the old one. -/
theorem refsEntries_modify
    {entries : Entries}
    {index : Nat}
    {old : RTValue × RTValue}
    (isOld : entries[index]? = some old)
    (value : RTValue) :
    refsEntries (entries.modify index fun entry => (entry.1, value)) +
      refs old.2 =
      refsEntries entries + refs value := by
  induction entries generalizing index with
  | nil => cases isOld
  | cons entry entries inductionHypothesis =>
      cases index with
      | zero =>
          cases isOld
          simp only [List.modify_zero_cons, refsEntries_cons]
          abel
      | succ index =>
          have isLater : entries[index]? = some old := isOld
          simp only [List.modify_succ_cons, refsEntries_cons]
          rw [add_assoc, inductionHypothesis isLater]
          abel

/-- An entry that is removed gives up its key and its value. -/
theorem refsEntries_eraseIdx
    {entries : Entries}
    {index : Nat}
    {old : RTValue × RTValue}
    (isOld : entries[index]? = some old) :
    refsEntries (entries.eraseIdx index) + refs old.1 + refs old.2 =
      refsEntries entries := by
  induction entries generalizing index with
  | nil => cases isOld
  | cons entry entries inductionHypothesis =>
      cases index with
      | zero =>
          cases isOld
          simp only [List.eraseIdx_cons_zero, refsEntries_cons]
          abel
      | succ index =>
          have isLater : entries[index]? = some old := isOld
          simp only [List.eraseIdx_cons_succ, refsEntries_cons,
            ← inductionHypothesis isLater]
          abel

/-! ### Entries that are retained -/

/-- `PersistentArrayMap_retainChildren` retains all that is to retain in the
entry. -/
def Retained (entry : RTValue × RTValue) : Prop :=
  isTrue entry.1 = true ∨ addresses entry.2 = []

/-- The references that `PersistentArrayMap_retainChildren` adds. -/
def retainedChildren : Entries → Nat → Option Nat → Address → Int
  | [], _, _ => 0
  | entry :: entries, i, except =>
      (if isTrue entry.1 && except != some i then refs entry.1 +
        refs entry.2 else 0) +
        retainedChildren entries (i + 1) except

/-- The loop skips an entry only if it has no references. -/
theorem Retained.refs_eq
    {entry : RTValue × RTValue}
    (retained : Retained entry)
    (skipped : isTrue entry.1 = false) : refs entry.1 + refs entry.2 = 0 := by
  have isZero : entry.1 = .word 0 := by
    rw [isTrue, bne_eq_false_iff_eq] at skipped
    exact skipped
  have noAddress : addresses entry.2 = [] := by
    rcases retained with isTrueKey | none
    · rw [skipped] at isTrueKey
      cases isTrueKey
    · exact none
  rw [isZero, refs_word, refs, noAddress, owns_nil, add_zero]

/-- Where no entry is left out, the references of all entries are taken. -/
theorem retainedChildren_of_lt
    {entries : Entries}
    (retained : ∀ entry ∈ entries, Retained entry)
    {i : Nat}
    {except : Option Nat}
    (before : ∀ j, except = some j → j < i) :
    retainedChildren entries i except = refsEntries entries := by
  induction entries generalizing i with
  | nil => simp [retainedChildren]
  | cons entry entries inductionHypothesis =>
      have notHere : (except != some i) = true := by
        rw [bne_iff_ne]
        intro here
        exact Nat.lt_irrefl i (before i here)
      rw [retainedChildren, notHere, Bool.and_true, refsEntries_cons,
        inductionHypothesis
          (fun later isLater => retained later (List.mem_cons_of_mem _ isLater))
          fun j isExcept => Nat.lt_succ_of_lt (before j isExcept)]
      cases isTrueKey : isTrue entry.1 with
      | true => rw [if_pos rfl]
      | false =>
          rw [if_neg (by decide),
            (retained entry List.mem_cons_self).refs_eq isTrueKey]

/-- Where one entry is left out, the references of all others are taken. -/
theorem retainedChildren_except
    {entries : Entries}
    {index : Nat}
    {entry : RTValue × RTValue}
    (isEntry : entries[index]? = some entry)
    (retained : ∀ j other, j ≠ index → entries[j]? = some other →
      Retained other)
    (i : Nat) :
    retainedChildren entries i (some (i + index)) + refs entry.1 +
      refs entry.2 =
      refsEntries entries := by
  induction entries generalizing index i with
  | nil => cases isEntry
  | cons first entries inductionHypothesis =>
      rw [retainedChildren, refsEntries_cons]
      cases index with
      | zero =>
          cases isEntry
          have laterRetained (other : RTValue × RTValue)
              (isOther : other ∈ entries) :
              Retained other := by
            obtain ⟨j, isJ⟩ := List.mem_iff_getElem?.mp isOther
            exact retained (j + 1) other (Nat.succ_ne_zero j) isJ
          have later : retainedChildren entries (i + 1) (some i) =
              refsEntries entries := by
            apply retainedChildren_of_lt laterRetained
            intro j isI
            cases isI
            exact Nat.lt_succ_self i
          rw [Nat.add_zero, later, bne_self_eq_false, Bool.and_false,
            if_neg (by decide)]
          abel
      | succ index =>
          have isLater : entries[index]? = some entry := isEntry
          have later := inductionHypothesis isLater
            (fun j other distinct isOther =>
              retained (j + 1) other (by omega) isOther) (i + 1)
          have notHere : (some (i + (index + 1)) != some i) = true := by
            rw [bne_iff_ne, ne_eq, Option.some.injEq]
            omega
          have reindex : i + (index + 1) = i + 1 + index := by omega
          rw [notHere, Bool.and_true, reindex, ← later]
          cases isTrueKey : isTrue first.1 with
          | true =>
              rw [if_pos rfl]
              abel
          | false =>
              have none :=
                (retained 0 first (Nat.zero_ne_add_one index) rfl).refs_eq
                isTrueKey
              rw [if_neg (by decide), none]
              abel

/-! ## Rules -/

section Rules

variable
  {base heap : MapHeap}
  {change : Address → Int}
  {changed written : Address → Prop}

/-- The map is read, and nothing changes. -/
theorem runs_loadMap
    {address : Address}
    {map : ArrayMap}
    (found : heap.object? address = some (.map map))
    {post : ArrayMap → MapHeap → Prop}
    (holds : post map heap) : Runs (loadMap address) heap post := by
  unfold loadMap
  apply Runs.bind
  apply Runs.load found
  exact Runs.pure holds

/-- The entry is there. -/
theorem runs_entryAt
    {entries : Entries}
    {index : Nat}
    {entry : RTValue × RTValue}
    (isEntry : entries[index]? = some entry)
    {post : RTValue × RTValue → MapHeap → Prop}
    (holds : post entry heap) : Runs (entryAt entries index) heap post := by
  unfold entryAt
  rw [isEntry]
  exact Runs.pure holds

/-- The object has one more reference. -/
theorem runs_retain
    (since : Since base heap change changed written)
    {address : Address}
    (present : ∃ object, heap.object? address = some object)
    {post : Unit → MapHeap → Prop}
    (holds : ∀ after, after.object? = heap.object? →
      Since base after (change + own address) changed written → post () after) :
    Runs (retain address) heap post := by
  obtain ⟨object, found⟩ := present
  apply Runs.retain since.effect found
  intro after same effect
  refine holds after same ⟨effect, ?_⟩
  rw [same]
  exact since.kept

/-- The value has one more reference. -/
theorem runs_retainValue
    (since : Since base heap change changed written)
    {value : RTValue}
    (present : ∀ address ∈ addresses value, ∃ object,
      heap.object? address = some object)
    {post : Unit → MapHeap → Prop}
    (holds : ∀ after, after.object? = heap.object? →
      Since base after (change + refs value) changed written → post () after) :
    Runs (retainValue value) heap post := by
  cases value with
  | word bits =>
      rw [refs_word, add_zero] at holds
      exact Runs.pure (holds heap rfl since)
  | pointer address =>
      rw [refs_pointer] at holds
      exact runs_retain since (present address List.mem_cons_self) holds

/-- The loop takes the references of the entries that it does not skip. -/
theorem runs_retainChildren
    (since : Since base heap change changed written)
    {entries : Entries}
    (present : ∀ address ∈ entryAddresses entries, ∃ object,
      heap.object? address = some object)
    {i : Nat}
    {except : Option Nat}
    {post : Unit → MapHeap → Prop}
    (holds : ∀ after, after.object? = heap.object? →
      Since base after (change + retainedChildren entries i except) changed
        written →
      post () after) :
    Runs (retainChildren entries i except) heap post := by
  induction entries generalizing heap change i with
  | nil =>
      rw [retainedChildren, add_zero] at holds
      exact Runs.pure (holds heap rfl since)
  | cons entry entries inductionHypothesis =>
      have laterPresent (address : Address)
          (isIn : address ∈ entryAddresses entries) :
          ∃ object, heap.object? address = some object :=
        present address (List.mem_append_right _ isIn)
      obtain ⟨key, value⟩ := entry
      rw [retainChildren]
      rw [retainedChildren] at holds
      split
      · next retains =>
          rw [if_pos retains] at holds
          apply Runs.bind
          apply runs_retainValue since fun address isIn =>
            present address (key_mem_entryAddresses List.mem_cons_self isIn)
          intro middle same keySince
          apply Runs.bind
          apply runs_retainValue keySince fun address isIn => by
            rw [same]
            exact present address
              (value_mem_entryAddresses List.mem_cons_self isIn)
          intro later laterSame valueSince
          apply inductionHypothesis valueSince
          · rwa [laterSame, same]
          · intro after afterSame allSince
            apply holds after (afterSame.trans (laterSame.trans same))
            apply allSince.weaken _ (fun _ => id) fun _ => id
            abel
      · next skips =>
          rw [if_neg skips, zero_add] at holds
          exact inductionHypothesis since laterPresent holds

/-- One reference to the object is given up. -/
theorem runs_release
    (since : Since base heap change changed written)
    {address : Address}
    (owned : ∀ other, own address other ≤ base.excess other + change other)
    {post : Unit → MapHeap → Prop}
    (holds : ∀ after,
      (∀ other object, after.object? other = some object →
        heap.object? other = some object) →
      Since base after (change - own address) changed written → post () after) :
    Runs (release address) heap post := by
  apply Runs.release since.effect owned
  intro after kept _ effect
  apply holds after kept
  refine ⟨effect, ?_⟩
  intro other object found
  exact since.kept other object (kept other object found)

/-- One reference to the value is given up. -/
theorem runs_releaseValue
    (since : Since base heap change changed written)
    {value : RTValue}
    (owned : ∀ other, refs value other ≤ base.excess other + change other)
    {post : Unit → MapHeap → Prop}
    (holds : ∀ after,
      (∀ other object, after.object? other = some object →
        heap.object? other = some object) →
      Since base after (change - refs value) changed written → post () after) :
    Runs (releaseValue value) heap post := by
  cases value with
  | word bits =>
      rw [refs_word, sub_zero] at holds
      exact Runs.pure (holds heap (fun _ _ found => found) since)
  | pointer address =>
      rw [refs_pointer] at owned holds
      exact runs_release since owned holds

/-- A new object has one reference, and takes those to what it contains. -/
theorem runs_allocate
    (since : Since base heap change changed written)
    {object : Object}
    {post : Address → MapHeap → Prop}
    (holds : ∀ after, after.object? heap.next = some object →
      (∀ other, other ≠ heap.next → after.object? other = heap.object? other) →
      Since base after
        (change + (own heap.next - owns (Referencing.references object)))
        changed
        (fun other => written other ∨ other = heap.next) →
        post heap.next after) :
    Runs (allocate object) heap post := by
  apply Runs.allocate since.effect
  intro after found others _ effect
  refine holds after found others ⟨effect, ?_⟩
  intro other stored isStored unwritten
  rw [not_or] at unwritten
  rw [others other unwritten.2] at isStored
  exact since.kept other stored isStored unwritten.1

/-- An object that is written gives up its old references and takes the new
ones. -/
theorem runs_store
    (since : Since base heap change changed written)
    {address : Address}
    {object old : Object}
    (found : heap.object? address = some old)
    {post : Unit → MapHeap → Prop}
    (holds : ∀ after, after.object? address = some object →
      (∀ other, other ≠ address → after.object? other = heap.object? other) →
      Since base after
        (change + (owns (Referencing.references old) -
          owns (Referencing.references object)))
        (fun other => changed other ∨ other = address)
        (fun other => written other ∨ other = address) → post () after) :
    Runs (store address object) heap post := by
  apply Runs.store since.effect found
  intro after isStored others effect
  refine holds after isStored others ⟨effect, ?_⟩
  intro other stored isThere unwritten
  rw [not_or] at unwritten
  rw [others other unwritten.2] at isThere
  exact since.kept other stored isThere unwritten.1

/-- A copy owns its metadata; the entries are still to be retained. -/
theorem runs_copy
    (since : Since base heap change changed written)
    {map : ArrayMap}
    {entries : Entries}
    (present : ∀ address ∈ addresses map.metadata, ∃ object,
      heap.object? address = some object)
    {post : Address → MapHeap → Prop}
    (holds : ∀ after,
      after.object? heap.next = some (.map { map with entries }) →
      (∀ other, other ≠ heap.next → after.object? other = heap.object? other) →
      Since base after (change + (own heap.next - refsEntries entries)) changed
        (fun other => written other ∨ other = heap.next) →
        post heap.next after) :
    Runs (copy map entries) heap post := by
  unfold copy
  apply Runs.bind
  apply runs_allocate since
  intro middle found others allocated
  apply Runs.bind
  apply runs_retainValue allocated
  · intro address isIn
    obtain ⟨object, isObject⟩ := present address isIn
    by_cases isNew : address = heap.next
    · rw [isNew]
      exact ⟨_, found⟩
    · exact ⟨object, by rw [others address isNew, isObject]⟩
  · intro after same retained
    apply Runs.pure
    apply holds after
    · rw [same, found]
    · rw [same]
      exact others
    · apply retained.weaken _ (fun _ => id) fun _ => id
      rw [owns_references_map]
      abel

end Rules

end PersistentArrayMap
end Runtime
end ClojureRt
