import ClojureRt.Runtime.DynamicVars.Defs

/-!
# Maps of bindings

A map of bindings has different objects for keys, so a copy retains all of its
entries. Code that works on such maps transfers references, and an entry is
added by `PersistentArrayMap_assoc`.
-/

namespace ClojureRt
namespace Runtime
namespace DynamicVars

open RefCount RefCount.Program PersistentArrayMap

/-! ## Maps of bindings -/

/-- The value for a Var in a map of bindings. -/
def valueFor (entries : Entries) (v : Address) : Option RTValue :=
  AssocList.get (fun first second => decide (first = second))
    (.pointer v) entries

/-- A map of bindings with a further one. -/
def withEntry (entry : RTValue × RTValue) (entries : Entries) : Entries :=
  AssocList.assoc (fun first second => decide (first = second)) entry.1
    entry.2 entries

/-- The map is full, and it has no entry for the key. -/
def IsFull (key : RTValue) (entries : Entries) : Prop :=
  AssocList.indexOf (fun first second => decide (first = second)) key
    entries = none ∧
    ArrayMap.hashtableThreshold ≤ entries.length

instance (key : RTValue) (entries : Entries) : Decidable (IsFull key entries) :=
  inferInstanceAs (Decidable (_ ∧ _))

/-- There is a map with these entries, whose keys are different objects. -/
structure Binds (heap : MapHeap) (address : Address) (entries : Entries) :
    Prop where
  found : ∃ map, heap.object? address = some (.map map) ∧ map.entries = entries
  distinct :
    AssocList.Distinct
    (fun first second : RTValue => decide (first = second)) entries
  bound : entries.length ≤ ArrayMap.hashtableThreshold
  keys : ∀ entry ∈ entries, ∃ address, entry.1 = .pointer address

/-- What a context binds. -/
def Shows (heap : MapHeap) (ctx : Option ExecutionContext)
    (entries : Entries) : Prop :=
  match bindingsOf ctx with
  | some bindingsMap => Binds heap bindingsMap entries
  | none => entries = []

/-- What becomes of the bindings when one is added, where only Vars can be
bound. -/
def addEntry (vars : Vars) (refusal : Exception) (entries : Entries)
    (entry : RTValue × RTValue) : Except Exception Entries :=
  match vars.ofValue entry.1 with
  | none => .error refusal
  | some var =>
      if var.dynamic then
        if IsFull entry.1 entries then .error (.ofMap tooLarge)
        else .ok (withEntry entry entries)
      else .error notDynamic

theorem Binds.of_object
    {heap after : MapHeap}
    {address : Address}
    {entries : Entries}
    (binds : Binds heap address entries)
    (same : after.object? address = heap.object? address) :
    Binds after address entries :=
  { binds with found := by rw [same]; exact binds.found }

theorem Shows.of_objects
    {heap after : MapHeap}
    {ctx : Option ExecutionContext}
    {entries : Entries}
    (shows : Shows heap ctx entries)
    (same : ∀ bindingsMap, bindingsOf ctx = some bindingsMap →
      after.object? bindingsMap = heap.object? bindingsMap) :
        Shows after ctx entries := by
  unfold Shows at *
  cases isMap : bindingsOf ctx with
  | none =>
      rw [isMap] at shows
      exact shows
  | some bindingsMap =>
      rw [isMap] at shows
      exact shows.of_object (same bindingsMap isMap)

theorem Shows.of_sameMap
    {heap : MapHeap}
    {ctx other : Option ExecutionContext}
    {entries : Entries}
    (shows : Shows heap ctx entries)
    (same : bindingsOf other = bindingsOf ctx) : Shows heap other entries := by
  unfold Shows at *
  rw [same]
  exact shows

/-- The empty map binds nothing. -/
theorem binds_empty
    {heap : MapHeap}
    (isEmpty : heap.object? emptyArrayMap = some (.map ⟨[], .boxNil⟩)) :
    Binds heap emptyArrayMap [] where
  found := ⟨_, isEmpty, rfl⟩
  distinct := List.Pairwise.nil
  bound := Nat.zero_le _
  keys := by simp

theorem Binds.ready
    {heap : MapHeap}
    {address : Address}
    {map : ArrayMap}
    (binds : Binds heap address map.entries)
    (found : heap.object? address = some (.map map))
    (key : RTValue) : Ready sameWord heap address key map where
  framed := framed_sameWord
  found := found
  equivalence := isEquivalence_sameWord heap _
  distinct := binds.distinct
  bound := binds.bound

/-- A copy retains every entry of a map of bindings. -/
theorem Binds.retained
    {heap : MapHeap}
    {address : Address}
    {entries : Entries}
    (binds : Binds heap address entries)
    {entry : RTValue × RTValue}
    (isEntry : entry ∈ entries) : Retained entry := by
  obtain ⟨key, isKey⟩ := binds.keys entry isEntry
  left
  rw [isKey]
  rfl

/-! ## Transfers -/

section Transfers

variable
  {heap after : MapHeap}
  {taken given rest : Address → Int}

theorem nonneg_refs_add
    (value : RTValue)
    (nonneg : ∀ address, 0 ≤ rest address)
    (address : Address) : 0 ≤ (refs value + rest) address :=
  nonneg_add (refs_nonneg value) nonneg address

theorem runs_retainValue_transfer
    {value : RTValue}
    (present : ∀ address ∈ addresses value, ∃ object,
      heap.object? address = some object)
    {post : Unit → MapHeap → Prop}
    (holds : ∀ after, after.object? = heap.object? →
      Transfer heap after 0 (refs value) →
      post () after) :
    Runs (retainValue value) heap post := by
  cases value with
  | word bits =>
      rw [refs_word] at holds
      exact Runs.pure (holds heap rfl (Transfer.refl heap 0))
  | pointer address =>
      rw [refs_pointer] at holds
      exact Runs.retain_transfer (present address List.mem_cons_self) holds

theorem runs_releaseValue_transfer
    {value : RTValue}
    (backed : Backed heap (refs value))
    {post : Unit → MapHeap → Prop}
    (holds : ∀ after, Transfer heap after (refs value) 0 → post () after) :
    Runs (releaseValue value) heap post := by
  cases value with
  | word bits =>
      rw [refs_word] at holds
      exact Runs.pure (holds heap (Transfer.refl heap 0))
  | pointer address =>
      rw [refs_pointer] at backed holds
      exact Runs.release_transfer backed holds

/-- An operation on array maps transfers what it consumes. -/
theorem transfer_of_serves
    {equals : MapHeap → RTValue → RTValue → Bool}
    {consumed : List Address}
    {outcome : PersistentArrayMap.Outcome}
    {result : Option (Address × Entries)}
    {changed : Address → Prop}
    (serves : Serves equals heap consumed outcome result changed after)
    (has : Has heap consumed) :
    Transfer heap after (owns consumed) (owns outcome.references) where
  excess := by
    intro address
    rw [serves.effect.excess, Pi.sub_apply]
  frame rest nonneg backed _ reached :=
    serves.others_kept has nonneg backed.le_excess reached

theorem has_of_backed
    {consumed : List Address}
    (backed : Backed heap (owns consumed + own emptyArrayMap)) :
    Has heap consumed :=
  backed.le_excess

end Transfers

/-! ## Adding an entry -/

section Adding

variable {heap : MapHeap} {entries : Entries}

/-- What `PersistentArrayMap_assoc` comes to on a map of bindings. -/
inductive AddsEntry
    (heap : MapHeap)
    (taken : Address → Int)
    (entry : RTValue × RTValue)
    (entries : Entries) : Except PersistentArrayMap.Exception Address →
    MapHeap → Prop
  | full (after : MapHeap) (isFull : IsFull entry.1 entries)
      (transfer : Transfer heap after taken 0) :
      AddsEntry heap taken entry entries (.error tooLarge) after
  | added (map : Address) (after : MapHeap) (notFull : ¬ IsFull entry.1 entries)
      (transfer : Transfer heap after taken (own map))
      (binds : Binds after map (withEntry entry entries)) :
      AddsEntry heap taken entry entries (.ok map) after

theorem runs_assocEntry
    {self : Address}
    {v val : RTValue}
    (binds : Binds heap self entries)
    (isPointer : ∃ address, v = .pointer address)
    (backed : Backed heap
      (own self + (refs v + refs val) + own emptyArrayMap)) :
    Runs (assoc sameWord self v val) heap
      (AddsEntry heap (own self + (refs v + refs val)) (v, val) entries) := by
  obtain ⟨map, found, rfl⟩ := binds.found
  have consumed : owns (self :: (addresses v ++ addresses val)) =
      own self + (refs v + refs val) := by
    rw [owns_cons, owns_append, refs, refs]
  have has : Has heap (self :: (addresses v ++ addresses val)) := by
    apply has_of_backed
    rwa [consumed]
  apply (runs_assoc (binds.ready found v) has fun _ _ _ isEntry _ =>
    binds.retained isEntry).mono
  intro result after done
  cases done with
  | thrown _ isFull serves =>
      have transfer := transfer_of_serves serves has
      rw [consumed] at transfer
      exact .full after isFull transfer
  | done _ address changed notFull serves =>
      have transfer := transfer_of_serves serves has
      rw [consumed, Outcome.references, owns_singleton] at transfer
      refine .added address after notFull transfer
        ⟨serves.map _ _ rfl, serves.distinct _ _ rfl,
        serves.bound _ _ rfl, ?_⟩
      intro entry isEntry
      rcases AssocList.key_of_mem_assoc isEntry with ⟨old, isOld, isKey⟩ | isKey
      · rw [← isKey]
        exact binds.keys old isOld
      · rw [isKey]
        exact isPointer

/-- A call that takes some references either gives a map of bindings, besides
what it keeps, or throws, and then some references are left. -/
inductive Bound
    {Result : Type}
    (heap : MapHeap)
    (taken kept : Address → Int)
    (left : Exception → Address → Int)
    (wrap : Address → Result) :
    Except Exception Entries → Except Exception Result → MapHeap → Prop
  | returned (map : Address) (entries : Entries) (after : MapHeap)
      (transfer : Transfer heap after taken (own map + kept))
      (binds : Binds after map entries) :
      Bound heap taken kept left wrap (.ok entries) (.ok (wrap map)) after
  | thrown (exception : Exception) (after : MapHeap)
      (transfer : Transfer heap after taken (left exception)) :
      Bound heap taken kept left wrap (.error exception)
        (.error exception) after

theorem runs_currentMap
    {ctx : Option ExecutionContext}
    (shows : Shows heap ctx entries)
    (isEmpty : heap.object? emptyArrayMap = some (.map ⟨[], .boxNil⟩))
    {post : Address → MapHeap → Prop}
    (holds : ∀ map after, after.object? = heap.object? →
      Transfer heap after 0 (own map) →
      Binds after map entries → post map after) :
    Runs (currentMap ctx) heap post := by
  unfold currentMap
  unfold Shows at shows
  cases isMap : bindingsOf ctx with
  | some map =>
      rw [isMap] at shows
      obtain ⟨object, found, _⟩ := shows.found
      apply Runs.bind
      apply Runs.retain_transfer ⟨_, found⟩
      intro after same transfer
      exact Runs.pure
        (holds map after same transfer (shows.of_object (by rw [same])))
  | none =>
      rw [isMap] at shows
      apply Runs.bind
      apply Runs.retain_transfer ⟨_, isEmpty⟩
      intro after same transfer
      apply Runs.pure
      apply holds emptyArrayMap after same transfer
      rw [shows]
      exact binds_empty (by rw [same, isEmpty])

/-- Two values are released. -/
theorem runs_releaseTwo
    {first second : RTValue}
    (backed : Backed heap (refs first + refs second))
    {Result : Type}
    {result : Result}
    {post : Result → MapHeap → Prop}
    (holds : ∀ after, Transfer heap after (refs first + refs second) 0 →
      post result after) :
    Runs (do
      releaseValue first
      releaseValue second
      pure result) heap post := by
  apply Runs.bind
  apply runs_releaseValue_transfer
    (backed.left (refs_nonneg first) (refs_nonneg second))
  intro middle firstTransfer
  have secondBacked : Backed middle (refs second) := by
    have := firstTransfer.backed backed (fun _ => Int.le_refl 0)
      (refs_nonneg second)
    rwa [zero_add] at this
  apply Runs.bind
  apply runs_releaseValue_transfer secondBacked
  intro after secondTransfer
  apply Runs.pure
  apply holds after
  have both := firstTransfer.keep (refs_nonneg second)
  rw [zero_add] at both
  exact both.trans secondTransfer (refs_nonneg second)

/-- Two values are retained. -/
theorem runs_retainTwo
    {first second : RTValue}
    (firstPresent : ∀ address ∈ addresses first, ∃ object,
      heap.object? address = some object)
    (secondPresent : ∀ address ∈ addresses second, ∃ object,
      heap.object? address = some object)
    {Result : Type}
    {next : Code Result}
    {post : Result → MapHeap → Prop}
    (holds : ∀ after, after.object? = heap.object? →
      Transfer heap after 0 (refs first + refs second) → Runs next after post) :
    Runs (do
      retainValue first
      retainValue second
      next) heap post := by
  apply Runs.bind
  apply runs_retainValue_transfer firstPresent
  intro middle middleSame firstTransfer
  apply Runs.bind
  apply runs_retainValue_transfer (by rwa [middleSame])
  intro after same secondTransfer
  apply holds after (same.trans middleSame)
  have both := secondTransfer.keep (refs_nonneg first)
  rw [zero_add, add_comm (refs second)] at both
  exact firstTransfer.trans both (refs_nonneg first)

/-- What a call comes to does not depend on where the references come from. -/
theorem Bound.precede
    {Result : Type}
    {middle after : MapHeap}
    {taken taken' kept : Address → Int}
    {left : Exception → Address → Int}
    {wrap : Address → Result}
    {bindings : Except Exception Entries}
    {result : Except Exception Result}
    (bound : Bound middle taken' kept left wrap bindings result after)
    (first : Transfer heap middle taken taken')
    (nonneg : ∀ address, 0 ≤ taken' address) :
    Bound heap taken kept left wrap bindings result after := by
  cases bound with
  | returned map entries _ transfer binds =>
      exact .returned map entries after (first.trans transfer nonneg) binds
  | thrown exception _ transfer =>
      exact .thrown exception after (first.trans transfer nonneg)

end Adding

end DynamicVars
end Runtime
end ClojureRt
