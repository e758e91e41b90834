import ClojureRt.Runtime.DynamicVars.Rules

/-!
# What the calls on dynamic Vars do

Every call is a transfer of references.  It finds a map of bindings where a
context has one, and gives a map with the right entries.  A map that a context
still has is not changed, since the context holds a reference to it.
-/

namespace ClojureRt
namespace Runtime
namespace DynamicVars

open RefCount RefCount.Program PersistentArrayMap

/-! ## `RT_bind` -/

section Binding

variable
  {vars : Vars}
  {ctx : Option ExecutionContext}
  {heap : MapHeap}
  {entries : Entries}
  {rest : Address → Int}

theorem pointer_of_ofValue {v : RTValue} {var : Var}
    (isVar : vars.ofValue v = some var) :
    ∃ address, v = .pointer address := by
  cases v with
  | word bits => cases isVar
  | pointer address => exact ⟨address, rfl⟩

/-- `RT_bind` -/
theorem runs_bind
    {v val : RTValue}
    (shows : Shows heap ctx entries)
    (isEmpty : heap.object? emptyArrayMap = some (.map ⟨[], .boxNil⟩))
    (backed : Backed heap (refs v + refs val + rest))
    (nonneg : ∀ address, 0 ≤ rest address)
    (hasEmpty : ∀ address, own emptyArrayMap address ≤ rest address) :
    Runs (bind vars ctx v val) heap
      (Bound heap (refs v + refs val) 0 (fun _ => 0)
        (fun nextMap => ExecutionContext.create (some nextMap))
        (addEntry vars notVar entries (v, val))) := by
  have isNonneg : ∀ address, 0 ≤ (refs v + refs val) address :=
    nonneg_refs_add v (refs_nonneg val)
  have given : Backed heap (refs v + refs val) := backed.left isNonneg nonneg
  unfold bind addEntry
  cases isVar : vars.ofValue v with
  | none =>
      apply runs_releaseTwo given
      exact fun after transfer => .thrown notVar after transfer
  | some var =>
      simp only []
      by_cases dynamic : var.dynamic = true
      · rw [if_pos dynamic, if_pos dynamic]
        apply Runs.bind
        apply runs_currentMap shows isEmpty
        intro currentMap middle same retained binds
        have before := retained.keep isNonneg
        rw [zero_add] at before
        have enough :
            Backed middle
            (own currentMap + (refs v + refs val) + own emptyArrayMap) := by
          apply (before.backed backed
            (nonneg_add (own_nonneg currentMap) isNonneg) nonneg).mono
          · exact nonneg_add (nonneg_add (own_nonneg currentMap) isNonneg)
              (own_nonneg _)
          · intro address
            have := hasEmpty address
            rw [Pi.add_apply, Pi.add_apply _ rest]
            omega
        apply Runs.bind
        apply (runs_assocEntry binds (pointer_of_ofValue isVar) enough).mono
        intro result after adds
        cases adds with
        | full _ isFull transfer =>
            rw [if_pos isFull]
            apply Runs.pure
            exact .thrown _ after (before.trans transfer
              (nonneg_add (own_nonneg currentMap) isNonneg))
        | added map _ notFull transfer newBinds =>
            rw [if_neg notFull]
            apply Runs.pure
            apply Bound.returned map _ after _ newBinds
            rw [add_zero]
            exact before.trans transfer
              (nonneg_add (own_nonneg currentMap) isNonneg)
      · rw [if_neg dynamic, if_neg dynamic]
        apply runs_releaseTwo given
        exact fun after transfer => .thrown notDynamic after transfer

/-! ## `RT_bind_map` -/

/-- What is left when entries of a map are bound: the map, if that would need
more room. -/
def lostBindings (bindingsMap : Address) : Exception → Address → Int
  | .ofMap _ => own bindingsMap
  | _ => 0

/-- A map of bindings with one entry after the other. -/
def addEntries (vars : Vars) (entries newEntries : Entries) :
    Except Exception Entries :=
  newEntries.foldlM (addEntry vars notVarKey) entries

theorem addEntries_cons (entries : Entries) (entry : RTValue × RTValue)
    (newEntries : Entries) :
    addEntries vars entries (entry :: newEntries) =
      match addEntry vars notVarKey entries entry with
      | .ok added => addEntries vars added newEntries
      | .error exception => .error exception := by
  unfold addEntries
  rw [List.foldlM_cons]
  cases addEntry vars notVarKey entries entry with
  | ok added => rfl
  | error exception => rfl

theorem runs_releaseMaps
    {first second : Address}
    (backed : Backed heap (own first + own second))
    {Result : Type}
    {result : Result}
    {post : Result → MapHeap → Prop}
    (holds : ∀ after, Transfer heap after (own first + own second) 0 →
      post result after) :
    Runs (do
      release first
      release second
      pure result) heap post := by
  rw [← refs_pointer, ← refs_pointer] at backed holds
  exact runs_releaseTwo backed holds

theorem drop_eq_cons
    {newEntries : Entries}
    {i : Nat}
    {entry : RTValue × RTValue}
    (isEntry : newEntries[i]? = some entry) :
    newEntries.drop i = entry :: newEntries.drop (i + 1) := by
  obtain ⟨isBelow, rfl⟩ := List.getElem?_eq_some_iff.mp isEntry
  exact List.drop_eq_getElem_cons isBelow

/-- One of the bindings is added. -/
theorem runs_assocRetained
    {currentMap bindingsMap : Address}
    {newBindings : ArrayMap}
    {v val : RTValue}
    (hasEmpty : ∀ address, own emptyArrayMap address ≤ rest address)
    (found : heap.object? bindingsMap = some (.map newBindings))
    (binds : Binds heap currentMap entries)
    (backed : Backed heap (own currentMap + own bindingsMap + rest))
    (isPointer : ∃ address, v = .pointer address)
    (isEntry : (v, val) ∈ newBindings.entries)
    {Result : Type}
    {next : Except PersistentArrayMap.Exception Address → Code Result}
    {post : Result → MapHeap → Prop}
    (holds : ∀ result after,
      AddsEntry heap (own currentMap) (v, val) entries result after →
      Runs (next result) after post) :
    Runs (do
      retainValue v
      retainValue val
      let nextMap ← assoc sameWord currentMap v val
      next nextMap) heap post := by
  have referred (address : Address)
      (isIn : address ∈ entryAddresses newBindings.entries) :
      ∃ object, heap.object? address = some object :=
    Heap.object_of_reference backed.excess_nonneg found
      (List.mem_append_left _ isIn)
  have isNonneg : ∀ address, 0 ≤ (refs v + refs val) address :=
    nonneg_refs_add v (refs_nonneg val)
  apply runs_retainTwo
  · exact fun address isIn =>
      referred address (key_mem_entryAddresses isEntry isIn)
  · exact fun address isIn =>
      referred address (value_mem_entryAddresses isEntry isIn)
  intro middle same retained
  have before := retained.keep (own_nonneg currentMap)
  rw [zero_add, add_comm (refs v + refs val)] at before
  have currentBacked : Backed heap (own currentMap + own emptyArrayMap) := by
    apply backed.mono (nonneg_add (own_nonneg _) (own_nonneg _))
    intro address
    have := hasEmpty address
    have := own_nonneg bindingsMap address
    simp only [Pi.add_apply]
    omega
  have enough := before.backed currentBacked
    (nonneg_add (own_nonneg currentMap) isNonneg) (own_nonneg emptyArrayMap)
  apply Runs.bind
  apply (runs_assocEntry (binds.of_object (by rw [same])) isPointer enough).mono
  intro result after adds
  apply holds
  cases adds with
  | full _ isFull transfer =>
      exact .full after isFull
        (before.trans transfer (nonneg_add (own_nonneg _) isNonneg))
  | added map _ notFull transfer newBinds =>
      exact .added map after notFull
        (before.trans transfer (nonneg_add (own_nonneg _) isNonneg)) newBinds

theorem runs_bindEach
    {bindingsMap : Address}
    {newBindings : ArrayMap}
    (nonneg : ∀ address, 0 ≤ rest address)
    (hasEmpty : ∀ address, own emptyArrayMap address ≤ rest address)
    {remaining i : Nat}
    (isLength : i + remaining = newBindings.entries.length)
    {currentMap : Address}
    (found : heap.object? bindingsMap = some (.map newBindings))
    (binds : Binds heap currentMap entries)
    (backed : Backed heap (own currentMap + own bindingsMap + rest)) :
    Runs (bindEach vars bindingsMap remaining i currentMap) heap
      (Bound heap (own currentMap + own bindingsMap) (own bindingsMap)
        (lostBindings bindingsMap) id
        (addEntries vars entries (newBindings.entries.drop i))) := by
  induction remaining generalizing i heap entries currentMap with
  | zero =>
      rw [List.drop_of_length_le (by omega)]
      apply Runs.pure
      exact .returned currentMap entries heap (Transfer.refl heap _) binds
  | succ remaining inductionHypothesis =>
      obtain ⟨⟨v, val⟩, isEntry⟩ : ∃ entry,
          newBindings.entries[i]? = some entry :=
        ⟨_, List.getElem?_eq_getElem (by omega)⟩
      have given : Backed heap (own currentMap + own bindingsMap) :=
        backed.left (nonneg_add (own_nonneg _) (own_nonneg _)) nonneg
      rw [bindEach, drop_eq_cons isEntry, addEntries_cons]
      apply Runs.bind
      apply runs_loadMap found
      apply Runs.bind
      apply runs_entryAt isEntry
      unfold addEntry
      dsimp only
      cases isVar : vars.ofValue v with
      | none =>
          apply runs_releaseMaps given
          exact fun after transfer => .thrown notVarKey after transfer
      | some var =>
          dsimp only
          by_cases dynamic : var.dynamic = true
          · rw [if_pos dynamic, if_pos dynamic]
            apply runs_assocRetained hasEmpty found binds backed
              (pointer_of_ofValue isVar) (List.mem_of_getElem? isEntry)
            intro result after adds
            cases adds with
            | full _ isFull transfer =>
                rw [if_pos isFull]
                apply Runs.pure
                apply Bound.thrown
                have lost := transfer.keep (own_nonneg bindingsMap)
                rw [zero_add] at lost
                exact lost
            | added map _ notFull transfer newBinds =>
                rw [if_neg notFull]
                have step := transfer.keep (own_nonneg bindingsMap)
                have backedAfter := step.backed backed
                  (nonneg_add (own_nonneg map) (own_nonneg bindingsMap)) nonneg
                have stillThere :
                    after.object? bindingsMap = heap.object? bindingsMap := by
                  apply transfer.frame (own bindingsMap)
                    (own_nonneg bindingsMap) given
                  exact Reached.of_own bindingsMap
                apply (inductionHypothesis (by omega) (stillThere.trans found)
                  newBinds backedAfter).mono
                intro result last bound
                exact bound.precede step
                  (nonneg_add (own_nonneg map) (own_nonneg bindingsMap))
          · rw [if_neg dynamic, if_neg dynamic]
            apply runs_releaseMaps given
            exact fun after transfer => .thrown notDynamic after transfer

/-- What a value points to, if that is a map. -/
def mapAt (heap : MapHeap) : RTValue → Option ArrayMap
  | .pointer address =>
      match heap.object? address with
      | some (.map map) => some map
      | _ => none
  | .word _ => none

/-- What becomes of the bindings with those of a map. -/
def addMap (vars : Vars) (entries : Entries) : Option ArrayMap →
    Except Exception Entries
  | some newBindings => addEntries vars entries newBindings.entries
  | none => .error notMap

theorem runs_mapOf
    {value : RTValue}
    (present : ∀ address ∈ addresses value, ∃ object,
      heap.object? address = some object)
    {post : Option Address → MapHeap → Prop}
    (isMap : ∀ address map, value = .pointer address →
      heap.object? address = some (.map map) → post (some address) heap)
    (isOther : mapAt heap value = none → post none heap) :
    Runs (mapOf value) heap post := by
  cases value with
  | word bits => exact Runs.pure (isOther rfl)
  | pointer address =>
      obtain ⟨object, found⟩ := present address List.mem_cons_self
      apply Runs.bind
      apply Runs.load found
      cases object with
      | map map => exact Runs.pure (isMap address map rfl found)
      | other content references =>
          apply Runs.pure
          apply isOther
          rw [mapAt, found]

/-- What `RT_bind_map` leaves of its argument. -/
def lostMap : RTValue → Exception → Address → Int
  | .pointer bindingsMap => lostBindings bindingsMap
  | .word _ => fun _ => 0

/-- `RT_bind_map` -/
theorem runs_bindMap
    {bindingsMap : RTValue}
    (shows : Shows heap ctx entries)
    (isEmpty : heap.object? emptyArrayMap = some (.map ⟨[], .boxNil⟩))
    (backed : Backed heap (refs bindingsMap + rest))
    (nonneg : ∀ address, 0 ≤ rest address)
    (hasEmpty : ∀ address, own emptyArrayMap address ≤ rest address) :
    Runs (bindMap vars ctx bindingsMap) heap
      (Bound heap (refs bindingsMap) 0 (lostMap bindingsMap)
        (fun nextMap => ExecutionContext.create (some nextMap))
        (addMap vars entries (mapAt heap bindingsMap))) := by
  have given : Backed heap (refs bindingsMap) :=
    backed.left (refs_nonneg _) nonneg
  unfold bindMap
  apply Runs.bind
  apply runs_mapOf
  · intro address isIn
    apply Heap.object_of_owned
    have := given.le_excess address
    have := List.count_pos_iff.mpr isIn
    unfold refs owns at *
    omega
  · rintro map newBindings rfl found
    rw [refs_pointer] at *
    rw [mapAt, found]
    apply Runs.bind
    apply runs_currentMap shows isEmpty
    intro currentMap middle same retained binds
    have before := retained.keep (own_nonneg map)
    rw [zero_add] at before
    have foundMiddle : middle.object? map = some (.map newBindings) := by
      rw [same, found]
    have bothNonneg : ∀ address, 0 ≤ (own currentMap + own map) address :=
      nonneg_add (own_nonneg _) (own_nonneg _)
    apply Runs.bind
    apply runs_loadMap foundMiddle
    apply Runs.bind
    apply (runs_bindEach nonneg hasEmpty (Nat.zero_add _) foundMiddle binds
      (before.backed backed bothNonneg nonneg)).mono
    intro result last bound
    replace bound := bound.precede before bothNonneg
    rw [List.drop_zero] at bound
    unfold addMap
    dsimp only
    generalize addEntries vars entries newBindings.entries = added at bound ⊢
    cases bound with
    | thrown exception _ transfer =>
        apply Runs.pure
        exact .thrown exception last transfer
    | returned nextMap newEntries _ transfer newBinds =>
        have nextNonneg : ∀ address, 0 ≤ (own nextMap + own map) address :=
          nonneg_add (own_nonneg _) (own_nonneg _)
        have backedLast : Backed last (own map + own nextMap) := by
          have := transfer.backed backed nextNonneg nonneg
          exact (this.left nextNonneg nonneg).of_eq (add_comm _ _)
        apply Runs.bind
        apply Runs.release_transfer
          (backedLast.left (own_nonneg _) (own_nonneg _))
        intro after released
        apply Runs.pure
        apply Bound.returned nextMap newEntries after
        · rw [add_comm]
          rw [add_comm] at transfer
          exact transfer.andThen released (own_nonneg map) (own_nonneg nextMap)
        · apply newBinds.of_object
          apply released.frame (own nextMap) (own_nonneg nextMap) backedLast
          exact Reached.of_own nextMap
  · intro notFound
    rw [notFound]
    apply Runs.bind
    apply runs_releaseValue_transfer given
    intro after transfer
    apply Runs.pure
    cases bindingsMap with
    | word bits => exact .thrown notMap after transfer
    | pointer address => exact .thrown notMap after transfer

/-! ## Contexts -/

/-- The references of a context to its map. -/
def mapRefs (bindingsMap : Option Address) : Address → Int :=
  owns bindingsMap.toList

theorem mapRefs_nonneg (bindingsMap : Option Address) (address : Address) :
    0 ≤ mapRefs bindingsMap address :=
  owns_nonneg _ address

/-- The references of what is left of a context. -/
def leftRefs (left : Option ExecutionContext) : Address → Int :=
  mapRefs (bindingsOf left)

/-- What is left of a context when a reference to it is released. -/
def afterRelease (self : ExecutionContext) : Option ExecutionContext :=
  if self.refCount = 1 then none
  else some { self with refCount := self.refCount - 1 }

/-- `Ptr_release` of a context, which leaves the map of a context that is left
as it is. -/
theorem runs_releaseContext
    {self : ExecutionContext}
    (backed : Backed heap (mapRefs self.bindingsMap)) :
    Runs self.release heap fun left after =>
      left = afterRelease self ∧
        Transfer heap after (mapRefs self.bindingsMap) (leftRefs left) ∧
        (left ≠ none → after = heap) := by
  obtain ⟨refCount, bindingsMap⟩ := self
  unfold ExecutionContext.release afterRelease
  by_cases isOne : refCount = 1
  · rw [if_pos isOne, if_pos isOne]
    cases bindingsMap with
    | none =>
        exact Runs.pure ⟨rfl, Transfer.refl heap _,
          fun isLeft => absurd rfl isLeft⟩
    | some map =>
        have isOwn : mapRefs (some map) = own map := owns_singleton map
        rw [isOwn] at backed
        apply Runs.bind
        apply Runs.release_transfer backed
        intro after transfer
        apply Runs.pure
        refine ⟨rfl, transfer.of_eq isOwn.symm ?_,
          fun isLeft => absurd rfl isLeft⟩
        exact owns_nil.symm
  · rw [if_neg isOne, if_neg isOne]
    exact Runs.pure ⟨rfl, Transfer.refl heap _, fun _ => rfl⟩

/-- `ExecutionContext_clone` -/
theorem runs_clone
    {self : ExecutionContext}
    (backed : Backed heap (mapRefs self.bindingsMap)) :
    Runs self.clone heap fun result after =>
      result = (.create self.bindingsMap, afterRelease self) ∧
        Transfer heap after (mapRefs self.bindingsMap)
          (leftRefs result.2 + mapRefs self.bindingsMap) ∧
        ∀ map, self.bindingsMap = some map →
          after.object? map = heap.object? map := by
  obtain ⟨refCount, bindingsMap⟩ := self
  unfold ExecutionContext.clone
  cases bindingsMap with
  | none =>
      apply Runs.bind
      apply (runs_releaseContext backed).mono
      rintro left after ⟨isLeft, transfer, _⟩
      apply Runs.pure
      refine ⟨by rw [isLeft], transfer.of_eq rfl (add_zero _).symm, ?_⟩
      rintro map ⟨⟩
  | some map =>
      have isOwn : mapRefs (some map) = own map := owns_singleton map
      have present : ∃ object, heap.object? map = some object := by
        rw [isOwn] at backed
        exact backed.present (Reached.of_own map)
      apply Runs.bind
      apply Runs.retain_transfer present
      intro middle same retained
      rw [← isOwn] at retained
      have before := retained.keep (mapRefs_nonneg (some map))
      rw [zero_add] at before
      have twice : Backed middle (mapRefs (some map) + mapRefs (some map)) := by
        rw [← add_zero (mapRefs (some map))] at backed
        have := before.backed backed
          (nonneg_add (mapRefs_nonneg _) (mapRefs_nonneg _)) fun _ =>
            Int.le_refl 0
        rwa [add_zero] at this
      have releases :
          Runs (ExecutionContext.mk refCount (some map)).release middle _ :=
        runs_releaseContext (twice.left (mapRefs_nonneg _) (mapRefs_nonneg _))
      apply Runs.bind
      apply releases.mono
      rintro left after ⟨isLeft, transfer, _⟩
      apply Runs.pure
      refine ⟨by
        rw [isLeft],
        before.andThen transfer (mapRefs_nonneg _) (mapRefs_nonneg _), ?_⟩
      rintro other ⟨⟩
      rw [← same]
      apply transfer.frame (mapRefs (some map)) (mapRefs_nonneg _) twice
      rw [isOwn]
      exact Reached.of_own map

/-! ## Vars -/

/-- The value of a Var where there are some bindings. -/
def valueIn (var : Var) (entries : Entries) (self : Address) : RTValue :=
  if var.dynamic then (valueFor entries self).getD var.root else var.root

theorem Shows.value_present
    (shows : Shows heap ctx entries)
    (nonneg : ∀ address, 0 ≤ heap.excess address)
    {self : Address}
    {value : RTValue}
    (isValue : valueFor entries self = some value)
    {address : Address}
    (isIn : address ∈ addresses value) : ∃ object,
    heap.object? address = some object := by
  obtain ⟨entry, isEntry, _, rfl⟩ := AssocList.exists_mem_of_get isValue
  unfold Shows at shows
  cases isMap : bindingsOf ctx with
  | none =>
      rw [isMap] at shows
      rw [shows] at isEntry
      cases isEntry
  | some bindingsMap =>
      rw [isMap] at shows
      obtain ⟨map, found, rfl⟩ := shows.found
      apply Heap.object_of_reference nonneg found
      exact List.mem_append_left _ (value_mem_entryAddresses isEntry isIn)

theorem runs_threadBinding
    (shows : Shows heap ctx entries)
    (self : Address)
    {post : Option RTValue → MapHeap → Prop}
    (holds : post (valueFor entries self) heap) :
    Runs (threadBinding ctx self) heap post := by
  unfold threadBinding
  unfold Shows at shows
  cases isMap : bindingsOf ctx with
  | none =>
      rw [isMap] at shows
      rw [shows] at holds
      exact Runs.pure holds
  | some bindingsMap =>
      rw [isMap] at shows
      obtain ⟨map, found, rfl⟩ := shows.found
      apply Runs.bind
      apply runs_loadMap found
      exact ⟨_, heap, rfl, holds⟩

/-- `Var_deref` -/
theorem runs_deref
    {var : Var}
    {self : Address}
    (shows : Shows heap ctx entries)
    (backed : Backed heap (own self + rest))
    (nonneg : ∀ address, 0 ≤ rest address)
    (hasRoot : ∀ address ∈ addresses var.root, 0 < rest address) :
    Runs (deref var ctx self) heap fun result after =>
      result = valueIn var entries self ∧
        Transfer heap after (own self) (refs result) := by
  have present (address : Address)
      (isIn : address ∈ addresses (valueIn var entries self)) :
      ∃ object, heap.object? address = some object := by
    have ofRoot (isRoot : address ∈ addresses var.root) :
        ∃ object, heap.object? address = some object :=
      (backed.right (own_nonneg self) nonneg).present
      (.owned address (hasRoot address isRoot))
    unfold valueIn at isIn
    split at isIn
    · cases isValue : valueFor entries self with
      | none =>
          rw [isValue] at isIn
          exact ofRoot isIn
      | some value =>
          rw [isValue] at isIn
          exact shows.value_present backed.excess_nonneg isValue isIn
    · exact ofRoot isIn
  have finish : Runs (do
      retainValue (valueIn var entries self)
      release self
      pure (valueIn var entries self)) heap fun result after =>
        result = valueIn var entries self ∧
          Transfer heap after (own self) (refs result) := by
    apply Runs.bind
    apply runs_retainValue_transfer present
    intro middle _ retained
    have before := retained.keep (own_nonneg self)
    rw [zero_add, add_comm] at before
    have still : Backed middle (own self) := by
      have := before.backed backed
        (nonneg_add (own_nonneg self) (refs_nonneg _)) nonneg
      apply this.mono (own_nonneg self)
      intro address
      have := nonneg address
      have := refs_nonneg (valueIn var entries self) address
      simp only [Pi.add_apply]
      omega
    apply Runs.bind
    apply Runs.release_transfer still
    intro after released
    apply Runs.pure
    refine ⟨rfl, ?_⟩
    have both := before.andThen released (own_nonneg self) (refs_nonneg _)
    rwa [zero_add] at both
  unfold deref
  apply Runs.bind
  unfold valueIn at finish ⊢
  cases isDynamic : var.dynamic with
  | true =>
      rw [isDynamic] at finish
      rw [if_pos rfl]
      exact runs_threadBinding shows self finish
  | false =>
      rw [isDynamic] at finish
      rw [if_neg Bool.false_ne_true]
      exact Runs.pure finish

/-- What a Var that is set makes of the bindings of the context. -/
def setEntry (var : Var) (ctx : Option ExecutionContext) (entries : Entries)
    (self : Address)
    (value : RTValue) : Except Exception Entries :=
  if var.dynamic then
    match bindingsOf ctx with
    | some _ =>
        match valueFor entries self with
        | some _ => .ok (withEntry (.pointer self, value) entries)
        | none => .error setUnbound
    | none => .error setOutside
  else .error setNotDynamic

theorem indexOf_eq_none_iff {v : Address} :
    AssocList.indexOf (fun first second => decide (first = second)) (.pointer v)
      entries = none ↔
      valueFor entries v = none := by
  unfold valueFor
  rw [AssocList.get_eq_none_iff]
  exact List.findIdx?_eq_none_iff

/-- A search gives back what was retained for it. -/
theorem runs_searchSelf
    {map self : Address}
    (binds : Binds heap map entries)
    (present : ∃ object, heap.object? self = some object)
    (hasEmpty : ∀ address, own emptyArrayMap address ≤ heap.excess address)
    {Result : Type}
    {next : Option Nat → Code Result}
    {post : Result → MapHeap → Prop}
    (holds : ∀ after, Transfer heap after 0 0 →
      Runs (next
        (AssocList.indexOf (fun first second => decide (first = second))
        (.pointer self)
        entries)) after post) :
    Runs (do
      retain map
      retain self
      let found ← indexOf sameWord map (.pointer self)
      next found) heap post := by
  obtain ⟨object, found, rfl⟩ := binds.found
  apply Runs.bind
  apply Runs.retain_transfer ⟨_, found⟩
  intro first firstSame firstRetained
  apply Runs.bind
  apply Runs.retain_transfer (by rwa [firstSame])
  intro second same secondRetained
  have both := secondRetained.keep (own_nonneg map)
  rw [zero_add, add_comm] at both
  have retained := firstRetained.trans both (own_nonneg map)
  have consumed : owns (map :: addresses (.pointer self)) = own map +
      own self := by
    rw [owns_cons, addresses, owns_singleton]
  have has : Has second (map :: addresses (.pointer self)) := by
    intro address
    have := hasEmpty address
    rw [consumed, retained.excess, Pi.add_apply, Pi.zero_apply]
    omega
  have stillFound : second.object? map = some (.map object) := by
    rw [same, firstSame, found]
  apply Runs.bind
  apply (runs_indexOf has stillFound).mono
  rintro result after ⟨rfl, serves⟩
  apply holds
  have searched := transfer_of_serves serves has
  rw [consumed, Outcome.references, owns_nil] at searched
  exact retained.trans searched (nonneg_add (own_nonneg _) (own_nonneg _))

/-- A Var that is bound gets another value. -/
theorem runs_replace
    {map self : Address}
    {value : RTValue}
    (binds : Binds heap map entries)
    (bound : ¬ IsFull (.pointer self) entries)
    (backed : Backed heap (refs value + own self + own map + rest))
    (nonneg : ∀ address, 0 ≤ rest address)
    (hasEmpty : ∀ address, own emptyArrayMap address ≤ rest address)
    {Result : Type}
    {next : Except PersistentArrayMap.Exception Address → Code Result}
    {post : Result → MapHeap → Prop}
    (holds : ∀ newMap after,
      Transfer heap after (refs value + own self + own map)
        (refs value + own self + own map + own newMap) →
      Binds after newMap (withEntry (.pointer self, value) entries) →
      Runs (next (.ok newMap)) after post) :
    Runs (do
      retainValue value
      retain self
      retain map
      let bindingsMap ← assoc sameWord map (.pointer self) value
      next bindingsMap) heap post := by
  have takenNonneg : ∀ address, 0 ≤ (refs value + own self + own map) address :=
    nonneg_add (nonneg_refs_add value (own_nonneg self)) (own_nonneg map)
  have present (address : Address)
      (positive : 0 < (refs value + own self + own map) address) :
      ∃ object, heap.object? address = some object :=
    (backed.left takenNonneg nonneg).present (.owned address positive)
  apply Runs.bind
  apply runs_retainValue_transfer
  · intro address isIn
    apply present
    have := List.count_pos_iff.mpr isIn
    have := own_nonneg self address
    have := own_nonneg map address
    rw [Pi.add_apply, Pi.add_apply, refs, owns]
    omega
  intro first firstSame firstRetained
  apply Runs.bind
  apply Runs.retain_transfer
  · rw [firstSame]
    apply present
    have := refs_nonneg value self
    have := own_nonneg map self
    rw [Pi.add_apply, Pi.add_apply, own_self]
    omega
  intro second secondSame secondRetained
  apply Runs.bind
  apply Runs.retain_transfer
  · rw [secondSame, firstSame]
    apply present
    have := refs_nonneg value map
    have := own_nonneg self map
    rw [Pi.add_apply, Pi.add_apply, own_self]
    omega
  intro third thirdSame thirdRetained
  have twoRetained : Transfer heap second 0 (own self + refs value) := by
    have := secondRetained.keep (refs_nonneg value)
    rw [zero_add] at this
    exact firstRetained.trans this (refs_nonneg value)
  have retained :
      Transfer heap third 0 (own map + (own self + refs value)) := by
    have := thirdRetained.keep
      (nonneg_add (own_nonneg self) (refs_nonneg value))
    rw [zero_add] at this
    exact twoRetained.trans
      this (nonneg_add (own_nonneg self) (refs_nonneg value))
  have retainedNonneg : ∀ address,
      0 ≤ (own map + (own self + refs value)) address :=
    nonneg_add (own_nonneg map)
      (nonneg_add (own_nonneg self) (refs_nonneg value))
  have enough : Backed third
      (own map + (refs (.pointer self) + refs value) + own emptyArrayMap) := by
    rw [refs_pointer]
    apply retained.backed _ retainedNonneg (own_nonneg emptyArrayMap)
    rw [zero_add]
    apply (backed.right takenNonneg nonneg).mono (own_nonneg _) hasEmpty
  have stillBinds : Binds third map entries :=
    binds.of_object (by rw [thirdSame, secondSame, firstSame])
  apply Runs.bind
  apply (runs_assocEntry stillBinds ⟨self, rfl⟩ enough).mono
  intro result after adds
  cases adds with
  | full _ isFull _ => exact absurd isFull bound
  | added newMap _ _ transfer newBinds =>
      rw [refs_pointer] at transfer
      apply holds newMap after _ newBinds
      have all := (retained.trans transfer retainedNonneg).keep takenNonneg
      rwa [zero_add, add_comm (own newMap)] at all

/-- A map takes the place of one in which the var is bound. -/
theorem runs_rebind
    {map self : Address}
    {value : RTValue}
    {refCount : Nat}
    (binds : Binds heap map entries)
    (isBound : valueFor entries self ≠ none)
    (backed : Backed heap (refs value + own self + own map + rest))
    (nonneg : ∀ address, 0 ≤ rest address)
    (hasEmpty : ∀ address, own emptyArrayMap address ≤ rest address) :
    Runs (do
      retainValue value
      retain self
      retain map
      let bindingsMap ← assoc sameWord map (.pointer self) value
      match bindingsMap with
      | .ok bindingsMap => do
          release map
          release self
          pure (.ok (value, ⟨refCount, some bindingsMap⟩))
      | .error exception => pure (.error (.ofMap exception))) heap
      fun (result : Except Exception (RTValue × ExecutionContext)) after =>
      ∃ newMap, result = .ok (value, ⟨refCount, some newMap⟩) ∧
        Transfer heap after (refs value + own self + own map)
          (own newMap + refs value) ∧
        Binds after newMap (withEntry (.pointer self, value) entries) := by
  have takenNonneg : ∀ address, 0 ≤ (refs value + own self + own map) address :=
    nonneg_add (nonneg_refs_add value (own_nonneg self)) (own_nonneg map)
  apply runs_replace binds _ backed nonneg hasEmpty
  · intro newMap last replaced newBinds
    have lastNonneg := nonneg_add takenNonneg (own_nonneg newMap)
    have backedLast :=
      (replaced.backed backed lastNonneg nonneg).left lastNonneg nonneg
    have regroup : refs value + own self + own map + own newMap =
        own map + own self + (own newMap + refs value) := by abel
    rw [regroup] at backedLast replaced
    have gone := nonneg_add (own_nonneg map) (own_nonneg self)
    have remain := nonneg_add (own_nonneg newMap) (refs_nonneg value)
    apply runs_releaseMaps (backedLast.left gone remain)
    intro after released
    refine ⟨newMap, rfl, ?_, ?_⟩
    · have all := replaced.andThen released gone remain
      rwa [zero_add] at all
    · apply newBinds.of_object
      apply released.frame (own newMap + refs value) remain backedLast
      apply (Reached.of_own newMap).mono
      intro address
      have := refs_nonneg value address
      rw [Pi.add_apply]
      omega
  · intro isFull
    exact isBound (indexOf_eq_none_iff.mp isFull.1)

/-- What `Var_set` comes to. -/
inductive Sets
    (heap : MapHeap)
    (ctx : Option ExecutionContext)
    (self : Address)
    (value : RTValue) :
    Except Exception Entries → Except Exception (RTValue × ExecutionContext) →
      MapHeap → Prop
  | returned (map : Address) (entries : Entries) (after : MapHeap)
      (transfer :
        Transfer heap after (refs value + own self + mapRefs (bindingsOf ctx))
        (own map + refs value))
      (binds : Binds after map entries) :
      Sets heap ctx self value (.ok entries)
        (.ok (value, ⟨ctx.elim 0 ExecutionContext.refCount, some map⟩)) after
  | thrown (exception : Exception) (after : MapHeap)
      (transfer : Transfer heap after (refs value + own self) 0) :
      Sets heap ctx self value (.error exception) (.error exception) after

/-- `Var_set` -/
theorem runs_set
    {var : Var}
    {self : Address}
    {value : RTValue}
    (shows : Shows heap ctx entries)
    (backed : Backed heap
      (refs value + own self + mapRefs (bindingsOf ctx) + rest))
    (nonneg : ∀ address, 0 ≤ rest address)
    (hasEmpty : ∀ address, own emptyArrayMap address ≤ rest address) :
    Runs (set var ctx self value) heap
      (Sets heap ctx self value (setEntry var ctx entries self value)) := by
  have argumentsNonneg : ∀ address, 0 ≤ (refs value + own self) address :=
    nonneg_refs_add value (own_nonneg self)
  have mapNonneg := mapRefs_nonneg (bindingsOf ctx)
  have throws {later : MapHeap} (given : Backed later (refs value + own self))
      (transfer : Transfer heap later (refs value + own self)
        (refs value + own self))
      (exception : Exception) :
      Runs (do
        releaseValue value
        release self
        pure (.error exception)) later
        (Sets heap ctx self value (.error exception)) := by
    rw [← refs_pointer] at given
    apply runs_releaseTwo given
    intro after released
    rw [refs_pointer] at released
    exact .thrown exception after (transfer.trans released argumentsNonneg)
  have given : Backed heap (refs value + own self) :=
    (backed.left (nonneg_add argumentsNonneg mapNonneg) nonneg).left
    argumentsNonneg mapNonneg
  unfold set setEntry
  by_cases dynamic : var.dynamic = true
  · rw [if_pos dynamic, if_pos dynamic]
    cases ctx with
    | none => exact throws given (Transfer.refl heap _) setOutside
    | some context =>
        obtain ⟨refCount, bindingsMap⟩ := context
        cases bindingsMap with
        | none => exact throws given (Transfer.refl heap _) setOutside
        | some map =>
            have binds : Binds heap map entries := shows
            have isOwn : mapRefs (bindingsOf (some ⟨refCount, some map⟩)) =
                own map :=
              owns_singleton map
            rw [isOwn] at backed mapNonneg
            have takenNonneg := nonneg_add argumentsNonneg mapNonneg
            apply runs_searchSelf binds
            · apply (given.right (refs_nonneg value) (own_nonneg self)).present
              exact Reached.of_own self
            · exact fun address =>
                (hasEmpty address).trans
                ((backed.right takenNonneg nonneg).le_excess address)
            intro middle searched
            have keptArguments := searched.keep argumentsNonneg
            have kept := searched.keep takenNonneg
            rw [zero_add] at keptArguments kept
            have backedMiddle := kept.backed backed takenNonneg nonneg
            have stillBinds : Binds middle map entries := by
              apply binds.of_object
              apply searched.frame (own map) (own_nonneg map)
              · rw [zero_add]
                exact (backed.left takenNonneg nonneg).right argumentsNonneg
                  mapNonneg
              · exact Reached.of_own map
            dsimp only [bindingsOf]
            cases isFound :
              AssocList.indexOf (fun first second => decide (first = second))
              (.pointer self) entries with
            | none =>
                rw [indexOf_eq_none_iff.mp isFound]
                apply throws _ keptArguments setUnbound
                exact (backedMiddle.left takenNonneg nonneg).left
                  argumentsNonneg mapNonneg
            | some index =>
                have isBound : valueFor entries self ≠ none := by
                  intro isNone
                  rw [indexOf_eq_none_iff.mpr isNone] at isFound
                  cases isFound
                obtain ⟨old, isOld⟩ := Option.ne_none_iff_exists'.mp isBound
                rw [isOld]
                apply (runs_rebind stillBinds isBound backedMiddle nonneg
                  hasEmpty).mono
                rintro _ after ⟨newMap, rfl, rebound, newBinds⟩
                apply Sets.returned newMap _ after _ newBinds
                have all := kept.trans rebound takenNonneg
                rwa [← isOwn] at all
  · rw [if_neg dynamic, if_neg dynamic]
    exact throws given (Transfer.refl heap _) setNotDynamic

/-- The exchange of a root -/
theorem runs_exchangeRoot
    {var : Var}
    {self : Address}
    {root : RTValue}
    (backed : Backed heap (own self)) :
    Runs (exchangeRoot var self root) heap fun result after =>
      result = ({ var with root }, addresses var.root) ∧
        Transfer heap after (own self) 0 := by
  apply Runs.bind
  apply Runs.release_transfer backed
  intro after transfer
  exact Runs.pure ⟨rfl, transfer⟩

end Binding

end DynamicVars
end Runtime
end ClojureRt
