import ClojureRt.CompilerState.Atomicity

/-!
# Storing protocols

`storeInternalProtocols` goes through the first phases of `storeInternalClasses`
with the two registries exchanged: a protocol is created and linked as a class
is, and registered among the protocols.
-/

namespace ClojureRt
namespace CompilerState

open RefCount RefCount.Program

/-! ## The phases -/

/-- A parent is looked for among the new protocols, then among the registered
protocols, then among the classes. -/
def findExtended (state : ThreadsafeCompilerState) (localMap : LocalMap)
    (name : String) :
    Code (Option Nat) :=
  match find name localMap with
  | some pc => do
      retain pc
      return some pc
  | none => do
      match ← state.protocolRegistry.getCurrent name with
      | some pc => return some pc
      | none => state.classRegistry.getCurrent name

/-- The list of the protocols that a protocol extends, up to the first that is
not found. -/
def linkExtended (state : ThreadsafeCompilerState) (localMap : LocalMap)
    (c : Nat) :
    Bool → List String → Code (Except String (List Nat))
  | _, [] => return .ok []
  | isFirst, parentName :: parentNames => do
      match ← findExtended state localMap parentName with
      | none =>
          throwInternalInconsistencyException ("Extended protocol not found: " ++ parentName)
      | some pc => do
          linkExtends c pc isFirst
          match ← linkExtended state localMap c false parentNames with
          | .error message => return .error message
          | .ok parents => return .ok (pc :: parents)

/-- A protocol that extends others gets the list of them. -/
def linkProtocol (state : ThreadsafeCompilerState) (localMap : LocalMap)
    (c : Nat) :
    Code (Except String Unit) := do
  match (← load c).compilerExtension with
  | none => undefined
  | some desc =>
      if desc.parentNames ≠ [] then do
        match ← linkExtended state localMap c true desc.parentNames with
        | .error message => return .error message
        | .ok list => do
            let self ← load c
            store c { self with superclasses := list }
            return .ok ()
      else return .ok ()

/-- Every protocol is linked, up to the first that throws. -/
def linkExtensions (state : ThreadsafeCompilerState) (localMap : LocalMap) :
    LocalMap → Code (Except String Unit)
  | [] => return .ok ()
  | (_, c) :: rest => do
      match ← linkProtocol state localMap c with
      | .error message => return .error message
      | .ok () => linkExtensions state localMap rest

/-- `storeInternalProtocols`, given what `buildClasses` came to. -/
def storeInternalProtocols (state : ThreadsafeCompilerState) :
    Except String ClassDescriptions →
      Code (Except String Unit × ThreadsafeCompilerState)
  | .error message => return (.error message, state)
  | .ok built => do
      let localMap ← createHulls built.descriptions []
      match ← linkExtensions state localMap localMap with
      | .error message => do
          releaseEach (localMap.map Prod.snd)
          return (.error message, state)
      | .ok () => do
          let protocolRegistry ← registerClasses state.protocolRegistry localMap
          return (.ok (),
            { state with
              protocolRegistry
              globalMethodICEpoch := state.globalMethodICEpoch + 1 })

/-! ## Counts stay above 0 -/

section Positive

variable {state : ThreadsafeCompilerState}

/-- What is looked up is only retained. -/
theorem keepsPositive_findExtended (localMap : LocalMap) (name : String) :
    (findExtended state localMap name).KeepsPositive := by
  unfold findExtended
  cases find name localMap with
  | some pc => exact .bind (.retain pc) fun _ => .pure _
  | none =>
      refine .bind (keepsPositive_getCurrent name) ?_
      intro found
      cases found with
      | some pc => exact .pure _
      | none => exact keepsPositive_getCurrent name

/-- By induction on the names. -/
theorem keepsPositive_linkExtended
    (localMap : LocalMap)
    (c : Nat)
    (isFirst : Bool)
    (names : List String) :
    (linkExtended state localMap c isFirst names).KeepsPositive := by
  induction names generalizing isFirst with
  | nil => exact .pure _
  | cons name names inductionHypothesis =>
      refine .bind (keepsPositive_findExtended localMap name) ?_
      intro found
      cases found with
      | none => exact .pure _
      | some pc =>
          refine .bind (keepsPositive_linkExtends c pc isFirst) ?_
          intro _
          refine .bind (inductionHypothesis false) ?_
          intro result
          cases result <;> exact .pure _

/-- The protocol is written when all that it extends is found. -/
theorem keepsPositive_linkProtocol (localMap : LocalMap) (c : Nat) :
    (linkProtocol state localMap c).KeepsPositive := by
  refine .bind (.load c) ?_
  intro self
  cases self.compilerExtension with
  | none => exact .undefined
  | some desc =>
      change Program.KeepsPositive (if desc.parentNames ≠ [] then _ else _)
      split
      · refine .bind
          (keepsPositive_linkExtended localMap c true desc.parentNames) ?_
        intro result
        cases result with
        | error message => exact .pure _
        | ok list =>
            exact .bind (.load c) fun _ => .bind (.store c _) fun _ => .pure _
      · exact .pure _

/-- By induction on the protocols. -/
theorem keepsPositive_linkExtensions (localMap rest : LocalMap) :
    (linkExtensions state localMap rest).KeepsPositive := by
  induction rest with
  | nil => exact .pure _
  | cons entry rest inductionHypothesis =>
      refine .bind (keepsPositive_linkProtocol localMap entry.2) ?_
      intro result
      cases result with
      | error message => exact .pure _
      | ok => exact inductionHypothesis

/-- The whole call frees an object only by releasing its last reference. -/
theorem keepsPositive_storeInternalProtocols (built : ClassDescriptions) :
    (storeInternalProtocols state (.ok built)).KeepsPositive := by
  refine .bind (keepsPositive_createHulls built.descriptions []) ?_
  intro localMap
  refine .bind (keepsPositive_linkExtensions localMap localMap) ?_
  intro result
  cases result with
  | error message => exact .bind (keepsPositive_releaseEach _) fun _ => .pure _
  | ok => exact .bind (keepsPositive_registerClasses localMap) fun _ => .pure _

end Positive

/-! ## Linking as a class -/

/-- The compiler state with the registries exchanged. -/
def ThreadsafeCompilerState.exchanged (self : ThreadsafeCompilerState) :
    ThreadsafeCompilerState :=
  { self with
    classRegistry := self.protocolRegistry
    protocolRegistry := self.classRegistry }

section Rules

variable
  {state : ThreadsafeCompilerState}
  {localMap : LocalMap}
  {base heap : ClassHeap}
  {change : Nat → Int}
  {changed : Nat → Prop}

/-- A protocol is linked as a class is, up to what is thrown. -/
theorem runs_linkExtended
    (c : Nat)
    (isFirst : Bool)
    (names : List String)
    (post : Option (List Nat) → ClassHeap → Prop)
    (runs : Runs (linkParents state.exchanged localMap c isFirst names) heap
      fun result after => post result.toOption after) :
    Runs (linkExtended state localMap c isFirst names) heap
      fun result after => post result.toOption after := by
  induction names generalizing heap isFirst post with
  | nil => exact runs
  | cons name names inductionHypothesis =>
      apply Runs.bind
      apply (Runs.of_bind runs).mono
      intro found middle later
      cases found with
      | none =>
          apply Runs.pure
          exact later.of_pure
      | some pc =>
          apply Runs.bind
          apply (Runs.of_bind later).mono
          intro _ linked rest
          have parents : Runs (linkExtended state localMap c false names) linked
              fun result after =>
                post (result.toOption.map (pc :: ·)) after := by
            apply inductionHypothesis false fun result after =>
              post (result.map (pc :: ·)) after
            apply (Runs.of_bind rest).mono
            intro result after ends
            cases result with
            | error message => exact ends.of_pure
            | ok parents => exact ends.of_pure
          apply Runs.bind
          apply parents.mono
          intro result after holds
          cases result with
          | error message => exact Runs.pure holds
          | ok parents => exact Runs.pure holds

/-- What linking makes of a class that was created for a description. -/
structure IsLinked (resolve : String → Option Nat) (desc : ClassDescription)
    (linked : Class) :
    Prop where
  described : linked.compilerExtension = some desc
  noProtocols : linked.implementedProtocols = []
  resolved : ∀ parent ∈ linked.superclasses,
    ∃ name ∈ desc.parentNames, resolve name = some parent

/-- A new protocol extends nothing. -/
theorem isLinked_hull (resolve : String → Option Nat)
    (desc : ClassDescription) :
    IsLinked resolve desc (hull desc) :=
  ⟨rfl, rfl, by simp [hull]⟩

/-- The loop retains every protocol that it finds, and writes the first one into
the new one. -/
theorem Runs.linkExtended
    (effect : Effect base heap change changed)
    (resolvable : Resolvable state.exchanged localMap heap)
    {c : Nat}
    {desc : ClassDescription}
    (found : heap.object? c = some (hull desc))
    {post : Except String (List Nat) → ClassHeap → Prop}
    (holds : ∀ result parents after,
      (∀ list, result.toOption = some list → list = parents ∧
        desc.parentNames.mapM (resolve state.exchanged localMap) =
          some parents) →
      after.object? c = some (halfLinked desc parents) →
      (∀ other, other ≠ c → after.object? other = heap.object? other) →
      Effect base after (change + owns parents)
        (fun other => changed other ∨ other = c) →
      post result after) :
    Runs (linkExtended state localMap c true desc.parentNames) heap post := by
  refine (runs_linkExtended c true desc.parentNames
    (fun result after => ∃ parents,
    (∀ list, result = some list → list = parents ∧
      desc.parentNames.mapM (resolve state.exchanged localMap) = some parents) ∧
    after.object? c = some (halfLinked desc parents) ∧
    (∀ other, other ≠ c → after.object? other = heap.object? other) ∧
    Effect base after (change + owns parents) fun other => changed other ∨
      other = c) ?_).mono ?_
  · apply Runs.linkParents effect resolvable found true (fun _ => rfl)
    intro result parents after resolved isAfter others effectAfter
    rw [extended_hull] at isAfter
    refine ⟨parents, ?_, isAfter, others, effectAfter⟩
    intro list isList
    cases result with
    | error message => cases isList
    | ok parents =>
        cases isList
        exact resolved.eq_of_ok
  · rintro result after ⟨parents, resolved, isAfter, others, effectAfter⟩
    exact holds result parents after resolved isAfter others effectAfter

/-- A protocol gets what it extends, or keeps only the first one where something
is not found. -/
theorem Runs.linkProtocol
    (effect : Effect base heap change changed)
    (resolvable : Resolvable state.exchanged localMap heap)
    {c : Nat}
    {desc : ClassDescription}
    (found : heap.object? c = some (hull desc))
    {post : Except String Unit → ClassHeap → Prop}
    (holds : ∀ result self lost after,
      IsLinked (resolve state.exchanged localMap) desc self →
      after.object? c = some self →
      (∀ other, other ≠ c → after.object? other = heap.object? other) →
      (result = .ok () → lost = []) →
      Effect base after (change + owns lost)
        (fun other => changed other ∨ other = c) →
      post result after) :
    Runs (linkProtocol state localMap c) heap post := by
  apply Runs.bind
  apply Runs.load found
  change Runs (if desc.parentNames ≠ [] then _ else _) heap post
  split
  · apply Runs.bind
    apply Runs.linkExtended effect resolvable found
    intro result parents after resolved isAfter others effectAfter
    cases result with
    | error message =>
        apply Runs.pure
        apply holds _ _ parents after ⟨rfl, rfl, ?_⟩ isAfter others (by simp)
          effectAfter
        simp [halfLinked, hull]
    | ok list =>
        obtain ⟨rfl, isResolved⟩ := resolved list rfl
        apply Runs.bind
        apply Runs.load isAfter
        apply Runs.bind
        apply Runs.store effectAfter isAfter
        intro stored isStored othersStored storeEffect
        apply Runs.pure
        apply holds _ _ [] stored ⟨rfl, rfl, ?_⟩ isStored _ (fun _ => rfl)
        · apply storeEffect.weaken
          · rw [owns_references, owns_references]
            simp only [halfLinked, hull, owns_nil]
            abel
          · intro other _ either
            exact either.elim id Or.inr
        · intro parent isParent
          exact (exists_resolve_of_mapM isResolved).2 parent isParent
        · intro other distinct
          rw [othersStored other distinct, others other distinct]
  · apply Runs.pure
    apply holds _ _ [] heap (isLinked_hull _ desc) found (fun _ _ => rfl)
      (fun _ => rfl)
    rw [owns_nil, add_zero]
    exact effect.weaken rfl fun _ _ => Or.inl

/-- Every new protocol is linked, up to the first that throws. -/
theorem Runs.linkExtensions
    (effect : Effect base heap change changed)
    (resolvable : Resolvable state.exchanged localMap heap)
    (locals : List Local)
    (areHulls : ∀ created ∈ locals,
      heap.object? created.2 = some (hull created.1))
    (distinct : (locals.map Prod.snd).Nodup)
    {post : Except String Unit → ClassHeap → Prop}
    (holds : ∀ result lost after,
      (∀ created ∈ locals, ∃ self, after.object? created.2 = some self ∧
        IsLinked (resolve state.exchanged localMap) created.1 self) →
      (∀ other, other ∉ locals.map Prod.snd →
        after.object? other = heap.object? other) →
      (result = .ok () → lost = []) →
      Effect base after (change + owns lost)
        (fun other => changed other ∨ other ∈ locals.map Prod.snd) →
      post result after) :
    Runs (linkExtensions state localMap (entries locals)) heap post := by
  induction locals generalizing heap change changed post with
  | nil =>
      apply Runs.pure
      apply holds _ [] heap (by simp) (fun _ _ => rfl) (fun _ => rfl)
      rw [owns_nil, add_zero]
      exact effect.weaken rfl fun _ _ => Or.inl
  | cons created locals inductionHypothesis =>
      obtain ⟨desc, c⟩ := created
      rw [List.map_cons, List.nodup_cons] at distinct
      have isOther {created : Local} (isLater : created ∈ locals) :
          created.2 ≠ c := by
        rintro rfl
        exact distinct.1 (List.mem_map.mpr ⟨created, isLater, rfl⟩)
      apply Runs.bind
      apply Runs.linkProtocol effect resolvable
        (areHulls (desc, c) List.mem_cons_self)
      intro result self lost middle isLinked isSelf others noneLost effectMiddle
      have areStillHulls : ∀ created ∈ locals,
          middle.object? created.2 = some (hull created.1) := by
        intro created isLater
        rw [others created.2 (isOther isLater),
          areHulls created (List.mem_cons_of_mem _ isLater)]
      cases result with
      | error message =>
          apply Runs.pure
          apply holds _ lost middle _ _ (by simp)
          · apply effectMiddle.weaken rfl
            intro other _ either
            simp only [List.map_cons, List.mem_cons]
            tauto
          · rw [List.forall_mem_cons]
            refine ⟨⟨self, isSelf, isLinked⟩, fun created isLater => ?_⟩
            exact ⟨_, areStillHulls created isLater, isLinked_hull _ _⟩
          · intro other notIn
            rw [List.map_cons, List.mem_cons, not_or] at notIn
            exact others other notIn.1
      | ok =>
          rw [noneLost rfl, owns_nil, add_zero] at effectMiddle
          have resolvableMiddle :
              Resolvable state.exchanged localMap middle := by
            apply resolvable.of_present
            intro address object isThere
            by_cases same : address = c
            · rw [same]
              exact ⟨_, isSelf⟩
            · exact ⟨object, by rw [others address same, isThere]⟩
          apply inductionHypothesis effectMiddle resolvableMiddle areStillHulls
            distinct.2
          intro result lost after areLinked othersAfter noneLost effectAfter
          apply holds result lost after _ _ noneLost
          · apply effectAfter.weaken rfl
            intro other _ either
            simp only [List.map_cons, List.mem_cons]
            tauto
          · rw [List.forall_mem_cons]
            refine ⟨⟨self, ?_, isLinked⟩, areLinked⟩
            rw [othersAfter c distinct.1, isSelf]
          · intro other notIn
            rw [List.map_cons, List.mem_cons, not_or] at notIn
            rw [othersAfter other notIn.2, others other notIn.1]

end Rules

/-! ## All phases -/

/-- The number does not matter. -/
theorem IsLinked.renumbered
    {resolve : String → Option Nat}
    {desc : ClassDescription}
    {self : Class}
    (isLinked : IsLinked resolve desc self)
    (id : Int) : IsLinked resolve desc { self with registerId := id } :=
  ⟨isLinked.described, isLinked.noProtocols, isLinked.resolved⟩

/-- What is on the heap after protocols have been stored: what was there before,
and the new ones, linked to their parents. -/
structure ProtocolsStored
    (start : RegistryState)
    (built : ClassDescriptions)
    (result : ThreadsafeCompilerState)
    (after : ClassHeap)
    (locals : List Local) : Prop where
  owned : ∀ address, owns result.roots address ≤ after.excess address
  sameClasses : result.classRegistry = start.state.classRegistry
  created : locals.map Prod.fst = built.descriptions
  areNew : ∀ made ∈ locals, start.heap.next ≤ made.2
  distinct : (locals.map Prod.snd).Nodup
  registered : result.protocolRegistry = start.state.protocolRegistry ∨
    result.protocolRegistry = start.state.protocolRegistry.withClasses locals
  objects : ∀ address self, after.object? address = some self →
    (∃ old id, start.heap.object? address = some old ∧
      self = { old with registerId := id }) ∨
    ∃ made ∈ locals, made.2 = address ∧
      IsLinked (resolve start.state.exchanged (entries locals)) made.1 self

/-- What names stand for is on the heap, also among the new protocols. -/
theorem RegistryState.resolvable_exchanged
    (start : RegistryState)
    {locals : List Local}
    {heap : ClassHeap}
    (areHulls : ∀ created ∈ locals,
      heap.object? created.2 = some (hull created.1))
    (kept : ∀ other, other < start.heap.next →
      heap.object? other = start.heap.object? other) :
    Resolvable start.state.exchanged (entries locals) heap := by
  intro name pc isParent
  unfold resolve ThreadsafeCompilerState.exchanged at isParent
  rcases Option.or_eq_some_iff.mp isParent with inMap | ⟨_, isOld⟩
  · obtain ⟨desc, isLocal, _⟩ := mem_of_find_entries inMap
    exact ⟨_, areHulls (desc, pc) isLocal⟩
  · have isRoot : pc ∈ start.state.roots := by
      rcases Option.or_eq_some_iff.mp isOld with isProtocol | ⟨_, isClass⟩
      · exact List.mem_append_right _
          (List.mem_append_left _ (mem_roots_of_find isProtocol))
      · exact List.mem_append_left _
          (List.mem_append_left _ (mem_roots_of_find isClass))
    obtain ⟨self, found⟩ := start.object_of_root isRoot
    exact ⟨self, by rw [kept pc (Heap.lt_next_of_object found), found]⟩

/-- Storing protocols comes to an end. -/
theorem runs_storeInternalProtocols
    (start : RegistryState)
    (built : ClassDescriptions) :
    Runs (storeInternalProtocols start.state (.ok built)) start.heap
      fun result after =>
      ∃ locals, ProtocolsStored start built result.2 after locals := by
  have nothing : Effect start.heap start.heap 0 fun _ => False :=
    .refl start.heap
  apply Runs.bind
  apply Runs.createHulls nothing built.descriptions
    (by simpa using built.distinct)
  intro locals middle created areHulls distinct kept onlyLocals effectMiddle
  rw [List.nil_append]
  have resolvable := start.resolvable_exchanged
    (fun made isMade => (areHulls made isMade).2) kept
  apply Runs.bind
  apply Runs.linkExtensions effectMiddle resolvable locals
    (fun made isMade => (areHulls made isMade).2) distinct
  intro result lost linkedHeap areLinked others noneLost effectLinked
  have objects : ∀ address self, linkedHeap.object? address = some self →
      start.heap.object? address = some self ∨ ∃ made ∈ locals,
        made.2 = address ∧
        IsLinked (resolve start.state.exchanged (entries locals)) made.1
          self := by
    intro address self found
    by_cases isLocal : address ∈ locals.map Prod.snd
    · obtain ⟨made, isMade, rfl⟩ := List.mem_map.mp isLocal
      obtain ⟨linked, isThere, isLinked⟩ := areLinked made isMade
      rw [found, Option.some.injEq] at isThere
      exact Or.inr ⟨made, isMade, rfl, isThere ▸ isLinked⟩
    · rw [others address isLocal] at found
      have below : address < start.heap.next := by
        by_contra beyond
        exact isLocal (onlyLocals address self found (by omega))
      rw [kept address below] at found
      exact Or.inl found
  cases result with
  | error message =>
      apply Runs.bind
      rw [map_snd_entries]
      apply Runs.releaseEach effectLinked
      · intro address
        have := start.nonneg address
        have := owns_nonneg lost address
        simp only [Pi.add_apply, Pi.zero_apply]
        omega
      · intro after keptAfter effectAfter
        apply Runs.pure
        refine ⟨locals, ?_, rfl, created,
          fun made isMade => (areHulls made isMade).1, distinct, Or.inl rfl, ?_⟩
        · intro address
          have atStart := start.owned address
          have := owns_nonneg lost address
          rw [effectAfter.excess address]
          simp only [Pi.add_apply, Pi.sub_apply, Pi.zero_apply]
          exact atStart.trans (by omega)
        · intro address self found
          rcases objects address self
            (keptAfter address self found) with isOld | isNew
          · exact Or.inl ⟨self, self.registerId, isOld, rfl⟩
          · exact Or.inr isNew
  | ok =>
      rw [noneLost rfl] at effectLinked
      have described : Described locals linkedHeap := by
        intro made isMade self found
        obtain ⟨linked, isThere, isLinked⟩ := areLinked made isMade
        rw [isThere, Option.some.injEq] at found
        exact found ▸ ⟨isLinked.described, isLinked.noProtocols⟩
      let free : Nat → Int := -owns start.state.protocolRegistry.roots
      have ownedFree : ∀ address, owns start.state.classRegistry.roots address ≤
          start.heap.excess address + free address := by
        intro address
        have := start.owned address
        rw [ThreadsafeCompilerState.roots, owns_append, Pi.add_apply] at this
        simp only [free, Pi.neg_apply]
        omega
      have effectRegistry : Effect start.heap linkedHeap
          (free + owns start.state.protocolRegistry.roots +
            owns (locals.map Prod.snd))
          fun _ => True := by
        apply effectLinked.weaken _ fun _ _ _ => trivial
        simp only [free, owns_nil]
        abel
      apply Runs.bind
      apply Runs.registerClasses locals effectRegistry
        (fun address => (owns_nonneg _ _).trans (ownedFree address)) described
      intro after renumbered effectAfter
      apply Runs.pure
      refine ⟨locals, ?_, rfl, created,
        fun made isMade => (areHulls made isMade).1, distinct, Or.inr rfl, ?_⟩
      · intro address
        have := ownedFree address
        rw [effectAfter.excess address, ThreadsafeCompilerState.roots,
          owns_append]
        simp only [Pi.add_apply]
        omega
      · intro address self found
        obtain ⟨old, id, isOld, rfl⟩ := renumbered address self found
        rcases objects address old isOld with isThere |
          ⟨made, isMade, isAddress, isLinked⟩
        · exact Or.inl ⟨old, id, isThere, rfl⟩
        · exact Or.inr ⟨made, isMade, isAddress, isLinked.renumbered id⟩

/-- Storing protocols comes to an end in a state in which the registries own
their references. -/
theorem storeInternalProtocols_returns (start : RegistryState)
    (built : ClassDescriptions) :
    ∃ result, ∃ after : RegistryState,
      storeInternalProtocols start.state (.ok built) start.heap =
        some ((result, after.state), after.heap) := by
  obtain ⟨⟨result, state⟩, heap, isResult, locals, stored⟩ :=
    runs_storeInternalProtocols start built
  have positive : heap.Positive :=
    (keepsPositive_storeInternalProtocols built start.heap
      start.positive).of_result _ heap isResult
  exact ⟨result, ⟨state, heap, stored.owned, positive⟩, isResult⟩

end CompilerState
end ClojureRt
