import ClojureRt.CompilerState.StoreProtocols

/-!
# Extending classes

`extendInternalClasses` adds the methods of a description to a registered class
and links it to the protocols that it implements now.  A list of protocols that
is replaced is left to the reclamation, which releases what it held when nobody
reads the list any more.
-/

namespace ClojureRt
namespace CompilerState

open RefCount RefCount.Program

/-- Versions of a method go behind those that are there. -/
def mergeMethods (self other : Methods) : Methods :=
  other.foldl (fun merged method =>
    insert method.1 ((find method.1 merged).getD [] ++ method.2) merged) self

/-- `ClassDescription::merge` -/
def ClassDescription.merge (self other : ClassDescription) : ClassDescription :=
  { self with
    instanceFns := mergeMethods self.instanceFns other.instanceFns
    implements := other.implements.foldl (fun merged implemented =>
      insert implemented.1
        (mergeMethods ((find implemented.1 merged).getD []) implemented.2)
        merged)
      self.implements }

/-- `Class_addProtocol`, which returns what the list that it replaces holds. -/
def addProtocol (self proto : Nat) : Code (List Nat) := do
  retain proto
  let oldClass ← load self
  retainEach oldClass.implementedProtocols
  store self
    { oldClass with implementedProtocols := oldClass.implementedProtocols ++ [proto] }
  return oldClass.implementedProtocols

/-- Links a class to the registered ones among some protocols. -/
def addProtocols (protocolRegistry : ThreadsafeRegistry) (existing : Nat) :
    List (String × Methods) → Code (List Nat)
  | [] => return []
  | (protoName, _) :: rest => do
      match ← protocolRegistry.getCurrent protoName with
      | none => addProtocols protocolRegistry existing rest
      | some proto => do
          let retired ← addProtocol existing proto
          release proto
          let later ← addProtocols protocolRegistry existing rest
          return retired ++ later

/-- A class that is not registered is passed over. -/
def extendClass (state : ThreadsafeCompilerState) (desc : ClassDescription) :
    Code (Except String Unit × List Nat) := do
  match ← state.classRegistry.getCurrent desc.name with
  | none => return (.ok (), [])
  | some existing => do
      let self ← load existing
      match self.compilerExtension with
      | none => do
          release existing
          return (.error ("Class " ++ desc.name ++ " has no compiler metadata"), [])
      | some oldDesc => do
          store existing
            { self with compilerExtension := some (oldDesc.merge desc) }
          let retired ←
            addProtocols state.protocolRegistry existing
              (oldDesc.merge desc).implements
          release existing
          return (.ok (), retired)

/-- Every description extends its class, up to the first that throws. -/
def extendClasses (state : ThreadsafeCompilerState) :
    List ClassDescription → Code (Except String Unit × List Nat)
  | [] => return (.ok (), [])
  | desc :: descriptions => do
      match ← extendClass state desc with
      | (.error message, retired) => return (.error message, retired)
      | (.ok (), retired) => do
          let (result, later) ← extendClasses state descriptions
          return (result, retired ++ later)

/-- `extendInternalClasses`, given what `buildClasses` came to, as far as it is
about classes. -/
def extendInternalClasses (state : ThreadsafeCompilerState) :
    Except String ClassDescriptions → Code (Except String Unit × List Nat)
  | .error message => return (.error message, [])
  | .ok built => extendClasses state built.descriptions

/-! ## References -/

section Rules

variable
  {state : ThreadsafeCompilerState}
  {registry : ThreadsafeRegistry}
  {base heap : ClassHeap}
  {change : Nat → Int}

theorem Runs.addProtocol
    (effect : Effect base heap change fun _ => True)
    (nonneg : ∀ other, 0 ≤ base.excess other + change other)
    {self proto : Nat}
    (selfOwned : 0 < base.excess self + change self)
    (protoOwned : 0 < base.excess proto + change proto)
    {post : List Nat → ClassHeap → Prop}
    (holds : ∀ retired after,
      Effect base after (change + owns retired) (fun _ => True) →
        post retired after) :
    Runs (addProtocol self proto) heap post := by
  obtain ⟨protoClass, isProto⟩ := object_of_change effect protoOwned
  obtain ⟨oldClass, found⟩ := object_of_change effect selfOwned
  apply Runs.bind
  apply Runs.retain effect isProto
  intro middle same effectMiddle
  rw [← same] at found
  apply Runs.bind
  apply Runs.load found
  apply Runs.bind
  apply Runs.retainEach effectMiddle
  · intro address isIn
    rw [same] at found ⊢
    apply Heap.object_of_reference _ found
    · exact List.mem_append_left _ (List.mem_append_right _ isIn)
    · intro other
      rw [effect.excess other]
      exact nonneg other
  intro retained sameRetained effectRetained
  rw [← sameRetained] at found
  apply Runs.bind
  apply Runs.store effectRetained found
  intro after _ _ effectAfter
  apply Runs.pure
  apply holds
  apply effectAfter.weaken _ fun _ _ _ => trivial
  rw [owns_references, owns_references, owns_append, owns_singleton]
  abel

theorem Runs.addProtocols
    (effect : Effect base heap change fun _ => True)
    (owned : Owns registry base change)
    {existing : Nat}
    (existingOwned : 0 < base.excess existing + change existing)
    (implements : List (String × Methods))
    {post : List Nat → ClassHeap → Prop}
    (holds : ∀ retired after,
      Effect base after (change + owns retired) (fun _ => True) →
        post retired after) :
    Runs (addProtocols registry existing implements) heap post := by
  induction implements generalizing heap change post with
  | nil =>
      apply Runs.pure
      apply holds
      rwa [owns_nil, add_zero]
  | cons implemented implements inductionHypothesis =>
      apply Runs.bind
      apply Runs.getProtocol effect owned
      intro middle _ effectMiddle
      cases found : find implemented.1 registry.registry with
      | none =>
          rw [found, Option.toList_none, owns_nil, add_zero] at effectMiddle
          exact inductionHypothesis effectMiddle owned existingOwned holds
      | some proto =>
          rw [found, Option.toList_some, owns_singleton] at effectMiddle
          have nonneg : ∀ other,
              0 ≤ base.excess other + (change + own proto) other := by
            intro other
            have := owned.nonneg other
            have := own_nonneg proto other
            rw [Pi.add_apply]
            omega
          apply Runs.bind
          apply Runs.addProtocol effectMiddle nonneg
          · have := own_nonneg proto existing
            rw [Pi.add_apply]
            omega
          · have := owned.nonneg proto
            rw [Pi.add_apply, own_self]
            omega
          intro retired added effectAdded
          apply Runs.bind
          apply Runs.release effectAdded
          · intro other
            have := owned.nonneg other
            have := owns_nonneg retired other
            simp only [Pi.add_apply]
            omega
          intro released _ _ effectReleased
          have effectLater :
              Effect base released (change + owns retired) fun _ => True := by
            apply effectReleased.weaken _ fun _ _ => id
            abel
          apply Runs.bind
          apply inductionHypothesis effectLater
            (owned.add (owns_nonneg retired))
          · have := owns_nonneg retired existing
            rw [Pi.add_apply]
            omega
          intro later after effectAfter
          apply Runs.pure
          apply holds
          rwa [owns_append, ← add_assoc]

theorem Runs.extendClass
    (effect : Effect base heap change fun _ => True)
    (owned : ∀ other, owns state.roots other ≤ base.excess other + change other)
    (desc : ClassDescription)
    {post : Except String Unit × List Nat → ClassHeap → Prop}
    (holds : ∀ result after,
      Effect base after (change + owns result.2) (fun _ => True) →
        post result after) :
    Runs (extendClass state desc) heap post := by
  have ownedClasses : Owns state.classRegistry base change := by
    intro other
    have atRoots := owned other
    have := owns_nonneg state.protocolRegistry.roots other
    rw [ThreadsafeCompilerState.roots, owns_append, Pi.add_apply] at atRoots
    omega
  have ownedProtocols : Owns state.protocolRegistry base change := by
    intro other
    have atRoots := owned other
    have := owns_nonneg state.classRegistry.roots other
    rw [ThreadsafeCompilerState.roots, owns_append, Pi.add_apply] at atRoots
    omega
  apply Runs.bind
  apply Runs.getProtocol effect ownedClasses
  intro middle _ effectMiddle
  cases isExisting : find desc.name state.classRegistry.registry with
  | none =>
      apply Runs.pure
      apply holds
      rwa [isExisting] at effectMiddle
  | some existing =>
      rw [isExisting, Option.toList_some, owns_singleton] at effectMiddle
      have existingOwned :
          0 < base.excess existing + (change + own existing) existing := by
        have := ownedClasses.nonneg existing
        rw [Pi.add_apply, own_self]
        omega
      have released {retired : List Nat} {last : ClassHeap}
          {result : Except String Unit}
          (effectLast : Effect base last (change + own existing + owns retired)
            fun _ => True) :
          Runs (release existing >>= fun _ => pure (result, retired)) last
            post := by
        apply Runs.bind
        apply Runs.release effectLast
        · intro other
          have := ownedClasses.nonneg other
          have := owns_nonneg retired other
          simp only [Pi.add_apply]
          omega
        intro after _ _ effectAfter
        apply Runs.pure
        apply holds
        apply effectAfter.weaken _ fun _ _ => id
        abel
      obtain ⟨self, found⟩ := object_of_change effectMiddle existingOwned
      apply Runs.bind
      apply Runs.load found
      cases self.compilerExtension with
      | none =>
          apply released
          rwa [owns_nil, add_zero]
      | some oldDesc =>
          apply Runs.bind
          apply Runs.store effectMiddle found
          intro stored _ _ effectStored
          apply Runs.bind
          apply Runs.addProtocols (effectStored.weaken _ fun _ _ _ => trivial)
            (ownedProtocols.add (own_nonneg existing)) existingOwned
          · intro retired after effectAfter
            exact released effectAfter
          · rw [owns_references, owns_references, sub_self, add_zero]

theorem Runs.extendClasses
    (effect : Effect base heap change fun _ => True)
    (owned : ∀ other, owns state.roots other ≤ base.excess other + change other)
    (descriptions : List ClassDescription)
    {post : Except String Unit × List Nat → ClassHeap → Prop}
    (holds : ∀ result after,
      Effect base after (change + owns result.2) (fun _ => True) →
        post result after) :
    Runs (extendClasses state descriptions) heap post := by
  induction descriptions generalizing heap change post with
  | nil =>
      apply Runs.pure
      apply holds
      rwa [owns_nil, add_zero]
  | cons desc descriptions inductionHypothesis =>
      apply Runs.bind
      apply Runs.extendClass effect owned
      rintro ⟨result, retired⟩ middle effectMiddle
      cases result with
      | error message =>
          apply Runs.pure
          exact holds _ middle effectMiddle
      | ok =>
          apply Runs.bind
          apply inductionHypothesis effectMiddle
          · intro other
            have := owned other
            have := owns_nonneg retired other
            simp only [Pi.add_apply]
            omega
          rintro ⟨result, later⟩ after effectAfter
          apply Runs.pure
          apply holds
          rwa [owns_append, ← add_assoc]

end Rules

/-! ## Counts stay above 0 -/

section Positive

variable {state : ThreadsafeCompilerState} {registry : ThreadsafeRegistry}

theorem keepsPositive_addProtocol (self proto : Nat) :
    (addProtocol self proto).KeepsPositive :=
  .bind (.retain proto) fun _ => .bind (.load self) fun _ =>
    .bind (keepsPositive_retainEach _) fun _ =>
      .bind (.store self _) fun _ => .pure _

theorem keepsPositive_addProtocols (existing : Nat)
    (implements : List (String × Methods)) :
    (addProtocols registry existing implements).KeepsPositive := by
  induction implements with
  | nil => exact .pure _
  | cons implemented implements inductionHypothesis =>
      refine .bind (keepsPositive_getCurrent implemented.1) ?_
      intro found
      cases found with
      | none => exact inductionHypothesis
      | some proto =>
          exact .bind (keepsPositive_addProtocol existing proto) fun _ =>
            .bind (.release proto) fun _ =>
              .bind inductionHypothesis fun _ => .pure _

theorem keepsPositive_extendClass (desc : ClassDescription) :
    (extendClass state desc).KeepsPositive := by
  refine .bind (keepsPositive_getCurrent desc.name) ?_
  intro found
  cases found with
  | none => exact .pure _
  | some existing =>
      refine .bind (.load existing) ?_
      intro self
      cases self.compilerExtension with
      | none => exact .bind (.release existing) fun _ => .pure _
      | some oldDesc =>
          exact .bind (.store existing _) fun _ =>
            .bind (keepsPositive_addProtocols existing _) fun _ =>
              .bind (.release existing) fun _ => .pure _

theorem keepsPositive_extendClasses (descriptions : List ClassDescription) :
    (extendClasses state descriptions).KeepsPositive := by
  induction descriptions with
  | nil => exact .pure _
  | cons desc descriptions inductionHypothesis =>
      refine .bind (keepsPositive_extendClass desc) ?_
      rintro ⟨result, retired⟩
      cases result with
      | error message => exact .pure _
      | ok => exact .bind inductionHypothesis fun _ => .pure _

theorem keepsPositive_extendInternalClasses
    (built : Except String ClassDescriptions) :
    (extendInternalClasses state built).KeepsPositive := by
  cases built with
  | error message => exact .pure _
  | ok built => exact keepsPositive_extendClasses built.descriptions

end Positive

/-- Extending classes comes to an end.  The registries own their references
afterwards, and the reclamation owns those of the lists that were replaced. -/
theorem extendInternalClasses_returns
    (start : RegistryState)
    (built : Except String ClassDescriptions) :
    ∃ result, ∃ after : RegistryState, after.state = start.state ∧
      extendInternalClasses start.state built start.heap =
        some (result, after.heap) ∧
      ∀ address, after.heap.excess address =
        start.heap.excess address + owns result.2 address := by
  have nothing : Effect start.heap start.heap 0 fun _ => True :=
    (Effect.refl start.heap).weaken rfl fun _ _ _ => trivial
  have runs : Runs (extendInternalClasses start.state built) start.heap
    fun result after =>
      Effect start.heap after (owns result.2) fun _ => True := by
    cases built with
    | error message =>
        apply Runs.pure
        rwa [owns_nil]
    | ok built =>
        apply Runs.extendClasses nothing
        · intro other
          have := start.owned other
          rwa [Pi.zero_apply, add_zero]
        · intro result after effect
          rwa [zero_add] at effect
  obtain ⟨result, heap, isResult, effect⟩ := runs
  have owned : ∀ address,
      owns start.state.roots address ≤ heap.excess address := by
    intro address
    have := start.owned address
    have := owns_nonneg result.2 address
    rw [effect.excess]
    omega
  have positive : heap.Positive :=
    (keepsPositive_extendInternalClasses built start.heap
      start.positive).of_result _ heap isResult
  exact ⟨result, ⟨start.state, heap, owned, positive⟩, rfl, isResult,
    effect.excess⟩

end CompilerState
end ClojureRt
