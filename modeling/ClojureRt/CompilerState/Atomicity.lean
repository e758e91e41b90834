import ClojureRt.CompilerState.Counts
import ClojureRt.CompilerState.Validation

/-!
# What is left when storing classes throws

A parent that is not known is found before anything is registered, and the
classes are released again.  A class that does not conform to its protocols is
found after all classes are registered, and they stay registered: they belong to
the registries.
-/

namespace ClojureRt
namespace CompilerState

open RefCount RefCount.Program

/-! ## States -/

/-- A compiler state with the heap that its classes are on.  The registries own
their references. -/
structure RegistryState where
  state : ThreadsafeCompilerState
  heap : ClassHeap
  owned : ∀ address, owns state.roots address ≤ heap.excess address
  positive : heap.Positive

namespace RegistryState

variable (start : RegistryState)

theorem nonneg (address : Nat) : 0 ≤ start.heap.excess address :=
  (owns_nonneg _ _).trans (start.owned address)

/-- What is registered is on the heap. -/
theorem object_of_root {c : Nat} (isRoot : c ∈ start.state.roots) :
    ∃ self, start.heap.object? c = some self :=
  Heap.object_of_owned (lt_of_lt_of_le (owns_pos_of_mem isRoot) (start.owned c))

/-- Nothing refers to what is not there yet. -/
theorem excess_eq_zero {c : Nat} (isNew : start.heap.next ≤ c) :
    start.heap.excess c = 0 := by
  have := start.nonneg c
  have unused : start.heap.count c = 0 := by
    rw [Heap.count, start.heap.bounded c isNew, Cell.countOf]
  unfold Heap.excess at this ⊢
  omega

/-- References on the heap go to addresses that were used. -/
theorem refers_old
    {source target : Nat}
    (refers : start.heap.Refers source target) : target < start.heap.next := by
  obtain ⟨self, found, isReferred⟩ := refers
  obtain ⟨other, isOther⟩ :=
    Heap.object_of_reference start.nonneg found isReferred
  exact Heap.lt_next_of_object isOther

/-- What names stand for is on the heap. -/
theorem resolvable : Resolvable start.state [] start.heap := by
  intro name pc isParent
  unfold resolve at isParent
  rw [show find name ([] : LocalMap) = none from rfl,
    Option.none_or] at isParent
  apply start.object_of_root
  rcases Option.or_eq_some_iff.mp isParent with isClass | ⟨_, isProtocol⟩
  · exact List.mem_append_left _
      (List.mem_append_left _ (mem_roots_of_find isClass))
  · exact List.mem_append_right _
      (List.mem_append_left _ (mem_roots_of_find isProtocol))

end RegistryState

/-! ## Parents that are known -/

/-- The name is that of a new class, of a registered class or of a protocol. -/
def Known (state : ThreadsafeCompilerState) (built : ClassDescriptions)
    (name : String) : Prop :=
  name ∈ built.descriptions.map ClassDescription.name ∨
    (find name state.classRegistry.registry).isSome ∨
    (find name state.protocolRegistry.registry).isSome

/-- Linking stops at a class with a parent that is not known. -/
structure UnknownParent
    (state : ThreadsafeCompilerState)
    (built : ClassDescriptions)
    (linked : List ClassDescription)
    (failing : ClassDescription)
    (before : List String)
    (name : String) : Prop where
  classes : ∃ later, built.descriptions = linked ++ failing :: later
  linkedKnown : ∀ desc ∈ linked, ∀ parent ∈ desc.parentNames,
    Known state built parent
  parents : ∃ after, failing.parentNames = before ++ name :: after
  beforeKnown : ∀ parent ∈ before, Known state built parent
  unknown : ¬ Known state built name

/-- One of some classes has another one as a parent. -/
def Extends (classes : List ClassDescription) (first second : String) : Prop :=
  ∃ desc ∈ classes, desc.name = first ∧ second ∈ desc.parentNames

/-- No class is its own ancestor. -/
def Acyclic (classes : List ClassDescription) : Prop :=
  ∀ name, ¬ Relation.TransGen (Extends classes) name name

/-- A relation through names is one between names. -/
theorem transGen_of_some
    {related : String → String → Prop}
    {first : String}
    {last : Option String}
    (path : Relation.TransGen
      (fun first second => ∃ source target, first = some source ∧
        second = some target ∧
        related source target)
      (some first) last) :
    ∀ {second : String}, last = some second →
      Relation.TransGen related first second := by
  induction path with
  | single step =>
      obtain ⟨source, target, isSource, rfl, isRelated⟩ := step
      cases isSource
      intro second isSecond
      cases isSecond
      exact .single isRelated
  | tail _ step inductionHypothesis =>
      obtain ⟨source, target, rfl, rfl, isRelated⟩ := step
      intro second isSecond
      cases isSecond
      exact (inductionHypothesis rfl).tail isRelated

section Locals

variable {locals : List Local} {state : ThreadsafeCompilerState}
  {heap : ClassHeap}

theorem find_entries_isSome (name : String) :
    (find name (entries locals)).isSome ↔
      name ∈ (locals.map Prod.fst).map ClassDescription.name := by
  induction locals with
  | nil => simp [find, entries]
  | cons created locals inductionHypothesis =>
      unfold find entries at inductionHypothesis ⊢
      rw [List.map_cons, AssocList.get_cons]
      by_cases same : name = created.1.name
      · simp [same]
      · simpa [same] using inductionHypothesis

theorem mem_of_find_entries
    {name : String}
    {c : Nat}
    (found : find name (entries locals) = some c) :
    ∃ desc, (desc, c) ∈ locals ∧ desc.name = name := by
  obtain ⟨entry, isEntry, isName, isClass⟩ := AssocList.exists_mem_of_get found
  obtain ⟨created, isCreated, rfl⟩ := List.mem_map.mp isEntry
  exact ⟨created.1, isClass ▸ isCreated, (of_decide_eq_true isName).symm⟩

/-- A name stands for something if it is new or registered. -/
theorem resolve_isSome
    {built : ClassDescriptions}
    (created : locals.map Prod.fst = built.descriptions)
    (name : String) :
    (resolve state (entries locals) name).isSome ↔ Known state built name := by
  unfold resolve Known
  rw [Option.isSome_or, Option.isSome_or, Bool.or_eq_true, Bool.or_eq_true,
    find_entries_isSome, created]

/-- If all names stand for parents, each one does. -/
theorem exists_resolve_of_mapM
    {resolve : String → Option Nat}
    {names : List String}
    {parents : List Nat}
    (resolved : names.mapM resolve = some parents) :
    (∀ name ∈ names, (resolve name).isSome) ∧
      ∀ parent ∈ parents, ∃ name ∈ names, resolve name = some parent := by
  induction names generalizing parents with
  | nil =>
      cases resolved
      simp
  | cons name names inductionHypothesis =>
      rw [List.mapM_cons] at resolved
      obtain ⟨parent, isParent, others⟩ := Option.bind_eq_some_iff.mp resolved
      obtain ⟨later, isLater, isAll⟩ := Option.bind_eq_some_iff.mp others
      cases isAll
      obtain ⟨areSome, areResolved⟩ := inductionHypothesis isLater
      constructor
      · intro other isIn
        rcases List.mem_cons.mp isIn with rfl | isIn
        · rw [isParent]
          rfl
        · exact areSome other isIn
      · intro other isIn
        rcases List.mem_cons.mp isIn with rfl | isIn
        · exact ⟨name, List.mem_cons_self, isParent⟩
        · obtain ⟨isName, isOne, isResolved⟩ := areResolved other isIn
          exact ⟨isName, List.mem_cons_of_mem _ isOne, isResolved⟩

variable {resolve : String → Option Nat}

/-- Each new class has its description. -/
theorem AllLinked.described
    {result : Except String Unit}
    {lost : List Nat}
    (allLinked : AllLinked resolve heap locals result lost) :
    ∀ created ∈ locals, ∃ self, heap.object? created.2 = some self ∧
      self.compilerExtension = some created.1 ∧
        self.implementedProtocols = [] := by
  induction allLinked with
  | nil => simp
  | cons desc c parents _ isLinked _ inductionHypothesis =>
      intro created isCreated
      rcases List.mem_cons.mp isCreated with rfl | isLater
      · exact ⟨_, isLinked, rfl, rfl⟩
      · exact inductionHypothesis created isLater
  | stopped desc c message parents _ isLinked later =>
      intro created isCreated
      rcases List.mem_cons.mp isCreated with rfl | isLater
      · exact ⟨_, isLinked, rfl, rfl⟩
      · exact ⟨_, later created isLater, rfl, rfl⟩

/-- Where linking does not throw, nothing is lost and every parent was found. -/
theorem AllLinked.resolved_of_ok
    {lost : List Nat}
    (allLinked : AllLinked resolve heap locals (.ok ()) lost) :
    lost = [] ∧ ∀ desc ∈ locals.map Prod.fst, ∀ name ∈ desc.parentNames,
      (resolve name).isSome := by
  generalize isOk : (Except.ok () : Except String Unit) = result at allLinked
  induction allLinked with
  | nil => simp
  | cons desc c parents resolved _ _ inductionHypothesis =>
      obtain ⟨noneLost, areResolved⟩ := inductionHypothesis isOk
      refine ⟨noneLost, fun other isIn => ?_⟩
      rcases List.mem_cons.mp isIn with rfl | isLater
      · exact (exists_resolve_of_mapM resolved).1
      · exact areResolved other isLater
  | stopped => cases isOk

/-- Where linking stopped. -/
theorem AllLinked.stops
    {message : String}
    {lost : List Nat}
    (allLinked : AllLinked resolve heap locals (.error message) lost) :
    ∃ linked failing c later before name after,
      locals = linked ++ (failing, c) :: later ∧
      (∀ created ∈ linked, ∃ parents,
        created.1.parentNames.mapM resolve = some parents ∧
        heap.object? created.2 = some (linkedHull created.1 parents)) ∧
      failing.parentNames = before ++ name :: after ∧
      before.mapM resolve = some lost ∧
      resolve name = none ∧
      heap.object? c = some (halfLinked failing lost) ∧
      ∀ created ∈ later, heap.object? created.2 = some (hull created.1) := by
  generalize isError : (Except.error message : Except String Unit) =
    result at allLinked
  induction allLinked with
  | nil => cases isError
  | cons desc c parents resolved isLinked _ inductionHypothesis =>
      obtain ⟨linked, failing, address, later, before, name, after, rfl,
          areLinked, stops⟩ :=
        inductionHypothesis isError
      refine ⟨(desc, c) :: linked, failing, address, later, before, name, after,
        rfl, ?_, stops⟩
      intro created isCreated
      rcases List.mem_cons.mp isCreated with rfl | isLater
      · exact ⟨parents, resolved, isLinked⟩
      · exact areLinked created isLater
  | stopped desc c failure parents resolved isLinked later =>
      generalize isNames : desc.parentNames = names at resolved
      cases resolved with
      | missing before name after _ isResolved unknown =>
          exact ⟨[], desc, c, _, before, name, after, rfl,
            by simp, isNames, isResolved, unknown,
            isLinked, later⟩

/-- A parent that is no new class is one of the old ones. -/
theorem old_of_resolve
    (start : RegistryState)
    {name : String}
    {c : Nat}
    (isParent : CompilerState.resolve start.state (entries locals)
      name = some c)
    (notLocal : name ∉ (locals.map Prod.fst).map ClassDescription.name) :
    c < start.heap.next := by
  have noEntry : find name (entries locals) = none := by
    rw [← find_entries_isSome] at notLocal
    simpa using notLocal
  have isOld : CompilerState.resolve start.state [] name = some c := by
    unfold CompilerState.resolve at isParent ⊢
    rwa [noEntry] at isParent
  obtain ⟨self, found⟩ := start.resolvable name c isOld
  exact Heap.lt_next_of_object found

/-- What linking has done to the heap, and releasing the classes after it has
stopped. -/
structure Stopped
    (start : RegistryState)
    (locals : List Local)
    (linkedHeap after : ClassHeap)
    (lost : List Nat) : Prop where
  areNew : ∀ created ∈ locals, start.heap.next ≤ created.2
  old : ∀ other, other < start.heap.next →
    linkedHeap.object? other = start.heap.object? other
  onlyLocals : ∀ other self, linkedHeap.object? other = some self →
    start.heap.next ≤ other →
    other ∈ locals.map Prod.snd
  kept : ∀ other self, after.object? other = some self →
    linkedHeap.object? other = some self
  positive : after.Positive
  excess : ∀ other,
    after.excess other = start.heap.excess other + owns lost other

namespace Stopped

variable {start : RegistryState} {linkedHeap after : ClassHeap}
  {lost : List Nat}

theorem nonneg
    (stopped : Stopped start locals linkedHeap after lost)
    (other : Nat) : 0 ≤ after.excess other := by
  have := start.nonneg other
  have := owns_nonneg lost other
  rw [stopped.excess other]
  omega

/-- Old classes do not refer to new ones. -/
theorem new_of_refers
    (stopped : Stopped start locals linkedHeap after lost)
    {source target : Nat}
    (refers : after.Refers source target)
    (isNew : start.heap.next ≤ target) : start.heap.next ≤ source := by
  by_contra isOld
  obtain ⟨self, found, isReferred⟩ := refers
  have foundOld := stopped.kept source self found
  rw [stopped.old source (by omega)] at foundOld
  have := start.refers_old ⟨self, foundOld, isReferred⟩
  omega

/-- The new classes refer to one another as their descriptions extend one
another. -/
theorem extends_of_refers
    (stopped : Stopped start locals linkedHeap after lost)
    {linked : List Local}
    {failing : ClassDescription}
    {c : Nat}
    {later : List Local}
    (isLocals : locals = linked ++ (failing, c) :: later)
    (areLinked : ∀ created ∈ linked, ∃ parents,
      created.1.parentNames.mapM
        (CompilerState.resolve start.state (entries locals)) =
        some parents ∧
      linkedHeap.object? created.2 = some (linkedHull created.1 parents))
    (isHalf : linkedHeap.object? c = some (halfLinked failing lost))
    (areHulls : ∀ created ∈ later,
      linkedHeap.object? created.2 = some (hull created.1))
    (lostOld : ∀ parent ∈ lost, parent < start.heap.next)
    {source target : Nat}
    (refers : after.Refers source target)
    (isNew : start.heap.next ≤ source)
    (targetNew : start.heap.next ≤ target) :
    ∃ first second, (first, source) ∈ locals ∧ (second, target) ∈ locals ∧
      Extends (linked.map Prod.fst) first.name second.name := by
  obtain ⟨self, found, isReferred⟩ := refers
  have foundLinked := stopped.kept source self found
  obtain ⟨created, isCreated, rfl⟩ :=
    List.mem_map.mp (stopped.onlyLocals source self foundLinked isNew)
  have isPart := isCreated
  rw [isLocals, List.mem_append, List.mem_cons] at isPart
  rcases isPart with isLinked | rfl | isLater
  · obtain ⟨parents, resolved, isLinkedHull⟩ := areLinked created isLinked
    rw [isLinkedHull, Option.some.injEq] at foundLinked
    subst foundLinked
    have isParent : target ∈ parents := by
      simp only [Referencing.references, linkedHull, hull, List.append_nil,
        List.mem_append, Option.mem_toList] at isReferred
      exact isReferred.elim id List.mem_of_mem_head?
    obtain ⟨name, isName, isResolved⟩ :=
      (exists_resolve_of_mapM resolved).2 target isParent
    cases inMap : find name (entries locals) with
    | none =>
        have notLocal :
            name ∉ (locals.map Prod.fst).map ClassDescription.name := by
          rw [← find_entries_isSome, inMap]
          simp
        have := old_of_resolve start isResolved notLocal
        omega
    | some pc =>
        rw [CompilerState.resolve, inMap, Option.some_or,
          Option.some.injEq] at isResolved
        subst isResolved
        obtain ⟨second, isSecond, rfl⟩ := mem_of_find_entries inMap
        exact ⟨created.1, second, isCreated, isSecond, created.1,
          List.mem_map.mpr ⟨created, isLinked, rfl⟩, rfl, isName⟩
  · rw [isHalf, Option.some.injEq] at foundLinked
    subst foundLinked
    simp only [Referencing.references, halfLinked, hull, List.append_nil,
      List.nil_append, Option.mem_toList] at isReferred
    have := lostOld target (List.mem_of_mem_head? isReferred)
    omega
  · rw [areHulls created isLater, Option.some.injEq] at foundLinked
    subst foundLinked
    simp [Referencing.references, hull] at isReferred

/-- The name of the class at an address. -/
def nameAt (heap : ClassHeap) (c : Nat) : Option String :=
  (heap.object? c).bind fun self =>
    self.compilerExtension.map ClassDescription.name

/-- What is left after linking has stopped. -/
theorem unknownParent
    (stopped : Stopped start locals linkedHeap after lost)
    {built : ClassDescriptions}
    (created : locals.map Prod.fst = built.descriptions)
    {message : String}
    (allLinked : AllLinked (CompilerState.resolve start.state (entries locals))
      linkedHeap locals (.error message) lost) :
    ∃ linked failing before name,
      UnknownParent start.state built linked failing before name ∧
      ((∀ parent ∈ before,
        parent ∉ built.descriptions.map ClassDescription.name) →
        Acyclic linked → ∀ c, start.heap.next ≤ c → after.cells c = none) := by
  obtain ⟨linked, failing, c, later, before, name, rest, isLocals, areLinked,
    isNames, resolved,
    unknown, isHalf, areHulls⟩ := allLinked.stops
  refine ⟨linked.map Prod.fst, failing, before, name,
    ⟨?_, ?_, ⟨rest, isNames⟩, ?_, ?_⟩, ?_⟩
  · refine ⟨later.map Prod.fst, ?_⟩
    rw [← created, isLocals, List.map_append, List.map_cons]
  · intro desc isDesc parent isParent
    obtain ⟨linkedOne, isLinked, rfl⟩ := List.mem_map.mp isDesc
    obtain ⟨parents, isResolved, _⟩ := areLinked linkedOne isLinked
    exact (resolve_isSome created parent).mp
      ((exists_resolve_of_mapM isResolved).1 parent isParent)
  · intro parent isParent
    exact (resolve_isSome created parent).mp
      ((exists_resolve_of_mapM resolved).1 parent isParent)
  · rw [← resolve_isSome created, unknown]
    simp
  · intro noLocal acyclic address isNew
    have lostOld : ∀ parent ∈ lost, parent < start.heap.next := by
      intro parent isLost
      obtain ⟨parentName, isName, isResolved⟩ :=
        (exists_resolve_of_mapM resolved).2 parent isLost
      apply old_of_resolve start isResolved
      rw [created]
      exact noLocal parentName isName
    have named {desc : ClassDescription} {c : Nat}
        (isLocal : (desc, c) ∈ locals)
        {self : Class} (found : after.object? c = some self) :
        nameAt after c = some desc.name := by
      obtain ⟨linkedSelf, isSelf, described, _⟩ :=
        allLinked.described (desc, c) isLocal
      rw [stopped.kept c self found, Option.some.injEq] at isSelf
      subst isSelf
      rw [nameAt, found, Option.bind_some, described, Option.map_some]
    apply Heap.cells_eq_none_of_acyclic (fun c => start.heap.next ≤ c)
      stopped.positive
    · intro other isNew
      have noneLost : owns lost other = 0 := by
        rw [owns, Int.natCast_eq_zero, List.count_eq_zero]
        intro isLost
        have := lostOld other isLost
        omega
      rw [stopped.excess, start.excess_eq_zero isNew, noneLost, add_zero]
    · exact fun _ _ refers => stopped.new_of_refers refers
    · intro other cycle
      have lifted : Relation.TransGen
          (fun first second => ∃ source target, first = some source ∧
            second = some target ∧
            Extends (linked.map Prod.fst) source target)
          (nameAt after other) (nameAt after other) := by
        apply cycle.lift (nameAt after)
        rintro source target ⟨refers, sourceNew, targetNew⟩
        obtain ⟨first, second, isFirst, isSecond,
          isExtending⟩ := stopped.extends_of_refers
          isLocals areLinked isHalf areHulls lostOld refers sourceNew targetNew
        obtain ⟨self, found, isReferred⟩ := refers
        obtain ⟨targetSelf, targetFound⟩ :=
          Heap.object_of_reference stopped.nonneg found isReferred
        exact ⟨first.name, second.name, named isFirst found,
          named isSecond targetFound,
          isExtending⟩
      obtain ⟨name, isName⟩ : ∃ name, nameAt after other = some name := by
        cases lifted with
        | single step =>
            obtain ⟨source, _, isSource, _⟩ := step
            exact ⟨source, isSource⟩
        | tail _ step =>
            obtain ⟨_, target, _, isTarget, _⟩ := step
            exact ⟨target, isTarget⟩
      apply acyclic name
      rw [isName] at lifted
      exact transGen_of_some lifted rfl
    · exact isNew

end Stopped

end Locals

/-! ## What is registered -/

section Registered

variable {registry : ThreadsafeRegistry} {locals : List Local}

/-- The other names stand for what they stood for. -/
theorem find_withClasses_of_notMem
    {name : String}
    (notLocal : name ∉ (locals.map Prod.fst).map ClassDescription.name) :
    find name (registry.withClasses locals).registry =
      find name registry.registry := by
  induction locals generalizing registry with
  | nil => rfl
  | cons created locals inductionHypothesis =>
      rw [List.map_cons, List.map_cons, List.mem_cons, not_or] at notLocal
      have later := @inductionHypothesis (registry.withClass created) notLocal.2
      rw [ThreadsafeRegistry.withClasses, List.foldl_cons,
        ← ThreadsafeRegistry.withClasses, later]
      exact (find_insert _ _ _ _).trans (if_neg notLocal.1)

/-- Every class is found by its name. -/
theorem find_withClasses
    (distinct : ((locals.map Prod.fst).map ClassDescription.name).Nodup)
    {created : Local}
    (isCreated : created ∈ locals) :
    find created.1.name (registry.withClasses locals).registry =
      some created.2 := by
  induction locals generalizing registry with
  | nil => cases isCreated
  | cons first locals inductionHypothesis =>
      rw [List.map_cons, List.map_cons, List.nodup_cons] at distinct
      rw [ThreadsafeRegistry.withClasses, List.foldl_cons,
        ← ThreadsafeRegistry.withClasses]
      rcases List.mem_cons.mp isCreated with rfl | isLater
      · rw [find_withClasses_of_notMem distinct.1]
        exact (find_insert _ _ _ _).trans (if_pos rfl)
      · exact inductionHypothesis distinct.2 isLater

/-- Every number is that of the class it was the number of before, or of a new
class. -/
theorem find_withClasses_indexed (id : Int) :
    find id (registry.withClasses locals).indexedRegistry =
      find id registry.indexedRegistry ∨
      ∃ created ∈ locals,
        find id (registry.withClasses locals).indexedRegistry =
          some created.2 := by
  induction locals generalizing registry with
  | nil => exact Or.inl rfl
  | cons created locals inductionHypothesis =>
      rw [ThreadsafeRegistry.withClasses, List.foldl_cons,
        ← ThreadsafeRegistry.withClasses]
      rcases @inductionHypothesis (registry.withClass created) with unchanged |
        isLater
      · rw [unchanged]
        have inserted := find_insert
          ((registry.named created.1.name created.2).chooseIndex
            (created.1.type.getD (-1))).1 id
          created.2 registry.indexedRegistry
        split at inserted
        · exact Or.inr ⟨created, List.mem_cons_self, inserted⟩
        · exact Or.inl inserted
      · obtain ⟨later, isIn, isLater⟩ := isLater
        exact Or.inr ⟨later, List.mem_cons_of_mem _ isIn, isLater⟩

/-- Registering never takes a number back. -/
theorem currentIndex_le_withClasses :
    registry.currentIndex ≤ (registry.withClasses locals).currentIndex := by
  induction locals generalizing registry with
  | nil => exact le_refl _
  | cons created locals inductionHypothesis =>
      rw [ThreadsafeRegistry.withClasses, List.foldl_cons,
        ← ThreadsafeRegistry.withClasses]
      apply le_trans _ inductionHypothesis
      simp only [ThreadsafeRegistry.withClass, ThreadsafeRegistry.numbered,
        ThreadsafeRegistry.named, ThreadsafeRegistry.chooseIndex]
      split <;> split <;> omega

end Registered

/-! ## Throwing -/

/-- What is left when storing classes throws.

Where the descriptions cannot be built or a parent is not known, the compiler
state is as it was.  The classes are freed if the class that fails has no new
class before the unknown one among its parents, and no class that was linked
before is its own ancestor.

Where a class does not conform to its protocols, the new classes are registered
by their names, everything else is registered as before, and the counts are
accounted for by what the registries have come to own. -/
inductive Throws (start : RegistryState) :
    Except String ClassDescriptions → RegistryState → Prop
  | notBuilt (message : String) : Throws start (.error message) start
  | unknownParent
      (built : ClassDescriptions)
      (after : RegistryState)
      (linked : List ClassDescription)
      (failing : ClassDescription)
      (before : List String)
      (name : String)
      (unknown : UnknownParent start.state built linked failing before name)
      (unchanged : after.state = start.state)
      (released :
        (∀ parent ∈ before,
          parent ∉ built.descriptions.map ClassDescription.name) →
          Acyclic linked → ∀ c, start.heap.next ≤ c →
            after.heap.cells c = none) :
      Throws start (.ok built) after
  | nonconforming
      (built : ClassDescriptions)
      (after : RegistryState)
      (locals : List Local)
      (known : ∀ desc ∈ built.descriptions, ∀ parent ∈ desc.parentNames,
        Known start.state built parent)
      (created : locals.map Prod.fst = built.descriptions)
      (registered : ∀ created ∈ locals, start.heap.next ≤ created.2 ∧
        find created.1.name after.state.classRegistry.registry =
          some created.2 ∧
        ∃ self, after.heap.object? created.2 = some self)
      (otherNames : ∀ name,
        name ∉ built.descriptions.map ClassDescription.name →
        find name after.state.classRegistry.registry =
          find name start.state.classRegistry.registry)
      (ids : ∀ id,
        find id after.state.classRegistry.indexedRegistry =
          find id start.state.classRegistry.indexedRegistry ∨
        ∃ created ∈ locals,
          find id after.state.classRegistry.indexedRegistry = some created.2)
      (nextId : start.state.classRegistry.currentIndex ≤
        after.state.classRegistry.currentIndex)
      (balanced : ∀ address,
        after.heap.excess address - owns after.state.roots address =
          start.heap.excess address - owns start.state.roots address) :
      Throws start (.ok built) after

theorem map_snd_entries (locals : List Local) :
    (entries locals).map Prod.snd = locals.map Prod.snd := by
  simp [entries]

/-- Creating and linking the classes, and what follows. -/
theorem runs_storeInternalClasses
    (start : RegistryState)
    (built : ClassDescriptions) :
    Runs (storeInternalClasses start.state (.ok built)) start.heap
      fun result after =>
      (∀ address, owns result.2.roots address ≤ after.excess address) ∧
      (∀ positive : after.Positive, ∀ owned, ∀ message,
        result.1 = .error message →
        result.2.protocolRegistry = start.state.protocolRegistry ∧
        result.2.globalMethodICEpoch = start.state.globalMethodICEpoch ∧
        Throws start (.ok built) ⟨result.2, after, owned, positive⟩) := by
  have nothing : Effect start.heap start.heap 0 fun _ => False :=
    .refl start.heap
  apply Runs.bind
  apply Runs.createHulls nothing built.descriptions
    (by simpa using built.distinct)
  intro locals middle created areHulls distinct kept onlyLocals effectMiddle
  rw [List.nil_append]
  have resolvable : Resolvable start.state (entries locals) middle := by
    intro name pc isParent
    cases inMap : find name (entries locals) with
    | some c =>
        rw [resolve, inMap, Option.some_or, Option.some.injEq] at isParent
        obtain ⟨desc, isLocal, _⟩ := mem_of_find_entries inMap
        exact ⟨_, isParent ▸ (areHulls (desc, c) isLocal).2⟩
    | none =>
        have isOld : resolve start.state [] name = some pc := by
          unfold resolve at isParent ⊢
          rwa [inMap] at isParent
        obtain ⟨self, found⟩ := start.resolvable name pc isOld
        exact ⟨self, by rw [kept pc (Heap.lt_next_of_object found), found]⟩
  apply Runs.bind
  apply Runs.linkInheritance effectMiddle resolvable locals
    (fun created isCreated => (areHulls created isCreated).2) distinct
  intro result lost linkedHeap allLinked others effectLinked
  cases result with
  | error message =>
      apply Runs.bind
      rw [map_snd_entries]
      apply Runs.releaseEach effectLinked
      · intro address
        have := start.nonneg address
        have := owns_nonneg lost address
        simp only [Pi.add_apply, Pi.zero_apply]
        omega
      · intro after keptAfter effectAfter
        apply Runs.pure
        have excess : ∀ address,
            after.excess address = start.heap.excess address +
              owns lost address := by
          intro address
          rw [effectAfter.excess address]
          simp only [Pi.add_apply, Pi.sub_apply, Pi.zero_apply]
          ring
        constructor
        · intro address
          have atStart := start.owned address
          have := owns_nonneg lost address
          rw [excess address]
          exact atStart.trans (by omega)
        · intro positive owned message' isError
          refine ⟨rfl, rfl, ?_⟩
          have notLocal {other : Nat} (below : other < start.heap.next) :
              other ∉ locals.map Prod.snd := by
            intro isLocal
            obtain ⟨created, isCreated, rfl⟩ := List.mem_map.mp isLocal
            have := (areHulls created isCreated).1
            omega
          have stopped : Stopped start locals linkedHeap after lost := by
            refine ⟨fun created isCreated => (areHulls created isCreated).1, ?_,
              ?_, keptAfter,
              positive, excess⟩
            · intro other below
              rw [others other (notLocal below), kept other below]
            · intro other self found isNew
              by_contra notIn
              rw [others other notIn] at found
              exact notIn (onlyLocals other self found isNew)
          obtain ⟨linked, failing, before, name, unknown, released⟩ :=
            stopped.unknownParent created allLinked
          exact .unknownParent built _ linked failing before name unknown rfl
            released
  | ok =>
      obtain ⟨rfl, resolved⟩ := allLinked.resolved_of_ok
      have described : Described locals linkedHeap := by
        intro made isMade self found
        obtain ⟨linkedSelf, isSelf, isDescribed⟩ :=
          allLinked.described made isMade
        rw [isSelf, Option.some.injEq] at found
        exact found ▸ isDescribed
      let free : Nat → Int := -owns start.state.classRegistry.roots
      have ownedFree : Owns start.state.protocolRegistry start.heap free := by
        intro address
        have := start.owned address
        rw [ThreadsafeCompilerState.roots, owns_append, Pi.add_apply] at this
        simp only [free, Pi.neg_apply]
        omega
      have effectRegistry : Effect start.heap linkedHeap
          (free + owns start.state.classRegistry.roots +
            owns (locals.map Prod.snd))
          fun _ => True := by
        apply effectLinked.weaken _ fun _ _ _ => trivial
        simp only [free, owns_nil]
        abel
      apply Runs.bind
      apply Runs.registerClasses locals effectRegistry ownedFree.nonneg
        described
      intro registered renumbered effectRegistered
      generalize isRegistry : start.state.classRegistry.withClasses locals =
        classRegistry
        at effectRegistered
      have distinctNames :
          ((locals.map Prod.fst).map ClassDescription.name).Nodup := by
        rw [created]
        exact built.distinct
      have isFound : ∀ made ∈ locals,
          find made.1.name classRegistry.registry = some made.2 := by
        rw [← isRegistry]
        exact fun made isMade => find_withClasses distinctNames isMade
      have owned : Owns start.state.protocolRegistry start.heap
          (free + owns classRegistry.roots) := ownedFree.add (owns_nonneg _)
      have held : ∀ made ∈ locals,
          0 < start.heap.excess made.2 + (free + owns classRegistry.roots)
            made.2 := by
        intro made isMade
        have := ownedFree.nonneg made.2
        have isRoot : made.2 ∈ classRegistry.roots :=
          List.mem_append_left _ (mem_roots_of_find (isFound made isMade))
        have := owns_pos_of_mem isRoot
        rw [Pi.add_apply]
        omega
      apply Runs.bind
      apply Runs.linkProtocols locals effectRegistered owned held distinct
        (described.of_renumbered renumbered)
      intro implementing _ effectImplementing
      apply Runs.bind
      rw [map_snd_entries]
      apply Runs.validateProtocolImplementations effectImplementing owned
      · intro c isClass
        obtain ⟨made, isMade, rfl⟩ := List.mem_map.mp isClass
        exact held made isMade
      · intro result after _ effectAfter
        have ownedAfter : ∀ address,
            owns classRegistry.roots address +
              owns start.state.protocolRegistry.roots address ≤
                after.excess address := by
          intro address
          have := ownedFree address
          rw [effectAfter.excess address, Pi.add_apply]
          omega
        cases result with
        | ok =>
            apply Runs.pure
            constructor
            · intro address
              rw [ThreadsafeCompilerState.roots, owns_append]
              exact ownedAfter address
            · intro _ _ message isError
              cases isError
        | error message =>
            apply Runs.pure
            constructor
            · intro address
              rw [ThreadsafeCompilerState.roots, owns_append]
              exact ownedAfter address
            · intro positive ownedRoots message' _
              refine ⟨rfl, rfl,
                .nonconforming built _ locals ?_ created ?_ ?_ ?_ ?_ ?_⟩
              · intro desc isDesc parent isParent
                rw [← created] at isDesc
                exact (resolve_isSome created parent).mp
                  (resolved desc isDesc parent isParent)
              · intro made isMade
                refine ⟨(areHulls made isMade).1, isFound made isMade, ?_⟩
                exact object_of_change effectAfter (held made isMade)
              · intro name notNew
                rw [← created] at notNew
                change find name classRegistry.registry = _
                rw [← isRegistry]
                exact find_withClasses_of_notMem notNew
              · intro id
                change find id classRegistry.indexedRegistry = _ ∨
                  ∃ created ∈ locals, find id classRegistry.indexedRegistry = _
                rw [← isRegistry]
                exact find_withClasses_indexed id
              · change _ ≤ classRegistry.currentIndex
                rw [← isRegistry]
                exact currentIndex_le_withClasses
              · intro address
                simp only [ThreadsafeCompilerState.roots, owns_append,
                  Pi.add_apply]
                rw [effectAfter.excess address]
                simp only [free, Pi.add_apply, Pi.neg_apply]
                ring

/-- Storing classes always comes to an end, and the registries own their
references afterwards.  If it throws, the protocols and the epoch are as before,
and of the classes only those that a protocol check has rejected stay
registered. -/
theorem storeInternalClasses_throws
    (start : RegistryState)
    (built : Except String ClassDescriptions) :
    ∃ result, ∃ after : RegistryState,
      storeInternalClasses start.state built start.heap =
        some ((result, after.state), after.heap) ∧
      ∀ message, result = .error message →
        after.state.protocolRegistry = start.state.protocolRegistry ∧
        after.state.globalMethodICEpoch = start.state.globalMethodICEpoch ∧
        Throws start built after := by
  cases built with
  | error message =>
      refine ⟨.error message, start, rfl,
        fun _ _ => ⟨rfl, rfl, .notBuilt message⟩⟩
  | ok built =>
      obtain ⟨⟨result, state⟩, after, isResult, owned, throws⟩ :=
        runs_storeInternalClasses start built
      have positive : after.Positive :=
        (keepsPositive_storeInternalClasses (.ok built) start.heap
          start.positive).of_result
          _ after isResult
      exact ⟨result, ⟨state, after, owned, positive⟩, isResult,
        throws positive owned⟩

/-! ### All or nothing -/

/-- If storing classes throws, the class registries, the next free number and
the epoch are as before, and every new class is freed. -/
def AllOrNothing (start : RegistryState)
    (built : Except String ClassDescriptions) : Prop :=
  ∀ message state after,
    storeInternalClasses start.state built start.heap =
      some ((.error message, state), after) →
      (∀ name, find name state.classRegistry.registry =
        find name start.state.classRegistry.registry) ∧
      (∀ id, find id state.classRegistry.indexedRegistry =
        find id start.state.classRegistry.indexedRegistry) ∧
      state.classRegistry.currentIndex =
        start.state.classRegistry.currentIndex ∧
      state.globalMethodICEpoch = start.state.globalMethodICEpoch ∧
      ∀ c, start.heap.next ≤ c → after.cells c = none

/-- Whether storing classes throws and leaves something behind. -/
def throwsLeaving
    (start : RegistryState)
    (built : ClassDescriptions)
    (isLeft : ThreadsafeCompilerState → ClassHeap → Bool) : Bool :=
  match storeInternalClasses start.state (.ok built) start.heap with
  | some ((.error _, state), after) => isLeft state after
  | _ => false

/-- A check that a call throws, and of what it leaves. -/
theorem exists_run_of_throwsLeaving
    (start : RegistryState)
    (built : ClassDescriptions)
    (isLeft : ThreadsafeCompilerState → ClassHeap → Bool)
    (throws : throwsLeaving start built isLeft = true) :
    ∃ message state after,
      storeInternalClasses start.state (.ok built) start.heap =
      some ((.error message, state), after) ∧ isLeft state after = true := by
  unfold throwsLeaving at throws
  split at throws
  · next message state after isResult =>
      exact ⟨message, state, after, isResult, throws⟩
  · cases throws

/-- A class without members as `buildClasses` describes it.  A number is always
there: the one that is given, or the next from 1000 on.  A parent has a field of
its own only where it is the only one, given as a symbol. -/
def plainClass
    (id : Nat)
    (name : String)
    (parentNames : List String)
    (implements : List (String × Methods)) : ClassDescription where
  type := some id
  name := name
  parentName :=
    match parentNames with
    | [parentName] => parentName
    | _ => ""
  parentNames := parentNames
  instanceFns := []
  implements := implements

/-- The protocol `P1` with one method, which takes `:this` only. -/
def oneMethod : ClassDescription :=
  { plainClass 1000 "P1" [] [] with
    instanceFns := [("f1", [⟨[.ofType (.custom 1000) false none], true⟩])] }

/-- A compiler state in which `P1` was stored. -/
def withProtocol : RegistryState where
  state := ⟨⟨[], [], 1000⟩, ⟨[("P1", 0)], [(1000, 0)], 2000⟩, 1⟩
  heap := Heap.empty.set 0 (some { count := 2, object := hull oneMethod })
  owned := by
    intro address
    rw [Heap.excess_set]
    by_cases isZero : address = 0
    · subst isZero
      decide
    · simp [ThreadsafeCompilerState.roots, ThreadsafeRegistry.roots, owns,
        Heap.excess, Heap.count, Heap.incoming, Heap.referencesAt, Heap.empty,
        Cell.countOf, Cell.referencesOf, Referencing.references, hull, isZero,
        Ne.symm isZero]
  positive := by
    apply Heap.Positive.set
    · intro address cell found
      cases found
    · intro stored isStored
      cases isStored
      decide

/-- A class that lacks a method of its protocol stays registered.  A class
before an unknown parent, and a class that is its own parent, are not freed. -/
theorem not_allOrNothing :
    ¬ AllOrNothing withProtocol
      (.ok ⟨[plainClass 1000 "C1" [] [("P1", [])]], by decide⟩) ∧
    ¬ AllOrNothing withProtocol
      (.ok ⟨[plainClass 1000 "A" [] [], plainClass 1001 "B" ["A", "Unknown"] []],
        by decide⟩) ∧
    ¬ AllOrNothing withProtocol
      (.ok ⟨[plainClass 1000 "A" ["A"] [], plainClass 1001 "B" ["Unknown"] []],
        by decide⟩) := by
  refine ⟨fun allOrNothing => ?_, fun allOrNothing => ?_,
    fun allOrNothing => ?_⟩
  · obtain ⟨message, state, after, isResult,
      isLeft⟩ := exists_run_of_throwsLeaving
      withProtocol ⟨[plainClass 1000 "C1" [] [("P1", [])]], by decide⟩
      (fun state _ => (find "C1" state.classRegistry.registry).isSome) (by decide)
    rw [(allOrNothing message state after isResult).1] at isLeft
    cases isLeft
  · obtain ⟨message, state, after, isResult,
      isLeft⟩ := exists_run_of_throwsLeaving
      withProtocol
      ⟨[plainClass 1000 "A" [] [], plainClass 1001 "B" ["A", "Unknown"] []], by decide⟩
      (fun _ after => (after.cells 1).isSome) (by decide)
    rw [(allOrNothing message state after isResult).2.2.2.2 1
      (by decide)] at isLeft
    cases isLeft
  · obtain ⟨message, state, after, isResult,
      isLeft⟩ := exists_run_of_throwsLeaving
      withProtocol
      ⟨[plainClass 1000 "A" ["A"] [], plainClass 1001 "B" ["Unknown"] []], by decide⟩
      (fun _ after => (after.cells 1).isSome) (by decide)
    rw [(allOrNothing message state after isResult).2.2.2.2 1
      (by decide)] at isLeft
    cases isLeft

end CompilerState
end ClojureRt
