import ClojureRt.CompilerState.Conditions
import ClojureRt.CompilerState.Instances
import ClojureRt.Lib.TransitionSystem

/-!
# The hierarchy of classes

Classes are put into layers.  The protocols are below the classes, and on either
side a parent is below what it is a parent of.  As long as no class of a call is
its own ancestor there, and no protocol extends a class, storing and extending
keeps the layers, whether it throws or not.  So an instance check comes to an
end.
-/

namespace ClojureRt
namespace CompilerState

open RefCount RefCount.Program Search

/-! ## Layers -/

/-- Which addresses are protocols, and an order in which a parent of the same
kind comes before. -/
structure Layers where
  IsProtocol : Nat → Prop
  below : Nat → Nat → Prop
  wellFounded : WellFounded below

namespace Layers

/-- A parent comes before a class. -/
def Lower (layers : Layers) (parent address : Nat) : Prop :=
  layers.IsProtocol parent ∧ ¬ layers.IsProtocol address ∨
    (layers.IsProtocol parent ↔ layers.IsProtocol address) ∧
    layers.below parent address

/-- Protocols come before classes, and each kind in its own order, so that no
chain of parents is infinite. -/
theorem wellFounded_lower (layers : Layers) : WellFounded layers.Lower := by
  have ofProtocol (address : Nat) : layers.IsProtocol address →
      Acc layers.Lower address := by
    induction address using layers.wellFounded.induction with
    | _ address inductionHypothesis =>
        intro isProtocol
        constructor
        rintro parent (⟨_, isClass⟩ | ⟨sameSide, isBelow⟩)
        · exact absurd isProtocol isClass
        · exact inductionHypothesis parent isBelow (sameSide.mpr isProtocol)
  constructor
  intro address
  induction address using layers.wellFounded.induction with
  | _ address inductionHypothesis =>
      constructor
      rintro parent (⟨isProtocol, _⟩ | ⟨_, isBelow⟩)
      · exact ofProtocol parent isProtocol
      · exact inductionHypothesis parent isBelow

/-- The layers with new addresses.  They are above the old ones, and related to
one another. -/
def grow
    (layers : Layers)
    (next : Nat)
    (areProtocols : Prop)
    (related : Nat → Nat → Prop)
    (wellFounded : WellFounded related) : Layers where
  IsProtocol := fun address =>
    address < next ∧ layers.IsProtocol address ∨ next ≤ address ∧ areProtocols
  below := fun parent address =>
    address < next ∧ parent < next ∧ layers.below parent address ∨
      next ≤ address ∧ (parent < next ∨ related parent address)
  wellFounded := by
    have ofOld (address : Nat) (isOld : address < next) :
        Acc (fun parent address =>
          address < next ∧ parent < next ∧ layers.below parent address ∨
            next ≤ address ∧ (parent < next ∨ related parent address))
              address := by
      induction address using layers.wellFounded.induction with
      | _ address inductionHypothesis =>
          constructor
          rintro parent (⟨_, parentOld, isBelow⟩ | ⟨isNew, _⟩)
          · exact inductionHypothesis parent isBelow parentOld
          · omega
    constructor
    intro address
    induction address using wellFounded.induction with
    | _ address inductionHypothesis =>
        constructor
        rintro parent (⟨_, parentOld, _⟩ | ⟨_, parentOld | isRelated⟩)
        · exact ofOld parent parentOld
        · exact ofOld parent parentOld
        · exact inductionHypothesis parent isRelated

section Grow

variable
  {layers : Layers}
  {next : Nat}
  {areProtocols : Prop}
  {related : Nat → Nat → Prop}
  {wellFounded : WellFounded related}
  {parent address : Nat}

theorem grow_isProtocol_old (isOld : address < next) :
    (layers.grow next areProtocols related wellFounded).IsProtocol address ↔
      layers.IsProtocol address := by
  simp [grow, isOld, Nat.not_le.mpr isOld]

theorem grow_isProtocol_new (isNew : next ≤ address) :
    (layers.grow next areProtocols related wellFounded).IsProtocol address ↔
    areProtocols := by
  simp [grow, isNew, Nat.not_lt.mpr isNew]

theorem grow_lower_old
    (isOld : address < next)
    (parentOld : parent < next)
    (lower : layers.Lower parent address) :
    (layers.grow next areProtocols related wellFounded).Lower parent
    address := by
  unfold Lower at lower ⊢
  rw [grow_isProtocol_old isOld, grow_isProtocol_old parentOld]
  exact lower.imp_right fun sameSide =>
    ⟨sameSide.1, Or.inl ⟨isOld, parentOld, sameSide.2⟩⟩

theorem grow_lower_new
    (isNew : next ≤ address)
    (parentOld : parent < next)
    (ofProtocols : areProtocols → layers.IsProtocol parent) :
    (layers.grow next areProtocols related wellFounded).Lower parent
    address := by
  unfold Lower
  rw [grow_isProtocol_new isNew, grow_isProtocol_old parentOld]
  have isBelow :
      (layers.grow next areProtocols related wellFounded).below parent
      address :=
    Or.inr ⟨isNew, Or.inl parentOld⟩
  tauto

theorem grow_lower_related
    (isNew : next ≤ address)
    (parentNew : next ≤ parent)
    (isRelated : related parent address) :
    (layers.grow next areProtocols related wellFounded).Lower parent
    address := by
  right
  rw [grow_isProtocol_new isNew, grow_isProtocol_new parentNew]
  exact ⟨Iff.rfl, Or.inr ⟨isNew, Or.inr isRelated⟩⟩

end Grow

end Layers

/-- The parents of a class are in the layers where they have to be. -/
structure Placed (layers : Layers) (address : Nat) (placed : Class) : Prop where
  superclasses : ∀ parent ∈ placed.superclasses, layers.Lower parent address
  protocols : ∀ proto ∈ placed.implementedProtocols,
    layers.IsProtocol proto ∧ ¬ layers.IsProtocol address

theorem Placed.lower
    {layers : Layers}
    {heap : ClassHeap}
    (all : heap.All (Placed layers))
    {source target : Nat}
    (edge : Edge (parents heap) source target) :
    layers.Lower target source := by
  unfold Edge parents at edge
  cases found : heap.object? source with
  | none =>
      rw [found] at edge
      cases edge
  | some self =>
      rw [found] at edge
      have placed := all source self found
      rcases List.mem_append.mp edge with isSuperclass | isProtocol
      · exact placed.superclasses target isSuperclass
      · exact Or.inl (placed.protocols target isProtocol)

theorem ends_of_placed
    {layers : Layers}
    {heap : ClassHeap}
    (all : heap.All (Placed layers))
    (target : Nat) : Ends (parents heap) target :=
  Subrelation.accessible (Placed.lower all)
    (layers.wellFounded_lower.apply target)

/-! ## Classes that extend one another -/

/-- Where no class is its own ancestor, going to the parents comes to an end. -/
theorem Acyclic.wellFounded
    {classes : List ClassDescription}
    (acyclic : Acyclic classes) :
    WellFounded fun second first => Extends classes first second := by
  let Name := {name : String // name ∈ classes.map ClassDescription.name}
  let before : Name → Name → Prop := fun second first =>
    Relation.TransGen (Extends classes) first.1 second.1
  have isTrans : IsTrans Name before :=
    ⟨fun _ _ _ first second => second.trans first⟩
  have isIrrefl : Std.Irrefl before := ⟨fun name => acyclic name.1⟩
  have isFinite : Finite Name := List.finite_toSet _
  have wellFounded : WellFounded before :=
    Finite.wellFounded_of_trans_of_irrefl before
  have ofOther {name : String}
      (notName : name ∉ classes.map ClassDescription.name) :
      Acc (fun second first => Extends classes first second) name := by
    constructor
    rintro second ⟨desc, isClass, rfl, _⟩
    exact absurd (List.mem_map.mpr ⟨desc, isClass, rfl⟩) notName
  have ofName (name : Name) :
      Acc (fun second first => Extends classes first second) name.1 := by
    induction name using wellFounded.induction with
    | _ name inductionHypothesis =>
        constructor
        intro second isParent
        by_cases isName : second ∈ classes.map ClassDescription.name
        · exact inductionHypothesis ⟨second, isName⟩ (.single isParent)
        · exact ofOther isName
  constructor
  intro name
  by_cases isName : name ∈ classes.map ClassDescription.name
  · exact ofName ⟨name, isName⟩
  · exact ofOther isName

/-- New classes are related as their descriptions extend one another. -/
def Related (classes : List ClassDescription) (nameOf : Nat → String)
    (parent address : Nat) :
    Prop :=
  Extends classes (nameOf address) (nameOf parent)

theorem Acyclic.wellFounded_related
    {classes : List ClassDescription}
    (acyclic : Acyclic classes)
    (nameOf : Nat → String) : WellFounded (Related classes nameOf) :=
  InvImage.wf nameOf acyclic.wellFounded

/-- The classes at different addresses have names. -/
theorem exists_nameOf
    {locals : List Local}
    (distinct : (locals.map Prod.snd).Nodup) :
    ∃ nameOf : Nat → String, ∀ made ∈ locals, nameOf made.2 = made.1.name := by
  induction locals with
  | nil => exact ⟨fun _ => "", by simp⟩
  | cons created locals inductionHypothesis =>
      rw [List.map_cons, List.nodup_cons] at distinct
      obtain ⟨nameOf, areNames⟩ := inductionHypothesis distinct.2
      refine ⟨Function.update nameOf created.2 created.1.name, ?_⟩
      rw [List.forall_mem_cons]
      refine ⟨Function.update_self .., fun made isLater => ?_⟩
      have isOther : made.2 ≠ created.2 := by
        intro same
        exact distinct.1 (List.mem_map.mpr ⟨made, isLater, same⟩)
      rw [Function.update_of_ne isOther, areNames made isLater]

/-! ## Runs -/

/-- The classes on the heap and in the registries are in their layers. -/
structure Sorted (layers : Layers) (start : RegistryState) : Prop where
  placed : start.heap.All (Placed layers)
  protocols : ∀ root ∈ start.state.protocolRegistry.roots,
    layers.IsProtocol root
  classes : ∀ root ∈ start.state.classRegistry.roots, ¬ layers.IsProtocol root

section Runs

variable
  {start : RegistryState}
  {layers : Layers}
  {built : ClassDescriptions}
  {locals : List Local}
  {nameOf : Nat → String}

theorem RegistryState.root_lt (start : RegistryState) {root : Nat}
    (isRoot : root ∈ start.state.roots) : root < start.heap.next := by
  obtain ⟨self, found⟩ := start.object_of_root isRoot
  exact Heap.lt_next_of_object found

/-- The layers with the classes of a call. -/
def grown
    (layers : Layers)
    (start : RegistryState)
    (areProtocols : Prop)
    (acyclic : Acyclic built.descriptions)
    (nameOf : Nat → String) : Layers :=
  layers.grow start.heap.next areProtocols (Related built.descriptions nameOf)
    (acyclic.wellFounded_related nameOf)

variable {areProtocols : Prop} {acyclic : Acyclic built.descriptions}

/-- What was there before stays in its place. -/
theorem Sorted.placed_grown
    (sorted : Sorted layers start)
    {address : Nat}
    {self : Class}
    (found : start.heap.object? address = some self) :
    Placed (grown layers start areProtocols acyclic nameOf) address self := by
  have isOld := Heap.lt_next_of_object found
  have placed := sorted.placed address self found
  constructor
  · intro parent isParent
    apply Layers.grow_lower_old isOld _ (placed.superclasses parent isParent)
    exact start.refers_old ⟨self, found,
      List.mem_append_left _ (List.mem_append_left _ isParent)⟩
  · intro proto isProto
    have protoOld : proto < start.heap.next := start.refers_old ⟨self, found,
      List.mem_append_left _ (List.mem_append_right _ isProto)⟩
    unfold grown
    rw [Layers.grow_isProtocol_old isOld, Layers.grow_isProtocol_old protoOld]
    exact placed.protocols proto isProto

/-- What was found for the name of a parent is below the class. -/
theorem lower_of_resolve
    {state : ThreadsafeCompilerState}
    (created : locals.map Prod.fst = built.descriptions)
    (areNew : ∀ made ∈ locals, start.heap.next ≤ made.2)
    (areNames : ∀ made ∈ locals, nameOf made.2 = made.1.name)
    {made : Local}
    (isMade : made ∈ locals)
    {name : String}
    (isName : name ∈ made.1.parentNames)
    {parent : Nat}
    (isParent : resolve state (entries locals) name = some parent)
    (ofOld : find name (entries locals) = none →
      resolve state [] name = some parent →
      parent < start.heap.next ∧ (areProtocols → layers.IsProtocol parent)) :
    (grown layers start areProtocols acyclic nameOf).Lower parent made.2 := by
  cases inMap : find name (entries locals) with
  | none =>
      have isOld : resolve state [] name = some parent := by
        unfold resolve at isParent ⊢
        rwa [inMap] at isParent
      obtain ⟨parentOld, ofProtocols⟩ := ofOld inMap isOld
      exact Layers.grow_lower_new (areNew made isMade) parentOld ofProtocols
  | some pc =>
      rw [resolve, inMap, Option.some_or, Option.some.injEq] at isParent
      subst isParent
      obtain ⟨desc, isLocal, rfl⟩ := mem_of_find_entries inMap
      apply Layers.grow_lower_related (areNew made isMade) (areNew _ isLocal)
      unfold Related
      rw [areNames made isMade, areNames _ isLocal, ← created]
      exact ⟨made.1, List.mem_map.mpr ⟨made, isMade, rfl⟩, rfl, isName⟩

/-- Storing classes that are not their own ancestors keeps the layers. -/
theorem Sorted.storeInternalClasses
    (sorted : Sorted layers start)
    (acyclic : Acyclic built.descriptions)
    {result : Except String Unit}
    {after : RegistryState}
    (isResult : storeInternalClasses start.state (.ok built) start.heap =
      some ((result, after.state), after.heap)) :
    ∃ later, Sorted later after := by
  have nothing : Effect start.heap start.heap 0 fun _ => False :=
    .refl start.heap
  have ensures :
      Ensures (CompilerState.storeInternalClasses start.state (.ok built))
      start.heap
      fun result after => ∃ later : Layers, after.All (Placed later) ∧
        (∀ root ∈ result.2.protocolRegistry.roots, later.IsProtocol root) ∧
        ∀ root ∈ result.2.classRegistry.roots, ¬ later.IsProtocol root := by
    apply Ensures.bind_of_runs
    apply Runs.createHulls nothing built.descriptions
      (by simpa using built.distinct)
    intro locals middle created areHulls distinct kept onlyLocals _
    rw [List.nil_append]
    have areNew : ∀ made ∈ locals, start.heap.next ≤ made.2 :=
      fun made isMade =>
      (areHulls made isMade).1
    obtain ⟨nameOf, areNames⟩ := exists_nameOf distinct
    let later := grown layers start False acyclic nameOf
    let valid : Nat → Class → Prop := fun address self =>
      Placed later address self ∧
        ∀ made ∈ locals, made.2 = address → self.compilerExtension = some made.1
    have protocolRoots : ∀ root ∈ start.state.protocolRegistry.roots,
        later.IsProtocol root := by
      intro root isRoot
      have isOld := start.root_lt (List.mem_append_right _ isRoot)
      exact (Layers.grow_isProtocol_old isOld).mpr
        (sorted.protocols root isRoot)
    have classRoots : ∀ root ∈ start.state.classRegistry.roots,
        ¬ later.IsProtocol root := by
      intro root isRoot
      have isOld := start.root_lt (List.mem_append_left _ isRoot)
      rw [show later.IsProtocol root ↔ layers.IsProtocol root from
        Layers.grow_isProtocol_old isOld]
      exact sorted.classes root isRoot
    have newClasses : ∀ c ∈ locals.map Prod.snd, ¬ later.IsProtocol c := by
      intro c isLocal
      obtain ⟨made, isMade, rfl⟩ := List.mem_map.mp isLocal
      exact (Layers.grow_isProtocol_new (areNew made isMade)).mp
    have allValid : middle.All valid := by
      intro address self found
      by_cases isLocal : address ∈ locals.map Prod.snd
      · obtain ⟨made, isMade, rfl⟩ := List.mem_map.mp isLocal
        rw [(areHulls made isMade).2, Option.some.injEq] at found
        subst found
        refine ⟨⟨by simp [hull], by simp [hull]⟩, ?_⟩
        intro other isOther same
        rw [List.inj_on_of_nodup_map distinct isOther isMade same]
        rfl
      · have isOld : address < start.heap.next := by
          by_contra beyond
          exact isLocal (onlyLocals address self found (by omega))
        rw [kept address isOld] at found
        refine ⟨sorted.placed_grown found, ?_⟩
        rintro made isMade rfl
        exact absurd (List.mem_map.mpr ⟨made, isMade, rfl⟩) isLocal
    have ignoresExtends : IgnoresExtends valid := fun _ _ _ isValid =>
      ⟨⟨isValid.1.superclasses, isValid.1.protocols⟩, isValid.2⟩
    have ignoresId : IgnoresId valid := fun _ _ _ isValid =>
      ⟨⟨isValid.1.superclasses, isValid.1.protocols⟩, isValid.2⟩
    have linking : ∀ c ∈ (entries locals).map Prod.snd, ∀ self desc list,
      valid c self →
        self.compilerExtension = some desc →
        (∀ parent ∈ list, ∃ name ∈ desc.parentNames,
          resolve start.state (entries locals) name = some parent) →
        ∀ last, valid c last → valid c { last with superclasses := list } := by
      rw [map_snd_entries]
      intro c isLocal self desc list isValid isDescribed areResolved last lastValid
      obtain ⟨made, isMade, rfl⟩ := List.mem_map.mp isLocal
      refine ⟨⟨?_, lastValid.1.protocols⟩, lastValid.2⟩
      intro parent isParent
      obtain ⟨name, isName, isResolved⟩ := areResolved parent isParent
      rw [isValid.2 made isMade rfl, Option.some.injEq] at isDescribed
      subst isDescribed
      apply lower_of_resolve created areNew areNames isMade isName isResolved
      intro _ isOld
      obtain ⟨object, found⟩ := start.resolvable name parent isOld
      exact ⟨Heap.lt_next_of_object found, False.elim⟩
    have implementing : ∀ c ∈ (entries locals).map Prod.snd, ∀ self protos,
      valid c self →
        (∀ proto ∈ protos, proto ∈ start.state.protocolRegistry.roots) →
        valid c { self with implementedProtocols := protos } := by
      rw [map_snd_entries]
      intro c isLocal self protos isValid areRoots
      refine ⟨⟨isValid.1.superclasses, ?_⟩, isValid.2⟩
      intro proto isProto
      exact ⟨protocolRoots proto (areRoots proto isProto), newClasses c isLocal⟩
    refine Ensures.mono ((?_ : Program.Keeps valid _ fun result =>
      (∀ root ∈ result.2.protocolRegistry.roots, later.IsProtocol root) ∧
        ∀ root ∈ result.2.classRegistry.roots, ¬ later.IsProtocol root) middle
          allValid) ?_
    · refine .bind (keeps_linkInheritance ignoresExtends _ linking)
        fun result _ => ?_
      cases result with
      | error message =>
          exact .bind (keeps_releaseEach _) fun _ _ =>
            .pure ⟨protocolRoots, classRoots⟩
      | ok =>
          refine .bind (keeps_registerClasses ignoresId _)
            fun registry onlyAdds => ?_
          have registered : ∀ root ∈ registry.roots,
              ¬ later.IsProtocol root := by
            intro root isRoot
            rcases onlyAdds root isRoot with isOld | isLocal
            · exact classRoots root isOld
            · exact newClasses root (map_snd_entries locals ▸ isLocal)
          refine .bind (keeps_linkProtocols _ implementing) fun _ _ => ?_
          refine .bind (keeps_validateProtocolImplementations _)
            fun result _ => ?_
          cases result with
          | error message => exact .pure ⟨protocolRoots, registered⟩
          | ok => exact .pure ⟨protocolRoots, registered⟩
    · rintro result after ⟨all, roots⟩
      exact ⟨later, fun address self found => (all address self found).1, roots⟩
  obtain ⟨later, placed, protocols, classes⟩ := ensures.of_result _ _ isResult
  exact ⟨later, placed, protocols, classes⟩

/-- No parent of a protocol is a class. -/
def ExtendsProtocols (state : ThreadsafeCompilerState)
    (built : ClassDescriptions) : Prop :=
  ∀ desc ∈ built.descriptions, ∀ name ∈ desc.parentNames,
    name ∈ built.descriptions.map ClassDescription.name ∨
      (find name state.protocolRegistry.registry).isSome ∨
      find name state.classRegistry.registry = none

/-- Storing protocols that extend protocols, and are not their own ancestors,
keeps the layers. -/
theorem Sorted.storeInternalProtocols
    (sorted : Sorted layers start)
    (acyclic : Acyclic built.descriptions)
    (extendsProtocols : ExtendsProtocols start.state built)
    {result : Except String Unit}
    {after : RegistryState}
    (isResult : storeInternalProtocols start.state (.ok built) start.heap =
      some ((result, after.state), after.heap)) :
    ∃ later, Sorted later after := by
  obtain ⟨locals, stored⟩ :=
    (runs_storeInternalProtocols start built).ensures.of_result _ _ isResult
  obtain ⟨nameOf, areNames⟩ := exists_nameOf stored.distinct
  have protocolRoots : ∀ root ∈ start.state.protocolRegistry.roots,
      (grown layers start True acyclic nameOf).IsProtocol root := by
    intro root isRoot
    have isOld := start.root_lt (List.mem_append_right _ isRoot)
    exact (Layers.grow_isProtocol_old isOld).mpr (sorted.protocols root isRoot)
  refine ⟨grown layers start True acyclic nameOf, ?_, ?_, ?_⟩
  · intro address self found
    rcases stored.objects address self found with
      ⟨old, id, isOld, rfl⟩ | ⟨made, isMade, rfl, isLinked⟩
    · have placed :
          Placed (grown layers start True acyclic nameOf) address old :=
        sorted.placed_grown isOld
      exact ⟨placed.superclasses, placed.protocols⟩
    · constructor
      · intro parent isParent
        obtain ⟨name, isName, isResolved⟩ := isLinked.resolved parent isParent
        apply lower_of_resolve stored.created stored.areNew areNames isMade
          isName isResolved
        intro notLocal isOld
        have isDesc : made.1 ∈ built.descriptions := by
          rw [← stored.created]
          exact List.mem_map.mpr ⟨made, isMade, rfl⟩
        have isProtocol : find name start.state.protocolRegistry.registry =
            some parent := by
          have found : find name start.state.protocolRegistry.registry =
            some parent ∨
              find name start.state.protocolRegistry.registry = none ∧
                find name start.state.classRegistry.registry = some parent :=
            Option.or_eq_some_iff.mp isOld
          rcases extendsProtocols made.1 isDesc name isName with isNew |
            isThere | noClass
          · rw [← stored.created, ← find_entries_isSome, notLocal] at isNew
            cases isNew
          · refine found.resolve_right fun isClass => ?_
            rw [isClass.1] at isThere
            cases isThere
          · refine found.resolve_right fun isClass => ?_
            rw [isClass.2] at noClass
            cases noClass
        have isRoot : parent ∈ start.state.protocolRegistry.roots :=
          List.mem_append_left _ (mem_roots_of_find isProtocol)
        exact ⟨start.root_lt (List.mem_append_right _ isRoot), fun _ =>
          sorted.protocols parent isRoot⟩
      · rw [isLinked.noProtocols]
        simp
  · intro root isRoot
    rcases stored.registered with isSame | isRegistered
    · exact protocolRoots root (isSame ▸ isRoot)
    · rw [isRegistered] at isRoot
      rcases onlyAdds_withClasses locals root isRoot with isOld | isLocal
      · exact protocolRoots root isOld
      · obtain ⟨made, isMade, rfl⟩ := List.mem_map.mp isLocal
        exact (Layers.grow_isProtocol_new (stored.areNew made isMade)).mpr
          trivial
  · intro root isRoot
    rw [stored.sameClasses] at isRoot
    have isOld := start.root_lt (List.mem_append_left _ isRoot)
    intro isProtocol
    exact sorted.classes root isRoot
      ((Layers.grow_isProtocol_old isOld).mp isProtocol)

/-- Extending classes keeps the layers. -/
theorem Sorted.extendInternalClasses
    (sorted : Sorted layers start)
    {built : Except String ClassDescriptions}
    {result : Except String Unit × List Nat}
    {after : RegistryState}
    (sameState : after.state = start.state)
    (isResult : extendInternalClasses start.state built start.heap =
      some (result, after.heap)) :
    Sorted layers after := by
  have linking : ∀ existing ∈ start.state.classRegistry.roots,
      ∀ proto ∈ start.state.protocolRegistry.roots, ∀ self,
        Placed layers existing self →
        Placed layers existing
          { self with implementedProtocols := self.implementedProtocols ++ [proto] } := by
    intro existing isClass proto isProtocol self placed
    refine ⟨placed.superclasses, ?_⟩
    intro other isOther
    rcases List.mem_append.mp isOther with isThere | isAdded
    · exact placed.protocols other isThere
    · rw [List.mem_singleton.mp isAdded]
      exact ⟨sorted.protocols proto isProtocol, sorted.classes existing isClass⟩
  have keeps : (CompilerState.extendInternalClasses start.state built).Keeps
      (Placed layers)
      fun _ => True := by
    cases built with
    | error message => exact .pure trivial
    | ok built =>
        apply keeps_extendClasses _ linking
        exact fun _ _ _ placed => ⟨placed.superclasses, placed.protocols⟩
  have placed := ((keeps start.heap sorted.placed).of_result _ _ isResult).1
  exact ⟨placed, sameState ▸ sorted.protocols, sameState ▸ sorted.classes⟩

end Runs

/-- A call that registers or extends classes, whether it throws or not, or what
others do who hold references to classes. -/
inductive Registers (before after : RegistryState) : Prop
  | storeClasses
      (built : ClassDescriptions)
      (acyclic : Acyclic built.descriptions)
      (result : Except String Unit)
      (isResult : storeInternalClasses before.state (.ok built) before.heap =
        some ((result, after.state), after.heap))
  | storeProtocols
      (built : ClassDescriptions)
      (acyclic : Acyclic built.descriptions)
      (extendsProtocols : ExtendsProtocols before.state built)
      (result : Except String Unit)
      (isResult : storeInternalProtocols before.state (.ok built) before.heap =
        some ((result, after.state), after.heap))
  | extendClasses
      (built : Except String ClassDescriptions)
      (result : Except String Unit × List Nat)
      (sameState : after.state = before.state)
      (isResult : extendInternalClasses before.state built before.heap =
        some (result, after.heap))
  | others
      (sameState : after.state = before.state)
      (kept : ∀ address self, after.heap.object? address = some self →
        before.heap.object? address = some self)

/-- No class is registered, and none is on the heap. -/
def NoClasses (start : RegistryState) : Prop :=
  start.state.roots = [] ∧ ∀ address, start.heap.object? address = none

theorem Registers.sorted
    {before after : RegistryState}
    {layers : Layers}
    (registers : Registers before after)
    (sorted : Sorted layers before) : ∃ later, Sorted later after := by
  cases registers with
  | storeClasses built acyclic result isResult =>
      exact sorted.storeInternalClasses acyclic isResult
  | storeProtocols built acyclic extendsProtocols result isResult =>
      exact sorted.storeInternalProtocols acyclic extendsProtocols isResult
  | extendClasses built result sameState isResult =>
      exact ⟨layers, sorted.extendInternalClasses sameState isResult⟩
  | others sameState kept =>
      refine ⟨layers, ?_, sameState ▸ sorted.protocols,
        sameState ▸ sorted.classes⟩
      exact fun address self found =>
        sorted.placed address self (kept address self found)

theorem exists_sorted
    {state : RegistryState}
    (reachable : TransitionSystem.Reachable NoClasses Registers state) :
    ∃ layers, Sorted layers state := by
  apply reachable.invariant
  · rintro start ⟨noRoots, noObjects⟩
    refine ⟨⟨fun _ => False, fun _ _ => False,
      ⟨fun _ => ⟨_, fun _ never => never.elim⟩⟩⟩, ?_⟩
    refine ⟨fun address self found => ?_, fun root isRoot => ?_, fun _ _ => id⟩
    · rw [noObjects address] at found
      cases found
    · have : root ∈ start.state.roots := List.mem_append_right _ isRoot
      rw [noRoots] at this
      cases this
  · rintro before after _ ⟨layers, sorted⟩ registers
    exact registers.sorted sorted

/-- However protocols and classes were stored and extended, as long as no class
of a call was its own ancestor and no protocol extended a class, an instance
check between any two classes comes to an end and is right. -/
theorem isInstance_returns
    (state : RegistryState)
    (reachable : TransitionSystem.Reachable NoClasses Registers state)
    (current target : Nat)
    (currentClass targetClass : Class)
    (isCurrent : state.heap.object? current = some currentClass)
    (isTarget : state.heap.object? target = some targetClass) :
    ∃ fuel answer,
      (∀ more, fuel ≤ more →
        isInstance state.heap more current target = some answer) ∧
      (answer = true ↔ InstanceOf state.heap currentClass target) := by
  obtain ⟨layers, sorted⟩ := exists_sorted reachable
  exact exists_isInstance state.nonneg isCurrent isTarget
    (ends_of_placed sorted.placed target)

/-- A compiler state without classes. -/
def emptyState : RegistryState where
  state := ⟨⟨[], [], 1000⟩, ⟨[], [], 2000⟩, 0⟩
  heap := Heap.empty
  owned := by
    intro address
    simp [ThreadsafeCompilerState.roots, ThreadsafeRegistry.roots, owns,
      Heap.excess, Heap.count, Heap.incoming, Heap.empty, Cell.countOf]
  positive := by
    intro address cell found
    cases found

/-! ### An extended class -/

theorem acyclic_of_before
    {classes : List ClassDescription}
    (rank : String → Nat)
    (before : ∀ desc ∈ classes, ∀ name ∈ desc.parentNames,
      rank name < rank desc.name) :
    Acyclic classes := by
  have lower : ∀ {first second},
    Relation.TransGen (Extends classes) first second →
      rank second < rank first := by
    intro first second path
    induction path with
    | single step =>
        obtain ⟨desc, isClass, rfl, isParent⟩ := step
        exact before desc isClass _ isParent
    | tail _ step inductionHypothesis =>
        obtain ⟨desc, isClass, rfl, isParent⟩ := step
        exact (before desc isClass _ isParent).trans inductionHypothesis
  exact fun name cycle => absurd (lower cycle) (Nat.lt_irrefl _)

/-- `P2` extends `P1`. -/
def twoProtocols : ClassDescriptions :=
  ⟨[plainClass 1000 "P1" [] [], plainClass 1001 "P2" ["P1"] []], by decide⟩

/-- `B` extends `A`. -/
def twoClasses : ClassDescriptions :=
  ⟨[plainClass 30 "A" [] [], plainClass 31 "B" ["A"] []], by decide⟩

/-- `A` is extended to `P2`. -/
def extension : ClassDescriptions :=
  ⟨[plainClass 1000 "A" [] [("P2", [])]], by decide⟩

/-- The three calls one after the other. -/
def storeAndExtend : Code Unit := do
  let (_, state) ← storeInternalProtocols emptyState.state (.ok twoProtocols)
  let (_, state) ← storeInternalClasses state (.ok twoClasses)
  let _ ← extendInternalClasses state (.ok extension)

theorem reachable_extended :
    ∃ state : RegistryState,
      TransitionSystem.Reachable NoClasses Registers state ∧
      storeAndExtend emptyState.heap = some ((), state.heap) := by
  obtain ⟨first, withProtocols, stored⟩ :=
    storeInternalProtocols_returns emptyState twoProtocols
  obtain ⟨⟨second, state⟩, heap, isSecond, owned, _⟩ :=
    runs_storeInternalClasses withProtocols twoClasses
  have positive : heap.Positive :=
    (keepsPositive_storeInternalClasses (.ok twoClasses) withProtocols.heap
      withProtocols.positive).of_result _ heap isSecond
  let withClasses : RegistryState := ⟨state, heap, owned, positive⟩
  obtain ⟨third, after, sameState, isThird, _⟩ :=
    extendInternalClasses_returns withClasses (.ok extension)
  refine ⟨after, ?_, ?_⟩
  · have start : TransitionSystem.Reachable NoClasses Registers emptyState :=
      .of_initial ⟨rfl, fun _ => rfl⟩
    apply ((start.tail (.storeProtocols twoProtocols _ _ first stored)).tail
      (.storeClasses twoClasses _ second isSecond)).tail
      (.extendClasses (.ok extension) third sameState isThird)
    · exact acyclic_of_before (fun name => if name = "P2" then 1 else 0) (by decide)
    · intro desc isProtocol name isParent
      refine .inl ?_
      revert name
      revert desc
      decide
    · exact acyclic_of_before (fun name => if name = "B" then 1 else 0) (by decide)
  · unfold storeAndExtend
    rw [bind_eq stored]
    change (storeInternalClasses _ _ >>= _) withProtocols.heap = _
    rw [bind_eq isSecond]
    change (extendInternalClasses withClasses.state _ >>= _)
      withClasses.heap = _
    rw [bind_eq isThird]
    rfl

theorem isInstance_returns_extended :
    ∃ state : RegistryState,
      TransitionSystem.Reachable NoClasses Registers state ∧
      storeAndExtend emptyState.heap = some ((), state.heap) ∧
      ∃ fuel, ∀ more,
        fuel ≤ more → isInstance state.heap more 0 3 = some true := by
  obtain ⟨state, reachable, isResult⟩ := reachable_extended
  have areThere : (storeAndExtend emptyState.heap).any (fun stored =>
      (stored.2.object? 0).isSome && (stored.2.object? 3).isSome &&
        isInstance stored.2 4 0 3 == some true) = true := by
    decide +kernel
  rw [isResult, Option.any_some, Bool.and_eq_true, Bool.and_eq_true] at areThere
  obtain ⟨⟨isFirst, isLast⟩, found⟩ := areThere
  obtain ⟨currentClass, isCurrent⟩ := Option.isSome_iff_exists.mp isFirst
  obtain ⟨targetClass, isTarget⟩ := Option.isSome_iff_exists.mp isLast
  obtain ⟨fuel, answer, answers, right⟩ :=
    isInstance_returns state reachable 0 3 currentClass targetClass isCurrent
      isTarget
  have isTrue : answer = true := by
    rw [right, ← leads_iff_instanceOf isTarget]
    apply leads_of_search
    rw [← isInstance_eq_search state.nonneg isCurrent 4 isTarget]
    exact eq_of_beq found
  exact ⟨state, reachable, isResult, fuel,
    fun more enough => isTrue ▸ answers more enough⟩

end CompilerState
end ClojureRt
