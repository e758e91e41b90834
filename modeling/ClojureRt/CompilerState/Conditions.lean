import ClojureRt.CompilerState.ExtendClasses

/-!
# Conditions on every class

What storing and extending classes do to a condition that every class on the
heap satisfies.  Numbers, descriptions' parents and counts play no part in it:
the condition has to be kept where parents are linked and where protocols are
added.
-/

namespace ClojureRt
namespace CompilerState

open RefCount RefCount.Program

section Conditions

variable
  {valid : Nat → Class → Prop}
  {state : ThreadsafeCompilerState}
  {registry : ThreadsafeRegistry}
  {localMap : LocalMap}

/-- By induction on the addresses. -/
theorem keeps_releaseEach (addresses : List Nat) :
    (releaseEach addresses).Keeps valid fun _ => True := by
  induction addresses with
  | nil => exact .pure trivial
  | cons address addresses inductionHypothesis =>
      exact .bind (.release address) fun _ _ => inductionHypothesis

/-- By induction on the addresses. -/
theorem keeps_retainEach (addresses : List Nat) :
    (retainEach addresses).Keeps valid fun _ => True := by
  induction addresses with
  | nil => exact .pure trivial
  | cons address addresses inductionHypothesis =>
      exact .bind (.retain address) fun _ _ => inductionHypothesis

/-- What is looked up is what the registry has for the name. -/
theorem keeps_getCurrent (name : String) :
    (registry.getCurrent name).Keeps valid
    (· = find name registry.registry) := by
  unfold ThreadsafeRegistry.getCurrent
  cases find name registry.registry with
  | none => exact .pure rfl
  | some found => exact .bind (.retain found) fun _ _ => .pure rfl

/-! ## Linking parents -/

/-- The parent that is found is the one that the name stands for. -/
theorem keeps_findParent (name : String) :
    (findParent state localMap name).Keeps valid
    (· = resolve state localMap name) := by
  unfold findParent resolve
  cases find name localMap with
  | some pc => exact .bind (.retain pc) fun _ _ => .pure rfl
  | none =>
      refine .bind (keeps_getCurrent name) ?_
      rintro found rfl
      cases find name state.classRegistry.registry with
      | some pc => exact .pure rfl
      | none => exact keeps_getCurrent name

/-- The condition does not depend on what a description extends. -/
def IgnoresExtends (valid : Nat → Class → Prop) : Prop :=
  ∀ address self other, valid address self →
    valid address { self with extendsClass := other }

/-- The parents that are found are what the names stand for. -/
theorem keeps_linkParents
    (ignoresExtends : IgnoresExtends valid)
    (c : Nat)
    (isFirst : Bool)
    (names : List String) :
    (linkParents state localMap c isFirst names).Keeps valid fun result =>
      ∀ list, result = .ok list → ∀ parent ∈ list, ∃ name ∈ names,
        resolve state localMap name = some parent := by
  induction names generalizing isFirst with
  | nil =>
      apply Keeps.pure
      rintro list ⟨⟩
      simp
  | cons name names inductionHypothesis =>
      refine .bind (keeps_findParent name) ?_
      intro found isFound
      cases found with
      | none => exact .pure (by simp)
      | some pc =>
          have linked :
              (linkExtends c pc isFirst).Keeps valid fun _ => True := by
            cases isFirst with
            | false => exact .pure trivial
            | true =>
                refine .bind (.load c) fun self isValid => ?_
                exact .bind (.store (ignoresExtends c self _ isValid))
                  fun _ _ => .retain pc
          refine .bind linked fun _ _ => .bind (inductionHypothesis false) ?_
          intro result areResolved
          cases result with
          | error message => exact .pure (by simp)
          | ok parents =>
              apply Keeps.pure
              rintro list ⟨⟩ parent isParent
              rcases List.mem_cons.mp isParent with rfl | isLater
              · exact ⟨name, List.mem_cons_self, isFound.symm⟩
              · obtain ⟨other, isName, isResolved⟩ :=
                  areResolved parents rfl parent isLater
                exact ⟨other, List.mem_cons_of_mem _ isName, isResolved⟩

/-- The condition is kept if it allows the list of the parents. -/
theorem keeps_linkClass
    (ignoresExtends : IgnoresExtends valid)
    {c : Nat}
    (linking : ∀ self desc list,
      valid c self → self.compilerExtension = some desc →
      (∀ parent ∈ list, ∃ name ∈ desc.parentNames,
        resolve state localMap name = some parent) →
      ∀ later, valid c later → valid c { later with superclasses := list }) :
    (linkClass state localMap c).Keeps valid fun _ => True := by
  refine .bind (.load c) ?_
  intro self isValid
  cases isDescribed : self.compilerExtension with
  | none => exact .undefined
  | some desc =>
      change Program.Keeps valid
        (if desc.parentName ≠ "" ∨ desc.parentNames ≠ [] then _ else _) _
      split
      · refine .bind (keeps_linkParents ignoresExtends c true desc.parentNames)
          ?_
        intro result areResolved
        cases result with
        | error message => exact .pure trivial
        | ok list =>
            refine .bind (.load c) fun later laterValid => ?_
            refine .bind (.store ?_) fun _ _ => .pure trivial
            exact linking self desc list isValid isDescribed
              (areResolved list rfl) later laterValid
      · exact .pure trivial

/-- The condition is kept if it allows the parents of every class. -/
theorem keeps_linkInheritance
    (ignoresExtends : IgnoresExtends valid)
    (rest : LocalMap)
    (linking : ∀ c ∈ rest.map Prod.snd, ∀ self desc list, valid c self →
      self.compilerExtension = some desc →
      (∀ parent ∈ list, ∃ name ∈ desc.parentNames,
        resolve state localMap name = some parent) →
      ∀ later, valid c later → valid c { later with superclasses := list }) :
    (linkInheritance state localMap rest).Keeps valid fun _ => True := by
  induction rest with
  | nil => exact .pure trivial
  | cons entry rest inductionHypothesis =>
      rw [List.map_cons, List.forall_mem_cons] at linking
      refine .bind (keeps_linkClass ignoresExtends linking.1) ?_
      intro result _
      cases result with
      | error message => exact .pure trivial
      | ok => exact inductionHypothesis linking.2

/-! ## Registering -/

/-- The condition does not depend on the number of a class. -/
def IgnoresId (valid : Nat → Class → Prop) : Prop :=
  ∀ address self id, valid address self →
    valid address { self with registerId := id }

/-- A value in a map after an insertion was there before or is the new one. -/
theorem mem_of_mem_insert
    {Key : Type}
    [DecidableEq Key]
    {key : Key}
    {value root : Nat}
    {entries : List (Key × Nat)}
    (isRoot : root ∈ (insert key value entries).map Prod.snd) :
    root ∈ entries.map Prod.snd ∨ root = value := by
  by_cases isNew : root = value
  · exact Or.inr isNew
  · left
    have positive := owns_pos_of_mem isRoot
    have sums := congrFun (owns_insert key value entries) root
    have notNew : own value root = 0 := by simp [own, isNew]
    have := owns_nonneg (find key entries).toList root
    simp only [Pi.add_apply, notNew] at sums
    have remains : 0 < owns (entries.map Prod.snd) root := by omega
    simpa [owns] using remains

/-- What is replaced is released, which writes no object. -/
theorem keeps_releaseReplaced (replaced : Option Nat) :
    (ThreadsafeRegistry.releaseReplaced replaced).Keeps valid fun _ =>
      True := by
  cases replaced with
  | none => exact .pure trivial
  | some old => exact .release old

/-- Nothing but the class is new in the registry. -/
def OnlyAdds (registry : ThreadsafeRegistry) (added : List Nat)
    (after : ThreadsafeRegistry) :
    Prop :=
  ∀ root ∈ after.roots, root ∈ registry.roots ∨ root ∈ added

/-- One registration after the other adds what both add. -/
theorem OnlyAdds.trans
    {middle after : ThreadsafeRegistry}
    {first second : List Nat}
    (left : OnlyAdds registry first middle)
    (right : OnlyAdds middle second after) :
    OnlyAdds registry (first ++ second) after := by
  intro root isRoot
  rw [List.mem_append]
  rcases right root isRoot with isMiddle | isAdded
  · exact (left root isMiddle).imp_right Or.inl
  · exact Or.inr (Or.inr isAdded)

/-- Registering a name adds the class. -/
theorem onlyAdds_named (name : String) (c : Nat) :
    OnlyAdds registry [c] (registry.named name c) := by
  intro root isRoot
  rw [List.mem_singleton]
  rcases List.mem_append.mp isRoot with isName | isIndexed
  · exact (mem_of_mem_insert isName).imp_left (List.mem_append_left _)
  · exact Or.inl (List.mem_append_right _ isIndexed)

/-- Registering a number adds the class. -/
theorem onlyAdds_numbered (requiredIndex : Int) (c : Nat) :
    OnlyAdds registry [c] (registry.numbered requiredIndex c) := by
  intro root isRoot
  rw [List.mem_singleton]
  rcases List.mem_append.mp isRoot with isName | isIndexed
  · exact Or.inl (List.mem_append_left _ isName)
  · exact (mem_of_mem_insert isIndexed).imp_left (List.mem_append_right _)

/-- Registering the new classes adds nothing but these. -/
theorem onlyAdds_withClasses (locals : List Local) :
    OnlyAdds registry (locals.map Prod.snd) (registry.withClasses locals) := by
  induction locals generalizing registry with
  | nil => exact fun root isRoot => Or.inl isRoot
  | cons created locals inductionHypothesis =>
      have first :
          OnlyAdds registry [created.2] (registry.withClass created) := by
        have isNamed :
            OnlyAdds registry [created.2]
            (registry.named created.1.name created.2) :=
          onlyAdds_named created.1.name created.2
        have both :=
          isNamed.trans (onlyAdds_numbered (created.1.type.getD (-1)) created.2)
        intro root isRoot
        simpa using both root isRoot
      exact first.trans inductionHypothesis

/-- `registerObject` with a name adds the class to the registry. -/
theorem keeps_registerName (name : String) (c : Nat) :
    (registry.registerName name c).Keeps valid (OnlyAdds registry [c]) :=
  .bind (keeps_releaseReplaced _) fun _ _ => .pure (onlyAdds_named name c)

/-- `registerObject` with a number adds the class to the registry. -/
theorem keeps_registerObject (c : Nat) (requiredIndex : Int) :
    (registry.registerObject c requiredIndex).Keeps valid fun result =>
      OnlyAdds registry [c] result.2 :=
  .bind (keeps_releaseReplaced _) fun _ _ =>
    .pure (onlyAdds_numbered requiredIndex c)

/-- The number of a class does not matter for the condition. -/
theorem keeps_setRegisterId (ignoresId : IgnoresId valid) (c : Nat) (id : Int) :
    (setRegisterId c id).Keeps valid fun _ => True :=
  .bind (.load c) fun self isValid => .store (ignoresId c self id isValid)

/-- The number of a class is written, and the class is registered by it. -/
theorem keeps_registerId (ignoresId : IgnoresId valid) (c : Nat)
    (type : Option Int) :
    (registerId registry c type).Keeps valid (OnlyAdds registry [c]) := by
  cases type with
  | some id =>
      refine .bind (keeps_setRegisterId ignoresId c id) fun _ _ =>
        .bind (.retain c) fun _ _ => ?_
      exact .bind (keeps_registerObject c id) fun _ onlyAdds => .pure onlyAdds
  | none =>
      refine .bind (.retain c) fun _ _ => .bind (keeps_registerObject c (-1)) ?_
      intro result onlyAdds
      exact .bind (keeps_setRegisterId ignoresId c result.1) fun _ _ => .pure
        onlyAdds

/-- A class is registered by its name and by its number. -/
theorem keeps_registerClass (ignoresId : IgnoresId valid) (c : Nat) :
    (registerClass registry c).Keeps valid (OnlyAdds registry [c]) := by
  refine .bind (.load c) fun self _ => ?_
  cases self.compilerExtension with
  | none => exact .undefined
  | some desc =>
      refine .bind (.retain c) fun _ _ =>
        .bind (keeps_registerName desc.name c) ?_
      intro named addsName
      refine .bind (keeps_registerId ignoresId c desc.type) ?_
      intro numbered addsId
      refine .bind (.release c) fun _ _ => .pure ?_
      simpa [OnlyAdds] using addsName.trans addsId

/-- By induction on the classes. -/
theorem keeps_registerClasses (ignoresId : IgnoresId valid) (rest : LocalMap) :
    (registerClasses registry rest).Keeps valid
    (OnlyAdds registry (rest.map Prod.snd)) := by
  induction rest generalizing registry with
  | nil => exact .pure fun root isRoot => Or.inl isRoot
  | cons entry rest inductionHypothesis =>
      refine .bind (keeps_registerClass ignoresId entry.2) ?_
      intro middle addsFirst
      exact inductionHypothesis.mono fun after addsLater => addsFirst.trans
        addsLater

/-! ## Linking protocols -/

/-- The protocols that are found are registered. -/
theorem keeps_findProtocols (implements : List (String × Methods)) :
    (findProtocols registry implements).Keeps valid fun protos =>
      ∀ proto ∈ protos, proto ∈ registry.roots := by
  induction implements with
  | nil => exact .pure (by simp)
  | cons implemented implements inductionHypothesis =>
      refine .bind (keeps_getCurrent implemented.1) ?_
      intro found isFound
      cases found with
      | none => exact inductionHypothesis
      | some proto =>
          refine .bind inductionHypothesis fun protos areRoots => .pure ?_
          rw [List.forall_mem_cons]
          exact ⟨List.mem_append_left _ (mem_roots_of_find isFound.symm),
            areRoots⟩

/-- The condition is kept if it allows every registered protocol. -/
theorem keeps_linkProtocols
    (rest : LocalMap)
    (linking : ∀ c ∈ rest.map Prod.snd, ∀ self protos, valid c self →
      (∀ proto ∈ protos, proto ∈ registry.roots) →
      valid c { self with implementedProtocols := protos }) :
    (linkProtocols registry rest).Keeps valid fun _ => True := by
  induction rest with
  | nil => exact .pure trivial
  | cons entry rest inductionHypothesis =>
      rw [List.map_cons, List.forall_mem_cons] at linking
      refine .bind (.load entry.2) fun self _ => ?_
      cases self.compilerExtension with
      | none => exact .undefined
      | some desc =>
          refine .bind (keeps_findProtocols desc.implements)
            fun protos areRoots => ?_
          refine .bind (.load entry.2) fun later laterValid => .bind
            (.store ?_) ?_
          · cases protos with
            | nil => exact laterValid
            | cons proto protos => exact linking.1 later _ laterValid areRoots
          · exact fun _ _ => inductionHypothesis linking.2

/-! ## Comparing classes with their protocols -/

/-- Collecting methods writes no object. -/
theorem keeps_collectMethods
    (fuel : Nat)
    (queue visited : List Nat)
    (requiredMethods : Methods) :
    (collectMethods fuel queue visited requiredMethods).Keeps valid fun _ =>
      True := by
  induction fuel generalizing queue visited requiredMethods with
  | zero =>
      cases queue with
      | nil => exact .pure trivial
      | cons curr queue => exact .undefined
  | succ fuel inductionHypothesis =>
      cases queue with
      | nil => exact .pure trivial
      | cons curr queue =>
          unfold collectMethods
          split
          · exact .bind (.release curr) fun _ _ => inductionHypothesis _ _ _
          · refine .bind (.load curr) fun self _ => ?_
            cases self.compilerExtension with
            | none => exact inductionHypothesis _ _ _
            | some desc =>
                exact .bind (keeps_retainEach _) fun _ _ =>
                  inductionHypothesis _ _ _

/-- Comparing a class with a protocol writes no object. -/
theorem keeps_validateProtocol
    (desc : ClassDescription)
    (protoName : String)
    (implMethods : Methods) :
    (validateProtocol registry desc protoName implMethods).Keeps valid fun _ =>
      True := by
  refine .bind (keeps_getCurrent protoName) fun found _ => ?_
  cases found with
  | none => exact .pure trivial
  | some proto =>
      have collected : Program.Keeps valid
          (fun heap => collectMethods (enoughFuel heap) [proto] [] [] heap)
          fun _ => True :=
        fun heap all =>
          ⟨(keeps_collectMethods (enoughFuel heap) [proto] [] [] heap
            all).of_result⟩
      exact .bind collected fun result _ =>
        .bind (keeps_releaseEach result.1) fun _ _ =>
        .pure trivial

/-- By induction on the protocols. -/
theorem keeps_validateProtocols
    (desc : ClassDescription)
    (implements : List (String × Methods)) :
    (validateProtocols registry desc implements).Keeps valid fun _ => True := by
  induction implements with
  | nil => exact .pure trivial
  | cons implemented implements inductionHypothesis =>
      refine .bind (keeps_validateProtocol desc implemented.1 implemented.2)
        fun result _ => ?_
      cases result with
      | error message => exact .pure trivial
      | ok => exact inductionHypothesis

/-- By induction on the classes. -/
theorem keeps_validateProtocolImplementations (classes : List Nat) :
    (validateProtocolImplementations registry classes).Keeps valid fun _ =>
      True := by
  induction classes with
  | nil => exact .pure trivial
  | cons c classes inductionHypothesis =>
      refine .bind (.load c) fun self _ => ?_
      cases self.compilerExtension with
      | none => exact inductionHypothesis
      | some desc =>
          refine .bind (keeps_validateProtocols desc desc.implements)
            fun result _ => ?_
          cases result with
          | error message => exact .pure trivial
          | ok => exact inductionHypothesis

/-! ## Extending -/

/-- The condition is kept if it allows the protocol. -/
theorem keeps_addProtocol
    {existing proto : Nat}
    (linking : ∀ self, valid existing self →
      valid existing
        { self with implementedProtocols := self.implementedProtocols ++ [proto] }) :
    (addProtocol existing proto).Keeps valid fun _ => True := by
  refine .bind (.retain proto) fun _ _ =>
    .bind (.load existing) fun self isValid => ?_
  refine .bind (keeps_retainEach _) fun _ _ =>
    .bind (.store ?_) fun _ _ => .pure trivial
  exact linking self isValid

/-- The condition is kept if it allows every registered protocol. -/
theorem keeps_addProtocols
    {existing : Nat}
    (linking : ∀ proto ∈ registry.roots, ∀ self, valid existing self →
      valid existing
        { self with implementedProtocols := self.implementedProtocols ++ [proto] })
    (implements : List (String × Methods)) :
    (addProtocols registry existing implements).Keeps valid fun _ => True := by
  induction implements with
  | nil => exact .pure trivial
  | cons implemented implements inductionHypothesis =>
      refine .bind (keeps_getCurrent implemented.1) fun found isFound => ?_
      cases found with
      | none => exact inductionHypothesis
      | some proto =>
          have isRoot : proto ∈ registry.roots :=
            List.mem_append_left _ (mem_roots_of_find isFound.symm)
          refine .bind (keeps_addProtocol (linking proto isRoot)) fun _ _ => ?_
          exact .bind (.release proto) fun _ _ =>
            .bind inductionHypothesis fun _ _ =>
            .pure trivial

/-- The condition does not depend on the methods of a description. -/
def IgnoresMethods (valid : Nat → Class → Prop) : Prop :=
  ∀ address self extension, valid address self →
    valid address { self with compilerExtension := extension }

/-- The methods of a description do not matter, and what is added to a class is
registered. -/
theorem keeps_extendClass
    (ignoresMethods : IgnoresMethods valid)
    (linking : ∀ existing ∈ state.classRegistry.roots,
      ∀ proto ∈ state.protocolRegistry.roots,
      ∀ self, valid existing self →
        valid existing
          { self with implementedProtocols := self.implementedProtocols ++ [proto] })
    (desc : ClassDescription) :
    (extendClass state desc).Keeps valid fun _ => True := by
  refine .bind (keeps_getCurrent desc.name) fun found isFound => ?_
  cases found with
  | none => exact .pure trivial
  | some existing =>
      have isRoot : existing ∈ state.classRegistry.roots :=
        List.mem_append_left _ (mem_roots_of_find isFound.symm)
      refine .bind (.load existing) fun self isValid => ?_
      cases self.compilerExtension with
      | none => exact .bind (.release existing) fun _ _ => .pure trivial
      | some oldDesc =>
          refine .bind (.store (ignoresMethods existing self _ isValid))
            fun _ _ => ?_
          refine .bind (keeps_addProtocols (linking existing isRoot) _)
            fun _ _ => ?_
          exact .bind (.release existing) fun _ _ => .pure trivial

/-- By induction on the descriptions. -/
theorem keeps_extendClasses
    (ignoresMethods : IgnoresMethods valid)
    (linking : ∀ existing ∈ state.classRegistry.roots,
      ∀ proto ∈ state.protocolRegistry.roots,
      ∀ self, valid existing self →
        valid existing
          { self with implementedProtocols := self.implementedProtocols ++ [proto] })
    (descriptions : List ClassDescription) :
    (extendClasses state descriptions).Keeps valid fun _ => True := by
  induction descriptions with
  | nil => exact .pure trivial
  | cons desc descriptions inductionHypothesis =>
      refine .bind (keeps_extendClass ignoresMethods linking desc) ?_
      rintro ⟨result, retired⟩ _
      cases result with
      | error message => exact .pure trivial
      | ok => exact .bind inductionHypothesis fun _ _ => .pure trivial

end Conditions

end CompilerState
end ClojureRt
