import ClojureRt.CompilerState.StoreClasses

/-!
# Counts stay above 0

Whatever storing classes does, an object whose count gets down to 0 is freed.
-/

namespace ClojureRt
namespace CompilerState

open RefCount RefCount.Program

variable {state : ThreadsafeCompilerState} {registry : ThreadsafeRegistry}

/-- Objects are only allocated. -/
theorem keepsPositive_createHulls (descriptions : List ClassDescription)
    (localMap : LocalMap) :
    (createHulls descriptions localMap).KeepsPositive := by
  induction descriptions generalizing localMap with
  | nil => exact .pure _
  | cons desc descriptions inductionHypothesis =>
      exact .bind (.allocate _) fun c => inductionHypothesis _

/-- What is looked up is only retained. -/
theorem keepsPositive_getCurrent
    (name : String) : (registry.getCurrent name).KeepsPositive := by
  unfold ThreadsafeRegistry.getCurrent
  cases find name registry.registry with
  | none => exact .pure _
  | some c => exact .bind (.retain c) fun _ => .pure _

/-- A parent is only retained. -/
theorem keepsPositive_findParent (localMap : LocalMap) (name : String) :
    (findParent state localMap name).KeepsPositive := by
  unfold findParent
  cases find name localMap with
  | some pc => exact .bind (.retain pc) fun _ => .pure _
  | none =>
      refine .bind (keepsPositive_getCurrent name) ?_
      intro found
      cases found with
      | some pc => exact .pure _
      | none => exact keepsPositive_getCurrent name

/-- The first parent is written and retained. -/
theorem keepsPositive_linkExtends (c pc : Nat) (isFirst : Bool) :
    (linkExtends c pc isFirst).KeepsPositive := by
  cases isFirst with
  | true =>
      exact .bind (.load c) fun _ => .bind (.store c _) fun _ => .retain pc
  | false => exact .pure _

/-- By induction on the names, for both ways that the loop ends. -/
theorem keepsPositive_linkParents
    (localMap : LocalMap)
    (c : Nat)
    (isFirst : Bool)
    (names : List String) :
    (linkParents state localMap c isFirst names).KeepsPositive := by
  induction names generalizing isFirst with
  | nil => exact .pure _
  | cons name names inductionHypothesis =>
      refine .bind (keepsPositive_findParent localMap name) ?_
      intro found
      cases found with
      | none => exact .pure _
      | some pc =>
          refine .bind (keepsPositive_linkExtends c pc isFirst) ?_
          intro _
          refine .bind (inductionHypothesis false) ?_
          intro result
          cases result <;> exact .pure _

/-- The class is written when all its parents are found. -/
theorem keepsPositive_linkClass (localMap : LocalMap) (c : Nat) :
    (linkClass state localMap c).KeepsPositive := by
  refine .bind (.load c) ?_
  intro self
  cases self.compilerExtension with
  | none => exact .undefined
  | some desc =>
      change Program.KeepsPositive
        (if desc.parentName ≠ "" ∨ desc.parentNames ≠ [] then _ else _)
      split
      · refine .bind
          (keepsPositive_linkParents localMap c true desc.parentNames) ?_
        intro result
        cases result with
        | error message => exact .pure _
        | ok list =>
            exact .bind (.load c) fun _ => .bind (.store c _) fun _ => .pure _
      · exact .pure _

/-- By induction on the classes. -/
theorem keepsPositive_linkInheritance (localMap rest : LocalMap) :
    (linkInheritance state localMap rest).KeepsPositive := by
  induction rest with
  | nil => exact .pure _
  | cons entry rest inductionHypothesis =>
      refine .bind (keepsPositive_linkClass localMap entry.2) ?_
      intro result
      cases result with
      | error message => exact .pure _
      | ok => exact inductionHypothesis

/-- By induction on the addresses. -/
theorem keepsPositive_releaseEach (addresses : List Nat) :
    (releaseEach addresses).KeepsPositive := by
  induction addresses with
  | nil => exact .pure _
  | cons address addresses inductionHypothesis =>
      exact .bind (.release address) fun _ => inductionHypothesis

/-- By induction on the addresses. -/
theorem keepsPositive_retainEach (addresses : List Nat) :
    (retainEach addresses).KeepsPositive := by
  induction addresses with
  | nil => exact .pure _
  | cons address addresses inductionHypothesis =>
      exact .bind (.retain address) fun _ => inductionHypothesis

/-- What a registration replaces is released, if there is something. -/
theorem keepsPositive_releaseReplaced (replaced : Option Nat) :
    (ThreadsafeRegistry.releaseReplaced replaced).KeepsPositive := by
  cases replaced with
  | none => exact .pure _
  | some old => exact .release old

/-- Only the number of the class is written. -/
theorem keepsPositive_setRegisterId (c : Nat) (id : Int) :
    (setRegisterId c id).KeepsPositive :=
  .bind (.load c) fun _ => .store c _

/-- Registering releases what it replaces. -/
theorem keepsPositive_registerObject (c : Nat) (requiredIndex : Int) :
    (registry.registerObject c requiredIndex).KeepsPositive :=
  .bind (keepsPositive_releaseReplaced _) fun _ => .pure _

/-- Both for a type that is set and for one that is not. -/
theorem keepsPositive_registerId (c : Nat) (type : Option Int) :
    (registerId registry c type).KeepsPositive := by
  cases type with
  | some id =>
      exact .bind (keepsPositive_setRegisterId c id) fun _ =>
        .bind (.retain c) fun _ =>
        .bind (keepsPositive_registerObject c id) fun _ => .pure _
  | none =>
      exact .bind (.retain c) fun _ =>
        .bind (keepsPositive_registerObject c (-1)) fun _ =>
        .bind (keepsPositive_setRegisterId c _) fun _ => .pure _

/-- A class is retained once and released once. -/
theorem keepsPositive_registerClass
    (c : Nat) : (registerClass registry c).KeepsPositive := by
  refine .bind (.load c) ?_
  intro self
  cases self.compilerExtension with
  | none => exact .undefined
  | some desc =>
      refine .bind (.retain c) ?_
      intro _
      refine .bind (.bind (keepsPositive_releaseReplaced _) fun _ => .pure _) ?_
      intro named
      refine .bind (keepsPositive_registerId c desc.type) ?_
      intro numbered
      exact .bind (.release c) fun _ => .pure _

/-- By induction on the classes. -/
theorem keepsPositive_registerClasses (rest : LocalMap) :
    (registerClasses registry rest).KeepsPositive := by
  induction rest generalizing registry with
  | nil => exact .pure _
  | cons entry rest inductionHypothesis =>
      exact .bind (keepsPositive_registerClass entry.2) fun _ =>
        inductionHypothesis

/-- By induction on the protocols, of which those that are not registered are
left out. -/
theorem keepsPositive_findProtocols (implements : List (String × Methods)) :
    (findProtocols registry implements).KeepsPositive := by
  induction implements with
  | nil => exact .pure _
  | cons implemented implements inductionHypothesis =>
      refine .bind (keepsPositive_getCurrent implemented.1) ?_
      intro found
      cases found with
      | none => exact inductionHypothesis
      | some proto => exact .bind inductionHypothesis fun _ => .pure _

/-- By induction on the classes. -/
theorem keepsPositive_linkProtocols (rest : LocalMap) :
    (linkProtocols registry rest).KeepsPositive := by
  induction rest with
  | nil => exact .pure _
  | cons entry rest inductionHypothesis =>
      refine .bind (.load entry.2) ?_
      intro self
      cases self.compilerExtension with
      | none => exact .undefined
      | some desc =>
          exact .bind (keepsPositive_findProtocols desc.implements) fun _ =>
            .bind (.load entry.2) fun _ =>
              .bind (.store entry.2 _) fun _ => inductionHypothesis

/-- By induction on the fuel. -/
theorem keepsPositive_collectMethods
    (fuel : Nat)
    (queue visited : List Nat)
    (requiredMethods : Methods) :
    (collectMethods fuel queue visited requiredMethods).KeepsPositive := by
  induction fuel generalizing queue visited requiredMethods with
  | zero =>
      cases queue with
      | nil => exact .pure _
      | cons curr queue => exact .undefined
  | succ fuel inductionHypothesis =>
      cases queue with
      | nil => exact .pure _
      | cons curr queue =>
          unfold collectMethods
          split
          · exact .bind (.release curr) fun _ => inductionHypothesis _ _ _
          · refine .bind (.load curr) ?_
            intro self
            cases self.compilerExtension with
            | none => exact inductionHypothesis _ _ _
            | some desc =>
                exact .bind (keepsPositive_retainEach self.superclasses)
                  fun _ =>
                  inductionHypothesis _ _ _

/-- By induction on the protocols. -/
theorem keepsPositive_validateProtocols
    (desc : ClassDescription)
    (implements : List (String × Methods)) :
    (validateProtocols registry desc implements).KeepsPositive := by
  induction implements with
  | nil => exact .pure _
  | cons implemented implements inductionHypothesis =>
      refine .bind ?_ ?_
      · refine .bind (keepsPositive_getCurrent implemented.1) ?_
        intro found
        cases found with
        | none => exact .pure _
        | some proto =>
            refine .bind ?_ ?_
            · intro heap positive
              exact ⟨(keepsPositive_collectMethods _ _ _ _ heap
                positive).of_result⟩
            · exact fun collected =>
                .bind (keepsPositive_releaseEach collected.1) fun _ => .pure _
      · intro result
        cases result with
        | error message => exact .pure _
        | ok => exact inductionHypothesis

/-- By induction on the classes. -/
theorem keepsPositive_validateProtocolImplementations (classes : List Nat) :
    (validateProtocolImplementations registry classes).KeepsPositive := by
  induction classes with
  | nil => exact .pure _
  | cons c classes inductionHypothesis =>
      refine .bind (.load c) ?_
      intro self
      cases self.compilerExtension with
      | none => exact inductionHypothesis
      | some desc =>
          refine .bind (keepsPositive_validateProtocols desc desc.implements) ?_
          intro result
          cases result with
          | error message => exact .pure _
          | ok => exact inductionHypothesis

/-- The whole call frees an object only by releasing its last reference. -/
theorem keepsPositive_storeInternalClasses
    (built : Except String ClassDescriptions) :
    (storeInternalClasses state built).KeepsPositive := by
  cases built with
  | error message => exact .pure _
  | ok built =>
      refine .bind (keepsPositive_createHulls built.descriptions []) ?_
      intro localMap
      refine .bind (keepsPositive_linkInheritance localMap localMap) ?_
      intro result
      cases result with
      | error message =>
          exact .bind (keepsPositive_releaseEach _) fun _ => .pure _
      | ok =>
          refine .bind (keepsPositive_registerClasses localMap) ?_
          intro classRegistry
          refine .bind (keepsPositive_linkProtocols localMap) ?_
          intro _
          refine .bind (keepsPositive_validateProtocolImplementations _) ?_
          intro result
          cases result <;> exact .pure _

end CompilerState
end ClojureRt
