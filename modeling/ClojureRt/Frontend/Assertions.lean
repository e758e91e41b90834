import ClojureRt.Frontend.MemoryManagement
import ClojureRt.Frontend.Scoping

/-!
# The assertions of the reference counting pass

A call of the pass is admissible when its four assertions hold.  Every node kind
shares out what it owns so that the calls on its children are admissible again,
hence no call that is reached from a closed form trips an assertion.
-/

namespace ClojureRt
namespace Frontend

variable {Name : Type} [DecidableEq Name]

/-! ## Admissible calls -/

/-- No assertion fails. -/
def Returns {Result : Type} (result : Except Violation Result) : Prop :=
  ∃ value, result = .ok value

namespace Returns

variable {Result Next : Type}

/-- A value that is returned. -/
theorem pure (value : Result) : Returns (.ok value) :=
  ⟨value, rfl⟩

/-- Both parts of a sequence return. -/
theorem bind
    {result : Except Violation Result}
    {next : Result → Except Violation Next}
    (returns : Returns result)
    (nextReturns : ∀ value, Returns (next value)) :
    Returns (result >>= next) := by
  obtain ⟨value, rfl⟩ := returns
  exact nextReturns value

/-- An assertion that holds. -/
theorem require {condition : Prop} [Decidable condition] (violation : Violation)
    (holds : condition) :
    Returns (Frontend.require condition violation) :=
  ⟨(), if_pos holds⟩

end Returns

/-- The assertions of a call on a node whose free variables are `free`.  What
the node owns must be free in the node itself, also where its annotation, on a
statement of a `:do`, has more. -/
structure Admissible
    (free fresh borrowed owned unwindOwned : Finset Name) : Prop where
  disjoint : ∀ name ∈ borrowed, name ∉ owned
  owned_subset : owned ⊆ free
  free_subset : free ⊆ fresh
  fresh_subset : fresh ⊆ borrowed ∪ owned
  unwind_subset : unwindOwned ⊆ borrowed ∪ owned

namespace Admissible

variable {free fresh borrowed owned unwindOwned : Finset Name}

/-- The assertions at the start of a node hold. -/
theorem dispatch
    (admissible : Admissible free fresh borrowed owned unwindOwned) :
    Returns (Frontend.dispatch fresh borrowed owned unwindOwned) := by
  have meet : borrowed ∩ owned = ∅ := by
    have := admissible.disjoint
    grind
  exact (Returns.require _ meet).bind fun _ =>
    (Returns.require _
      (admissible.owned_subset.trans admissible.free_subset)).bind fun _ =>
      (Returns.require _ admissible.unwind_subset).bind fun _ =>
        Returns.require _ admissible.fresh_subset

/-- A variable is used where it is owned or borrowed. -/
theorem variableUsage
    {name : Name}
    (admissible : Admissible {name} fresh borrowed owned unwindOwned)
    (memory : Memory Name) :
    Returns (Frontend.variableUsage memory owned name) := by
  rcases Finset.subset_singleton_iff.mp admissible.owned_subset with rfl | rfl
  · exact ⟨memory.dupVars {name}, by simp [Frontend.variableUsage]⟩
  · exact ⟨memory, by simp [Frontend.variableUsage]⟩

/-- A call with the node's own annotation. -/
theorem exact
    (admissible : Admissible free fresh borrowed owned unwindOwned) :
    Admissible free free borrowed owned unwindOwned :=
  ⟨admissible.disjoint, admissible.owned_subset, subset_rfl,
    admissible.free_subset.trans admissible.fresh_subset,
    admissible.unwind_subset⟩

end Admissible

/-! ## What a node needs from its children -/

/-- Every admissible call on the node whose variables are within a scope
returns. -/
def NodeOk (node : Node Name (Finset Name)) (free scope : Finset Name) : Prop :=
  ∀ borrowed owned unwindOwned, borrowed ∪ owned ⊆ scope →
    Admissible free node.ann borrowed owned unwindOwned →
    Returns (memoryManagementPass node borrowed owned unwindOwned)

/-- `NodeOk` of an optional child. -/
def ChildOk (scope : Finset Name) : Child Name (Finset Name) → Prop
  | .absent => True
  | .present node => NodeOk node node.ann scope

/-- `NodeOk` of every branch. -/
def BranchesOk (scope : Finset Name) : Nodes Name (Finset Name) → Prop
  | .nil => True
  | .cons head tail => NodeOk head head.ann scope ∧ BranchesOk scope tail

/-- Sharing out what is owned over the nodes of an application returns. -/
def ApplicationOk (nodes : Nodes Name (Finset Name))
    (scope : Finset Name) : Prop :=
  ∀ borrowed owned unwindOwned, borrowed ∪ owned ⊆ scope →
    (∀ name ∈ borrowed, name ∉ owned) →
    nodes.fresh ⊆ borrowed ∪ owned →
    unwindOwned ⊆ borrowed ∪ (owned ∩ nodes.fresh) →
    Returns (applicationUsage nodes
      (applicationContexts borrowed owned nodes.anns) unwindOwned)

/-- The pass over the bindings of a `:let` or `:loop` returns.  A loop must not
own variables from outside that its body uses. -/
def ScopeOk (op : BindingsOp) (bindings : Scope Name (Finset Name))
    (scope : Finset Name) :
    Prop :=
  ∀ boundByThis borrowed owned unwindOwned, borrowed ∪ owned ⊆ scope →
    Admissible bindings.ann bindings.ann borrowed owned unwindOwned →
    (op = .loopOp → owned ∩ bindings.bodyNode.ann ⊆ boundByThis) →
    Returns (nodeWithBindingsMemoryManagementPass op bindings boundByThis
      borrowed owned unwindOwned)

/-- The pass over the bindings of a `:letfn` returns: its names are borrowed
until the body. -/
def LetfnOk (bindings : Scope Name (Finset Name))
    (scope : Finset Name) : Prop :=
  ∀ boundByThis borrowed owned unwindOwned, borrowed ∪ owned ⊆ scope →
    Admissible bindings.ann bindings.ann borrowed owned unwindOwned →
    boundByThis ∪ bindings.names.toFinset ⊆ borrowed →
    Returns (nodeWithBindingsMemoryManagementPass .letfnOp bindings boundByThis
      borrowed owned unwindOwned)

/-- The pass over methods returns. -/
def MethodsOk (recordFields : Finset Name)
    (methods : Methods Name (Finset Name)) : Prop :=
  Returns (fnMethodMemoryManagementPass recordFields methods)

/-- The pass over catch clauses returns when they own only what the body of the
`:try` borrows. -/
def CatchesOk (catches : Catches Name (Finset Name))
    (scope : Finset Name) : Prop :=
  ∀ owned finallyOwned allCatchesOwned tryBorrowed unwindOwned,
    tryBorrowed ⊆ scope →
    catches.owned owned finallyOwned ⊆ tryBorrowed →
    catches.fresh ⊆ tryBorrowed →
    unwindOwned ⊆ tryBorrowed →
    Returns (catchMemoryManagementPass catches owned finallyOwned
      allCatchesOwned tryBorrowed unwindOwned)

section Arms

variable {scope fresh : Finset Name}

-- Every arm below rewrites with the equations of the passes: they are derived here, once.
attribute [local simp] memoryManagementPass childMemoryManagementPass
  applicationUsage
  branchesMemoryManagementPass catchMemoryManagementPass

/-- The pass returns for a local variable. -/
theorem NodeOk.localVar (name : Name) :
    NodeOk (.localVar fresh name) {name} scope := by
  intro borrowed owned unwindOwned _ admissible
  rw [memoryManagementPass]
  exact admissible.dispatch.bind fun _ =>
    (admissible.variableUsage (.start fresh)).bind fun _ => .pure _

/-- The pass returns for a child, if there is one. -/
theorem ChildOk.pass
    {child : Child Name (Finset Name)}
    (childOk : ChildOk scope child)
    (borrowed owned unwindOwned : Finset Name)
    (within : borrowed ∪ owned ⊆ scope)
    (admissible : Admissible child.fresh child.fresh borrowed owned
      unwindOwned) :
    Returns (childMemoryManagementPass child borrowed owned unwindOwned) := by
  cases child with
  | absent => exact ⟨.absent, rfl⟩
  | present node =>
      rw [childMemoryManagementPass]
      exact (childOk borrowed owned unwindOwned within admissible).bind
        fun _ => .pure _

/-- The child is given what the node is given. -/
theorem NodeOk.plain
    {child : Child Name (Finset Name)}
    (op : PlainOp)
    (childOk : ChildOk scope child) :
    NodeOk (.plain fresh op child) child.fresh scope := by
  intro borrowed owned unwindOwned within admissible
  rw [memoryManagementPass]
  exact admissible.dispatch.bind fun _ =>
    (childOk.pass borrowed owned unwindOwned within admissible.exact).bind
    fun _ => .pure _

/-- There is nothing to be given to no nodes. -/
theorem ApplicationOk.nil : ApplicationOk
    (.nil : Nodes Name (Finset Name)) scope :=
  fun _ _ unwindOwned _ _ _ _ => ⟨(.nil, unwindOwned), rfl⟩

/-- One more node in front.  What it has beyond its free variables belongs to
the nodes after it. -/
theorem ApplicationOk.cons
    {head : Node Name (Finset Name)}
    {tail : Nodes Name (Finset Name)}
    {free : Finset Name}
    (headOk : NodeOk head free scope)
    (freeSubset : free ⊆ head.ann)
    (annSubset : head.ann ⊆ free ∪ tail.fresh)
    (tailOk : ApplicationOk tail scope) :
    ApplicationOk (.cons head tail) scope := by
  intro borrowed owned unwindOwned within disjoint freshSubset unwindSubset
  simp only [Nodes.fresh] at freshSubset unwindSubset
  obtain ⟨headSubset, tailSubset⟩ := Finset.union_subset_iff.mp freshSubset
  obtain ⟨borrowedWithin, ownedWithin⟩ := Finset.union_subset_iff.mp within
  rw [Nodes.anns, applicationContexts_cons, unionAll_anns, applicationUsage]
  have headReturns := headOk (borrowed ∪ (owned ∩ tail.fresh))
    ((owned ∩ head.ann) \ tail.fresh) unwindOwned (by grind)
    ⟨by grind, by grind, freeSubset, by grind, by grind⟩
  have unwindRest : unwindOwned \ ((owned ∩ head.ann) \ tail.fresh) ⊆
      borrowed ∪ (owned ∩ tail.fresh) := by
    intro name member
    have known := @unwindSubset name
    simp only [Finset.mem_union, Finset.mem_inter,
      Finset.mem_sdiff] at member known ⊢
    grind
  have tailReturns := tailOk borrowed owned
    (unwindOwned \ ((owned ∩ head.ann) \ tail.fresh)) within disjoint tailSubset
    unwindRest
  exact headReturns.bind fun _ => tailReturns.bind fun _ => .pure _

/-- The pass returns if it does for the arguments. -/
theorem NodeOk.application
    {children : Nodes Name (Finset Name)}
    (op : ApplicationOp Name)
    (childrenOk : ApplicationOk children scope) :
    NodeOk (.application fresh op children) children.fresh scope := by
  intro borrowed owned unwindOwned within admissible
  have ownedSubset := admissible.owned_subset
  have unwindSubset := admissible.unwind_subset
  have childrenReturn := childrenOk borrowed owned unwindOwned within
    admissible.disjoint (admissible.free_subset.trans admissible.fresh_subset)
      (by grind)
  rw [memoryManagementPass]
  exact admissible.dispatch.bind fun _ => childrenReturn.bind fun _ => .pure _

/-- There are no methods. -/
theorem MethodsOk.nil (recordFields : Finset Name) :
    MethodsOk recordFields (.nil : Methods Name (Finset Name)) :=
  ⟨.nil, rfl⟩

/-- A method body owns all its free variables. -/
theorem MethodsOk.cons
    {recordFields : Finset Name}
    {this : Option Name}
    {params : List Name}
    {loopId : Name}
    {body : Node Name (Finset Name)}
    {rest : Methods Name (Finset Name)}
    (bodyOk : NodeOk body body.ann body.ann)
    (freshEqual : fresh = (body.ann \ methodArgs this params) \ recordFields)
    (restOk : MethodsOk recordFields rest) :
    MethodsOk recordFields (.cons fresh this params loopId body rest) := by
  have ownedEqual :
      fresh ∪ (methodArgs this params ∩ body.ann) ∪ (recordFields ∩ body.ann) =
        body.ann := by
    rw [freshEqual]
    ext name
    simp only [Finset.mem_union, Finset.mem_sdiff, Finset.mem_inter]
    grind
  have bodyReturns := bodyOk ∅ body.ann (methodArgs this params ∩ body.ann)
    (by simp) ⟨by simp, subset_rfl, subset_rfl, by simp, by grind⟩
  rw [MethodsOk, fnMethodMemoryManagementPass, ownedEqual]
  exact bodyReturns.bind fun _ => restOk.bind fun _ => .pure _

/-- The methods start with what they capture. -/
theorem NodeOk.fn
    {methods : Methods Name (Finset Name)}
    {free : Finset Name}
    (self : Option Name)
    (methodsOk : MethodsOk ∅ methods) :
    NodeOk (.fn fresh self methods) free scope := by
  intro borrowed owned unwindOwned _ admissible
  rw [memoryManagementPass]
  exact admissible.dispatch.bind fun _ => methodsOk.bind fun _ => .pure _

/-- The methods start with what they capture. -/
theorem NodeOk.reify
    {methods : Methods Name (Finset Name)}
    {free : Finset Name}
    (methodsOk : MethodsOk ∅ methods) :
    NodeOk (.reify fresh methods) free scope := by
  intro borrowed owned unwindOwned _ admissible
  rw [memoryManagementPass]
  exact admissible.dispatch.bind fun _ => methodsOk.bind fun _ => .pure _

/-- The methods start with the fields. -/
theorem NodeOk.deftype
    {methods : Methods Name (Finset Name)}
    {free : Finset Name}
    (fields : List Name)
    (methodsOk : MethodsOk fields.toFinset methods) :
    NodeOk (.deftype fresh fields methods) free scope := by
  intro borrowed owned unwindOwned _ admissible
  rw [memoryManagementPass]
  exact admissible.dispatch.bind fun _ => methodsOk.bind fun _ => .pure _

/-- The body is given what the bindings leave. -/
theorem ScopeOk.body
    {op : BindingsOp}
    {node : Node Name (Finset Name)}
    (notLetfn : op ≠ .letfnOp)
    (nodeOk : NodeOk node node.ann scope) :
    ScopeOk op (.body node) scope := by
  intro boundByThis borrowed owned unwindOwned within admissible loopOwned
  have nodeReturns := nodeOk borrowed owned unwindOwned within admissible
  cases op with
  | letOp =>
      rw [nodeWithBindingsMemoryManagementPass]
      exact nodeReturns.bind fun _ => .pure _
  | letfnOp => exact absurd rfl notLetfn
  | loopOp =>
      have ownedSubset : owned ⊆ node.ann := admissible.owned_subset
      have bound : owned ∩ node.ann ⊆ boundByThis := loopOwned rfl
      have ownedBound : owned ⊆ boundByThis := by grind
      rw [nodeWithBindingsMemoryManagementPass]
      exact (Returns.require _ ownedBound).bind fun _ =>
        nodeReturns.bind fun _ => .pure _

/-- The value of a binding owns what the remainder does not need, and the
remainder owns the new variable if it uses it. -/
theorem ScopeOk.bind
    {op : BindingsOp}
    {name : Name}
    {init : Node Name (Finset Name)}
    {rest : Scope Name (Finset Name)}
    (notLetfn : op ≠ .letfnOp)
    (unshadowed : name ∉ scope)
    (initOk : NodeOk init init.ann scope)
    (restOk : ScopeOk op rest (insert name scope)) :
    ScopeOk op (.bind (rest.ann.erase name ∪ init.ann) name init rest)
      scope := by
  intro boundByThis borrowed owned unwindOwned within admissible loopOwned
  obtain ⟨borrowedWithin, ownedWithin⟩ := Finset.union_subset_iff.mp within
  have disjoint := admissible.disjoint
  have unwindSubset := admissible.unwind_subset
  have ownedSubset : owned ⊆ rest.ann.erase name ∪ init.ann :=
    admissible.owned_subset
  obtain ⟨restSubset, initSubset⟩ :=
    Finset.union_subset_iff.mp admissible.fresh_subset
  have initReturns := initOk (borrowed ∪ (owned ∩ rest.ann.erase name))
    (owned \ (owned ∩ rest.ann.erase name)) unwindOwned (by grind)
    ⟨by grind, by grind, subset_rfl, by grind, by grind⟩
  have restReturns := restOk (boundByThis ∪ {name}) borrowed
    (if name ∈ rest.ann ∧
      op ≠ .letfnOp then insert name (owned ∩ rest.ann.erase name)
      else owned ∩ rest.ann.erase name)
    (if name ∈ rest.ann then
        insert name (unwindOwned ∩ (borrowed ∪ (owned ∩ rest.ann.erase name)))
      else unwindOwned ∩ (borrowed ∪ (owned ∩ rest.ann.erase name)))
    (by split <;> grind)
    ⟨by split <;> grind, by split <;> grind, subset_rfl, by split <;> grind,
      by split <;> split <;> grind⟩
    (by
      intro isLoop
      have bound : owned ∩ rest.bodyNode.ann ⊆ boundByThis := loopOwned isLoop
      split <;> grind)
  rw [nodeWithBindingsMemoryManagementPass]
  exact initReturns.bind fun _ => restReturns.bind fun _ => .pure _

/-- The pass returns if it does for the bindings and the body. -/
theorem NodeOk.plainLet
    {bindings : Scope Name (Finset Name)}
    (bindingsOk : ScopeOk .letOp bindings scope) :
    NodeOk (.letForm fresh .plainLet bindings) bindings.ann scope := by
  intro borrowed owned unwindOwned within admissible
  have bindingsReturn := bindingsOk ∅ borrowed owned unwindOwned within
    admissible.exact (by simp)
  rw [memoryManagementPass]
  exact admissible.dispatch.bind fun _ => bindingsReturn.bind fun _ => .pure _

/-- A rewritten loop: the loop borrows what its body uses, so that the body owns
nothing from outside. -/
theorem NodeOk.loopLet
    {bindings : Scope Name (Finset Name)}
    {name : Name}
    {body : Node Name (Finset Name)}
    (unshadowed : name ∉ scope)
    (bindingsOk : ScopeOk .loopOp bindings scope)
    (bodyOk : NodeOk body body.ann (insert name scope)) :
    NodeOk
      (.letForm fresh .loopLet
        (.bind (body.ann.erase name ∪ bindings.ann) name
          (.loop bindings.ann bindings) (.body body)))
      (body.ann.erase name ∪ bindings.ann) scope := by
  intro borrowed owned unwindOwned within admissible
  obtain ⟨borrowedWithin, ownedWithin⟩ := Finset.union_subset_iff.mp within
  -- The variables of the loop body are borrowed by the loop.
  let ownedByLoopBody := owned ∩ bindings.bodyNode.ann
  have loopOk : ∀ loopBorrowed loopOwned loopUnwindOwned,
      loopBorrowed ∪ loopOwned ⊆ scope →
      loopOwned ∩ bindings.bodyNode.ann = ∅ →
      Admissible bindings.ann bindings.ann loopBorrowed loopOwned
        loopUnwindOwned →
      Returns (memoryManagementPass (.loop bindings.ann bindings) loopBorrowed
        loopOwned loopUnwindOwned) := by
    intro loopBorrowed loopOwned loopUnwindOwned loopWithin notInBody loopAdmissible
    have bindingsReturn := bindingsOk ∅ loopBorrowed loopOwned loopUnwindOwned
      loopWithin loopAdmissible (fun _ => notInBody.subset)
    rw [memoryManagementPass]
    exact loopAdmissible.dispatch.bind fun _ =>
      bindingsReturn.bind fun _ => .pure _
  have disjoint := admissible.disjoint
  have unwindSubset := admissible.unwind_subset
  have ownedSubset := admissible.owned_subset
  obtain ⟨bodySubset, loopSubset⟩ :=
    Finset.union_subset_iff.mp
      (admissible.free_subset.trans admissible.fresh_subset)
  let remainderOwned := (owned \ ownedByLoopBody) ∩ body.ann.erase name
  have loopReturns := loopOk ((borrowed ∪ ownedByLoopBody) ∪ remainderOwned)
    ((owned \ ownedByLoopBody) \ remainderOwned) unwindOwned (by grind)
    (by grind)
    ⟨by grind, by grind, subset_rfl, by grind, by grind⟩
  have bodyReturns := bodyOk (borrowed ∪ ownedByLoopBody)
    (if name ∈ body.ann ∧
      BindingsOp.letOp ≠ .letfnOp then insert name remainderOwned
      else remainderOwned)
    (if name ∈ body.ann then
        insert name
          (unwindOwned ∩ (borrowed ∪ ownedByLoopBody ∪ remainderOwned))
      else unwindOwned ∩ (borrowed ∪ ownedByLoopBody ∪ remainderOwned))
    (by split <;> grind)
    ⟨by split <;> grind, by split <;> grind, subset_rfl, by split <;> grind,
      by split <;> split <;> grind⟩
  rw [memoryManagementPass]
  refine admissible.dispatch.bind fun _ => Returns.bind ?_ fun _ => .pure _
  rw [nodeWithBindingsMemoryManagementPass,
    nodeWithBindingsMemoryManagementPass]
  exact loopReturns.bind fun _ =>
    (bodyReturns.bind fun _ => .pure _).bind fun _ => .pure _

/-- The body is given what the functions leave. -/
theorem LetfnOk.body
    {node : Node Name (Finset Name)}
    (nodeOk : NodeOk node node.ann scope) :
    LetfnOk (.body node) scope := by
  intro boundByThis borrowed owned unwindOwned within admissible bound
  obtain ⟨borrowedWithin, ownedWithin⟩ := Finset.union_subset_iff.mp within
  obtain ⟨boundBorrowed, -⟩ := Finset.union_subset_iff.mp bound
  have disjoint := admissible.disjoint
  have unwindSubset := admissible.unwind_subset
  have ownedSubset : owned ⊆ node.ann := admissible.owned_subset
  have freshSubset : node.ann ⊆ borrowed ∪ owned := admissible.fresh_subset
  have nodeReturns := nodeOk (borrowed \ boundByThis)
    (owned ∪ (boundByThis ∩ node.ann))
    (unwindOwned \ (boundByThis \ (boundByThis ∩ node.ann))) (by grind)
    ⟨by grind, by grind, subset_rfl, by grind, by grind⟩
  rw [nodeWithBindingsMemoryManagementPass]
  exact nodeReturns.bind fun _ => .pure _

/-- A function is given what is free in it. -/
theorem LetfnOk.bind
    {name : Name}
    {init : Node Name (Finset Name)}
    {rest : Scope Name (Finset Name)}
    (initOk : NodeOk init init.ann scope)
    (restOk : LetfnOk rest scope) :
    LetfnOk (.bind (rest.ann.erase name ∪ init.ann) name init rest) scope := by
  intro boundByThis borrowed owned unwindOwned within admissible bound
  obtain ⟨borrowedWithin, ownedWithin⟩ := Finset.union_subset_iff.mp within
  simp only [Scope.names, List.toFinset_cons, Finset.union_subset_iff,
    Finset.insert_subset_iff] at bound
  obtain ⟨boundBorrowed, nameBorrowed, namesBorrowed⟩ := bound
  have disjoint := admissible.disjoint
  have unwindSubset := admissible.unwind_subset
  have ownedSubset : owned ⊆ rest.ann.erase name ∪ init.ann :=
    admissible.owned_subset
  obtain ⟨restSubset, initSubset⟩ :=
    Finset.union_subset_iff.mp admissible.fresh_subset
  have initReturns := initOk (borrowed ∪ (owned ∩ rest.ann.erase name))
    (owned \ (owned ∩ rest.ann.erase name)) unwindOwned (by grind)
    ⟨by grind, by grind, subset_rfl, by grind, by grind⟩
  have restReturns := restOk (boundByThis ∪ {name}) borrowed
    (if name ∈ rest.ann ∧ BindingsOp.letfnOp ≠ .letfnOp then
        insert name (owned ∩ rest.ann.erase name)
      else owned ∩ rest.ann.erase name)
    (if name ∈ rest.ann then
        insert name (unwindOwned ∩ (borrowed ∪ (owned ∩ rest.ann.erase name)))
      else unwindOwned ∩ (borrowed ∪ (owned ∩ rest.ann.erase name)))
    (by split <;> grind)
    ⟨by split <;> grind, by split <;> grind, subset_rfl, by split <;> grind,
      by split <;> split <;> grind⟩
    (by grind)
  rw [nodeWithBindingsMemoryManagementPass]
  exact initReturns.bind fun _ => restReturns.bind fun _ => .pure _

/-- The pass returns if it does for the functions and the body. -/
theorem NodeOk.letfn
    {bindings : Scope Name (Finset Name)}
    (bindingsOk : LetfnOk bindings (scope ∪ bindings.names.toFinset)) :
    NodeOk (.letForm fresh .letfn bindings)
      (bindings.ann \ bindings.names.toFinset)
      scope := by
  intro borrowed owned unwindOwned within admissible
  obtain ⟨borrowedWithin, ownedWithin⟩ := Finset.union_subset_iff.mp within
  have disjoint := admissible.disjoint
  have unwindSubset := admissible.unwind_subset
  have ownedSubset := admissible.owned_subset
  have freshSubset :
      bindings.ann ⊆ bindings.names.toFinset ∪ (borrowed ∪ owned) :=
    sdiff_le_iff.mp (admissible.free_subset.trans admissible.fresh_subset)
  have bindingsReturn := bindingsOk ∅ (borrowed ∪ bindings.names.toFinset)
    (owned \ bindings.names.toFinset) unwindOwned (by grind)
    ⟨by grind, by grind, subset_rfl, by grind, by grind⟩ (by grind)
  rw [memoryManagementPass]
  exact admissible.dispatch.bind fun _ => bindingsReturn.bind fun _ => .pure _

/-- Each branch is given what is free in it. -/
theorem NodeOk.ifForm
    {test thenBranch elseBranch : Node Name (Finset Name)}
    (testOk : NodeOk test test.ann scope)
    (thenOk : NodeOk thenBranch thenBranch.ann scope)
    (elseOk : NodeOk elseBranch elseBranch.ann scope) :
    NodeOk (.ifForm fresh test thenBranch elseBranch)
      (test.ann ∪ thenBranch.ann ∪ elseBranch.ann) scope := by
  intro borrowed owned unwindOwned within admissible
  obtain ⟨borrowedWithin, ownedWithin⟩ := Finset.union_subset_iff.mp within
  have disjoint := admissible.disjoint
  have unwindSubset := admissible.unwind_subset
  have ownedSubset := admissible.owned_subset
  have freeSubset := admissible.free_subset.trans admissible.fresh_subset
  simp only [Finset.union_subset_iff] at freeSubset
  obtain ⟨⟨testSubset, thenSubset⟩, elseSubset⟩ := freeSubset
  let ownedInBranches := (owned ∩ thenBranch.ann) ∪ (owned ∩ elseBranch.ann)
  have testReturns := testOk (borrowed ∪ ownedInBranches)
    (owned \ ownedInBranches) unwindOwned
    (by grind) ⟨by grind, by grind, subset_rfl, by grind, by grind⟩
  have thenReturns := thenOk borrowed (owned ∩ thenBranch.ann)
    ((unwindOwned \ (owned \ ownedInBranches)) \
      (ownedInBranches \ (owned ∩ thenBranch.ann)))
    (by grind) ⟨by grind, by grind, subset_rfl, by grind, by grind⟩
  have elseReturns := elseOk borrowed (owned ∩ elseBranch.ann)
    ((unwindOwned \ (owned \ ownedInBranches)) \
      (ownedInBranches \ (owned ∩ elseBranch.ann)))
    (by grind) ⟨by grind, by grind, subset_rfl, by grind, by grind⟩
  rw [memoryManagementPass]
  exact admissible.dispatch.bind fun _ => testReturns.bind fun _ =>
    thenReturns.bind fun _ => elseReturns.bind fun _ => .pure _

/-- Each branch is given what is free in it. -/
theorem BranchesOk.pass
    {branches : Nodes Name (Finset Name)}
    (branchesOk : BranchesOk scope branches)
    {borrowed owned unwindOwned : Finset Name}
    (within : borrowed ∪ owned ⊆ scope)
    (disjoint : ∀ name ∈ borrowed, name ∉ owned)
    (freshSubset : branches.fresh ⊆ borrowed ∪ owned)
    (unwindSubset : unwindOwned ⊆ borrowed ∪ owned) :
    Returns (branchesMemoryManagementPass branches borrowed owned
      unwindOwned) := by
  match branches, branchesOk with
  | .nil, _ => exact ⟨.nil, rfl⟩
  | .cons head tail, ⟨headOk, tailOk⟩ =>
      obtain ⟨headSubset, tailSubset⟩ := Finset.union_subset_iff.mp freshSubset
      have tailReturns :=
        BranchesOk.pass tailOk within disjoint tailSubset unwindSubset
      obtain ⟨borrowedWithin, ownedWithin⟩ := Finset.union_subset_iff.mp within
      have headReturns := headOk borrowed (owned ∩ head.ann)
        (unwindOwned \ (owned \ (owned ∩ head.ann))) (by grind)
        ⟨by grind, by grind, subset_rfl, by grind, by grind⟩
      rw [branchesMemoryManagementPass]
      exact headReturns.bind fun _ => tailReturns.bind fun _ => .pure _

/-- The default of a `:case` is one more branch. -/
theorem ChildOk.branch
    {child : Child Name (Finset Name)}
    (childOk : ChildOk scope child)
    {borrowed owned unwindOwned : Finset Name}
    (within : borrowed ∪ owned ⊆ scope)
    (disjoint : ∀ name ∈ borrowed, name ∉ owned)
    (freshSubset : child.fresh ⊆ borrowed ∪ owned)
    (unwindSubset : unwindOwned ⊆ borrowed ∪ owned) :
    Returns (defaultMemoryManagementPass child borrowed owned unwindOwned) := by
  cases child with
  | absent => exact ⟨.absent, rfl⟩
  | present node =>
      obtain ⟨borrowedWithin, ownedWithin⟩ := Finset.union_subset_iff.mp within
      have nodeSubset : node.ann ⊆ borrowed ∪ owned := freshSubset
      have nodeReturns := childOk borrowed (owned ∩ node.ann)
        (unwindOwned \ (owned \ (owned ∩ node.ann))) (by grind)
        ⟨by grind, by grind, subset_rfl, by grind, by grind⟩
      rw [defaultMemoryManagementPass]
      exact nodeReturns.bind fun _ => .pure _

/-- The pass returns if it does for the branches and the default. -/
theorem NodeOk.caseForm
    {thens : Nodes Name (Finset Name)}
    {default : Child Name (Finset Name)}
    (test : Name)
    (thensOk : BranchesOk scope thens)
    (defaultOk : ChildOk scope default) :
    NodeOk (.caseForm fresh test thens default)
      (default.fresh ∪ {test} ∪ thens.fresh)
      scope := by
  intro borrowed owned unwindOwned within admissible
  have freeSubset := admissible.free_subset.trans admissible.fresh_subset
  simp only [Finset.union_subset_iff] at freeSubset
  obtain ⟨⟨defaultSubset, -⟩, thensSubset⟩ := freeSubset
  have thensReturn := thensOk.pass within admissible.disjoint thensSubset
    admissible.unwind_subset
  have defaultReturns := defaultOk.branch within admissible.disjoint
    defaultSubset admissible.unwind_subset
  rw [memoryManagementPass]
  exact admissible.dispatch.bind fun _ => thensReturn.bind fun _ =>
    defaultReturns.bind fun _ => .pure _

/-- There are no clauses. -/
theorem CatchesOk.nil : CatchesOk (.nil : Catches Name (Finset Name)) scope :=
  fun _ _ _ _ _ _ _ _ _ => ⟨.nil, rfl⟩

/-- The exception is new in the clause. -/
theorem CatchesOk.cons
    {name : Name}
    {body : Node Name (Finset Name)}
    {rest : Catches Name (Finset Name)}
    (unshadowed : name ∉ scope)
    (bodyOk : NodeOk body body.ann (insert name scope))
    (restOk : CatchesOk rest scope) :
    CatchesOk (.cons (body.ann.erase name) name body rest) scope := by
  intro owned finallyOwned allCatchesOwned tryBorrowed unwindOwned within ownedSubset
    freshSubset unwindSubset
  obtain ⟨ownedHere, ownedRest⟩ := Finset.union_subset_iff.mp ownedSubset
  obtain ⟨freshHere, freshRest⟩ := Finset.union_subset_iff.mp freshSubset
  have restReturns := restOk owned finallyOwned allCatchesOwned tryBorrowed
    unwindOwned within ownedRest freshRest unwindSubset
  let catchOwned := (body.ann.erase name ∩ owned) \ finallyOwned
  have admissible : Admissible (body.ann.erase name) (body.ann.erase name)
      (tryBorrowed \ catchOwned) catchOwned
      (unwindOwned \ (allCatchesOwned \ catchOwned)) :=
    ⟨by grind, by grind, subset_rfl, by grind, by grind⟩
  have bodyReturns := bodyOk (tryBorrowed \ catchOwned)
    (if name ∈ body.ann then insert name
      (catchOwned ∩ body.ann) else catchOwned ∩ body.ann)
    (if name ∈ body.ann then insert name
      (unwindOwned \ (allCatchesOwned \ catchOwned))
      else unwindOwned \ (allCatchesOwned \ catchOwned))
    (by split <;> grind)
    ⟨by split <;> grind, by split <;> grind, subset_rfl, by split <;> grind,
      by split <;> grind⟩
  rw [catchMemoryManagementPass]
  exact admissible.dispatch.bind fun _ => bodyReturns.bind fun _ =>
    restReturns.bind fun _ => .pure _

/-- The body borrows what the clauses and `:finally` use. -/
theorem NodeOk.tryForm
    {body : Node Name (Finset Name)}
    {catches : Catches Name (Finset Name)}
    {finalizer : Child Name (Finset Name)}
    (bodyOk : NodeOk body body.ann scope)
    (catchesOk : CatchesOk catches scope)
    (finalizerOk : ChildOk scope finalizer) :
    NodeOk (.tryForm fresh body catches finalizer)
      (body.ann ∪ catches.fresh ∪ finalizer.fresh) scope := by
  intro borrowed owned unwindOwned within admissible
  obtain ⟨borrowedWithin, ownedWithin⟩ := Finset.union_subset_iff.mp within
  have disjoint := admissible.disjoint
  have unwindSubset := admissible.unwind_subset
  have ownedSubset := admissible.owned_subset
  have freeSubset := admissible.free_subset.trans admissible.fresh_subset
  simp only [Finset.union_subset_iff] at freeSubset
  obtain ⟨⟨bodySubset, catchesSubset⟩, finalizerSubset⟩ := freeSubset
  let finallyOwned := owned ∩ finalizer.fresh
  let allCatchesOwned := catches.owned owned finallyOwned
  let tryOwned := (owned ∩ body.ann) \ (finallyOwned ∪ allCatchesOwned)
  have allEqual : allCatchesOwned = (owned ∩ catches.fresh) \ finallyOwned :=
    catches_owned owned finallyOwned catches
  have bodyReturns := bodyOk (borrowed ∪ (owned \ tryOwned)) tryOwned ∅
    (by grind)
    ⟨by grind, by grind, subset_rfl, by grind, by simp⟩
  have catchesReturn := catchesOk owned finallyOwned allCatchesOwned
    (borrowed ∪ (owned \ tryOwned)) (unwindOwned \ tryOwned) (by grind)
    (by grind) (by grind)
    (by grind)
  have finallyUnwindSubset : (unwindOwned \ tryOwned) \ allCatchesOwned ⊆
      borrowed ∪ finallyOwned := by
    intro name member
    have known := @unwindSubset name
    have owner := @ownedSubset name
    simp only [tryOwned, allEqual, finallyOwned, Finset.mem_union,
      Finset.mem_inter, Finset.mem_sdiff] at member known owner ⊢
    grind
  have finalizerReturns := finalizerOk.pass borrowed finallyOwned
    ((unwindOwned \ tryOwned) \ allCatchesOwned) (by grind)
    ⟨by grind, by grind, subset_rfl, by grind, finallyUnwindSubset⟩
  rw [memoryManagementPass]
  exact admissible.dispatch.bind fun _ => bodyReturns.bind fun _ =>
    catchesReturn.bind fun _ =>
    finalizerReturns.bind fun _ => .pure _

end Arms

/-! ## Every call returns -/

mutual

/-- The pass returns from every admissible call on a node whose binders are
distinct and shadow nothing. -/
theorem nodeOk_freshVars (recurThis : Name → Option Name) (scope : Finset Name)
    (node : Node Name Unit) (change : Finset Name → Finset Name)
    (closed : DeftypesClosed recurThis node)
    (rewritten : node.LoopsRewritten false)
    (nodup : node.binders.Nodup)
    (unshadowed : ∀ name ∈ node.binders, name ∉ scope)
    (within : (freshVars recurThis node).ann ⊆ scope) :
    NodeOk ((freshVars recurThis node).modify change)
      (freshVars recurThis node).ann scope := by
  match node with
  | .localVar _ name => exact NodeOk.localVar name
  | .plain _ op child =>
      exact NodeOk.plain op
        (childOk_freshChild recurThis scope child closed rewritten nodup
        unshadowed within)
  | .application _ op children =>
      refine NodeOk.application op ?_
      cases this : op.recurThis recurThis with
      | none =>
          refine applicationOk_freshNodes op.cumulative recurThis scope
            children closed rewritten nodup unshadowed ?_
          simp only [freshVars, this, Nodes.consThis] at within
          exact within
      | some name =>
          simp only [freshVars, this, Nodes.consThis] at within
          obtain ⟨-, childrenWithin⟩ := Finset.union_subset_iff.mp within
          exact ApplicationOk.cons (NodeOk.localVar name) subset_rfl
            Finset.subset_union_left
            (applicationOk_freshNodes op.cumulative recurThis scope children
              closed rewritten nodup unshadowed childrenWithin)
  | .fn _ self methods =>
      refine NodeOk.fn self ?_
      obtain ⟨-, methodsNodup, apart⟩ := List.nodup_append.mp nodup
      have freshWithin : (freshMethods recurThis methods).fresh ⊆
          self.toFinset ∪ scope :=
        sdiff_le_iff.mp within
      have methodsOk := methodsOk_freshMethods recurThis (self.toFinset ∪ scope)
        ∅ methods
        closed rewritten methodsNodup
        (by
          intro name member inScope
          rcases Finset.mem_union.mp inScope with isSelf | outer
          · exact apart name (by simpa using isSelf) name member rfl
          · exact unshadowed name (List.mem_append_right _ member) outer)
        freshWithin
      rwa [Methods.modify_sdiff_empty] at methodsOk
  | .reify _ methods =>
      refine NodeOk.reify ?_
      have methodsOk := methodsOk_freshMethods recurThis scope ∅ methods closed
        rewritten nodup unshadowed within
      rwa [Methods.modify_sdiff_empty] at methodsOk
  | .deftype _ fields methods =>
      obtain ⟨-, methodsNodup, apart⟩ := List.nodup_append.mp nodup
      refine NodeOk.deftype fields
        (methodsOk_freshMethods recurThis fields.toFinset
        fields.toFinset methods closed.2 rewritten methodsNodup ?_ closed.1)
      intro name member isField
      exact apart name (List.mem_toFinset.mp isField) name member rfl
  | .letForm _ .plainLet bindings =>
      exact NodeOk.plainLet
        (scopeOk_freshScope recurThis .letOp (by simp) scope bindings closed
        rewritten nodup unshadowed within)
  | .letForm _ .loopLet
      (.bind _ name (.loop _ bindings) (.body (.localVar _ used))) =>
      obtain ⟨nameFresh, innerNodup⟩ := List.nodup_cons.mp nodup
      obtain ⟨bindingsNodup, -, -⟩ := List.nodup_append.mp innerNodup
      have nameUnshadowed : name ∉ scope := unshadowed name List.mem_cons_self
      obtain ⟨-, bindingsWithin⟩ := Finset.union_subset_iff.mp within
      have bindingsOk := scopeOk_freshScope recurThis .loopOp (by simp) scope
        bindings closed.1 rewritten.2 bindingsNodup
        (fun binder member => unshadowed binder
          (List.mem_cons_of_mem _ (List.mem_append_left _ member)))
        bindingsWithin
      exact NodeOk.loopLet nameUnshadowed bindingsOk (NodeOk.localVar used)
  | .letForm _ .letfn bindings =>
      have names := names_freshScope recurThis bindings
      have apart := bindings.not_mem_names_of_nodup nodup
      refine NodeOk.letfn
        (letfnOk_freshScope recurThis _ bindings closed rewritten nodup
          ?_ ?_ ?_)
      · intro name member inScope
        rcases Finset.mem_union.mp inScope with outer | isName
        · exact unshadowed name
            ((bindings.mem_binders_iff name).mpr (.inr member)) outer
        · rw [names, List.mem_toFinset] at isName
          exact apart name member isName
      · intro name member
        rw [names]
        exact Finset.mem_union_right _ (List.mem_toFinset.mpr member)
      · rw [Finset.union_comm]
        exact sdiff_le_iff.mp within
  | .loop _ _ => exact absurd rewritten.1 (by simp)
  | .tryForm _ body catches finalizer =>
      obtain ⟨bodyNodup, othersNodup, -⟩ := List.nodup_append.mp nodup
      obtain ⟨catchesNodup, finalizerNodup, -⟩ :=
        List.nodup_append.mp othersNodup
      obtain ⟨bodyCatchesWithin, finalizerWithin⟩ :=
        Finset.union_subset_iff.mp within
      obtain ⟨bodyWithin, catchesWithin⟩ :=
        Finset.union_subset_iff.mp bodyCatchesWithin
      have bodyOk := nodeOk_freshVars recurThis scope body (fun fresh => fresh)
        closed.1 rewritten.1 bodyNodup
        (fun name member => unshadowed name (List.mem_append_left _ member))
        bodyWithin
      rw [Node.modify_id] at bodyOk
      refine NodeOk.tryForm bodyOk
        (catchesOk_freshCatches recurThis scope catches closed.2.1 rewritten.2.1
          catchesNodup (fun name member => unshadowed name
            (List.mem_append_right _ (List.mem_append_left _ member)))
              catchesWithin)
        (childOk_freshChild recurThis scope finalizer closed.2.2 rewritten.2.2
          finalizerNodup (fun name member => unshadowed name
            (List.mem_append_right _ (List.mem_append_right _ member)))
              finalizerWithin)
  | .ifForm _ test thenBranch elseBranch =>
      obtain ⟨testNodup, branchesNodup, -⟩ := List.nodup_append.mp nodup
      obtain ⟨thenNodup, elseNodup, -⟩ := List.nodup_append.mp branchesNodup
      obtain ⟨testThenWithin, elseWithin⟩ := Finset.union_subset_iff.mp within
      obtain ⟨testWithin, thenWithin⟩ :=
        Finset.union_subset_iff.mp testThenWithin
      have testOk := nodeOk_freshVars recurThis scope test (fun fresh => fresh)
        closed.1 rewritten.1 testNodup
        (fun name member => unshadowed name (List.mem_append_left _ member))
        testWithin
      have thenOk := nodeOk_freshVars recurThis scope thenBranch
        (fun fresh => fresh) closed.2.1 rewritten.2.1 thenNodup
        (fun name member => unshadowed name
          (List.mem_append_right _ (List.mem_append_left _ member))) thenWithin
      have elseOk := nodeOk_freshVars recurThis scope elseBranch
        (fun fresh => fresh) closed.2.2 rewritten.2.2 elseNodup
        (fun name member => unshadowed name
          (List.mem_append_right _ (List.mem_append_right _ member))) elseWithin
      rw [Node.modify_id] at testOk thenOk elseOk
      exact NodeOk.ifForm testOk thenOk elseOk
  | .caseForm _ test thens default =>
      obtain ⟨thensNodup, defaultNodup, -⟩ := List.nodup_append.mp nodup
      obtain ⟨defaultTestWithin, thensWithin⟩ :=
        Finset.union_subset_iff.mp within
      obtain ⟨defaultWithin, -⟩ := Finset.union_subset_iff.mp defaultTestWithin
      exact NodeOk.caseForm test
        (branchesOk_freshNodes recurThis scope thens closed.1 rewritten.1
          thensNodup
          (fun name member => unshadowed name (List.mem_append_left _ member))
          thensWithin)
        (childOk_freshChild recurThis scope default closed.2 rewritten.2
          defaultNodup
          (fun name member => unshadowed name (List.mem_append_right _ member))
          defaultWithin)

/-- A child, if there is one. -/
theorem childOk_freshChild (recurThis : Name → Option Name)
    (scope : Finset Name)
    (child : Child Name Unit)
    (closed : DeftypesClosedChild recurThis child)
    (rewritten : child.LoopsRewritten false)
    (nodup : child.binders.Nodup)
    (unshadowed : ∀ name ∈ child.binders, name ∉ scope)
    (within : (freshChild recurThis child).fresh ⊆ scope) :
    ChildOk scope (freshChild recurThis child) := by
  match child with
  | .absent => trivial
  | .present node =>
      have nodeOk := nodeOk_freshVars recurThis scope node (fun fresh => fresh)
        closed rewritten nodup unshadowed within
      rw [Node.modify_id] at nodeOk
      exact nodeOk

/-- By induction on the branches. -/
theorem branchesOk_freshNodes (recurThis : Name → Option Name)
    (scope : Finset Name)
    (nodes : Nodes Name Unit)
    (closed : DeftypesClosedNodes recurThis nodes)
    (rewritten : nodes.LoopsRewritten false)
    (nodup : nodes.binders.Nodup)
    (unshadowed : ∀ name ∈ nodes.binders, name ∉ scope)
    (within : (freshNodes false recurThis nodes).fresh ⊆ scope) :
    BranchesOk scope (freshNodes false recurThis nodes) := by
  match nodes with
  | .nil => trivial
  | .cons head tail =>
      rw [freshNodes_false_cons] at within ⊢
      obtain ⟨headNodup, tailNodup, -⟩ := List.nodup_append.mp nodup
      obtain ⟨headWithin, tailWithin⟩ := Finset.union_subset_iff.mp within
      have headOk := nodeOk_freshVars recurThis scope head (fun fresh => fresh)
        closed.1 rewritten.1 headNodup
        (fun name member => unshadowed name (List.mem_append_left _ member))
        headWithin
      rw [Node.modify_id] at headOk
      exact ⟨headOk,
        branchesOk_freshNodes recurThis scope tail closed.2 rewritten.2
          tailNodup
        (fun name member => unshadowed name (List.mem_append_right _ member))
        tailWithin⟩

/-- By induction on the arguments. -/
theorem applicationOk_freshNodes (cumulative : Bool)
    (recurThis : Name → Option Name)
    (scope : Finset Name)
    (nodes : Nodes Name Unit)
    (closed : DeftypesClosedNodes recurThis nodes)
    (rewritten : nodes.LoopsRewritten false)
    (nodup : nodes.binders.Nodup)
    (unshadowed : ∀ name ∈ nodes.binders, name ∉ scope)
    (within : (freshNodes cumulative recurThis nodes).fresh ⊆ scope) :
    ApplicationOk (freshNodes cumulative recurThis nodes) scope := by
  match nodes with
  | .nil => exact ApplicationOk.nil
  | .cons head tail =>
      obtain ⟨headNodup, tailNodup, -⟩ := List.nodup_append.mp nodup
      obtain ⟨headWithin, tailWithin⟩ := Finset.union_subset_iff.mp within
      have tailOk := applicationOk_freshNodes cumulative recurThis scope tail
        closed.2 rewritten.2 tailNodup
        (fun name member => unshadowed name (List.mem_append_right _ member))
        tailWithin
      let change := fun fresh =>
        if cumulative then (freshNodes cumulative recurThis tail).fresh ∪ fresh
        else fresh
      have annEqual := Node.ann_modify change (freshVars recurThis head)
      have freeSubset : (freshVars recurThis head).ann ⊆
          ((freshVars recurThis head).modify change).ann := by
        rw [annEqual]
        cases cumulative with
        | false => exact subset_rfl
        | true => exact Finset.subset_union_right
      have annSubset : ((freshVars recurThis head).modify change).ann ⊆
          (freshVars recurThis head).ann ∪
          (freshNodes cumulative recurThis tail).fresh := by
        rw [annEqual]
        cases cumulative with
        | false => exact Finset.subset_union_left
        | true => exact (Finset.union_comm _ _).subset
      exact ApplicationOk.cons
        (nodeOk_freshVars recurThis scope head change closed.1 rewritten.1
          headNodup
          (fun name member => unshadowed name (List.mem_append_left _ member))
          (freeSubset.trans headWithin))
        freeSubset annSubset tailOk

/-- By induction on the bindings. -/
theorem scopeOk_freshScope (recurThis : Name → Option Name) (op : BindingsOp)
    (notLetfn : op ≠ .letfnOp) (scope : Finset Name)
    (bindings : Scope Name Unit)
    (closed : DeftypesClosedScope recurThis bindings)
    (rewritten : bindings.LoopsRewritten false)
    (nodup : bindings.binders.Nodup)
    (unshadowed : ∀ name ∈ bindings.binders, name ∉ scope)
    (within : (freshScope recurThis bindings).ann ⊆ scope) :
    ScopeOk op (freshScope recurThis bindings) scope := by
  match bindings with
  | .body node =>
      have nodeOk := nodeOk_freshVars recurThis scope node (fun fresh => fresh)
        closed rewritten nodup unshadowed within
      rw [Node.modify_id] at nodeOk
      exact ScopeOk.body notLetfn nodeOk
  | .bind _ name init rest =>
      obtain ⟨nameFresh, innerNodup⟩ := List.nodup_cons.mp nodup
      obtain ⟨initNodup, restNodup, -⟩ := List.nodup_append.mp innerNodup
      obtain ⟨restWithin, initWithin⟩ := Finset.union_subset_iff.mp within
      have initOk := nodeOk_freshVars recurThis scope init (fun fresh => fresh)
        closed.1 rewritten.1 initNodup (fun binder member => unshadowed binder
          (List.mem_cons_of_mem _ (List.mem_append_left _ member))) initWithin
      rw [Node.modify_id] at initOk
      refine ScopeOk.bind notLetfn (unshadowed name List.mem_cons_self) initOk
        (scopeOk_freshScope recurThis op notLetfn (insert name scope) rest
          closed.2 rewritten.2
          restNodup ?_ (Finset.subset_insert_iff.mpr restWithin))
      intro binder member inScope
      rcases Finset.mem_insert.mp inScope with rfl | outer
      · exact nameFresh (List.mem_append_right _ member)
      · exact unshadowed binder
          (List.mem_cons_of_mem _ (List.mem_append_right _ member)) outer

/-- By induction on the functions. -/
theorem letfnOk_freshScope (recurThis : Name → Option Name)
    (scope : Finset Name)
    (bindings : Scope Name Unit)
    (closed : DeftypesClosedScope recurThis bindings)
    (rewritten : bindings.LoopsRewritten false)
    (nodup : bindings.binders.Nodup)
    (unshadowed : ∀ name ∈ bindings.innerBinders, name ∉ scope)
    (namesWithin : ∀ name ∈ bindings.names, name ∈ scope)
    (within : (freshScope recurThis bindings).ann ⊆ scope) :
    LetfnOk (freshScope recurThis bindings) scope := by
  match bindings with
  | .body node =>
      have nodeOk := nodeOk_freshVars recurThis scope node (fun fresh => fresh)
        closed rewritten nodup unshadowed within
      rw [Node.modify_id] at nodeOk
      exact LetfnOk.body nodeOk
  | .bind _ name init rest =>
      obtain ⟨-, innerNodup⟩ := List.nodup_cons.mp nodup
      obtain ⟨initNodup, restNodup, -⟩ := List.nodup_append.mp innerNodup
      obtain ⟨restWithin, initWithin⟩ := Finset.union_subset_iff.mp within
      have initOk := nodeOk_freshVars recurThis scope init (fun fresh => fresh)
        closed.1 rewritten.1 initNodup
        (fun binder member => unshadowed binder (List.mem_append_left _ member))
        initWithin
      rw [Node.modify_id] at initOk
      refine LetfnOk.bind initOk
        (letfnOk_freshScope recurThis scope rest closed.2 rewritten.2
        restNodup (fun binder member =>
          unshadowed binder (List.mem_append_right _ member))
        (fun binder member =>
          namesWithin binder (List.mem_cons_of_mem _ member)) ?_)
      have nameWithin := namesWithin name List.mem_cons_self
      exact (Finset.subset_insert_iff.mpr restWithin).trans
        (Finset.insert_subset nameWithin subset_rfl)

/-- By induction on the methods. -/
theorem methodsOk_freshMethods (recurThis : Name → Option Name)
    (scope fields : Finset Name)
    (methods : Methods Name Unit)
    (closed : DeftypesClosedMethods recurThis methods)
    (rewritten : methods.LoopsRewritten false)
    (nodup : methods.binders.Nodup)
    (unshadowed : ∀ name ∈ methods.binders, name ∉ scope)
    (within : (freshMethods recurThis methods).fresh ⊆ scope) :
    MethodsOk fields
      ((freshMethods recurThis methods).modify (· \ fields)) := by
  match methods with
  | .nil => exact MethodsOk.nil fields
  | .cons _ this params loopId body rest =>
      obtain ⟨-, othersNodup, thisApart⟩ := List.nodup_append.mp nodup
      obtain ⟨-, innerNodup, paramsApart⟩ := List.nodup_append.mp othersNodup
      obtain ⟨bodyNodup, restNodup, -⟩ := List.nodup_append.mp innerNodup
      obtain ⟨freshWithin, restWithin⟩ := Finset.union_subset_iff.mp within
      let bodyThis :=
        if this.isSome then Function.update recurThis loopId this else recurThis
      have bodyUnshadowed : ∀ name ∈ body.binders,
          name ∉ (freshVars bodyThis body).ann := by
        intro name member free
        by_cases isArg : name ∈ methodArgs this params
        · rcases Finset.mem_union.mp isArg with isThis | isParam
          · exact thisApart name (by simpa using isThis) name
              (by simp [member]) rfl
          · exact paramsApart name (List.mem_toFinset.mp isParam) name
              (by simp [member]) rfl
        · exact unshadowed name (by simp [Methods.binders, member])
            (freshWithin (Finset.mem_sdiff.mpr ⟨free, isArg⟩))
      have bodyOk := nodeOk_freshVars bodyThis
        (freshVars bodyThis body).ann body
        (fun fresh => fresh) closed.1 rewritten.1 bodyNodup bodyUnshadowed
        subset_rfl
      rw [Node.modify_id] at bodyOk
      exact MethodsOk.cons bodyOk rfl
        (methodsOk_freshMethods recurThis scope fields rest closed.2 rewritten.2
          restNodup (fun name member =>
            unshadowed name (by simp [Methods.binders, member])) restWithin)

/-- By induction on the clauses. -/
theorem catchesOk_freshCatches (recurThis : Name → Option Name)
    (scope : Finset Name)
    (catches : Catches Name Unit)
    (closed : DeftypesClosedCatches recurThis catches)
    (rewritten : catches.LoopsRewritten false)
    (nodup : catches.binders.Nodup)
    (unshadowed : ∀ name ∈ catches.binders, name ∉ scope)
    (within : (freshCatches recurThis catches).fresh ⊆ scope) :
    CatchesOk (freshCatches recurThis catches) scope := by
  match catches with
  | .nil => exact CatchesOk.nil
  | .cons _ name body rest =>
      obtain ⟨nameFresh, innerNodup⟩ := List.nodup_cons.mp nodup
      obtain ⟨bodyNodup, restNodup, -⟩ := List.nodup_append.mp innerNodup
      obtain ⟨bodyWithin, restWithin⟩ := Finset.union_subset_iff.mp within
      have bodyOk := nodeOk_freshVars recurThis (insert name scope) body
        (fun fresh => fresh) closed.1 rewritten.1 bodyNodup (by
          intro binder member inScope
          rcases Finset.mem_insert.mp inScope with rfl | outer
          · exact nameFresh (List.mem_append_left _ member)
          · exact unshadowed binder
              (List.mem_cons_of_mem _ (List.mem_append_left _ member)) outer)
        (Finset.subset_insert_iff.mpr bodyWithin)
      rw [Node.modify_id] at bodyOk
      exact CatchesOk.cons (unshadowed name List.mem_cons_self) bodyOk
        (catchesOk_freshCatches recurThis scope rest closed.2 rewritten.2
          restNodup (fun binder member => unshadowed binder
            (List.mem_cons_of_mem _ (List.mem_append_right _ member)))
              restWithin)

end

/-- `fresh-vars` followed by `memory-management-pass`, on a whole form. -/
def annotate (node : Node Name Unit) : Except Violation
    (Node Name (Memory Name)) :=
  memoryManagementPass (freshVars (fun _ => none) node) ∅ ∅ ∅

/-- On a closed form with distinct binders no assertion of the pass fails, in
any of its recursive calls. -/
theorem annotate_returns
    (node : Node Name Unit)
    (distinct : node.binders.Nodup)
    (rewritten : node.LoopsRewritten false)
    (deftypesClosed : DeftypesClosed (fun _ => none) node)
    (closed : (freshVars (fun _ => none) node).ann = ∅) :
    ∃ annotated, annotate node = .ok annotated := by
  have nodeOk := nodeOk_freshVars (fun _ => none) ∅ node (fun fresh => fresh)
    deftypesClosed rewritten distinct (by simp) closed.subset
  rw [Node.modify_id] at nodeOk
  exact nodeOk ∅ ∅ ∅ (by simp)
    ⟨by simp, by simp, subset_rfl, by simp [closed], by simp⟩

/-- The form `(fn f [x] (loop [y x] (if y (recur y) (try y (catch e e) (finally
x)))))`, with its loop rewritten. -/
theorem annotate_returns_loop :
    ∃ annotated, annotate
      (.fn () (some 0) (.cons () none [1] 9
        (.letForm () .loopLet
          (.bind () 2
            (.loop () (.bind () 3 (.localVar () 1) (.body
              (.ifForm () (.localVar () 3)
                (.application () (.recur 8) (.cons (.localVar () 3) .nil))
                (.tryForm () (.localVar () 3) (.cons () 4 (.localVar () 4) .nil)
                  (.present (.localVar () 1)))))))
            (.body (.localVar () 2)))) .nil) : Node Nat Unit) = .ok annotated :=
  annotate_returns _ (by decide)
    (by simp [Node.LoopsRewritten, Nodes.LoopsRewritten, Child.LoopsRewritten,
      Scope.LoopsRewritten, Methods.LoopsRewritten, Catches.LoopsRewritten])
    (by simp [DeftypesClosed, DeftypesClosedNodes, DeftypesClosedChild,
      DeftypesClosedScope, DeftypesClosedMethods, DeftypesClosedCatches])
    (by decide)

end Frontend
end ClojureRt
