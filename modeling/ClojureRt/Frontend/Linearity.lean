import ClojureRt.Frontend.Balance
import ClojureRt.Frontend.Scoping

/-!
# The reference counting pass is linear

Whatever the pass makes of a node takes one token of each variable that the node
owns.  There is one rule for each kind of node, which reads the annotations off
the pass and composes the effects of the children, and the theorems follow by
recursion over the tree.
-/

namespace ClojureRt
namespace Frontend

open TokenTrace

variable {Name : Type} [DecidableEq Name]

/-! ## Reading the pass backwards -/

/-- Both parts of a sequence returned. -/
theorem bind_eq_ok
    {Result Next : Type}
    {result : Except Violation Result}
    {next : Result → Except Violation Next}
    {value : Next}
    (returned : (result >>= next) = .ok value) :
    ∃ middle, result = .ok middle ∧ next middle = .ok value := by
  cases result with
  | error violation => cases returned
  | ok middle => exact ⟨middle, rfl, returned⟩

/-- An assertion that let the call go on holds. -/
theorem require_eq_ok
    {condition : Prop}
    [Decidable condition]
    {violation : Violation}
    {value : Unit}
    (returned : require condition violation = .ok value) :
    condition := by
  by_contra fails
  rw [require, if_neg fails] at returned
  cases returned

/-- The assertions of a call that returned. -/
structure Checked
    (fresh borrowed owned unwindOwned : Finset Name) : Prop where
  disjoint : ∀ name ∈ borrowed, name ∉ owned
  owned_subset : owned ⊆ fresh
  unwind_subset : unwindOwned ⊆ borrowed ∪ owned
  fresh_subset : fresh ⊆ borrowed ∪ owned

/-- The call went on past all of its assertions. -/
theorem dispatch_eq_ok
    {fresh borrowed owned unwindOwned : Finset Name}
    {value : Unit}
    (returned : dispatch fresh borrowed owned unwindOwned = .ok value) :
    Checked fresh borrowed owned unwindOwned := by
  obtain ⟨_, disjoint, returned⟩ := bind_eq_ok returned
  obtain ⟨_, ownedSubset, returned⟩ := bind_eq_ok returned
  obtain ⟨_, unwindSubset, freshSubset⟩ := bind_eq_ok returned
  have apart := Finset.disjoint_iff_inter_eq_empty.mpr (require_eq_ok disjoint)
  exact ⟨fun _ member => Finset.disjoint_left.mp apart member,
    require_eq_ok ownedSubset, require_eq_ok unwindSubset,
    require_eq_ok freshSubset⟩

/-- A call of the pass starts with its assertions. -/
theorem checked_of_pass
    {node : Node Name (Finset Name)}
    {borrowed owned unwindOwned : Finset Name}
    {annotated : Node Name (Memory Name)}
    (pass : memoryManagementPass node borrowed owned unwindOwned =
      .ok annotated) :
    Checked node.ann borrowed owned unwindOwned := by
  cases node with
  | letForm fresh kind bindings =>
      cases kind <;>
        · rw [memoryManagementPass] at pass
          obtain ⟨_, checked, -⟩ := bind_eq_ok pass
          exact dispatch_eq_ok checked
  | _ =>
      rw [memoryManagementPass] at pass
      obtain ⟨_, checked, -⟩ := bind_eq_ok pass
      exact dispatch_eq_ok checked

/-- The pass keeps `:fresh`. -/
theorem fresh_of_pass
    {node : Node Name (Finset Name)}
    {borrowed owned unwindOwned : Finset Name}
    {annotated : Node Name (Memory Name)}
    (pass : memoryManagementPass node borrowed owned unwindOwned =
      .ok annotated) :
    annotated.ann.fresh = node.ann := by
  cases node with
  | localVar fresh name =>
      rw [memoryManagementPass] at pass
      obtain ⟨_, -, pass⟩ := bind_eq_ok pass
      obtain ⟨memory, used, pass⟩ := bind_eq_ok pass
      cases pass
      unfold variableUsage at used
      split at used
      · cases used
        rfl
      · split at used
        · cases used
          rfl
        · cases used
  | plain fresh op child =>
      rw [memoryManagementPass] at pass
      obtain ⟨_, -, pass⟩ := bind_eq_ok pass
      obtain ⟨_, -, pass⟩ := bind_eq_ok pass
      cases pass
      rfl
  | application fresh op children =>
      rw [memoryManagementPass] at pass
      obtain ⟨_, -, pass⟩ := bind_eq_ok pass
      obtain ⟨_, -, pass⟩ := bind_eq_ok pass
      cases pass
      rfl
  | fn fresh self methods =>
      rw [memoryManagementPass] at pass
      obtain ⟨_, -, pass⟩ := bind_eq_ok pass
      obtain ⟨_, -, pass⟩ := bind_eq_ok pass
      cases pass
      rfl
  | reify fresh methods =>
      rw [memoryManagementPass] at pass
      obtain ⟨_, -, pass⟩ := bind_eq_ok pass
      obtain ⟨_, -, pass⟩ := bind_eq_ok pass
      cases pass
      rfl
  | deftype fresh fields methods =>
      rw [memoryManagementPass] at pass
      obtain ⟨_, -, pass⟩ := bind_eq_ok pass
      obtain ⟨_, -, pass⟩ := bind_eq_ok pass
      cases pass
      rfl
  | letForm fresh kind bindings =>
      cases kind <;>
        · rw [memoryManagementPass] at pass
          obtain ⟨_, -, pass⟩ := bind_eq_ok pass
          obtain ⟨_, -, pass⟩ := bind_eq_ok pass
          cases pass
          rfl
  | loop fresh bindings =>
      rw [memoryManagementPass] at pass
      obtain ⟨_, -, pass⟩ := bind_eq_ok pass
      obtain ⟨_, -, pass⟩ := bind_eq_ok pass
      cases pass
      rfl
  | tryForm fresh body catches finalizer =>
      rw [memoryManagementPass] at pass
      obtain ⟨_, -, pass⟩ := bind_eq_ok pass
      obtain ⟨_, -, pass⟩ := bind_eq_ok pass
      obtain ⟨_, -, pass⟩ := bind_eq_ok pass
      obtain ⟨_, -, pass⟩ := bind_eq_ok pass
      cases pass
      rfl
  | ifForm fresh test thenBranch elseBranch =>
      rw [memoryManagementPass] at pass
      obtain ⟨_, -, pass⟩ := bind_eq_ok pass
      obtain ⟨_, -, pass⟩ := bind_eq_ok pass
      obtain ⟨_, -, pass⟩ := bind_eq_ok pass
      obtain ⟨_, -, pass⟩ := bind_eq_ok pass
      cases pass
      rfl
  | caseForm fresh test thens default =>
      rw [memoryManagementPass] at pass
      obtain ⟨_, -, pass⟩ := bind_eq_ok pass
      obtain ⟨_, -, pass⟩ := bind_eq_ok pass
      obtain ⟨_, -, pass⟩ := bind_eq_ok pass
      cases pass
      rfl

/-! ## What a node needs from its children -/

/-- Every run of what the pass makes of a node takes what the node owns. -/
def NodeBalanced (node : Node Name (Finset Name))
    (free scope : Finset Name) : Prop :=
  ∀ borrowed owned unwindOwned annotated,
    memoryManagementPass node borrowed owned unwindOwned = .ok annotated →
    owned ⊆ free → borrowed ∪ owned ⊆ scope →
    ∀ bound, unwindOwned ⊆ bound →
      Has scope bound owned unwindOwned
        (entering annotated (annotated.runs scope bound))

/-- `NodeBalanced` of an optional child. -/
def ChildBalanced (scope : Finset Name) : Child Name (Finset Name) → Prop
  | .absent => True
  | .present node => NodeBalanced node node.ann scope

/-- `NodeBalanced` of every branch. -/
def BranchesBalanced (scope : Finset Name) : Nodes Name (Finset Name) → Prop
  | .nil => True
  | .cons head tail =>
      NodeBalanced head head.ann scope ∧ BranchesBalanced scope tail

/-- The nodes of an application take what is owned and free in them, and the
application unwinds the rest. -/
def ApplicationBalanced (nodes : Nodes Name (Finset Name))
    (scope : Finset Name) : Prop :=
  ∀ borrowed owned unwindOwned annotated restUnwindOwned,
    applicationUsage nodes (applicationContexts borrowed owned nodes.anns)
      unwindOwned =
      .ok (annotated, restUnwindOwned) →
    borrowed ∪ owned ⊆ scope →
    restUnwindOwned = unwindOwned \ (owned ∩ nodes.fresh) ∧
      ∀ bound, unwindOwned ⊆ bound →
        Has scope bound (owned ∩ nodes.fresh) unwindOwned
          (annotated.runs scope bound)

/-- The bindings and body of a `:let`. -/
def LetBalanced (bindings : Scope Name (Finset Name))
    (scope : Finset Name) : Prop :=
  ∀ boundByThis borrowed owned unwindOwned annotated,
    nodeWithBindingsMemoryManagementPass .letOp bindings boundByThis
      borrowed owned unwindOwned = .ok annotated →
    owned ⊆ bindings.ann → borrowed ∪ owned ⊆ scope →
      unwindOwned ⊆ borrowed ∪ owned →
    (∀ name ∈ borrowed, name ∉ owned) →
    ∀ bound, unwindOwned ⊆ bound →
      Has scope bound owned unwindOwned (annotated.runs none scope bound)

section Arms

variable {scope fresh : Finset Name}

/-- Using variables, of which those not owned have been duplicated. -/
theorem Has.use
    {bound owned unwindOwned names : Finset Name}
    {amount : Name → Int}
    (subset : owned ⊆ names)
    (duplicated : ∀ name, amount name = amounts 1 (names \ owned) name) :
    Has scope bound owned unwindOwned
      (.prepend (.change amount)
        (.finish .completed [Frontend.consume names])) := by
  intro tokens ready out trace ran sound
  obtain ⟨rest, ⟨rfl, rfl⟩, rfl⟩ := ran
  have balance : ∀ name,
      amount name + amounts (-1) names name = amounts (-1) owned name := by
    intro name
    have inNames := @subset name
    rw [duplicated]
    unfold amounts
    grind
  refine ⟨Floor.cons (amounts_neg_nonpos _) (Floor.cons (fun name => ?_)
    (Floor.nil fun name => ?_)), fun name => ?_⟩
  · have nonpos := amounts_neg_nonpos owned name
    have nonneg : 0 ≤ amount name := by
      rw [duplicated]
      unfold amounts
      split <;> omega
    simp only [Event.audited_change]
    omega
  · have equal := balance name
    simp only [Event.audited_change, Frontend.consume]
    omega
  · simpa [Frontend.consume] using balance name

/-- A local variable takes its name if it owns it. -/
theorem NodeBalanced.localVar (name : Name) :
    NodeBalanced (.localVar fresh name) {name} scope := by
  intro borrowed owned unwindOwned annotated pass ownedSubset _ bound _
  rw [memoryManagementPass] at pass
  obtain ⟨_, -, pass⟩ := bind_eq_ok pass
  obtain ⟨memory, used, pass⟩ := bind_eq_ok pass
  cases pass
  refine Has.use ownedSubset fun other => ?_
  rcases Finset.subset_singleton_iff.mp ownedSubset with rfl | rfl
  · simp only [variableUsage, ite_true,
      if_neg (Finset.singleton_ne_empty name).symm] at used
    cases used
    simp [Node.ann, Memory.setUnwind, Memory.dupVars, Memory.addDrop,
      Memory.start]
  · simp only [variableUsage, ite_true] at used
    cases used
    simp [Node.ann, Memory.setUnwind, Memory.start, amounts]

/-- Reading off an optional child. -/
theorem ChildBalanced.pass
    {child : Child Name (Finset Name)}
    {annotated : Child Name (Memory Name)}
    {borrowed owned unwindOwned bound : Finset Name}
    (childBalanced : ChildBalanced scope child)
    (pass : childMemoryManagementPass child borrowed owned unwindOwned =
      .ok annotated)
    (ownedSubset : owned ⊆ child.fresh)
    (within : borrowed ∪ owned ⊆ scope)
    (unwindSubset : unwindOwned ⊆ bound) :
    annotated.mentioned = child.fresh ∧
      Has scope bound owned unwindOwned (annotated.runs scope bound) := by
  cases child with
  | absent =>
      cases pass
      rw [Finset.subset_empty.mp ownedSubset]
      exact ⟨rfl, Has.nothing (by simp)⟩
  | present node =>
      rw [childMemoryManagementPass] at pass
      obtain ⟨annotatedNode, passed, pass⟩ := bind_eq_ok pass
      cases pass
      exact ⟨fresh_of_pass passed,
        childBalanced borrowed owned unwindOwned annotatedNode passed
        ownedSubset within bound unwindSubset⟩

omit [DecidableEq Name] in
/-- A run without `recur` does not end in one. -/
theorem noRecur_not_recurred (run : Run Name) (trace : List (Event Name)) :
    ¬ run.noRecur .recurred trace :=
  fun ran => ran.1 rfl

/-- A node with one child hands on what it owns. -/
theorem NodeBalanced.plain
    {child : Child Name (Finset Name)}
    (op : PlainOp)
    (childBalanced : ChildBalanced scope child) :
    NodeBalanced (.plain fresh op child) child.fresh scope := by
  intro borrowed owned unwindOwned annotated pass ownedSubset within bound unwindSubset
  rw [memoryManagementPass] at pass
  obtain ⟨_, -, pass⟩ := bind_eq_ok pass
  obtain ⟨annotatedChild, passed, pass⟩ := bind_eq_ok pass
  cases pass
  obtain ⟨mentioned, childHas⟩ :=
    childBalanced.pass passed ownedSubset within unwindSubset
  refine Has.prepend_zero ?_
  cases op with
  | throw =>
      refine childHas.noRecur.throw (noRecur_not_recurred _) ?_ unwindSubset ?_
      · intro name
        simp [Memory.setUnwind, Memory.start]
      · rw [mentioned]
        exact ownedSubset
  | caseThen => exact childHas
  | _ => exact childHas.noRecur

/-- No nodes take nothing. -/
theorem ApplicationBalanced.nil :
    ApplicationBalanced (.nil : Nodes Name (Finset Name)) scope := by
  intro borrowed owned unwindOwned annotated restUnwindOwned pass _
  cases pass
  refine ⟨by simp [Nodes.fresh], fun bound _ => ?_⟩
  simp only [Nodes.fresh, Finset.inter_empty]
  exact Has.nothing (by simp)

/-- The first node borrows what the later ones own. -/
theorem ApplicationBalanced.cons
    {head : Node Name (Finset Name)}
    {tail : Nodes Name (Finset Name)}
    {free : Finset Name}
    (headBalanced : NodeBalanced head free scope)
    (annSubset : head.ann ⊆ free ∪ tail.fresh)
    (tailBalanced : ApplicationBalanced tail scope) :
    ApplicationBalanced (.cons head tail) scope := by
  intro borrowed owned unwindOwned annotated restUnwindOwned pass within
  obtain ⟨borrowedWithin, ownedWithin⟩ := Finset.union_subset_iff.mp within
  rw [Nodes.anns, applicationContexts_cons, unionAll_anns,
    applicationUsage] at pass
  obtain ⟨annotatedHead, headPass, pass⟩ := bind_eq_ok pass
  obtain ⟨⟨annotatedTail, tailRest⟩, tailPass, pass⟩ := bind_eq_ok pass
  cases pass
  let headOwned := (owned ∩ head.ann) \ tail.fresh
  have shares : headOwned ∪ (owned ∩ tail.fresh) =
    owned ∩ (head.ann ∪ tail.fresh) := by grind
  have apart : Disjoint headOwned (owned ∩ tail.fresh) := by
    rw [Finset.disjoint_left]
    grind
  obtain ⟨restEqual, tailHas⟩ := tailBalanced borrowed owned
    (unwindOwned \ headOwned) annotatedTail restUnwindOwned tailPass within
  have headHas := headBalanced (borrowed ∪ (owned ∩ tail.fresh)) headOwned
    unwindOwned annotatedHead headPass (by grind) (by grind)
  refine ⟨?_, fun bound unwindSubset => ?_⟩
  · rw [restEqual, Nodes.fresh]
    grind
  · have headRuns := headHas bound unwindSubset
    have tailRuns := tailHas bound (Finset.sdiff_subset.trans unwindSubset)
    cases tail with
    | nil =>
        cases tailPass
        simp only [Nodes.fresh, Finset.inter_empty,
          Finset.union_empty] at shares ⊢
        rw [← shares]
        exact headRuns
    | cons next others =>
        rw [Nodes.anns, applicationContexts_cons, applicationUsage] at tailPass
        obtain ⟨annotatedNext, -, tailPass⟩ := bind_eq_ok tailPass
        obtain ⟨⟨annotatedOthers, othersRest⟩, -, tailPass⟩ :=
          bind_eq_ok tailPass
        cases tailPass
        exact headRuns.noRecur.andThen tailRuns (noRecur_not_recurred _) shares
          apart rfl

/-- An application unwinds what its later arguments have not taken. -/
theorem NodeBalanced.application
    {children : Nodes Name (Finset Name)}
    (op : ApplicationOp Name)
    (childrenBalanced : ApplicationBalanced children scope) :
    NodeBalanced (.application fresh op children) children.fresh scope := by
  intro borrowed owned unwindOwned annotated pass ownedSubset within bound unwindSubset
  rw [memoryManagementPass] at pass
  obtain ⟨_, -, pass⟩ := bind_eq_ok pass
  obtain ⟨⟨annotatedChildren, restUnwindOwned⟩, passed, pass⟩ := bind_eq_ok pass
  cases pass
  obtain ⟨restEqual, childrenHas⟩ := childrenBalanced borrowed owned unwindOwned
    annotatedChildren restUnwindOwned passed within
  have has := childrenHas bound unwindSubset
  rw [Finset.inter_eq_left.mpr ownedSubset] at restEqual has
  have restSubset : restUnwindOwned ⊆ bound := by
    rw [restEqual]
    exact Finset.sdiff_subset.trans unwindSubset
  have mayThrow : Has scope bound owned unwindOwned
      ((Run.noRecur (annotatedChildren.runs scope bound)).andThen
        fun out trace =>
        trace = [] ∧ (out = .completed ∨ op.throws = true ∧
          out = .raised bound
            ((Memory.start fresh).setUnwind
            restUnwindOwned).unwindMemory)) := by
    refine has.noRecur.andThen (Has.mayThrow ?_ restSubset)
      (noRecur_not_recurred _)
      (Finset.union_empty owned) (Finset.disjoint_empty_right owned) restEqual
    intro name
    simp [Memory.setUnwind, Memory.start]
  refine Has.prepend_zero ?_
  cases op with
  | doBlock => exact has
  | recur loopId =>
      exact has.noRecur.andThen (Has.nothing (by simp)) (noRecur_not_recurred _)
        (Finset.union_empty owned) (Finset.disjoint_empty_right owned) rfl
  | _ => exact mayThrow

/-- The pass keeps what methods capture. -/
theorem captured_of_pass
    {recordFields : Finset Name}
    {methods : Methods Name (Finset Name)}
    {annotated : Methods Name (Memory Name)}
    (pass : fnMethodMemoryManagementPass recordFields methods = .ok annotated) :
    annotated.captured = methods.fresh := by
  match methods with
  | .nil =>
      cases pass
      rfl
  | .cons fnFresh this params loopId body rest =>
      rw [fnMethodMemoryManagementPass] at pass
      obtain ⟨_, -, pass⟩ := bind_eq_ok pass
      obtain ⟨annotatedRest, restPass, pass⟩ := bind_eq_ok pass
      cases pass
      rw [Methods.captured, captured_of_pass restPass]
      rfl

/-- A function captures what is free in its methods. -/
theorem NodeBalanced.fn (self : Option Name)
    (methods : Methods Name (Finset Name)) :
    NodeBalanced (.fn fresh self methods) (withoutSelf self methods.fresh)
      scope := by
  intro borrowed owned unwindOwned annotated pass ownedSubset _ bound _
  rw [memoryManagementPass] at pass
  obtain ⟨_, -, pass⟩ := bind_eq_ok pass
  obtain ⟨updatedMethods, passed, pass⟩ := bind_eq_ok pass
  cases pass
  rw [Node.runs_fn, captured_of_pass passed]
  refine Has.use ownedSubset fun name => ?_
  have same : withoutSelf self (methods.fresh \ owned) =
      withoutSelf self methods.fresh \ owned := by
    rw [withoutSelf, withoutSelf, sdiff_right_comm]
  simp [Node.ann, Memory.setUnwind, Memory.dupVars, Memory.addDrop,
    Memory.start, same]

/-- An object captures what is free in its methods. -/
theorem NodeBalanced.reify (methods : Methods Name (Finset Name)) :
    NodeBalanced (.reify fresh methods) methods.fresh scope := by
  intro borrowed owned unwindOwned annotated pass ownedSubset _ bound _
  rw [memoryManagementPass] at pass
  obtain ⟨_, -, pass⟩ := bind_eq_ok pass
  obtain ⟨updatedMethods, passed, pass⟩ := bind_eq_ok pass
  cases pass
  rw [Node.runs_reify, captured_of_pass passed]
  refine Has.use ownedSubset fun name => ?_
  simp [Node.ann, Memory.setUnwind, Memory.dupVars, Memory.addDrop,
    Memory.start]

/-- A type captures nothing. -/
theorem NodeBalanced.deftype (fields : List Name)
    (methods : Methods Name (Finset Name)) :
    NodeBalanced (.deftype fresh fields methods) ∅ scope := by
  intro borrowed owned unwindOwned annotated pass ownedSubset _ bound _
  rw [memoryManagementPass] at pass
  obtain ⟨_, -, pass⟩ := bind_eq_ok pass
  obtain ⟨updatedMethods, passed, pass⟩ := bind_eq_ok pass
  cases pass
  rw [Finset.subset_empty.mp ownedSubset]
  exact Has.prepend_zero (Has.nothing (by simp))

/-! ### Bindings -/

/-- What is dropped at the start of a node does not change its runs. -/
theorem Node.runs_addDrop (change : Name → Int) (node : Node Name (Memory Name))
    (scope bound : Finset Name) :
    (node.modify (Memory.addDrop change)).runs scope bound =
    node.runs scope bound := by
  cases node with
  | plain memory op child => cases op <;> rfl
  | application memory op children => cases op <;> rfl
  | letForm memory kind bindings => cases kind <;> rfl
  | _ => rfl

/-- Dropping variables before a node. -/
theorem Has.dropNode
    {bound owned unwindOwned dropped : Finset Name}
    {node : Node Name (Memory Name)}
    (has : Has scope bound owned unwindOwned
      (entering node (node.runs scope bound)))
    (apart : Disjoint dropped (owned ∪ unwindOwned)) :
    Has scope bound (owned ∪ dropped) (unwindOwned ∪ dropped)
      (entering (node.modify (Memory.dropVars dropped))
        ((node.modify (Memory.dropVars dropped)).runs scope bound)) := by
  have drops := has.drop apart
  unfold Memory.dropVars
  rw [Node.runs_addDrop, entering, Node.ann_modify]
  exact drops

/-- Dropping variables before bindings. -/
theorem Has.dropScope
    {bound owned unwindOwned dropped : Finset Name}
    {bindings : Scope Name (Memory Name)}
    (has : Has scope bound owned unwindOwned (bindings.runs none scope bound))
    (apart : Disjoint dropped (owned ∪ unwindOwned)) :
    Has scope bound (owned ∪ dropped) (unwindOwned ∪ dropped)
      ((bindings.modify (Memory.dropVars dropped)).runs none scope bound) := by
  cases bindings with
  | body node => exact has.dropNode apart
  | bind memory name init rest => exact has.drop apart

/-- What is left to unwind once the value of a binding has taken its share. -/
theorem remainder_unwindOwned
    {borrowed owned unwindOwned : Finset Name}
    (unwindKnown : unwindOwned ⊆ borrowed ∪ owned)
    (disjoint : ∀ name ∈ borrowed, name ∉ owned)
    (remainderFresh : Finset Name) :
    unwindOwned ∩ (borrowed ∪ (owned ∩ remainderFresh)) =
      unwindOwned \ (owned \ (owned ∩ remainderFresh)) := by
  ext name
  have known := @unwindKnown name
  have notBoth := disjoint name
  simp only [Finset.mem_inter, Finset.mem_union, Finset.mem_sdiff] at known ⊢
  grind

/-- Behind the last binding stands the body. -/
theorem LetBalanced.body
    {node : Node Name (Finset Name)}
    (nodeBalanced : NodeBalanced node node.ann scope) :
    LetBalanced (.body node) scope := by
  intro boundByThis borrowed owned unwindOwned annotated pass ownedSubset within _ _ bound
    unwindSubset
  rw [nodeWithBindingsMemoryManagementPass] at pass
  obtain ⟨annotatedNode, passed, pass⟩ := bind_eq_ok pass
  cases pass
  exact nodeBalanced borrowed owned unwindOwned annotatedNode passed ownedSubset
    within bound unwindSubset

/-- The variable belongs to the rest, which drops it if nothing uses it. -/
theorem LetBalanced.bind
    {name : Name}
    {init : Node Name (Finset Name)}
    {rest : Scope Name (Finset Name)}
    (unshadowed : name ∉ scope)
    (initBalanced : NodeBalanced init init.ann scope)
    (restBalanced : LetBalanced rest (insert name scope)) :
    LetBalanced (.bind (rest.ann.erase name ∪ init.ann) name init rest)
      scope := by
  intro boundByThis borrowed owned unwindOwned annotated pass ownedSubset within unwindKnown
    disjoint bound unwindSubset
  obtain ⟨borrowedWithin, ownedWithin⟩ := Finset.union_subset_iff.mp within
  have ownedSubset : owned ⊆ rest.ann.erase name ∪ init.ann := ownedSubset
  rw [nodeWithBindingsMemoryManagementPass] at pass
  obtain ⟨annotatedInit, initPass, pass⟩ := bind_eq_ok pass
  obtain ⟨annotatedRest, restPass, pass⟩ := bind_eq_ok pass
  cases pass
  let remainderOwned := owned ∩ rest.ann.erase name
  let remainderUnwindOwned := unwindOwned ∩ (borrowed ∪ remainderOwned)
  have initHas :=
    initBalanced _ _ _ _ initPass (by grind) (by grind) bound unwindSubset
  have laterEqual :
      remainderUnwindOwned = unwindOwned \ (owned \ remainderOwned) :=
    remainder_unwindOwned unwindKnown disjoint _
  have rest : Has scope bound remainderOwned remainderUnwindOwned
      (.prepend (create {name})
        ((if name ∈ rest.ann ∨ BindingsOp.letOp = .letfnOp
        then annotatedRest else annotatedRest.modify
          (Memory.dropVars {name})).runs none
          (insert name scope) (insert name bound))) := by
    refine Has.bind ?_ unshadowed
    have restHas := restBalanced _ _ _ _ _ restPass
    by_cases used : name ∈ rest.ann
    · simp only [used, true_and, if_true, true_or, ne_eq, reduceCtorEq,
        not_false_eq_true]
        at restHas ⊢
      refine restHas ?_ ?_ ?_ ?_ _ ?_ <;> grind
    · simp only [used, false_and, if_false, reduceCtorEq, or_self] at restHas ⊢
      have apart : Disjoint {name} (remainderOwned ∪ remainderUnwindOwned) := by
        rw [Finset.disjoint_singleton_left]
        grind
      have dropped :=
        (restHas (by grind) (by grind) (by grind) (by grind) (insert name bound)
        (by grind)).dropScope apart
      simpa only [Finset.union_comm _ {name}, ← Finset.insert_eq] using dropped
  exact Has.prepend_zero (initHas.noRecur.andThen rest (noRecur_not_recurred _)
    (Finset.sdiff_union_of_subset Finset.inter_subset_left)
    Finset.sdiff_disjoint laterEqual)

/-- A `:let` does what its bindings and its body do. -/
theorem NodeBalanced.plainLet
    {bindings : Scope Name (Finset Name)}
    (bindingsBalanced : LetBalanced bindings scope) :
    NodeBalanced (.letForm fresh .plainLet bindings) bindings.ann scope := by
  intro borrowed owned unwindOwned annotated pass ownedSubset within bound unwindSubset
  have checked := checked_of_pass pass
  rw [memoryManagementPass] at pass
  obtain ⟨_, -, pass⟩ := bind_eq_ok pass
  obtain ⟨annotatedBindings, passed, pass⟩ := bind_eq_ok pass
  cases pass
  exact Has.prepend_zero (bindingsBalanced _ _ _ _ _ passed ownedSubset within
    checked.unwind_subset checked.disjoint bound unwindSubset)

/-- A rewritten loop: the variables of the loop body are dropped before the
variable that holds its result is used. -/
theorem NodeBalanced.loopLet
    {bindings : Scope Name (Finset Name)}
    {bindingFresh loopFresh : Finset Name}
    {name : Name}
    (unshadowed : name ∉ scope)
    (loopBalanced : NodeBalanced (.loop loopFresh bindings) loopFresh scope) :
    NodeBalanced
      (.letForm fresh .loopLet
        (.bind bindingFresh name (.loop loopFresh bindings)
          (.body (.localVar {name} name))))
      loopFresh scope := by
  intro borrowed owned unwindOwned annotated pass ownedSubset within bound unwindSubset
  obtain ⟨borrowedWithin, ownedWithin⟩ := Finset.union_subset_iff.mp within
  rw [memoryManagementPass] at pass
  obtain ⟨_, -, pass⟩ := bind_eq_ok pass
  obtain ⟨annotatedBindings, passed, pass⟩ := bind_eq_ok pass
  cases pass
  rw [nodeWithBindingsMemoryManagementPass] at passed
  obtain ⟨annotatedLoop, loopPass, passed⟩ := bind_eq_ok passed
  obtain ⟨annotatedBody, bodyPass, passed⟩ := bind_eq_ok passed
  cases passed
  -- Nothing that the loop owns is left for the body of the let.
  simp only [Scope.ann, Node.ann, Finset.erase_singleton, Finset.inter_empty,
    Finset.sdiff_empty, Finset.union_empty, Finset.mem_singleton, true_and,
    if_true, true_or, ne_eq, reduceCtorEq, not_false_eq_true, insert_empty_eq,
    nodeWithBindingsMemoryManagementPass,
    memoryManagementPass] at loopPass bodyPass ⊢
  obtain ⟨annotatedLocal, localPass, bodyPass⟩ := bind_eq_ok bodyPass
  cases bodyPass
  obtain ⟨_, -, localPass⟩ := bind_eq_ok localPass
  obtain ⟨memory, used, localPass⟩ := bind_eq_ok localPass
  cases localPass
  simp only [variableUsage, if_true] at used
  cases used
  let dropped := owned ∩ bindings.bodyNode.ann
  have loopHas : Has scope bound (owned \ dropped) unwindOwned
      (entering annotatedLoop (annotatedLoop.runs scope bound)) :=
    loopBalanced _ _ _ _ loopPass (by grind) (by grind) bound unwindSubset
  let later := unwindOwned \ (owned \ dropped)
  have useHas : Has (insert name scope) (insert name bound) {name}
      (insert name later \ dropped)
      (.prepend (.change fun _ => 0) (.finish .completed [consume {name}])) :=
    Has.use subset_rfl fun other => by simp [amounts]
  have apart : Disjoint dropped ({name} ∪ (insert name later \ dropped)) := by
    rw [Finset.disjoint_left]
    grind
  have bodyHas := (useHas.drop apart).unwind_mono
    (show insert name later ⊆ _ by grind) (by grind)
  rw [← Finset.insert_eq] at bodyHas
  refine Has.prepend_zero (Has.prepend_zero (loopHas.noRecur.andThen
    (bodyHas.bind unshadowed) (noRecur_not_recurred _) ?_ ?_ rfl))
  · grind
  · rw [Finset.disjoint_left]
    grind

/-! ### Loops -/

/-- Dropping no variable. -/
theorem Memory.dropVars_empty (memory : Memory Name) :
    memory.dropVars ∅ = memory := by
  simp [Memory.dropVars, Memory.addDrop, amounts]

/-- Dropping no variable at the body. -/
theorem Scope.modify_dropVars_empty (bindings : Scope Name (Memory Name)) :
    bindings.modify (Memory.dropVars ∅) = bindings := by
  have same : (Memory.dropVars ∅ : Memory Name → Memory Name) =
      fun memory => memory :=
    funext Memory.dropVars_empty
  rw [same]
  cases bindings with
  | body node => exact congrArg Scope.body node.modify_id
  | bind _ _ _ _ => rfl

omit [DecidableEq Name] in
/-- The bound names stay. -/
theorem Scope.names_modify (change : Memory Name → Memory Name)
    (bindings : Scope Name (Memory Name)) :
    (bindings.modify change).names = bindings.names := by
  cases bindings <;> rfl

/-- What is free in the body stays. -/
theorem Scope.fresh_bodyNode_dropVars (names : Finset Name)
    (bindings : Scope Name (Memory Name)) :
    (bindings.modify (Memory.dropVars names)).bodyNode.ann.fresh =
      bindings.bodyNode.ann.fresh := by
  cases bindings with
  | body node =>
      simp [Scope.modify, Scope.bodyNode, Memory.dropVars, Memory.addDrop]
  | bind _ _ _ _ => rfl

/-- The pass keeps the names of bindings and the free variables of their
body. -/
theorem scope_of_pass
    {op : BindingsOp}
    {bindings : Scope Name (Finset Name)}
    {boundByThis borrowed owned unwindOwned : Finset Name}
    {annotated : Scope Name (Memory Name)}
    (pass : nodeWithBindingsMemoryManagementPass op bindings boundByThis
      borrowed owned unwindOwned = .ok annotated) :
    annotated.names = bindings.names ∧
      annotated.bodyNode.ann.fresh = bindings.bodyNode.ann := by
  match bindings with
  | .body node =>
      cases op with
      | letOp =>
          rw [nodeWithBindingsMemoryManagementPass] at pass
          obtain ⟨annotatedNode, passed, pass⟩ := bind_eq_ok pass
          cases pass
          exact ⟨rfl, fresh_of_pass passed⟩
      | loopOp =>
          rw [nodeWithBindingsMemoryManagementPass] at pass
          obtain ⟨_, -, pass⟩ := bind_eq_ok pass
          obtain ⟨annotatedNode, passed, pass⟩ := bind_eq_ok pass
          cases pass
          exact ⟨rfl, fresh_of_pass passed⟩
      | letfnOp =>
          rw [nodeWithBindingsMemoryManagementPass] at pass
          obtain ⟨annotatedNode, passed, pass⟩ := bind_eq_ok pass
          cases pass
          exact ⟨rfl,
            (Scope.fresh_bodyNode_dropVars _ (.body annotatedNode)).trans
            (fresh_of_pass passed)⟩
  | .bind _ name init rest =>
      rw [nodeWithBindingsMemoryManagementPass] at pass
      obtain ⟨_, -, pass⟩ := bind_eq_ok pass
      obtain ⟨annotatedRest, restPass, pass⟩ := bind_eq_ok pass
      cases pass
      obtain ⟨names, body⟩ := scope_of_pass restPass
      split
      · exact ⟨congrArg (name :: ·) names, body⟩
      · exact ⟨congrArg (name :: ·) ((Scope.names_modify _ _).trans names),
          (Scope.fresh_bodyNode_dropVars _ _).trans body⟩

/-- What a loop over the given variables does when it recurs. -/
def rebindEvents (names : List Name) (bodyFresh : Finset Name) : List
    (Event Name) :=
  [create names.toFinset,
    .leak fun name =>
      if name ∈ names.dropLast.toFinset \ bodyFresh then 1 else 0]

/-- The bindings and body of a loop, after some of its variables are bound.  The
last of these is dropped here if nothing uses it. -/
def LoopBalanced
    (bindings : Scope Name (Finset Name))
    (scope : Finset Name)
    (before : List Name) : Prop :=
  ∀ borrowed owned unwindOwned annotated,
    nodeWithBindingsMemoryManagementPass .loopOp bindings before.toFinset
      borrowed owned unwindOwned = .ok annotated →
    owned ⊆ bindings.ann → borrowed ∪ owned ⊆ scope →
      unwindOwned ⊆ borrowed ∪ owned →
    (∀ name ∈ borrowed, name ∉ owned) →
    (∀ name ∈ before,
      name ∉ borrowed ∧ (name ∈ bindings.bodyNode.ann → name ∈ owned)) →
    ∀ dropped, dropped = before.getLast?.toFinset \ bindings.ann →
    ∀ bound, unwindOwned ⊆ bound →
      Has scope bound (owned ∪ dropped) (unwindOwned ∪ dropped)
        ((annotated.modify (Memory.dropVars dropped)).runs
          (some (rebindEvents (before ++ bindings.names) bindings.bodyNode.ann))
          scope bound)

/-- Binding the variables of a loop again gives back what its body takes. -/
theorem audited_rebindEvents
    {names : List Name}
    (nodup : names.Nodup)
    (bodyFresh : Finset Name)
    (name : Name) :
    audited (rebindEvents names bodyFresh) name =
      amounts 1 ((names.toFinset ∩ bodyFresh) ∪
        (names.getLast?.toFinset \ bodyFresh)) name := by
  simp only [rebindEvents, create, audited_cons, Event.audited_change,
    Event.audited_leak, audited_nil, add_zero]
  cases names using List.reverseRecOn with
  | nil => simp [amounts]
  | append_singleton front last =>
      have lastFresh : last ∉ front := by
        have := List.nodup_append.mp nodup
        grind
      simp only [amounts, List.dropLast_concat, List.getLast?_concat,
        List.toFinset_append, Option.toFinset_some, List.toFinset_cons,
        List.toFinset_nil, insert_empty_eq, Finset.mem_union, Finset.mem_inter,
        Finset.mem_sdiff, List.mem_toFinset, Finset.mem_singleton]
      by_cases isLast : name = last
      · subst isLast
        by_cases inBody : name ∈ bodyFresh <;> simp [inBody, lastFresh]
      · by_cases inFront : name ∈ front <;> by_cases inBody :
          name ∈ bodyFresh <;>
          simp [isLast, inFront, inBody]

/-- Binding the variables again leaves no name below where it was. -/
theorem floor_rebindEvents (names : List Name) (bodyFresh : Finset Name) :
    Floor (fun _ => 0) (rebindEvents names bodyFresh) := by
  refine Floor.cons (fun _ => le_rfl)
    (Floor.cons (fun name => ?_) (Floor.nil fun name => ?_))
  · simp only [create, Event.audited_change, amounts]
    split <;> omega
  · have inNames := @List.mem_of_mem_dropLast _ names name
    simp only [create, Event.audited_change, Event.audited_leak, amounts,
      Finset.mem_sdiff, List.mem_toFinset]
    split <;> split <;> grind

/-- The body drops the variables that it does not use, and takes the others. -/
theorem LoopBalanced.body
    {node : Node Name (Finset Name)}
    {before : List Name}
    (nodup : before.Nodup)
    (nodeBalanced : NodeBalanced node node.ann scope) :
    LoopBalanced (.body node) scope before := by
  intro borrowed owned unwindOwned annotated pass ownedSubset within unwindKnown disjoint known
    dropped droppedEqual bound unwindSubset
  have ownedSubset : owned ⊆ node.ann := ownedSubset
  have droppedEqual : dropped = before.getLast?.toFinset \ node.ann :=
    droppedEqual
  have known : ∀ name ∈ before,
    name ∉ borrowed ∧ (name ∈ node.ann → name ∈ owned) := known
  rw [nodeWithBindingsMemoryManagementPass] at pass
  obtain ⟨_, ownsBound, pass⟩ := bind_eq_ok pass
  obtain ⟨annotatedNode, passed, pass⟩ := bind_eq_ok pass
  cases pass
  have ownedBound := require_eq_ok ownsBound
  have ownedEqual : owned = before.toFinset ∩ node.ann := by
    ext name
    have isBound := @ownedBound name
    have isFree := @ownedSubset name
    have isOwned := known name
    simp only [Finset.mem_inter, List.mem_toFinset] at isBound ⊢
    grind
  have lastBefore : ∀ name ∈ dropped, name ∈ before ∧ name ∉ node.ann := by
    intro name member
    rw [droppedEqual, Finset.mem_sdiff, Option.mem_toFinset,
      Option.mem_def] at member
    exact ⟨List.mem_of_getLast? member.1, member.2⟩
  have apart : Disjoint dropped (owned ∪ unwindOwned) := by
    rw [Finset.disjoint_left]
    intro name isDropped isKnown
    have isLast := lastBefore name isDropped
    have notBorrowed := (known name isLast.1).1
    have isUnwound := @unwindKnown name
    grind
  have nodeHas :=
    nodeBalanced _ _ _ _ passed ownedSubset within bound unwindSubset
  simp only [Scope.names, List.append_nil, Scope.bodyNode]
  refine (nodeHas.dropNode apart).iterates (floor_rebindEvents _ _)
    fun name => ?_
  rw [audited_rebindEvents nodup, ownedEqual, droppedEqual]

/-- A variable bound before the rest of a loop and used by its body is free in
that rest. -/
theorem mem_ann_of_bound
    {before : List Name}
    {rest : Scope Name (Finset Name)}
    (nodup : (before ++ rest.names).Nodup)
    (bodySubset : rest.bodyNode.ann ⊆ rest.ann ∪ rest.names.toFinset) :
    ∀ name ∈ before, name ∈ rest.bodyNode.ann → name ∈ rest.ann := by
  intro name isBefore inBody
  have notLater : name ∉ rest.names := fun later =>
    (List.nodup_append.mp nodup).2.2 name isBefore name later rfl
  refine (Finset.mem_union.mp (bodySubset inBody)).resolve_right ?_
  rwa [List.mem_toFinset]

/-- The initial value borrows what the rest uses. -/
theorem LoopBalanced.bind
    {name : Name}
    {init : Node Name (Finset Name)}
    {rest : Scope Name (Finset Name)}
    {before : List Name}
    (unshadowed : name ∉ scope)
    (beforeWithin : before.toFinset ⊆ scope)
    (nodup : ((before ++ [name]) ++ rest.names).Nodup)
    (bodySubset : rest.bodyNode.ann ⊆ rest.ann ∪ rest.names.toFinset)
    (initBalanced : NodeBalanced init init.ann scope)
    (restBalanced : LoopBalanced rest (insert name scope) (before ++ [name])) :
    LoopBalanced (.bind (rest.ann.erase name ∪ init.ann) name init rest) scope
      before := by
  intro borrowed owned unwindOwned annotated pass ownedSubset within unwindKnown disjoint known
    dropped droppedEqual bound unwindSubset
  obtain ⟨borrowedWithin, ownedWithin⟩ := Finset.union_subset_iff.mp within
  have ownedSubset : owned ⊆ rest.ann.erase name ∪ init.ann := ownedSubset
  have droppedEqual :
      dropped = before.getLast?.toFinset \ (rest.ann.erase name ∪ init.ann) :=
    droppedEqual
  have known : ∀ other ∈ before, other ∉ borrowed ∧
    (other ∈ rest.bodyNode.ann → other ∈ owned) := known
  rw [nodeWithBindingsMemoryManagementPass] at pass
  obtain ⟨annotatedInit, initPass, pass⟩ := bind_eq_ok pass
  obtain ⟨annotatedRest, restPass, pass⟩ := bind_eq_ok pass
  cases pass
  let remainderOwned := owned ∩ rest.ann.erase name
  let remainderUnwindOwned := unwindOwned ∩ (borrowed ∪ remainderOwned)
  have initHas :=
    initBalanced _ _ _ _ initPass (by grind) (by grind) bound unwindSubset
  have laterEqual :
      remainderUnwindOwned = unwindOwned \ (owned \ remainderOwned) :=
    remainder_unwindOwned unwindKnown disjoint _
  -- Variables bound so far and used by the body are still owned by the remainder.
  have remain : ∀ other ∈ before, other ∈ rest.bodyNode.ann →
      other ∈ remainderOwned := by
    intro other isBefore inBody
    have inRest := mem_ann_of_bound nodup bodySubset other
      (List.mem_append_left _ isBefore) inBody
    have notName : other ≠ name := fun equal =>
      unshadowed (equal ▸ beforeWithin (List.mem_toFinset.mpr isBefore))
    exact Finset.mem_inter.mpr ⟨(known other isBefore).2 inBody,
      Finset.mem_erase.mpr ⟨notName, inRest⟩⟩
  have nameRemains : name ∈ rest.bodyNode.ann → name ∈ rest.ann :=
    mem_ann_of_bound nodup bodySubset name
      (List.mem_append_right _ List.mem_cons_self)
  have notBefore : ∀ other ∈ before ++ [name], other ∉ borrowed := by
    intro other isBound isBorrowed
    rcases List.mem_append.mp isBound with isBefore | isName
    · exact (known other isBefore).1 isBorrowed
    · exact unshadowed
        (List.mem_singleton.mp isName ▸ borrowedWithin isBorrowed)
  have beforeEqual : before.toFinset ∪ {name} =
    (before ++ [name]).toFinset := by simp
  have lastEqual : (before ++ [name]).getLast?.toFinset = {name} := by simp
  have namesEqual : before ++ name :: rest.names = (before ++ [name]) ++
    rest.names := by simp
  rw [beforeEqual] at restPass
  have restHas := restBalanced _ _ _ _ restPass
  rw [lastEqual] at restHas
  have restHere : Has scope bound remainderOwned remainderUnwindOwned
      (.prepend (create {name})
        ((if name ∈ rest.ann ∨ BindingsOp.loopOp = .letfnOp
        then annotatedRest else annotatedRest.modify
          (Memory.dropVars {name})).runs
          (some (rebindEvents ((before ++ [name]) ++ rest.names)
            rest.bodyNode.ann))
          (insert name scope) (insert name bound))) := by
    refine Has.bind ?_ unshadowed
    by_cases used : name ∈ rest.ann
    · simp only [used, true_and, if_true, true_or, ne_eq, reduceCtorEq,
        not_false_eq_true]
        at restHas ⊢
      have nothing : ∅ = {name} \ rest.ann := by grind
      have has := restHas (by grind) (by grind) (by grind) (by grind) (by grind)
        ∅ nothing
        (insert name bound) (by grind)
      rw [Scope.modify_dropVars_empty, Finset.union_empty,
        Finset.union_empty] at has
      exact has
    · simp only [used, false_and, if_false, reduceCtorEq, or_self] at restHas ⊢
      have itself : {name} = {name} \ rest.ann := by grind
      have has := restHas (by grind) (by grind) (by grind) (by grind) (by grind)
        {name} itself
        (insert name bound) (by grind)
      simpa only [Finset.union_comm _ {name}, ← Finset.insert_eq] using has
  have whole := Has.prepend_zero
    (initHas.noRecur.andThen restHere (noRecur_not_recurred _)
    (Finset.sdiff_union_of_subset Finset.inter_subset_left)
    Finset.sdiff_disjoint laterEqual)
  have apart : Disjoint dropped (owned ∪ unwindOwned) := by
    rw [Finset.disjoint_left]
    intro other isDropped isKnown
    rw [droppedEqual, Finset.mem_sdiff, Option.mem_toFinset,
      Option.mem_def] at isDropped
    have notBorrowed := (known other (List.mem_of_getLast? isDropped.1)).1
    have isUnwound := @unwindKnown other
    grind
  have dropped := whole.drop apart
  rw [Scope.names, namesEqual]
  exact dropped

/-- A run ends, or it recurs with new values in the variables. -/
theorem NodeBalanced.loop
    {bindings : Scope Name (Finset Name)}
    (bindingsBalanced : LoopBalanced bindings scope []) :
    NodeBalanced (.loop fresh bindings) bindings.ann scope := by
  intro borrowed owned unwindOwned annotated pass ownedSubset within bound unwindSubset
  have checked := checked_of_pass pass
  rw [memoryManagementPass] at pass
  obtain ⟨_, -, pass⟩ := bind_eq_ok pass
  obtain ⟨annotatedBindings, passed, pass⟩ := bind_eq_ok pass
  cases pass
  obtain ⟨names, bodyFresh⟩ := scope_of_pass passed
  have has := bindingsBalanced _ _ _ _ passed ownedSubset within
    checked.unwind_subset
    checked.disjoint (by simp) ∅ (by simp) bound unwindSubset
  rw [Scope.modify_dropVars_empty, Finset.union_empty, Finset.union_empty,
    List.nil_append, ← names, ← bodyFresh] at has
  exact Has.prepend_zero has

/-! ### Functions that know each other -/

/-- The bindings and body of a `:letfn`, after some of its functions are
bound. -/
def LetfnBalanced
    (bindings : Scope Name (Finset Name))
    (scope outer : Finset Name)
    (before : List Name) : Prop :=
  ∀ borrowed owned unwindOwned annotated,
    nodeWithBindingsMemoryManagementPass .letfnOp bindings before.toFinset
      borrowed owned unwindOwned = .ok annotated →
    owned ⊆ bindings.ann → borrowed ∪ owned ⊆ scope →
      unwindOwned ⊆ borrowed ∪ owned →
    (∀ name ∈ borrowed, name ∉ owned) →
    (∀ name ∈ before ++ bindings.names, name ∈ borrowed) →
    (∀ name ∈ before, name ∈ bindings.bodyNode.ann → name ∈ unwindOwned) →
    ∀ bound, unwindOwned ⊆ bound →
      Has (outer ∪ before.toFinset) bound (owned ∪ before.toFinset)
        (unwindOwned ∪ before.toFinset) (annotated.letfnRuns scope bound)

/-- Behind the last function stands the body. -/
theorem LetfnBalanced.body
    {node : Node Name (Finset Name)}
    {outer : Finset Name}
    {before : List Name}
    (scopeEqual : outer ∪ before.toFinset = scope)
    (nodeBalanced : NodeBalanced node node.ann scope) :
    LetfnBalanced (.body node) scope outer before := by
  intro borrowed owned unwindOwned annotated pass ownedSubset within unwindKnown disjoint
    namesBorrowed known bound unwindSubset
  obtain ⟨borrowedWithin, ownedWithin⟩ := Finset.union_subset_iff.mp within
  have ownedSubset : owned ⊆ node.ann := ownedSubset
  have known : ∀ name ∈ before, name ∈ node.ann → name ∈ unwindOwned := known
  have beforeBorrowed : before.toFinset ⊆ borrowed := fun name member =>
    namesBorrowed name (List.mem_append_left _ (List.mem_toFinset.mp member))
  rw [nodeWithBindingsMemoryManagementPass] at pass
  obtain ⟨annotatedNode, passed, pass⟩ := bind_eq_ok pass
  cases pass
  let fnUsed := before.toFinset ∩ node.ann
  let fnUnused := before.toFinset \ fnUsed
  have nodeHas : Has scope bound (owned ∪ fnUsed) (unwindOwned \ fnUnused) _ :=
    nodeBalanced _ _ _ _ passed (by grind) (by grind) bound
      (Finset.sdiff_subset.trans unwindSubset)
  have apart :
      Disjoint fnUnused ((owned ∪ fnUsed) ∪ (unwindOwned \ fnUnused)) := by
    rw [Finset.disjoint_left]
    grind
  have ownedEqual : (owned ∪ fnUsed) ∪ fnUnused = owned ∪ before.toFinset := by
    grind
  have unwindEqual : (unwindOwned \ fnUnused) ∪ fnUnused = unwindOwned ∪
      before.toFinset := by
    ext name
    have isUnwound := known name
    simp only [fnUnused, fnUsed, Finset.mem_union, Finset.mem_sdiff,
      Finset.mem_inter, List.mem_toFinset]
    grind
  have has := nodeHas.dropNode apart
  rw [ownedEqual, unwindEqual] at has
  rw [scopeEqual]
  exact has

/-- One function, and then the others. -/
theorem LetfnBalanced.bind
    {name : Name}
    {init : Node Name (Finset Name)}
    {rest : Scope Name (Finset Name)}
    {outer : Finset Name}
    {before : List Name}
    (unshadowed : name ∉ outer ∪ before.toFinset)
    (scopeEqual : outer ∪ (before ++ name :: rest.names).toFinset = scope)
    (nodup : ((before ++ [name]) ++ rest.names).Nodup)
    (bodySubset : rest.bodyNode.ann ⊆ rest.ann ∪ rest.names.toFinset)
    (initBalanced : NodeBalanced init init.ann scope)
    (restBalanced : LetfnBalanced rest scope outer (before ++ [name])) :
    LetfnBalanced (.bind (rest.ann.erase name ∪ init.ann) name init rest)
      scope outer
      before := by
  intro borrowed owned unwindOwned annotated pass ownedSubset within unwindKnown disjoint
    namesBorrowed known bound unwindSubset
  obtain ⟨borrowedWithin, ownedWithin⟩ := Finset.union_subset_iff.mp within
  have ownedSubset : owned ⊆ rest.ann.erase name ∪ init.ann := ownedSubset
  have known : ∀ other ∈ before, other ∈ rest.bodyNode.ann →
    other ∈ unwindOwned := known
  have namesBorrowed : ∀ other ∈ before ++ name :: rest.names,
      other ∈ borrowed :=
    namesBorrowed
  have nameBorrowed : name ∈ borrowed := namesBorrowed name (by simp)
  have beforeBorrowed : ∀ other ∈ before, other ∈ borrowed :=
    fun other member =>
    namesBorrowed other (by simp [member])
  rw [nodeWithBindingsMemoryManagementPass] at pass
  obtain ⟨annotatedInit, initPass, pass⟩ := bind_eq_ok pass
  obtain ⟨annotatedRest, restPass, pass⟩ := bind_eq_ok pass
  cases pass
  let remainderOwned := owned ∩ rest.ann.erase name
  let remainderUnwindOwned := unwindOwned ∩ (borrowed ∪ remainderOwned)
  have laterEqual :
      remainderUnwindOwned = unwindOwned \ (owned \ remainderOwned) :=
    remainder_unwindOwned unwindKnown disjoint _
  have initHas :=
    initBalanced _ _ _ _ initPass (by grind) (by grind) bound unwindSubset
  have outerSubset : outer ∪ before.toFinset ⊆ scope := by
    rw [← scopeEqual, List.toFinset_append]
    exact Finset.union_subset_union_right Finset.subset_union_left
  have beforeEqual : before.toFinset ∪ {name} =
    (before ++ [name]).toFinset := by simp
  have beforeInsert :
      (before ++ [name]).toFinset = insert name before.toFinset := by
    rw [← beforeEqual, Finset.union_comm, ← Finset.insert_eq]
  rw [beforeEqual] at restPass
  simp only [ne_eq, not_true_eq_false, and_false, if_false, or_true,
    if_true] at restPass ⊢
  have stillKnown : ∀ other ∈ before ++ [name], other ∈ rest.bodyNode.ann →
      other ∈ (if name ∈ rest.ann then insert name remainderUnwindOwned
        else remainderUnwindOwned) := by
    intro other isBound inBody
    have inRest := mem_ann_of_bound nodup bodySubset other isBound inBody
    rcases List.mem_append.mp isBound with isBefore | isName
    · have remains : other ∈ remainderUnwindOwned := Finset.mem_inter.mpr
        ⟨known other isBefore inBody,
          Finset.mem_union_left _ (beforeBorrowed other isBefore)⟩
      split
      · exact Finset.mem_insert_of_mem remains
      · exact remains
    · rw [List.mem_singleton.mp isName] at inRest ⊢
      rw [if_pos inRest]
      exact Finset.mem_insert_self _ _
  have restHas := restBalanced _ _ _ _ restPass (by grind) (by grind)
    (by split <;> grind) (by grind) (by simpa using namesBorrowed) stillKnown
    (insert name bound) (by split <;> grind)
  rw [beforeInsert, Finset.union_insert, Finset.union_insert,
    Finset.union_insert] at restHas
  have unwindEqual :
      insert name ((if name ∈ rest.ann then insert name remainderUnwindOwned
      else remainderUnwindOwned) ∪ before.toFinset) =
        insert name (remainderUnwindOwned ∪ before.toFinset) := by
    split
    · rw [Finset.insert_union, Finset.insert_idem]
    · rfl
  rw [unwindEqual] at restHas
  have notOwned : ∀ other ∈ before.toFinset, other ∉ owned :=
    fun other member =>
    disjoint other (beforeBorrowed other (List.mem_toFinset.mp member))
  refine Has.prepend_zero
    ((initHas.of_completes outerSubset Finset.subset_union_left).andThen
    (restHas.bind unshadowed) (fun _ ran => by cases ran.1) ?_ ?_ ?_)
  · rw [← Finset.union_assoc,
      Finset.sdiff_union_of_subset Finset.inter_subset_left]
  · rw [Finset.disjoint_left]
    intro other isFirst isSecond
    have notBefore := notOwned other
    grind
  · rw [laterEqual, Finset.union_sdiff_distrib]
    congr 1
    refine (Finset.sdiff_eq_self_of_disjoint ?_).symm
    exact Finset.disjoint_left.mpr fun other member isOwned =>
      notOwned other member (Finset.mem_sdiff.mp isOwned).1

/-- All functions are bound before the first one is made. -/
theorem NodeBalanced.letfn
    {bindings : Scope Name (Finset Name)}
    (unshadowed : ∀ name ∈ bindings.names, name ∉ scope)
    (bindingsBalanced : LetfnBalanced bindings (scope ∪ bindings.names.toFinset)
      scope []) :
    NodeBalanced (.letForm fresh .letfn bindings)
      (bindings.ann \ bindings.names.toFinset)
      scope := by
  intro borrowed owned unwindOwned annotated pass ownedSubset within bound unwindSubset
  obtain ⟨borrowedWithin, ownedWithin⟩ := Finset.union_subset_iff.mp within
  have checked := checked_of_pass pass
  have disjoint := checked.disjoint
  have unwindKnown := checked.unwind_subset
  rw [memoryManagementPass] at pass
  obtain ⟨_, -, pass⟩ := bind_eq_ok pass
  obtain ⟨annotatedBindings, passed, pass⟩ := bind_eq_ok pass
  cases pass
  obtain ⟨names, -⟩ := scope_of_pass passed
  have ownedEqual : owned \ bindings.names.toFinset = owned := by
    refine Finset.sdiff_eq_self_of_disjoint (Finset.disjoint_left.mpr ?_)
    exact fun name isOwned isName =>
      unshadowed name (List.mem_toFinset.mp isName) (ownedWithin isOwned)
  rw [ownedEqual] at passed
  have has := bindingsBalanced _ _ _ _ passed (by grind) (by grind) (by grind)
    (by
      intro name isBorrowed isOwned
      rcases Finset.mem_union.mp isBorrowed with outer | isName
      · exact disjoint name outer isOwned
      · exact unshadowed name (List.mem_toFinset.mp isName)
          (ownedWithin isOwned))
    (fun name member =>
      Finset.mem_union_right _ (List.mem_toFinset.mpr (by simpa using member)))
    (by simp) bound unwindSubset
  simp only [List.toFinset_nil, Finset.union_empty] at has
  rw [← names] at has
  exact Has.prepend_zero has

/-! ### Branches -/

/-- A branch drops what only the other branches use. -/
theorem Has.dropBranch
    {bound owned unwindOwned mine : Finset Name}
    {node : Node Name (Memory Name)}
    (has : Has scope bound mine (unwindOwned \ (owned \ mine))
      (entering node (node.runs scope bound)))
    (subset : mine ⊆ owned) :
    Has scope bound owned unwindOwned
      (entering (node.modify (Memory.dropVars (owned \ mine)))
        ((node.modify (Memory.dropVars (owned \ mine))).runs scope bound)) := by
  have apart :
      Disjoint (owned \ mine) (mine ∪ (unwindOwned \ (owned \ mine))) := by
    rw [Finset.disjoint_left]
    grind
  have dropped := has.dropNode apart
  rw [Finset.union_sdiff_of_subset subset] at dropped
  exact dropped.unwind_mono (by grind) (by grind)

/-- The branch that runs drops what only the other one uses. -/
theorem NodeBalanced.ifForm
    {test thenBranch elseBranch : Node Name (Finset Name)}
    (testBalanced : NodeBalanced test test.ann scope)
    (thenBalanced : NodeBalanced thenBranch thenBranch.ann scope)
    (elseBalanced : NodeBalanced elseBranch elseBranch.ann scope) :
    NodeBalanced (.ifForm fresh test thenBranch elseBranch)
      (test.ann ∪ thenBranch.ann ∪ elseBranch.ann) scope := by
  intro borrowed owned unwindOwned annotated pass ownedSubset within bound unwindSubset
  obtain ⟨borrowedWithin, ownedWithin⟩ := Finset.union_subset_iff.mp within
  rw [memoryManagementPass] at pass
  obtain ⟨_, -, pass⟩ := bind_eq_ok pass
  obtain ⟨annotatedTest, testPass, pass⟩ := bind_eq_ok pass
  obtain ⟨annotatedThen, thenPass, pass⟩ := bind_eq_ok pass
  obtain ⟨annotatedElse, elsePass, pass⟩ := bind_eq_ok pass
  cases pass
  let ownedInBranches := (owned ∩ thenBranch.ann) ∪ (owned ∩ elseBranch.ann)
  let ownedInCondition := owned \ ownedInBranches
  have branchesSubset : ownedInBranches ⊆ owned := by grind
  have laterSubset : unwindOwned \ ownedInCondition ⊆ bound :=
    Finset.sdiff_subset.trans unwindSubset
  have testHas :=
    testBalanced _ _ _ _ testPass (by grind) (by grind) bound unwindSubset
  have thenHas :=
    (thenBalanced _ _ _ _ thenPass Finset.inter_subset_right (by grind) bound
    (Finset.sdiff_subset.trans laterSubset)).dropBranch Finset.subset_union_left
  have elseHas :=
    (elseBalanced _ _ _ _ elsePass Finset.inter_subset_right (by grind) bound
    (Finset.sdiff_subset.trans laterSubset)).dropBranch
      Finset.subset_union_right
  exact Has.prepend_zero (testHas.noRecur.andThen (thenHas.either elseHas)
    (noRecur_not_recurred _) (Finset.sdiff_union_of_subset branchesSubset)
    Finset.sdiff_disjoint rfl)

/-- Each branch drops what it does not use of what the branches own together. -/
theorem BranchesBalanced.pass
    {branches : Nodes Name (Finset Name)}
    {annotated : Nodes Name (Memory Name)}
    {borrowed owned unwindOwned bound : Finset Name}
    (branchesBalanced : BranchesBalanced scope branches)
    (pass : branchesMemoryManagementPass branches borrowed owned unwindOwned =
      .ok annotated)
    (within : borrowed ∪ owned ⊆ scope)
    (unwindSubset : unwindOwned ⊆ bound) :
    Has scope bound owned unwindOwned (annotated.branchRuns scope bound) := by
  match branches, branchesBalanced with
  | .nil, _ =>
      cases pass
      exact Has.never
  | .cons head tail, ⟨headBalanced, tailBalanced⟩ =>
      rw [branchesMemoryManagementPass] at pass
      obtain ⟨annotatedHead, headPass, pass⟩ := bind_eq_ok pass
      obtain ⟨annotatedTail, tailPass, pass⟩ := bind_eq_ok pass
      cases pass
      have headHas := headBalanced _ _ _ _ headPass Finset.inter_subset_right
        ((Finset.union_subset_union_right Finset.inter_subset_left).trans
          within) bound
        (Finset.sdiff_subset.trans unwindSubset)
      exact (headHas.dropBranch Finset.inter_subset_left).either
        (BranchesBalanced.pass tailBalanced tailPass within unwindSubset)

/-- The default of a `:case` is one more branch. -/
theorem ChildBalanced.branch
    {child : Child Name (Finset Name)}
    {annotated : Child Name (Memory Name)}
    {borrowed owned unwindOwned bound : Finset Name}
    (childBalanced : ChildBalanced scope child)
    (pass : defaultMemoryManagementPass child borrowed owned unwindOwned =
      .ok annotated)
    (within : borrowed ∪ owned ⊆ scope)
    (unwindSubset : unwindOwned ⊆ bound) :
    Has scope bound owned unwindOwned (annotated.branchRuns scope bound) := by
  cases child with
  | absent =>
      cases pass
      exact Has.never
  | present node =>
      rw [defaultMemoryManagementPass] at pass
      obtain ⟨annotatedNode, passed, pass⟩ := bind_eq_ok pass
      cases pass
      have has := childBalanced _ _ _ _ passed Finset.inter_subset_right
        ((Finset.union_subset_union_right Finset.inter_subset_left).trans
          within) bound
        (Finset.sdiff_subset.trans unwindSubset)
      exact has.dropBranch Finset.inter_subset_left

/-- The same for the branches of a `:case`. -/
theorem NodeBalanced.caseForm
    {thens : Nodes Name (Finset Name)}
    {default : Child Name (Finset Name)}
    {free : Finset Name}
    (test : Name)
    (thensBalanced : BranchesBalanced scope thens)
    (defaultBalanced : ChildBalanced scope default) :
    NodeBalanced (.caseForm fresh test thens default) free scope := by
  intro borrowed owned unwindOwned annotated pass _ within bound unwindSubset
  rw [memoryManagementPass] at pass
  obtain ⟨_, -, pass⟩ := bind_eq_ok pass
  obtain ⟨annotatedThens, thensPass, pass⟩ := bind_eq_ok pass
  obtain ⟨annotatedDefault, defaultPass, pass⟩ := bind_eq_ok pass
  cases pass
  exact Has.prepend_zero
    ((thensBalanced.pass thensPass within unwindSubset).either
    (defaultBalanced.branch defaultPass within unwindSubset))

/-! ### Exceptions -/

/-- Every catch clause takes what the clauses own together. -/
def CatchesBalanced (catches : Catches Name (Finset Name))
    (scope : Finset Name) : Prop :=
  ∀ owned finallyOwned allCatchesOwned tryBorrowed unwindOwned annotated,
    catchMemoryManagementPass catches owned finallyOwned allCatchesOwned
      tryBorrowed unwindOwned = .ok annotated →
    tryBorrowed ⊆ scope → allCatchesOwned ⊆ tryBorrowed →
    catches.owned owned finallyOwned ⊆ allCatchesOwned →
    ∀ bound, unwindOwned ⊆ bound →
      Has scope bound allCatchesOwned unwindOwned (annotated.runs scope bound)

/-- No clause takes nothing. -/
theorem CatchesBalanced.nil : CatchesBalanced
    (.nil : Catches Name (Finset Name)) scope := by
  intro _ _ _ _ _ annotated pass _ _ _ bound _
  cases pass
  exact Has.never

/-- A clause binds the exception, and drops it if nothing uses it. -/
theorem CatchesBalanced.cons
    {name : Name}
    {body : Node Name (Finset Name)}
    {rest : Catches Name (Finset Name)}
    (unshadowed : name ∉ scope)
    (bodyBalanced : NodeBalanced body body.ann (insert name scope))
    (restBalanced : CatchesBalanced rest scope) :
    CatchesBalanced (.cons (body.ann.erase name) name body rest) scope := by
  intro owned finallyOwned allCatchesOwned tryBorrowed unwindOwned annotated pass within
    allSubset ownedSubset bound unwindSubset
  obtain ⟨ownedHere, ownedRest⟩ := Finset.union_subset_iff.mp ownedSubset
  rw [catchMemoryManagementPass] at pass
  obtain ⟨_, dispatched, pass⟩ := bind_eq_ok pass
  obtain ⟨annotatedBody, bodyPass, pass⟩ := bind_eq_ok pass
  obtain ⟨annotatedRest, restPass, pass⟩ := bind_eq_ok pass
  cases pass
  let catchOwned := (body.ann.erase name ∩ owned) \ finallyOwned
  let catchDisowned := allCatchesOwned \ catchOwned
  have bodyOwned : catchOwned ∩ body.ann = catchOwned := by grind
  rw [bodyOwned] at bodyPass
  have clause : Has scope bound catchOwned (unwindOwned \ catchDisowned)
      (.prepend (create {name}) (.noRecur (entering
        (if name ∈ body.ann then annotatedBody
          else annotatedBody.modify (Memory.dropVars {name}))
        ((if name ∈ body.ann then annotatedBody
          else annotatedBody.modify (Memory.dropVars {name})).runs
            (insert name scope) (insert name bound))))) := by
    refine Has.bind (Has.noRecur ?_) unshadowed
    have bodyHas := bodyBalanced _ _ _ _ bodyPass
    by_cases used : name ∈ body.ann
    · simp only [used, if_true] at bodyHas ⊢
      refine bodyHas ?_ ?_ _ ?_ <;> grind
    · simp only [used, if_false] at bodyHas ⊢
      have unwindKnown :
          unwindOwned \ catchDisowned ⊆ (tryBorrowed \ catchOwned) ∪
          catchOwned :=
        (dispatch_eq_ok dispatched).unwind_subset
      have apart :
          Disjoint {name} (catchOwned ∪ (unwindOwned \ catchDisowned)) := by
        rw [Finset.disjoint_singleton_left]
        grind
      have dropped := (bodyHas (by grind) (by grind) (insert name bound)
        (by grind)).dropNode apart
      simpa only [Finset.union_comm _ {name}, ← Finset.insert_eq] using dropped
  have clauseDrops := clause.prepend_zero.drop
    (show Disjoint catchDisowned (catchOwned ∪ (unwindOwned \ catchDisowned)) by
      rw [Finset.disjoint_left]
      grind)
  rw [Finset.union_sdiff_of_subset ownedHere] at clauseDrops
  exact (clauseDrops.unwind_mono (by grind) (by grind)).either
    (restBalanced _ _ _ _ _ _ restPass within allSubset ownedRest bound
      unwindSubset)

/-- No clause is in tail position. -/
theorem Catches.not_recurred (catches : Catches Name (Memory Name))
    (scope bound : Finset Name)
    (trace : List (Event Name)) :
    ¬ catches.runs scope bound .recurred trace := by
  match catches with
  | .nil => exact fun ran => ran
  | .cons memory name body rest =>
      rintro (⟨_, ⟨_, ran, -⟩, -⟩ | ran)
      · exact ran.1 rfl
      · exact rest.not_recurred scope bound trace ran

/-- The body keeps what the clauses use, and the clause that runs takes it. -/
theorem NodeBalanced.tryForm
    {body : Node Name (Finset Name)}
    {catches : Catches Name (Finset Name)}
    {finalizer : Child Name (Finset Name)}
    (bodyBalanced : NodeBalanced body body.ann scope)
    (catchesBalanced : CatchesBalanced catches scope)
    (finalizerBalanced : ChildBalanced scope finalizer) :
    NodeBalanced (.tryForm fresh body catches finalizer)
      (body.ann ∪ catches.fresh ∪ finalizer.fresh) scope := by
  intro borrowed owned unwindOwned annotated pass ownedSubset within bound unwindSubset
  obtain ⟨borrowedWithin, ownedWithin⟩ := Finset.union_subset_iff.mp within
  rw [memoryManagementPass] at pass
  obtain ⟨_, -, pass⟩ := bind_eq_ok pass
  obtain ⟨annotatedBody, bodyPass, pass⟩ := bind_eq_ok pass
  obtain ⟨annotatedCatches, catchesPass, pass⟩ := bind_eq_ok pass
  obtain ⟨annotatedFinalizer, finalizerPass, pass⟩ := bind_eq_ok pass
  cases pass
  let finallyOwned := owned ∩ finalizer.fresh
  let allCatchesOwned := catches.owned owned finallyOwned
  let tryOwned := (owned ∩ body.ann) \ (finallyOwned ∪ allCatchesOwned)
  have allEqual : allCatchesOwned = (owned ∩ catches.fresh) \ finallyOwned :=
    catches_owned owned finallyOwned catches
  have trySubset : tryOwned ⊆ owned := by grind
  have othersEqual : allCatchesOwned ∪ finallyOwned = owned \ tryOwned := by
    ext name
    have isOwned := @ownedSubset name
    simp only [tryOwned, allEqual, finallyOwned, Finset.mem_union,
      Finset.mem_inter, Finset.mem_sdiff] at isOwned ⊢
    grind
  have shares : tryOwned ∪ (allCatchesOwned ∪ finallyOwned) = owned := by
    rw [othersEqual, Finset.union_sdiff_of_subset trySubset]
  have apart : Disjoint tryOwned (allCatchesOwned ∪ finallyOwned) := by
    rw [othersEqual]
    exact Finset.disjoint_sdiff
  have catchesApart : Disjoint allCatchesOwned finallyOwned := by
    rw [allEqual]
    exact Finset.sdiff_disjoint
  have laterSubset : unwindOwned \ tryOwned ⊆ bound :=
    Finset.sdiff_subset.trans unwindSubset
  have bodyHas : Has scope ∅ tryOwned ∅ _ :=
    bodyBalanced _ _ _ _ bodyPass (by grind) (by grind) ∅ subset_rfl
  have catchesHas :
      Has scope bound allCatchesOwned (unwindOwned \ tryOwned) _ :=
    catchesBalanced _ _ _ _ _ _ catchesPass (by grind) (by grind) subset_rfl
      bound laterSubset
  have finallyHas :=
    (finalizerBalanced.pass finalizerPass Finset.inter_subset_right
    ((Finset.union_subset_union_right Finset.inter_subset_left).trans within)
    (Finset.sdiff_subset.trans laterSubset)).2.noRecur
  -- The body completes, and what the clauses would have taken is dropped.
  have consumeApart : Disjoint allCatchesOwned
      (finallyOwned ∪ (unwindOwned \ tryOwned) \ allCatchesOwned) := by
    rw [Finset.disjoint_union_right]
    exact ⟨catchesApart, Finset.disjoint_sdiff⟩
  have consumed := finallyHas.consume consumeApart
  rw [Finset.union_comm finallyOwned] at consumed
  have normal :=
    (bodyHas.of_completes subset_rfl (Finset.empty_subset _)).andThen
    (consumed.unwind_mono (show unwindOwned \ tryOwned ⊆ _ by grind) (by grind))
    (fun _ ran => by cases ran.1) shares apart rfl
  have uncaught : Has scope bound owned unwindOwned _ :=
    bodyHas.uncaught trySubset
  have caught := bodyHas.caught.andThen
    (catchesHas.andThen finallyHas (annotatedCatches.not_recurred scope bound)
      rfl catchesApart
      rfl)
    (fun _ ran => by cases ran.1) shares apart rfl
  refine Has.prepend_zero ((normal.either (uncaught.either caught)).mono ?_)
  intro out trace ran
  rcases ran with ⟨before, after, bodyRan, finallyRan, rfl⟩ | ran |
    ⟨inside, unwind, before, after, bodyRan, othersRan, rfl⟩
  · exact .inl (.inr ⟨before, _, ⟨rfl, bodyRan⟩, ⟨after, finallyRan, rfl⟩, rfl⟩)
  · exact .inr (.inl ran)
  · refine .inr
      (.inr (.inr ⟨_, after, ⟨rfl, inside, unwind, before, bodyRan, rfl⟩,
      othersRan, ?_⟩))
    rw [List.append_assoc]
    rfl

end Arms

/-! ## Every run is balanced -/

/-- What is free in the body is free outside or bound. -/
theorem Scope.bodyNode_subset (bindings : Scope Name (Finset Name))
    (scope : Finset Name)
    (wellScoped : bindings.Scoped scope) :
    bindings.bodyNode.ann ⊆ bindings.ann ∪ bindings.names.toFinset := by
  match bindings with
  | .body node => exact Finset.subset_union_left
  | .bind fresh name init rest =>
      obtain ⟨rfl, -, -, restScoped⟩ := wellScoped
      have inRest := rest.bodyNode_subset _ restScoped
      show rest.bodyNode.ann ⊆ (rest.ann.erase name ∪ init.ann) ∪
        (name :: rest.names).toFinset
      rw [List.toFinset_cons]
      grind

/-- The same for a `:letfn`. -/
theorem Scope.letfn_bodyNode_subset (bindings : Scope Name (Finset Name))
    (scope : Finset Name) (wellScoped : bindings.LetfnScoped scope) :
    bindings.bodyNode.ann ⊆ bindings.ann ∪ bindings.names.toFinset := by
  match bindings with
  | .body node => exact Finset.subset_union_left
  | .bind fresh name init rest =>
      obtain ⟨rfl, -, -, restScoped⟩ := wellScoped
      have inRest := rest.letfn_bodyNode_subset _ restScoped
      show rest.bodyNode.ann ⊆ (rest.ann.erase name ∪ init.ann) ∪
        (name :: rest.names).toFinset
      rw [List.toFinset_cons]
      grind

/-- The names bound one after the other are distinct. -/
theorem Scope.names_nodup (bindings : Scope Name (Finset Name))
    (scope : Finset Name)
    (wellScoped : bindings.Scoped scope) :
    bindings.names.Nodup ∧ ∀ name ∈ bindings.names, name ∉ scope := by
  match bindings with
  | .body node => simp [Scope.names]
  | .bind fresh name init rest =>
      obtain ⟨-, unshadowed, -, restScoped⟩ := wellScoped
      obtain ⟨restNodup, restApart⟩ := rest.names_nodup _ restScoped
      simp only [Scope.names, List.nodup_cons, List.forall_mem_cons]
      grind

/-- The names of a `:letfn` are different. -/
theorem Scope.letfn_names_nodup (bindings : Scope Name (Finset Name))
    (scope : Finset Name)
    (wellScoped : bindings.LetfnScoped scope) :
    bindings.names.Nodup := by
  match bindings with
  | .body node => simp [Scope.names]
  | .bind fresh name init rest =>
      obtain ⟨-, nameFresh, -, restScoped⟩ := wellScoped
      exact List.nodup_cons.mpr ⟨nameFresh, rest.letfn_names_nodup _ restScoped⟩

mutual

/-- Every run of what the pass makes of a rightly annotated node takes exactly
what the node owns. -/
theorem nodeBalanced_of_scoped (node : Node Name (Finset Name))
    (free scope : Finset Name)
    (wellScoped : node.Scoped free scope) :
    NodeBalanced node free scope := by
  match node with
  | .localVar _ name =>
      obtain rfl := wellScoped
      exact NodeBalanced.localVar name
  | .plain _ op child =>
      obtain ⟨rfl, childScoped⟩ := wellScoped
      exact NodeBalanced.plain op
        (childBalanced_of_scoped child scope childScoped)
  | .application _ op children =>
      obtain ⟨rfl, childrenScoped⟩ := wellScoped
      exact NodeBalanced.application op
        (applicationBalanced_of_scoped children scope childrenScoped)
  | .fn _ self methods =>
      obtain ⟨rfl, -⟩ := wellScoped
      exact NodeBalanced.fn self methods
  | .reify _ methods =>
      obtain ⟨rfl, -⟩ := wellScoped
      exact NodeBalanced.reify methods
  | .deftype _ fields methods =>
      obtain ⟨rfl, -⟩ := wellScoped
      exact NodeBalanced.deftype fields methods
  | .letForm _ .plainLet bindings =>
      obtain ⟨rfl, bindingsScoped⟩ := wellScoped
      exact NodeBalanced.plainLet
        (letBalanced_of_scoped bindings scope bindingsScoped)
  | .letForm _ .loopLet
      (.bind _ name (.loop _ bindings) (.body (.localVar _ used))) =>
      obtain ⟨freeEqual, isLoopLet, freshEqual, unshadowed,
        ⟨loopEqual, bindingsScoped⟩,
        bodyEqual⟩ := wellScoped
      have isLoopLet : used = name := isLoopLet
      have bodyEqual : _ = {used} := bodyEqual
      subst isLoopLet loopEqual bodyEqual
      have freeSame : free = bindings.ann := by
        rw [freeEqual.trans freshEqual]
        show ({used} : Finset Name).erase used ∪ bindings.ann = bindings.ann
        rw [Finset.erase_singleton, Finset.empty_union]
      obtain ⟨nodup, -⟩ := bindings.names_nodup scope bindingsScoped
      rw [freeSame]
      exact NodeBalanced.loopLet unshadowed (NodeBalanced.loop
        (loopBalanced_of_scoped bindings scope [] bindingsScoped
          (by simp) nodup))
  | .letForm _ .letfn bindings =>
      obtain ⟨rfl, unshadowed, bindingsScoped⟩ := wellScoped
      exact NodeBalanced.letfn unshadowed
        (letfnBalanced_of_scoped bindings _ scope [] bindingsScoped (by simp)
          (bindings.letfn_names_nodup _ bindingsScoped) unshadowed)
  | .loop _ bindings =>
      obtain ⟨rfl, bindingsScoped⟩ := wellScoped
      obtain ⟨nodup, apart⟩ := bindings.names_nodup scope bindingsScoped
      exact NodeBalanced.loop
        (loopBalanced_of_scoped bindings scope [] bindingsScoped (by simp)
        nodup)
  | .tryForm _ body catches finalizer =>
      obtain ⟨rfl, bodyScoped, catchesScoped, finalizerScoped⟩ := wellScoped
      exact NodeBalanced.tryForm
        (nodeBalanced_of_scoped body _ scope bodyScoped)
        (catchesBalanced_of_scoped catches scope catchesScoped)
        (childBalanced_of_scoped finalizer scope finalizerScoped)
  | .ifForm _ test thenBranch elseBranch =>
      obtain ⟨rfl, testScoped, thenScoped, elseScoped⟩ := wellScoped
      exact NodeBalanced.ifForm (nodeBalanced_of_scoped test _ scope testScoped)
        (nodeBalanced_of_scoped thenBranch _ scope thenScoped)
        (nodeBalanced_of_scoped elseBranch _ scope elseScoped)
  | .caseForm _ test thens default =>
      obtain ⟨-, thensScoped, defaultScoped⟩ := wellScoped
      exact NodeBalanced.caseForm test
        (branchesBalanced_of_scoped thens scope thensScoped)
        (childBalanced_of_scoped default scope defaultScoped)

/-- A child, if there is one. -/
theorem childBalanced_of_scoped (child : Child Name (Finset Name))
    (scope : Finset Name)
    (wellScoped : child.Scoped scope) :
    ChildBalanced scope child := by
  match child with
  | .absent => trivial
  | .present node => exact nodeBalanced_of_scoped node _ scope wellScoped

/-- By induction on the branches. -/
theorem branchesBalanced_of_scoped (nodes : Nodes Name (Finset Name))
    (scope : Finset Name)
    (wellScoped : nodes.BranchesScoped scope) :
    BranchesBalanced scope nodes := by
  match nodes with
  | .nil => trivial
  | .cons head tail =>
      exact ⟨nodeBalanced_of_scoped head _ scope wellScoped.1,
        branchesBalanced_of_scoped tail scope wellScoped.2⟩

/-- By induction on the arguments. -/
theorem applicationBalanced_of_scoped (nodes : Nodes Name (Finset Name))
    (scope : Finset Name)
    (wellScoped : nodes.Scoped scope) :
    ApplicationBalanced nodes scope := by
  match nodes with
  | .nil => exact ApplicationBalanced.nil
  | .cons head tail =>
      obtain ⟨⟨free, headScoped, -, annSubset⟩, tailScoped⟩ := wellScoped
      exact ApplicationBalanced.cons
        (nodeBalanced_of_scoped head free scope headScoped)
        annSubset (applicationBalanced_of_scoped tail scope tailScoped)

/-- By induction on the bindings. -/
theorem letBalanced_of_scoped (bindings : Scope Name (Finset Name))
    (scope : Finset Name)
    (wellScoped : bindings.Scoped scope) :
    LetBalanced bindings scope := by
  match bindings with
  | .body node =>
      exact LetBalanced.body (nodeBalanced_of_scoped node _ scope wellScoped)
  | .bind _ name init rest =>
      obtain ⟨rfl, unshadowed, initScoped, restScoped⟩ := wellScoped
      exact LetBalanced.bind unshadowed
        (nodeBalanced_of_scoped init _ scope initScoped)
        (letBalanced_of_scoped rest _ restScoped)

/-- By induction on the bindings. -/
theorem loopBalanced_of_scoped (bindings : Scope Name (Finset Name))
    (scope : Finset Name)
    (before : List Name)
    (wellScoped : bindings.Scoped scope)
    (beforeWithin : before.toFinset ⊆ scope)
    (nodup : (before ++ bindings.names).Nodup) :
    LoopBalanced bindings scope before := by
  match bindings with
  | .body node =>
      rw [Scope.names, List.append_nil] at nodup
      exact LoopBalanced.body nodup
        (nodeBalanced_of_scoped node _ scope wellScoped)
  | .bind _ name init rest =>
      obtain ⟨rfl, unshadowed, initScoped, restScoped⟩ := wellScoped
      have restNodup : ((before ++ [name]) ++ rest.names).Nodup := by
        simpa [Scope.names] using nodup
      refine LoopBalanced.bind unshadowed beforeWithin restNodup
        (rest.bodyNode_subset _ restScoped)
        (nodeBalanced_of_scoped init _ scope initScoped)
        (loopBalanced_of_scoped rest _ (before ++ [name]) restScoped ?_
          restNodup)
      rw [List.toFinset_append, List.toFinset_cons, List.toFinset_nil,
        Finset.union_comm]
      exact Finset.insert_subset_insert name beforeWithin

/-- By induction on the bindings. -/
theorem letfnBalanced_of_scoped (bindings : Scope Name (Finset Name))
    (scope outer : Finset Name)
    (before : List Name)
    (wellScoped : bindings.LetfnScoped scope)
    (scopeEqual : outer ∪ (before ++ bindings.names).toFinset = scope)
    (nodup : (before ++ bindings.names).Nodup)
    (unshadowed : ∀ name ∈ bindings.names, name ∉ outer) :
    LetfnBalanced bindings scope outer before := by
  match bindings with
  | .body node =>
      rw [Scope.names, List.append_nil] at scopeEqual
      exact LetfnBalanced.body scopeEqual
        (nodeBalanced_of_scoped node _ scope wellScoped)
  | .bind _ name init rest =>
      obtain ⟨rfl, -, initScoped, restScoped⟩ := wellScoped
      have restNodup : ((before ++ [name]) ++ rest.names).Nodup := by
        simpa [Scope.names] using nodup
      have nameFresh : name ∉ outer ∪ before.toFinset := by
        intro member
        rcases Finset.mem_union.mp member with isOuter | isBefore
        · exact unshadowed name List.mem_cons_self isOuter
        · exact (List.nodup_append.mp nodup).2.2 name
            (List.mem_toFinset.mp isBefore) name List.mem_cons_self rfl
      refine LetfnBalanced.bind nameFresh scopeEqual restNodup
        (rest.letfn_bodyNode_subset _ restScoped)
        (nodeBalanced_of_scoped init _ scope initScoped)
        (letfnBalanced_of_scoped rest scope outer (before ++ [name]) restScoped
          ?_ restNodup
          fun other member => unshadowed other (List.mem_cons_of_mem _ member))
      rw [← scopeEqual]
      simp [Scope.names]

/-- By induction on the clauses. -/
theorem catchesBalanced_of_scoped (catches : Catches Name (Finset Name))
    (scope : Finset Name)
    (wellScoped : catches.Scoped scope) :
    CatchesBalanced catches scope := by
  match catches with
  | .nil => exact CatchesBalanced.nil
  | .cons _ name body rest =>
      obtain ⟨rfl, unshadowed, bodyScoped, restScoped⟩ := wellScoped
      exact CatchesBalanced.cons unshadowed
        (nodeBalanced_of_scoped body _ (insert name scope) bodyScoped)
        (catchesBalanced_of_scoped rest scope restScoped)

end

end Frontend
end ClojureRt
