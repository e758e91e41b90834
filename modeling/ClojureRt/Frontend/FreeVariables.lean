import ClojureRt.Frontend.FreshVars

/-!
# Free variables

The free variables of an expression, by recursion on its syntax.  `-fresh-vars`
attaches to every node its own, with two exceptions that stand for the rest of a
block: the statements of a `:do` and the bindings in front of a body also carry
what follows them.

A `:recur` to a method uses the `this` of the method.  Which one that is is told
by the methods around the expression, the innermost one first.
-/

namespace ClojureRt
namespace Frontend

variable {Name : Type} [DecidableEq Name]

/-! ## The free variables of an expression -/

/-- The methods with a `this` around an expression, by their loop ids. -/
abbrev Around (Name : Type) := List (Name × Name)

/-- The `this` of the method that a loop id belongs to. -/
def thisOf (around : Around Name) (loopId : Name) : Option Name :=
  (around.find? fun method => method.1 = loopId).map Prod.snd

/-- The methods around the body of a method. -/
def Around.enter (around : Around Name) (loopId : Name) : Option Name →
    Around Name
  | some this => (loopId, this) :: around
  | none => around

mutual

/-- The names that occur free in a node. -/
def Node.free (around : Around Name) : Node Name Unit → Finset Name
  | .localVar _ name => {name}
  | .plain _ _ child => child.free around
  | .application _ (.recur loopId) children =>
      (thisOf around loopId).toFinset ∪ children.free around
  | .application _ _ children => children.free around
  | .fn _ self methods => methods.free around \ self.toFinset
  | .reify _ methods => methods.free around
  | .deftype _ fields methods => methods.free around \ fields.toFinset
  | .letForm _ .letfn scope => scope.freeTogether around \ scope.names.toFinset
  | .letForm _ _ scope => scope.free around
  | .loop _ scope => scope.free around
  | .tryForm _ body catches finalizer =>
      body.free around ∪ catches.free around ∪ finalizer.free around
  | .ifForm _ test thenBranch elseBranch =>
      test.free around ∪ thenBranch.free around ∪ elseBranch.free around
  | .caseForm _ test thens default =>
      {test} ∪ thens.free around ∪ default.free around

/-- The names that occur free in one of the nodes. -/
def Nodes.free (around : Around Name) : Nodes Name Unit → Finset Name
  | .nil => ∅
  | .cons head tail => head.free around ∪ tail.free around

/-- The names that occur free in a child that is there. -/
def Child.free (around : Around Name) : Child Name Unit → Finset Name
  | .absent => ∅
  | .present node => node.free around

/-- Each name is bound in what follows it. -/
def Scope.free (around : Around Name) : Scope Name Unit → Finset Name
  | .body node => node.free around
  | .bind _ name init rest => init.free around ∪ (rest.free around).erase name

/-- What the values and the body use, before any name is bound. -/
def Scope.freeTogether (around : Around Name) : Scope Name Unit → Finset Name
  | .body node => node.free around
  | .bind _ _ init rest => init.free around ∪ rest.freeTogether around

/-- The names that occur free in a method: not its parameters and its own
name. -/
def Methods.free (around : Around Name) : Methods Name Unit → Finset Name
  | .nil => ∅
  | .cons _ this params loopId body rest =>
      (body.free (around.enter loopId this) \ methodArgs this params) ∪
      rest.free around

/-- The names that occur free in a `:catch`: not the exception. -/
def Catches.free (around : Around Name) : Catches Name Unit → Finset Name
  | .nil => ∅
  | .cons _ name body rest => (body.free around).erase name ∪ rest.free around

end

/-! ## The annotated tree -/

mutual

/-- The tree with its free variables at every node. -/
def Node.withFree (around : Around Name) : Node Name Unit → Node Name
    (Finset Name)
  | node@(.localVar _ name) => .localVar (node.free around) name
  | node@(.plain _ op child) =>
      .plain (node.free around) op (child.withFree around)
  | node@(.application _ op children) =>
      .application (node.free around) op
        ((children.withFree op.cumulative around).consThis
          (op.recurThis (thisOf around)))
  | node@(.fn _ self methods) =>
      .fn (node.free around) self (methods.withFree ∅ around)
  | node@(.reify _ methods) =>
      .reify (node.free around) (methods.withFree ∅ around)
  | node@(.deftype _ fields methods) =>
      .deftype (node.free around) fields
        (methods.withFree fields.toFinset around)
  | node@(.letForm _ kind scope) =>
      .letForm (node.free around) kind (scope.withFree around)
  | node@(.loop _ scope) => .loop (node.free around) (scope.withFree around)
  | node@(.tryForm _ body catches finalizer) =>
      .tryForm (node.free around) (body.withFree around)
        (catches.withFree around) (finalizer.withFree around)
  | node@(.ifForm _ test thenBranch elseBranch) =>
      .ifForm (node.free around) (test.withFree around)
        (thenBranch.withFree around) (elseBranch.withFree around)
  | node@(.caseForm _ test thens default) =>
      .caseForm (node.free around) test (thens.withFree false around)
        (default.withFree around)

/-- A statement of a `:do` also carries what follows it. -/
def Nodes.withFree (cumulative : Bool) (around : Around Name) :
    Nodes Name Unit → Nodes Name (Finset Name)
  | .nil => .nil
  | .cons head tail =>
      .cons
        ((head.withFree around).modify fun free =>
          if cumulative then free ∪ tail.free around else free)
        (tail.withFree cumulative around)

/-- The same for a child that may be absent. -/
def Child.withFree (around : Around Name) : Child Name Unit → Child Name
    (Finset Name)
  | .absent => .absent
  | .present node => .present (node.withFree around)

/-- A binding also carries what follows it. -/
def Scope.withFree (around : Around Name) : Scope Name Unit → Scope Name
    (Finset Name)
  | .body node => .body (node.withFree around)
  | scope@(.bind _ name init rest) =>
      .bind (scope.free around) name (init.withFree around)
        (rest.withFree around)

/-- Without the fields of the type that the methods are of. -/
def Methods.withFree (fields : Finset Name) (around : Around Name) :
    Methods Name Unit → Methods Name (Finset Name)
  | .nil => .nil
  | .cons _ this params loopId body rest =>
      .cons ((body.free (around.enter loopId this) \ methodArgs this params) \
        fields) this params
        loopId (body.withFree (around.enter loopId this))
          (rest.withFree fields around)

/-- The same for the `:catch` branches. -/
def Catches.withFree (around : Around Name) : Catches Name Unit → Catches Name
    (Finset Name)
  | .nil => .nil
  | .cons _ name body rest =>
      .cons ((body.free around).erase name) name (body.withFree around)
        (rest.withFree around)

end

/-! ## The annotations are those of the pass -/

theorem ann_withFree (around : Around Name) (node : Node Name Unit) :
    (node.withFree around).ann = node.free around := by
  cases node <;> simp only [Node.withFree, Node.ann]

theorem fresh_withFree_child (around : Around Name) (child : Child Name Unit) :
    (child.withFree around).fresh = child.free around := by
  cases child with
  | absent => rfl
  | present node => exact ann_withFree around node

theorem ann_withFree_scope (around : Around Name) (scope : Scope Name Unit) :
    (scope.withFree around).ann = scope.free around := by
  cases scope with
  | body node => exact ann_withFree around node
  | bind ann name init rest => rfl

/-- Together the statements carry nothing else than each of them by itself. -/
theorem fresh_withFree_nodes (cumulative : Bool) (around : Around Name)
    (nodes : Nodes Name Unit) :
    (nodes.withFree cumulative around).fresh = nodes.free around := by
  match nodes with
  | .nil => rfl
  | .cons head tail =>
      rw [Nodes.withFree, Nodes.fresh, Node.ann_modify, ann_withFree,
        fresh_withFree_nodes cumulative around tail, Nodes.free]
      cases cumulative with
      | false => rfl
      | true => simp [Finset.union_assoc]

theorem fresh_withFree_methods (around : Around Name)
    (methods : Methods Name Unit) :
    (methods.withFree ∅ around).fresh = methods.free around := by
  match methods with
  | .nil => rfl
  | .cons _ this params loopId body rest =>
      rw [Methods.withFree, Methods.fresh, fresh_withFree_methods around rest,
        Finset.sdiff_empty, Methods.free]

theorem fresh_withFree_catches (around : Around Name)
    (catches : Catches Name Unit) :
    (catches.withFree around).fresh = catches.free around := by
  match catches with
  | .nil => rfl
  | .cons _ name body rest =>
      rw [Catches.withFree, Catches.fresh, fresh_withFree_catches around rest,
        Catches.free]

theorem fresh_consThis (this : Option Name) (exprs : Nodes Name (Finset Name)) :
    (exprs.consThis this).fresh = this.toFinset ∪ exprs.fresh := by
  cases this with
  | none => simp [Nodes.consThis]
  | some name => rfl

theorem free_application (around : Around Name) (ann : Unit)
    (op : ApplicationOp Name)
    (children : Nodes Name Unit) :
    (Node.application ann op children).free around =
      (op.recurThis (thisOf around)).toFinset ∪ children.free around := by
  cases op <;> simp [Node.free, ApplicationOp.recurThis]

/-- Where all names are removed at the end it makes no difference that each was
removed from what follows it before. -/
theorem free_sdiff_eq (around : Around Name) (scope : Scope Name Unit)
    {names : Finset Name}
    (within : scope.names.toFinset ⊆ names) :
    scope.free around \ names = scope.freeTogether around \ names := by
  match scope with
  | .body node => rfl
  | .bind _ name init rest =>
      rw [Scope.names, List.toFinset_cons, Finset.insert_subset_iff] at within
      have inductionHypothesis := free_sdiff_eq around rest within.2
      rw [Scope.free, Scope.freeTogether, Finset.union_sdiff_distrib,
        Finset.union_sdiff_distrib, ← inductionHypothesis]
      congr 1
      ext other
      simp only [Finset.mem_sdiff, Finset.mem_erase]
      have isName := within.1
      grind

theorem thisOf_enter (around : Around Name) (loopId : Name)
    (this : Option Name) :
    thisOf (around.enter loopId this) =
      if this.isSome then Function.update (thisOf around) loopId this
      else thisOf around := by
  cases this with
  | none => rfl
  | some name =>
      funext other
      by_cases same : other = loopId
      · simp [Around.enter, thisOf, same]
      · simp [Around.enter, thisOf, same, Ne.symm same]

theorem names_withFree (around : Around Name) (scope : Scope Name Unit) :
    (scope.withFree around).names = scope.names := by
  match scope with
  | .body node => rfl
  | .bind _ name init rest =>
      rw [Scope.withFree, Scope.names, Scope.names, names_withFree]

theorem modify_withFree_methods (fields : Finset Name) (around : Around Name)
    (methods : Methods Name Unit) :
    (methods.withFree ∅ around).modify (· \ fields) = methods.withFree fields
    around := by
  match methods with
  | .nil => rfl
  | .cons _ this params loopId body rest =>
      rw [Methods.withFree, Methods.modify, Methods.withFree,
        Finset.sdiff_empty, modify_withFree_methods]

mutual

theorem freshVars_eq (around : Around Name) (node : Node Name Unit)
    (closed : DeftypesClosed (thisOf around) node) :
    freshVars (thisOf around) node = node.withFree around := by
  match node with
  | .localVar _ name => rfl
  | .plain _ op child =>
      simp only [freshVars, Node.withFree, freshChild_eq around child closed,
        fresh_withFree_child, Node.free]
  | .application _ op children =>
      simp only [freshVars, Node.withFree,
        freshNodes_eq op.cumulative around children closed, fresh_consThis,
        fresh_withFree_nodes, free_application]
  | .fn _ self methods =>
      simp only [freshVars, Node.withFree,
        freshMethods_eq around methods closed, fresh_withFree_methods,
        withoutSelf, Node.free]
  | .reify _ methods =>
      simp only [freshVars, Node.withFree,
        freshMethods_eq around methods closed, fresh_withFree_methods,
        Node.free]
  | .deftype _ fields methods =>
      obtain ⟨within, methodsClosed⟩ := closed
      have methodsEq := freshMethods_eq around methods methodsClosed
      rw [methodsEq, fresh_withFree_methods] at within
      simp only [freshVars, Node.withFree, methodsEq, modify_withFree_methods,
        Node.free, Finset.sdiff_eq_empty_iff_subset.mpr within]
  | .letForm _ .plainLet scope =>
      simp only [freshVars, Node.withFree, freshScope_eq around scope closed,
        ann_withFree_scope, Node.free]
  | .letForm _ .loopLet scope =>
      simp only [freshVars, Node.withFree, freshScope_eq around scope closed,
        ann_withFree_scope, Node.free]
  | .letForm _ .letfn scope =>
      simp only [freshVars, Node.withFree, freshScope_eq around scope closed,
        ann_withFree_scope, names_withFree,
        free_sdiff_eq around scope subset_rfl, Node.free]
  | .loop _ scope =>
      simp only [freshVars, Node.withFree, freshScope_eq around scope closed,
        ann_withFree_scope, Node.free]
  | .tryForm _ body catches finalizer =>
      obtain ⟨bodyClosed, catchesClosed, finalizerClosed⟩ := closed
      simp only [freshVars, Node.withFree, freshVars_eq around body bodyClosed,
        freshCatches_eq around catches catchesClosed,
        freshChild_eq around finalizer finalizerClosed, ann_withFree,
        fresh_withFree_catches, fresh_withFree_child, Node.free]
  | .ifForm _ test thenBranch elseBranch =>
      obtain ⟨testClosed, thenClosed, elseClosed⟩ := closed
      simp only [freshVars, Node.withFree, freshVars_eq around test testClosed,
        freshVars_eq around thenBranch thenClosed,
        freshVars_eq around elseBranch elseClosed, ann_withFree, Node.free]
  | .caseForm _ test thens default =>
      obtain ⟨thensClosed, defaultClosed⟩ := closed
      simp only [freshVars, Node.withFree,
        freshNodes_eq false around thens thensClosed,
        freshChild_eq around default defaultClosed, fresh_withFree_nodes,
        fresh_withFree_child, Node.free]
      congr 1
      ext name
      simp only [Finset.mem_union, Finset.mem_singleton]
      tauto

theorem freshNodes_eq (cumulative : Bool) (around : Around Name)
    (nodes : Nodes Name Unit)
    (closed : DeftypesClosedNodes (thisOf around) nodes) :
    freshNodes cumulative (thisOf around) nodes = nodes.withFree cumulative
      around := by
  match nodes with
  | .nil => rfl
  | .cons head tail =>
      obtain ⟨headClosed, tailClosed⟩ := closed
      simp only [freshNodes, Nodes.withFree,
        freshVars_eq around head headClosed,
        freshNodes_eq cumulative around tail tailClosed, fresh_withFree_nodes,
        Finset.union_comm (tail.free around)]

theorem freshChild_eq (around : Around Name) (child : Child Name Unit)
    (closed : DeftypesClosedChild (thisOf around) child) :
    freshChild (thisOf around) child = child.withFree around := by
  match child with
  | .absent => rfl
  | .present node =>
      rw [freshChild, Child.withFree, freshVars_eq around node closed]

theorem freshScope_eq (around : Around Name) (scope : Scope Name Unit)
    (closed : DeftypesClosedScope (thisOf around) scope) :
    freshScope (thisOf around) scope = scope.withFree around := by
  match scope with
  | .body node =>
      rw [freshScope, Scope.withFree, freshVars_eq around node closed]
  | .bind _ name init rest =>
      obtain ⟨initClosed, restClosed⟩ := closed
      simp only [freshScope, Scope.withFree,
        freshVars_eq around init initClosed,
        freshScope_eq around rest restClosed, ann_withFree, ann_withFree_scope,
        Scope.free, Finset.union_comm]

theorem freshMethods_eq (around : Around Name) (methods : Methods Name Unit)
    (closed : DeftypesClosedMethods (thisOf around) methods) :
    freshMethods (thisOf around) methods = methods.withFree ∅ around := by
  match methods with
  | .nil => rfl
  | .cons _ this params loopId body rest =>
      obtain ⟨bodyClosed, restClosed⟩ := closed
      rw [← thisOf_enter] at bodyClosed
      simp only [freshMethods, Methods.withFree, ← thisOf_enter,
        freshVars_eq (around.enter loopId this) body bodyClosed,
        freshMethods_eq around rest restClosed, ann_withFree,
        Finset.sdiff_empty]

theorem freshCatches_eq (around : Around Name) (catches : Catches Name Unit)
    (closed : DeftypesClosedCatches (thisOf around) catches) :
    freshCatches (thisOf around) catches = catches.withFree around := by
  match catches with
  | .nil => rfl
  | .cons _ name body rest =>
      obtain ⟨bodyClosed, restClosed⟩ := closed
      simp only [freshCatches, Catches.withFree,
        freshVars_eq around body bodyClosed,
        freshCatches_eq around rest restClosed, ann_withFree]

end

/-- What the pass puts at the nodes of a tree are their free variables.  The
names of a `:letfn` are none of its own, and all that a `:case` or a `:recur`
mentions is. -/
theorem freshVars_withFree (node : Node Name Unit)
    (closed : DeftypesClosed (fun _ => none) node) :
    freshVars (fun _ => none) node = node.withFree [] ∧
      (∀ (around : Around Name) (scope : Scope Name Unit), ∀ name ∈ scope.names,
        name ∉ (Node.letForm () .letfn scope).free around) ∧
      (∀ (around : Around Name) (test : Name) (thens : Nodes Name Unit)
        (default : Child Name Unit),
        test ∈ (Node.caseForm () test thens default).free around ∧
          thens.free around ⊆ (Node.caseForm () test thens default).free
            around ∧
          default.free around ⊆ (Node.caseForm () test thens default).free
            around) ∧
      ∀ (around : Around Name) (loopId : Name) (exprs : Nodes Name Unit),
        exprs.free around ⊆ (Node.application () (.recur loopId) exprs).free
          around ∧
          ∀ this, thisOf around loopId = some this →
            this ∈ (Node.application () (.recur loopId) exprs).free around := by
  refine ⟨freshVars_eq [] node closed, ?_, ?_, ?_⟩
  · intro around scope name isName
    simp [Node.free, isName]
  · intro around test thens default
    refine ⟨by simp [Node.free], ?_, ?_⟩
    · intro name isFree
      simp [Node.free, isFree]
    · intro name isFree
      simp [Node.free, isFree]
  · intro around loopId exprs
    refine ⟨?_, ?_⟩
    · intro name isFree
      simp [Node.free, isFree]
    · intro this isThis
      simp [Node.free, isThis]

/-- The form `(letfn [f (fn [] g), g (fn [] x)] (deftype T [y] (m [this p]
(recur y))))`. -/
def mutualLetfn : Node Nat Unit :=
  .letForm () .letfn
    (.bind () 0 (.fn () none (.cons () none [] 10 (.localVar () 1) .nil))
      (.bind () 1 (.fn () none (.cons () none [] 11 (.localVar () 2) .nil))
        (.body (.deftype () [3] (.cons () (some 4) [5] 12
          (.application () (.recur 12) (.cons (.localVar () 3) .nil)) .nil)))))

theorem freshVars_withFree_letfn :
    freshVars (fun _ => none) mutualLetfn = mutualLetfn.withFree [] ∧
      mutualLetfn.free [] = {2} := by
  have closed : DeftypesClosed (fun _ => none) mutualLetfn := by
    refine ⟨⟨trivial, trivial⟩, ⟨trivial, trivial⟩, ?_, ?_⟩
    · decide
    · exact ⟨⟨trivial, trivial⟩, trivial⟩
  exact ⟨(freshVars_withFree mutualLetfn closed).1, by decide⟩

end Frontend
end ClojureRt
