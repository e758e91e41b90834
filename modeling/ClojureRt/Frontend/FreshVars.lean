import ClojureRt.Frontend.Ast
import Mathlib.Data.Finset.Lattice.Fold

/-!
# The fresh variables of a node

`-fresh-vars` annotates every node with its free variables.  The statements of a
`:do` are the exception: the annotation of a statement also has the free
variables of everything after it.

A `:recur` to a method of a `:reify` or `:deftype` passes `this` implicitly.
The pass looks it up by the loop id and puts it in front of the expressions.
-/

namespace ClojureRt
namespace Frontend

variable {Name : Type} [DecidableEq Name]

/-- Union of the `:fresh` of a list of nodes. -/
def Nodes.fresh : Nodes Name (Finset Name) → Finset Name
  | .nil => ∅
  | .cons head tail => head.ann ∪ tail.fresh

/-- The `:fresh` of an optional child. -/
def Child.fresh : Child Name (Finset Name) → Finset Name
  | .absent => ∅
  | .present node => node.ann

/-- Union of the `:fresh` of the methods. -/
def Methods.fresh : Methods Name (Finset Name) → Finset Name
  | .nil => ∅
  | .cons fresh _ _ _ _ rest => fresh ∪ rest.fresh

/-- Union of the `:fresh` of the catch clauses. -/
def Catches.fresh : Catches Name (Finset Name) → Finset Name
  | .nil => ∅
  | .cons fresh _ _ rest => fresh ∪ rest.fresh

/-- Only the statements of a `:do` carry the variables of what follows them. -/
def ApplicationOp.cumulative : ApplicationOp Name → Bool
  | .doBlock => true
  | _ => false

/-- The implicit argument of a `:recur`. -/
def ApplicationOp.recurThis
    (recurThis : Name → Option Name) : ApplicationOp Name → Option Name
  | .recur loopId => recurThis loopId
  | _ => none

/-- The names a method binds, in order. -/
theorem toFinset_methodArgs (this : Option Name) (params : List Name) :
    (this.toList ++ params).toFinset = methodArgs this params := by
  cases this <;> simp [methodArgs]

/-- Remove the name a named function binds for itself. -/
def withoutSelf (self : Option Name) (fresh : Finset Name) : Finset Name :=
  fresh \ self.toFinset

/-- The implicit argument in front of the explicit ones. -/
def Nodes.consThis
    (this : Option Name)
    (exprs : Nodes Name (Finset Name)) : Nodes Name (Finset Name) :=
  match this with
  | none => exprs
  | some name => .cons (.localVar {name} name) exprs

mutual

/-- `-fresh-vars`. -/
def freshVars (recurThis : Name → Option Name) :
    Node Name Unit → Node Name (Finset Name)
  | .localVar _ name => .localVar {name} name
  | .plain _ op child =>
      let child := freshChild recurThis child
      .plain child.fresh op child
  | .application _ op children =>
      let children := (freshNodes op.cumulative recurThis children).consThis
        (op.recurThis recurThis)
      .application children.fresh op children
  | .fn _ self methods =>
      let methods := freshMethods recurThis methods
      .fn (withoutSelf self methods.fresh) self methods
  | .reify _ methods =>
      let methods := freshMethods recurThis methods
      .reify methods.fresh methods
  | .deftype _ fields methods =>
      .deftype ∅ fields
        ((freshMethods recurThis methods).modify (· \ fields.toFinset))
  | .letForm _ kind scope =>
      let scope := freshScope recurThis scope
      match kind with
      | .letfn => .letForm (scope.ann \ scope.names.toFinset) kind scope
      | _ => .letForm scope.ann kind scope
  | .loop _ scope =>
      let scope := freshScope recurThis scope
      .loop scope.ann scope
  | .tryForm _ body catches finalizer =>
      let body := freshVars recurThis body
      let catches := freshCatches recurThis catches
      let finalizer := freshChild recurThis finalizer
      .tryForm (body.ann ∪ catches.fresh ∪ finalizer.fresh) body catches
        finalizer
  | .ifForm _ test thenBranch elseBranch =>
      let test := freshVars recurThis test
      let thenBranch := freshVars recurThis thenBranch
      let elseBranch := freshVars recurThis elseBranch
      .ifForm (test.ann ∪ thenBranch.ann ∪ elseBranch.ann) test thenBranch
        elseBranch
  | .caseForm _ test thens default =>
      let thens := freshNodes false recurThis thens
      let default := freshChild recurThis default
      .caseForm (default.fresh ∪ {test} ∪ thens.fresh) test thens default

/-- `-fresh-vars` on a list of nodes, adding to each what follows it when
`cumulative`. -/
def freshNodes (cumulative : Bool) (recurThis : Name → Option Name) :
    Nodes Name Unit → Nodes Name (Finset Name)
  | .nil => .nil
  | .cons head tail =>
      let tail := freshNodes cumulative recurThis tail
      let head := freshVars recurThis head
      .cons (head.modify fun fresh =>
        if cumulative then tail.fresh ∪ fresh else fresh) tail

/-- `-fresh-vars` on an optional child. -/
def freshChild (recurThis : Name → Option Name) :
    Child Name Unit → Child Name (Finset Name)
  | .absent => .absent
  | .present node => .present (freshVars recurThis node)

/-- `let-fresh-vars`: from the body back to the first binding. -/
def freshScope (recurThis : Name → Option Name) :
    Scope Name Unit → Scope Name (Finset Name)
  | .body node => .body (freshVars recurThis node)
  | .bind _ name init rest =>
      let rest := freshScope recurThis rest
      let init := freshVars recurThis init
      .bind (rest.ann.erase name ∪ init.ann) name init rest

/-- `-fresh-vars` on the methods of a function or of a type. -/
def freshMethods (recurThis : Name → Option Name) :
    Methods Name Unit → Methods Name (Finset Name)
  | .nil => .nil
  | .cons _ this params loopId body rest =>
      let bodyThis :=
        if this.isSome then Function.update recurThis loopId this else recurThis
      let body := freshVars bodyThis body
      .cons (body.ann \ methodArgs this params) this params loopId body
        (freshMethods recurThis rest)

/-- `-fresh-vars` on the catch clauses. -/
def freshCatches (recurThis : Name → Option Name) :
    Catches Name Unit → Catches Name (Finset Name)
  | .nil => .nil
  | .cons _ name body rest =>
      let body := freshVars recurThis body
      .cons (body.ann.erase name) name body (freshCatches recurThis rest)

end

mutual

/-- The assertion of `-fresh-vars` on `:deftype`, everywhere in a tree: methods
use only their parameters, `this` and the fields. -/
def DeftypesClosed (recurThis : Name → Option Name) : Node Name Unit → Prop
  | .localVar _ _ => True
  | .plain _ _ child => DeftypesClosedChild recurThis child
  | .application _ _ children => DeftypesClosedNodes recurThis children
  | .fn _ _ methods => DeftypesClosedMethods recurThis methods
  | .reify _ methods => DeftypesClosedMethods recurThis methods
  | .deftype _ fields methods =>
      (freshMethods recurThis methods).fresh ⊆ fields.toFinset ∧
        DeftypesClosedMethods recurThis methods
  | .letForm _ _ scope => DeftypesClosedScope recurThis scope
  | .loop _ scope => DeftypesClosedScope recurThis scope
  | .tryForm _ body catches finalizer =>
      DeftypesClosed recurThis body ∧ DeftypesClosedCatches recurThis catches ∧
        DeftypesClosedChild recurThis finalizer
  | .ifForm _ test thenBranch elseBranch =>
      DeftypesClosed recurThis test ∧ DeftypesClosed recurThis thenBranch ∧
        DeftypesClosed recurThis elseBranch
  | .caseForm _ _ thens default =>
      DeftypesClosedNodes recurThis thens ∧
        DeftypesClosedChild recurThis default

/-- The assertion, in a list of nodes. -/
def DeftypesClosedNodes (recurThis : Name → Option Name) :
    Nodes Name Unit → Prop
  | .nil => True
  | .cons head tail =>
      DeftypesClosed recurThis head ∧ DeftypesClosedNodes recurThis tail

/-- The assertion, in an optional child. -/
def DeftypesClosedChild (recurThis : Name → Option Name) :
    Child Name Unit → Prop
  | .absent => True
  | .present node => DeftypesClosed recurThis node

/-- The assertion, in bindings and their body. -/
def DeftypesClosedScope (recurThis : Name → Option Name) :
    Scope Name Unit → Prop
  | .body node => DeftypesClosed recurThis node
  | .bind _ _ init rest =>
      DeftypesClosed recurThis init ∧ DeftypesClosedScope recurThis rest

/-- The assertion, in the bodies of methods. -/
def DeftypesClosedMethods (recurThis : Name → Option Name) :
    Methods Name Unit → Prop
  | .nil => True
  | .cons _ this _ loopId body rest =>
      DeftypesClosed
          (if this.isSome then Function.update recurThis loopId
            this else recurThis) body ∧
        DeftypesClosedMethods recurThis rest

/-- The assertion, in the bodies of catch clauses. -/
def DeftypesClosedCatches (recurThis : Name → Option Name) :
    Catches Name Unit → Prop
  | .nil => True
  | .cons _ _ body rest =>
      DeftypesClosed recurThis body ∧ DeftypesClosedCatches recurThis rest

end

/-- Outside of a `:do` every node keeps its own free variables. -/
theorem freshNodes_false_cons (recurThis : Name → Option Name)
    (head : Node Name Unit)
    (tail : Nodes Name Unit) :
    freshNodes false recurThis (.cons head tail) =
      .cons (freshVars recurThis head) (freshNodes false recurThis tail) := by
  simp only [freshNodes, Bool.false_eq_true, if_false, Node.modify_id]

/-- Together the nodes of a list have the same free variables, whether or not
each carries what follows it. -/
theorem fresh_freshNodes_cons (cumulative : Bool)
    (recurThis : Name → Option Name)
    (head : Node Name Unit) (tail : Nodes Name Unit) :
    (freshNodes cumulative recurThis (.cons head tail)).fresh =
      (freshVars recurThis head).ann ∪
      (freshNodes cumulative recurThis tail).fresh := by
  rw [freshNodes, Nodes.fresh, Node.ann_modify]
  cases cumulative <;> grind

theorem names_freshScope (recurThis : Name → Option Name)
    (scope : Scope Name Unit) :
    (freshScope recurThis scope).names = scope.names := by
  match scope with
  | .body _ => rfl
  | .bind _ name init rest =>
      simp only [freshScope, Scope.names, names_freshScope recurThis rest]

end Frontend
end ClojureRt
