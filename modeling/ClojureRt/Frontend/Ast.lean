import Mathlib.Data.Finset.Option
import Mathlib.Data.List.Nodup

/-!
# Syntax trees of the front end

The trees that the passes of `clojure.rt.passes` transform.  Every node carries
an annotation, and a pass changes the type of annotations: the analyzer's trees
have none, `-fresh-vars` attaches sets of names, `-memory-management-pass`
attaches the reference counting guidance.

Operations that a pass treats alike share a constructor.  The children of an
application are listed in evaluation order: the optional `:meta` and the `:fn`
before the `:args` of an `:invoke`, keys and values alternating for a `:map`,
the statements followed by `:ret` for a `:do`.  The class of a `:new` or of a
`:catch`, which is a constant, is left out.
-/

namespace ClojureRt
namespace Frontend

/-- Operations that both passes leave to `:default`.  They have at most one
child. -/
inductive PlainOp
  | const
  | var
  | theVar
  | quote
  | hostInterop
  | instanceField
  | isInstance
  | staticField
  | importClass
  | monitorEnter
  | monitorExit
  | caseThen
  | throw
  deriving DecidableEq

/-- Operations whose children are evaluated one after the other. -/
inductive ApplicationOp (Name : Type)
  | invoke
  | primInvoke
  | protocolInvoke
  | instanceCall
  | keywordInvoke
  | staticCall
  | new
  | set
  | vector
  | map
  | setBang
  | withMeta
  | define
  | doBlock
  | recur (loopId : Name)
  deriving DecidableEq

/-- The kinds of `:let`.  A `loopLet` is the result of `rewrite-loops`. -/
inductive LetKind
  | plainLet
  | loopLet
  | letfn
  deriving DecidableEq

mutual

/-- A node of the tree. -/
inductive Node (Name : Type) (Ann : Type)
  | localVar (ann : Ann) (name : Name)
  | plain (ann : Ann) (op : PlainOp) (child : Child Name Ann)
  | application (ann : Ann) (op : ApplicationOp Name)
      (children : Nodes Name Ann)
  | fn (ann : Ann) (self : Option Name) (methods : Methods Name Ann)
  | reify (ann : Ann) (methods : Methods Name Ann)
  | deftype (ann : Ann) (fields : List Name) (methods : Methods Name Ann)
  | letForm (ann : Ann) (kind : LetKind) (scope : Scope Name Ann)
  | loop (ann : Ann) (scope : Scope Name Ann)
  | tryForm (ann : Ann) (body : Node Name Ann) (catches : Catches Name Ann)
      (finalizer : Child Name Ann)
  | ifForm (ann : Ann) (test thenBranch elseBranch : Node Name Ann)
  | caseForm (ann : Ann) (test : Name) (thens : Nodes Name Ann)
      (default : Child Name Ann)

/-- A list of nodes. -/
inductive Nodes (Name : Type) (Ann : Type)
  | nil
  | cons (head : Node Name Ann) (tail : Nodes Name Ann)

/-- A child that may be missing. -/
inductive Child (Name : Type) (Ann : Type)
  | absent
  | present (node : Node Name Ann)

/-- The bindings of a `:let`, `:letfn` or `:loop`, ending in its body. -/
inductive Scope (Name : Type) (Ann : Type)
  | body (node : Node Name Ann)
  | bind (ann : Ann) (name : Name) (init : Node Name Ann)
      (rest : Scope Name Ann)

/-- The methods of a function, or of a type; those of a type bind `this`. -/
inductive Methods (Name : Type) (Ann : Type)
  | nil
  | cons (ann : Ann) (this : Option Name) (params : List Name) (loopId : Name)
      (body : Node Name Ann) (rest : Methods Name Ann)

/-- The catch clauses of a `:try`. -/
inductive Catches (Name : Type) (Ann : Type)
  | nil
  | cons (ann : Ann) (name : Name) (body : Node Name Ann)
      (rest : Catches Name Ann)

end

section Annotations

variable {Name : Type} {Ann : Type}

namespace Node

/-- The annotation of a node. -/
def ann : Node Name Ann → Ann
  | .localVar ann _ => ann
  | .plain ann _ _ => ann
  | .application ann _ _ => ann
  | .fn ann _ _ => ann
  | .reify ann _ => ann
  | .deftype ann _ _ => ann
  | .letForm ann _ _ => ann
  | .loop ann _ => ann
  | .tryForm ann _ _ _ => ann
  | .ifForm ann _ _ _ => ann
  | .caseForm ann _ _ _ => ann

/-- Change the annotation of a node, and of none of its children. -/
def modify (change : Ann → Ann) : Node Name Ann → Node Name Ann
  | .localVar ann name => .localVar (change ann) name
  | .plain ann op child => .plain (change ann) op child
  | .application ann op children => .application (change ann) op children
  | .fn ann self methods => .fn (change ann) self methods
  | .reify ann methods => .reify (change ann) methods
  | .deftype ann fields methods => .deftype (change ann) fields methods
  | .letForm ann kind scope => .letForm (change ann) kind scope
  | .loop ann scope => .loop (change ann) scope
  | .tryForm ann body catches finalizer =>
      .tryForm (change ann) body catches finalizer
  | .ifForm ann test thenBranch elseBranch =>
      .ifForm (change ann) test thenBranch elseBranch
  | .caseForm ann test thens default =>
      .caseForm (change ann) test thens default

@[simp]
theorem ann_modify (change : Ann → Ann) (node : Node Name Ann) :
    (node.modify change).ann = change node.ann := by
  cases node <;> rfl

theorem modify_id (node : Node Name Ann) : node.modify
    (fun ann => ann) = node := by
  cases node <;> rfl

end Node

namespace Nodes

/-- The annotations of a list of nodes. -/
def anns : Nodes Name Ann → List Ann
  | .nil => []
  | .cons head tail => head.ann :: tail.anns

end Nodes

namespace Scope

/-- The annotation of the first binding, or of the body when none is left. -/
def ann : Scope Name Ann → Ann
  | .body node => node.ann
  | .bind ann _ _ _ => ann

/-- Change the annotation of the first binding, or of the body when none is
left. -/
def modify (change : Ann → Ann) : Scope Name Ann → Scope Name Ann
  | .body node => .body (node.modify change)
  | .bind ann name init rest => .bind (change ann) name init rest

/-- The node at the end of the bindings. -/
def bodyNode : Scope Name Ann → Node Name Ann
  | .body node => node
  | .bind _ _ _ rest => rest.bodyNode

/-- Change the annotation of the body. -/
def modifyBody (change : Ann → Ann) : Scope Name Ann → Scope Name Ann
  | .body node => .body (node.modify change)
  | .bind ann name init rest => .bind ann name init (rest.modifyBody change)

/-- The names bound, in order. -/
def names : Scope Name Ann → List Name
  | .body _ => []
  | .bind _ name _ rest => name :: rest.names

end Scope

/-- Change the annotation of every method. -/
def Methods.modify (change : Ann → Ann) : Methods Name Ann → Methods Name Ann
  | .nil => .nil
  | .cons ann this params loopId body rest =>
      .cons (change ann) this params loopId body (rest.modify change)

/-- The names a method binds: its parameters and `this`. -/
def methodArgs [DecidableEq Name] (this : Option Name) (params : List Name) :
    Finset Name :=
  this.toFinset ∪ params.toFinset

/-- The body of a loop. -/
def Node.loopBody : Node Name Ann → Option (Node Name Ann)
  | .loop _ scope => some scope.bodyNode
  | _ => none

/-- The value of the first binding. -/
def Scope.firstInit : Scope Name Ann → Option (Node Name Ann)
  | .body _ => none
  | .bind _ _ init _ => some init

end Annotations

/-! ## Binders -/

section Binders

variable {Name : Type} {Ann : Type}

mutual

/-- All names bound in a node, from the outside in and from left to right. -/
def Node.binders : Node Name Ann → List Name
  | .localVar _ _ => []
  | .plain _ _ child => child.binders
  | .application _ _ children => children.binders
  | .fn _ self methods => self.toList ++ methods.binders
  | .reify _ methods => methods.binders
  | .deftype _ fields methods => fields ++ methods.binders
  | .letForm _ _ scope => scope.binders
  | .loop _ scope => scope.binders
  | .tryForm _ body catches finalizer =>
      body.binders ++ (catches.binders ++ finalizer.binders)
  | .ifForm _ test thenBranch elseBranch =>
      test.binders ++ (thenBranch.binders ++ elseBranch.binders)
  | .caseForm _ _ thens default => thens.binders ++ default.binders

/-- Names bound in a list of nodes. -/
def Nodes.binders : Nodes Name Ann → List Name
  | .nil => []
  | .cons head tail => head.binders ++ tail.binders

/-- Names bound in an optional child. -/
def Child.binders : Child Name Ann → List Name
  | .absent => []
  | .present node => node.binders

/-- Names bound by bindings and inside them. -/
def Scope.binders : Scope Name Ann → List Name
  | .body node => node.binders
  | .bind _ name init rest => name :: (init.binders ++ rest.binders)

/-- Names bound by methods and inside them. -/
def Methods.binders : Methods Name Ann → List Name
  | .nil => []
  | .cons _ this params _ body rest =>
      this.toList ++ (params ++ (body.binders ++ rest.binders))

/-- Names bound by catch clauses and inside them. -/
def Catches.binders : Catches Name Ann → List Name
  | .nil => []
  | .cons _ name body rest => name :: (body.binders ++ rest.binders)

end

/-- Names bound inside the values and the body of bindings. -/
def Scope.innerBinders : Scope Name Ann → List Name
  | .body node => node.binders
  | .bind _ _ init rest => init.binders ++ rest.innerBinders

/-- The binders of a scope are its names and those inside. -/
theorem Scope.mem_binders_iff (scope : Scope Name Ann) (name : Name) :
    name ∈ scope.binders ↔ name ∈ scope.names ∨ name ∈ scope.innerBinders := by
  match scope with
  | .body node => simp [Scope.binders, Scope.names, Scope.innerBinders]
  | .bind _ first init rest =>
      have inRest := Scope.mem_binders_iff rest name
      simp only [Scope.binders, Scope.names, Scope.innerBinders, List.mem_cons,
        List.mem_append, inRest]
      grind

/-- When binders are distinct, none of the names is bound again inside. -/
theorem Scope.not_mem_names_of_nodup (scope : Scope Name Ann)
    (nodup : scope.binders.Nodup) :
    ∀ name ∈ scope.innerBinders, name ∉ scope.names := by
  match scope with
  | .body node => simp [Scope.names]
  | .bind _ first init rest =>
      obtain ⟨firstFresh, restNodup⟩ := List.nodup_cons.mp nodup
      obtain ⟨-, tailNodup, apart⟩ := List.nodup_append.mp restNodup
      have inductionHypothesis := Scope.not_mem_names_of_nodup rest tailNodup
      have restBinders := Scope.mem_binders_iff rest
      intro name member inNames
      simp only [Scope.innerBinders, Scope.names, List.mem_append,
        List.mem_cons] at member inNames
      rw [List.mem_append] at firstFresh
      grind

end Binders

/-! ## Rewritten loops -/

section Rewritten

variable {Name : Type} {Ann : Type}

/-- The bindings and body of `(let [G (loop ...)] G)`. -/
def Scope.IsLoopLet : Scope Name Ann → Prop
  | .bind _ name (.loop _ _) (.body (.localVar _ used)) => used = name
  | _ => False

mutual

/-- `rewrite-loops` has run: a `:let` that it made is `(let [G (loop ...)] G)`,
and no other `:loop` is left unless `alone`, as in the loop of such a `:let` by
itself. -/
def Node.LoopsRewritten (alone : Bool) : Node Name Ann → Prop
  | .localVar _ _ => True
  | .plain _ _ child => child.LoopsRewritten alone
  | .application _ _ children => children.LoopsRewritten alone
  | .fn _ _ methods => methods.LoopsRewritten alone
  | .reify _ methods => methods.LoopsRewritten alone
  | .deftype _ _ methods => methods.LoopsRewritten alone
  | .letForm _ .loopLet
      (.bind _ name (.loop _ bindings) (.body (.localVar _ used))) =>
      used = name ∧ bindings.LoopsRewritten alone
  | .letForm _ .loopLet _ => False
  | .letForm _ _ scope => scope.LoopsRewritten alone
  | .loop _ scope => alone = true ∧ scope.LoopsRewritten alone
  | .tryForm _ body catches finalizer =>
      body.LoopsRewritten alone ∧ catches.LoopsRewritten alone ∧
        finalizer.LoopsRewritten alone
  | .ifForm _ test thenBranch elseBranch =>
      test.LoopsRewritten alone ∧ thenBranch.LoopsRewritten alone ∧
        elseBranch.LoopsRewritten alone
  | .caseForm _ _ thens default =>
      thens.LoopsRewritten alone ∧ default.LoopsRewritten alone

/-- `rewrite-loops` has run on a list of nodes. -/
def Nodes.LoopsRewritten (alone : Bool) : Nodes Name Ann → Prop
  | .nil => True
  | .cons head tail => head.LoopsRewritten alone ∧ tail.LoopsRewritten alone

/-- `rewrite-loops` has run on an optional child. -/
def Child.LoopsRewritten (alone : Bool) : Child Name Ann → Prop
  | .absent => True
  | .present node => node.LoopsRewritten alone

/-- `rewrite-loops` has run on bindings and their body. -/
def Scope.LoopsRewritten (alone : Bool) : Scope Name Ann → Prop
  | .body node => node.LoopsRewritten alone
  | .bind _ _ init rest => init.LoopsRewritten alone ∧ rest.LoopsRewritten alone

/-- `rewrite-loops` has run on methods. -/
def Methods.LoopsRewritten (alone : Bool) : Methods Name Ann → Prop
  | .nil => True
  | .cons _ _ _ _ body rest =>
      body.LoopsRewritten alone ∧ rest.LoopsRewritten alone

/-- `rewrite-loops` has run on catch clauses. -/
def Catches.LoopsRewritten (alone : Bool) : Catches Name Ann → Prop
  | .nil => True
  | .cons _ _ body rest => body.LoopsRewritten alone ∧ rest.LoopsRewritten alone

end

end Rewritten

end Frontend
end ClojureRt
