import ClojureRt.Frontend.MemoryManagement
import ClojureRt.Lib.TokenTrace

/-!
# Tokens along the control paths of a tree

A tree annotated by the reference counting pass is run without values: a run is
one of its control paths, and what is kept of it are the tokens that the path
gives out and takes.  Before a node runs, its `:drop-memory` is applied.  A
local takes one token of its variable, the test of a `:case` is only read,
creating a function takes one token of every captured variable, a binding gives
out one token once its value is there.  A node that throws leaves its
`:unwind-memory` to be applied.

Functions are created here and run elsewhere, so a run never enters a method.
-/

namespace ClojureRt
namespace Frontend

open TokenTrace

variable {Name : Type}

/-- How a node ends.  An exception comes with the variables bound so far in the
method or, inside the body of a `:try`, in that body, and with what the node
that threw it unwinds. -/
inductive Outcome (Name : Type)
  | completed
  | recurred
  | raised (bound : Finset Name) (unwind : Name → Int)

/-- The control paths of something. -/
abbrev Run (Name : Type) :=
  Outcome Name → List (Event Name) → Prop

namespace Run

/-- A single path. -/
def finish (outcome : Outcome Name) (events : List (Event Name)) : Run Name :=
  fun out trace => out = outcome ∧ trace = events

/-- An event before a run. -/
def prepend (event : Event Name) (run : Run Name) : Run Name :=
  fun out trace => ∃ rest, run out rest ∧ trace = event :: rest

/-- One run after another.  When the first does not complete, the second is not
reached. -/
def andThen (first second : Run Name) : Run Name :=
  fun out trace =>
    (out ≠ .completed ∧ first out trace) ∨
      ∃ before after, first .completed before ∧ second out after ∧
        trace = before ++ after

/-- Either run. -/
def either (first second : Run Name) : Run Name :=
  fun out trace => first out trace ∨ second out trace

/-- A run outside of tail position. -/
def noRecur (run : Run Name) : Run Name :=
  fun out trace => out ≠ .recurred ∧ run out trace

/-- A run that cannot throw. -/
def completes (run : Run Name) : Run Name :=
  fun out trace => out = .completed ∧ run out trace

/-- Runs of a loop body, with some events whenever it recurs. -/
inductive Iterates (again : List (Event Name)) (run : Run Name) : Run Name
  | last {out : Outcome Name} {trace : List (Event Name)}
      (ran : run out trace) (ended : out ≠ .recurred) :
      Iterates again run out trace
  | again {out : Outcome Name} {before after : List (Event Name)}
      (ran : run .recurred before) (rest : Iterates again run out after) :
      Iterates again run out (before ++ (again ++ after))

end Run

/-- The operations that can throw. -/
def ApplicationOp.throws : ApplicationOp Name → Bool
  | .invoke => true
  | .staticCall => true
  | .instanceCall => true
  | .new => true
  | .keywordInvoke => true
  | _ => false

variable [DecidableEq Name]

/-- One token of every variable given out. -/
def create (names : Finset Name) : Event Name :=
  .change (amounts 1 names)

/-- One token of every variable taken. -/
def consume (names : Finset Name) : Event Name :=
  .change (amounts (-1) names)

/-- Union of the free variables of methods. -/
def Methods.captured : Methods Name (Memory Name) → Finset Name
  | .nil => ∅
  | .cons memory _ _ _ _ rest => memory.fresh ∪ rest.captured

/-- The bindings of a loop, other than its last one, that its body does not
mention. -/
def Scope.unusedBindings (bindings : Scope Name (Memory Name)) : Finset Name :=
  bindings.names.dropLast.toFinset \ bindings.bodyNode.ann.fresh

/-- What happens when a loop recurs: its variables are bound again.  Nothing
takes the tokens of the variables that only the first entry of the loop would
take. -/
def Scope.rebind (bindings : Scope Name (Memory Name)) : List (Event Name) :=
  [create bindings.names.toFinset,
    .leak fun name => if name ∈ bindings.unusedBindings then 1 else 0]

/-- Expected where the operand of a `:throw` has run: variables bound here that
the operand mentions are still held, for the `:throw` to unwind. -/
def operandHeld (names : Finset Name) : Event Name :=
  .expect fun tokens => ∀ name ∈ names, tokens name ≠ 0

/-- Expected where an exception is raised that is caught here: nothing is held
that the body of the `:try` has bound or uses last, unless an exception from
there unwinds it. -/
def bodyReleased (scope tryOwned inside : Finset Name) : Event Name :=
  .expect fun tokens =>
    ∀ name ∉ inside, name ∈ tryOwned ∨ name ∉ scope → tokens name = 0

/-- The free variables of an optional child. -/
def Child.mentioned : Child Name (Memory Name) → Finset Name
  | .absent => ∅
  | .present node => node.ann.fresh

/-- A node with its `:drop-memory`. -/
def entering (node : Node Name (Memory Name)) (run : Run Name) : Run Name :=
  .prepend (.change node.ann.dropMemory) run

/-! ## Runs of trees -/

mutual

/-- The runs of a node, in the scope of some variables.  `bound` are those of
them that an exception from here unwinds: bound in this method, and inside the
body of the innermost `:try`. -/
def Node.runs : Node Name (Memory Name) → (scope bound : Finset Name) → Run Name
  | .localVar _ name, _, _ => .finish .completed [consume {name}]
  | .plain memory op child, scope, bound =>
      match op with
      | .throw =>
          (Run.noRecur (child.runs scope bound)).andThen
            (.finish (.raised bound memory.unwindMemory)
              [operandHeld (bound ∩ child.mentioned)])
      | .caseThen => child.runs scope bound
      | _ => .noRecur (child.runs scope bound)
  | .application memory op children, scope, bound =>
      match op with
      | .doBlock => children.runs scope bound
      | .recur _ =>
          (Run.noRecur (children.runs scope bound)).andThen
          (.finish .recurred [])
      | _ =>
          (Run.noRecur (children.runs scope bound)).andThen fun out trace =>
            trace = [] ∧
              (out = .completed ∨
                op.throws = true ∧ out = .raised bound memory.unwindMemory)
  | .fn _ self methods, _, _ =>
      .finish .completed [consume (withoutSelf self methods.captured)]
  | .reify _ methods, _, _ => .finish .completed [consume methods.captured]
  | .deftype _ _ _, _, _ => .finish .completed []
  | .letForm _ .letfn bindings, scope, bound =>
      bindings.letfnRuns (scope ∪ bindings.names.toFinset) bound
  | .letForm _ _ bindings, scope, bound => bindings.runs none scope bound
  | .loop _ bindings, scope, bound =>
      bindings.runs (some bindings.rebind) scope bound
  | .tryForm memory body catches finalizer, scope, bound =>
      let bodyRuns := entering body (body.runs scope ∅)
      let finallyRuns := Run.noRecur (finalizer.runs scope bound)
      fun out trace =>
        (∃ before after, bodyRuns .completed before ∧ finallyRuns out after ∧
          trace = before ++ consume memory.allCatchesOwned :: after) ∨
        (∃ inside unwind, out = .raised inside unwind ∧ bodyRuns out trace) ∨
        ∃ inside unwind before after, bodyRuns (.raised inside unwind) before ∧
          (catches.runs scope bound).andThen finallyRuns out after ∧
          trace = before ++
            (bodyReleased scope memory.tryOwned inside ::
              .change unwind :: after)
  | .ifForm _ test thenBranch elseBranch, scope, bound =>
      (Run.noRecur (entering test (test.runs scope bound))).andThen
        (.either (entering thenBranch (thenBranch.runs scope bound))
          (entering elseBranch (elseBranch.runs scope bound)))
  | .caseForm _ _ thens default, scope, bound =>
      .either (thens.branchRuns scope bound) (default.branchRuns scope bound)

/-- The nodes of a list, one after the other.  Only the last can be in tail
position. -/
def Nodes.runs : Nodes Name (Memory Name) → (scope bound : Finset Name) →
    Run Name
  | .nil, _, _ => .finish .completed []
  | .cons head .nil, scope, bound => entering head (head.runs scope bound)
  | .cons head tail, scope, bound =>
      (Run.noRecur (entering head (head.runs scope bound))).andThen
      (tail.runs scope bound)

/-- One of the branches of a `:case`. -/
def Nodes.branchRuns : Nodes Name (Memory Name) → (scope bound : Finset Name) →
    Run Name
  | .nil, _, _ => fun _ _ => False
  | .cons head tail, scope, bound =>
      .either (entering head (head.runs scope bound))
        (tail.branchRuns scope bound)

/-- An optional child. -/
def Child.runs : Child Name (Memory Name) → (scope bound : Finset Name) →
    Run Name
  | .absent, _, _ => .finish .completed []
  | .present node, scope, bound => entering node (node.runs scope bound)

/-- The default branch of a `:case`, if there is one. -/
def Child.branchRuns : Child Name (Memory Name) → (scope bound : Finset Name) →
    Run Name
  | .absent, _, _ => fun _ _ => False
  | .present node, scope, bound => entering node (node.runs scope bound)

/-- Bindings and their body.  The body of a loop is run again when it recurs. -/
def Scope.runs : Scope Name (Memory Name) → Option (List (Event Name)) →
    (scope bound : Finset Name) → Run Name
  | .body node, loop, scope, bound =>
      match loop with
      | none => entering node (node.runs scope bound)
      | some rebind => .Iterates rebind (entering node (node.runs scope bound))
  | .bind memory name init rest, loop, scope, bound =>
      .prepend (.change memory.dropMemory)
        ((Run.noRecur (entering init (init.runs scope bound))).andThen
          (.prepend (create {name})
            (rest.runs loop (insert name scope) (insert name bound))))

/-- The bindings of a `:letfn`: all names are in scope from the start, and
creating the functions does not throw. -/
def Scope.letfnRuns : Scope Name (Memory Name) → (scope bound : Finset Name) →
    Run Name
  | .body node, scope, bound => entering node (node.runs scope bound)
  | .bind memory name init rest, scope, bound =>
      .prepend (.change memory.dropMemory)
        ((Run.completes (entering init (init.runs scope bound))).andThen
          (.prepend (create {name}) (rest.letfnRuns scope (insert name bound))))

/-- One of the catch clauses. -/
def Catches.runs : Catches Name (Memory Name) → (scope bound : Finset Name) →
    Run Name
  | .nil, _, _ => fun _ _ => False
  | .cons memory name body rest, scope, bound =>
      .either
        (.prepend (.change memory.dropMemory) (.prepend (create {name})
          (.noRecur (entering body
            (body.runs (insert name scope) (insert name bound))))))
        (rest.runs scope bound)

end

theorem Node.runs_fn
    (memory : Memory Name)
    (self : Option Name)
    (methods : Methods Name (Memory Name))
    (scope bound : Finset Name) :
    (Node.fn memory self methods).runs scope bound =
      .finish .completed [consume (withoutSelf self methods.captured)] := by
  rw [Node.runs]

theorem Node.runs_reify
    (memory : Memory Name)
    (methods : Methods Name (Memory Name))
    (scope bound : Finset Name) :
    (Node.reify memory methods).runs scope bound =
      .finish .completed [consume methods.captured] := by
  rw [Node.runs]

/-- The runs of a method: its body, again for every `:recur`.  The variables of
the body are its arguments and what it captures; only the former are unwound. -/
def methodRuns
    (this : Option Name)
    (params : List Name)
    (body : Node Name (Memory Name)) : Run Name :=
  .Iterates [create (methodArgs this params)]
    (entering body (body.runs body.ann.fresh (methodArgs this params)))

end Frontend
end ClojureRt
