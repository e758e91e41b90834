import ClojureRt.Frontend.FreshVars

/-!
# The reference counting pass

`-memory-management-pass` takes a node annotated with its fresh variables, the
variables it borrows, those it owns, and those it has to release when an
exception leaves it.  It attaches `:drop-memory` (what to add to or take from
the count of a variable before the node runs) and `:unwind-memory` (what to take
when the node throws).

The assertions of the source are the errors of an `Except`.  Amounts are
functions from names to integers, and merging maps with `+` is adding functions.
-/

namespace ClojureRt
namespace Frontend

variable {Name : Type}

/-- The assertions of the pass. -/
inductive Violation
  | borrowedMeetsOwned
  | ownedNotFresh
  | unwindOwnedUnknown
  | freshUnknown
  | unexpectedVariableUsage
  | loopBodyOwnsOuter
  deriving DecidableEq

/-- What the pass knows about a node.  `tryOwned` is not an annotation of the
source: it records the variables that the body of a `:try` was made to own. -/
structure Memory (Name : Type) where
  fresh : Finset Name
  dropMemory : Name → Int
  unwindMemory : Name → Int
  allCatchesOwned : Finset Name
  tryOwned : Finset Name

variable [DecidableEq Name]

/-- The same amount for each of some names. -/
def amounts (amount : Int) (names : Finset Name) (name : Name) : Int :=
  if name ∈ names then amount else 0

namespace Memory

/-- A node before the pass. -/
def start (fresh : Finset Name) : Memory Name :=
  ⟨fresh, fun _ => 0, fun _ => 0, ∅, ∅⟩

/-- `update-drop-memory` on `:drop-memory`. -/
def addDrop (change : Name → Int) (memory : Memory Name) : Memory Name :=
  { memory with dropMemory := fun name => memory.dropMemory name + change name }

/-- `drop-vars`. -/
def dropVars (names : Finset Name) (memory : Memory Name) : Memory Name :=
  memory.addDrop (amounts (-1) names)

/-- `dup-vars`. -/
def dupVars (names : Finset Name) (memory : Memory Name) : Memory Name :=
  memory.addDrop (amounts 1 names)

/-- `set-unwind`. -/
def setUnwind (names : Finset Name) (memory : Memory Name) : Memory Name :=
  { memory with
    unwindMemory :=
      fun name => memory.unwindMemory name + amounts (-1) names name }

end Memory

/-- An assertion. -/
def require (condition : Prop) [Decidable condition] (violation : Violation) :
    Except Violation Unit :=
  if condition then .ok () else .error violation

/-- The assertions made before every call of the pass. -/
def dispatch (fresh borrowed owned unwindOwned : Finset Name) :
    Except Violation Unit := do
  require (borrowed ∩ owned = ∅) .borrowedMeetsOwned
  require (owned ⊆ fresh) .ownedNotFresh
  require (unwindOwned ⊆ borrowed ∪ owned) .unwindOwnedUnknown
  require (fresh ⊆ borrowed ∪ owned) .freshUnknown

/-- `variable-usage`. -/
def variableUsage
    (memory : Memory Name)
    (owned : Finset Name)
    (name : Name) : Except Violation (Memory Name) :=
  if owned = {name} then .ok memory
  else if owned = ∅ then .ok (memory.dupVars {name})
  else .error .unexpectedVariableUsage

/-! ## Sharing out what an application owns -/

/-- `owned-n` of `application-usage`, built from the end: every node gets what
the nodes after it left over, as far as it is fresh there. -/
def ownedN (owned : Finset Name) : List (Finset Name) → List
    (Finset Name) × Finset Name
  | [] => ([], owned)
  | freshI :: rest =>
      let (later, ownedDiff) := ownedN owned rest
      let ownedDiff := ownedDiff \ later.headD ∅
      ((ownedDiff ∩ freshI) :: later, ownedDiff)

/-- `borrowed-n` of `application-usage`: every node borrows what the nodes after
it own. -/
def borrowedN (borrowed : Finset Name) : List (Finset Name) → List (Finset Name)
  | [] => []
  | [_] => [borrowed]
  | _ :: ownedNext :: rest =>
      let later := borrowedN borrowed (ownedNext :: rest)
      (later.headD ∅ ∪ ownedNext) :: later

/-- What each node of an application borrows and owns. -/
def applicationContexts
    (borrowed owned : Finset Name)
    (fresh : List (Finset Name)) : List (Finset Name × Finset Name) :=
  let shares := (ownedN owned fresh).1
  (borrowedN borrowed shares).zip shares

/-- What the catch clauses own together, as far as the `:finally` does not. -/
def Catches.owned (owned finallyOwned : Finset Name) :
    Catches Name (Finset Name) → Finset Name
  | .nil => ∅
  | .cons fresh _ _ rest =>
      ((fresh ∩ owned) \ finallyOwned) ∪ rest.owned owned finallyOwned

/-- The operations with bindings. -/
inductive BindingsOp
  | letOp
  | letfnOp
  | loopOp
  deriving DecidableEq

/-! ## The pass -/

mutual

/-- `-memory-management-pass`. -/
def memoryManagementPass :
    Node Name (Finset Name) → (borrowed owned unwindOwned : Finset Name) →
      Except Violation (Node Name (Memory Name))
  | .localVar fresh name, borrowed, owned, unwindOwned => do
      dispatch fresh borrowed owned unwindOwned
      let memory ← variableUsage (.start fresh) owned name
      return .localVar (memory.setUnwind unwindOwned) name
  | .plain fresh op child, borrowed, owned, unwindOwned => do
      dispatch fresh borrowed owned unwindOwned
      let child ← childMemoryManagementPass child borrowed owned unwindOwned
      return .plain ((Memory.start fresh).setUnwind unwindOwned) op child
  | .application fresh op children, borrowed, owned, unwindOwned => do
      dispatch fresh borrowed owned unwindOwned
      let (children, restUnwindOwned) ← applicationUsage children
        (applicationContexts borrowed owned children.anns) unwindOwned
      return .application ((Memory.start fresh).setUnwind restUnwindOwned) op
        children
  | .fn fresh self methods, borrowed, owned, unwindOwned => do
      dispatch fresh borrowed owned unwindOwned
      let updatedMethods ← fnMethodMemoryManagementPass ∅ methods
      let fnUsedLocals := withoutSelf self (methods.fresh \ owned)
      return .fn ((((Memory.start fresh).dupVars fnUsedLocals).setUnwind
        unwindOwned).setUnwind fnUsedLocals) self updatedMethods
  | .reify fresh methods, borrowed, owned, unwindOwned => do
      dispatch fresh borrowed owned unwindOwned
      let updatedMethods ← fnMethodMemoryManagementPass ∅ methods
      let fnUsedLocals := methods.fresh \ owned
      return .reify ((((Memory.start fresh).dupVars fnUsedLocals).setUnwind
        unwindOwned).setUnwind fnUsedLocals) updatedMethods
  | .deftype fresh fields methods, borrowed, owned, unwindOwned => do
      dispatch fresh borrowed owned unwindOwned
      let updatedMethods ← fnMethodMemoryManagementPass fields.toFinset methods
      return .deftype (.start fresh) fields updatedMethods
  | .letForm fresh kind scope, borrowed, owned, unwindOwned => do
      dispatch fresh borrowed owned unwindOwned
      match kind with
      | .plainLet =>
          let scope ← nodeWithBindingsMemoryManagementPass .letOp scope ∅
            borrowed owned unwindOwned
          return .letForm (.start fresh) kind scope
      | .loopLet =>
          -- The source drops these before the pass visits the body; amounts add up.
          let loopBody := scope.firstInit.bind Node.loopBody
          let ownedByLoopBody := owned ∩ loopBody.elim ∅ Node.ann
          let scope ← nodeWithBindingsMemoryManagementPass .letOp scope ∅
            (borrowed ∪ ownedByLoopBody) (owned \ ownedByLoopBody) unwindOwned
          return .letForm (.start fresh) kind
            (scope.modifyBody (Memory.dropVars ownedByLoopBody))
      | .letfn =>
          let fnNames := scope.names.toFinset
          let scope ← nodeWithBindingsMemoryManagementPass .letfnOp scope ∅
            (borrowed ∪ fnNames) (owned \ fnNames) unwindOwned
          return .letForm (.start fresh) kind scope
  | .loop fresh scope, borrowed, owned, unwindOwned => do
      dispatch fresh borrowed owned unwindOwned
      let scope ← nodeWithBindingsMemoryManagementPass .loopOp scope ∅
        borrowed owned unwindOwned
      return .loop (.start fresh) scope
  | .tryForm fresh body catches finalizer, borrowed, owned, unwindOwned => do
      dispatch fresh borrowed owned unwindOwned
      let finallyOwned := owned ∩ finalizer.fresh
      let allCatchesOwned := catches.owned owned finallyOwned
      let tryOwned := (owned ∩ body.ann) \ (finallyOwned ∪ allCatchesOwned)
      let allCatchesUnwindOwned := unwindOwned \ tryOwned
      let tryBorrowed := borrowed ∪ (owned \ tryOwned)
      let body ← memoryManagementPass body tryBorrowed tryOwned ∅
      let catches ← catchMemoryManagementPass catches owned finallyOwned
        allCatchesOwned tryBorrowed allCatchesUnwindOwned
      let finallyUnwindOwned := allCatchesUnwindOwned \ allCatchesOwned
      let finalizer ← childMemoryManagementPass finalizer borrowed finallyOwned
        finallyUnwindOwned
      return .tryForm
        { (Memory.start fresh).setUnwind unwindOwned with
          allCatchesOwned := allCatchesOwned
          tryOwned := tryOwned }
        body catches finalizer
  | .ifForm fresh test thenBranch elseBranch, borrowed, owned, unwindOwned => do
      dispatch fresh borrowed owned unwindOwned
      let ownedInThen := owned ∩ thenBranch.ann
      let ownedInElse := owned ∩ elseBranch.ann
      let ownedInBranches := ownedInThen ∪ ownedInElse
      let ownedInCondition := owned \ ownedInBranches
      let test ← memoryManagementPass test (borrowed ∪ ownedInBranches)
        ownedInCondition unwindOwned
      let unwindOwnedInBranches := unwindOwned \ ownedInCondition
      let disownedInThen := ownedInBranches \ ownedInThen
      let disownedInElse := ownedInBranches \ ownedInElse
      let thenBranch ← memoryManagementPass thenBranch borrowed ownedInThen
        (unwindOwnedInBranches \ disownedInThen)
      let elseBranch ← memoryManagementPass elseBranch borrowed ownedInElse
        (unwindOwnedInBranches \ disownedInElse)
      return .ifForm ((Memory.start fresh).setUnwind unwindOwned) test
        (thenBranch.modify (Memory.dropVars disownedInThen))
        (elseBranch.modify (Memory.dropVars disownedInElse))
  | .caseForm fresh test thens default, borrowed, owned, unwindOwned => do
      dispatch fresh borrowed owned unwindOwned
      let thens ← branchesMemoryManagementPass thens borrowed owned unwindOwned
      let default ← defaultMemoryManagementPass default borrowed owned
        unwindOwned
      return .caseForm ((Memory.start fresh).setUnwind unwindOwned) test
        thens default

/-- The reduction of `application-usage`: the nodes are visited in order, and
what a node owns is no longer unwound by the later ones.  Returns what the
application itself unwinds. -/
def applicationUsage :
    Nodes Name (Finset Name) → List (Finset Name × Finset Name) → Finset Name →
      Except Violation (Nodes Name (Memory Name) × Finset Name)
  | .cons head tail, (borrowed, owned) :: contexts, unwindOwned => do
      let head ← memoryManagementPass head borrowed owned unwindOwned
      let (tail, restUnwindOwned) ← applicationUsage tail contexts
        (unwindOwned \ owned)
      return (.cons head tail, restUnwindOwned)
  | _, _, unwindOwned => return (.nil, unwindOwned)

/-- The pass on an optional child. -/
def childMemoryManagementPass :
    Child Name (Finset Name) → (borrowed owned unwindOwned : Finset Name) →
      Except Violation (Child Name (Memory Name))
  | .absent, _, _, _ => return .absent
  | .present node, borrowed, owned, unwindOwned => do
      let node ← memoryManagementPass node borrowed owned unwindOwned
      return .present node

/-- The branches of a `:case`: each drops what only the others use. -/
def branchesMemoryManagementPass :
    Nodes Name (Finset Name) → (borrowed owned unwindOwned : Finset Name) →
      Except Violation (Nodes Name (Memory Name))
  | .nil, _, _, _ => return .nil
  | .cons head tail, borrowed, owned, unwindOwned => do
      let ownedInBranch := owned ∩ head.ann
      let disownedInBranch := owned \ ownedInBranch
      let head ← memoryManagementPass head borrowed ownedInBranch
        (unwindOwned \ disownedInBranch)
      let tail ← branchesMemoryManagementPass tail borrowed owned unwindOwned
      return .cons (head.modify (Memory.dropVars disownedInBranch)) tail

/-- The default branch of a `:case`, treated as the other branches. -/
def defaultMemoryManagementPass :
    Child Name (Finset Name) → (borrowed owned unwindOwned : Finset Name) →
      Except Violation (Child Name (Memory Name))
  | .absent, _, _, _ => return .absent
  | .present node, borrowed, owned, unwindOwned => do
      let ownedInBranch := owned ∩ node.ann
      let disownedInBranch := owned \ ownedInBranch
      let node ← memoryManagementPass node borrowed ownedInBranch
        (unwindOwned \ disownedInBranch)
      return .present (node.modify (Memory.dropVars disownedInBranch))

/-- `fn-method-memory-management-pass`, on each method. -/
def fnMethodMemoryManagementPass (recordFields : Finset Name) :
    Methods Name (Finset Name) → Except Violation (Methods Name (Memory Name))
  | .nil => return .nil
  | .cons fnFresh this params loopId body rest => do
      let args := methodArgs this params
      let used := args ∩ body.ann
      let recordFieldsUsed := recordFields ∩ body.ann
      let unused := args \ used
      let recordFieldsUnused := recordFields \ recordFieldsUsed
      let body ← memoryManagementPass body ∅
        (fnFresh ∪ used ∪ recordFieldsUsed) used
      let rest ← fnMethodMemoryManagementPass recordFields rest
      return .cons (.start fnFresh) this params loopId
        (body.modify fun memory =>
          ((memory.dropVars unused).dropVars recordFieldsUnused).dupVars
          fnFresh)
        rest

/-- `node-with-bindings-memory-management-pass`. -/
def nodeWithBindingsMemoryManagementPass (op : BindingsOp) :
    Scope Name (Finset Name) →
      (boundByThis borrowed owned unwindOwned : Finset Name) →
      Except Violation (Scope Name (Memory Name))
  | .body node, boundByThis, borrowed, owned, unwindOwned => do
      match op with
      | .letOp =>
          return .body (← memoryManagementPass node borrowed owned unwindOwned)
      | .loopOp =>
          require (owned ⊆ boundByThis) .loopBodyOwnsOuter
          return .body (← memoryManagementPass node borrowed owned unwindOwned)
      | .letfnOp =>
          let fnUsed := boundByThis ∩ node.ann
          let fnUnused := boundByThis \ fnUsed
          let node ← memoryManagementPass node (borrowed \ boundByThis)
            (owned ∪ fnUsed) (unwindOwned \ fnUnused)
          return .body (node.modify (Memory.dropVars fnUnused))
  | .bind fresh name init rest, boundByThis, borrowed, owned, unwindOwned => do
      let remainderFresh := rest.ann
      let remainderOwned := owned ∩ remainderFresh.erase name
      let remainderUnwindOwned := unwindOwned ∩ (borrowed ∪ remainderOwned)
      let init ← memoryManagementPass init (borrowed ∪ remainderOwned)
        (owned \ remainderOwned) unwindOwned
      let rest ← nodeWithBindingsMemoryManagementPass op rest
        (boundByThis ∪ {name}) borrowed (if name ∈ remainderFresh ∧
          op ≠ .letfnOp then insert name remainderOwned
          else remainderOwned)
        (if name ∈ remainderFresh then insert name remainderUnwindOwned
          else remainderUnwindOwned)
      return .bind (.start fresh) name init
        (if name ∈ remainderFresh ∨ op = .letfnOp then rest
          else rest.modify (Memory.dropVars {name}))

/-- `-memory-management-pass` on the `:catch` clauses of a `:try`, each dropping
what only the other clauses use. -/
def catchMemoryManagementPass :
    Catches Name (Finset Name) →
      (owned finallyOwned allCatchesOwned tryBorrowed allCatchesUnwindOwned :
        Finset Name) →
      Except Violation (Catches Name (Memory Name))
  | .nil, _, _, _, _, _ => return .nil
  | .cons fresh name body rest, owned, finallyOwned, allCatchesOwned,
  tryBorrowed,
      allCatchesUnwindOwned => do
      let catchOwned := (fresh ∩ owned) \ finallyOwned
      let catchDisowned := allCatchesOwned \ catchOwned
      let catchBorrowed := tryBorrowed \ catchOwned
      let catchUnwindOwned := allCatchesUnwindOwned \ catchDisowned
      dispatch fresh catchBorrowed catchOwned catchUnwindOwned
      let exceptionUsed := name ∈ body.ann
      let bodyOwned := catchOwned ∩ body.ann
      let body ← memoryManagementPass body catchBorrowed
        (if exceptionUsed then insert name bodyOwned else bodyOwned)
        (if exceptionUsed then insert name
          catchUnwindOwned else catchUnwindOwned)
      let rest ← catchMemoryManagementPass rest owned finallyOwned
        allCatchesOwned tryBorrowed allCatchesUnwindOwned
      return .cons ((Memory.start fresh).dropVars catchDisowned) name
        (if exceptionUsed then body else body.modify (Memory.dropVars {name}))
        rest

end

/-! ## Running the pass -/

/-! ## Shares of an application -/

/-- Union of a list of sets. -/
def unionAll (sets : List (Finset Name)) : Finset Name :=
  sets.foldr (· ∪ ·) ∅

@[simp]
theorem unionAll_nil : unionAll ([] : List (Finset Name)) = ∅ :=
  rfl

@[simp]
theorem unionAll_cons (first : Finset Name) (rest : List (Finset Name)) :
    unionAll (first :: rest) = first ∪ unionAll rest :=
  rfl

theorem unionAll_anns (nodes : Nodes Name (Finset Name)) :
    unionAll nodes.anns = nodes.fresh := by
  match nodes with
  | .nil => rfl
  | .cons head tail =>
      rw [Nodes.anns, unionAll_cons, unionAll_anns tail, Nodes.fresh]

/-- What is left over for the nodes before a list. -/
theorem ownedN_diff (owned : Finset Name) (fresh : List (Finset Name)) :
    (ownedN owned fresh).2 \ (ownedN owned fresh).1.headD ∅ =
    owned \ unionAll fresh := by
  induction fresh with
  | nil => simp [ownedN]
  | cons freshI rest inductionHypothesis =>
      simp only [ownedN, List.headD_cons, inductionHypothesis, unionAll_cons]
      grind

theorem ownedN_cons (owned freshI : Finset Name) (rest : List (Finset Name)) :
    (ownedN owned (freshI :: rest)).1 =
      ((owned ∩ freshI) \ unionAll rest) :: (ownedN owned rest).1 := by
  have left := ownedN_diff owned rest
  simp only [ownedN, left, List.cons.injEq, and_true]
  grind

theorem borrowedN_ownedN_headD (borrowed owned freshI : Finset Name)
    (rest : List (Finset Name)) :
    (borrowedN borrowed (ownedN owned (freshI :: rest)).1).headD ∅ =
      borrowed ∪ (owned ∩ unionAll rest) := by
  induction rest generalizing freshI with
  | nil => simp [ownedN, borrowedN]
  | cons next rest inductionHypothesis =>
      have later := inductionHypothesis next
      rw [ownedN_cons] at later
      rw [ownedN_cons, ownedN_cons]
      simp only [borrowedN, List.headD_cons, later, unionAll_cons]
      grind

/-- The first node of an application owns what no later node needs, and borrows
what the later nodes own. -/
theorem applicationContexts_cons (borrowed owned freshI : Finset Name)
    (rest : List (Finset Name)) :
    applicationContexts borrowed owned (freshI :: rest) =
      (borrowed ∪ (owned ∩ unionAll rest), (owned ∩ freshI) \ unionAll rest) ::
        applicationContexts borrowed owned rest := by
  have head := borrowedN_ownedN_headD borrowed owned freshI rest
  cases rest with
  | nil => simp [applicationContexts, ownedN, borrowedN]
  | cons next rest =>
      rw [ownedN_cons, ownedN_cons] at head
      simp only [applicationContexts, ownedN_cons]
      simp only [borrowedN, List.headD_cons] at head ⊢
      rw [head]
      rfl

/-! ## Shares of catch clauses -/

/-- Together the clauses own what is owned, free in one of them and not left to
the `:finally`. -/
theorem catches_owned (owned finallyOwned : Finset Name)
    (catches : Catches Name (Finset Name)) :
    catches.owned owned finallyOwned = (owned ∩ catches.fresh) \
      finallyOwned := by
  match catches with
  | .nil => simp [Catches.owned, Catches.fresh]
  | .cons here name body rest =>
      rw [Catches.owned, Catches.fresh, catches_owned owned finallyOwned rest]
      grind

end Frontend
end ClojureRt
