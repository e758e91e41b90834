import ClojureRt.Codegen.ObjectTypeSet

/-!
# Branches chosen by the compiler

`codegen` of an `IfNode` compiles one branch only where the type set of the test
decides the test, and `getType` then describes the whole form by that branch.
Both rest on type sets that went through `expansion`, which keeps the constant
of the `then` branch when the `else` branch can return anything.

Where both branches are compiled, the type set that `codegen` finds for the test
decides what is branched on, and a single type other than boolean makes that the
constant true. That set is another one than that of `getType`: it decides more
tests, and `removeConst` drops the flag for any type.

Forms are read with the type restriction `ObjectTypeSet::all()`, the only one
that the code generator starts from.  Emitted code that LLVM refuses is not told
apart.
-/

namespace ClojureRt
namespace Codegen

variable {Name : Type}

/-- The forms around conditionals.  A literal has a constant, `construct` stands
for the vectors, maps, vars and functions that have a type and no constant, and
the result of `invoke` is unknown.  `absent` is the else branch that an `:if`
may lack. -/
inductive Form (Name : Type)
  | literal (known : Constant) (isBoxed : Bool)
  | construct (type : ObjectType)
  | localVar (name : Name)
  | invoke
  | absent
  | ifForm
      (test : Form Name)
      (thenForm : Form Name)
      (elseForm : Form Name)

/-! ## Meaning at run time -/

/-- The values a form can return when its bindings hold the given values. -/
inductive Returns (values : Name → Value) : Form Name → Value → Prop
  | literal (known : Constant) (isBoxed : Bool) :
      Returns values (.literal known isBoxed) (.constant known)
  | construct
      (type : ObjectType)
      (value : Value)
      (typed : value.type = type) :
      Returns values (.construct type) value
  | localVar (name : Name) :
      Returns values (.localVar name) (values name)
  | invoke (value : Value) :
      Returns values .invoke value
  | absent :
      Returns values .absent (.constant .nil)
  | thenTaken
      {test thenForm elseForm : Form Name}
      {tested value : Value}
      (returnsTest : Returns values test tested)
      (truthy : tested.isTruthy = true)
      (returnsThen : Returns values thenForm value) :
      Returns values (.ifForm test thenForm elseForm) value
  | elseTaken
      {test thenForm elseForm : Form Name}
      {tested value : Value}
      (returnsTest : Returns values test tested)
      (falsy : tested.isTruthy = false)
      (returnsElse : Returns values elseForm value) :
      Returns values (.ifForm test thenForm elseForm) value

/-! ## The code generator -/

/-- The exceptions of the code generator. -/
inductive CodeGenerationError (Name : Type)
  /-- `Unknown variable: `. -/
  | unknownVariable (name : Name)
  /-- `Incorrect type: 'then' branch of if cannot fulfil type restrictions:
  `. -/
  | thenCannotFulfil (restrictions : ObjectTypeSet)
  /-- `Incorrect type: 'else' branch of if cannot fulfil type restrictions:
  `. -/
  | elseCannotFulfil (restrictions : ObjectTypeSet)
  /-- `'then' branch of if expression contains a value that does not match
  allowed   types: `. -/
  | thenDoesNotMatch (restrictions : ObjectTypeSet)
  /-- `'else' branch of if expression contains a value that does not match
  allowed   types: `. -/
  | elseDoesNotMatch (restrictions : ObjectTypeSet)
  /-- `Both branches of if cannot fulfil restrictions: `. -/
  | bothCannotFulfil (restrictions : ObjectTypeSet)
  /-- `This type of constant cannot be inserted because of type mismatch:  `. -/
  | constantMismatch (restrictions : ObjectTypeSet)

/-- What `getType` of an `IfNode` makes of the type sets of its parts. -/
def ifType
    (restrictions testType thenType elseType : ObjectTypeSet) :
    Except (CodeGenerationError Name) ObjectTypeSet :=
  if !testType.contains .nilType && !testType.contains .booleanType then
    if thenType.isEmpty then .error (.thenCannotFulfil restrictions)
    else .ok thenType
  else if testType.isDeterminedAs .nilType then
    if elseType.isEmpty then .error (.elseCannotFulfil restrictions)
    else .ok elseType
  else if testType.isDeterminedAs .booleanType then
    match testType.constant with
    | some (.boolean true) => .ok thenType
    | some (.boolean false) => .ok elseType
    | _ => .ok (thenType.expansion elseType)
  else
    .ok (thenType.expansion elseType)

/-- `getType`. -/
def getType (bindings : Name → Option ObjectTypeSet) :
    ObjectTypeSet → Form Name → Except (CodeGenerationError Name) ObjectTypeSet
  | restrictions, .literal known isBoxed =>
      .ok ((ObjectTypeSet.ofConstant known isBoxed).restriction restrictions)
  | restrictions, .construct type =>
      .ok ((ObjectTypeSet.ofType type false none).restriction restrictions)
  | _, .localVar name =>
      match bindings name with
      | some types => .ok types
      | none => .error (.unknownVariable name)
  | restrictions, .invoke =>
      .ok (ObjectTypeSet.dynamicType.restriction restrictions)
  | _, .absent => .ok (ObjectTypeSet.ofType .nilType false none)
  | restrictions, .ifForm test thenForm elseForm => do
      let testType ← getType bindings .all test
      let thenType ← getType bindings restrictions thenForm
      let elseType ← getType bindings restrictions elseForm
      ifType restrictions testType (thenType.restriction restrictions)
        (elseType.restriction restrictions)

/-- What both branches are chosen by: the truth of the value, the value itself,
or nothing. -/
inductive Condition
  | truthy
  | ownValue
  | always
  deriving DecidableEq

/-- `condValue` of a test with a type set. -/
def conditionOf (tested : ObjectTypeSet) : Condition :=
  if !tested.isDetermined then .truthy
  else if tested.isDeterminedAs .booleanType then .ownValue
  else .always

/-- The branches that are compiled. -/
inductive Compiled
  | thenOnly
  | elseOnly
  | both (condition : Condition)
  deriving DecidableEq

/-- The branches that `codegen` of an `IfNode` compiles for the type sets of its
parts.  The test is compiled in all cases, and after the branch was found empty
or before. -/
def compiledBranches
    (restrictions testType thenType elseType : ObjectTypeSet)
    (test : Except (CodeGenerationError Name) ObjectTypeSet) :
    Except (CodeGenerationError Name) Compiled :=
  if !testType.contains .nilType && !testType.contains .booleanType &&
      !testType.isEmpty then
    if thenType.isEmpty then .error (.thenCannotFulfil restrictions)
    else test.map fun _ => .thenOnly
  else if testType.isDeterminedAs .nilType then
    if elseType.isEmpty then .error (.elseCannotFulfil restrictions)
    else test.map fun _ => .elseOnly
  else
    test.bind fun tested =>
      match testType.constant with
      | some (.boolean true) =>
          if thenType.isEmpty then .error (.thenDoesNotMatch restrictions)
          else .ok .thenOnly
      | some (.boolean false) =>
          if elseType.isEmpty then .error (.elseDoesNotMatch restrictions)
          else .ok .elseOnly
      | _ => .ok (.both (conditionOf tested))

/-- The decision of `codegen` of an `IfNode`, given what it finds for the
test. -/
def decideBranches
    (bindings : Name → Option ObjectTypeSet)
    (restrictions : ObjectTypeSet)
    (test thenForm elseForm : Form Name)
    (tested : Except (CodeGenerationError Name) ObjectTypeSet) :
    Except (CodeGenerationError Name) Compiled := do
  let testType ← getType bindings .all test
  let thenType ← getType bindings restrictions thenForm
  let elseType ← getType bindings restrictions elseForm
  compiledBranches restrictions testType (thenType.restriction restrictions)
    (elseType.restriction restrictions) tested

/-- What is emitted for a branch where both are compiled: nothing if it has no
type. -/
def emittedType
    (types : ObjectTypeSet)
    (compiled : Except (CodeGenerationError Name) ObjectTypeSet) :
    Except (CodeGenerationError Name) ObjectTypeSet :=
  if types.isEmpty then .ok types else compiled

/-- The type set of an `:if` both of whose branches are compiled. -/
def mergedType
    (restrictions thenType elseType : ObjectTypeSet) :
    Except (CodeGenerationError Name) ObjectTypeSet :=
  if !elseType.isEmpty && !thenType.isEmpty then
    if elseType.sameTypes thenType then .ok elseType.removeConst
    else .ok ((ObjectTypeSet.empty.expansion elseType.boxed).expansion
      thenType.boxed)
  else if elseType.isEmpty && thenType.isEmpty then .error
    (.bothCannotFulfil restrictions)
  else if elseType.isEmpty then .ok thenType
  else .ok elseType

/-- `codegen`, as far as the type sets of what it gives go. -/
def Form.codegen (bindings : Name → Option ObjectTypeSet) :
    ObjectTypeSet → Form Name → Except (CodeGenerationError Name) ObjectTypeSet
  | restrictions, .literal known isBoxed =>
      -- `createNil` alone makes a boxed value
      if ((ObjectTypeSet.ofConstant known isBoxed).restriction
        restrictions).internal = ∅ then
        .error (.constantMismatch restrictions)
      else .ok (ObjectTypeSet.ofConstant known (decide (known = .nil)))
  | _, .construct type => .ok (ObjectTypeSet.ofType type false none)
  | _, .localVar name =>
      match bindings name with
      | some types => .ok types
      | none => .error (.unknownVariable name)
  | restrictions, .invoke =>
      .ok (ObjectTypeSet.dynamicType.restriction restrictions)
  | _, .absent => .ok (ObjectTypeSet.ofType .nilType false none)
  | restrictions, .ifForm test thenForm elseForm => do
      let compiled ←
        decideBranches bindings restrictions test thenForm elseForm
          (Form.codegen bindings .all test)
      match compiled with
      | .thenOnly => Form.codegen bindings restrictions thenForm
      | .elseOnly => Form.codegen bindings restrictions elseForm
      | .both _ =>
          let thenType ← getType bindings restrictions thenForm
          let thenWithType ← emittedType (thenType.restriction restrictions)
            (Form.codegen bindings restrictions thenForm)
          let elseType ← getType bindings restrictions elseForm
          let elseWithType ← emittedType (elseType.restriction restrictions)
            (Form.codegen bindings restrictions elseForm)
          mergedType restrictions thenWithType elseWithType

/-- The decision of `codegen` of an `IfNode`. -/
def codegenIf
    (bindings : Name → Option ObjectTypeSet)
    (restrictions : ObjectTypeSet)
    (test thenForm elseForm : Form Name) :
    Except (CodeGenerationError Name) Compiled :=
  decideBranches bindings restrictions test thenForm elseForm
    (Form.codegen bindings .all test)

/-! ## What the compiler's choice has to respect -/

/-- The bindings hold values that their type sets describe. -/
def Fits (bindings : Name → Option ObjectTypeSet)
    (values : Name → Value) : Prop :=
  ∀ name types, bindings name = some types → types.Describes (values name)

/-- The type set of a form describes every value the form can return. -/
def TypeSound (bindings : Name → Option ObjectTypeSet)
    (form : Form Name) : Prop :=
  ∀ types, getType bindings .all form = .ok types →
    ∀ values, Fits bindings values →
      ∀ value, Returns values form value → types.Describes value

/-- Where one branch is compiled alone, or nothing is branched on, the test
always selects that branch. -/
def EliminationSound
    (bindings : Name → Option ObjectTypeSet)
    (test thenForm elseForm : Form Name) : Prop :=
  ∀ compiled, codegenIf bindings .all test thenForm elseForm = .ok compiled →
    ∀ values, Fits bindings values →
      ∀ tested, Returns values test tested →
        (compiled = .thenOnly ∨ compiled = .both .always →
          tested.isTruthy = true) ∧
          (compiled = .elseOnly → tested.isTruthy = false)

/-- A property of every `:if` within a form, the form itself included. -/
def EveryIf
    (property : Form Name → Form Name → Form Name → Prop) : Form Name → Prop
  | .ifForm test thenForm elseForm =>
      property test thenForm elseForm ∧ EveryIf property test ∧
        EveryIf property thenForm ∧ EveryIf property elseForm
  | _ => True

/-- Compile-time decisions preserve the meaning of every `:if` within a form. -/
def PreservesMeaning (bindings : Name → Option ObjectTypeSet)
    (form : Form Name) : Prop :=
  EveryIf
    (fun test thenForm elseForm =>
      EliminationSound bindings test thenForm elseForm ∧
        TypeSound bindings (.ifForm test thenForm elseForm))
    form

/-- The test is decided by its type set. -/
def isDecided (testType : ObjectTypeSet) : Bool :=
  (!testType.contains .nilType && !testType.contains .booleanType) ||
    testType.isDeterminedAs .nilType ||
    (testType.isDeterminedAs .booleanType &&
      (decide (testType.constant = some (.boolean true)) ||
        decide (testType.constant = some (.boolean false))))

/-- An `:if` whose test is open, whose then branch is a known constant and whose
else branch is of any type: where the test fails, the else branch returns that
constant. -/
def JoinsHarmlessly
    (bindings : Name → Option ObjectTypeSet)
    (test thenForm elseForm : Form Name) : Prop :=
  ∀ testType thenType elseType known,
    getType bindings .all test = .ok testType →
    getType bindings .all thenForm = .ok thenType →
    getType bindings .all elseForm = .ok elseType →
    isDecided testType = false →
    thenType.constant = some known →
    elseType.allTypes = true →
    ∀ values, Fits bindings values →
      ∀ tested value, Returns values test tested → tested.isTruthy = false →
        Returns values elseForm value → value = .constant known

/-- The values that a form returns by way of an `:if` whose type set is that of
both branches without the flag for any type, though theirs have it: what only
the flag allowed for. -/
inductive Forgotten
    (bindings : Name → Option ObjectTypeSet)
    (values : Name → Value) : Form Name → Value → Prop
  | here
      {test thenForm elseForm : Form Name}
      {condition : Condition}
      {thenType elseType : ObjectTypeSet}
      {value : Value}
      (isOpen : codegenIf bindings .all test thenForm elseForm =
        .ok (.both condition))
      (thenCompiled : Form.codegen bindings .all thenForm = .ok thenType)
      (elseCompiled : Form.codegen bindings .all elseForm = .ok elseType)
      (same : elseType.sameTypes thenType = true)
      (any : elseType.allTypes = true)
      (returns : Returns values (.ifForm test thenForm elseForm) value)
      (unnamed : value.type ∉ elseType.internal) :
      Forgotten bindings values (.ifForm test thenForm elseForm) value
  | inThen
      {test thenForm elseForm : Form Name}
      {tested value : Value}
      (returnsTest : Returns values test tested)
      (truthy : tested.isTruthy = true)
      (forgotten : Forgotten bindings values thenForm value) :
      Forgotten bindings values (.ifForm test thenForm elseForm) value
  | inElse
      {test thenForm elseForm : Form Name}
      {tested value : Value}
      (returnsTest : Returns values test tested)
      (falsy : tested.isTruthy = false)
      (forgotten : Forgotten bindings values elseForm value) :
      Forgotten bindings values (.ifForm test thenForm elseForm) value

/-- An `:if` that branches on nothing since `codegen` finds one type for the
test, which is not boolean: that type is not nil, unless the test never returns
nil, and nothing falsy was forgotten. -/
def AlwaysHarmlessly
    (bindings : Name → Option ObjectTypeSet)
    (test thenForm elseForm : Form Name) : Prop :=
  ∀ tested,
    codegenIf bindings .all test thenForm elseForm = .ok (.both .always) →
    Form.codegen bindings .all test = .ok tested →
    ∀ values, Fits bindings values →
      (tested.isDeterminedAs .nilType = true →
        ¬ Returns values test (.constant .nil)) ∧
        ∀ value, Forgotten bindings values test value → value.isTruthy = true

/-- The condition on one `:if`. -/
def DecidesHarmlessly
    (bindings : Name → Option ObjectTypeSet)
    (test thenForm elseForm : Form Name) : Prop :=
  JoinsHarmlessly bindings test thenForm elseForm ∧
    AlwaysHarmlessly bindings test thenForm elseForm

/-! ## Reading the two functions -/

theorem describes_truthy
    {testType : ObjectTypeSet}
    {tested : Value}
    (described : testType.Describes tested)
    (notNil : testType.contains .nilType = false)
    (notBoolean : testType.contains .booleanType = false) :
    tested.isTruthy = true := by
  apply Value.isTruthy_of_type
  · intro isNil
    rw [← isNil, described.1] at notNil
    exact Bool.noConfusion notNil
  · intro isBoolean
    rw [← isBoolean, described.1] at notBoolean
    exact Bool.noConfusion notBoolean

theorem describes_nil_falsy
    {testType : ObjectTypeSet}
    {tested : Value}
    (described : testType.Describes tested)
    (isNil : testType.isDeterminedAs .nilType = true) :
    tested.isTruthy = false := by
  rw [Value.eq_nil_of_type (described.type_eq isNil)]
  rfl

theorem describes_boolean
    {testType : ObjectTypeSet}
    {tested : Value}
    {chosen : Bool}
    (described : testType.Describes tested)
    (isConstant : testType.constant = some (.boolean chosen)) :
    tested.isTruthy = chosen := by
  rw [described.2 _ isConstant]
  rfl

/-- The cases of `ifType`, by what they say about the test. -/
theorem ifType_cases
    {restrictions testType thenType elseType types : ObjectTypeSet}
    (typed :
      (ifType restrictions testType thenType elseType :
        Except (CodeGenerationError Name) ObjectTypeSet) = .ok types) :
    (types = thenType ∧
        ∀ tested, testType.Describes tested → tested.isTruthy = true) ∨
      (types = elseType ∧
        ∀ tested, testType.Describes tested → tested.isTruthy = false) ∨
      (types = thenType.expansion elseType ∧ isDecided testType = false) := by
  unfold ifType at typed
  split at typed
  · next neither =>
      simp only [Bool.and_eq_true, Bool.not_eq_true'] at neither
      split at typed
      · cases typed
      · cases typed
        exact .inl ⟨rfl, fun tested described =>
          describes_truthy described neither.1 neither.2⟩
  · split at typed
    · next isNil =>
        split at typed
        · cases typed
        · cases typed
          exact .inr (.inl ⟨rfl, fun tested described =>
            describes_nil_falsy described isNil⟩)
    · next notNil =>
        split at typed
        · next isBoolean =>
            split at typed
            · next isTrue =>
                cases typed
                exact .inl ⟨rfl, fun tested described =>
                  describes_boolean described isTrue⟩
            · next isFalse =>
                cases typed
                exact .inr (.inl ⟨rfl, fun tested described =>
                  describes_boolean described isFalse⟩)
            · next notTrue notFalse =>
                cases typed
                refine .inr (.inr ⟨rfl, ?_⟩)
                simp_all [isDecided]
        · next notBoolean =>
            cases typed
            refine .inr (.inr ⟨rfl, ?_⟩)
            simp_all [isDecided]

/-- An open test joins the branches. -/
theorem ifType_of_open
    {restrictions testType thenType elseType : ObjectTypeSet}
    (isOpen : isDecided testType = false) :
    (ifType restrictions testType thenType elseType :
      Except (CodeGenerationError Name) ObjectTypeSet) =
        .ok (thenType.expansion elseType) := by
  simp only [isDecided, Bool.or_eq_false_iff] at isOpen
  obtain ⟨⟨notNeither, notNil⟩, notKnown⟩ := isOpen
  unfold ifType
  rw [notNeither, notNil]
  simp only [Bool.false_eq_true, if_false]
  split
  · next isBoolean =>
      rw [isBoolean] at notKnown
      simp only [Bool.true_and, Bool.or_eq_false_iff,
        decide_eq_false_iff_not] at notKnown
      split
      · next isTrue => exact absurd isTrue notKnown.1
      · next isFalse => exact absurd isFalse notKnown.2
      · rfl
  · rfl

/-- A branch compiled alone is the one that every value of the test selects. -/
theorem compiledBranches_sound
    {restrictions testType thenType elseType : ObjectTypeSet}
    {test : Except (CodeGenerationError Name) ObjectTypeSet}
    {compiled : Compiled}
    (decided :
      compiledBranches restrictions testType thenType elseType test =
        .ok compiled)
    {tested : Value}
    (described : testType.Describes tested) :
    (compiled = .thenOnly → tested.isTruthy = true) ∧
      (compiled = .elseOnly → tested.isTruthy = false) := by
  unfold compiledBranches at decided
  split at decided
  · next neither =>
      simp only [Bool.and_eq_true, Bool.not_eq_true'] at neither
      split at decided
      · cases decided
      · cases test with
        | error exception => cases decided
        | ok =>
            cases decided
            exact ⟨fun _ => describes_truthy described neither.1.1 neither.1.2,
              nofun⟩
  · split at decided
    · next isNil =>
        split at decided
        · cases decided
        · cases test with
          | error exception => cases decided
          | ok =>
              cases decided
              exact ⟨nofun, fun _ => describes_nil_falsy described isNil⟩
    · cases test with
      | error exception => cases decided
      | ok found =>
          dsimp only [Except.bind] at decided
          split at decided
          · next isTrue =>
              split at decided
              · cases decided
              · cases decided
                exact ⟨fun _ => describes_boolean described isTrue, nofun⟩
          · next isFalse =>
              split at decided
              · cases decided
              · cases decided
                exact ⟨nofun, fun _ => describes_boolean described isFalse⟩
          · cases decided
            exact ⟨nofun, nofun⟩

/-- What both branches are chosen by comes from the type set that was found for
the test. -/
theorem compiledBranches_both
    {restrictions testType thenType elseType : ObjectTypeSet}
    {test : Except (CodeGenerationError Name) ObjectTypeSet}
    {condition : Condition}
    (decided :
      compiledBranches restrictions testType thenType elseType test =
        .ok (.both condition)) :
    ∃ tested, test = .ok tested ∧ condition = conditionOf tested := by
  cases test with
  | error exception =>
      simp only [compiledBranches, Except.map, Except.bind] at decided
      split at decided
      · split at decided <;> cases decided
      · split at decided
        · split at decided <;> cases decided
        · cases decided
  | ok tested =>
      refine ⟨tested, rfl, ?_⟩
      simp only [compiledBranches, Except.map, Except.bind] at decided
      split at decided
      · split at decided <;> cases decided
      · split at decided
        · split at decided <;> cases decided
        · split at decided
          · split at decided <;> cases decided
          · split at decided <;> cases decided
          · cases decided
            rfl

/-- Nothing is branched on where one type other than boolean was found. -/
theorem conditionOf_eq_always
    {tested : ObjectTypeSet}
    (always : conditionOf tested = .always) :
    tested.isDetermined = true ∧
      tested.isDeterminedAs .booleanType = false := by
  unfold conditionOf at always
  split at always
  · cases always
  · next determined =>
      split at always
      · cases always
      · next notBoolean =>
          rw [Bool.not_eq_true, Bool.not_eq_false'] at determined
          exact ⟨determined, Bool.eq_false_of_not_eq_true notBoolean⟩

/-- The type set of an `:if` comes from type sets of its parts. -/
theorem getType_ifForm_eq_ok
    {bindings : Name → Option ObjectTypeSet}
    {test thenForm elseForm : Form Name}
    {types : ObjectTypeSet}
    (typed : getType bindings .all (.ifForm test thenForm elseForm) =
      .ok types) :
    ∃ testType thenType elseType,
      getType bindings .all test = .ok testType ∧
        getType bindings .all thenForm = .ok thenType ∧
        getType bindings .all elseForm = .ok elseType ∧
        (ifType .all testType thenType elseType :
          Except (CodeGenerationError Name) ObjectTypeSet) = .ok types := by
  simp only [getType, ObjectTypeSet.restriction_all] at typed
  cases testTyped : getType bindings .all test with
  | error _ => simp [testTyped, bind, Except.bind] at typed
  | ok testType =>
      cases thenTyped : getType bindings .all thenForm with
      | error _ => simp [testTyped, thenTyped, bind, Except.bind] at typed
      | ok thenType =>
          cases elseTyped : getType bindings .all elseForm with
          | error _ =>
              simp [testTyped, thenTyped, elseTyped, bind, Except.bind] at typed
          | ok elseType =>
              simp only [testTyped, thenTyped, elseTyped, bind,
                Except.bind] at typed
              exact ⟨testType, thenType, elseType, rfl, rfl, rfl, typed⟩

/-- The type sets that lead to a decision. -/
theorem codegenIf_eq_ok
    {bindings : Name → Option ObjectTypeSet}
    {test thenForm elseForm : Form Name}
    {compiled : Compiled}
    (decided : codegenIf bindings .all test thenForm elseForm = .ok compiled) :
    ∃ testType thenType elseType,
      getType bindings .all test = .ok testType ∧
        compiledBranches .all testType thenType elseType
          (Form.codegen bindings .all test) =
          .ok compiled := by
  simp only [codegenIf, decideBranches,
    ObjectTypeSet.restriction_all] at decided
  cases testTyped : getType bindings .all test with
  | error _ => simp [testTyped, bind, Except.bind] at decided
  | ok testType =>
      cases thenTyped : getType bindings .all thenForm with
      | error _ => simp [testTyped, thenTyped, bind, Except.bind] at decided
      | ok thenType =>
          cases elseTyped : getType bindings .all elseForm with
          | error _ =>
              simp [testTyped, thenTyped, elseTyped, bind,
                Except.bind] at decided
          | ok elseType =>
              simp only [testTyped, thenTyped, elseTyped, bind,
                Except.bind] at decided
              exact ⟨testType, thenType, elseType, rfl, decided⟩

/-- What is found for a branch, if anything is emitted for it. -/
theorem emittedType_eq_ok
    {types emitted : ObjectTypeSet}
    {compiled : Except (CodeGenerationError Name) ObjectTypeSet}
    (found : emittedType types compiled = .ok emitted) :
    (types.isEmpty = true ∧ emitted = types) ∨ compiled = .ok emitted := by
  unfold emittedType at found
  split at found
  · next isEmpty =>
      cases found
      exact .inl ⟨isEmpty, rfl⟩
  · exact .inr found

/-- What is of any type was emitted. -/
theorem compiled_of_allTypes
    {types emitted : ObjectTypeSet}
    {compiled : Except (CodeGenerationError Name) ObjectTypeSet}
    (found : emittedType types compiled = .ok emitted)
    (any : emitted.allTypes = true) : compiled = .ok emitted := by
  rcases emittedType_eq_ok found with ⟨isEmpty, rfl⟩ | compiles
  · simp [ObjectTypeSet.isEmpty, any] at isEmpty
  · exact compiles

/-- The type set that `codegen` finds for an `:if` is that of the branch
compiled alone, or merged from both. -/
theorem codegen_ifForm_eq_ok
    {bindings : Name → Option ObjectTypeSet}
    {test thenForm elseForm : Form Name}
    {types : ObjectTypeSet}
    (compiles : Form.codegen bindings .all (.ifForm test thenForm elseForm) =
      .ok types) :
    (codegenIf bindings .all test thenForm elseForm = .ok .thenOnly ∧
        Form.codegen bindings .all thenForm = .ok types) ∨
      (codegenIf bindings .all test thenForm elseForm = .ok .elseOnly ∧
        Form.codegen bindings .all elseForm = .ok types) ∨
      ∃ condition thenType elseType thenWithType elseWithType,
        codegenIf bindings .all test thenForm elseForm = .ok (.both condition) ∧
          getType bindings .all thenForm = .ok thenType ∧
          emittedType thenType (Form.codegen bindings .all thenForm) =
            .ok thenWithType ∧
          getType bindings .all elseForm = .ok elseType ∧
          emittedType elseType (Form.codegen bindings .all elseForm) =
            .ok elseWithType ∧
          (mergedType .all thenWithType elseWithType :
            Except (CodeGenerationError Name) ObjectTypeSet) = .ok types := by
  rw [Form.codegen] at compiles
  change (codegenIf bindings .all test thenForm elseForm >>= _) = _ at compiles
  cases decided : codegenIf bindings .all test thenForm elseForm with
  | error exception => simp [decided, bind, Except.bind] at compiles
  | ok compiled =>
      rw [decided] at compiles
      cases compiled with
      | thenOnly => exact .inl ⟨rfl, compiles⟩
      | elseOnly => exact .inr (.inl ⟨rfl, compiles⟩)
      | both condition =>
          simp only [bind, Except.bind,
            ObjectTypeSet.restriction_all] at compiles
          cases thenTyped : getType bindings .all thenForm with
          | error _ => simp [thenTyped] at compiles
          | ok thenType =>
              simp only [thenTyped] at compiles
              cases thenFound :
                emittedType thenType (Form.codegen bindings .all thenForm) with
              | error _ => simp [thenFound] at compiles
              | ok thenWithType =>
                  simp only [thenFound] at compiles
                  cases elseTyped : getType bindings .all elseForm with
                  | error _ => simp [elseTyped] at compiles
                  | ok elseType =>
                      simp only [elseTyped] at compiles
                      cases elseFound : emittedType elseType
                          (Form.codegen bindings .all elseForm) with
                      | error _ => simp [elseFound] at compiles
                      | ok elseWithType =>
                          simp only [elseFound] at compiles
                          exact .inr
                            (.inr ⟨condition, thenType, elseType, thenWithType,
                            elseWithType, rfl, rfl, thenFound, rfl, elseFound,
                            compiles⟩)

/-- A set merged from both branches has the types of each, unless it is that of
both and they are of any type. -/
theorem contains_mergedType
    {restrictions thenType elseType types : ObjectTypeSet}
    (merged :
      (mergedType restrictions thenType elseType :
        Except (CodeGenerationError Name) ObjectTypeSet) = .ok types)
    {type : ObjectType}
    (contained : thenType.contains type = true ∨
      elseType.contains type = true) :
    types.contains type = true ∨
      elseType.sameTypes thenType = true ∧ elseType.allTypes = true ∧
        type ∉ elseType.internal := by
  unfold mergedType at merged
  split at merged
  · split at merged
    · next same =>
        cases merged
        have sameSets := same
        simp only [ObjectTypeSet.sameTypes, Bool.and_eq_true, decide_eq_true_eq,
          beq_iff_eq]
          at sameSets
        by_cases isMember : type ∈ elseType.internal
        · exact .inl (ObjectTypeSet.contains_iff.mpr (.inr isMember))
        · refine .inr ⟨same, ?_, isMember⟩
          rcases contained with inThen | inElse
          · rw [sameSets.2]
            apply (ObjectTypeSet.contains_iff.mp inThen).resolve_right
            rwa [← sameSets.1.1]
          · exact (ObjectTypeSet.contains_iff.mp inElse).resolve_right isMember
    · cases merged
      left
      rw [ObjectTypeSet.contains_expansion, ObjectTypeSet.contains_expansion,
        ObjectTypeSet.contains_boxed, ObjectTypeSet.contains_boxed]
      rcases contained with inThen | inElse
      · simp [inThen]
      · simp [inElse]
  · split at merged
    · cases merged
    · split at merged
      · next elseEmpty =>
          cases merged
          rw [ObjectTypeSet.contains_of_isEmpty elseEmpty] at contained
          exact .inl (contained.resolve_right Bool.false_ne_true)
      · next notBoth notBothEmpty elseNotEmpty =>
          cases merged
          have thenEmpty : thenType.isEmpty = true := by
            by_contra thenNotEmpty
            simp_all
          rw [ObjectTypeSet.contains_of_isEmpty thenEmpty] at contained
          exact .inl (contained.resolve_left Bool.false_ne_true)

/-! ## Soundness of type sets -/

section Soundness

variable {bindings : Name → Option ObjectTypeSet}
variable {test thenForm elseForm : Form Name}

/-- One `:if` over parts with sound type sets. -/
theorem TypeSound.ifForm
    (soundTest : TypeSound bindings test)
    (soundThen : TypeSound bindings thenForm)
    (soundElse : TypeSound bindings elseForm)
    (harmless : JoinsHarmlessly bindings test thenForm elseForm) :
    TypeSound bindings (.ifForm test thenForm elseForm) := by
  intro types typed values fits value returns
  obtain ⟨testType, thenType, elseType, testTyped, thenTyped, elseTyped,
      joined⟩ :=
    getType_ifForm_eq_ok typed
  cases returns with
  | thenTaken returnsTest truthy returnsThen =>
      have described := soundThen _ thenTyped _ fits _ returnsThen
      have testDescribed := soundTest _ testTyped _ fits _ returnsTest
      obtain ⟨rfl, -⟩ | ⟨-, falsy⟩ | ⟨rfl, -⟩ := ifType_cases joined
      · exact described
      · rw [falsy _ testDescribed] at truthy
        exact Bool.noConfusion truthy
      · exact described.expansion_left
  | elseTaken returnsTest falsy returnsElse =>
      have described := soundElse _ elseTyped _ fits _ returnsElse
      have testDescribed := soundTest _ testTyped _ fits _ returnsTest
      obtain ⟨-, truthy⟩ | ⟨rfl, -⟩ | ⟨rfl, isOpen⟩ := ifType_cases joined
      · rw [truthy _ testDescribed] at falsy
        exact Bool.noConfusion falsy
      · exact described
      · apply described.expansion_right
        intro allElse known isKnown
        exact harmless _ _ _ _ testTyped thenTyped elseTyped isOpen
          isKnown allElse _ fits _ _ returnsTest falsy returnsElse

/-- A sound type set for an `:if` leaves no constant behind. -/
theorem TypeSound.joinsHarmlessly
    (sound : TypeSound bindings (.ifForm test thenForm elseForm)) :
    JoinsHarmlessly bindings test thenForm elseForm := by
  intro testType thenType elseType known testTyped thenTyped elseTyped isOpen isKnown
    allElse values fits tested value returnsTest falsy returnsElse
  have typed :
      getType bindings .all (.ifForm test thenForm elseForm) =
        .ok (thenType.expansion elseType) := by
    simp only [getType, testTyped, thenTyped, elseTyped, bind, Except.bind,
      ObjectTypeSet.restriction_all]
    exact ifType_of_open isOpen
  have described :=
    sound _ typed _ fits _ (Returns.elseTaken returnsTest falsy returnsElse)
  apply described.2
  simp [ObjectTypeSet.expansion, allElse, isKnown]

/-- Type sets are sound when no join leaves a constant behind. -/
theorem typeSound_of_everyIf
    (form : Form Name)
    (harmless : EveryIf (DecidesHarmlessly bindings) form) :
    TypeSound bindings form := by
  induction form with
  | literal known isBoxed =>
      intro types typed values fits value returns
      cases typed
      cases returns
      exact ObjectTypeSet.describes_ofConstant known isBoxed
  | construct type =>
      intro types typed values fits value returns
      cases typed
      cases returns with
      | construct _ _ ofType =>
          exact ObjectTypeSet.describes_ofType ofType false
  | localVar name =>
      intro types typed values fits value returns
      cases returns
      simp only [getType] at typed
      split at typed
      · next bound =>
          cases typed
          exact fits _ _ bound
      · cases typed
  | invoke =>
      intro types typed values fits value returns
      cases typed
      exact ObjectTypeSet.describes_dynamicType value
  | absent =>
      intro types typed values fits value returns
      cases typed
      cases returns
      exact ObjectTypeSet.describes_ofType rfl false
  | ifForm test thenForm elseForm testHypothesis thenHypothesis
      elseHypothesis =>
      obtain ⟨here, inTest, inThen, inElse⟩ := harmless
      exact TypeSound.ifForm (testHypothesis inTest) (thenHypothesis inThen)
        (elseHypothesis inElse) here.1

/-! ## What codegen finds -/

/-- The type set that `codegen` finds for a form has the type of every value
that the form returns, unless it was forgotten. -/
def CodegenSound (bindings : Name → Option ObjectTypeSet)
    (form : Form Name) : Prop :=
  ∀ types, Form.codegen bindings .all form = .ok types →
    ∀ values, Fits bindings values →
      ∀ value, Returns values form value →
        types.contains value.type = true ∨ Forgotten bindings values form value

theorem Forgotten.returns
    {values : Name → Value}
    {form : Form Name}
    {value : Value}
    (forgotten : Forgotten bindings values form value) :
    Returns values form value := by
  induction forgotten with
  | here _ _ _ _ _ returns => exact returns
  | inThen returnsTest truthy _ inductionHypothesis =>
      exact .thenTaken returnsTest truthy inductionHypothesis
  | inElse returnsTest falsy _ inductionHypothesis =>
      exact .elseTaken returnsTest falsy inductionHypothesis

/-- A branch that is given no type returns nothing, so what is found for it has
the types of all its values. -/
theorem CodegenSound.emitted
    {branch : Form Name}
    (sound : CodegenSound bindings branch)
    (typed : TypeSound bindings branch)
    {branchType emitted : ObjectTypeSet}
    (isType : getType bindings .all branch = .ok branchType)
    (found : emittedType branchType (Form.codegen bindings .all branch) =
      .ok emitted)
    {values : Name → Value}
    (fits : Fits bindings values)
    {value : Value}
    (returns : Returns values branch value) :
    emitted.contains value.type = true ∨
      Forgotten bindings values branch value := by
  rcases emittedType_eq_ok found with ⟨isEmpty, -⟩ | compiles
  · have contained := (typed _ isType _ fits _ returns).1
    rw [ObjectTypeSet.contains_of_isEmpty isEmpty] at contained
    cases contained
  · exact sound _ compiles _ fits _ returns

/-- One `:if` over parts that are read rightly, whose decision is right. -/
theorem CodegenSound.ifForm
    (elimination : EliminationSound bindings test thenForm elseForm)
    (typedThen : TypeSound bindings thenForm)
    (typedElse : TypeSound bindings elseForm)
    (soundThen : CodegenSound bindings thenForm)
    (soundElse : CodegenSound bindings elseForm) :
    CodegenSound bindings (.ifForm test thenForm elseForm) := by
  intro types compiles values fits value returns
  obtain ⟨decided, inBranch⟩ | ⟨decided, inBranch⟩ |
      ⟨condition, thenType, elseType, thenWithType, elseWithType, decided,
        thenTyped, thenFound,
        elseTyped, elseFound, merged⟩ :=
    codegen_ifForm_eq_ok compiles
  · cases returns with
    | thenTaken returnsTest truthy returnsThen =>
        exact (soundThen _ inBranch _ fits _ returnsThen).imp_right
          (.inThen returnsTest truthy)
    | elseTaken returnsTest falsy _ =>
        have truthy := (elimination _ decided _ fits _ returnsTest).1 (.inl rfl)
        cases truthy.symm.trans falsy
  · cases returns with
    | thenTaken returnsTest truthy _ =>
        have falsy := (elimination _ decided _ fits _ returnsTest).2 rfl
        cases truthy.symm.trans falsy
    | elseTaken returnsTest falsy returnsElse =>
        exact (soundElse _ inBranch _ fits _ returnsElse).imp_right
          (.inElse returnsTest falsy)
  · -- a value of a branch is in its set, which is merged; or else it was
    -- forgotten, here or there
    have forgottenHere
        (same : elseWithType.sameTypes thenWithType = true)
        (any : elseWithType.allTypes = true)
        (unnamed : value.type ∉ elseWithType.internal) :
        Forgotten bindings values (.ifForm test thenForm elseForm) value := by
      have anyThen : thenWithType.allTypes = true := by
        simp only [ObjectTypeSet.sameTypes, Bool.and_eq_true,
          beq_iff_eq] at same
        rw [← same.2, any]
      exact .here decided (compiled_of_allTypes thenFound anyThen)
        (compiled_of_allTypes elseFound any) same any returns unnamed
    have whole :
        ((thenWithType.contains value.type = true ∨
          elseWithType.contains value.type = true) ∨
          Forgotten bindings values (.ifForm test thenForm elseForm)
            value) := by
      cases returns with
      | thenTaken returnsTest truthy returnsThen =>
          exact (soundThen.emitted typedThen thenTyped thenFound fits
            returnsThen).imp .inl
            (.inThen returnsTest truthy)
      | elseTaken returnsTest falsy returnsElse =>
          exact (soundElse.emitted typedElse elseTyped elseFound fits
            returnsElse).imp .inr
            (.inElse returnsTest falsy)
    rcases whole with contained | forgotten
    · rcases contains_mergedType merged contained with isMember |
        ⟨same, any, unnamed⟩
      · exact .inl isMember
      · exact .inr (forgottenHere same any unnamed)
    · exact .inr forgotten

/-- The decision of one `:if` over a test that is read rightly. -/
theorem EliminationSound.of_test
    (typedTest : TypeSound bindings test)
    (soundTest : CodegenSound bindings test)
    (harmless : AlwaysHarmlessly bindings test thenForm elseForm) :
    EliminationSound bindings test thenForm elseForm := by
  intro compiled decided values fits tested returnsTest
  obtain ⟨testType, thenType, elseType, testTyped, chosen⟩ :=
    codegenIf_eq_ok decided
  have alone :=
    compiledBranches_sound chosen (typedTest _ testTyped _ fits _ returnsTest)
  refine ⟨?_, alone.2⟩
  rintro (isThen | rfl)
  · exact alone.1 isThen
  · obtain ⟨found, compiles, isAlways⟩ := compiledBranches_both chosen
    obtain ⟨determined, notBoolean⟩ := conditionOf_eq_always isAlways.symm
    obtain ⟨notNil, rememberedFalsy⟩ := harmless _ decided compiles _ fits
    rcases soundTest _ compiles _ fits _ returnsTest with contained | forgotten
    · have isType := found.isDeterminedAs_of_contains determined contained
      apply Value.isTruthy_of_type
      · intro isNil
        rw [isNil] at isType
        exact notNil isType (Value.eq_nil_of_type isNil ▸ returnsTest)
      · intro isBoolean
        rw [isBoolean, notBoolean] at isType
        cases isType
    · exact rememberedFalsy _ forgotten

/-- Nothing falsy is taken for true where the test always selects what is
compiled. -/
theorem EliminationSound.alwaysHarmlessly
    (elimination : EliminationSound bindings test thenForm elseForm) :
    AlwaysHarmlessly bindings test thenForm elseForm := by
  intro found decided _ values fits
  constructor
  · intro _ returnsNil
    have truthy := (elimination _ decided _ fits _ returnsNil).1 (.inr rfl)
    cases truthy
  · intro value forgotten
    exact (elimination _ decided _ fits _ forgotten.returns).1 (.inr rfl)

/-- Codegen reads a form rightly when every `:if` within it is harmless. -/
theorem codegenSound_of_everyIf
    (form : Form Name)
    (harmless : EveryIf (DecidesHarmlessly bindings) form) :
    CodegenSound bindings form := by
  induction form with
  | literal known isBoxed =>
      intro types compiles values fits value returns
      cases returns
      simp only [Form.codegen] at compiles
      split at compiles
      · cases compiles
      · cases compiles
        exact .inl (ObjectTypeSet.describes_ofConstant known _).1
  | construct type =>
      intro types compiles values fits value returns
      cases compiles
      cases returns with
      | construct _ _ ofType =>
          exact .inl (ObjectTypeSet.describes_ofType ofType false).1
  | localVar name =>
      intro types compiles values fits value returns
      cases returns
      simp only [Form.codegen] at compiles
      split at compiles
      · next bound =>
          cases compiles
          exact .inl (fits _ _ bound).1
      · cases compiles
  | invoke =>
      intro types compiles values fits value returns
      cases compiles
      exact .inl (ObjectTypeSet.describes_dynamicType value).1
  | absent =>
      intro types compiles values fits value returns
      cases compiles
      cases returns
      exact .inl (ObjectTypeSet.describes_ofType rfl false).1
  | ifForm test thenForm elseForm testHypothesis thenHypothesis
      elseHypothesis =>
      obtain ⟨here, inTest, inThen, inElse⟩ := harmless
      have elimination := EliminationSound.of_test
        (typeSound_of_everyIf test inTest) (testHypothesis inTest) here.2
      exact CodegenSound.ifForm elimination
        (typeSound_of_everyIf thenForm inThen)
        (typeSound_of_everyIf elseForm inElse) (thenHypothesis inThen)
        (elseHypothesis inElse)

end Soundness


/-- The compiler's decisions preserve the meaning of every `:if` exactly when no
join leaves behind a constant that the else branch does not return, and no test
that can be falsy is taken for one that is always true. -/
theorem preservesMeaning_iff
    (bindings : Name → Option ObjectTypeSet)
    (form : Form Name) :
    PreservesMeaning bindings form ↔
      EveryIf (DecidesHarmlessly bindings) form := by
  induction form with
  | literal | construct | localVar | invoke | absent => exact Iff.rfl
  | ifForm test thenForm elseForm testHypothesis thenHypothesis
      elseHypothesis =>
      constructor
      · rintro ⟨here, inTest, inThen, inElse⟩
        exact ⟨⟨here.2.joinsHarmlessly, here.1.alwaysHarmlessly⟩,
          testHypothesis.mp inTest,
          thenHypothesis.mp inThen, elseHypothesis.mp inElse⟩
      · rintro ⟨here, inTest, inThen, inElse⟩
        have typedTest := typeSound_of_everyIf test inTest
        have typed := TypeSound.ifForm typedTest
          (typeSound_of_everyIf thenForm inThen)
          (typeSound_of_everyIf elseForm inElse) here.1
        have elimination :=
          EliminationSound.of_test typedTest
            (codegenSound_of_everyIf test inTest) here.2
        exact ⟨⟨elimination, typed⟩, testHypothesis.mpr inTest,
          thenHypothesis.mpr inThen,
          elseHypothesis.mpr inElse⟩

/-- `(if (if x true (f)) 1 2)`, where nothing is known of `x`. -/
def dynamicElse : Form Unit :=
  .ifForm (.ifForm (.localVar ()) (.literal (.boolean true) false) .invoke)
    (.literal (.integer 1) false) (.literal (.integer 2) false)

/-- `(if (if (if x false (if x (f) false)) (f) nil) 1 2)` -/
def nilTest : Form Unit :=
  .ifForm
    (.ifForm
      (.ifForm (.localVar ()) (.literal (.boolean false) false)
        (.ifForm (.localVar ()) .invoke (.literal (.boolean false) false)))
      .invoke (.literal .nil false))
    (.literal (.integer 1) false) (.literal (.integer 2) false)

/-- `(if (if y (if x (f) "a") (if x (f) "a")) 1 2)`, with one local for both. -/
def sameSets : Form Unit :=
  .ifForm
    (.ifForm (.localVar ())
      (.ifForm (.localVar ()) .invoke (.literal (.string "a") false))
      (.ifForm (.localVar ()) .invoke (.literal (.string "a") false)))
    (.literal (.integer 1) false) (.literal (.integer 2) false)

/-- Only the branch of `1` is compiled, though `x` and the result of `f` may be
nil; and that branch is always taken where codegen finds nil alone, or forgets
what `f` may return. -/
theorem dynamicElse_not_preserved :
    ¬ PreservesMeaning (fun _ => some ObjectTypeSet.dynamicType) dynamicElse ∧
      ¬ PreservesMeaning (fun _ => some ObjectTypeSet.dynamicType) nilTest ∧
      ¬ PreservesMeaning (fun _ => some ObjectTypeSet.dynamicType)
        sameSets := by
  have fits (known : Value) :
      Fits (fun _ : Unit => some ObjectTypeSet.dynamicType) fun _ => known := by
    intro name types bound
    cases bound
    exact ObjectTypeSet.describes_dynamicType _
  refine ⟨?_, ?_, ?_⟩
  · rintro ⟨⟨elimination, -⟩, -⟩
    have selected := elimination .thenOnly rfl _ (fits (.constant .nil))
      (.constant .nil)
      (.elseTaken (.localVar ()) rfl (.invoke _))
    cases selected.1 (.inl rfl)
  · rintro ⟨⟨elimination, -⟩, -⟩
    have selected := elimination (.both .always) rfl _ (fits (.constant .nil))
      (.constant .nil) (.elseTaken
        (.elseTaken (.localVar ()) rfl
        (.elseTaken (.localVar ()) rfl (.literal _ _)))
        rfl (.literal _ _))
    cases selected.1 (.inr rfl)
  · rintro ⟨⟨elimination, -⟩, -⟩
    have selected := elimination (.both .always) rfl _
      (fits (.constant (.boolean true))) (.constant .nil)
      (.thenTaken (.localVar ()) rfl
        (.thenTaken (.localVar ()) rfl (.invoke _)))
    cases selected.1 (.inr rfl)

end Codegen
end ClojureRt
