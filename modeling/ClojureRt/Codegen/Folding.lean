import ClojureRt.Codegen.StaticCall

/-!
# Constant folding

`foldIntrinsic` computes the result of an intrinsic at compile time from the
constants that the type sets of its arguments carry.  Three families do not
compute what the generated code computes: folds of big integers and ratios
return an int constant for every result that fits a long, mixed folds with a
double read a missing constant as zero, and `Integer_div` is folded exactly
though the generated code takes a negative denominator for an unsigned one.
-/

namespace ClojureRt
namespace Codegen

open ClojureRt.Runtime

/-! ## Reading and making constants -/

/-- `dynamic_cast<ConstantInteger *>`. -/
def getInteger (types : ObjectTypeSet) : Option (BitVec 32) :=
  match types.constant with
  | some (.integer value) => some value
  | _ => none

/-- `dynamic_cast<ConstantDouble *>`. -/
def getDouble (types : ObjectTypeSet) : Option Double :=
  match types.constant with
  | some (.double value) => some value
  | _ => none

/-- `getZ`. -/
def getZ (types : ObjectTypeSet) : Option Int :=
  match types.constant with
  | some (.integer value) => some value.toInt
  | some (.bigInteger value) => some value
  | _ => none

/-- `getQ`. -/
def getQ (types : ObjectTypeSet) : Option Rat :=
  match types.constant with
  | some (.integer value) => some value.toInt
  | some (.bigInteger value) => some value
  | some (.ratio value) => some value
  | _ => none

/-- `getD`: zero where there is no number. -/
def getD (doubles : DoubleArithmetic) (types : ObjectTypeSet) : Double :=
  match types.constant with
  | some (.double value) => value
  | some (.integer value) => doubles.ofInt value
  | some (.bigInteger value) => doubles.ofBigInteger value
  | some (.ratio value) => doubles.ofRatio value
  | _ => 0

/-- `mpz_fits_slong_p`. -/
def fitsLong (value : Int) : Bool :=
  decide (-2 ^ 63 ≤ value ∧ value < 2 ^ 63)

/-- A type set with one type and no constant. -/
def plainType (type : ObjectType) : ObjectTypeSet :=
  .ofType type false none

/-- `createZ`: a value that fits a long becomes the constant of an int. -/
def createZ (value : Int) : ObjectTypeSet :=
  if fitsLong value then .ofConstant (.integer (BitVec.ofInt 32 value)) false
  else .ofConstant (.bigInteger value) false

/-- `createQ`. -/
def createQ (value : Rat) : ObjectTypeSet :=
  if value.den = 1 then createZ value.num else .ofConstant (.ratio value) false

/-! ## The folds -/

/-- A fold that needs both constants. -/
def foldWith
    {α : Type}
    (getter : ObjectTypeSet → Option α)
    (otherwise : ObjectTypeSet)
    (apply : α → α → ObjectTypeSet)
    (left right : ObjectTypeSet) : ObjectTypeSet :=
  match getter left, getter right with
  | some a, some b => apply a b
  | _, _ => otherwise

/-- `Add`, `Sub`, `Mul` and `Div`. -/
def intFold (operation : Arithmetic) : ObjectTypeSet → ObjectTypeSet →
    ObjectTypeSet :=
  foldWith getInteger (plainType .integerType) fun a b =>
    match operation with
    | .add => .ofConstant (.integer (a + b)) false
    | .sub => .ofConstant (.integer (a - b)) false
    | .mul => .ofConstant (.integer (a * b)) false
    | .div =>
        if b.toInt = 0 then plainType .integerType
        else .ofConstant
          (.integer (BitVec.ofInt 32 (a.toInt.tdiv b.toInt))) false

/-- `FAdd`, `FSub`, `FMul` and `FDiv`. -/
def doubleFold
    (doubles : DoubleArithmetic)
    (operation : Arithmetic) : ObjectTypeSet → ObjectTypeSet → ObjectTypeSet :=
  foldWith getDouble (plainType .doubleType) fun a b =>
    if operation = .div ∧
      doubles.holds .equiv b 0 = true then plainType .doubleType
    else .ofConstant (.double (doubles.apply operation a b)) false

/-- `BigInteger_div` and the folds that share it. -/
def divFold : ObjectTypeSet → ObjectTypeSet → ObjectTypeSet :=
  foldWith getQ .dynamicType fun a b =>
    if b = 0 then .dynamicType else createQ (a / b)

/-- The fold that `regZMath` and `regMixZ` register for a function of GMP. -/
def zFold (apply : Int → Int → Int) : ObjectTypeSet → ObjectTypeSet →
    ObjectTypeSet :=
  foldWith getZ (plainType .bigIntegerType) fun a b => createZ (apply a b)

/-- The fold that `regQMath` and `regMixQ` register for a function of GMP. -/
def qFold (apply : Rat → Rat → Rat) : ObjectTypeSet → ObjectTypeSet →
    ObjectTypeSet :=
  foldWith getQ (plainType .ratioType) fun a b => createQ (apply a b)

/-- The type set of a boolean that is known. -/
def booleanConstant (value : Bool) : ObjectTypeSet :=
  .ofConstant (.boolean value) false

/-- `ICmpSGE` and so on. -/
def intCmpFold (comparison : Comparison) : ObjectTypeSet → ObjectTypeSet →
    ObjectTypeSet :=
  foldWith getInteger (plainType .booleanType) fun a b =>
    booleanConstant (comparison.test (cmp a.toInt b.toInt))

/-- `FCmpOGE` and so on. -/
def doubleCmpFold
    (doubles : DoubleArithmetic)
    (comparison : Comparison) : ObjectTypeSet → ObjectTypeSet → ObjectTypeSet :=
  foldWith getDouble (plainType .booleanType) fun a b =>
    booleanConstant (doubles.holds comparison a b)

/-- `regZCmp`. -/
def zCmpFold (comparison : Comparison) : ObjectTypeSet → ObjectTypeSet →
    ObjectTypeSet :=
  foldWith getZ (plainType .booleanType) fun a b =>
    booleanConstant (comparison.test (cmp a b))

/-- `regQCmp` and `regMixedQCmp`. -/
def qCmpFold (comparison : Comparison) : ObjectTypeSet → ObjectTypeSet →
    ObjectTypeSet :=
  foldWith getQ (plainType .booleanType) fun a b =>
    booleanConstant (comparison.test (cmp a b))

/-- `regMixD` and `regMixedDCmp`: there is no test that the constants exist. -/
def mixedDoubleFold
    (doubles : DoubleArithmetic)
    (operation : Operation)
    (left right : ObjectTypeSet) : ObjectTypeSet :=
  match operation with
  | .arithmetic operation =>
      .ofConstant
        (.double (doubles.apply operation (getD doubles left)
          (getD doubles right))) false
  | .comparison comparison =>
      .ofConstant
        (.boolean (doubles.holds comparison (getD doubles left)
          (getD doubles right))) false

/-- A fold of two arguments, and what it returns for another number of them. -/
def binaryFold
    (otherwise : ObjectTypeSet)
    (fold : ObjectTypeSet → ObjectTypeSet → ObjectTypeSet) :
    List ObjectTypeSet → ObjectTypeSet
  | [left, right] => fold left right
  | _ => otherwise

/-- The folds of `BigInteger_add`, `Add_IB`, `Add_BI` and so on. -/
def zMath : Arithmetic → List ObjectTypeSet → ObjectTypeSet
  | .add => binaryFold (plainType .bigIntegerType) (zFold (· + ·))
  | .sub => binaryFold (plainType .bigIntegerType) (zFold (· - ·))
  | .mul => binaryFold (plainType .bigIntegerType) (zFold (· * ·))
  | .div => binaryFold .dynamicType divFold

/-- The folds of `Ratio_add`, `Add_BR`, `Add_IR` and so on. -/
def qMath : Arithmetic → List ObjectTypeSet → ObjectTypeSet
  | .add => binaryFold (plainType .ratioType) (qFold (· + ·))
  | .sub => binaryFold (plainType .ratioType) (qFold (· - ·))
  | .mul => binaryFold (plainType .ratioType) (qFold (· * ·))
  | .div => binaryFold .dynamicType divFold

/-- The folds registered for numbers of two kinds. -/
def mixedTypeIntrinsics
    (doubles : DoubleArithmetic)
    (operation : Operation)
    (left right : NumberType) : Option (List ObjectTypeSet → ObjectTypeSet) :=
  if left = right then
    none
  else if left = .double ∨ right = .double then
    match operation with
    | .arithmetic _ =>
        some (binaryFold (plainType .doubleType)
          (mixedDoubleFold doubles operation))
    | .comparison _ =>
        some (binaryFold (plainType .booleanType)
          (mixedDoubleFold doubles operation))
  else if left = .ratio ∨ right = .ratio then
    match operation with
    | .arithmetic operation => some (qMath operation)
    | .comparison .equiv => none
    | .comparison comparison =>
        some (binaryFold (plainType .booleanType) (qCmpFold comparison))
  else
    match operation with
    | .arithmetic operation => some (zMath operation)
    | .comparison _ => none

/-- `typeIntrinsics`. -/
def typeIntrinsics
    (doubles : DoubleArithmetic) :
    Symbol → Option (List ObjectTypeSet → ObjectTypeSet)
  | .plain (.arithmetic operation) .int =>
      some (binaryFold .dynamicType (intFold operation))
  | .plain (.arithmetic operation) .double =>
      some (binaryFold .dynamicType (doubleFold doubles operation))
  | .plain (.arithmetic operation) .bigInteger => some (zMath operation)
  | .plain (.arithmetic operation) .ratio => some (qMath operation)
  | .plain (.comparison comparison) .int =>
      some (binaryFold .dynamicType (intCmpFold comparison))
  | .plain (.comparison comparison) .double =>
      some (binaryFold .dynamicType (doubleCmpFold doubles comparison))
  | .plain (.comparison comparison) .bigInteger =>
      some (binaryFold (plainType .booleanType) (zCmpFold comparison))
  | .plain (.comparison comparison) .ratio =>
      some (binaryFold (plainType .booleanType) (qCmpFold comparison))
  | .mixed operation left right =>
      mixedTypeIntrinsics doubles operation left right
  | .integerDiv => some (binaryFold .dynamicType divFold)
  | .bigIntegerEqualsInt => none
  | .bigIntegerIntEquals => none
  | .numbers _ => none
  | .equalsManaged => none

/-- The entry `:returns` of a symbol. -/
def returnType : Symbol → ObjectTypeSet
  | .plain (.arithmetic _) .int => plainType .integerType
  | .plain (.arithmetic _) .double => plainType .doubleType
  | .plain (.arithmetic .div) .bigInteger => .all
  | .plain (.arithmetic _) .bigInteger => plainType .bigIntegerType
  | .plain (.arithmetic _) .ratio => .all
  | .mixed (.arithmetic operation) left right =>
      if left = .double ∨ right = .double then plainType .doubleType
      else if left = .ratio ∨ right = .ratio ∨ operation = .div then .all
      else plainType .bigIntegerType
  | .integerDiv => .all
  | .numbers (.arithmetic _) => .all
  | _ => plainType .booleanType

/-- `foldIntrinsic`. -/
def foldIntrinsic
    (doubles : DoubleArithmetic)
    (symbol : Symbol)
    (args : List ObjectTypeSet) : ObjectTypeSet :=
  match typeIntrinsics doubles symbol with
  | some fold =>
      if (fold args).isDetermined && (fold args).constant.isSome then fold args
      else returnType symbol
  | none => returnType symbol

/-! ## What folding has to respect -/

/-- The generated code on the values of the arguments. -/
def evaluate
    (doubles : DoubleArithmetic)
    (symbol : Symbol)
    (values : List Value) : Outcome :=
  match values with
  | [left, right] =>
      match left.toNumber, right.toNumber with
      | some a, some b => generateIntrinsic doubles symbol a b
      | _, _ => .undefined
  | _ => .undefined

/-- Whatever doubles compute, a constant that folding returns is what the
generated code returns for all values that the arguments' type sets describe. -/
def FoldSound (symbol : Symbol) (args : List ObjectTypeSet) : Prop :=
  ∀ doubles known,
    (foldIntrinsic doubles symbol args).isDetermined = true →
    (foldIntrinsic doubles symbol args).constant = some known →
    ∀ values, List.Forall₂ ObjectTypeSet.Describes args values →
      ∀ result, evaluate doubles symbol values = .returns result →
        resultConstant result = known

/-- An integer that fits a long. -/
def IsLong (value : Rat) : Prop :=
  value.den = 1 ∧ fitsLong value.num = true

/-- The numbers of two kinds that a pair of type sets describes. -/
structure Operands
    (left right : ObjectTypeSet)
    (leftType rightType : NumberType)
    (a b : Number) : Prop where
  left_type : a.type = leftType
  right_type : b.type = rightType
  left_describes : left.Describes (.constant (numberConstant a))
  right_describes : right.Describes (.constant (numberConstant b))

/-- Both type sets carry a constant. -/
def BothKnown (left right : ObjectTypeSet) : Prop :=
  left.constant.isSome = true ∧ right.constant.isSome = true

/-- An exact operation on two known numbers does not end in an integer that fits
a long. -/
def ExactResultTooLong
    (operation : Arithmetic)
    (leftType rightType : NumberType)
    (left right : ObjectTypeSet) : Prop :=
  BothKnown left right →
    ∀ a b, Operands left right leftType rightType a b →
      ∀ x y, Numbers.toRatio a = some x → Numbers.toRatio b = some y →
        ¬ (operation = .div ∧ y = 0) → ¬ IsLong (exactQ operation x y)

/-- The divisor that `Integer_div` finds has the sign of the denominator, or the
division throws: by zero, or since the quotient of the smallest int is too
large. -/
def NoNegativeDenominator (left right : ObjectTypeSet) : Prop :=
  BothKnown left right →
    ∀ num den, Operands left right .int .int (.int num) (.int den) →
      den.toInt = 0 ∨ num.toInt = 0 ∨ KeepsSign num.toInt den.toInt ∨
        (0 < den.toInt ∧ Int.gcd num.toInt den.toInt = 1 ∧ num.toInt = -2 ^ 31)

/-- The division is clean, or one of its numbers is too large. -/
theorem clean_or_overflow_iff (num den : BitVec 32) :
    (CleanIntDivision num.toInt den.toInt ∨
      fitsInt (num.toInt.tdiv (Runtime.gcd num.toInt den.toInt)) = false ∨
      fitsInt (den.toInt.tdiv (Runtime.gcd num.toInt den.toInt)) = false) ↔
      den.toInt = 0 ∨ num.toInt = 0 ∨ KeepsSign num.toInt den.toInt ∨
        (0 < den.toInt ∧ Int.gcd num.toInt den.toInt = 1 ∧
          num.toInt = -2 ^ 31) := by
  by_cases denZero : den.toInt = 0
  · simp [denZero, CleanIntDivision]
  by_cases numZero : num.toInt = 0
  · simp [numZero, CleanIntDivision, WellSigned]
  have notMinusOne := tdiv_gcd_ne_neg_one numZero denZero
  rw [← positive_or_overflow_iff denZero numZero, cleanIntDivision_iff]
  simp only [denZero, numZero, notMinusOne, false_or]
  generalize fitsInt _ = first
  generalize fitsInt _ = second
  cases first <;> cases second <;> simp

/-- When the fold for numbers of two kinds is sound.  The code of `Mul_DB`,
`Div_IB` and `Div_BI` never returns a number. -/
def MixedFoldsSafely
    (operation : Operation)
    (leftType rightType : NumberType)
    (left right : ObjectTypeSet) : Prop :=
  if leftType = rightType then
    True
  else if leftType = .double ∨ rightType = .double then
    (operation = .arithmetic .mul ∧ leftType = .double ∧
      rightType = .bigInteger) ∨
      ∀ a b, Operands left right leftType rightType a b → BothKnown left right
  else
    match operation with
    | .arithmetic operation =>
        (operation = .div ∧ leftType ≠ .ratio ∧ rightType ≠ .ratio) ∨
          ExactResultTooLong operation leftType rightType left right
    | .comparison _ => True

/-- When the fold of a symbol is sound for two type sets. -/
def FoldsSafely (symbol : Symbol) (left right : ObjectTypeSet) : Prop :=
  match symbol with
  | .integerDiv => NoNegativeDenominator left right
  | .plain (.arithmetic operation) .bigInteger =>
      ExactResultTooLong operation .bigInteger .bigInteger left right
  | .plain (.arithmetic operation) .ratio =>
      ExactResultTooLong operation .ratio .ratio left right
  | .mixed operation leftType rightType =>
      MixedFoldsSafely operation leftType rightType left right
  | _ => True

/-! ## Arguments that are numbers -/

/-- A value is a number if it is the constant of one. -/
theorem toNumber_eq_some_iff {value : Value} {number : Number} :
    value.toNumber = some number ↔
      value = .constant (numberConstant number) := by
  constructor
  · intro isNumber
    cases value with
    | constant known =>
        cases known <;> simp only [Value.toNumber, Option.some.injEq,
          reduceCtorEq] at isNumber
        all_goals
          subst isNumber
          rfl
    | object type address unnamed => simp [Value.toNumber] at isNumber
  · rintro rfl
    cases number <;> rfl

/-- Soundness for two arguments that are numbers. -/
def PairSound (symbol : Symbol) (left right : ObjectTypeSet) : Prop :=
  ∀ doubles fold known, typeIntrinsics doubles symbol = some fold →
    (fold [left, right]).isDetermined = true →
    (fold [left, right]).constant = some known →
    ∀ a b, left.Describes (.constant (numberConstant a)) →
      right.Describes (.constant (numberConstant b)) →
      ∀ result, generateIntrinsic doubles symbol a b = .returns result →
        resultConstant result = known

/-- The declared type has no constant. -/
theorem returnType_constant
    (symbol : Symbol) : (returnType symbol).constant = none := by
  unfold returnType
  split <;> first | rfl | (split <;> first | rfl | (split <;> rfl))

/-- A constant comes from the fold that is registered. -/
theorem foldIntrinsic_constant
    {doubles : DoubleArithmetic}
    {symbol : Symbol}
    {args : List ObjectTypeSet}
    {known : Constant}
    (isKnown : (foldIntrinsic doubles symbol args).constant = some known) :
    ∃ fold, typeIntrinsics doubles symbol = some fold ∧
      (fold args).isDetermined = true ∧ (fold args).constant = some known := by
  unfold foldIntrinsic at isKnown
  split at isKnown
  · next fold registered =>
      split at isKnown
      · next determined =>
          rw [Bool.and_eq_true] at determined
          exact ⟨fold, registered, determined.1, isKnown⟩
      · rw [returnType_constant] at isKnown
        cases isKnown
  · rw [returnType_constant] at isKnown
    cases isKnown

/-- The constant of a fold is that of the symbol. -/
theorem foldIntrinsic_of_constant
    {doubles : DoubleArithmetic}
    {symbol : Symbol}
    {args : List ObjectTypeSet}
    {fold : List ObjectTypeSet → ObjectTypeSet}
    {known : Constant}
    (registered : typeIntrinsics doubles symbol = some fold)
    (determined : (fold args).isDetermined = true)
    (isKnown : (fold args).constant = some known) :
    foldIntrinsic doubles symbol args = fold args := by
  simp [foldIntrinsic, registered, determined, isKnown]

/-- For two arguments, what a fold has to respect is that of the pair. -/
theorem foldSound_pair_iff (symbol : Symbol) (left right : ObjectTypeSet) :
    FoldSound symbol [left, right] ↔ PairSound symbol left right := by
  constructor
  · intro sound doubles fold known registered determined isKnown a b leftDescribes
      rightDescribes result returned
    have folded := foldIntrinsic_of_constant registered determined isKnown
    apply sound doubles known (by rw [folded, determined])
      (by rw [folded, isKnown])
      [.constant (numberConstant a), .constant (numberConstant b)]
      (.cons leftDescribes (.cons rightDescribes .nil))
    simpa [evaluate, toNumber_eq_some_iff.mpr rfl] using returned
  · intro sound doubles known determined isKnown values described result returned
    obtain ⟨fold, registered, foldDetermined, foldKnown⟩ :=
      foldIntrinsic_constant isKnown
    cases described with
    | cons leftDescribes rest =>
        cases rest with
        | cons rightDescribes none =>
            cases none
            next leftValue rightValue =>
              simp only [evaluate] at returned
              split at returned
              · next a b leftNumber rightNumber =>
                  rw [toNumber_eq_some_iff] at leftNumber rightNumber
                  subst leftNumber rightNumber
                  exact sound doubles fold known registered foldDetermined
                    foldKnown a b leftDescribes rightDescribes result returned
              · cases returned

/-- The folds return a constant for two arguments only. -/
theorem foldSound_of_length_ne
    {symbol : Symbol}
    {args : List ObjectTypeSet}
    (notTwo : args.length ≠ 2) :
    FoldSound symbol args := by
  intro doubles known determined isKnown values described result returned
  have sameLength := described.length_eq
  unfold evaluate at returned
  split at returned
  · simp at sameLength
    exact absurd sameLength notTwo
  · cases returned

/-- A type set that describes a number carries that number or no constant. -/
theorem constant_eq_of_describes
    {types : ObjectTypeSet}
    {number : Number}
    (describes : types.Describes (.constant (numberConstant number)))
    (isKnown : types.constant.isSome = true) :
    types.constant = some (numberConstant number) := by
  obtain ⟨known, isConstant⟩ := Option.isSome_iff_exists.mp isKnown
  have same := describes.2 known isConstant
  rw [isConstant, Value.constant.inj same]

/-- A getter finds the number that a constant is, and nothing where there is
none. -/
structure Reads
    {α : Type}
    (getter : ObjectTypeSet → Option α)
    (read : Number → Option α) : Prop where
  unknown : ∀ types, types.constant = none → getter types = none
  known : ∀ types number, types.constant = some (numberConstant number) →
    getter types = read number

/-- The int that a number is. -/
def toInteger : Number → Option (BitVec 32)
  | .int value => some value
  | _ => none

/-- The double that a number is. -/
def toDoubleValue : Number → Option Double
  | .double value => some value
  | _ => none

/-- `getInteger` reads the constant of an int. -/
theorem reads_getInteger : Reads getInteger toInteger where
  unknown types unknown := by simp [getInteger, unknown]
  known types number isKnown := by
    unfold getInteger
    rw [isKnown]
    cases number <;> rfl

/-- `getDouble` reads the constant of a double. -/
theorem reads_getDouble : Reads getDouble toDoubleValue where
  unknown types unknown := by simp [getDouble, unknown]
  known types number isKnown := by
    unfold getDouble
    rw [isKnown]
    cases number <;> rfl

/-- `getZ` reads the constant of an integer of both kinds. -/
theorem reads_getZ : Reads getZ Numbers.toBigInt where
  unknown types unknown := by simp [getZ, unknown]
  known types number isKnown := by
    unfold getZ
    rw [isKnown]
    cases number <;> rfl

/-- `getQ` reads the constant of a rational number. -/
theorem reads_getQ : Reads getQ Numbers.toRatio where
  unknown types unknown := by simp [getQ, unknown]
  known types number isKnown := by
    unfold getQ
    rw [isKnown]
    cases number <;> rfl

/-- `getD` reads the constant of a number. -/
theorem getD_of_known
    (doubles : DoubleArithmetic)
    {types : ObjectTypeSet}
    {number : Number}
    (isKnown : types.constant = some (numberConstant number)) :
    getD doubles types = Numbers.toDouble doubles number := by
  unfold getD
  rw [isKnown]
  cases number <;> rfl

/-- Without a constant `getD` reads 0. -/
theorem getD_of_unknown
    {doubles : DoubleArithmetic}
    {types : ObjectTypeSet}
    (unknown : types.constant = none) :
    getD doubles types = 0 := by
  simp [getD, unknown]

section FoldWith

variable {α : Type} {getter : ObjectTypeSet → Option α}
  {read : Number → Option α}
variable {otherwise : ObjectTypeSet} {apply : α → α → ObjectTypeSet}
variable {left right : ObjectTypeSet}

/-- Without both constants there is nothing to fold. -/
theorem foldWith_of_unknown
    (reads : Reads getter read)
    (unknown : ¬ BothKnown left right) :
    foldWith getter otherwise apply left right = otherwise := by
  unfold foldWith
  split
  · next a b leftValue rightValue =>
      exfalso
      apply unknown
      constructor
      · rw [← Option.ne_none_iff_isSome]
        intro missing
        rw [reads.unknown left missing] at leftValue
        cases leftValue
      · rw [← Option.ne_none_iff_isSome]
        intro missing
        rw [reads.unknown right missing] at rightValue
        cases rightValue
  · rfl

/-- With both constants the function is applied. -/
theorem foldWith_of_known
    (reads : Reads getter read)
    {a b : Number}
    (leftKnown : left.constant = some (numberConstant a))
    (rightKnown : right.constant = some (numberConstant b))
    {x y : α}
    (leftValue : read a = some x)
    (rightValue : read b = some y) :
    foldWith getter otherwise apply left right = apply x y := by
  simp [foldWith, reads.known left a leftKnown, reads.known right b rightKnown,
    leftValue, rightValue]

end FoldWith

/-! ## Exact arithmetic that is narrowed -/

/-- A constant determines its type. -/
theorem ofConstant_isDetermined (known : Constant) (isBoxed : Bool) :
    (ObjectTypeSet.ofConstant known isBoxed).isDetermined = true := by
  simp [ObjectTypeSet.isDetermined, ObjectTypeSet.ofConstant,
    ObjectTypeSet.ofType]

@[simp] theorem ofConstant_constant (known : Constant) (isBoxed : Bool) :
    (ObjectTypeSet.ofConstant known isBoxed).constant = some known := by
  simp [ObjectTypeSet.ofConstant, ObjectTypeSet.ofType]

/-- A rational number determines its type. -/
theorem createQ_isDetermined
    (value : Rat) : (createQ value).isDetermined = true := by
  unfold createQ createZ
  split
  · split <;> exact ofConstant_isDetermined _ _
  · exact ofConstant_isDetermined _ _

/-- An integer is no ratio. -/
theorem createQ_intCast (value : Int) : createQ value = createZ value := by
  simp [createQ]

/-- The folded constant is the simplified ratio unless it is turned into an
int. -/
theorem createQ_constant_iff (value : Rat) :
    (createQ value).constant = some (numberConstant (ratioSimplify value)) ↔
      ¬ IsLong value := by
  unfold createQ createZ ratioSimplify IsLong
  split
  · next isInteger =>
      split
      · next fits => simp [numberConstant, isInteger, fits]
      · next tooLong => simp [numberConstant, tooLong]
  · next notInteger => simp [numberConstant, notInteger]

/-- What the exact folds compute from two known numbers. -/
def exactFold (operation : Arithmetic) (x y : Rat) : ObjectTypeSet :=
  if operation = .div ∧ y = 0 then .dynamicType
  else createQ (exactQ operation x y)

section ExactFolds

variable {left right : ObjectTypeSet}

/-- The quotient is folded unless the divisor is 0. -/
theorem divFold_of_known
    {a b : Number}
    {x y : Rat}
    (leftKnown : left.constant = some (numberConstant a))
    (rightKnown : right.constant = some (numberConstant b))
    (leftRatio : Numbers.toRatio a = some x)
    (rightRatio : Numbers.toRatio b = some y) :
    divFold left right = exactFold .div x y := by
  unfold divFold
  rw [foldWith_of_known reads_getQ leftKnown rightKnown leftRatio rightRatio]
  simp [exactFold, exactQ]

/-- A rational operation is folded with both constants. -/
theorem qMath_of_known
    (operation : Arithmetic)
    {a b : Number}
    {x y : Rat}
    (leftKnown : left.constant = some (numberConstant a))
    (rightKnown : right.constant = some (numberConstant b))
    (leftRatio : Numbers.toRatio a = some x)
    (rightRatio : Numbers.toRatio b = some y) :
    qMath operation [left, right] = exactFold operation x y := by
  cases operation with
  | div => exact divFold_of_known leftKnown rightKnown leftRatio rightRatio
  | _ =>
      exact foldWith_of_known reads_getQ leftKnown rightKnown leftRatio
        rightRatio

/-- An integer is a rational number. -/
theorem toRatio_of_toBigInt
    {number : Number}
    {value : Int}
    (isValue : Numbers.toBigInt number = some value) :
    Numbers.toRatio number = some (value : Rat) := by
  cases number <;> simp_all [Numbers.toBigInt, Numbers.toRatio]

/-- An operation on big integers is folded with both constants. -/
theorem zMath_of_known
    (operation : Arithmetic)
    {a b : Number}
    {x y : Int}
    (leftKnown : left.constant = some (numberConstant a))
    (rightKnown : right.constant = some (numberConstant b))
    (leftValue : Numbers.toBigInt a = some x)
    (rightValue : Numbers.toBigInt b = some y) :
    zMath operation [left, right] = exactFold operation x y := by
  have folded : ∀ apply : Int → Int → Int,
      zFold apply left right = createQ ((apply x y : Int) : Rat) := by
    intro apply
    rw [createQ_intCast]
    exact foldWith_of_known reads_getZ leftKnown rightKnown leftValue rightValue
  cases operation with
  | add => simpa [zMath, binaryFold, exactFold, exactQ] using folded (· + ·)
  | sub => simpa [zMath, binaryFold, exactFold, exactQ] using folded (· - ·)
  | mul => simpa [zMath, binaryFold, exactFold, exactQ] using folded (· * ·)
  | div =>
      exact divFold_of_known leftKnown rightKnown
        (toRatio_of_toBigInt leftValue) (toRatio_of_toBigInt rightValue)

/-- Without both constants nothing is folded. -/
theorem qMath_of_unknown
    (operation : Arithmetic)
    (unknown : ¬ BothKnown left right) :
    (qMath operation [left, right]).constant = none := by
  cases operation <;> exact congrArg _ (foldWith_of_unknown reads_getQ unknown)

/-- Without both constants nothing is folded. -/
theorem zMath_of_unknown
    (operation : Arithmetic)
    (unknown : ¬ BothKnown left right) :
    (zMath operation [left, right]).constant = none := by
  cases operation with
  | div => exact congrArg _ (foldWith_of_unknown reads_getQ unknown)
  | _ => exact congrArg _ (foldWith_of_unknown reads_getZ unknown)

end ExactFolds

/-- A symbol whose fold and whose code are exact, on numbers of two kinds that
are no doubles. -/
structure ExactSymbol
    (symbol : Symbol)
    (operation : Arithmetic)
    (leftType rightType : NumberType)
    (fold : List ObjectTypeSet → ObjectTypeSet) : Prop where
  registered : ∀ doubles, typeIntrinsics doubles symbol = some fold
  typed : ∀ doubles a b result,
    generateIntrinsic doubles symbol a b = .returns result →
    a.type = leftType ∧ b.type = rightType
  notDouble : leftType ≠ .double ∧ rightType ≠ .double
  runs : ∀ doubles a b x y, a.type = leftType → b.type = rightType →
    Numbers.toRatio a = some x → Numbers.toRatio b = some y →
    generateIntrinsic doubles symbol a b = ratioArithmetic operation x y
  folds : ∀ left right a b x y, a.type = leftType → b.type = rightType →
    left.constant = some (numberConstant a) →
      right.constant = some (numberConstant b) →
    Numbers.toRatio a = some x → Numbers.toRatio b = some y →
    fold [left, right] = exactFold operation x y
  unknown : ∀ left right, ¬ BothKnown left right →
    (fold [left, right]).constant = none

/-- Such a fold is sound as long as no result is turned into an int. -/
theorem ExactSymbol.pairSound_iff
    {symbol : Symbol}
    {operation : Arithmetic}
    {leftType rightType : NumberType}
    {fold : List ObjectTypeSet → ObjectTypeSet}
    (exactSymbol : ExactSymbol symbol operation leftType rightType fold)
    (left right : ObjectTypeSet) :
    PairSound symbol left right ↔
      ExactResultTooLong operation leftType rightType left right := by
  constructor
  · intro sound bothKnown a b operands x y leftRatio rightRatio defined isLong
    have folded :=
      exactSymbol.folds left right a b x y operands.left_type
        operands.right_type
        (constant_eq_of_describes operands.left_describes bothKnown.1)
        (constant_eq_of_describes operands.right_describes bothKnown.2)
        leftRatio rightRatio
    have returned :=
      exactSymbol.runs firstDoubles a b x y operands.left_type
        operands.right_type leftRatio rightRatio
    rw [ratioArithmetic_eq, if_neg defined] at returned
    rw [exactFold, if_neg defined] at folded
    obtain ⟨known, isKnown⟩ : ∃ known,
        (createQ (exactQ operation x y)).constant = some known := by
      unfold createQ createZ
      split
      · split <;> exact ⟨_, ofConstant_constant _ _⟩
      · exact ⟨_, ofConstant_constant _ _⟩
    have same :=
      sound firstDoubles fold known (exactSymbol.registered _)
        (by rw [folded]; exact createQ_isDetermined _)
        (by rw [folded, isKnown]) a b
        operands.left_describes operands.right_describes _ returned
    refine (createQ_constant_iff _).mp ?_ isLong
    rw [isKnown, ← same]
    rfl
  · intro tooLong doubles fold' known registered determined isKnown a b leftDescribes
      rightDescribes result returned
    rw [exactSymbol.registered] at registered
    cases registered
    have bothKnown : BothKnown left right := by
      by_contra unknown
      rw [exactSymbol.unknown left right unknown] at isKnown
      cases isKnown
    obtain ⟨leftTyped, rightTyped⟩ :=
      exactSymbol.typed doubles a b result returned
    obtain ⟨x, leftRatio⟩ :=
      Numbers.exists_toRatio (leftTyped ▸ exactSymbol.notDouble.1)
    obtain ⟨y, rightRatio⟩ :=
      Numbers.exists_toRatio (rightTyped ▸ exactSymbol.notDouble.2)
    rw [exactSymbol.runs doubles a b x y leftTyped rightTyped leftRatio
      rightRatio,
      ratioArithmetic_eq] at returned
    rw [exactSymbol.folds left right a b x y leftTyped rightTyped
      (constant_eq_of_describes leftDescribes bothKnown.1)
      (constant_eq_of_describes rightDescribes bothKnown.2) leftRatio
      rightRatio,
      exactFold] at isKnown
    split at returned
    · cases returned
    · next defined =>
        rw [if_neg defined] at isKnown
        cases returned
        have notLong := tooLong bothKnown a b
          ⟨leftTyped, rightTyped, leftDescribes, rightDescribes⟩ x y leftRatio
          rightRatio
          defined
        rw [(createQ_constant_iff _).mpr notLong, Option.some.injEq] at isKnown
        exact isKnown

/-- Code for one kind of numbers returns for two of this kind. -/
theorem plain_typed
    {doubles : DoubleArithmetic}
    {operation : Operation}
    {type : NumberType}
    {a b : Number}
    {result : Result}
    (returned : generateIntrinsic doubles (.plain operation type) a b =
      .returns result) :
    a.type = type ∧ b.type = type := by
  simp only [generateIntrinsic] at returned
  split at returned
  · next typed => exact typed
  · cases returned

/-- Code for two kinds of numbers returns for these kinds. -/
theorem mixed_typed
    {doubles : DoubleArithmetic}
    {operation : Operation}
    {leftType rightType : NumberType}
    {a b : Number}
    {result : Result}
    (returned :
      generateIntrinsic doubles (.mixed operation leftType rightType) a b =
        .returns result) :
    a.type = leftType ∧ b.type = rightType := by
  simp only [generateIntrinsic] at returned
  split at returned
  · next typed => exact typed
  · cases returned

/-- Big integers are folded as they are computed. -/
theorem exactSymbol_bigInteger (operation : Arithmetic) :
    ExactSymbol (.plain (.arithmetic operation) .bigInteger) operation
      .bigInteger .bigInteger (zMath operation) where
  registered _ := rfl
  typed _ _ _ _ := plain_typed
  notDouble := by decide
  runs doubles a b x y leftTyped rightTyped leftRatio rightRatio := by
    cases a <;> cases leftTyped
    cases b <;> cases rightTyped
    cases leftRatio
    cases rightRatio
    exact bigIntegerArithmetic_eq operation _ _
  folds left right a b x y leftTyped rightTyped leftKnown rightKnown leftRatio
    rightRatio := by
    cases a <;> cases leftTyped
    cases b <;> cases rightTyped
    cases leftRatio
    cases rightRatio
    exact zMath_of_known operation leftKnown rightKnown rfl rfl
  unknown _ _ := zMath_of_unknown operation

/-- Ratios are folded as they are computed. -/
theorem exactSymbol_ratio (operation : Arithmetic) :
    ExactSymbol (.plain (.arithmetic operation) .ratio) operation .ratio .ratio
      (qMath operation) where
  registered _ := rfl
  typed _ _ _ _ := plain_typed
  notDouble := by decide
  runs doubles a b x y leftTyped rightTyped leftRatio rightRatio := by
    cases a <;> cases leftTyped
    cases b <;> cases rightTyped
    cases leftRatio
    cases rightRatio
    rfl
  folds left right a b x y leftTyped rightTyped leftKnown rightKnown leftRatio
    rightRatio :=
    qMath_of_known operation leftKnown rightKnown leftRatio rightRatio
  unknown _ _ := qMath_of_unknown operation

/-- The code for the quotient of big integers returns no number here. -/
theorem bigIntegerIntrinsic_div_ne (left right : Int) (result : Result) :
    bigIntegerIntrinsic .div left right ≠ .returns result := by
  unfold bigIntegerIntrinsic
  cases bigIntegerArithmetic .div left right <;> simp

/-- The other operations are those of big integers. -/
theorem bigIntegerIntrinsic_of_ne_div
    {operation : Arithmetic}
    (notDiv : operation ≠ .div)
    (left right : Int) :
    bigIntegerIntrinsic operation left right = bigIntegerArithmetic operation
      left right := by
  cases operation with
  | div => exact absurd rfl notDiv
  | _ => rfl

/-- The fold for numbers of two kinds that are no doubles. -/
def mixedMath (leftType rightType : NumberType) (operation : Arithmetic) :
    List ObjectTypeSet → ObjectTypeSet :=
  if leftType = .ratio ∨ rightType = .ratio then qMath operation
  else zMath operation

/-- Numbers of two kinds are folded as they are computed, unless one is a double
or integers are divided. -/
theorem exactSymbol_mixed
    (operation : Arithmetic)
    {leftType rightType : NumberType}
    (apart : leftType ≠ rightType)
    (notDouble : leftType ≠ .double ∧ rightType ≠ .double)
    (noSlip : ¬ (operation = .div ∧ leftType ≠ .ratio ∧ rightType ≠ .ratio)) :
    ExactSymbol (.mixed (.arithmetic operation) leftType rightType) operation
      leftType rightType (mixedMath leftType rightType operation) where
  registered doubles := by
    simp only [typeIntrinsics, mixedTypeIntrinsics, apart, notDouble.1,
      notDouble.2, or_self, if_false, mixedMath]
    split <;> rfl
  typed _ _ _ _ := mixed_typed
  notDouble := notDouble
  runs doubles a b x y leftTyped rightTyped leftRatio rightRatio := by
    subst leftTyped rightTyped
    cases a <;> cases b <;>
      first
      | exact absurd rfl apart
      | exact absurd rfl notDouble.1
      | exact absurd rfl notDouble.2
      | (cases leftRatio
         cases rightRatio
         first
         | rfl
         | exact (bigIntegerIntrinsic_of_ne_div
             (fun isDiv =>
               noSlip ⟨isDiv, by simp [Number.type], by simp [Number.type]⟩)
             _ _).trans (bigIntegerArithmetic_eq operation _ _))
  folds left right a b x y leftTyped rightTyped leftKnown rightKnown leftRatio
    rightRatio := by
    unfold mixedMath
    split
    · exact qMath_of_known operation leftKnown rightKnown leftRatio rightRatio
    · next notRatio =>
        subst leftTyped rightTyped
        cases a <;> cases b <;>
          first
          | exact absurd rfl apart
          | exact absurd rfl notDouble.1
          | exact absurd rfl notDouble.2
          | exact absurd (Or.inl rfl) notRatio
          | exact absurd (Or.inr rfl) notRatio
          | (cases leftRatio
             cases rightRatio
             exact zMath_of_known operation leftKnown rightKnown rfl rfl)
  unknown left right unknown := by
    unfold mixedMath
    split
    · exact qMath_of_unknown operation unknown
    · exact zMath_of_unknown operation unknown

/-! ## `Integer_div` -/

/-- The quotient of ints, reduced, with the checks that its parts are ints. -/
theorem integerDiv_of_ne_zero
    {num den : BitVec 32}
    (denNotZero : den.toInt ≠ 0)
    (numNotZero : num.toInt ≠ 0) :
    integerDiv num den =
      if !fitsInt (num.toInt.tdiv (Runtime.gcd num.toInt den.toInt)) ||
          !fitsInt (den.toInt.tdiv (Runtime.gcd num.toInt den.toInt)) then
        .undefined
      else if den.toInt.tdiv (Runtime.gcd num.toInt den.toInt) = 1 then
        boxInt (num.toInt.tdiv (Runtime.gcd num.toInt den.toInt))
      else if den.toInt.tdiv (Runtime.gcd num.toInt den.toInt) = -1 then
        boxInt (-num.toInt.tdiv (Runtime.gcd num.toInt den.toInt))
      else
        ratioCreateFromInts (num.toInt.tdiv (Runtime.gcd num.toInt den.toInt))
          (den.toInt.tdiv (Runtime.gcd num.toInt den.toInt)) := by
  unfold integerDiv
  rw [if_neg denNotZero, if_neg numNotZero,
    toInt32_of_fitsInt (fitsInt_gcd _ _ denNotZero (fitsInt_toInt den))]

/-- A value that fits a long becomes the constant of an int. -/
theorem createQ_of_fits
    {value : Int}
    (fits : fitsLong value = true) :
    (createQ (value : Rat)).constant =
    some (.integer (BitVec.ofInt 32 value)) := by
  rw [createQ_intCast, createZ, if_pos fits, ofConstant_constant]

/-- What is no integer is a ratio. -/
theorem createQ_of_den_ne_one
    {value : Rat}
    (notInteger : value.den ≠ 1) :
    (createQ value).constant = some (.ratio value) := by
  rw [createQ, if_neg notInteger, ofConstant_constant]

/-- The fold of two ints against a quotient that is not negated. -/
theorem integerDiv_constant
    {num den : BitVec 32}
    {result : Result}
    (clean :
      CleanIntDivision num.toInt den.toInt ∨
        fitsInt (num.toInt.tdiv (Runtime.gcd num.toInt den.toInt)) = false ∨
        fitsInt (den.toInt.tdiv (Runtime.gcd num.toInt den.toInt)) = false)
    (returned : integerDiv num den = .returns result) :
    (exactFold .div num.toInt den.toInt).constant =
    some (resultConstant result) := by
  by_cases denZero : den.toInt = 0
  · simp [integerDiv, denZero] at returned
  have defined : ¬ (Arithmetic.div = .div ∧ (den.toInt : Rat) = 0) := by
    simpa using denZero
  rw [exactFold, if_neg defined]
  change (createQ ((num.toInt : Rat) / den.toInt)).constant = _
  by_cases numZero : num.toInt = 0
  · simp only [integerDiv, denZero, numZero, if_true, if_false, boxInt,
      Outcome.returns.injEq] at returned
    rw [← returned, numZero, Int.cast_zero, zero_div]
    exact createQ_of_fits (by decide)
  rw [integerDiv_of_ne_zero denZero numZero] at returned
  have lowest := lowestTerms_gcd num.toInt denZero
  rw [lowest.value]
  split at returned
  · cases returned
  · next fits =>
      simp only [Bool.or_eq_true, Bool.not_eq_true', not_or,
        Bool.not_eq_false] at fits
      have fitsN := fits.1
      have fitsD := fits.2
      simp only [fitsInt, decide_eq_true_eq] at fitsN fitsD
      split at returned
      · next isOne =>
          cases returned
          rw [isOne, Int.cast_one, div_one]
          exact createQ_of_fits
            (by simp only [fitsLong, decide_eq_true_eq]; omega)
      · next notOne =>
          split at returned
          · next isMinusOne =>
              cases returned
              rw [isMinusOne, Int.cast_neg, Int.cast_one, div_neg, div_one,
                ← Int.cast_neg]
              exact createQ_of_fits
                (by simp only [fitsLong, decide_eq_true_eq]; omega)
          · next notMinusOne =>
              have notInteger := lowest.den_ne_one notOne notMinusOne
              rw [lowest.value] at notInteger
              have positive :
                  0 < den.toInt.tdiv (Runtime.gcd num.toInt den.toInt) := by
                simpa [cleanIntDivision_iff, denZero, numZero, fits.1, fits.2,
                  notMinusOne]
                  using clean
              rw [ratioCreateFromInts, if_neg lowest.d_ne_zero,
                Int.emod_eq_of_lt (by omega) (by omega)] at returned
              cases returned
              exact createQ_of_den_ne_one notInteger

/-- A negative denominator is folded to another ratio than the code returns. -/
theorem integerDiv_negative_denominator
    {num den : BitVec 32}
    (unclean : ¬ CleanIntDivision num.toInt den.toInt)
    (fitsN : fitsInt (num.toInt.tdiv (Runtime.gcd num.toInt den.toInt)) = true)
    (fitsD : fitsInt (den.toInt.tdiv (Runtime.gcd num.toInt den.toInt)) =
      true) :
    ∃ result known, integerDiv num den = .returns result ∧
      (exactFold .div num.toInt den.toInt).isDetermined = true ∧
      (exactFold .div num.toInt den.toInt).constant = some known ∧
      resultConstant result ≠ known := by
  simp only [cleanIntDivision_iff, fitsN, fitsD, true_and, not_or] at unclean
  obtain ⟨denNotZero, numNotZero, notMinusOne, notPositive⟩ := unclean
  have defined : ¬ (Arithmetic.div = .div ∧ (den.toInt : Rat) = 0) := by
    simpa using denNotZero
  have lowest := lowestTerms_gcd num.toInt denNotZero
  have dNotZero := lowest.d_ne_zero
  have notOne : den.toInt.tdiv (Runtime.gcd num.toInt den.toInt) ≠ 1 := by omega
  have notInteger := lowest.den_ne_one notOne notMinusOne
  have nNotZero : num.toInt.tdiv (Runtime.gcd num.toInt den.toInt) ≠ 0 := by
    intro isZero
    exact numNotZero (by rw [← lowest.num_eq, isZero, zero_mul])
  rw [integerDiv_of_ne_zero denNotZero numNotZero]
  simp only [fitsN, fitsD, Bool.not_true, Bool.or_self, Bool.false_eq_true,
    if_false, notOne, notMinusOne, ratioCreateFromInts, dNotZero]
  rw [exactFold, if_neg defined]
  refine ⟨_, _, rfl, createQ_isDetermined _,
    createQ_of_den_ne_one notInteger, ?_⟩
  intro same
  simp only [resultConstant, numberConstant, exactQ, lowest.value,
    Constant.ratio.injEq] at same
  exact unsigned_denominator_ne nNotZero (by omega) fitsD same

/-- The quotient of ints is folded rightly unless the code leaves a negative
denominator. -/
theorem integerDiv_pairSound_iff (left right : ObjectTypeSet) :
    PairSound .integerDiv left right ↔ NoNegativeDenominator left right := by
  have folded : ∀ {num den : BitVec 32},
      left.constant = some (.integer num) →
        right.constant = some (.integer den) →
        divFold left right = exactFold .div num.toInt den.toInt := by
    intro num den leftKnown rightKnown
    exact divFold_of_known (a := .int num) (b := .int den) leftKnown
      rightKnown rfl rfl
  constructor
  · intro sound bothKnown num den operands
    rw [← clean_or_overflow_iff]
    by_contra unclean
    simp only [not_or, Bool.not_eq_false] at unclean
    obtain ⟨unclean, fitsN, fitsD⟩ := unclean
    obtain ⟨result, known, returned, determined, isKnown, differs⟩ :=
      integerDiv_negative_denominator unclean fitsN fitsD
    rw [← folded (constant_eq_of_describes operands.left_describes bothKnown.1)
      (constant_eq_of_describes operands.right_describes
        bothKnown.2)] at determined isKnown
    exact differs (sound firstDoubles _ known rfl determined isKnown _ _
      operands.left_describes operands.right_describes result returned)
  · intro clean doubles fold known registered determined isKnown a b leftDescribes
      rightDescribes result returned
    cases registered
    have bothKnown : BothKnown left right := by
      by_contra unknown
      have missing := qMath_of_unknown .div unknown
      exact absurd (isKnown.symm.trans missing) (by simp)
    cases a with
    | int num =>
        cases b with
        | int den =>
            have isFold := folded
              (constant_eq_of_describes leftDescribes bothKnown.1)
              (constant_eq_of_describes rightDescribes bothKnown.2)
            have constant := integerDiv_constant
              ((clean_or_overflow_iff num den).mpr
                (clean bothKnown num den ⟨rfl, rfl, leftDescribes,
                  rightDescribes⟩)) returned
            change (divFold left right).constant = some known at isKnown
            rw [isFold, constant, Option.some.injEq] at isKnown
            exact isKnown
        | _ => cases returned
    | _ => cases returned

/-! ## Numbers mixed with doubles -/

/-- Two kinds of numbers of which one is the double, and not the slip of
`Mul_DB`. -/
structure MixesDouble (operation : Operation)
    (leftType rightType : NumberType) : Prop where
  apart : leftType ≠ rightType
  double : leftType = .double ∨ rightType = .double
  noSlip :
    ¬ (operation = .arithmetic .mul ∧ leftType = .double ∧
      rightType = .bigInteger)

/-- Both numbers are made doubles. -/
theorem MixesDouble.runs
    {operation : Operation}
    {a b : Number}
    (mixes : MixesDouble operation a.type b.type)
    (doubles : DoubleArithmetic) :
    generateIntrinsic doubles (.mixed operation a.type b.type) a b =
      doubleIntrinsic doubles operation (Numbers.toDouble doubles a)
        (Numbers.toDouble doubles b) := by
  obtain ⟨apart, double, noSlip⟩ := mixes
  simp only [generateIntrinsic, and_self, if_true]
  cases a <;> cases b <;>
    simp_all [Number.type, mixedIntrinsic, Numbers.toDouble]

/-- A fold is registered, and does not ask whether the constants exist. -/
theorem MixesDouble.registered
    {operation : Operation}
    {leftType rightType : NumberType}
    (mixes : MixesDouble operation leftType rightType)
    (doubles : DoubleArithmetic) :
    ∃ fold, typeIntrinsics doubles (.mixed operation leftType rightType) =
      some fold ∧
      ∀ left right,
        fold [left, right] = mixedDoubleFold doubles operation left right := by
  obtain ⟨apart, double, -⟩ := mixes
  simp only [typeIntrinsics, mixedTypeIntrinsics, apart, double, if_true,
    if_false]
  cases operation <;> exact ⟨_, rfl, fun _ _ => rfl⟩

/-- Doubles that show one of their operands: every conversion gives one. -/
def probe (select : Double → Double → Double) : DoubleArithmetic where
  apply _ := select
  holds _ first second := decide (select first second ≠ 0)
  ofInt _ := 1
  ofBigInteger _ := 1
  ofRatio _ := 1

/-- A type set without a constant describes a number that the probe reads as
one. -/
theorem exists_probed
    {types : ObjectTypeSet}
    {number : Number}
    (select : Double → Double → Double)
    (describes : types.Describes (.constant (numberConstant number)))
    (unknown : types.constant = none) :
    ∃ probed, probed.type = number.type ∧
      types.Describes (.constant (numberConstant probed)) ∧
      Numbers.toDouble (probe select) probed = 1 := by
  cases number with
  | double value =>
      refine ⟨.double 1, rfl, ⟨describes.1, ?_⟩, rfl⟩
      intro known isKnown
      rw [unknown] at isKnown
      cases isKnown
  | int value => exact ⟨_, rfl, describes, rfl⟩
  | bigInteger value => exact ⟨_, rfl, describes, rfl⟩
  | ratio value => exact ⟨_, rfl, describes, rfl⟩

/-- Under the probe a fold that reads zero differs from code that reads one. -/
theorem MixesDouble.not_pairSound
    {operation : Operation}
    {a b : Number}
    (mixes : MixesDouble operation a.type b.type)
    {left right : ObjectTypeSet}
    (select : Double → Double → Double)
    (leftDescribes : left.Describes (.constant (numberConstant a)))
    (rightDescribes : right.Describes (.constant (numberConstant b)))
    (folded : select (getD (probe select) left) (getD (probe select) right) = 0)
    (computed :
      select (Numbers.toDouble (probe select) a)
        (Numbers.toDouble (probe select) b) = 1) :
    ¬ PairSound (.mixed operation a.type b.type) left right := by
  intro sound
  obtain ⟨fold, registered, folds⟩ := mixes.registered (probe select)
  have runs := mixes.runs (probe select)
  have foldIs := folds left right
  cases operation with
  | arithmetic operation =>
      have same := sound (probe select) fold _ registered
        (by rw [foldIs]; exact ofConstant_isDetermined _ _)
        (by rw [foldIs]; exact ofConstant_constant _ _) a b leftDescribes
        rightDescribes
        _ runs
      change Constant.double (select _ _) = Constant.double (select _ _) at same
      rw [folded, computed] at same
      exact absurd same (by decide)
  | comparison comparison =>
      have same := sound (probe select) fold _ registered
        (by rw [foldIs]; exact ofConstant_isDetermined _ _)
        (by rw [foldIs]; exact ofConstant_constant _ _) a b leftDescribes
        rightDescribes
        _ runs
      change Constant.boolean (decide (select _ _ ≠ 0)) =
        Constant.boolean (decide (select _ _ ≠ 0)) at same
      rw [folded, computed] at same
      exact absurd same (by decide)

/-- A mixed fold is sound when no constant is missing. -/
theorem MixesDouble.pairSound_iff
    {operation : Operation}
    {leftType rightType : NumberType}
    (mixes : MixesDouble operation leftType rightType)
    (left right : ObjectTypeSet) :
    PairSound (.mixed operation leftType rightType) left right ↔
      ∀ a b, Operands left right leftType rightType a b →
        BothKnown left right := by
  constructor
  · rintro sound a b ⟨rfl, rfl, leftDescribes, rightDescribes⟩
    constructor
    · by_contra unknown
      rw [Option.not_isSome_iff_eq_none] at unknown
      obtain ⟨probed, sameType, probedDescribes, readsOne⟩ :=
        exists_probed (fun first _ => first) leftDescribes unknown
      rw [← sameType] at mixes sound
      exact mixes.not_pairSound (fun first _ => first) probedDescribes
        rightDescribes (getD_of_unknown unknown) readsOne sound
    · by_contra unknown
      rw [Option.not_isSome_iff_eq_none] at unknown
      obtain ⟨probed, sameType, probedDescribes, readsOne⟩ :=
        exists_probed (fun _ second => second) rightDescribes unknown
      rw [← sameType] at mixes sound
      exact mixes.not_pairSound (fun _ second => second) leftDescribes
        probedDescribes (getD_of_unknown unknown) readsOne sound
  · intro bothKnown doubles fold known registered determined isKnown a b leftDescribes
      rightDescribes result returned
    obtain ⟨rfl, rfl⟩ := mixed_typed returned
    obtain ⟨fold', registered', folds⟩ := mixes.registered doubles
    rw [registered, Option.some.injEq] at registered'
    subst registered'
    have allKnown := bothKnown a b ⟨rfl, rfl, leftDescribes, rightDescribes⟩
    have leftD :=
      getD_of_known doubles (constant_eq_of_describes leftDescribes allKnown.1)
    have rightD :=
      getD_of_known doubles (constant_eq_of_describes rightDescribes allKnown.2)
    rw [folds] at isKnown
    rw [mixes.runs doubles] at returned
    cases operation with
    | arithmetic operation =>
        cases returned
        simpa [mixedDoubleFold, leftD, rightD] using isKnown
    | comparison comparison =>
        cases returned
        simpa [mixedDoubleFold, leftD, rightD] using isKnown

/-! ## Folds that compute what the code computes -/

/-- A fold with both constants whose result is what the code returns. -/
theorem pairSound_foldWith
    {α : Type}
    {symbol : Symbol}
    {wrongArity otherwise : ObjectTypeSet}
    {getter : ObjectTypeSet → Option α}
    {read : Number → Option α}
    {apply : DoubleArithmetic → α → α → ObjectTypeSet}
    (reads : Reads getter read)
    (registered :
      ∀ doubles, typeIntrinsics doubles symbol =
        some (binaryFold wrongArity
          (foldWith getter otherwise (apply doubles))))
    (noConstant : otherwise.constant = none)
    (runs :
      ∀ doubles a b result,
        generateIntrinsic doubles symbol a b = .returns result →
        ∃ x y, read a = some x ∧ read b = some y ∧
          ∀ known, (apply doubles x y).constant = some known →
            resultConstant result = known)
    (left right : ObjectTypeSet) :
    PairSound symbol left right := by
  intro doubles fold known isFold determined isKnown a b leftDescribes rightDescribes
    result returned
  rw [registered, Option.some.injEq] at isFold
  subst isFold
  change (foldWith getter otherwise (apply doubles) left right).constant =
    some known at isKnown
  have bothKnown : BothKnown left right := by
    by_contra unknown
    rw [foldWith_of_unknown reads unknown, noConstant] at isKnown
    cases isKnown
  obtain ⟨x, y, leftValue, rightValue, same⟩ := runs doubles a b result returned
  rw [foldWith_of_known reads
    (constant_eq_of_describes leftDescribes bothKnown.1)
    (constant_eq_of_describes rightDescribes bothKnown.2) leftValue
    rightValue] at isKnown
  exact same known isKnown

/-- What is returned is the int of the value. -/
theorem checkedInt_eq_returns
    {value : Int}
    {result : Result}
    (returned : Numbers.checkedInt value = .returns result) :
    result = .number (.int (BitVec.ofInt 32 value)) := by
  unfold Numbers.checkedInt at returned
  split at returned
  · cases returned
    rfl
  · cases returned

/-- Folding wraps where the code throws. -/
theorem pairSound_int_arithmetic (operation : Arithmetic)
    (left right : ObjectTypeSet) :
    PairSound (.plain (.arithmetic operation) .int) left right := by
  apply pairSound_foldWith reads_getInteger (fun _ => rfl) rfl
  intro doubles a b result returned
  obtain ⟨leftTyped, rightTyped⟩ := plain_typed returned
  cases a <;> cases leftTyped
  cases b <;> cases rightTyped
  next a b =>
    refine ⟨a, b, rfl, rfl, ?_⟩
    intro known isKnown
    change intIntrinsic operation a b = .returns result at returned
    cases operation with
    | add =>
        rw [checkedInt_eq_returns returned, BitVec.ofInt_add,
          BitVec.ofInt_toInt, BitVec.ofInt_toInt]
        simpa using isKnown
    | sub =>
        rw [checkedInt_eq_returns returned, Int.sub_eq_add_neg,
          BitVec.ofInt_add, BitVec.ofInt_neg, BitVec.ofInt_toInt,
          BitVec.ofInt_toInt, ← BitVec.sub_eq_add_neg]
        simpa using isKnown
    | mul =>
        rw [checkedInt_eq_returns returned, BitVec.ofInt_mul,
          BitVec.ofInt_toInt, BitVec.ofInt_toInt]
        simpa using isKnown
    | div =>
        simp only [intIntrinsic] at returned
        split at returned
        · cases returned
        · next defined =>
            cases returned
            rw [not_or] at defined
            simpa [defined.1] using isKnown

/-- Ints are compared as their constants are. -/
theorem pairSound_int_comparison (comparison : Comparison)
    (left right : ObjectTypeSet) :
    PairSound (.plain (.comparison comparison) .int) left right := by
  apply pairSound_foldWith reads_getInteger (fun _ => rfl) rfl
  intro doubles a b result returned
  obtain ⟨leftTyped, rightTyped⟩ := plain_typed returned
  cases a <;> cases leftTyped
  cases b <;> cases rightTyped
  cases returned
  exact ⟨_, _, rfl, rfl, fun known isKnown =>
    by simpa [booleanConstant] using isKnown⟩

/-- Doubles are computed as their constants are. -/
theorem pairSound_double_arithmetic (operation : Arithmetic)
    (left right : ObjectTypeSet) :
    PairSound (.plain (.arithmetic operation) .double) left right := by
  apply pairSound_foldWith reads_getDouble (fun _ => rfl) rfl
  intro doubles a b result returned
  obtain ⟨leftTyped, rightTyped⟩ := plain_typed returned
  cases a <;> cases leftTyped
  cases b <;> cases rightTyped
  cases returned
  refine ⟨_, _, rfl, rfl, fun known isKnown => ?_⟩
  split at isKnown
  · cases isKnown
  · simpa using isKnown

/-- Doubles are compared as their constants are. -/
theorem pairSound_double_comparison (comparison : Comparison)
    (left right : ObjectTypeSet) :
    PairSound (.plain (.comparison comparison) .double) left right := by
  apply pairSound_foldWith reads_getDouble (fun _ => rfl) rfl
  intro doubles a b result returned
  obtain ⟨leftTyped, rightTyped⟩ := plain_typed returned
  cases a <;> cases leftTyped
  cases b <;> cases rightTyped
  cases returned
  exact ⟨_, _, rfl, rfl, fun known isKnown =>
    by simpa [booleanConstant] using isKnown⟩

/-- Big integers are compared as their constants are. -/
theorem pairSound_bigInteger_comparison
    (comparison : Comparison)
    (left right : ObjectTypeSet) :
    PairSound (.plain (.comparison comparison) .bigInteger) left right := by
  apply pairSound_foldWith reads_getZ (fun _ => rfl) rfl
  intro doubles a b result returned
  obtain ⟨leftTyped, rightTyped⟩ := plain_typed returned
  cases a <;> cases leftTyped
  cases b <;> cases rightTyped
  cases returned
  exact ⟨_, _, rfl, rfl, fun known isKnown =>
    by simpa [booleanConstant] using isKnown⟩

/-- Ratios are compared as their constants are. -/
theorem pairSound_ratio_comparison (comparison : Comparison)
    (left right : ObjectTypeSet) :
    PairSound (.plain (.comparison comparison) .ratio) left right := by
  apply pairSound_foldWith reads_getQ (fun _ => rfl) rfl
  intro doubles a b result returned
  obtain ⟨leftTyped, rightTyped⟩ := plain_typed returned
  cases a <;> cases leftTyped
  cases b <;> cases rightTyped
  -- there is no function `Ratio_equiv`
  cases comparison <;> cases returned <;>
    exact ⟨_, _, rfl, rfl, fun known isKnown =>
      by simpa [booleanConstant] using isKnown⟩

/-- Without a fold there is nothing to respect. -/
theorem pairSound_of_unregistered
    {symbol : Symbol}
    (unregistered : ∀ doubles, typeIntrinsics doubles symbol = none)
    (left right : ObjectTypeSet) :
    PairSound symbol left right := by
  intro doubles fold known registered
  rw [unregistered] at registered
  cases registered

/-- Numbers of two kinds are compared as rational numbers. -/
theorem mixed_comparison_runs
    {doubles : DoubleArithmetic}
    {comparison : Comparison}
    {leftType rightType : NumberType}
    {a b : Number}
    {result : Result}
    (notDouble : ¬ (leftType = .double ∨ rightType = .double))
    (returned :
      generateIntrinsic doubles
        (.mixed (.comparison comparison) leftType rightType) a b =
        .returns result) :
    ∃ x y, Numbers.toRatio a = some x ∧ Numbers.toRatio b = some y ∧
      result = .boolean (comparison.test (cmp x y)) := by
  obtain ⟨rfl, rfl⟩ := mixed_typed returned
  simp only [generateIntrinsic, and_self, if_true] at returned
  cases a <;> cases b <;>
    first
    | exact absurd (Or.inl rfl) notDouble
    | exact absurd (Or.inr rfl) notDouble
    | (cases comparison <;> cases returned <;> exact ⟨_, _, rfl, rfl, rfl⟩)

/-- Comparisons of exact numbers of two kinds. -/
theorem pairSound_mixed_comparison
    (comparison : Comparison)
    {leftType rightType : NumberType}
    (notDouble : ¬ (leftType = .double ∨ rightType = .double))
    (left right : ObjectTypeSet) :
    PairSound (.mixed (.comparison comparison) leftType rightType) left
      right := by
  by_cases registered :
      leftType ≠ rightType ∧ (leftType = .ratio ∨ rightType = .ratio) ∧
        comparison ≠ .equiv
  · have isFold : ∀ doubles,
        typeIntrinsics doubles
          (.mixed (.comparison comparison) leftType rightType) =
          some (binaryFold (plainType .booleanType) (qCmpFold comparison)) := by
      intro doubles
      obtain ⟨apart, hasRatio, notEquiv⟩ := registered
      simp only [typeIntrinsics, mixedTypeIntrinsics, apart, notDouble,
        hasRatio, if_true, if_false]
    apply pairSound_foldWith reads_getQ isFold rfl
    intro doubles a b result returned
    obtain ⟨x, y, leftRatio, rightRatio, rfl⟩ :=
      mixed_comparison_runs notDouble returned
    exact ⟨x, y, leftRatio, rightRatio, fun known isKnown => by
      simpa [booleanConstant] using isKnown⟩
  · apply pairSound_of_unregistered
    intro doubles
    simp only [typeIntrinsics, mixedTypeIntrinsics, notDouble, if_false]
    by_cases same : leftType = rightType
    · rw [if_pos same]
    rw [if_neg same]
    by_cases hasRatio : leftType = .ratio ∨ rightType = .ratio
    · rw [if_pos hasRatio]
      have isEquiv : comparison = .equiv := by
        by_contra notEquiv
        exact registered ⟨same, hasRatio, notEquiv⟩
      rw [isEquiv]
    · rw [if_neg hasRatio]

/-- `Div_IB` and `Div_BI` return no number. -/
theorem pairSound_div_mixed
    {operation : Arithmetic}
    {leftType rightType : NumberType}
    (apart : leftType ≠ rightType)
    (notDouble : leftType ≠ .double ∧ rightType ≠ .double)
    (slip : operation = .div ∧ leftType ≠ .ratio ∧ rightType ≠ .ratio)
    (left right : ObjectTypeSet) :
    PairSound (.mixed (.arithmetic operation) leftType rightType) left
      right := by
  obtain ⟨rfl, notRatio⟩ := slip
  intro doubles fold known registered determined isKnown a b leftDescribes rightDescribes
    result returned
  obtain ⟨rfl, rfl⟩ := mixed_typed returned
  simp only [generateIntrinsic, and_self, if_true] at returned
  exfalso
  cases a <;> cases b <;>
    first
    | exact apart rfl
    | exact notDouble.1 rfl
    | exact notDouble.2 rfl
    | exact notRatio.1 rfl
    | exact notRatio.2 rfl
    | exact absurd returned (bigIntegerIntrinsic_div_ne _ _ result)

/-! ## All symbols -/

/-- For numbers of two kinds, case by case over the folds that are
registered. -/
theorem mixed_pairSound_iff
    (operation : Operation)
    (leftType rightType : NumberType)
    (left right : ObjectTypeSet) :
    PairSound (.mixed operation leftType rightType) left right ↔
      MixedFoldsSafely operation leftType rightType left right := by
  unfold MixedFoldsSafely
  split
  · next same =>
      apply iff_of_true _ trivial
      exact pairSound_of_unregistered
        (fun doubles => by simp [typeIntrinsics, mixedTypeIntrinsics, same])
        left right
  · next apart =>
      split
      · next double =>
          by_cases slip :
              operation = .arithmetic .mul ∧ leftType = .double ∧
                rightType = .bigInteger
          · apply iff_of_true _ (Or.inl slip)
            obtain ⟨rfl, rfl, rfl⟩ := slip
            intro doubles fold known registered determined isKnown a b leftDescribes
              rightDescribes result returned
            obtain ⟨leftTyped, rightTyped⟩ := mixed_typed returned
            cases a <;> cases leftTyped
            cases b <;> cases rightTyped
            cases returned
          · rw [MixesDouble.pairSound_iff ⟨apart, double, slip⟩ left right]
            exact (or_iff_right slip).symm
      · next notDouble =>
          cases operation with
          | arithmetic operation =>
              by_cases slip : operation = .div ∧ leftType ≠ .ratio ∧
                rightType ≠ .ratio
              · apply iff_of_true _ (Or.inl slip)
                exact pairSound_div_mixed apart (not_or.mp notDouble) slip
                  left right
              · rw [(exactSymbol_mixed operation apart (not_or.mp notDouble)
                  slip).pairSound_iff
                  left right]
                exact (or_iff_right slip).symm
          | comparison comparison =>
              exact iff_of_true
                (pairSound_mixed_comparison comparison notDouble left right)
                trivial

/-- Case by case over the symbols. -/
theorem pairSound_iff (symbol : Symbol) (left right : ObjectTypeSet) :
    PairSound symbol left right ↔ FoldsSafely symbol left right := by
  cases symbol with
  | plain operation type =>
      cases operation with
      | arithmetic operation =>
          cases type with
          | int =>
              exact iff_of_true
                (pairSound_int_arithmetic operation left right) trivial
          | double =>
              exact iff_of_true
                (pairSound_double_arithmetic operation left right) trivial
          | bigInteger =>
              exact (exactSymbol_bigInteger operation).pairSound_iff left right
          | ratio =>
              exact (exactSymbol_ratio operation).pairSound_iff left right
      | comparison comparison =>
          cases type with
          | int =>
              exact iff_of_true
                (pairSound_int_comparison comparison left right) trivial
          | double =>
              exact iff_of_true
                (pairSound_double_comparison comparison left right) trivial
          | bigInteger =>
              exact iff_of_true
                (pairSound_bigInteger_comparison comparison left right) trivial
          | ratio =>
              exact iff_of_true
                (pairSound_ratio_comparison comparison left right) trivial
  | mixed operation leftType rightType =>
      exact mixed_pairSound_iff operation leftType rightType left right
  | integerDiv => exact integerDiv_pairSound_iff left right
  | bigIntegerEqualsInt =>
      exact iff_of_true
        (pairSound_of_unregistered (fun _ => rfl) left right) trivial
  | bigIntegerIntEquals =>
      exact iff_of_true
        (pairSound_of_unregistered (fun _ => rfl) left right) trivial
  | numbers operation =>
      exact iff_of_true
        (pairSound_of_unregistered (fun _ => rfl) left right) trivial
  | equalsManaged =>
      exact iff_of_true
        (pairSound_of_unregistered (fun _ => rfl) left right) trivial

/-- For every symbol and every list of type sets, when folding is sound. -/
theorem foldSound_iff (symbol : Symbol) (args : List ObjectTypeSet) :
    FoldSound symbol args ↔
      ∀ left right, args = [left, right] → FoldsSafely symbol left right := by
  constructor
  · rintro sound left right rfl
    exact (pairSound_iff symbol left right).mp
      ((foldSound_pair_iff _ _ _).mp sound)
  · intro safely
    by_cases two : args.length = 2
    · obtain ⟨left, right, rfl⟩ := List.length_eq_two.mp two
      exact (foldSound_pair_iff _ _ _).mpr
        ((pairSound_iff symbol left right).mpr (safely left right rfl))
    · exact foldSound_of_length_ne two

/-- `(+ x 2.5)` for an int `x` of which nothing is known is folded as if `x`
were zero. -/
theorem add_unknown_int_unsound :
    ¬ FoldSound (.mixed (.arithmetic .add) .int .double)
      [plainType .integerType,
        .ofConstant (.double 0x4004000000000000) false] := by
  rw [foldSound_pair_iff, pairSound_iff]
  rintro (⟨isMul, -⟩ | bothKnown)
  · cases isMul
  · have operands :
        Operands (plainType .integerType)
          (.ofConstant (.double 0x4004000000000000) false) .int .double (.int 1)
          (.double 0x4004000000000000) :=
      ⟨rfl, rfl, ObjectTypeSet.describes_ofType rfl false,
        ObjectTypeSet.describes_ofConstant _ false⟩
    have known := (bothKnown _ _ operands).1
    exact Bool.noConfusion known

end Codegen
end ClojureRt
