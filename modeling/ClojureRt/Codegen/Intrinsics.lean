import ClojureRt.Codegen.ObjectTypeSet

/-!
# Overloads of the static functions on numbers

The tables of `rt-classes.edn` for `clojure.lang.Numbers`, and for `equiv` of
`clojure.lang.Util`, name one intrinsic or C function for each pair of argument
types. This module has the tables, the choice of `StaticCallNode` and what the
code generated for each symbol does.
-/

namespace ClojureRt
namespace Codegen

open ClojureRt.Runtime

/-- The symbols of the tables and of the registered intrinsics, by what their
names are made of. -/
inductive Symbol
  /-- `Add`, `FAdd`, `BigInteger_add`, `Ratio_add`, `ICmpSGE`, `FCmpOGE`,
  `BigInteger_gte`, `Ratio_gte` and so on: two numbers of one kind. -/
  | plain (operation : Operation) (type : NumberType)
  /-- `Add_ID`, `ICmpSGE_ID`, `FCmpOGE_BD`, `FCmpOGE_IR` and so on: numbers of
  two kinds,   named by the letters `I`, `D`, `B` and `R`. -/
  | mixed (operation : Operation) (left right : NumberType)
  /-- `Integer_div`. -/
  | integerDiv
  /-- `BigInteger_equalsInt`. -/
  | bigIntegerEqualsInt
  /-- `BigInteger_intEquals`. -/
  | bigIntegerIntEquals
  /-- `Numbers_add` and so on. -/
  | numbers (operation : Operation)
  /-- `equals_managed`. -/
  | equalsManaged
  deriving DecidableEq

/-- The object type of a kind of numbers. -/
def numberObjectType : NumberType → ObjectType
  | .int => .integerType
  | .double => .doubleType
  | .bigInteger => .bigIntegerType
  | .ratio => .ratioType

/-- The constant that a number is. -/
def numberConstant : Number → Constant
  | .int value => .integer value
  | .double value => .double value
  | .bigInteger value => .bigInteger value
  | .ratio value => .ratio value

/-- The constant that a result is. -/
def resultConstant : Result → Constant
  | .number value => numberConstant value
  | .boolean value => .boolean value

@[simp] theorem resultConstant_int (value : BitVec 32) :
    resultConstant (.number (.int value)) = .integer value := rfl

@[simp] theorem resultConstant_double (value : Double) :
    resultConstant (.number (.double value)) = .double value := rfl

@[simp] theorem resultConstant_boolean (value : Bool) :
    resultConstant (.boolean value) = .boolean value := rfl

/-- The number that a value is. -/
def Value.toNumber : Value → Option Number
  | .constant (.integer value) => some (.int value)
  | .constant (.double value) => some (.double value)
  | .constant (.bigInteger value) => some (.bigInteger value)
  | .constant (.ratio value) => some (.ratio value)
  | _ => none

/-- `IntrinsicDescription`, for two arguments. -/
structure IntrinsicDescription where
  left : ObjectTypeSet
  right : ObjectTypeSet
  symbol : Symbol

/-! ## The tables -/

/-- The type set of an argument of one kind. -/
def numberTypeSet (type : NumberType) : ObjectTypeSet :=
  .ofType (numberObjectType type) false none

/-- An entry for two numbers of one kind. -/
def samePair (operation : Operation) (type : NumberType) :
    IntrinsicDescription :=
  ⟨numberTypeSet type, numberTypeSet type, .plain operation type⟩

/-- An entry for numbers of two kinds. -/
def mixedPair (operation : Operation) (left right : NumberType) :
    IntrinsicDescription :=
  ⟨numberTypeSet left, numberTypeSet right, .mixed operation left right⟩

/-- The entry `[:any :any]`. -/
def anyPair (symbol : Symbol) : IntrinsicDescription :=
  ⟨.all, .all, symbol⟩

/-- The entries of `:static-fns`, in their order. -/
def overloads : Operation → List IntrinsicDescription
  | .arithmetic .div =>
      [samePair (.arithmetic .div) .double,
        ⟨numberTypeSet .int, numberTypeSet .int, .integerDiv⟩,
        mixedPair (.arithmetic .div) .int .double,
        mixedPair (.arithmetic .div) .double .int,
        mixedPair (.arithmetic .div) .bigInteger .double,
        mixedPair (.arithmetic .div) .double .bigInteger,
        mixedPair (.arithmetic .div) .ratio .double,
        mixedPair (.arithmetic .div) .double .ratio,
        mixedPair (.arithmetic .div) .bigInteger .ratio,
        mixedPair (.arithmetic .div) .ratio .bigInteger,
        mixedPair (.arithmetic .div) .int .ratio,
        mixedPair (.arithmetic .div) .ratio .int,
        samePair (.arithmetic .div) .bigInteger,
        samePair (.arithmetic .div) .ratio,
        anyPair (.numbers (.arithmetic .div))]
  | .arithmetic operation =>
      [samePair (.arithmetic operation) .double,
        samePair (.arithmetic operation) .int,
        mixedPair (.arithmetic operation) .int .double,
        mixedPair (.arithmetic operation) .double .int,
        mixedPair (.arithmetic operation) .int .bigInteger,
        mixedPair (.arithmetic operation) .bigInteger .int,
        mixedPair (.arithmetic operation) .bigInteger .double,
        mixedPair (.arithmetic operation) .double .bigInteger,
        mixedPair (.arithmetic operation) .ratio .double,
        mixedPair (.arithmetic operation) .double .ratio,
        mixedPair (.arithmetic operation) .bigInteger .ratio,
        mixedPair (.arithmetic operation) .ratio .bigInteger,
        mixedPair (.arithmetic operation) .int .ratio,
        mixedPair (.arithmetic operation) .ratio .int,
        samePair (.arithmetic operation) .bigInteger,
        samePair (.arithmetic operation) .ratio,
        anyPair (.numbers (.arithmetic operation))]
  | .comparison .equiv =>
      [samePair (.comparison .equiv) .int,
        samePair (.comparison .equiv) .double,
        mixedPair (.comparison .equiv) .bigInteger .double,
        ⟨numberTypeSet .bigInteger, numberTypeSet .int, .bigIntegerEqualsInt⟩,
        ⟨numberTypeSet .int, numberTypeSet .bigInteger, .bigIntegerIntEquals⟩,
        mixedPair (.comparison .equiv) .double .bigInteger,
        mixedPair (.comparison .equiv) .ratio .double,
        mixedPair (.comparison .equiv) .double .ratio,
        mixedPair (.comparison .equiv) .int .double,
        mixedPair (.comparison .equiv) .double .int,
        anyPair .equalsManaged]
  | .comparison comparison =>
      [samePair (.comparison comparison) .double,
        samePair (.comparison comparison) .int,
        mixedPair (.comparison comparison) .int .double,
        mixedPair (.comparison comparison) .double .int,
        mixedPair (.comparison comparison) .bigInteger .double,
        mixedPair (.comparison comparison) .double .bigInteger,
        mixedPair (.comparison comparison) .ratio .double,
        mixedPair (.comparison comparison) .double .ratio,
        mixedPair (.comparison comparison) .bigInteger .ratio,
        mixedPair (.comparison comparison) .ratio .bigInteger,
        mixedPair (.comparison comparison) .int .ratio,
        mixedPair (.comparison comparison) .ratio .int,
        samePair (.comparison comparison) .bigInteger,
        samePair (.comparison comparison) .ratio,
        anyPair (.numbers (.comparison comparison))]

/-- The first entry whose argument types admit those of the call. -/
def bestMatch
    (operation : Operation)
    (left right : ObjectTypeSet) : Option IntrinsicDescription :=
  (overloads operation).find? fun id =>
    !(left.restriction id.left).isEmpty && !(right.restriction id.right).isEmpty

/-! ## Generated code -/

/-- `createCheckedOp`, and `sdiv` for `Div`. -/
def intIntrinsic (operation : Arithmetic) (left right : BitVec 32) : Outcome :=
  match operation with
  | .add => Numbers.checkedInt (left.toInt + right.toInt)
  | .sub => Numbers.checkedInt (left.toInt - right.toInt)
  | .mul => Numbers.checkedInt (left.toInt * right.toInt)
  | .div =>
      if right.toInt = 0 ∨
        fitsInt (left.toInt.tdiv right.toInt) = false then .undefined
      else boxInt (left.toInt.tdiv right.toInt)

/-- The instruction on doubles that an intrinsic ends in. -/
def doubleIntrinsic
    (doubles : DoubleArithmetic)
    (operation : Operation)
    (left right : Double) : Outcome :=
  match operation with
  | .arithmetic operation =>
      .returns (.number (.double (doubles.apply operation left right)))
  | .comparison comparison =>
      .returns (.boolean (doubles.holds comparison left right))

/-- The function on ratios that an intrinsic ends in.  There is no function
`Ratio_equiv` in the runtime. -/
def ratioIntrinsic (operation : Operation) (left right : Rat) : Outcome :=
  match operation with
  | .arithmetic operation => ratioArithmetic operation left right
  | .comparison .equiv => .undefined
  | .comparison comparison => ratioComparison comparison left right

/-- Intrinsics and functions on two numbers of one kind. -/
def plainIntrinsic
    (doubles : DoubleArithmetic)
    (operation : Operation)
    (left right : Number) : Outcome :=
  match operation, left, right with
  | .arithmetic operation, .int a, .int b => intIntrinsic operation a b
  | .comparison comparison, .int a, .int b =>
      .returns (.boolean (comparison.test (cmp a.toInt b.toInt)))
  | operation, .double a, .double b => doubleIntrinsic doubles operation a b
  | .arithmetic operation, .bigInteger a, .bigInteger b =>
      bigIntegerArithmetic operation a b
  | .comparison comparison, .bigInteger a, .bigInteger b =>
      bigIntegerComparison comparison a b
  | operation, .ratio a, .ratio b => ratioIntrinsic operation a b
  | _, _, _ => .undefined

/-- What `makeIB` and `makeBI` end in.  They take the result for the address of
a big integer, and `BigInteger_div` gives a boxed value, which is no address. -/
def bigIntegerIntrinsic (operation : Arithmetic) (left right : Int) : Outcome :=
  match operation, bigIntegerArithmetic operation left right with
  | .div, .returns _ => .undefined
  | _, outcome => outcome

/-- Intrinsics on numbers of two kinds.  `Mul_DB` is made by `makeBD`: it hands
the double to `BigInteger_toDouble`. -/
def mixedIntrinsic
    (doubles : DoubleArithmetic)
    (operation : Operation)
    (left right : Number) : Outcome :=
  match left, right with
  | .int a, .double b => doubleIntrinsic doubles operation (doubles.ofInt a) b
  | .double a, .int b => doubleIntrinsic doubles operation a (doubles.ofInt b)
  | .bigInteger a, .double b =>
      doubleIntrinsic doubles operation (doubles.ofBigInteger a) b
  | .double a, .bigInteger b =>
      if operation = .arithmetic .mul then .undefined
      else doubleIntrinsic doubles operation a (doubles.ofBigInteger b)
  | .ratio a, .double b =>
      doubleIntrinsic doubles operation (doubles.ofRatio a) b
  | .double a, .ratio b =>
      doubleIntrinsic doubles operation a (doubles.ofRatio b)
  | .int a, .bigInteger b =>
      match operation with
      | .arithmetic operation => bigIntegerIntrinsic operation a.toInt b
      | .comparison _ => .undefined
  | .bigInteger a, .int b =>
      match operation with
      | .arithmetic operation => bigIntegerIntrinsic operation a b.toInt
      | .comparison _ => .undefined
  | .bigInteger a, .ratio b => ratioIntrinsic operation a b
  | .ratio a, .bigInteger b => ratioIntrinsic operation a b
  | .int a, .ratio b => ratioIntrinsic operation a.toInt b
  | .ratio a, .int b => ratioIntrinsic operation a b.toInt
  | _, _ => .undefined

/-- `generateIntrinsic`: what the generated code does.  Arguments of other types
than the symbol is for are undefined. -/
def generateIntrinsic
    (doubles : DoubleArithmetic)
    (symbol : Symbol)
    (left right : Number) : Outcome :=
  match symbol with
  | .plain operation type =>
      if left.type = type ∧ right.type = type then
        plainIntrinsic doubles operation left right
      else .undefined
  | .mixed operation leftType rightType =>
      if left.type = leftType ∧ right.type = rightType then
        mixedIntrinsic doubles operation left right
      else .undefined
  | .integerDiv =>
      match left, right with
      | .int num, .int den => integerDiv num den
      | _, _ => .undefined
  | .bigIntegerEqualsInt =>
      match left, right with
      | .bigInteger self, .int other =>
          .returns (.boolean (decide (self = other.toInt)))
      | _, _ => .undefined
  | .bigIntegerIntEquals =>
      match left, right with
      | .int other, .bigInteger self =>
          .returns (.boolean (decide (self = other.toInt)))
      | _, _ => .undefined
  | .numbers operation => Numbers.apply doubles operation left right
  | .equalsManaged => Numbers.equalsManaged left right

/-- `codegen` of a `StaticCallNode` whose argument types are known: the code of
the best match. -/
def staticCall
    (doubles : DoubleArithmetic)
    (operation : Operation)
    (left right : Number) : Outcome :=
  match bestMatch operation (numberTypeSet left.type)
    (numberTypeSet right.type) with
  | some id => generateIntrinsic doubles id.symbol left right
  | none => .undefined

end Codegen
end ClojureRt
