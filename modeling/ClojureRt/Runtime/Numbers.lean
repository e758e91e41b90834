import Mathlib

/-!
# Numbers of the runtime

The four kinds of numbers, the C functions that compute with two numbers of one
kind (`BigInteger.c`, `Ratio.c`, `Integer.c`) and the generic functions of
`Numbers.c` that choose among them at run time.

Integers of any size and rationals are those of GMP, in canonical form.  A
double is its bit pattern, and what is computed with doubles is a parameter,
`DoubleArithmetic`. The reference counts of the arguments are left out: a
function that reuses an argument stores the same number into it.
-/

namespace ClojureRt
namespace Runtime

/-- The bit pattern of a double. -/
abbrev Double := BitVec 64

/-- The numeric values. -/
inductive Number
  | int (value : BitVec 32)
  | double (value : Double)
  | bigInteger (value : Int)
  | ratio (value : Rat)
  deriving DecidableEq

/-- The kinds of numbers. -/
inductive NumberType
  | int
  | double
  | bigInteger
  | ratio
  deriving DecidableEq

/-- What an operation on numbers returns. -/
inductive Result
  | number (value : Number)
  | boolean (value : Bool)
  deriving DecidableEq

/-- The exceptions of arithmetic, both thrown by
`throwArithmeticException_C`. -/
inductive ArithmeticException
  /-- `Integer overflow`. -/
  | integerOverflow
  /-- `Divide by zero`. -/
  | divideByZero
  deriving DecidableEq

/-- How an operation ends.  `undefined` is everything the code does not define:
an overflow of C, a call with an argument of the wrong machine type, a function
that does not exist. -/
inductive Outcome
  | returns (result : Result)
  | throws (exception : ArithmeticException)
  | undefined
  deriving DecidableEq

/-- The same result, or an exception on both sides. -/
def Outcome.Agrees : Outcome → Outcome → Prop
  | .returns first, .returns second => first = second
  | .throws _, .throws _ => True
  | _, _ => False

/-- The arithmetic operations. -/
inductive Arithmetic
  | add
  | sub
  | mul
  | div
  deriving DecidableEq

/-- The comparisons, `equiv` being `=`. -/
inductive Comparison
  | lt
  | lte
  | gt
  | gte
  | equiv
  deriving DecidableEq

/-- An operation on two numbers. -/
inductive Operation
  | arithmetic (operation : Arithmetic)
  | comparison (comparison : Comparison)
  deriving DecidableEq

/-- The comparison of a result of `mpz_cmp` or `mpq_cmp` with zero. -/
def Comparison.test : Comparison → Ordering → Bool
  | .lt, ordering => ordering == .lt
  | .lte, ordering => ordering != .gt
  | .gt, ordering => ordering == .gt
  | .gte, ordering => ordering != .lt
  | .equiv, ordering => ordering == .eq

theorem test_equiv
    {α : Type*}
    [LinearOrder α]
    (first second : α) :
    Comparison.equiv.test (cmp first second) = decide (first = second) := by
  rw [Bool.eq_iff_iff]
  simp [Comparison.test, cmp_eq_eq_iff]

/-- What is computed with doubles: `mpz_get_d` and `mpq_get_d` are
`ofBigInteger` and `ofRatio`. -/
structure DoubleArithmetic where
  apply : Arithmetic → Double → Double → Double
  holds : Comparison → Double → Double → Bool
  ofInt : BitVec 32 → Double
  ofBigInteger : Int → Double
  ofRatio : Rat → Double

namespace Number

/-- The kind of a number. -/
def type : Number → NumberType
  | .int _ => .int
  | .double _ => .double
  | .bigInteger _ => .bigInteger
  | .ratio _ => .ratio

end Number

/-! ## Numbers of one kind -/

/-- `mpz_fits_sint_p`. -/
def fitsInt (value : Int) : Bool :=
  decide (-2 ^ 31 ≤ value ∧ value < 2 ^ 31)

/-- Boxes an int of C. -/
def boxInt (value : Int) : Outcome :=
  .returns (.number (.int (BitVec.ofInt 32 value)))

/-- `BigInteger_add`. -/
def bigIntegerAdd (self other : Int) : Outcome :=
  .returns (.number (.bigInteger (self + other)))

/-- `BigInteger_sub`. -/
def bigIntegerSub (self other : Int) : Outcome :=
  .returns (.number (.bigInteger (self - other)))

/-- `BigInteger_mul`. -/
def bigIntegerMul (self other : Int) : Outcome :=
  .returns (.number (.bigInteger (self * other)))

/-- `BigInteger_div`. -/
def bigIntegerDiv (self other : Int) : Outcome :=
  if other = 0 then
    .throws .divideByZero
  else if other ∣ self then
    .returns (.number (.bigInteger (self / other)))
  else
    .returns (.number (.ratio (self / other)))

/-- The arithmetic of big integers. -/
def bigIntegerArithmetic : Arithmetic → Int → Int → Outcome
  | .add => bigIntegerAdd
  | .sub => bigIntegerSub
  | .mul => bigIntegerMul
  | .div => bigIntegerDiv

/-- `BigInteger_lt`, `BigInteger_lte`, `BigInteger_gt`, `BigInteger_gte` and
`BigInteger_equiv`. -/
def bigIntegerComparison (comparison : Comparison) (self other : Int) :
    Outcome :=
  .returns (.boolean (comparison.test (cmp self other)))

/-- `Ratio_simplify`. -/
def ratioSimplify (self : Rat) : Number :=
  if self.den = 1 then .bigInteger self.num else .ratio self

/-- `Ratio_add`. -/
def ratioAdd (self other : Rat) : Outcome :=
  .returns (.number (ratioSimplify (self + other)))

/-- `Ratio_sub`. -/
def ratioSub (self other : Rat) : Outcome :=
  .returns (.number (ratioSimplify (self - other)))

/-- `Ratio_mul`. -/
def ratioMul (self other : Rat) : Outcome :=
  .returns (.number (ratioSimplify (self * other)))

/-- `Ratio_div`. -/
def ratioDiv (self other : Rat) : Outcome :=
  if other = 0 then
    .throws .divideByZero
  else
    .returns (.number (ratioSimplify (self / other)))

/-- The arithmetic of ratios. -/
def ratioArithmetic : Arithmetic → Rat → Rat → Outcome
  | .add => ratioAdd
  | .sub => ratioSub
  | .mul => ratioMul
  | .div => ratioDiv

/-- `Ratio_lt`, `Ratio_lte`, `Ratio_gt` and `Ratio_gte`; for `equiv` the test
that `Ratio_equals` makes. -/
def ratioComparison (comparison : Comparison) (self other : Rat) : Outcome :=
  .returns (.boolean (comparison.test (cmp self other)))

/-- `Ratio_createFromInts`: `mpq_set_si` takes the denominator as an unsigned
long. -/
def ratioCreateFromInts (numerator denominator : Int) : Outcome :=
  if denominator = 0 then
    .throws .divideByZero
  else
    .returns (.number
      (.ratio (numerator / ((denominator % 2 ^ 64 : Int) : Rat))))

/-- `gcd`: Euclid's algorithm with the remainder of C, whose sign is that of the
dividend. -/
def gcd (a b : Int) : Int :=
  if b = 0 then a else gcd b (a.tmod b)
termination_by b.natAbs
decreasing_by
  rw [Int.natAbs_tmod]
  exact Nat.mod_lt _ (by omega)

/-- `int32_t` of a wider integer. -/
def toInt32 (value : Int) : Int :=
  (BitVec.ofInt 32 value).toInt

/-- `Integer_div`.  A quotient that is no int is an overflow of C. -/
def integerDiv (num den : BitVec 32) : Outcome :=
  if den.toInt = 0 then
    .throws .divideByZero
  else if num.toInt = 0 then
    boxInt 0
  else
    let g := toInt32 (gcd num.toInt den.toInt)
    let n := num.toInt.tdiv g
    let d := den.toInt.tdiv g
    if !fitsInt n || !fitsInt d then
      .undefined
    else if d = 1 then
      boxInt n
    else if d = -1 then
      boxInt (-n)
    else
      ratioCreateFromInts n d

/-! ## The generic functions -/

namespace Numbers

/-- `narrowBigInt` and `simplifyResult`. -/
def simplifyResult : Outcome → Outcome
  | .returns (.number (.bigInteger value)) =>
      if fitsInt value then boxInt value
      else .returns (.number (.bigInteger value))
  | outcome => outcome

theorem simplifyResult_of_fits {value : Int} (fits : fitsInt value = true) :
    simplifyResult (.returns (.number (.bigInteger value))) = boxInt value :=
  if_pos fits

theorem simplifyResult_of_not_fits {value : Int}
    (notFits : ¬ fitsInt value = true) :
    simplifyResult (.returns (.number (.bigInteger value))) =
      .returns (.number (.bigInteger value)) :=
  if_neg notFits

/-- `toRatio`. -/
def toRatio : Number → Option Rat
  | .ratio value => some value
  | .int value => some value.toInt
  | .bigInteger value => some value
  | .double _ => none

theorem exists_toRatio
    {number : Number}
    (notDouble : number.type ≠ .double) :
    ∃ ratio, toRatio number = some ratio := by
  cases number with
  | double value => exact absurd rfl notDouble
  | int | bigInteger | ratio => exact ⟨_, rfl⟩

/-- `toBigInt`. -/
def toBigInt : Number → Option Int
  | .bigInteger value => some value
  | .int value => some value.toInt
  | _ => none

/-- `Numbers_toDouble`. -/
def toDouble (doubles : DoubleArithmetic) : Number → Double
  | .double value => value
  | .int value => doubles.ofInt value
  | .bigInteger value => doubles.ofBigInteger value
  | .ratio value => doubles.ofRatio value

/-- The two arguments as ratios.  Doubles are no ratios; the callers exclude
them. -/
def withRatios (left right : Number) (next : Rat → Rat → Outcome) : Outcome :=
  match toRatio left, toRatio right with
  | some self, some other => next self other
  | _, _ => .undefined

/-- The two arguments as big integers. -/
def withBigInts (left right : Number) (next : Int → Int → Outcome) : Outcome :=
  match toBigInt left, toBigInt right with
  | some self, some other => next self other
  | _, _ => .undefined

/-- An int operation of C with its overflow tested. -/
def checkedInt (value : Int) : Outcome :=
  if fitsInt value then boxInt value else .throws .integerOverflow

/-- `__builtin_add_overflow`, `__builtin_sub_overflow` and
`__builtin_mul_overflow`. -/
def intArithmetic (operation : Arithmetic) (left right : Number) : Outcome :=
  match operation, left, right with
  | .add, .int a, .int b => checkedInt (a.toInt + b.toInt)
  | .sub, .int a, .int b => checkedInt (a.toInt - b.toInt)
  | .mul, .int a, .int b => checkedInt (a.toInt * b.toInt)
  | _, _, _ => .undefined

/-- `GENERIC_MATH_OP`. -/
def genericMathOp
    (doubles : DoubleArithmetic)
    (operation : Arithmetic)
    (left right : Number) : Outcome :=
  if left.type = .double ∨ right.type = .double then
    .returns (.number (.double
      (doubles.apply operation (toDouble doubles left)
        (toDouble doubles right))))
  else if left.type = .ratio ∨ right.type = .ratio then
    withRatios left right (ratioArithmetic operation)
  else if left.type = .bigInteger ∨ right.type = .bigInteger then
    withBigInts left right (bigIntegerArithmetic operation)
  else
    intArithmetic operation left right

/-- `Numbers_div`. -/
def div (doubles : DoubleArithmetic) (left right : Number) : Outcome :=
  if left.type = .double ∨ right.type = .double then
    .returns (.number (.double
      (doubles.apply .div (toDouble doubles left) (toDouble doubles right))))
  else
    simplifyResult (withRatios left right ratioDiv)

/-- A comparison of two ints. -/
def intComparison (comparison : Comparison) (left right : Number) : Outcome :=
  match left, right with
  | .int a, .int b =>
      .returns (.boolean (comparison.test (cmp a.toInt b.toInt)))
  | _, _ => .undefined

/-- `GENERIC_CMP_OP`. -/
def genericCmpOp
    (doubles : DoubleArithmetic)
    (comparison : Comparison)
    (left right : Number) : Outcome :=
  if left.type = .double ∨ right.type = .double then
    .returns (.boolean
      (doubles.holds comparison (toDouble doubles left)
        (toDouble doubles right)))
  else if left.type = .ratio ∨ right.type = .ratio then
    withRatios left right (ratioComparison comparison)
  else if left.type = .bigInteger ∨ right.type = .bigInteger then
    withBigInts left right (bigIntegerComparison comparison)
  else
    intComparison comparison left right

/-- `equals` and `equals_managed` on numbers: numbers that are no pointers are
compared by their tagged bits, big integers and ratios by value. -/
def equalsManaged (left right : Number) : Outcome :=
  .returns (.boolean (decide (left = right)))

/-- `Numbers_equiv`. -/
def equiv (doubles : DoubleArithmetic) (left right : Number) : Outcome :=
  if left.type = right.type then
    match left, right with
    | .int a, .int b => .returns (.boolean (decide (a = b)))
    | .double a, .double b => .returns (.boolean (doubles.holds .equiv a b))
    | _, _ => equalsManaged left right
  else if left.type = .double ∨ right.type = .double then
    .returns (.boolean
      (doubles.holds .equiv (toDouble doubles left) (toDouble doubles right)))
  else
    withRatios left right (ratioComparison .equiv)

/-- `Numbers_add`, `Numbers_sub`, `Numbers_mul`, `Numbers_div`, `Numbers_lt`,
`Numbers_lte`, `Numbers_gt`, `Numbers_gte` and `Numbers_equiv`. -/
def apply (doubles : DoubleArithmetic) : Operation → Number → Number → Outcome
  | .arithmetic .div => div doubles
  | .arithmetic operation => genericMathOp doubles operation
  | .comparison .equiv => equiv doubles
  | .comparison comparison => genericCmpOp doubles comparison

end Numbers

end Runtime
end ClojureRt
