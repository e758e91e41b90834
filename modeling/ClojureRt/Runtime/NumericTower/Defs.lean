import ClojureRt.Lib.Exchange
import ClojureRt.Runtime.Numbers

/-!
# Numbers on the heap

The generic functions of `Numbers.c` with the objects they work on.  An operand
that is an int is made a big integer or a ratio, a big integer is made a ratio,
and a function that computes with two big integers or two ratios overwrites the
one whose count is one.

An object that the source allocates and then fills is allocated with its value.
-/

namespace ClojureRt
namespace Runtime
namespace NumericTower

open RefCount RefCount.Program

/-- The address of an object. -/
abbrev Address := Nat

/-- An `RTValue`: a number that is no object, any other word, or a pointer. -/
inductive RTValue
  | int (value : BitVec 32)
  | double (value : Double)
  | immediate (bits : BitVec 64)
  | pointer (address : Address)
  deriving DecidableEq

/-- `objectType`: a kind of number, or the number of another type. -/
inductive ValueType
  | number (type : NumberType)
  | other (objectType : Nat)
  deriving DecidableEq

/-- What is on the heap: numbers, and objects that are no numbers.  Of these the
content is what they are compared by. -/
inductive Object
  | bigInteger (value : Int)
  | ratio (value : Rat)
  | other (objectType content : Nat) (references : List Address)
  deriving DecidableEq

instance : Referencing Object where
  references
    | .bigInteger _ => []
    | .ratio _ => []
    | .other _ _ references => references

/-- A heap with big integers and ratios. -/
abbrev NumberHeap := Heap Object

/-- Code of the runtime. -/
abbrev Code := Program Object

/-- What the operations throw. -/
inductive Exception
  | illegalArgument (message : String)
  | arithmetic (message : String)
  deriving DecidableEq

/-- The exception of a sum, a difference or a product that is no 32-bit
integer. -/
def integerOverflow : Exception := .arithmetic "Integer overflow"

/-- The exception of a division by 0. -/
def divideByZero : Exception := .arithmetic "Divide by zero"

/-- The address in a value, if it is a pointer. -/
def addresses : RTValue → List Address
  | .pointer address => [address]
  | _ => []

/-! ## Access -/

/-- The type field. -/
def Object.type : Object → ValueType
  | .bigInteger _ => .number .bigInteger
  | .ratio _ => .number .ratio
  | .other objectType _ _ => .other objectType

/-- `getType` -/
def getType : RTValue → Code ValueType
  | .int _ => pure (.number .int)
  | .double _ => pure (.number .double)
  | .immediate bits => pure (.other ((bits >>> 48) &&& 0xF#64).toNat)
  | .pointer address => do
      let object ← load address
      pure object.type

/-- `isNumeric` -/
def isNumeric : ValueType → Bool
  | .number _ => true
  | .other _ => false

/-- The big integer at an address. -/
def loadBigInteger (address : Address) : Code Int := do
  match ← load address with
  | .bigInteger value => pure value
  | _ => undefined

/-- The ratio at an address. -/
def loadRatio (address : Address) : Code Rat := do
  match ← load address with
  | .ratio value => pure value
  | _ => undefined

/-- `release` of the runtime. -/
def releaseValue : RTValue → Code Unit
  | .pointer address => release address
  | _ => pure ()

/-- `RT_unboxPtr` -/
def unboxPtr : RTValue → Code Address
  | .pointer address => pure address
  | _ => undefined

/-- `RT_unboxInt32` -/
def unboxInt32 : RTValue → Code (BitVec 32)
  | .int value => pure value
  | _ => undefined

/-- `RT_unboxDouble` -/
def unboxDouble : RTValue → Code Double
  | .double value => pure value
  | _ => undefined

/-! ## `BigInteger.c` and `Ratio.c` -/

/-- The object that the result goes into: an operand that nobody else refers to,
or a new one. -/
def destination
    (selfReusable otherReusable : Bool)
    (unassigned : Object)
    (self other : Address) : Code Address :=
  if selfReusable then pure self
  else if otherReusable then pure other
  else allocate unassigned

/-- The operands are given up, without the one that has the result. -/
def releaseOperands (selfReusable otherReusable : Bool) (self other : Address) :
    Code Unit :=
  if selfReusable then
    release other
  else if otherReusable then
    release self
  else do
    release self
    release other

/-- A function of GMP on two objects. -/
def inPlace
    {Value : Type}
    (read : Address → Code Value)
    (write : Value → Object)
    (unassigned : Value)
    (operation : Value → Value → Value)
    (self other : Address) : Code Address := do
  let selfReusable ← isReusable self
  let otherReusable ← isReusable other
  let retVal ← destination selfReusable otherReusable (write unassigned)
    self other
  let left ← read self
  let right ← read other
  store retVal (write (operation left right))
  releaseOperands selfReusable otherReusable self other
  pure retVal

/-- Two objects are compared and given up. -/
def compared
    {Value : Type}
    (read : Address → Code Value)
    (test : Value → Value → Bool)
    (self other : Address) : Code Bool := do
  let left ← read self
  let right ← read other
  release self
  release other
  pure (test left right)

/-- `BigInteger_createFromInt` -/
def bigIntegerCreateFromInt (value : BitVec 32) : Code Address :=
  allocate (.bigInteger value.toInt)

/-- `BigInteger_add` -/
def bigIntegerAdd : Address → Address → Code Address :=
  inPlace loadBigInteger .bigInteger 0 (· + ·)

/-- `BigInteger_sub` -/
def bigIntegerSub : Address → Address → Code Address :=
  inPlace loadBigInteger .bigInteger 0 (· - ·)

/-- `BigInteger_mul` -/
def bigIntegerMul : Address → Address → Code Address :=
  inPlace loadBigInteger .bigInteger 0 (· * ·)

/-- `BigInteger_lt`, `BigInteger_lte`, `BigInteger_gt` and `BigInteger_gte` -/
def bigIntegerCompare (comparison : Comparison) : Address → Address →
    Code Bool :=
  compared loadBigInteger fun left right => comparison.test (cmp left right)

/-- `Ratio_createFromInt` -/
def ratioCreateFromInt (value : BitVec 32) : Code Address :=
  allocate (.ratio value.toInt)

/-- `Ratio_createFromBigInteger` -/
def ratioCreateFromBigInteger (value : Address) : Code Address := do
  let number ← loadBigInteger value
  let self ← allocate (.ratio number)
  release value
  pure self

/-- `Ratio_simplify` -/
def ratioSimplify (self : Address) : Code RTValue := do
  let value ← loadRatio self
  if value.den = 1 then do
    let num ← allocate (.bigInteger value.num)
    release self
    pure (.pointer num)
  else
    pure (.pointer self)

/-- `Ratio_add` -/
def ratioAdd (self other : Address) : Code RTValue := do
  let retVal ← inPlace loadRatio .ratio 0 (· + ·) self other
  ratioSimplify retVal

/-- `Ratio_sub` -/
def ratioSub (self other : Address) : Code RTValue := do
  let retVal ← inPlace loadRatio .ratio 0 (· - ·) self other
  ratioSimplify retVal

/-- `Ratio_mul` -/
def ratioMul (self other : Address) : Code RTValue := do
  let retVal ← inPlace loadRatio .ratio 0 (· * ·) self other
  ratioSimplify retVal

/-- `Ratio_div` -/
def ratioDiv (self other : Address) : Code (Except Exception RTValue) := do
  let divisor ← loadRatio other
  if divisor = 0 then do
    release self
    release other
    pure (.error divideByZero)
  else do
    let retVal ← inPlace loadRatio .ratio 0 (· / ·) self other
    let simplified ← ratioSimplify retVal
    pure (.ok simplified)

/-- `Ratio_lt`, `Ratio_lte`, `Ratio_gt` and `Ratio_gte` -/
def ratioCompare (comparison : Comparison) : Address → Address → Code Bool :=
  compared loadRatio fun left right => comparison.test (cmp left right)

/-- `Ratio_equals`.  It gives nothing up. -/
def ratioEquals (self other : Address) : Code Bool := do
  let left ← loadRatio self
  let right ← loadRatio other
  pure (decide (left = right))

/-- `Numbers_toDouble` -/
def toDouble (doubles : DoubleArithmetic) (value : RTValue) : Code
    (Except Exception Double) := do
  match ← getType value with
  | .number .double => do
      let number ← unboxDouble value
      pure (.ok number)
  | .number .int => do
      let number ← unboxInt32 value
      pure (.ok (doubles.ofInt number))
  | .number .bigInteger => do
      let self ← unboxPtr value
      let number ← loadBigInteger self
      release self
      pure (.ok (doubles.ofBigInteger number))
  | .number .ratio => do
      let self ← unboxPtr value
      let number ← loadRatio self
      release self
      pure (.ok (doubles.ofRatio number))
  | .other _ => do
      releaseValue value
      pure (.error (.illegalArgument "Operation requires a numeric argument"))

/-- What is computed with two doubles. -/
def withDoubles
    {α : Type}
    (doubles : DoubleArithmetic)
    (a b : RTValue)
    (operation : Double → Double → α) : Code (Except Exception α) := do
  match ← toDouble doubles a with
  | .error exception => pure (.error exception)
  | .ok va =>
      match ← toDouble doubles b with
      | .error exception => pure (.error exception)
      | .ok vb => pure (.ok (operation va vb))

/-! ## Equality -/

/-- `combineHash` -/
def combineHash (lhs rhs : BitVec 64) : BitVec 64 :=
  lhs ^^^ (rhs + 0x9ddfea08eb382d69#64 + (lhs <<< 6) + (lhs >>> 2))

/-- `mpz_get_ui` -/
def mpzGetUi (value : Int) : BitVec 64 :=
  BitVec.ofNat 64 value.natAbs

/-- `mpz_get_si`: the low bits, with the sign of the number. -/
def mpzGetSi (value : Int) : BitVec 64 :=
  if 0 ≤ value then mpzGetUi value &&& 0x7FFFFFFFFFFFFFFF#64
  else -1 - ((mpzGetUi value - 1) &&& 0x7FFFFFFFFFFFFFFF#64)

/-- `Object_hash` -/
def Object.hash : Object → BitVec 64
  | .bigInteger value => combineHash 5381 (mpzGetUi value + 5381)
  | .ratio value =>
      combineHash (combineHash 5381 (mpzGetSi value.num)) (mpzGetSi value.den)
  | .other _ content _ => BitVec.ofNat 64 content

/-- `Object_equals` -/
def Object.equals (self other : Object) : Bool :=
  if self.hash ≠ other.hash then false
  else
    match self, other with
    | .bigInteger left, .bigInteger right => decide (left = right)
    | .ratio left, .ratio right => decide (left = right)
    | .other _ left _, .other _ right _ => decide (left = right)
    | _, _ => false

/-- `equals` -/
def equals (self other : RTValue) : Code Bool :=
  if self = other then pure true
  else
    match self, other with
    | .pointer left, .pointer right => do
        let first ← load left
        let second ← load right
        if first.type ≠ second.type then pure false
        else pure (first.equals second)
    | _, _ => pure false

/-! ## `Numbers.c` -/

namespace Numbers

/-- `narrowBigInt` -/
def narrowBigInt (b : Address) : Code RTValue := do
  let value ← loadBigInteger b
  if fitsInt value then do
    release b
    pure (.int (BitVec.ofInt 32 value))
  else
    pure (.pointer b)

/-- `simplifyResult` -/
def simplifyResult (value : RTValue) : Code RTValue := do
  if (← getType value) = .number .bigInteger then do
    let b ← unboxPtr value
    narrowBigInt b
  else
    pure value

/-- `toRatio`.  Its callers use what it returns, which is NULL for other
values. -/
def toRatio (value : RTValue) : Code Address := do
  match ← getType value with
  | .number .ratio => unboxPtr value
  | .number .int => do
      let number ← unboxInt32 value
      ratioCreateFromInt number
  | .number .bigInteger => do
      let number ← unboxPtr value
      ratioCreateFromBigInteger number
  | _ => undefined

/-- `toBigInt` -/
def toBigInt (value : RTValue) : Code Address := do
  match ← getType value with
  | .number .bigInteger => unboxPtr value
  | .number .int => do
      let number ← unboxInt32 value
      bigIntegerCreateFromInt number
  | _ => undefined

/-- What is given up if an argument is no number. -/
def rejectArguments {α : Type} (a b : RTValue) (message : String) :
    Code (Except Exception α) := do
  releaseValue a
  releaseValue b
  pure (.error (.illegalArgument message))

/-- `GENERIC_MATH_OP` -/
def genericMathOp
    (opInt : Int → Int → Int)
    (opBigInt : Address → Address → Code Address)
    (opRatio : Address → Address → Code RTValue)
    (opDouble : Double → Double → Double)
    (doubles : DoubleArithmetic)
    (a b : RTValue) : Code (Except Exception RTValue) := do
  let ta ← getType a
  let tb ← getType b
  if !isNumeric ta || !isNumeric tb then
    rejectArguments a b "Arithmetic operation requires numeric arguments"
  else if ta = .number .double ∨ tb = .number .double then
    withDoubles doubles a b fun va vb => .double (opDouble va vb)
  else if ta = .number .ratio ∨ tb = .number .ratio then do
    let ra ← toRatio a
    let rb ← toRatio b
    let res ← opRatio ra rb
    pure (.ok res)
  else if ta = .number .bigInteger ∨ tb = .number .bigInteger then do
    let ba ← toBigInt a
    let bb ← toBigInt b
    let res ← opBigInt ba bb
    pure (.ok (.pointer res))
  else do
    let va ← unboxInt32 a
    let vb ← unboxInt32 b
    let res := opInt va.toInt vb.toInt
    if fitsInt res then
      pure (.ok (.int (BitVec.ofInt 32 res)))
    else
      pure (.error integerOverflow)

/-- `Numbers_add` -/
def add (doubles : DoubleArithmetic) : RTValue → RTValue → Code
    (Except Exception RTValue) :=
  genericMathOp (· + ·) bigIntegerAdd ratioAdd (doubles.apply .add) doubles

/-- `Numbers_sub` -/
def sub (doubles : DoubleArithmetic) : RTValue → RTValue → Code
    (Except Exception RTValue) :=
  genericMathOp (· - ·) bigIntegerSub ratioSub (doubles.apply .sub) doubles

/-- `Numbers_mul` -/
def mul (doubles : DoubleArithmetic) : RTValue → RTValue → Code
    (Except Exception RTValue) :=
  genericMathOp (· * ·) bigIntegerMul ratioMul (doubles.apply .mul) doubles

/-- `Numbers_div` -/
def div (doubles : DoubleArithmetic) (a b : RTValue) : Code
    (Except Exception RTValue) := do
  let ta ← getType a
  let tb ← getType b
  if !isNumeric ta || !isNumeric tb then
    rejectArguments a b "Arithmetic operation requires numeric arguments"
  else if ta = .number .double ∨ tb = .number .double then
    withDoubles doubles a b fun va vb => .double (doubles.apply .div va vb)
  else do
    let ra ← toRatio a
    let rb ← toRatio b
    match ← ratioDiv ra rb with
    | .error exception => pure (.error exception)
    | .ok quotient => do
        let res ← simplifyResult quotient
        pure (.ok res)

/-- `GENERIC_CMP_OP`: `Numbers_lt`, `Numbers_lte`, `Numbers_gt` and
`Numbers_gte` -/
def genericCmpOp
    (comparison : Comparison)
    (doubles : DoubleArithmetic)
    (a b : RTValue) : Code (Except Exception Bool) := do
  let ta ← getType a
  let tb ← getType b
  if !isNumeric ta || !isNumeric tb then
    rejectArguments a b "Comparison requires numeric arguments"
  else if ta = .number .double ∨ tb = .number .double then
    withDoubles doubles a b (doubles.holds comparison)
  else if ta = .number .ratio ∨ tb = .number .ratio then do
    let ra ← toRatio a
    let rb ← toRatio b
    let res ← ratioCompare comparison ra rb
    pure (.ok res)
  else if ta = .number .bigInteger ∨ tb = .number .bigInteger then do
    let ba ← toBigInt a
    let bb ← toBigInt b
    let res ← bigIntegerCompare comparison ba bb
    pure (.ok res)
  else do
    let va ← unboxInt32 a
    let vb ← unboxInt32 b
    pure (.ok (comparison.test (cmp va.toInt vb.toInt)))

/-- `Numbers_equiv`.  It does not ask if its arguments are numbers. -/
def equiv (doubles : DoubleArithmetic) (a b : RTValue) : Code
    (Except Exception Bool) := do
  let ta ← getType a
  let tb ← getType b
  if ta = tb then
    match a, b with
    | .int va, .int vb => pure (.ok (decide (va = vb)))
    | .double va, .double vb => pure (.ok (doubles.holds .equiv va vb))
    | _, _ => do
        let res ← equals a b
        releaseValue a
        releaseValue b
        pure (.ok res)
  else if ta = .number .double ∨ tb = .number .double then
    withDoubles doubles a b (doubles.holds .equiv)
  else do
    let ra ← toRatio a
    let rb ← toRatio b
    let res ← ratioEquals ra rb
    release ra
    release rb
    pure (.ok res)

end Numbers

/-- What an operation returns. -/
inductive Answer
  | value (result : RTValue)
  | boolean (result : Bool)
  deriving DecidableEq

/-- `Numbers_lt`, `Numbers_lte`, `Numbers_gt`, `Numbers_gte` and
`Numbers_equiv` -/
def Numbers.compare
    (doubles : DoubleArithmetic) :
    Comparison → RTValue → RTValue → Code (Except Exception Bool)
  | .equiv => Numbers.equiv doubles
  | comparison => Numbers.genericCmpOp comparison doubles

/-- `Numbers_add`, `Numbers_sub`, `Numbers_mul` and `Numbers_div` -/
def Numbers.calculate
    (doubles : DoubleArithmetic) :
    Arithmetic → RTValue → RTValue → Code (Except Exception RTValue)
  | .add => Numbers.add doubles
  | .sub => Numbers.sub doubles
  | .mul => Numbers.mul doubles
  | .div => Numbers.div doubles

/-- An operation on two values. -/
def run
    (doubles : DoubleArithmetic)
    (operation : Operation)
    (a b : RTValue) : Code (Except Exception Answer) := do
  match operation with
  | .arithmetic operation => do
      let result ← Numbers.calculate doubles operation a b
      pure (result.map .value)
  | .comparison comparison => do
      let result ← Numbers.compare doubles comparison a b
      pure (result.map .boolean)

end NumericTower
end Runtime
end ClojureRt
