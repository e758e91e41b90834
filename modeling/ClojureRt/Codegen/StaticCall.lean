import ClojureRt.Codegen.Intrinsics
import ClojureRt.Runtime.IntegerDivision
import ClojureRt.Runtime.Rationals
import Mathlib

/-!
# Static and dynamic arithmetic

A call on numbers whose types are known runs the overload the table names for
them; a call on values of unknown type runs the generic function.  The two agree
except where one of them keeps a big integer that the other narrows to an int,
where `Integer_div` ends up with a negative denominator, and for `Mul_DB`.
-/

namespace ClojureRt
namespace Codegen

open ClojureRt.Runtime

/-! ## The overload chosen for two kinds of numbers -/

/-- The symbol of the best match. -/
def chosenSymbol (operation : Operation) (left right : NumberType) : Symbol :=
  match operation, left, right with
  | .arithmetic .div, .int, .int => .integerDiv
  | .arithmetic .div, .int, .bigInteger => .numbers (.arithmetic .div)
  | .arithmetic .div, .bigInteger, .int => .numbers (.arithmetic .div)
  | .comparison .equiv, .bigInteger, .int => .bigIntegerEqualsInt
  | .comparison .equiv, .int, .bigInteger => .bigIntegerIntEquals
  | .comparison .equiv, .bigInteger, .bigInteger => .equalsManaged
  | .comparison .equiv, .ratio, .ratio => .equalsManaged
  | .comparison .equiv, .int, .ratio => .equalsManaged
  | .comparison .equiv, .ratio, .int => .equalsManaged
  | .comparison .equiv, .bigInteger, .ratio => .equalsManaged
  | .comparison .equiv, .ratio, .bigInteger => .equalsManaged
  | .comparison comparison, .int, .bigInteger =>
      .numbers (.comparison comparison)
  | .comparison comparison, .bigInteger, .int =>
      .numbers (.comparison comparison)
  | operation, left, right =>
      if left = right then .plain operation left
      else .mixed operation left right

theorem bestMatch_symbol (operation : Operation) (left right : NumberType) :
    (bestMatch operation (numberTypeSet left) (numberTypeSet right)).map
      IntrinsicDescription.symbol =
        some (chosenSymbol operation left right) := by
  cases operation with
  | arithmetic operation =>
      cases operation <;> cases left <;> cases right <;> rfl
  | comparison comparison =>
      cases comparison <;> cases left <;> cases right <;> rfl

theorem staticCall_eq
    (doubles : DoubleArithmetic)
    (operation : Operation)
    (left right : Number) :
    staticCall doubles operation left right =
      generateIntrinsic doubles (chosenSymbol operation left.type right.type)
        left right := by
  have chosen := bestMatch_symbol operation left.type right.type
  unfold staticCall
  cases found : bestMatch operation (numberTypeSet left.type)
    (numberTypeSet right.type) with
  | none => simp [found] at chosen
  | some id =>
      rw [found, Option.map_some, Option.some.injEq] at chosen
      simp only [chosen]

/-! ## Division -/

/-- The quotient is an integer that fits an int. -/
def NarrowQuotient (self other : Rat) : Prop :=
  other ≠ 0 ∧ (self / other).den = 1 ∧ fitsInt (self / other).num = true

/-- `Ratio_div` keeps the big integer that `simplifyResult` narrows. -/
theorem ratioDiv_agrees_iff (self other : Rat) :
    (ratioDiv self other).Agrees
    (Numbers.simplifyResult (ratioDiv self other)) ↔
      ¬ NarrowQuotient self other := by
  unfold ratioDiv ratioSimplify NarrowQuotient
  split
  · next isZero => simp [Numbers.simplifyResult, Outcome.Agrees, isZero]
  · next notZero =>
      split
      · next isInteger =>
          by_cases fits : fitsInt (self / other).num = true
          · simp [Numbers.simplifyResult, Outcome.Agrees, boxInt, fits, notZero,
              isInteger]
          · simp [Numbers.simplifyResult, Outcome.Agrees, fits]
      · next notInteger =>
          simp [Numbers.simplifyResult, Outcome.Agrees, notInteger]

/-! ### `Integer_div` -/

/-- `Integer_div` throws, or its divisor has the sign of the denominator and no
number is too large. -/
def CleanIntDivision (num den : Int) : Prop :=
  den = 0 ∨ WellSigned num den

/-- The quotient and the denominator of a clean division fit, and the
denominator is not taken for an unsigned number. -/
theorem cleanIntDivision_iff (num den : BitVec 32) :
    CleanIntDivision num.toInt den.toInt ↔
      den.toInt = 0 ∨ num.toInt = 0 ∨
        (fitsInt (num.toInt.tdiv (Runtime.gcd num.toInt den.toInt)) = true ∧
          fitsInt (den.toInt.tdiv (Runtime.gcd num.toInt den.toInt)) = true ∧
          (den.toInt.tdiv (Runtime.gcd num.toInt den.toInt) = -1 ∨
            0 < den.toInt.tdiv (Runtime.gcd num.toInt den.toInt))) := by
  unfold CleanIntDivision
  by_cases denZero : den.toInt = 0
  · simp [denZero]
  by_cases numZero : num.toInt = 0
  · simp [numZero, WellSigned]
  have notMinusOne := tdiv_gcd_ne_neg_one numZero denZero
  simp only [denZero, numZero, notMinusOne, wellSigned_iff denZero numZero,
    false_or]

theorem boxInt_agrees_simplify
    {value : Int}
    (fits : fitsInt value = true) :
    (boxInt value).Agrees
      (Numbers.simplifyResult
        (.returns (.number (ratioSimplify (value : Rat))))) := by
  simp [Numbers.simplifyResult, ratioSimplify, fits, boxInt, Outcome.Agrees]

/-- `Integer_div` against `Numbers_div` on two ints. -/
theorem integerDiv_agrees_iff (num den : BitVec 32) :
    (integerDiv num den).Agrees
        (Numbers.simplifyResult (ratioDiv num.toInt den.toInt)) ↔
      CleanIntDivision num.toInt den.toInt := by
  have fitsNum := fitsInt_toInt num
  have fitsDen := fitsInt_toInt den
  rw [cleanIntDivision_iff]
  unfold integerDiv ratioDiv
  generalize num.toInt = num at *
  generalize den.toInt = den at *
  simp only [Int.cast_eq_zero]
  by_cases denZero : den = 0
  · simp [denZero, Numbers.simplifyResult, Outcome.Agrees]
  by_cases numZero : num = 0
  · have agrees := boxInt_agrees_simplify (show fitsInt 0 = true by decide)
    simpa [denZero, numZero] using agrees
  rw [if_neg denZero, if_neg numZero, if_neg denZero,
    toInt32_of_fitsInt (fitsInt_gcd num den denZero fitsDen)]
  have lowest := lowestTerms_gcd num denZero
  have signed : den = -1 → Runtime.gcd num den = -1 := by
    rintro rfl
    exact gcd_neg_one num
  revert lowest signed
  generalize Runtime.gcd num den = g
  generalize num.tdiv g = n
  generalize den.tdiv g = d
  intro lowest signed
  have nNotZero : n ≠ 0 := by
    rintro rfl
    exact numZero (by rw [← lowest.num_eq, zero_mul])
  have dNotZero := lowest.d_ne_zero
  rw [lowest.value]
  by_cases overflow : fitsInt n = true ∧ fitsInt d = true
  · obtain ⟨fitsN, fitsD⟩ := overflow
    simp only [fitsN, fitsD, Bool.not_true, Bool.or_self, Bool.false_eq_true,
      if_false, denZero, numZero, false_or, true_and]
    by_cases isOne : d = 1
    · have agrees := boxInt_agrees_simplify fitsN
      simpa [isOne] using agrees
    by_cases isMinusOne : d = -1
    · have agrees :=
        boxInt_agrees_simplify
          (lowest.fitsInt_neg fitsNum fitsN isMinusOne signed)
      simpa [isMinusOne, div_neg] using agrees
    · have notInteger := lowest.den_ne_one isOne isMinusOne
      rw [lowest.value] at notInteger
      simp only [isOne, isMinusOne, if_false, false_or, ratioCreateFromInts,
        dNotZero, ratioSimplify, notInteger, Numbers.simplifyResult,
        Outcome.Agrees, Result.number.injEq, Number.ratio.injEq]
      constructor
      · intro same
        by_contra notPositive
        exact unsigned_denominator_ne nNotZero (by omega) fitsD same
      · intro positive
        simp only [fitsInt, decide_eq_true_eq] at fitsD
        rw [Int.emod_eq_of_lt (by omega) (by omega)]
  · have static : (!fitsInt n || !fitsInt d) = true := by
      by_contra both
      simp_all
    rw [if_pos static]
    simp only [denZero, numZero, false_or]
    constructor
    · intro agrees
      exact absurd agrees (by simp [Outcome.Agrees])
    · rintro ⟨fitsN, fitsD, -⟩
      exact absurd ⟨fitsN, fitsD⟩ overflow

/-! ## All pairs -/

/-- When the overload for two numbers agrees with the generic function. -/
def AgreesOn : Operation → Number → Number → Prop
  | .arithmetic .mul, .double _, .bigInteger _ => False
  | .arithmetic .div, .int num, .int den => CleanIntDivision num.toInt den.toInt
  | .arithmetic .div, .bigInteger self, .bigInteger other =>
      ¬ NarrowQuotient self other
  | .arithmetic .div, .ratio self, .ratio other => ¬ NarrowQuotient self other
  | .arithmetic .div, .bigInteger self, .ratio other =>
      ¬ NarrowQuotient self other
  | .arithmetic .div, .ratio self, .bigInteger other =>
      ¬ NarrowQuotient self other
  | .arithmetic .div, .int self, .ratio other =>
      ¬ NarrowQuotient self.toInt other
  | .arithmetic .div, .ratio self, .int other =>
      ¬ NarrowQuotient self other.toInt
  | .comparison .equiv, .int self, .ratio other => (self.toInt : Rat) ≠ other
  | .comparison .equiv, .ratio self, .int other => self ≠ other.toInt
  | .comparison .equiv, .bigInteger self, .ratio other => (self : Rat) ≠ other
  | .comparison .equiv, .ratio self, .bigInteger other => self ≠ other
  | _, _, _ => True

/-- When the overload of `=` for two numbers agrees with `equals_managed`, which
its table falls back to. -/
def EqualsManagedAgreesOn (doubles : DoubleArithmetic) : Number → Number → Prop
  | .double self, .double other =>
      doubles.holds .equiv self other = decide (self = other)
  | .int self, .bigInteger other => other ≠ self.toInt
  | .bigInteger self, .int other => self ≠ other.toInt
  | .int self, .double other =>
      doubles.holds .equiv (doubles.ofInt self) other = false
  | .double self, .int other =>
      doubles.holds .equiv self (doubles.ofInt other) = false
  | .bigInteger self, .double other =>
      doubles.holds .equiv (doubles.ofBigInteger self) other = false
  | .double self, .bigInteger other =>
      doubles.holds .equiv self (doubles.ofBigInteger other) = false
  | .ratio self, .double other =>
      doubles.holds .equiv (doubles.ofRatio self) other = false
  | .double self, .ratio other =>
      doubles.holds .equiv self (doubles.ofRatio other) = false
  | _, _ => True

section Pairs

variable (doubles : DoubleArithmetic)

theorem checkedInt_ne_undefined (value : Int) :
    Numbers.checkedInt value ≠ .undefined := by
  unfold Numbers.checkedInt
  split <;> simp [boxInt]

theorem simplifyResult_ne_undefined
    {outcome : Outcome}
    (isDefined : outcome ≠ .undefined) :
    Numbers.simplifyResult outcome ≠ .undefined := by
  unfold Numbers.simplifyResult
  split
  · split <;> simp [boxInt]
  · exact isDefined

theorem ratioDiv_ne_undefined (self other : Rat) :
    ratioDiv self other ≠ .undefined := by
  unfold ratioDiv
  split <;> simp

/-- The generic functions are defined on all numbers. -/
theorem apply_ne_undefined (operation : Operation) (left right : Number) :
    Numbers.apply doubles operation left right ≠ .undefined := by
  cases operation with
  | arithmetic operation =>
      cases operation with
      | div =>
          cases left <;> cases right <;>
            first
            | exact Outcome.noConfusion
            | exact simplifyResult_ne_undefined (ratioDiv_ne_undefined _ _)
      | _ =>
          cases left <;> cases right <;>
            first
            | exact Outcome.noConfusion
            | exact checkedInt_ne_undefined _
  | comparison comparison =>
      cases comparison <;> cases left <;> cases right <;>
        exact Outcome.noConfusion

theorem agrees_of_eq
    {operation : Operation}
    {left right : Number}
    (same :
      generateIntrinsic doubles (chosenSymbol operation left.type right.type)
        left right =
        Numbers.apply doubles operation left right) :
    (staticCall doubles operation left right).Agrees
      (Numbers.apply doubles operation left right) := by
  rw [staticCall_eq, same]
  have isDefined := apply_ne_undefined doubles operation left right
  cases outcome : Numbers.apply doubles operation left right with
  | returns result => rfl
  | throws exception => trivial
  | undefined => exact absurd outcome isDefined

/-- The overloads of `+`, `-` and `*`. -/
theorem arithmetic_agrees_iff
    (operation : Arithmetic)
    (notDiv : operation ≠ .div)
    (left right : Number) :
    (staticCall doubles (.arithmetic operation) left right).Agrees
        (Numbers.apply doubles (.arithmetic operation) left right) ↔
      AgreesOn (.arithmetic operation) left right := by
  by_cases slip :
      operation = .mul ∧ left.type = .double ∧ right.type = .bigInteger
  · obtain ⟨rfl, isDouble, isBigInteger⟩ := slip
    cases left <;> cases isDouble
    cases right <;> cases isBigInteger
    rw [staticCall_eq]
    exact Iff.rfl
  · cases operation with
    | div => exact absurd rfl notDiv
    | _ =>
        cases left <;> cases right <;>
          first
          | exact iff_of_true (agrees_of_eq doubles rfl) trivial
          | exact absurd ⟨rfl, rfl, rfl⟩ slip

/-- The overloads of `/`. -/
theorem div_agrees_iff (left right : Number) :
    (staticCall doubles (.arithmetic .div) left right).Agrees
        (Numbers.apply doubles (.arithmetic .div) left right) ↔
      AgreesOn (.arithmetic .div) left right := by
  cases left with
  | int num =>
      cases right with
      | int den =>
          rw [staticCall_eq]
          exact integerDiv_agrees_iff num den
      | ratio other =>
          rw [staticCall_eq]
          exact ratioDiv_agrees_iff _ _
      | _ => exact iff_of_true (agrees_of_eq doubles rfl) trivial
  | double self =>
      cases right <;> exact iff_of_true (agrees_of_eq doubles rfl) trivial
  | bigInteger self =>
      cases right with
      | bigInteger other =>
          rw [staticCall_eq]
          change (bigIntegerDiv self other).Agrees _ ↔ _
          rw [bigIntegerDiv_eq_ratioDiv]
          exact ratioDiv_agrees_iff _ _
      | ratio other =>
          rw [staticCall_eq]
          exact ratioDiv_agrees_iff _ _
      | _ => exact iff_of_true (agrees_of_eq doubles rfl) trivial
  | ratio self =>
      cases right with
      | double other => exact iff_of_true (agrees_of_eq doubles rfl) trivial
      | _ =>
          rw [staticCall_eq]
          exact ratioDiv_agrees_iff _ _

/-- `equals_managed` tells numbers of two kinds apart, whatever their values. -/
theorem distinct_agrees_iff (self other : Rat) :
    (Outcome.returns (.boolean false)).Agrees
    (ratioComparison .equiv self other) ↔
      self ≠ other := by
  unfold ratioComparison
  rw [test_equiv]
  simp [Outcome.Agrees]

/-- The overloads of `=` against `Numbers_equiv`. -/
theorem equiv_agrees_iff (left right : Number) :
    (staticCall doubles (.comparison .equiv) left right).Agrees
        (Numbers.apply doubles (.comparison .equiv) left right) ↔
      AgreesOn (.comparison .equiv) left right := by
  cases left with
  | int self =>
      cases right with
      | int other =>
          apply iff_of_true _ trivial
          apply agrees_of_eq
          change Outcome.returns (.boolean (Comparison.equiv.test _)) = _
          rw [test_equiv]
          simp [Numbers.apply, Numbers.equiv, Number.type, BitVec.toInt_inj]
      | double other => exact iff_of_true (agrees_of_eq doubles rfl) trivial
      | bigInteger other =>
          apply iff_of_true _ trivial
          apply agrees_of_eq
          change _ = Outcome.returns (.boolean (Comparison.equiv.test _))
          rw [test_equiv]
          simp [generateIntrinsic, chosenSymbol, Number.type, eq_comm]
      | ratio other =>
          rw [staticCall_eq]
          exact distinct_agrees_iff _ _
  | double self =>
      cases right <;> exact iff_of_true (agrees_of_eq doubles rfl) trivial
  | bigInteger self =>
      cases right with
      | int other =>
          apply iff_of_true _ trivial
          apply agrees_of_eq
          change _ = Outcome.returns (.boolean (Comparison.equiv.test _))
          rw [test_equiv]
          simp [generateIntrinsic, chosenSymbol, Number.type]
      | ratio other =>
          rw [staticCall_eq]
          exact distinct_agrees_iff _ _
      | _ => exact iff_of_true (agrees_of_eq doubles rfl) trivial
  | ratio self =>
      cases right with
      | int other =>
          rw [staticCall_eq]
          exact distinct_agrees_iff _ _
      | bigInteger other =>
          rw [staticCall_eq]
          exact distinct_agrees_iff _ _
      | _ => exact iff_of_true (agrees_of_eq doubles rfl) trivial

/-- The overloads of `=` against `equals_managed`. -/
theorem equalsManaged_agrees_iff (left right : Number) :
    (staticCall doubles (.comparison .equiv) left right).Agrees
        (Numbers.equalsManaged left right) ↔
      EqualsManagedAgreesOn doubles left right := by
  rw [staticCall_eq]
  cases left <;> cases right <;>
    simp [generateIntrinsic, chosenSymbol, Number.type, plainIntrinsic,
      mixedIntrinsic, doubleIntrinsic, Numbers.equalsManaged, Outcome.Agrees,
      EqualsManagedAgreesOn, test_equiv, BitVec.toInt_inj]

/-- The overloads of `<`, `<=`, `>` and `>=`. -/
theorem comparison_agrees
    (comparison : Comparison)
    (notEquiv : comparison ≠ .equiv)
    (left right : Number) :
    (staticCall doubles (.comparison comparison) left right).Agrees
      (Numbers.apply doubles (.comparison comparison) left right) := by
  cases comparison with
  | equiv => exact absurd rfl notEquiv
  | _ => cases left <;> cases right <;> exact agrees_of_eq doubles rfl

/-- For every operation and every two numbers, when the overload for their types
agrees with the generic function, and for `=` also when it agrees with the
function that its table falls back to. -/
theorem staticCall_agrees_iff
    (operation : Operation)
    (left right : Number) :
    ((staticCall doubles operation left right).Agrees
        (Numbers.apply doubles operation left right) ↔
      AgreesOn operation left right) ∧
    ((staticCall doubles (.comparison .equiv) left right).Agrees
        (Numbers.equalsManaged left right) ↔
      EqualsManagedAgreesOn doubles left right) := by
  refine ⟨?_, equalsManaged_agrees_iff doubles left right⟩
  cases operation with
  | arithmetic operation =>
      by_cases isDiv : operation = .div
      · rw [isDiv]
        exact div_agrees_iff doubles left right
      · exact arithmetic_agrees_iff doubles operation isDiv left right
  | comparison comparison =>
      by_cases isEquiv : comparison = .equiv
      · rw [isEquiv]
        exact equiv_agrees_iff doubles left right
      · have agrees := comparison_agrees doubles comparison isEquiv left right
        apply iff_of_true agrees
        cases comparison with
        | equiv => exact absurd rfl isEquiv
        | _ => trivial

end Pairs

/-- Doubles on which every operation returns its first argument. -/
def firstDoubles : DoubleArithmetic :=
  ⟨fun _ first _ => first, fun _ _ _ => true, fun _ => 0, fun _ => 0,
    fun _ => 0⟩

/-- `(/ 1 -2)` on ints: the denominator is taken for an unsigned number. -/
theorem half_disagrees :
    staticCall firstDoubles (.arithmetic .div) (.int 1) (.int (-2)) =
        .returns (.number (.ratio (1 / 18446744073709551614))) ∧
      Numbers.apply firstDoubles (.arithmetic .div) (.int 1) (.int (-2)) =
        .returns (.number (.ratio (-1 / 2))) ∧
      ¬ (staticCall firstDoubles (.arithmetic .div) (.int 1) (.int (-2))).Agrees
        (Numbers.apply firstDoubles (.arithmetic .div) (.int 1)
          (.int (-2))) := by
  have common : Runtime.gcd 1 (-2) = 1 := by
    rw [Runtime.gcd, if_neg (by decide),
      show Int.tmod 1 (-2) = 1 by decide, Runtime.gcd,
      if_neg (by decide),
      show Int.tmod (-2) 1 = 0 by decide, Runtime.gcd, if_pos rfl]
  have static :
      staticCall firstDoubles (.arithmetic .div) (.int 1) (.int (-2)) =
        .returns (.number (.ratio (1 / 18446744073709551614))) := by
    rw [staticCall_eq]
    change integerDiv 1 (-2) = _
    unfold integerDiv
    simp only [show (1 : BitVec 32).toInt = 1 by decide,
      show (-2 : BitVec 32).toInt = -2 by decide, common]
    rw [show toInt32 1 = 1 by decide]
    decide +kernel
  have generic :
      Numbers.apply firstDoubles (.arithmetic .div) (.int 1) (.int (-2)) =
        .returns (.number (.ratio (-1 / 2))) := by
    change Numbers.simplifyResult
      (ratioDiv ((1 : BitVec 32).toInt : Rat) ((-2 : BitVec 32).toInt : Rat)) =
      _
    rw [show (1 : BitVec 32).toInt = 1 by decide,
      show (-2 : BitVec 32).toInt = -2 by decide]
    decide +kernel
  refine ⟨static, generic, ?_⟩
  rw [static, generic]
  simp only [Outcome.Agrees, Result.number.injEq, Number.ratio.injEq]
  norm_num

end Codegen
end ClojureRt
