import ClojureRt.Runtime.IntegerDivision
import Mathlib.Tactic.FieldSimp

/-!
# Exact numbers as rationals

Without doubles, the functions of numbers are those of the rationals.  Which of
the ways through `Numbers.c` a pair of operands takes makes no difference,
except that two ints can overflow.
-/

namespace ClojureRt
namespace Runtime

/-- `mpq_add`, `mpq_sub`, `mpq_mul` and `mpq_div`. -/
def exactQ : Arithmetic → Rat → Rat → Rat
  | .add, a, b => a + b
  | .sub, a, b => a - b
  | .mul, a, b => a * b
  | .div, a, b => a / b

theorem ratioArithmetic_eq (operation : Arithmetic) (x y : Rat) :
    ratioArithmetic operation x y =
      if operation = .div ∧ y = 0 then .throws .divideByZero
      else .returns (.number (ratioSimplify (exactQ operation x y))) := by
  cases operation <;> simp [ratioArithmetic, ratioAdd, ratioSub, ratioMul,
    ratioDiv, exactQ]

theorem ratioSimplify_intCast (value : Int) :
    ratioSimplify (value : Rat) = .bigInteger value := by
  simp [ratioSimplify]

theorem bigIntegerDiv_eq_ratioDiv (self other : Int) :
    bigIntegerDiv self other = ratioDiv self other := by
  unfold bigIntegerDiv ratioDiv
  simp only [Int.cast_eq_zero]
  split
  · rfl
  · next notZero =>
      have notZeroRat : (other : Rat) ≠ 0 := by exact_mod_cast notZero
      split
      · next divides =>
          obtain ⟨quotient, rfl⟩ := divides
          have exact : ((other * quotient : Int) : Rat) / other = quotient := by
            push_cast
            field_simp
          rw [exact, Int.mul_ediv_cancel_left _ notZero]
          simp [ratioSimplify]
      · next notDivides =>
          have notInteger : ((self : Rat) / other).den ≠ 1 := by
            intro isInteger
            apply notDivides
            have whole := Rat.coe_int_num_of_den_eq_one isInteger
            refine ⟨((self : Rat) / other).num, ?_⟩
            have scaled :
                (self : Rat) = other * ((self : Rat) / other).num := by
              rw [whole]
              field_simp
            exact_mod_cast scaled
          simp [ratioSimplify, notInteger]

theorem bigIntegerArithmetic_eq (operation : Arithmetic) (x y : Int) :
    bigIntegerArithmetic operation x y = ratioArithmetic operation x y := by
  cases operation with
  | add =>
      simp only [bigIntegerArithmetic, ratioArithmetic, bigIntegerAdd, ratioAdd]
      rw [← Int.cast_add, ratioSimplify_intCast]
  | sub =>
      simp only [bigIntegerArithmetic, ratioArithmetic, bigIntegerSub, ratioSub]
      rw [← Int.cast_sub, ratioSimplify_intCast]
  | mul =>
      simp only [bigIntegerArithmetic, ratioArithmetic, bigIntegerMul, ratioMul]
      rw [← Int.cast_mul, ratioSimplify_intCast]
  | div => exact bigIntegerDiv_eq_ratioDiv x y

/-! ## What a number denotes -/

/-- The exact numbers and their values.  A ratio is no integer. -/
inductive Number.Denotes : Number → Rat → Prop
  | int (value : BitVec 32) : Denotes (.int value) value.toInt
  | bigInteger (value : Int) : Denotes (.bigInteger value) value
  | ratio (value : Rat) (notInteger : value.den ≠ 1) :
      Denotes (.ratio value) value

/-- A comparison of rationals. -/
def Comparison.holds : Comparison → Rat → Rat → Bool
  | .lt, x, y => decide (x < y)
  | .lte, x, y => decide (x ≤ y)
  | .gt, x, y => decide (y < x)
  | .gte, x, y => decide (y ≤ x)
  | .equiv, x, y => decide (x = y)

/-- Two ints whose result is none. -/
def Overflows (operation : Arithmetic) (left right : Number)
    (x y : Rat) : Prop :=
  operation ≠ .div ∧ left.type = .int ∧ right.type = .int ∧
    ¬ (-2 ^ 31 ≤ exactQ operation x y ∧ exactQ operation x y < 2 ^ 31)

/-- What has to come out of an operation on two numbers that denote `x` and
`y`. -/
inductive Prescribed (left right : Number) (x y : Rat) : Operation →
    Outcome → Prop
  | number
      (operation : Arithmetic)
      (result : Number)
      (notOverflow : ¬ Overflows operation left right x y)
      (notZero : ¬ (operation = .div ∧ y = 0))
      (denotes : result.Denotes (exactQ operation x y))
      (narrow : operation = .div → ∀ value, result = .bigInteger value →
        fitsInt value = false) :
      Prescribed left right x y (.arithmetic operation)
        (.returns (.number result))
  | integerOverflow
      (operation : Arithmetic)
      (isOverflow : Overflows operation left right x y) :
      Prescribed left right x y (.arithmetic operation)
        (.throws .integerOverflow)
  | divideByZero
      (isZero : y = 0) :
      Prescribed left right x y (.arithmetic .div) (.throws .divideByZero)
  | boolean
      (comparison : Comparison) :
      Prescribed left right x y (.comparison comparison)
        (.returns (.boolean (comparison.holds x y)))

theorem denotes_ratioSimplify
    (value : Rat) : (ratioSimplify value).Denotes value := by
  unfold ratioSimplify
  split
  · next isInteger =>
      have denotes := Number.Denotes.bigInteger value.num
      rwa [Rat.coe_int_num_of_den_eq_one isInteger] at denotes
  · next notInteger => exact .ratio value notInteger

theorem denotes_int {value : Int} (fits : fitsInt value = true) :
    (Number.int (BitVec.ofInt 32 value)).Denotes value := by
  have denotes := Number.Denotes.int (BitVec.ofInt 32 value)
  have same : (BitVec.ofInt 32 value).toInt = value := toInt32_of_fitsInt fits
  rwa [same] at denotes

/-! ## Comparisons -/

theorem test_cmp (comparison : Comparison) (x y : Rat) :
    comparison.test (cmp x y) = comparison.holds x y := by
  rw [Bool.eq_iff_iff]
  cases comparison <;> simp [Comparison.test, Comparison.holds]

theorem test_cmp_intCast (comparison : Comparison) (x y : Int) :
    comparison.test (cmp x y) = comparison.holds x y := by
  rw [← test_cmp]
  congr 1
  exact (Int.cast_strictMono (R := Rat)).cmp_map_eq x y |>.symm

theorem ratioComparison_eq (comparison : Comparison) (x y : Rat) :
    ratioComparison comparison x y =
      .returns (.boolean (comparison.holds x y)) := by
  rw [ratioComparison, test_cmp]

theorem bigIntegerComparison_eq (comparison : Comparison) (x y : Int) :
    bigIntegerComparison comparison x y =
      .returns (.boolean (comparison.holds x y)) := by
  rw [bigIntegerComparison, test_cmp_intCast]

section Operations

variable
  (doubles : DoubleArithmetic)
  {left right : Number}
  {x y : Rat}

theorem genericCmpOp_eq_holds
    (isLeft : left.Denotes x)
    (isRight : right.Denotes y)
    (comparison : Comparison) :
    Numbers.genericCmpOp doubles comparison left right =
      .returns (.boolean (comparison.holds x y)) := by
  cases isLeft with
  | int a =>
      cases isRight with
      | int b => exact bigIntegerComparison_eq comparison _ _
      | bigInteger b => exact bigIntegerComparison_eq comparison _ _
      | ratio b notInteger => exact ratioComparison_eq comparison _ _
  | bigInteger a =>
      cases isRight with
      | int b => exact bigIntegerComparison_eq comparison _ _
      | bigInteger b => exact bigIntegerComparison_eq comparison _ _
      | ratio b notInteger => exact ratioComparison_eq comparison _ _
  | ratio a notInteger =>
      cases isRight <;> exact ratioComparison_eq comparison _ _

/-- Numbers of one kind are compared as they are, others as ratios. -/
theorem equiv_eq_holds
    (isLeft : left.Denotes x)
    (isRight : right.Denotes y) :
    Numbers.equiv doubles left right =
      .returns (.boolean (Comparison.equiv.holds x y)) := by
  cases isLeft with
  | int a =>
      cases isRight with
      | int b =>
          simp [Numbers.equiv, Number.type, Comparison.holds, BitVec.toInt_inj]
      | bigInteger b => exact ratioComparison_eq .equiv _ _
      | ratio b notInteger => exact ratioComparison_eq .equiv _ _
  | bigInteger a =>
      cases isRight with
      | int b => exact ratioComparison_eq .equiv _ _
      | bigInteger b =>
          simp [Numbers.equiv, Number.type, Numbers.equalsManaged,
            Comparison.holds]
      | ratio b notInteger => exact ratioComparison_eq .equiv _ _
  | ratio a notInteger =>
      cases isRight with
      | int b => exact ratioComparison_eq .equiv _ _
      | bigInteger b => exact ratioComparison_eq .equiv _ _
      | ratio b isNone =>
          simp [Numbers.equiv, Number.type, Numbers.equalsManaged,
            Comparison.holds]

/-! ## Arithmetic -/

/-- Two ints apart, the operation is that of the ratios. -/
theorem genericMathOp_eq_ratioArithmetic
    (isLeft : left.Denotes x)
    (isRight : right.Denotes y)
    (notInts : ¬ (left.type = .int ∧ right.type = .int))
    (operation : Arithmetic) :
    Numbers.genericMathOp doubles operation left right =
      ratioArithmetic operation x y := by
  cases isLeft with
  | int a =>
      cases isRight with
      | int b => exact absurd ⟨rfl, rfl⟩ notInts
      | bigInteger b => exact bigIntegerArithmetic_eq operation _ _
      | ratio b notInteger => rfl
  | bigInteger a =>
      cases isRight with
      | int b => exact bigIntegerArithmetic_eq operation _ _
      | bigInteger b => exact bigIntegerArithmetic_eq operation _ _
      | ratio b notInteger => rfl
  | ratio a notInteger => cases isRight <;> rfl

theorem div_eq_simplifyResult
    (isLeft : left.Denotes x)
    (isRight : right.Denotes y) :
    Numbers.div doubles left right = Numbers.simplifyResult (ratioDiv x y) := by
  cases isLeft <;> cases isRight <;> rfl

/-- The checked operation on two ints. -/
theorem prescribed_checkedInt
    {operation : Arithmetic}
    {value : Int}
    (notDiv : operation ≠ .div)
    (leftInt : left.type = .int)
    (rightInt : right.type = .int)
    (isExact : exactQ operation x y = value) :
    Prescribed left right x y (.arithmetic operation)
      (Numbers.checkedInt value) := by
  have inRange :
    (-2 ^ 31 ≤ exactQ operation x y ∧ exactQ operation x y < 2 ^ 31) ↔
      fitsInt value = true := by
    rw [isExact, fitsInt, decide_eq_true_eq]
    norm_cast
  unfold Numbers.checkedInt
  split
  · next fits =>
      refine .number operation _ ?_ (fun isDiv => notDiv isDiv.1) ?_
        fun isDiv => absurd isDiv notDiv
      · exact fun overflow => overflow.2.2.2 (inRange.mpr fits)
      · rw [isExact]
        exact denotes_int fits
  · next notFits =>
      exact .integerOverflow operation
        ⟨notDiv, leftInt, rightInt, fun isIn => notFits (inRange.mp isIn)⟩

theorem prescribed_genericMathOp
    (isLeft : left.Denotes x)
    (isRight : right.Denotes y)
    {operation : Arithmetic}
    (notDiv : operation ≠ .div) :
    Prescribed left right x y (.arithmetic operation)
      (Numbers.genericMathOp doubles operation left right) := by
  by_cases ints : left.type = .int ∧ right.type = .int
  · cases isLeft with
    | int a =>
        cases isRight with
        | int b =>
            cases operation with
            | add =>
                exact prescribed_checkedInt notDiv rfl rfl
                  (Int.cast_add _ _).symm
            | sub =>
                exact prescribed_checkedInt notDiv rfl rfl
                  (Int.cast_sub _ _).symm
            | mul =>
                exact prescribed_checkedInt notDiv rfl rfl
                  (Int.cast_mul _ _).symm
            | div => exact absurd rfl notDiv
        | bigInteger | ratio => cases ints.2
    | bigInteger | ratio => cases ints.1
  · rw [genericMathOp_eq_ratioArithmetic doubles isLeft isRight ints,
      ratioArithmetic_eq,
      if_neg fun isDiv => notDiv isDiv.1]
    exact .number operation _
      (fun overflow => ints ⟨overflow.2.1, overflow.2.2.1⟩)
      (fun isDiv => notDiv isDiv.1) (denotes_ratioSimplify _) fun isDiv =>
        absurd isDiv notDiv

/-- A quotient is narrowed if it can be. -/
theorem prescribed_div
    (isLeft : left.Denotes x)
    (isRight : right.Denotes y) :
    Prescribed left right x y (.arithmetic .div)
      (Numbers.div doubles left right) := by
  rw [div_eq_simplifyResult doubles isLeft isRight]
  unfold ratioDiv
  split
  · next isZero => exact .divideByZero isZero
  · next notZero =>
      have denotes := denotes_ratioSimplify (x / y)
      have noOverflow : ¬ Overflows .div left right x y :=
        fun overflow => overflow.1 rfl
      cases quotient : ratioSimplify (x / y) with
      | bigInteger value =>
          rw [quotient] at denotes
          by_cases fits : fitsInt value = true
          · rw [Numbers.simplifyResult_of_fits fits]
            refine .number .div _ noOverflow
              (fun isZero => notZero isZero.2) ?_ ?_
            · have isValue : exactQ .div x y = value := by
                generalize exact : x / y = q at denotes
                cases denotes
                exact exact
              rw [isValue]
              exact denotes_int fits
            · intro _ value isBig
              cases isBig
          · rw [Numbers.simplifyResult_of_not_fits fits]
            refine .number .div _ noOverflow (fun isZero => notZero isZero.2)
              denotes ?_
            rintro _ _ ⟨⟩
            exact Bool.eq_false_of_not_eq_true fits
      | int bits | double bits | ratio bits =>
          rw [quotient] at denotes
          refine .number .div _ noOverflow (fun isZero => notZero isZero.2)
            denotes ?_
          intro _ _ isBig
          cases isBig

/-- The functions of numbers are exact. -/
theorem prescribed_apply
    (isLeft : left.Denotes x)
    (isRight : right.Denotes y)
    (operation : Operation) :
    Prescribed left right x y operation
      (Numbers.apply doubles operation left right) := by
  cases operation with
  | arithmetic operation =>
      cases operation with
      | add => exact prescribed_genericMathOp doubles isLeft isRight (by decide)
      | sub => exact prescribed_genericMathOp doubles isLeft isRight (by decide)
      | mul => exact prescribed_genericMathOp doubles isLeft isRight (by decide)
      | div => exact prescribed_div doubles isLeft isRight
  | comparison comparison =>
      cases comparison with
      | equiv =>
          change Prescribed left right x y _ (Numbers.equiv doubles left right)
          rw [equiv_eq_holds doubles isLeft isRight]
          exact .boolean .equiv
      | lt | lte | gt | gte =>
          change Prescribed left right x y _
            (Numbers.genericCmpOp doubles _ left right)
          rw [genericCmpOp_eq_holds doubles isLeft isRight]
          exact .boolean _

end Operations

end Runtime
end ClojureRt
