import Mathlib
import ClojureRt.Runtime.Numbers

/-!
# Division of two ints

`Integer_div` on the words it computes with: Euclid's algorithm on 64-bit words,
where the remainder has the sign of the dividend and the two numbers change
places by three exclusive ors, and two divisions of ints.  The sign of the
divisor it finds is that of one of its arguments, by the parity of the number of
remainders, and what goes wrong with a divisor of the wrong sign is a negative
denominator that `mpq_set_si` takes for an unsigned one.
-/

namespace ClojureRt
namespace Runtime

/-! ## The functions on words -/

namespace Integer

/-- Three exclusive ors exchange a remainder and a divisor. -/
theorem exchange (remainder divisor : BitVec 64) :
    divisor ^^^ (remainder ^^^ divisor) = remainder ∧
      (remainder ^^^ divisor) ^^^ remainder = divisor := by
  constructor
  · rw [BitVec.xor_comm remainder, ← BitVec.xor_assoc, BitVec.xor_self,
      BitVec.zero_xor]
  · rw [BitVec.xor_comm remainder, BitVec.xor_assoc, BitVec.xor_self,
      BitVec.xor_zero]

/-- `gcd`. -/
def gcd (a b : BitVec 64) : BitVec 64 :=
  if b = 0 then
    a
  else
    let a₁ := a.srem b
    let a₂ := a₁ ^^^ b
    let b₁ := b ^^^ a₂
    gcd (a₂ ^^^ b₁) b₁
termination_by b.toInt.natAbs
decreasing_by
  next notZero =>
    rw [(exchange (a.srem b) b).1, BitVec.toInt_srem, Int.natAbs_tmod]
    refine Nat.mod_lt _ (Int.natAbs_pos.mpr fun isZero => notZero ?_)
    exact BitVec.eq_of_toInt_eq (isZero.trans (BitVec.toInt_zero).symm)

/-- `Integer_div`.  The divisions of the smallest int by minus one and its
negation are overflows of C. -/
def div (num den : BitVec 32) : Outcome :=
  if den = 0 then
    .throws .divideByZero
  else if num = 0 then
    .returns (.number (.int 0))
  else
    let g := (gcd (num.signExtend 64) (den.signExtend 64)).setWidth 32
    if (num = BitVec.intMin 32 ∨ den = BitVec.intMin 32) ∧ g = -1 then
      .undefined
    else
      let n := num.sdiv g
      let d := den.sdiv g
      if d = 1 then
        .returns (.number (.int n))
      else if d = -1 then
        if n = BitVec.intMin 32 then .undefined
        else .returns (.number (.int (-n)))
      else
        ratioCreateFromInts n.toInt d.toInt

/-- The words of `gcd` are the numbers of its algorithm. -/
theorem toInt_gcd (a b : BitVec 64) :
    (gcd a b).toInt = Runtime.gcd a.toInt b.toInt := by
  fun_induction gcd a b with
  | case1 a =>
      rw [Runtime.gcd, if_pos (show (0 : BitVec 64).toInt = 0 from rfl)]
  | case2 a b notZero a₁ a₂ b₁ inductionHypothesis =>
      have exchanged := exchange (a.srem b) b
      have divisorNotZero : b.toInt ≠ 0 := fun isZero =>
        notZero (BitVec.eq_of_toInt_eq (isZero.trans (BitVec.toInt_zero).symm))
      have remainder : b₁ = a.srem b := exchanged.1
      have divisor : a₂ ^^^ b₁ = b := by rw [remainder]; exact exchanged.2
      rw [inductionHypothesis, divisor, remainder, BitVec.toInt_srem,
        Runtime.gcd.eq_1 a.toInt, if_neg divisorNotZero]

end Integer

/-! ## The divisor -/

/-- The absolute value is that of the greatest common divisor. -/
theorem natAbs_gcd (a b : Int) : (Runtime.gcd a b).natAbs = Int.gcd a b := by
  fun_induction Runtime.gcd a b with
  | case1 a => simp
  | case2 a b notZero hypothesis =>
      rw [hypothesis, Int.gcd, Int.gcd, Int.natAbs_tmod, Nat.gcd_comm,
        Nat.gcd_comm a.natAbs]
      exact (Nat.gcd_rec _ _).symm

/-- The last divisor is an int when the first one is. -/
theorem fitsInt_gcd
    (a b : Int)
    (notZero : b ≠ 0)
    (fits : fitsInt b = true) :
    fitsInt (Runtime.gcd a b) = true := by
  fun_induction Runtime.gcd a b with
  | case1 a => exact absurd rfl notZero
  | case2 a b _ hypothesis =>
      by_cases divides : a.tmod b = 0
      · rw [divides, Runtime.gcd]
        simpa using fits
      · apply hypothesis divides
        have bound : (a.tmod b).natAbs < b.natAbs := by
          rw [Int.natAbs_tmod]
          exact Nat.mod_lt _ (by omega)
        simp only [fitsInt, decide_eq_true_eq] at fits ⊢
        omega

/-- The sign comes from the last divisor. -/
theorem gcd_neg_one (a : Int) : Runtime.gcd a (-1) = -1 := by
  have remainder : a.tmod (-1) = 0 := Int.tmod_eq_zero_of_dvd (by simp)
  rw [Runtime.gcd, if_neg (by decide), remainder, Runtime.gcd, if_pos rfl]

/-- A word of 32 bits is an int. -/
theorem fitsInt_toInt (value : BitVec 32) : fitsInt value.toInt = true := by
  have lower := BitVec.le_toInt value
  have upper := BitVec.toInt_lt (x := value)
  simp only [fitsInt, decide_eq_true_eq]
  omega

/-- An int is left as it is. -/
theorem toInt32_of_fitsInt
    {value : Int}
    (fits : fitsInt value = true) :
    toInt32 value = value := by
  simp only [fitsInt, decide_eq_true_eq] at fits
  unfold toInt32
  rw [BitVec.toInt_ofInt]
  exact Int.bmod_eq_of_le (by omega) (by omega)

/-! ## The quotient in lowest terms -/

/-- The quotient in lowest terms that `Integer_div` computes with a divisor
`g`. -/
structure LowestTerms (num den g n d : Int) : Prop where
  num_eq : n * g = num
  den_eq : d * g = den
  coprime : Nat.Coprime n.natAbs d.natAbs
  den_ne_zero : den ≠ 0

/-- Dividing both by the greatest common divisor. -/
theorem lowestTerms_gcd
    (num : Int)
    {den : Int}
    (denNotZero : den ≠ 0) :
    LowestTerms num den (Runtime.gcd num den) (num.tdiv (Runtime.gcd num den))
      (den.tdiv (Runtime.gcd num den)) := by
  have size := natAbs_gcd num den
  have positive : 0 < Int.gcd num den :=
    Int.gcd_pos_of_ne_zero_right num denNotZero
  have dividesNum : Runtime.gcd num den ∣ num := by
    rw [← Int.natAbs_dvd, size]
    exact Int.gcd_dvd_left _ _
  have dividesDen : Runtime.gcd num den ∣ den := by
    rw [← Int.natAbs_dvd, size]
    exact Int.gcd_dvd_right _ _
  refine ⟨Int.tdiv_mul_cancel dividesNum, Int.tdiv_mul_cancel dividesDen, ?_,
    denNotZero⟩
  rw [Int.natAbs_tdiv, Int.natAbs_tdiv, size]
  exact Nat.coprime_div_gcd_div_gcd positive

namespace LowestTerms

variable {num den g n d : Int}

/-- The denominator is not 0. -/
theorem d_ne_zero (lowest : LowestTerms num den g n d) : d ≠ 0 := by
  rintro rfl
  exact lowest.den_ne_zero (by rw [← lowest.den_eq, zero_mul])

/-- The divisor is not 0. -/
theorem g_ne_zero (lowest : LowestTerms num den g n d) : g ≠ 0 := by
  rintro rfl
  exact lowest.den_ne_zero (by rw [← lowest.den_eq, mul_zero])

/-- The value is the same. -/
theorem value (lowest : LowestTerms num den g n d) :
    (num : Rat) / den = n / d := by
  have gNotZero : (g : Rat) ≠ 0 := by exact_mod_cast lowest.g_ne_zero
  rw [← lowest.num_eq, ← lowest.den_eq, Int.cast_mul, Int.cast_mul,
    mul_div_mul_right _ _ gNotZero]

/-- A quotient in lowest terms whose denominator is not a unit is no integer. -/
theorem den_ne_one
    (lowest : LowestTerms num den g n d)
    (notOne : d ≠ 1)
    (notMinusOne : d ≠ -1) :
    ((num : Rat) / den).den ≠ 1 := by
  rw [lowest.value]
  rcases lt_or_gt_of_ne lowest.d_ne_zero with negative | positive
  · have flipped : (n : Rat) / d = ((-n : Int) : Rat) / ((-d : Int) : Rat) := by
      rw [Int.cast_neg, Int.cast_neg, neg_div_neg_eq]
    have den := Rat.den_div_eq_of_coprime (a := -n) (b := -d) (by omega)
      (by simpa using lowest.coprime)
    rw [flipped]
    omega
  · have den := Rat.den_div_eq_of_coprime positive lowest.coprime
    omega

/-- Negating the numerator does not overflow: the smallest int would have to
come from a division by minus one, where the divisor is minus one itself. -/
theorem fitsInt_neg
    (lowest : LowestTerms num den g n d)
    (fitsNum : fitsInt num = true)
    (fitsN : fitsInt n = true)
    (unit : d = -1)
    (signed : den = -1 → g = -1) :
    fitsInt (-n) = true := by
  have numEq := lowest.num_eq
  have denEq := lowest.den_eq
  have gNotZero := lowest.g_ne_zero
  simp only [fitsInt, decide_eq_true_eq] at *
  rw [unit] at denEq
  have notSmallest : n ≠ -2 ^ 31 := by
    rintro rfl
    have isOne : g = 1 := by omega
    have := signed (by omega)
    omega
  omega

end LowestTerms

/-- A denominator taken for an unsigned number gives another value. -/
theorem unsigned_denominator_ne
    {n d : Int}
    (nNotZero : n ≠ 0)
    (negative : d < 0)
    (fits : fitsInt d = true) :
    (n : Rat) / ((d % 2 ^ 64 : Int) : Rat) ≠ n / d := by
  simp only [fitsInt, decide_eq_true_eq] at fits
  have wrapped : d % 2 ^ 64 = d + 2 ^ 64 := by omega
  have nNotZeroRat : (n : Rat) ≠ 0 := by exact_mod_cast nNotZero
  have dNotZeroRat : (d : Rat) ≠ 0 := by exact_mod_cast negative.ne
  have shiftedNotZero : ((d + 2 ^ 64 : Int) : Rat) ≠ 0 := by
    exact_mod_cast (by omega : d + 2 ^ 64 ≠ 0)
  rw [wrapped]
  intro same
  rw [div_eq_div_iff shiftedNotZero dNotZeroRat] at same
  have cancelled := mul_left_cancel₀ nNotZeroRat same
  have integral : d = d + 2 ^ 64 := by exact_mod_cast cancelled
  omega

/-! ## The functions on words and on numbers agree -/

/-- A quotient of ints is an int unless the smallest one is negated. -/
theorem fitsInt_tdiv_iff
    {dividend divisor : Int}
    (fits : fitsInt dividend = true)
    (notZero : divisor ≠ 0) :
    fitsInt (dividend.tdiv divisor) = true ↔
      ¬ (dividend = -2 ^ 31 ∧ divisor = -1) := by
  simp only [fitsInt, decide_eq_true_eq] at *
  by_cases negates : divisor = -1
  · subst negates
    rw [Int.tdiv_neg, Int.tdiv_one]
    omega
  · have size : (dividend.tdiv divisor).natAbs ≤ dividend.natAbs :=
      Int.natAbs_tdiv_le_natAbs dividend divisor
    by_cases isSmallest : dividend = -2 ^ 31
    · subst isSmallest
      by_cases isOne : divisor = 1
      · subst isOne
        simp
      · have halved : ((-2 ^ 31 : Int).tdiv divisor).natAbs ≤ 2 ^ 31 / 2 := by
          rw [Int.natAbs_tdiv]
          exact Nat.div_le_div_left (by omega) (by decide)
        omega
    · omega

/-- A word that is not 0 stands for another number. -/
theorem toInt_ne_zero {value : BitVec 32} (notZero : value ≠ 0) :
    value.toInt ≠ 0 :=
  fun isZero =>
    notZero (BitVec.eq_of_toInt_eq (isZero.trans BitVec.toInt_zero.symm))

/-- The word of the smallest int. -/
theorem toInt_eq_iff_intMin (value : BitVec 32) :
    value = BitVec.intMin 32 ↔ value.toInt = -2 ^ 31 := by
  rw [← BitVec.toInt_inj]
  exact Iff.of_eq (congrArg _ (by decide))

/-- A 64-bit word that holds an int keeps it when it is narrowed. -/
theorem toInt_setWidth
    {word : BitVec 64}
    (fits : fitsInt word.toInt = true) :
    (word.setWidth 32).toInt = word.toInt := by
  simp only [fitsInt, decide_eq_true_eq] at fits
  have bound := word.isLt
  rw [BitVec.toInt_eq_toNat_cond] at fits ⊢
  rw [BitVec.toInt_eq_toNat_cond, BitVec.toNat_setWidth]
  split <;> split at fits <;> split <;> omega

/-- The division of words, where the quotient is an int. -/
theorem toInt_sdiv
    {dividend divisor : BitVec 32}
    (fits : fitsInt (dividend.toInt.tdiv divisor.toInt) = true) :
    (dividend.sdiv divisor).toInt = dividend.toInt.tdiv divisor.toInt := by
  simp only [fitsInt, decide_eq_true_eq] at fits
  rw [BitVec.toInt_sdiv]
  exact Int.bmod_eq_of_le (by omega) (by omega)

/-- The divisor as a word. -/
theorem Integer.toInt_divisor
    {num den : BitVec 32}
    (denNotZero : den ≠ 0) :
    ((Integer.gcd (num.signExtend 64) (den.signExtend 64)).setWidth 32).toInt =
      Runtime.gcd num.toInt den.toInt := by
  have isGcd : (Integer.gcd (num.signExtend 64) (den.signExtend 64)).toInt =
      Runtime.gcd num.toInt den.toInt := by
    rw [Integer.toInt_gcd, BitVec.toInt_signExtend_of_le (by decide),
      BitVec.toInt_signExtend_of_le (by decide)]
  have fits :=
    fitsInt_gcd num.toInt den.toInt (toInt_ne_zero denNotZero)
      (fitsInt_toInt den)
  rw [← isGcd] at fits
  rw [toInt_setWidth fits, isGcd]

/-- `Integer_div` on words is `Integer_div` on numbers: the negation of a
quotient never overflows. -/
theorem Integer.div_eq (num den : BitVec 32) :
    Integer.div num den = integerDiv num den := by
  unfold Integer.div integerDiv
  by_cases denZero : den = 0
  · rw [if_pos denZero, if_pos (by rw [denZero]; rfl)]
  by_cases numZero : num = 0
  · rw [if_neg denZero, if_pos numZero, if_neg (toInt_ne_zero denZero),
      if_pos (by rw [numZero]; rfl)]
    rfl
  rw [if_neg denZero, if_neg numZero, if_neg (toInt_ne_zero denZero),
    if_neg (toInt_ne_zero numZero)]
  have isDivisor := @Integer.toInt_divisor num den denZero
  have fitsDivisor :=
    fitsInt_gcd num.toInt den.toInt (toInt_ne_zero denZero) (fitsInt_toInt den)
  have lowest := lowestTerms_gcd num.toInt (toInt_ne_zero denZero)
  rw [toInt32_of_fitsInt fitsDivisor]
  have signed : den.toInt = -1 → Runtime.gcd num.toInt den.toInt = -1 := by
    intro unit
    rw [unit]
    exact gcd_neg_one _
  revert isDivisor lowest signed
  generalize (Integer.gcd (num.signExtend 64) (den.signExtend 64)).setWidth
    32 = word
  generalize Runtime.gcd num.toInt den.toInt = g
  rintro rfl lowest signed
  have divisorNotZero := lowest.g_ne_zero
  have fitsN := fitsInt_tdiv_iff (fitsInt_toInt num) divisorNotZero
  have fitsD := fitsInt_tdiv_iff (fitsInt_toInt den) divisorNotZero
  have isMinusOne : word = -1 ↔ word.toInt = -1 := by
    rw [← BitVec.toInt_inj]
    exact Iff.of_eq (congrArg _ (by decide))
  simp only [toInt_eq_iff_intMin, isMinusOne]
  by_cases overflows : (num.toInt = -2 ^ 31 ∨ den.toInt = -2 ^ 31) ∧
    word.toInt = -1
  · rw [if_pos overflows, if_pos]
    rw [Bool.or_eq_true, Bool.not_eq_true', Bool.not_eq_true',
      Bool.eq_false_iff, Bool.eq_false_iff, Ne, Ne, fitsN, fitsD, not_not,
      not_not]
    exact overflows.1.imp (fun smallest => ⟨smallest, overflows.2⟩)
      (fun smallest => ⟨smallest, overflows.2⟩)
  · have numFits := fitsN.mpr fun both => overflows ⟨Or.inl both.1, both.2⟩
    have denFits := fitsD.mpr fun both => overflows ⟨Or.inr both.1, both.2⟩
    have numerator := toInt_sdiv numFits
    have denominator := toInt_sdiv denFits
    have isOne : den.sdiv word = 1 ↔ den.toInt.tdiv word.toInt = 1 := by
      rw [← denominator, ← BitVec.toInt_inj]
      exact Iff.of_eq (congrArg _ (by decide))
    have isNegative : den.sdiv word = -1 ↔ den.toInt.tdiv word.toInt = -1 := by
      rw [← denominator, ← BitVec.toInt_inj]
      exact Iff.of_eq (congrArg _ (by decide))
    rw [if_neg overflows, numFits, denFits]
    simp only [isOne, isNegative, numerator, denominator, boxInt, Bool.not_true,
      Bool.or_self, Bool.false_eq_true, if_false]
    split
    · rw [← numerator, BitVec.ofInt_toInt]
    split
    · next unit =>
        have negated :=
          lowest.fitsInt_neg (fitsInt_toInt num) numFits unit signed
        simp only [fitsInt, decide_eq_true_eq] at negated
        rw [if_neg (by omega), ← numerator, BitVec.ofInt_neg,
          BitVec.ofInt_toInt]
    · rfl

/-! ## The sign of the divisor -/

/-- The number of remainders that Euclid's algorithm takes. -/
def divisionSteps (a b : Nat) : Nat :=
  if b = 0 then 0 else divisionSteps b (a % b) + 1
termination_by b
decreasing_by exact Nat.mod_lt _ (by omega)

/-- One step if there is no remainder. -/
theorem divisionSteps_of_dvd
    {a b : Nat}
    (notZero : b ≠ 0)
    (divides : b ∣ a) :
    divisionSteps a b = 1 := by
  rw [divisionSteps, if_neg notZero, Nat.mod_eq_zero_of_dvd divides,
    divisionSteps, if_pos rfl]

/-- Remainders have the signs of the two arguments in turn. -/
theorem sign_gcd
    (a b : Int)
    (dividendNotZero : a ≠ 0)
    (divisorNotZero : b ≠ 0) :
    (Runtime.gcd a b).sign =
      if divisionSteps a.natAbs b.natAbs % 2 = 1 then b.sign else a.sign := by
  fun_induction Runtime.gcd a b with
  | case1 a => exact absurd rfl divisorNotZero
  | case2 a b _ inductionHypothesis =>
      rw [divisionSteps, if_neg (Int.natAbs_ne_zero.mpr divisorNotZero),
        ← Int.natAbs_tmod]
      by_cases divides : b ∣ a
      · rw [Int.tmod_eq_zero_of_dvd divides, Runtime.gcd, if_pos rfl,
          divisionSteps, if_pos Int.natAbs_zero, if_pos rfl]
      · have remainderNotZero : a.tmod b ≠ 0 :=
          fun isZero => divides (Int.dvd_of_tmod_eq_zero isZero)
        rw [inductionHypothesis divisorNotZero remainderNotZero, Int.sign_tmod,
          if_neg divides]
        split <;> split <;> first | rfl | omega

/-! ## When the division is exact -/

/-- The quotient of two ints: an int if it is integral and fits, and otherwise a
ratio. -/
def quotient (num den : BitVec 32) : Number :=
  let value : Rat := num.toInt / den.toInt
  if value.den = 1 ∧ fitsInt value.num = true then
    .int (BitVec.ofInt 32 value.num)
  else
    .ratio value

/-- `Integer_div` returns the quotient, and on the way no integer is too large
for its type and no negative number is taken for an unsigned one. -/
structure DividesExactly (num den : BitVec 32) : Prop where
  returns : Integer.div num den = .returns (.number (quotient num den))
  narrows : num.toInt ≠ 0 → fitsInt (Runtime.gcd num.toInt den.toInt) = true
  divides : num.toInt ≠ 0 →
    fitsInt (num.toInt.tdiv (Runtime.gcd num.toInt den.toInt)) = true ∧
      fitsInt (den.toInt.tdiv (Runtime.gcd num.toInt den.toInt)) = true
  negates : num.toInt ≠ 0 →
    den.toInt.tdiv (Runtime.gcd num.toInt den.toInt) = -1 →
    fitsInt (-num.toInt.tdiv (Runtime.gcd num.toInt den.toInt)) = true
  unsigned : num.toInt ≠ 0 →
    den.toInt.tdiv (Runtime.gcd num.toInt den.toInt) ≠ 1 →
    den.toInt.tdiv (Runtime.gcd num.toInt den.toInt) ≠ -1 →
      0 ≤ den.toInt.tdiv (Runtime.gcd num.toInt den.toInt)

/-- The divisor has the sign of the denominator. -/
def KeepsSign (num den : Int) : Prop :=
  (num < 0 ↔ den < 0) ∨ divisionSteps num.natAbs den.natAbs % 2 = 1

/-- The divisor has the sign of the denominator, and if it is minus one then
neither number is the smallest int. -/
def WellSigned (num den : Int) : Prop :=
  num = 0 ∨
    ((num < 0 ↔ den < 0) ∨ divisionSteps num.natAbs den.natAbs % 2 = 1) ∧
      ¬ (den < 0 ∧ Int.gcd num den = 1 ∧ (num = -2 ^ 31 ∨ den = -2 ^ 31))

/-- A quotient that is an int. -/
theorem quotient_of_int
    {num den : BitVec 32}
    {value : Int}
    (isQuotient : (num.toInt : Rat) / den.toInt = value)
    (fits : fitsInt value = true) :
    quotient num den = .int (BitVec.ofInt 32 value) := by
  simp [quotient, isQuotient, fits]

/-- A quotient that is no integer. -/
theorem quotient_of_ratio
    {num den : BitVec 32}
    (notInteger : ((num.toInt : Rat) / den.toInt).den ≠ 1) :
    quotient num den = .ratio ((num.toInt : Rat) / den.toInt) := by
  simp [quotient, notInteger]

/-- Two numbers other than 0 have one sign. -/
theorem sign_eq_iff
    {a b : Int}
    (leftNotZero : a ≠ 0)
    (rightNotZero : b ≠ 0) :
    a.sign = b.sign ↔ (a < 0 ↔ b < 0) := by
  rcases lt_or_gt_of_ne leftNotZero with left | left <;>
    rcases lt_or_gt_of_ne rightNotZero with right | right <;>
    simp [Int.sign_eq_neg_one_of_neg, Int.sign_eq_one_of_pos, left, right,
      left.le, right.le]
  omega

/-- The divisor has the sign of the denominator exactly if the signs of the
arguments agree or the last remainder has it. -/
theorem sign_gcd_eq_iff
    {a b : Int}
    (dividendNotZero : a ≠ 0)
    (divisorNotZero : b ≠ 0) :
    (Runtime.gcd a b).sign = b.sign ↔
      (a < 0 ↔ b < 0) ∨ divisionSteps a.natAbs b.natAbs % 2 = 1 := by
  rw [sign_gcd a b dividendNotZero divisorNotZero]
  by_cases odd : divisionSteps a.natAbs b.natAbs % 2 = 1
  · rw [if_pos odd]
    exact iff_of_true rfl (Or.inr odd)
  · rw [if_neg odd, sign_eq_iff dividendNotZero divisorNotZero]
    exact ⟨Or.inl, fun either => either.resolve_right odd⟩

namespace LowestTerms

variable {num den g n d : Int}

/-- The sign of the denominator depends on that of the divisor. -/
theorem pos_iff (lowest : LowestTerms num den g n d) : 0 < d ↔
    g.sign = den.sign := by
  have gNotZero := lowest.g_ne_zero
  have dNotZero := lowest.d_ne_zero
  rw [← lowest.den_eq, Int.sign_mul]
  constructor
  · intro positive
    rw [Int.sign_eq_one_of_pos positive, one_mul]
  · intro same
    by_contra notPositive
    have negative : d < 0 := by omega
    rw [Int.sign_eq_neg_one_of_neg negative] at same
    rcases lt_or_gt_of_ne gNotZero with gNegative | gPositive
    · rw [Int.sign_eq_neg_one_of_neg gNegative] at same
      omega
    · rw [Int.sign_eq_one_of_pos gPositive] at same
      omega

/-- The denominator of a quotient that is not integral is no unit. -/
theorem not_unit
    (lowest : LowestTerms num den g n d)
    (notDivides : ¬ den ∣ num) :
    d ≠ 1 ∧ d ≠ -1 := by
  constructor
  · rintro rfl
    exact notDivides ⟨n, by rw [← lowest.num_eq, ← lowest.den_eq]; ring⟩
  · rintro rfl
    exact notDivides ⟨-n, by rw [← lowest.num_eq, ← lowest.den_eq]; ring⟩

end LowestTerms

/-- A denominator that cancels to a unit cancels to one. -/
theorem tdiv_gcd_ne_neg_one
    {num den : Int}
    (numNotZero : num ≠ 0)
    (denNotZero : den ≠ 0) : den.tdiv (Runtime.gcd num den) ≠ -1 := by
  intro isMinusOne
  have lowest := lowestTerms_gcd num denNotZero
  have divides : den ∣ num := by
    by_contra notDivides
    exact (lowest.not_unit notDivides).2 isMinusOne
  have odd : divisionSteps num.natAbs den.natAbs % 2 = 1 := by
    rw [divisionSteps_of_dvd (Int.natAbs_ne_zero.mpr denNotZero)
      (Int.natAbs_dvd_natAbs.mpr divides)]
  have positive :=
    lowest.pos_iff.mpr ((sign_gcd_eq_iff numNotZero denNotZero).mpr (.inr odd))
  omega

/-- The quotient and the denominator fit, and the denominator is positive. -/
theorem wellSigned_iff
    {num den : BitVec 32}
    (denNotZero : den.toInt ≠ 0)
    (numNotZero : num.toInt ≠ 0) :
    WellSigned num.toInt den.toInt ↔
      fitsInt (num.toInt.tdiv (Runtime.gcd num.toInt den.toInt)) = true ∧
      fitsInt (den.toInt.tdiv (Runtime.gcd num.toInt den.toInt)) = true ∧
      0 < den.toInt.tdiv (Runtime.gcd num.toInt den.toInt) := by
  have lowest := lowestTerms_gcd num.toInt denNotZero
  have size := natAbs_gcd num.toInt den.toInt
  have fitsN := fitsInt_tdiv_iff (fitsInt_toInt num) lowest.g_ne_zero
  have fitsD := fitsInt_tdiv_iff (fitsInt_toInt den) lowest.g_ne_zero
  constructor
  · rintro (isZero | ⟨signed, notSmallest⟩)
    · exact absurd isZero numNotZero
    have sameSign := (sign_gcd_eq_iff numNotZero denNotZero).mpr signed
    have noOverflow : Runtime.gcd num.toInt den.toInt = -1 →
        ¬ (num.toInt = -2 ^ 31 ∨ den.toInt = -2 ^ 31) := by
      intro isMinusOne smallest
      rw [isMinusOne] at sameSign size
      exact notSmallest ⟨Int.sign_eq_neg_one_iff_neg.mp sameSign.symm,
        size.symm, smallest⟩
    exact ⟨fitsN.mpr fun both => noOverflow both.2 (.inl both.1),
      fitsD.mpr fun both => noOverflow both.2 (.inr both.1),
        lowest.pos_iff.mpr sameSign⟩
  · rintro ⟨numFits, denFits, positive⟩
    have sameSign := lowest.pos_iff.mp positive
    refine .inr ⟨(sign_gcd_eq_iff numNotZero denNotZero).mp sameSign, ?_⟩
    rintro ⟨negative, coprime, smallest⟩
    rw [Int.sign_eq_neg_one_of_neg negative,
      Int.sign_eq_neg_one_iff_neg] at sameSign
    have isMinusOne : Runtime.gcd num.toInt den.toInt = -1 := by omega
    rcases smallest with smallest | smallest
    · exact fitsN.mp numFits ⟨smallest, isMinusOne⟩
    · exact fitsD.mp denFits ⟨smallest, isMinusOne⟩

/-- With a divisor of the sign of the denominator only the size of the numbers
can go wrong. -/
theorem positive_or_overflow_iff
    {num den : BitVec 32}
    (denNotZero : den.toInt ≠ 0)
    (numNotZero : num.toInt ≠ 0) :
    (0 < den.toInt.tdiv (Runtime.gcd num.toInt den.toInt) ∨
      fitsInt (num.toInt.tdiv (Runtime.gcd num.toInt den.toInt)) = false ∨
      fitsInt (den.toInt.tdiv (Runtime.gcd num.toInt den.toInt)) = false) ↔
      KeepsSign num.toInt den.toInt ∨
        (0 < den.toInt ∧ Int.gcd num.toInt den.toInt = 1 ∧
          num.toInt = -2 ^ 31) := by
  have lowest := lowestTerms_gcd num.toInt denNotZero
  have size := natAbs_gcd num.toInt den.toInt
  have fitsN := fitsInt_tdiv_iff (fitsInt_toInt num) lowest.g_ne_zero
  have fitsD := fitsInt_tdiv_iff (fitsInt_toInt den) lowest.g_ne_zero
  rw [lowest.pos_iff, ← Bool.not_eq_true, ← Bool.not_eq_true, fitsN, fitsD,
    not_not, not_not, KeepsSign, ← sign_gcd_eq_iff numNotZero denNotZero,
    sign_eq_iff lowest.g_ne_zero denNotZero]
  have notZero := lowest.g_ne_zero
  omega

/-- What `Integer_div` returns once its quotient is in lowest terms. -/
theorem Integer.div_of_fits
    {num den : BitVec 32}
    (denNotZero : den.toInt ≠ 0)
    (numNotZero : num.toInt ≠ 0)
    (fitsN : fitsInt (num.toInt.tdiv (Runtime.gcd num.toInt den.toInt)) = true)
    (fitsD : fitsInt (den.toInt.tdiv (Runtime.gcd num.toInt den.toInt)) = true)
    (positive : 0 < den.toInt.tdiv (Runtime.gcd num.toInt den.toInt)) :
    Integer.div num den = .returns (.number (quotient num den)) := by
  have narrows := toInt32_of_fitsInt
    (fitsInt_gcd num.toInt den.toInt denNotZero (fitsInt_toInt den))
  have lowest := lowestTerms_gcd num.toInt denNotZero
  have notMinusOne : den.toInt.tdiv (Runtime.gcd num.toInt den.toInt) ≠ -1 := by
    omega
  rw [Integer.div_eq, integerDiv, if_neg denNotZero, if_neg numNotZero, narrows]
  simp only [fitsN, fitsD, Bool.not_true, Bool.or_self, Bool.false_eq_true,
    if_false, notMinusOne]
  split
  · next isOne =>
      have isQuotient : (num.toInt : Rat) / den.toInt =
          (num.toInt.tdiv (Runtime.gcd num.toInt den.toInt) : Int) := by
        rw [lowest.value, isOne, Int.cast_one, div_one]
      rw [quotient_of_int isQuotient fitsN, boxInt]
  · next notOne =>
      simp only [fitsInt, decide_eq_true_eq] at fitsD
      rw [quotient_of_ratio (lowest.den_ne_one notOne notMinusOne),
        lowest.value,
        ratioCreateFromInts, if_neg lowest.d_ne_zero,
        Int.emod_eq_of_lt (by omega) (by omega)]

/-- The case of 0, and the signs otherwise. -/
theorem div_exact_iff
    (num den : BitVec 32)
    (denNotZero : den.toInt ≠ 0) :
    DividesExactly num den ↔ WellSigned num.toInt den.toInt := by
  have narrows := fitsInt_gcd num.toInt den.toInt denNotZero (fitsInt_toInt den)
  by_cases numZero : num.toInt = 0
  · have returns :
        Integer.div num den = .returns (.number (quotient num den)) := by
      have isQuotient : (num.toInt : Rat) / den.toInt = (0 : Int) := by
        rw [numZero]; simp
      rw [Integer.div_eq, integerDiv, if_neg denNotZero, if_pos numZero,
        quotient_of_int isQuotient (by decide), boxInt]
    exact iff_of_true ⟨returns, fun notZero => absurd numZero notZero,
      fun notZero => absurd numZero notZero,
        fun notZero => absurd numZero notZero,
      fun notZero => absurd numZero notZero⟩ (Or.inl numZero)
  have notMinusOne := tdiv_gcd_ne_neg_one numZero denNotZero
  rw [wellSigned_iff denNotZero numZero]
  constructor
  · intro exact
    obtain ⟨numFits, denFits⟩ := exact.divides numZero
    refine ⟨numFits, denFits, ?_⟩
    by_cases isOne : den.toInt.tdiv (Runtime.gcd num.toInt den.toInt) = 1
    · omega
    have nonnegative := exact.unsigned numZero isOne notMinusOne
    exact lt_of_le_of_ne nonnegative
      (lowestTerms_gcd num.toInt denNotZero).d_ne_zero.symm
  · rintro ⟨numFits, denFits, positive⟩
    exact ⟨Integer.div_of_fits denNotZero numZero numFits denFits positive,
      fun _ => narrows, fun _ => ⟨numFits, denFits⟩,
      fun _ isMinusOne => absurd isMinusOne notMinusOne,
        fun _ _ _ => positive.le⟩

/-- `(/ 1 2)`. -/
theorem div_exact_iff_half : DividesExactly 1 2 ↔ WellSigned 1 2 :=
  div_exact_iff 1 2 (by decide)

/-- `(/ 1 -2)`: the divisor is one, and the denominator stays negative. -/
theorem div_not_exact : ¬ ∀ num den : BitVec 32,
    den.toInt ≠ 0 → DividesExactly num den := by
  intro allExact
  have exact := allExact 1 (-2) (by decide)
  have common :
      Runtime.gcd (1 : BitVec 32).toInt (-2 : BitVec 32).toInt = 1 := by
    rw [show (1 : BitVec 32).toInt =
      1 by decide, show (-2 : BitVec 32).toInt = -2 by decide,
      Runtime.gcd, if_neg (by decide),
      show Int.tmod 1 (-2) = 1 by decide, Runtime.gcd,
      if_neg (by decide),
      show Int.tmod (-2) 1 = 0 by decide, Runtime.gcd, if_pos rfl]
  have nonnegative := exact.unsigned (by decide)
  rw [common] at nonnegative
  exact absurd (nonnegative (by decide) (by decide)) (by decide)

end Runtime
end ClojureRt
