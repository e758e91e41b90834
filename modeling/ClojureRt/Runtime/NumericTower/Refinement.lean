import ClojureRt.Runtime.NumericTower.Rules

/-!
# The functions of `Numbers.c` on the heap

With operands that are numbers, the code computes what the functions of numbers
compute, takes the references to the operands and gives one to the result.  This
does not depend on the counts, or on the operands being two objects.
-/

namespace ClojureRt
namespace Runtime
namespace NumericTower

open RefCount RefCount.Program

section Conversions

variable {base heap : NumberHeap} {consumed rest : List Address}

theorem runs_ratioSimplify
    {self : Address}
    {value : Rat}
    (holding : Holding base consumed heap [self])
    (found : heap.object? self = some (.ratio value))
    {post : RTValue → NumberHeap → Prop}
    (holds : ∀ result after, Holding base consumed after (addresses result) →
      numberAt after result = some (Runtime.ratioSimplify value) →
        post result after) :
    Runs (ratioSimplify self) heap post := by
  unfold ratioSimplify
  apply Runs.bind
  apply runs_loadRatio found
  by_cases isInteger : value.den = 1
  · have simplified : Runtime.ratioSimplify value = .bigInteger value.num :=
      if_pos isInteger
    rw [if_pos isInteger]
    rw [simplified] at holds
    apply Runs.bind
    apply holding.runs_allocate
    intro middle num middleHolding isNum _ same
    have stillThere : middle.object? self = some (.ratio value) := by
      rw [same self List.mem_cons_self, found]
    apply Runs.bind
    apply (middleHolding.perm (List.Perm.swap self num [])).runs_release
      stillThere rfl
    intro after afterHolding afterSame
    apply Runs.pure
    apply holds (.pointer num) after afterHolding
    simp only [numberAt, afterSame num List.mem_cons_self, isNum]
    rfl
  · have simplified : Runtime.ratioSimplify value = .ratio value :=
      if_neg isInteger
    rw [if_neg isInteger]
    rw [simplified] at holds
    apply Runs.pure
    apply holds (.pointer self) heap holding
    simp only [numberAt, found]
    rfl

/-- A number is made a ratio. -/
theorem runs_toRatio
    {value : RTValue}
    {number : Number}
    {ratio : Rat}
    (holding : Holding base consumed heap (addresses value ++ rest))
    (operand : Operand heap value number)
    (isRatio : Runtime.Numbers.toRatio number = some ratio)
    {post : Address → NumberHeap → Prop}
    (holds : ∀ result after, Holding base consumed after (result :: rest) →
      after.object? result = some (.ratio ratio) →
      (∀ other ∈ rest, after.object? other = heap.object? other) →
      post result after) :
    Runs (Numbers.toRatio value) heap post := by
  unfold Numbers.toRatio
  apply Runs.bind
  apply runs_getType operand
  cases operand with
  | int bits =>
      cases isRatio
      apply Runs.bind
      apply Runs.pure
      apply holding.runs_allocate
      intro after result afterHolding isResult _ same
      exact holds result after afterHolding isResult same
  | double bits => cases isRatio
  | ratio address value found =>
      cases isRatio
      exact Runs.pure (holds address heap holding found fun _ _ => rfl)
  | bigInteger address value found =>
      cases isRatio
      apply Runs.bind
      apply Runs.pure
      unfold ratioCreateFromBigInteger
      apply Runs.bind
      apply runs_loadBigInteger found
      apply Runs.bind
      apply holding.runs_allocate
      intro middle self middleHolding isSelf _ same
      have stillThere : middle.object? address = some (.bigInteger value) := by
        rw [same address List.mem_cons_self, found]
      apply Runs.bind
      apply (middleHolding.perm (List.Perm.swap address self rest)).runs_release
        stillThere rfl
      intro after afterHolding afterSame
      apply Runs.pure
      apply holds self after afterHolding
      · rw [afterSame self List.mem_cons_self, isSelf]
      · intro other isRest
        rw [afterSame other (List.mem_cons_of_mem _ isRest),
          same other (List.mem_cons_of_mem _ isRest)]

/-- A number is made a big integer. -/
theorem runs_toBigInt
    {value : RTValue}
    {number : Number}
    {bigInteger : Int}
    (holding : Holding base consumed heap (addresses value ++ rest))
    (operand : Operand heap value number)
    (isBigInteger : Runtime.Numbers.toBigInt number = some bigInteger)
    {post : Address → NumberHeap → Prop}
    (holds : ∀ result after, Holding base consumed after (result :: rest) →
      after.object? result = some (.bigInteger bigInteger) →
      (∀ other ∈ rest, after.object? other = heap.object? other) →
      post result after) :
    Runs (Numbers.toBigInt value) heap post := by
  unfold Numbers.toBigInt
  apply Runs.bind
  apply runs_getType operand
  cases operand with
  | int bits =>
      cases isBigInteger
      apply Runs.bind
      apply Runs.pure
      apply holding.runs_allocate
      intro after result afterHolding isResult _ same
      exact holds result after afterHolding isResult same
  | double bits => cases isBigInteger
  | bigInteger address value found =>
      cases isBigInteger
      exact Runs.pure (holds address heap holding found fun _ _ => rfl)
  | ratio address value found => cases isBigInteger

/-- A number is made a double. -/
theorem runs_toDouble
    (doubles : DoubleArithmetic)
    {value : RTValue}
    {number : Number}
    (holding : Holding base consumed heap (addresses value ++ rest))
    (operand : Operand heap value number)
    {post : Except Exception Double → NumberHeap → Prop}
    (holds : ∀ after, Holding base consumed after rest →
      (∀ other ∈ rest, after.object? other = heap.object? other) →
      post (.ok (Runtime.Numbers.toDouble doubles number)) after) :
    Runs (toDouble doubles value) heap post := by
  unfold toDouble
  apply Runs.bind
  apply runs_getType operand
  cases operand with
  | int bits =>
      apply Runs.bind
      exact Runs.pure (Runs.pure (holds heap holding fun _ _ => rfl))
  | double bits =>
      apply Runs.bind
      exact Runs.pure (Runs.pure (holds heap holding fun _ _ => rfl))
  | bigInteger address value found =>
      apply Runs.bind
      apply Runs.pure
      apply Runs.bind
      apply runs_loadBigInteger found
      apply Runs.bind
      apply holding.runs_release found rfl
      intro after afterHolding same
      exact Runs.pure (holds after afterHolding same)
  | ratio address value found =>
      apply Runs.bind
      apply Runs.pure
      apply Runs.bind
      apply runs_loadRatio found
      apply Runs.bind
      apply holding.runs_release found rfl
      intro after afterHolding same
      exact Runs.pure (holds after afterHolding same)

end Conversions

/-! ## Both operands -/

section Operands

variable
  {heap : NumberHeap}
  {a b : RTValue}
  {left right : Number}
  {α : Type}
  {post : α → NumberHeap → Prop}

/-- An operand stays what it is while the other one is converted. -/
theorem Operand.congr
    {before after : NumberHeap}
    {value : RTValue}
    {number : Number}
    (operand : Operand before value number)
    (same : ∀ address ∈ addresses value,
      after.object? address = before.object? address) :
    Operand after value number := by
  cases operand with
  | int bits => exact .int bits
  | double bits => exact .double bits
  | bigInteger address value found =>
      exact .bigInteger address value
        (by rw [same address List.mem_cons_self, found])
  | ratio address value found =>
      exact .ratio address value
        (by rw [same address List.mem_cons_self, found])

theorem runs_bothRatios
    (owned : Owned heap (addresses a ++ addresses b))
    (isLeft : Operand heap a left)
    (isRight : Operand heap b right)
    {x y : Rat}
    (leftRatio : Runtime.Numbers.toRatio left = some x)
    (rightRatio : Runtime.Numbers.toRatio right = some y)
    {next : Address → Address → Code α}
    (holds : ∀ ra rb after,
      Holding heap (addresses a ++ addresses b) after [ra, rb] →
      after.object? ra = some (.ratio x) → after.object? rb = some (.ratio y) →
      Runs (next ra rb) after post) :
    Runs (do
      let ra ← Numbers.toRatio a
      let rb ← Numbers.toRatio b
      next ra rb) heap post := by
  apply Runs.bind
  apply runs_toRatio (Holding.start owned) isLeft leftRatio
  intro ra middle middleHolding isFirst same
  have swapped :
      Holding heap (addresses a ++ addresses b) middle (addresses b ++ [ra]) :=
    middleHolding.perm (List.perm_append_singleton ra (addresses b)).symm
  apply Runs.bind
  apply runs_toRatio swapped (isRight.congr same) rightRatio
  intro rb after afterHolding isSecond afterSame
  apply holds ra rb after (afterHolding.perm (List.Perm.swap ra rb []))
  · rw [afterSame ra List.mem_cons_self, isFirst]
  · exact isSecond

theorem runs_bothBigInts
    (owned : Owned heap (addresses a ++ addresses b))
    (isLeft : Operand heap a left)
    (isRight : Operand heap b right)
    {x y : Int}
    (leftBigInteger : Runtime.Numbers.toBigInt left = some x)
    (rightBigInteger : Runtime.Numbers.toBigInt right = some y)
    {next : Address → Address → Code α}
    (holds : ∀ ba bb after,
      Holding heap (addresses a ++ addresses b) after [ba, bb] →
      after.object? ba = some (.bigInteger x) →
        after.object? bb = some (.bigInteger y) →
      Runs (next ba bb) after post) :
    Runs (do
      let ba ← Numbers.toBigInt a
      let bb ← Numbers.toBigInt b
      next ba bb) heap post := by
  apply Runs.bind
  apply runs_toBigInt (Holding.start owned) isLeft leftBigInteger
  intro ba middle middleHolding isFirst same
  have swapped :
      Holding heap (addresses a ++ addresses b) middle (addresses b ++ [ba]) :=
    middleHolding.perm (List.perm_append_singleton ba (addresses b)).symm
  apply Runs.bind
  apply runs_toBigInt swapped (isRight.congr same) rightBigInteger
  intro bb after afterHolding isSecond afterSame
  apply holds ba bb after (afterHolding.perm (List.Perm.swap ba bb []))
  · rw [afterSame ba List.mem_cons_self, isFirst]
  · exact isSecond

theorem runs_withDoubles
    (doubles : DoubleArithmetic)
    (owned : Owned heap (addresses a ++ addresses b))
    (isLeft : Operand heap a left)
    (isRight : Operand heap b right)
    (operation : Double → Double → α)
    {post : Except Exception α → NumberHeap → Prop}
    (holds : ∀ after, Holding heap (addresses a ++ addresses b) after [] →
      post (.ok (operation (Runtime.Numbers.toDouble doubles left)
        (Runtime.Numbers.toDouble doubles right))) after) :
    Runs (withDoubles doubles a b operation) heap post := by
  unfold withDoubles
  apply Runs.bind
  apply runs_toDouble doubles (Holding.start owned) isLeft
  intro middle middleHolding same
  have alone :
      Holding heap (addresses a ++ addresses b) middle (addresses b ++ []) :=
    middleHolding.perm (by rw [List.append_nil])
  apply Runs.bind
  apply runs_toDouble doubles alone (isRight.congr same)
  intro after afterHolding _
  exact Runs.pure (holds after afterHolding)

end Operands

/-! ## Outcomes -/

/-- The exception that is thrown. -/
def thrown : ArithmeticException → Exception
  | .integerOverflow => integerOverflow
  | .divideByZero => divideByZero

/-- What the code returns is the outcome of the function of numbers.  The
references to the operands have become those to the result. -/
inductive Refines
    (heap : NumberHeap)
    (consumed : List Address) : Outcome → Except Exception Answer →
    NumberHeap → Prop
  | number
      (value : RTValue)
      (number : Number)
      (after : NumberHeap)
      (holding : Holding heap consumed after (addresses value))
      (isNumber : numberAt after value = some number) :
      Refines heap consumed (.returns (.number number))
        (.ok (.value value)) after
  | boolean
      (result : Bool)
      (after : NumberHeap)
      (holding : Holding heap consumed after []) :
      Refines heap consumed (.returns (.boolean result))
        (.ok (.boolean result)) after
  | throws
      (exception : ArithmeticException)
      (after : NumberHeap)
      (holding : Holding heap consumed after []) :
      Refines heap consumed (.throws exception)
        (.error (thrown exception)) after

theorem exists_toBigInt
    {number : Number}
    (notDouble : number.type ≠ .double)
    (notRatio : number.type ≠ .ratio) :
    ∃ bigInteger, Runtime.Numbers.toBigInt number = some bigInteger := by
  cases number with
  | double value => exact absurd rfl notDouble
  | ratio value => exact absurd rfl notRatio
  | int | bigInteger => exact ⟨_, rfl⟩

/-- What is neither of the other kinds is an int. -/
theorem Operand.eq_int
    {heap : NumberHeap}
    {value : RTValue}
    {number : Number}
    (operand : Operand heap value number)
    (notDouble : number.type ≠ .double)
    (notRatio : number.type ≠ .ratio)
    (notBigInteger : number.type ≠ .bigInteger) :
    ∃ bits, value = .int bits ∧ number = .int bits := by
  cases operand with
  | int bits => exact ⟨bits, rfl, rfl⟩
  | double bits => exact absurd rfl notDouble
  | bigInteger => exact absurd rfl notBigInteger
  | ratio => exact absurd rfl notRatio

section Functions

variable
  {heap : NumberHeap}
  {a b : RTValue}
  {left right : Number}

/-- A function of GMP on two ratios, and the simplification of the result. -/
theorem runs_ratioOp
    {base : NumberHeap}
    {consumed : List Address}
    {self other : Address}
    {x y : Rat}
    (holding : Holding base consumed heap [self, other])
    (isLeft : heap.object? self = some (.ratio x))
    (isRight : heap.object? other = some (.ratio y))
    (operation : Rat → Rat → Rat)
    {post : RTValue → NumberHeap → Prop}
    (holds : ∀ result after, Holding base consumed after (addresses result) →
      numberAt after result = some (Runtime.ratioSimplify (operation x y)) →
      post result after) :
    Runs (do
      let retVal ← inPlace loadRatio .ratio 0 operation self other
      ratioSimplify retVal) heap post := by
  apply Runs.bind
  apply runs_inPlace stored_ratio holding isLeft isRight
  intro retVal middle middleHolding found
  exact runs_ratioSimplify middleHolding found holds

/-- The checked int operation. -/
theorem runs_checkedInt
    (owned : Owned heap (addresses a ++ addresses b))
    (left right : BitVec 32)
    (isLeft : a = .int left)
    (isRight : b = .int right)
    (opInt : Int → Int → Int) :
    Runs (do
      let va ← unboxInt32 a
      let vb ← unboxInt32 b
      let res := opInt va.toInt vb.toInt
      if fitsInt res then
        pure (.ok (.int (BitVec.ofInt 32 res)))
      else
        pure (.error integerOverflow)) heap
          fun (result : Except Exception RTValue) after =>
          Refines heap (addresses a ++ addresses b)
            (Runtime.Numbers.checkedInt (opInt left.toInt right.toInt))
            (result.map .value)
            after := by
  subst isLeft isRight
  apply Runs.bind
  apply Runs.pure
  apply Runs.bind
  apply Runs.pure
  unfold Runtime.Numbers.checkedInt
  simp only []
  split
  · exact Runs.pure (.number _ _ heap (Holding.start owned) rfl)
  · exact Runs.pure (.throws .integerOverflow heap (Holding.start owned))

/-- `GENERIC_MATH_OP`, for an operation that no number is excluded from. -/
theorem runs_genericMathOp
    (doubles : DoubleArithmetic)
    (owned : Owned heap (addresses a ++ addresses b))
    (isLeft : Operand heap a left)
    (isRight : Operand heap b right)
    {operation : Arithmetic}
    (opInt : Int → Int → Int)
    (opRat : Rat → Rat → Rat)
    (int : ∀ x y : BitVec 32,
      Runtime.Numbers.intArithmetic operation (.int x) (.int y) =
      Runtime.Numbers.checkedInt (opInt x.toInt y.toInt))
    (bigInteger : ∀ x y, bigIntegerArithmetic operation x y =
      .returns (.number (.bigInteger (opInt x y))))
    (ratio : ∀ x y, ratioArithmetic operation x y =
      .returns (.number (Runtime.ratioSimplify (opRat x y)))) :
    Runs (Numbers.genericMathOp opInt
      (inPlace loadBigInteger .bigInteger 0 opInt) (fun self other => do
        let retVal ← inPlace loadRatio .ratio 0 opRat self other
        ratioSimplify retVal)
      (doubles.apply operation) doubles a b) heap fun result after =>
        Refines heap (addresses a ++ addresses b)
          (Runtime.Numbers.genericMathOp doubles operation left right)
          (result.map .value)
          after := by
  unfold Numbers.genericMathOp Runtime.Numbers.genericMathOp
  apply Runs.bind
  apply runs_getType isLeft
  apply Runs.bind
  apply runs_getType isRight
  simp only [isNumeric, Bool.not_true, Bool.or_self, Bool.false_eq_true,
    if_false, ValueType.number.injEq]
  split
  · apply runs_withDoubles doubles owned isLeft isRight
    intro after holding
    exact .number _ _ after holding rfl
  next noDouble =>
  push Not at noDouble
  split
  · obtain ⟨x, leftRatio⟩ := Runtime.Numbers.exists_toRatio noDouble.1
    obtain ⟨y, rightRatio⟩ := Runtime.Numbers.exists_toRatio noDouble.2
    simp only [Runtime.Numbers.withRatios, leftRatio, rightRatio, ratio]
    apply runs_bothRatios owned isLeft isRight leftRatio rightRatio
    intro ra rb middle holding isFirst isSecond
    apply Runs.bind
    apply runs_ratioOp holding isFirst isSecond
    intro result after afterHolding isNumber
    exact Runs.pure (.number result _ after afterHolding isNumber)
  next noRatio =>
  push Not at noRatio
  split
  · obtain ⟨x, leftBigInteger⟩ := exists_toBigInt noDouble.1 noRatio.1
    obtain ⟨y, rightBigInteger⟩ := exists_toBigInt noDouble.2 noRatio.2
    simp only [Runtime.Numbers.withBigInts, leftBigInteger, rightBigInteger,
      bigInteger]
    apply runs_bothBigInts owned isLeft isRight leftBigInteger rightBigInteger
    intro ba bb middle holding isFirst isSecond
    apply Runs.bind
    apply runs_inPlace stored_bigInteger holding isFirst isSecond
    intro result after afterHolding found
    refine Runs.pure (.number (.pointer result) _ after afterHolding ?_)
    simp only [numberAt, found]
    rfl
  next noBigInteger =>
  push Not at noBigInteger
  obtain ⟨x, rfl, rfl⟩ := isLeft.eq_int noDouble.1 noRatio.1 noBigInteger.1
  obtain ⟨y, rfl, rfl⟩ := isRight.eq_int noDouble.2 noRatio.2 noBigInteger.2
  rw [int]
  exact runs_checkedInt owned x y rfl rfl opInt

/-- `Ratio_div` gives both ratios up before it throws. -/
theorem runs_ratioDiv
    {base : NumberHeap}
    {consumed : List Address}
    {self other : Address}
    {x y : Rat}
    (holding : Holding base consumed heap [self, other])
    (isLeft : heap.object? self = some (.ratio x))
    (isRight : heap.object? other = some (.ratio y))
    {post : Except Exception RTValue → NumberHeap → Prop}
    (throws : y = 0 → ∀ after, Holding base consumed after [] →
      post (.error divideByZero) after)
    (divides : y ≠ 0 → ∀ result after,
      Holding base consumed after (addresses result) →
      numberAt after result = some (Runtime.ratioSimplify (x / y)) →
        post (.ok result) after) :
    Runs (ratioDiv self other) heap post := by
  unfold ratioDiv
  apply Runs.bind
  apply runs_loadRatio isRight
  by_cases isZero : y = 0
  · rw [if_pos isZero]
    apply Runs.bind
    apply holding.runs_release isLeft rfl
    intro middle middleHolding same
    have stillThere : middle.object? other = some (.ratio y) := by
      rw [same other List.mem_cons_self, isRight]
    apply Runs.bind
    apply middleHolding.runs_release stillThere rfl
    intro after afterHolding _
    exact Runs.pure (throws isZero after afterHolding)
  · rw [if_neg isZero]
    apply Runs.bind
    apply runs_inPlace stored_ratio holding isLeft isRight
    intro retVal middle middleHolding found
    apply Runs.bind
    apply runs_ratioSimplify middleHolding found
    intro result after afterHolding isNumber
    exact Runs.pure (divides isZero result after afterHolding isNumber)

/-- A big integer that fits becomes an int. -/
theorem runs_simplifyResult
    {base : NumberHeap}
    {consumed : List Address}
    {value : RTValue}
    {number : Number}
    (holding : Holding base consumed heap (addresses value))
    (operand : Operand heap value number) :
    Runs (Numbers.simplifyResult value) heap fun result after =>
      Refines base consumed
        (Runtime.Numbers.simplifyResult (.returns (.number number)))
        (.ok (.value result)) after := by
  unfold Numbers.simplifyResult
  apply Runs.bind
  apply runs_getType operand
  cases operand with
  | int bits => exact Runs.pure (.number _ _ heap holding rfl)
  | double bits => exact Runs.pure (.number _ _ heap holding rfl)
  | ratio address value found =>
      apply Runs.pure
      apply Refines.number _ _ heap holding
      simp only [numberAt, found]
      rfl
  | bigInteger address value found =>
      simp only [Number.type, if_true]
      apply Runs.bind
      apply Runs.pure
      unfold Numbers.narrowBigInt
      apply Runs.bind
      apply runs_loadBigInteger found
      by_cases fits : fitsInt value = true
      · rw [if_pos fits, Runtime.Numbers.simplifyResult_of_fits fits]
        apply Runs.bind
        apply holding.runs_release found rfl
        intro after afterHolding _
        exact Runs.pure (.number _ _ after afterHolding rfl)
      · rw [if_neg fits, Runtime.Numbers.simplifyResult_of_not_fits fits]
        apply Runs.pure
        apply Refines.number _ _ heap holding
        simp only [numberAt, found]
        rfl

/-- `Numbers_div` -/
theorem runs_div
    (doubles : DoubleArithmetic)
    (owned : Owned heap (addresses a ++ addresses b))
    (isLeft : Operand heap a left)
    (isRight : Operand heap b right) :
    Runs (Numbers.div doubles a b) heap fun result after =>
      Refines heap (addresses a ++ addresses b)
        (Runtime.Numbers.div doubles left right) (result.map .value) after := by
  unfold Numbers.div Runtime.Numbers.div
  apply Runs.bind
  apply runs_getType isLeft
  apply Runs.bind
  apply runs_getType isRight
  simp only [isNumeric, Bool.not_true, Bool.or_self, Bool.false_eq_true,
    if_false, ValueType.number.injEq]
  split
  · apply runs_withDoubles doubles owned isLeft isRight
    intro after holding
    exact .number _ _ after holding rfl
  next noDouble =>
  push Not at noDouble
  obtain ⟨x, leftRatio⟩ := Runtime.Numbers.exists_toRatio noDouble.1
  obtain ⟨y, rightRatio⟩ := Runtime.Numbers.exists_toRatio noDouble.2
  simp only [Runtime.Numbers.withRatios, leftRatio, rightRatio]
  apply runs_bothRatios owned isLeft isRight leftRatio rightRatio
  intro ra rb middle holding isFirst isSecond
  apply Runs.bind
  apply runs_ratioDiv holding isFirst isSecond
  · intro isZero after afterHolding
    rw [Runtime.ratioDiv, if_pos isZero]
    exact Runs.pure (.throws .divideByZero after afterHolding)
  · intro notZero quotient after afterHolding isNumber
    rw [Runtime.ratioDiv, if_neg notZero]
    apply Runs.bind
    apply (runs_simplifyResult afterHolding (operand_of_numberAt isNumber)).mono
    exact fun result last refines => Runs.pure refines

/-- `Numbers_lt`, `Numbers_lte`, `Numbers_gt` and `Numbers_gte` -/
theorem runs_genericCmpOp
    (doubles : DoubleArithmetic)
    (owned : Owned heap (addresses a ++ addresses b))
    (isLeft : Operand heap a left)
    (isRight : Operand heap b right)
    (comparison : Comparison) :
    Runs (Numbers.genericCmpOp comparison doubles a b) heap fun result after =>
      Refines heap (addresses a ++ addresses b)
        (Runtime.Numbers.genericCmpOp doubles comparison left right)
        (result.map .boolean)
        after := by
  unfold Numbers.genericCmpOp Runtime.Numbers.genericCmpOp
  apply Runs.bind
  apply runs_getType isLeft
  apply Runs.bind
  apply runs_getType isRight
  simp only [isNumeric, Bool.not_true, Bool.or_self, Bool.false_eq_true,
    if_false, ValueType.number.injEq]
  split
  · apply runs_withDoubles doubles owned isLeft isRight
    exact fun after holding => .boolean _ after holding
  next noDouble =>
  push Not at noDouble
  split
  · obtain ⟨x, leftRatio⟩ := Runtime.Numbers.exists_toRatio noDouble.1
    obtain ⟨y, rightRatio⟩ := Runtime.Numbers.exists_toRatio noDouble.2
    simp only [Runtime.Numbers.withRatios, leftRatio, rightRatio]
    apply runs_bothRatios owned isLeft isRight leftRatio rightRatio
    intro ra rb middle holding isFirst isSecond
    apply Runs.bind
    apply runs_compared stored_ratio holding isFirst isSecond
    exact fun after afterHolding => Runs.pure (.boolean _ after afterHolding)
  next noRatio =>
  push Not at noRatio
  split
  · obtain ⟨x, leftBigInteger⟩ := exists_toBigInt noDouble.1 noRatio.1
    obtain ⟨y, rightBigInteger⟩ := exists_toBigInt noDouble.2 noRatio.2
    simp only [Runtime.Numbers.withBigInts, leftBigInteger, rightBigInteger]
    apply runs_bothBigInts owned isLeft isRight leftBigInteger rightBigInteger
    intro ba bb middle holding isFirst isSecond
    apply Runs.bind
    apply runs_compared stored_bigInteger holding isFirst isSecond
    exact fun after afterHolding => Runs.pure (.boolean _ after afterHolding)
  next noBigInteger =>
  push Not at noBigInteger
  obtain ⟨x, rfl, rfl⟩ := isLeft.eq_int noDouble.1 noRatio.1 noBigInteger.1
  obtain ⟨y, rfl, rfl⟩ := isRight.eq_int noDouble.2 noRatio.2 noBigInteger.2
  apply Runs.bind
  apply Runs.pure
  apply Runs.bind
  apply Runs.pure
  exact Runs.pure (.boolean _ heap (Holding.start owned))

theorem Object.equals_bigInteger (x y : Int) :
    (Object.bigInteger x).equals (.bigInteger y) = decide (x = y) := by
  unfold Object.equals
  split
  · next different =>
      symm
      rw [decide_eq_false_iff_not]
      rintro rfl
      exact different rfl
  · rfl

theorem Object.equals_ratio (x y : Rat) :
    (Object.ratio x).equals (.ratio y) = decide (x = y) := by
  unfold Object.equals
  split
  · next different =>
      symm
      rw [decide_eq_false_iff_not]
      rintro rfl
      exact different rfl
  · rfl

/-- `equals` compares two objects of one kind by what they store. -/
theorem runs_equals
    {self other : Address}
    {first second : Object}
    (isFirst : heap.object? self = some first)
    (isSecond : heap.object? other = some second)
    (sameType : first.type = second.type)
    (isRefl : first.equals first = true) :
    Runs (equals (.pointer self) (.pointer other)) heap fun result after =>
      result = first.equals second ∧ after = heap := by
  unfold equals
  split
  · next same =>
      cases same
      rw [isFirst, Option.some.injEq] at isSecond
      rw [← isSecond]
      exact Runs.pure ⟨isRefl.symm, rfl⟩
  · apply Runs.bind
    apply Runs.load isFirst
    apply Runs.bind
    apply Runs.load isSecond
    rw [if_neg (not_not_intro sameType)]
    exact Runs.pure ⟨rfl, rfl⟩

/-- Two objects of one kind are compared, then given up. -/
theorem runs_equalsReleased
    {self other : Address}
    {first second : Object}
    (owned : Owned heap [self, other])
    (isFirst : heap.object? self = some first)
    (isSecond : heap.object? other = some second)
    (firstLeaf : Referencing.references first = [])
    (secondLeaf : Referencing.references second = [])
    (sameType : first.type = second.type)
    (isRefl : first.equals first = true) :
    Runs (do
      let res ← equals (.pointer self) (.pointer other)
      releaseValue (.pointer self)
      releaseValue (.pointer other)
      pure (.ok res)) heap fun (result : Except Exception Bool) after =>
        result = .ok (first.equals second) ∧
          Holding heap [self, other] after [] := by
  apply Runs.bind
  apply (runs_equals isFirst isSecond sameType isRefl).mono
  rintro res _ ⟨rfl, rfl⟩
  apply Runs.bind
  apply (Holding.start owned).runs_release isFirst firstLeaf
  intro middle middleHolding same
  have stillThere : middle.object? other = some second := by
    rw [same other List.mem_cons_self, isSecond]
  apply Runs.bind
  apply middleHolding.runs_release stillThere secondLeaf
  intro after afterHolding _
  exact Runs.pure ⟨rfl, afterHolding⟩

/-- `Numbers_equiv` -/
theorem runs_equiv
    (doubles : DoubleArithmetic)
    (owned : Owned heap (addresses a ++ addresses b))
    (isLeft : Operand heap a left)
    (isRight : Operand heap b right) :
    Runs (Numbers.equiv doubles a b) heap fun result after =>
      Refines heap (addresses a ++ addresses b)
        (Runtime.Numbers.equiv doubles left right)
        (result.map .boolean) after := by
  unfold Numbers.equiv Runtime.Numbers.equiv
  apply Runs.bind
  apply runs_getType isLeft
  apply Runs.bind
  apply runs_getType isRight
  simp only [ValueType.number.injEq]
  split
  · next sameType =>
      cases isLeft with
      | int x =>
          cases isRight with
          | int y => exact Runs.pure (.boolean _ heap (Holding.start owned))
          | double | bigInteger | ratio => cases sameType
      | double x =>
          cases isRight with
          | double y => exact Runs.pure (.boolean _ heap (Holding.start owned))
          | int | bigInteger | ratio => cases sameType
      | bigInteger self x isFirst =>
          cases isRight with
          | bigInteger other y isSecond =>
              apply (runs_equalsReleased owned isFirst isSecond rfl rfl rfl
                ((Object.equals_bigInteger x x).trans
                  (decide_eq_true rfl))).mono
              rintro _ after ⟨rfl, holding⟩
              simp only [Runtime.Numbers.equalsManaged, Number.bigInteger.injEq,
                Object.equals_bigInteger]
              exact .boolean _ after holding
          | int | double | ratio => cases sameType
      | ratio self x isFirst =>
          cases isRight with
          | ratio other y isSecond =>
              apply (runs_equalsReleased owned isFirst isSecond rfl rfl rfl
                ((Object.equals_ratio x x).trans (decide_eq_true rfl))).mono
              rintro _ after ⟨rfl, holding⟩
              simp only [Runtime.Numbers.equalsManaged, Number.ratio.injEq,
                Object.equals_ratio]
              exact .boolean _ after holding
          | int | double | bigInteger => cases sameType
  split
  · apply runs_withDoubles doubles owned isLeft isRight
    exact fun after holding => .boolean _ after holding
  next noDouble =>
  push Not at noDouble
  obtain ⟨x, leftRatio⟩ := Runtime.Numbers.exists_toRatio noDouble.1
  obtain ⟨y, rightRatio⟩ := Runtime.Numbers.exists_toRatio noDouble.2
  simp only [Runtime.Numbers.withRatios, leftRatio, rightRatio]
  apply runs_bothRatios owned isLeft isRight leftRatio rightRatio
  intro ra rb middle holding isFirst isSecond
  unfold ratioEquals
  apply Runs.bind
  apply Runs.bind
  apply runs_loadRatio isFirst
  apply Runs.bind
  apply runs_loadRatio isSecond
  apply Runs.pure
  apply Runs.bind
  apply holding.runs_release isFirst rfl
  intro first firstHolding same
  have stillThere : first.object? rb = some (.ratio y) := by
    rw [same rb List.mem_cons_self, isSecond]
  apply Runs.bind
  apply firstHolding.runs_release stillThere rfl
  intro after afterHolding _
  rw [ratioComparison, test_equiv]
  exact Runs.pure (.boolean _ after afterHolding)

/-- Every operation computes what its function of numbers computes. -/
theorem runs_run
    (doubles : DoubleArithmetic)
    (operation : Operation)
    (owned : Owned heap (addresses a ++ addresses b))
    (isLeft : Operand heap a left)
    (isRight : Operand heap b right) :
    Runs (run doubles operation a b) heap
      (Refines heap (addresses a ++ addresses b)
        (Runtime.Numbers.apply doubles operation left right)) := by
  unfold run
  cases operation with
  | arithmetic operation =>
      apply Runs.bind
      cases operation with
      | add =>
          apply (runs_genericMathOp doubles owned isLeft isRight (· + ·)
            (· + ·) (fun _ _ => rfl) (fun _ _ => rfl) fun _ _ => rfl).mono
          exact fun result after refines => Runs.pure refines
      | sub =>
          apply (runs_genericMathOp doubles owned isLeft isRight (· - ·)
            (· - ·) (fun _ _ => rfl) (fun _ _ => rfl) fun _ _ => rfl).mono
          exact fun result after refines => Runs.pure refines
      | mul =>
          apply (runs_genericMathOp doubles owned isLeft isRight (· * ·)
            (· * ·) (fun _ _ => rfl) (fun _ _ => rfl) fun _ _ => rfl).mono
          exact fun result after refines => Runs.pure refines
      | div =>
          apply (runs_div doubles owned isLeft isRight).mono
          exact fun result after refines => Runs.pure refines
  | comparison comparison =>
      apply Runs.bind
      cases comparison with
      | equiv =>
          apply (runs_equiv doubles owned isLeft isRight).mono
          exact fun result after refines => Runs.pure refines
      | lt | lte | gt | gte =>
          apply (runs_genericCmpOp doubles owned isLeft isRight _).mono
          exact fun result after refines => Runs.pure refines

end Functions

end NumericTower
end Runtime
end ClojureRt
