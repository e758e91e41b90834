import ClojureRt.Runtime.NumericTower.Refinement
import ClojureRt.Runtime.Rationals

/-!
# The exact tower

With ints, big integers and ratios the operations compute in the rationals.  The
object that has the result is new or was nobody else's, so every other object
stays as it is.
-/

namespace ClojureRt
namespace Runtime
namespace NumericTower

open RefCount RefCount.Program

/-- The references that an answer gives. -/
def given : Except Exception Answer → List Address
  | .ok (.value result) => addresses result
  | _ => []

/-- A value that stands for an exact number. -/
def Denotes (heap : NumberHeap) (value : RTValue) (number : Number)
    (denoted : Rat) : Prop :=
  numberAt heap value = some number ∧ number.Denotes denoted

/-- What an operation leaves alone: every object but that of the result, and
every object that somebody else refers to. -/
structure Undisturbed
    (before : NumberHeap)
    (consumed : List Address)
    (given : List Address)
    (after : NumberHeap) : Prop where
  live : ∀ address, address ∉ given → 0 < after.count address →
    after.object? address = before.object? address
  shared : ∀ address, consumed.count address < before.count address →
    after.object? address = before.object? address

theorem Refines.undisturbed
    {heap after : NumberHeap}
    {consumed : List Address}
    {outcome : Outcome}
    {answer : Except Exception Answer}
    (refines : Refines heap consumed outcome answer after) :
    Undisturbed heap consumed (given answer) after := by
  cases refines with
  | number value number after holding isNumber =>
      exact ⟨holding.exchange.kept, holding.exchange.others⟩
  | boolean result after holding =>
      exact ⟨holding.exchange.kept, holding.exchange.others⟩
  | throws exception after holding =>
      exact ⟨holding.exchange.kept, holding.exchange.others⟩

/-- Every operation on exact numbers returns what the rationals prescribe, and
leaves every other object as it was. -/
theorem run_exact
    (doubles : DoubleArithmetic)
    (operation : Operation)
    (heap : NumberHeap)
    (a b : RTValue)
    (left right : Number)
    (x y : Rat)
    (owned : Owned heap (addresses a ++ addresses b))
    (isLeft : Denotes heap a left x)
    (isRight : Denotes heap b right y) :
    Runs (run doubles operation a b) heap fun answer after =>
      ∃ outcome, Prescribed left right x y operation outcome ∧
        Refines heap (addresses a ++ addresses b) outcome answer after ∧
        Undisturbed heap (addresses a ++ addresses b) (given answer) after := by
  obtain ⟨foundLeft, denotesLeft⟩ := isLeft
  obtain ⟨foundRight, denotesRight⟩ := isRight
  apply (runs_run doubles operation owned (operand_of_numberAt foundLeft)
    (operand_of_numberAt foundRight)).mono
  intro answer after refines
  exact ⟨_, prescribed_apply doubles denotesLeft denotesRight operation,
    refines,
    refines.undisturbed⟩

/-- The doubles of an operation that has none. -/
def noDoubles : DoubleArithmetic where
  apply _ _ _ := 0
  holds _ _ _ := false
  ofInt _ := 0
  ofBigInteger _ := 0
  ofRatio _ := 0

/-- A ratio with three references. -/
def sharedHalf : NumberHeap :=
  Heap.empty.set 0 (some ⟨3, .ratio (1 / 2)⟩)

theorem sharedHalf_owned : Owned sharedHalf [0, 0] := by
  intro address
  by_cases isHalf : address = 0
  · subst isHalf
    decide
  · rw [List.count_eq_zero_of_not_mem (by simpa using isHalf)]
    exact Nat.zero_le _

theorem sharedHalf_denotes : Denotes sharedHalf (.pointer 0) (.ratio (1 / 2))
    (1 / 2) :=
  ⟨rfl, .ratio (1 / 2) (by norm_num)⟩

/-- The ratio is both operands, and somebody keeps the third reference. -/
theorem run_exact_sharedHalf :
    Runs (run noDoubles (.arithmetic .add) (.pointer 0) (.pointer 0)) sharedHalf
      fun answer after =>
        ∃ outcome, Prescribed (.ratio (1 / 2)) (.ratio (1 / 2)) (1 / 2) (1 / 2)
            (.arithmetic .add) outcome ∧
          Refines sharedHalf [0, 0] outcome answer after ∧
          Undisturbed sharedHalf [0, 0] (given answer) after :=
  run_exact noDoubles (.arithmetic .add) sharedHalf (.pointer 0) (.pointer 0)
    (.ratio (1 / 2))
    (.ratio (1 / 2)) (1 / 2) (1 / 2) sharedHalf_owned sharedHalf_denotes
    sharedHalf_denotes

end NumericTower
end Runtime
end ClojureRt
