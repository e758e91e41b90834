import ClojureRt.Runtime.NumericTower.Defs

/-!
# Rules for numbers on the heap

Each rule says that a piece of code runs, which references it turns into which,
and what the numbers are that they refer to.
-/

namespace ClojureRt
namespace Runtime
namespace NumericTower

open RefCount RefCount.Program

/-! ## Numbers -/

/-- The number that an object is. -/
def Object.number : Object → Option Number
  | .bigInteger value => some (.bigInteger value)
  | .ratio value => some (.ratio value)
  | .other _ _ _ => none

/-- The number that a value stands for. -/
def numberAt (heap : NumberHeap) : RTValue → Option Number
  | .int value => some (.int value)
  | .double value => some (.double value)
  | .immediate _ => none
  | .pointer address => (heap.object? address).bind Object.number

/-- The values that stand for numbers. -/
inductive Operand (heap : NumberHeap) : RTValue → Number → Prop
  | int (value : BitVec 32) : Operand heap (.int value) (.int value)
  | double (value : Double) : Operand heap (.double value) (.double value)
  | bigInteger
      (address : Address)
      (value : Int)
      (found : heap.object? address = some (.bigInteger value)) :
      Operand heap (.pointer address) (.bigInteger value)
  | ratio
      (address : Address)
      (value : Rat)
      (found : heap.object? address = some (.ratio value)) :
      Operand heap (.pointer address) (.ratio value)

theorem operand_of_numberAt
    {heap : NumberHeap}
    {value : RTValue}
    {number : Number}
    (isNumber : numberAt heap value = some number) :
    Operand heap value number := by
  cases value with
  | int bits =>
      cases isNumber
      exact .int bits
  | double bits =>
      cases isNumber
      exact .double bits
  | immediate bits => cases isNumber
  | pointer address =>
      obtain ⟨object, found, isObject⟩ := Option.bind_eq_some_iff.mp isNumber
      cases object with
      | bigInteger value =>
          cases isObject
          exact .bigInteger address value found
      | ratio value =>
          cases isObject
          exact .ratio address value found
      | other objectType content references => cases isObject

/-! ## Access -/

section Access

variable {heap : NumberHeap}

theorem runs_getType
    {value : RTValue}
    {number : Number}
    (operand : Operand heap value number)
    {post : ValueType → NumberHeap → Prop}
    (holds : post (.number number.type) heap) :
    Runs (getType value) heap post := by
  cases operand with
  | int bits => exact Runs.pure holds
  | double bits => exact Runs.pure holds
  | bigInteger address value found =>
      apply Runs.bind
      apply Runs.load found
      exact Runs.pure holds
  | ratio address value found =>
      apply Runs.bind
      apply Runs.load found
      exact Runs.pure holds

theorem runs_loadBigInteger
    {address : Address}
    {value : Int}
    (found : heap.object? address = some (.bigInteger value))
    {post : Int → NumberHeap → Prop}
    (holds : post value heap) : Runs (loadBigInteger address) heap post := by
  unfold loadBigInteger
  apply Runs.bind
  apply Runs.load found
  exact Runs.pure holds

theorem runs_loadRatio
    {address : Address}
    {value : Rat}
    (found : heap.object? address = some (.ratio value))
    {post : Rat → NumberHeap → Prop}
    (holds : post value heap) : Runs (loadRatio address) heap post := by
  unfold loadRatio
  apply Runs.bind
  apply Runs.load found
  exact Runs.pure holds

end Access

/-! ## Two objects of one kind -/

/-- How numbers of one kind are stored and read. -/
structure Stored
    {Value : Type}
    (read : Address → Code Value)
    (write : Value → Object) : Prop where
  runs : ∀ (heap : NumberHeap) (address : Address) (value : Value)
    (post : Value → NumberHeap → Prop),
    heap.object? address = some (write value) → post value heap →
      Runs (read address) heap post
  isLeaf : ∀ value, Referencing.references (write value) = []

theorem stored_bigInteger : Stored loadBigInteger Object.bigInteger where
  runs _ _ _ _ found holds := runs_loadBigInteger found holds
  isLeaf _ := rfl

theorem stored_ratio : Stored loadRatio Object.ratio where
  runs _ _ _ _ found holds := runs_loadRatio found holds
  isLeaf _ := rfl

section TwoObjects

variable
  {Value : Type}
  {read : Address → Code Value}
  {write : Value → Object}
  {base heap : NumberHeap}
  {consumed rest : List Address}
  {self other : Address}
  {left right : Value}

/-- The result is stored into the operand with one reference, or into a new
object. -/
theorem runs_inPlace
    (stored : Stored read write)
    (holding : Holding base consumed heap [self, other])
    (isLeft : heap.object? self = some (write left))
    (isRight : heap.object? other = some (write right))
    (unassigned : Value)
    (operation : Value → Value → Value)
    {post : Address → NumberHeap → Prop}
    (holds : ∀ retVal after, Holding base consumed after [retVal] →
      after.object? retVal = some (write (operation left right)) →
        post retVal after) :
    Runs (inPlace read write unassigned operation self other) heap post := by
  have swapped : Holding base consumed heap [other, self] :=
    holding.perm (List.Perm.swap other self [])
  unfold inPlace
  apply Runs.bind
  apply Runs.isReusable isLeft
  apply Runs.bind
  apply Runs.isReusable isRight
  apply Runs.bind
  cases selfOne : heap.count self == 1 with
  | true =>
      apply Runs.pure
      apply Runs.bind
      apply stored.runs _ _ _ _ isLeft
      apply Runs.bind
      apply stored.runs _ _ _ _ isRight
      apply Runs.bind
      apply holding.runs_store isLeft (beq_iff_eq.mp selfOne)
      intro first firstHolding isResult same
      have stillRight : first.object? other = some (write right) := by
        rw [same other List.mem_cons_self, isRight]
      apply Runs.bind
      apply (firstHolding.perm (List.Perm.swap other self [])).runs_release
        stillRight (stored.isLeaf right)
      intro after afterHolding afterSame
      apply Runs.pure
      apply holds self after afterHolding
      rw [afterSame self List.mem_cons_self, isResult]
  | false =>
      cases otherOne : heap.count other == 1 with
      | true =>
          apply Runs.pure
          apply Runs.bind
          apply stored.runs _ _ _ _ isLeft
          apply Runs.bind
          apply stored.runs _ _ _ _ isRight
          apply Runs.bind
          apply swapped.runs_store isRight (beq_iff_eq.mp otherOne)
          intro first firstHolding isResult same
          have stillLeft : first.object? self = some (write left) := by
            rw [same self List.mem_cons_self, isLeft]
          apply Runs.bind
          apply (firstHolding.perm (List.Perm.swap self other [])).runs_release
            stillLeft (stored.isLeaf left)
          intro after afterHolding afterSame
          apply Runs.pure
          apply holds other after afterHolding
          rw [afterSame other List.mem_cons_self, isResult]
      | false =>
          apply holding.runs_allocate
          intro first retVal firstHolding isNew newOne same
          have firstLeft : first.object? self = some (write left) := by
            rw [same self (by simp), isLeft]
          have firstRight : first.object? other = some (write right) := by
            rw [same other (by simp), isRight]
          apply Runs.bind
          apply stored.runs _ _ _ _ firstLeft
          apply Runs.bind
          apply stored.runs _ _ _ _ firstRight
          apply Runs.bind
          apply firstHolding.runs_store isNew newOne
          intro second secondHolding isResult secondSame
          have secondLeft : second.object? self = some (write left) := by
            rw [secondSame self (by simp), firstLeft]
          have secondRight : second.object? other = some (write right) := by
            rw [secondSame other (by simp), firstRight]
          apply Runs.bind
          apply Runs.bind
          apply (secondHolding.perm
            (List.Perm.swap self retVal [other])).runs_release secondLeft
            (stored.isLeaf left)
          intro third thirdHolding thirdSame
          have thirdRight : third.object? other = some (write right) := by
            rw [thirdSame other (by simp), secondRight]
          apply (thirdHolding.perm
            (List.Perm.swap other retVal [])).runs_release thirdRight
            (stored.isLeaf right)
          intro after afterHolding afterSame
          apply Runs.pure
          apply holds retVal after afterHolding
          rw [afterSame retVal (by simp), thirdSame retVal (by simp), isResult]

theorem runs_compared
    (stored : Stored read write)
    (holding : Holding base consumed heap [self, other])
    (isLeft : heap.object? self = some (write left))
    (isRight : heap.object? other = some (write right))
    (test : Value → Value → Bool)
    {post : Bool → NumberHeap → Prop}
    (holds : ∀ after, Holding base consumed after [] →
      post (test left right) after) :
    Runs (compared read test self other) heap post := by
  unfold compared
  apply Runs.bind
  apply stored.runs _ _ _ _ isLeft
  apply Runs.bind
  apply stored.runs _ _ _ _ isRight
  apply Runs.bind
  apply holding.runs_release isLeft (stored.isLeaf left)
  intro first firstHolding same
  have stillRight : first.object? other = some (write right) := by
    rw [same other List.mem_cons_self, isRight]
  apply Runs.bind
  apply firstHolding.runs_release stillRight (stored.isLeaf right)
  intro after afterHolding _
  exact Runs.pure (holds after afterHolding)

end TwoObjects

end NumericTower
end Runtime
end ClojureRt
