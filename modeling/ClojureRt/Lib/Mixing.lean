import Mathlib.Tactic.Common

/-!
# Reversible mixing of words

A word is mixed by shifting it over itself and by multiplying it with an odd
number.  Both can be undone: the first by doing it again, once or twice, and the
second by a multiplication with the inverse.
-/

namespace ClojureRt
namespace Mixing

variable {width distance : Nat}

/-- A word with its upper bits shifted over the lower ones. -/
def xorShift (distance : Nat) (word : BitVec width) : BitVec width :=
  word ^^^ (word >>> distance)

/-- The same, with the shifted word shifted over itself first. -/
def xorShiftTwice (distance : Nat) (word : BitVec width) : BitVec width :=
  word ^^^ (xorShift distance word >>> distance)

theorem xorShift_shiftRight (word : BitVec width) :
    xorShift distance word >>> distance =
      word >>> distance ^^^ word >>> (distance + distance) := by
  rw [xorShift, BitVec.ushiftRight_xor_distrib, BitVec.shiftRight_add]

/-- A shift by half of the width or more is undone by the same shift. -/
theorem xorShift_xorShift
    (half : width ≤ distance + distance)
    (word : BitVec width) : xorShift distance (xorShift distance word) =
    word := by
  rw [xorShift, xorShift_shiftRight, BitVec.ushiftRight_eq_zero half,
    BitVec.xor_zero, xorShift, BitVec.xor_assoc, BitVec.xor_self,
    BitVec.xor_zero]

section Third

variable (third : width ≤ distance + distance + distance)

include third

theorem xorShiftTwice_shiftRight (word : BitVec width) :
    xorShiftTwice distance word >>> distance =
      word >>> distance ^^^ word >>> (distance + distance) := by
  rw [xorShiftTwice, xorShift_shiftRight, BitVec.ushiftRight_xor_distrib,
    BitVec.ushiftRight_xor_distrib, ← BitVec.shiftRight_add,
    ← BitVec.shiftRight_add, BitVec.ushiftRight_eq_zero third, BitVec.xor_zero]

/-- A shift by a third of the width or more is undone by a shift that is made
twice. -/
theorem xorShift_xorShiftTwice (word : BitVec width) :
    xorShift distance (xorShiftTwice distance word) = word := by
  rw [xorShift, xorShiftTwice_shiftRight third, xorShiftTwice,
    xorShift_shiftRight, BitVec.xor_assoc, BitVec.xor_self, BitVec.xor_zero]

theorem xorShiftTwice_xorShift (word : BitVec width) :
    xorShiftTwice distance (xorShift distance word) = word := by
  have inner : xorShift distance (xorShift distance word) =
      word ^^^ word >>> (distance + distance) := by
    rw [xorShift, xorShift_shiftRight, xorShift, BitVec.xor_assoc,
      ← BitVec.xor_assoc (word >>> _), BitVec.xor_self, BitVec.zero_xor]
  have gone : word >>> (distance + distance) >>> distance =
      BitVec.ofNat width 0 := by
    rw [← BitVec.shiftRight_add, BitVec.ushiftRight_eq_zero third]
  rw [xorShiftTwice, inner, BitVec.ushiftRight_xor_distrib, gone,
    BitVec.xor_zero, xorShift, BitVec.xor_assoc, BitVec.xor_self,
    BitVec.xor_zero]

end Third

/-- A multiplication is undone by that with the inverse. -/
theorem mul_mul_cancel
    {factor inverse : BitVec width}
    (isInverse : factor * inverse = BitVec.ofNat width 1)
    (word : BitVec width) : word * factor * inverse = word := by
  rw [BitVec.mul_assoc, isInverse, BitVec.mul_one]

/-- A bit that is set besides hides only itself. -/
theorem eq_or_xor_eq_of_or_eq
    {position : Nat}
    {first second : BitVec width}
    (same : first ||| BitVec.twoPow width position = second ||| BitVec.twoPow
      width position) :
    first = second ∨ first ^^^ second = BitVec.twoPow width position := by
  have others (index : Nat) (different : index ≠ position) :
      first.getLsbD index = second.getLsbD index := by
    have atIndex := congrArg (BitVec.getLsbD · index) same
    simpa [BitVec.getLsbD_or, BitVec.getLsbD_twoPow,
      different.symm] using atIndex
  by_cases atPosition : first.getLsbD position = second.getLsbD position
  · left
    apply BitVec.eq_of_getLsbD_eq
    intro index _
    by_cases isPosition : index = position
    · rw [isPosition, atPosition]
    · exact others index isPosition
  · right
    apply BitVec.eq_of_getLsbD_eq
    intro index inside
    rw [BitVec.getLsbD_xor, BitVec.getLsbD_twoPow]
    by_cases isPosition : index = position
    · subst isPosition
      simpa [inside] using atPosition
    · rw [others index isPosition]
      simp [Ne.symm isPosition]

end Mixing
end ClojureRt
