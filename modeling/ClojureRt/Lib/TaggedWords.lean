import Mathlib

/-!
# Words with a tag

The upper bits of a word hold a tag and the lower ones what is tagged.  Masks
and disjunctions of such words come down to quotients and sums of numbers.
-/

namespace ClojureRt
namespace TaggedWords

variable {width low : Nat}

/-- The tag of a word. -/
def tagOf (low : Nat) (word : BitVec width) : Nat :=
  word.toNat / 2 ^ low

/-- The mask of the tag. -/
def tagMask (width low : Nat) : BitVec width :=
  BitVec.allOnes width >>> low <<< low

/-- A tag over zeros. -/
def tagWord (width low tag : Nat) : BitVec width :=
  BitVec.ofNat width (tag * 2 ^ low)

theorem toNat_tagWord
    {tag : Nat}
    (fits : tag * 2 ^ low < 2 ^ width) :
    (tagWord width low tag).toNat = tag * 2 ^ low := by
  rw [tagWord, BitVec.toNat_ofNat, Nat.mod_eq_of_lt fits]

/-- What is tagged is added to the tag. -/
theorem toNat_or_tagWord
    {tag : Nat}
    (fits : tag * 2 ^ low < 2 ^ width)
    {payload : BitVec width}
    (small : payload.toNat < 2 ^ low) :
    (payload ||| tagWord width low tag).toNat = payload.toNat + tag * 2 ^
    low := by
  rw [BitVec.toNat_or, toNat_tagWord fits, Nat.or_comm, Nat.mul_comm,
    ← Nat.two_pow_add_eq_or_of_lt small, Nat.add_comm]

theorem tagOf_or_tagWord
    {tag : Nat}
    (fits : tag * 2 ^ low < 2 ^ width)
    {payload : BitVec width}
    (small : payload.toNat < 2 ^ low) :
    tagOf low (payload ||| tagWord width low tag) = tag := by
  rw [tagOf, toNat_or_tagWord fits small,
    Nat.add_mul_div_right _ _ (Nat.two_pow_pos low), Nat.div_eq_of_lt small,
    Nat.zero_add]

/-- The mask leaves the tag. -/
theorem and_tagMask (word : BitVec width) :
    word &&& tagMask width low = tagWord width low (tagOf low word) := by
  have shifted : word &&& tagMask width low = word >>> low <<< low := by
    ext index inside
    rw [BitVec.getElem_and, tagMask, BitVec.getElem_shiftLeft,
      BitVec.getElem_shiftLeft]
    by_cases below : index < low
    · simp [below]
    · have isIndex : low + (index - low) = index := by omega
      simp [below, BitVec.getElem_ushiftRight, isIndex, inside]
  rw [shifted]
  apply BitVec.eq_of_toNat_eq
  rw [BitVec.toNat_shiftLeft, BitVec.toNat_ushiftRight, Nat.shiftLeft_eq,
    Nat.shiftRight_eq_div_pow, tagWord, BitVec.toNat_ofNat, tagOf]

theorem and_tagMask_eq_iff
    {tag : Nat}
    (fits : tag * 2 ^ low < 2 ^ width)
    (word : BitVec width) :
    word &&& tagMask width low = tagWord width low tag ↔
      tagOf low word = tag := by
  rw [and_tagMask]
  constructor
  · intro same
    have sameNat := congrArg BitVec.toNat same
    have small : tagOf low word * 2 ^ low < 2 ^ width :=
      Nat.lt_of_le_of_lt (Nat.div_mul_le_self _ _) word.isLt
    rw [toNat_tagWord small, toNat_tagWord fits] at sameNat
    exact Nat.eq_of_mul_eq_mul_right (Nat.two_pow_pos low) sameNat
  · rintro rfl
    rfl

/-- Without its tag a word is what was tagged. -/
theorem toNat_and_not_tagMask
    (within : low ≤ width)
    (word : BitVec width) :
    (word &&& ~~~tagMask width low).toNat = word.toNat % 2 ^ low := by
  have isLow : word &&& ~~~tagMask width low = (word.setWidth low).setWidth
      width := by
    ext index inside
    rw [BitVec.getElem_and, BitVec.getElem_not, tagMask,
      BitVec.getElem_shiftLeft, BitVec.getElem_setWidth,
      BitVec.getLsbD_setWidth]
    by_cases below : index < low
    · simp [below, inside]
    · have isIndex : low + (index - low) = index := by omega
      simp [below, BitVec.getElem_ushiftRight, isIndex, inside]
  rw [isLow, BitVec.toNat_setWidth, BitVec.toNat_setWidth]
  apply Nat.mod_eq_of_lt
  exact Nat.lt_of_lt_of_le (Nat.mod_lt _ (Nat.two_pow_pos low))
    (Nat.pow_le_pow_right (by decide) within)

end TaggedWords
end ClojureRt
