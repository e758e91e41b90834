import Mathlib

/-!
# Signed words

A size is put into a signed word of 32 bits, and a signed word is extended to 64
bits.  The size survives if it is below the sign bit.  A negative word becomes a
large number.
-/

namespace ClojureRt
namespace SignedWords

theorem toInt_ofNat_eq_iff (length : Nat) :
    (BitVec.ofNat 32 length).toInt = length ↔ length < 2 ^ 31 := by
  rw [BitVec.toInt_eq_toNat_bmod, BitVec.toNat_ofNat]
  constructor
  · intro same
    have := Int.bmod_lt (x := ((length % 2 ^ 32 : Nat) : Int)) (m := 2 ^ 32)
      (by decide)
    omega
  · intro small
    rw [Nat.mod_eq_of_lt (by omega)]
    exact Int.bmod_eq_of_le (by omega) (by omega)

theorem toNat_of_nonneg {word : BitVec 32} (nonneg : 0 ≤ word.toInt) :
    (word.toNat : Int) = word.toInt := by
  have signed := BitVec.toInt_eq_msb_cond word
  have small := word.isLt
  cases isNegative : word.msb with
  | true =>
      rw [isNegative, if_pos rfl] at signed
      omega
  | false =>
      rw [isNegative, if_neg Bool.false_ne_true] at signed
      exact signed.symm

theorem signExtend_of_nonneg {word : BitVec 32} (nonneg : 0 ≤ word.toInt) :
    (word.signExtend 64).toNat = word.toNat := by
  have signed := BitVec.toInt_eq_msb_cond word
  have small := word.isLt
  cases isNegative : word.msb with
  | true =>
      rw [isNegative, if_pos rfl] at signed
      omega
  | false =>
      rw [BitVec.toNat_signExtend, isNegative, BitVec.toNat_setWidth,
        Nat.mod_eq_of_lt (by omega)]
      rfl

theorem signExtend_of_neg {word : BitVec 32} (negative : word.toInt < 0) :
    ((word.signExtend 64).toNat : Int) = 2 ^ 64 + word.toInt := by
  have signed := BitVec.toInt_eq_msb_cond word
  have small := word.isLt
  cases isNegative : word.msb with
  | true =>
      rw [isNegative, if_pos rfl] at signed
      rw [BitVec.toNat_signExtend, isNegative, BitVec.toNat_setWidth,
        Nat.mod_eq_of_lt (by omega), if_pos rfl, signed]
      omega
  | false =>
      rw [isNegative, if_neg Bool.false_ne_true] at signed
      omega

end SignedWords
end ClojureRt
