import ClojureRt.Lib.Mixing
import ClojureRt.Runtime.String.Defs

/-!
# The mixers of hashes

`avalanche_64` and `avalanche_32` with their inverses.  The hash of the runtime
has its upper bit set besides, so that it is never the one of an empty cell.
-/

namespace ClojureRt
namespace Runtime
namespace Hash

open Mixing
open Strings (avalanche64 avalanche)

/-- `deavalanche_64` -/
def deavalanche64 (h : BitVec 64) : BitVec 64 :=
  let h := h ^^^ (h >>> 33)
  let h := h * 0x9cb4b2f8129337db#64
  let h := h ^^^ (h >>> 33)
  let h := h * 0x4f74430c22a54005#64
  h ^^^ (h >>> 33)

/-- `avalanche_32` -/
def avalanche32 (h : BitVec 32) : BitVec 32 :=
  let h := h ^^^ (h >>> 16)
  let h := h * 0x85ebca6b#32
  let h := h ^^^ (h >>> 13)
  let h := h * 0xc2b2ae35#32
  h ^^^ (h >>> 16)

/-- `deavalanche_32` -/
def deavalanche32 (h : BitVec 32) : BitVec 32 :=
  let h := h ^^^ (h >>> 16)
  let h := h * 0x7ed1b41d#32
  let h := h ^^^ ((h ^^^ (h >>> 13)) >>> 13)
  let h := h * 0xa5cb9243#32
  h ^^^ (h >>> 16)

/-! ## The inverses -/

theorem avalanche64_eq (h : BitVec 64) :
    avalanche64 h =
      xorShift 33 (xorShift 33 (xorShift 33 h * 0xff51afd7ed558ccd#64) *
      0xc4ceb9fe1a85ec53#64) := rfl

theorem deavalanche64_eq (h : BitVec 64) :
    deavalanche64 h =
      xorShift 33 (xorShift 33 (xorShift 33 h * 0x9cb4b2f8129337db#64) *
      0x4f74430c22a54005#64) := rfl

theorem deavalanche64_avalanche64 (h : BitVec 64) : deavalanche64
    (avalanche64 h) = h := by
  have outer : (0xc4ceb9fe1a85ec53#64) * 0x9cb4b2f8129337db#64 = 1#64 := by
    decide
  have inner : (0xff51afd7ed558ccd#64) * 0x4f74430c22a54005#64 = 1#64 := by
    decide
  rw [deavalanche64_eq, avalanche64_eq, xorShift_xorShift (by decide),
    mul_mul_cancel outer,
    xorShift_xorShift (by decide), mul_mul_cancel inner,
    xorShift_xorShift (by decide)]

theorem avalanche64_deavalanche64 (h : BitVec 64) : avalanche64
    (deavalanche64 h) = h := by
  have outer : (0x4f74430c22a54005#64) * 0xff51afd7ed558ccd#64 = 1#64 := by
    decide
  have inner : (0x9cb4b2f8129337db#64) * 0xc4ceb9fe1a85ec53#64 = 1#64 := by
    decide
  rw [avalanche64_eq, deavalanche64_eq, xorShift_xorShift (by decide),
    mul_mul_cancel outer,
    xorShift_xorShift (by decide), mul_mul_cancel inner,
    xorShift_xorShift (by decide)]

theorem avalanche32_eq (h : BitVec 32) :
    avalanche32 h = xorShift 16 (xorShift 13 (xorShift 16 h * 0x85ebca6b#32) *
      0xc2b2ae35#32) := rfl

theorem deavalanche32_eq (h : BitVec 32) :
    deavalanche32 h =
      xorShift 16 (xorShiftTwice 13 (xorShift 16 h * 0x7ed1b41d#32) *
      0xa5cb9243#32) := rfl

theorem deavalanche32_avalanche32 (h : BitVec 32) : deavalanche32
    (avalanche32 h) = h := by
  have outer : (0xc2b2ae35#32) * 0x7ed1b41d#32 = 1#32 := by decide
  have inner : (0x85ebca6b#32) * 0xa5cb9243#32 = 1#32 := by decide
  rw [deavalanche32_eq, avalanche32_eq, xorShift_xorShift (by decide),
    mul_mul_cancel outer,
    xorShiftTwice_xorShift (by decide), mul_mul_cancel inner,
    xorShift_xorShift (by decide)]

theorem avalanche32_deavalanche32 (h : BitVec 32) : avalanche32
    (deavalanche32 h) = h := by
  have outer : (0xa5cb9243#32) * 0x85ebca6b#32 = 1#32 := by decide
  have inner : (0x7ed1b41d#32) * 0xc2b2ae35#32 = 1#32 := by decide
  rw [avalanche32_eq, deavalanche32_eq, xorShift_xorShift (by decide),
    mul_mul_cancel outer,
    xorShift_xorShiftTwice (by decide), mul_mul_cancel inner,
    xorShift_xorShift (by decide)]

/-! ## Hashes -/

theorem avalanche_eq
    (h : BitVec 64) : avalanche h = avalanche64 h ||| BitVec.twoPow 64 63 := rfl

/-- The mixers are bijections, with the inverses that the runtime has for them.
A hash tells words apart up to the upper bit, and is not 0. -/
theorem avalanche_bijective :
    (∀ w, deavalanche64 (avalanche64 w) = w) ∧
    (∀ w, avalanche64 (deavalanche64 w) = w) ∧
    (∀ w, deavalanche32 (avalanche32 w) = w) ∧
    (∀ w, avalanche32 (deavalanche32 w) = w) ∧
    (∀ x y, avalanche x = avalanche y →
      x = y ∨ avalanche64 x ^^^ avalanche64 y = BitVec.twoPow 64 63) ∧
    ∀ x, avalanche x ≠ 0 := by
  refine ⟨deavalanche64_avalanche64, avalanche64_deavalanche64,
    deavalanche32_avalanche32,
    avalanche32_deavalanche32, ?_, ?_⟩
  · intro x y same
    rw [avalanche_eq, avalanche_eq] at same
    refine (eq_or_xor_eq_of_or_eq same).imp_left fun sameMixed => ?_
    rw [← deavalanche64_avalanche64 x, sameMixed, deavalanche64_avalanche64]
  · intro x isZero
    have upper := congrArg (BitVec.getLsbD · 63) isZero
    simp [avalanche_eq] at upper

end Hash
end Runtime
end ClojureRt
