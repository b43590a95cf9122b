import Mathlib.Logic.Function.Basic
import Mathlib.Tactic.IntervalCases

/-!
# Machine words

Unsigned arithmetic of the widths the firmware uses, 32-bit words as four bytes in
little-endian order, and the byte-order reversals of the ARM core.
-/

namespace CanDybug.Base

/-- Value of an `uint16_t` expression. -/
def u16 (n : Nat) : Nat := n % 65536

/-- Value of an `uint32_t` expression. -/
def u32 (n : Nat) : Nat := n % 4294967296

/-- Difference of two `uint32_t` values; it wraps below zero. -/
def sub32 (a b : Nat) : Nat := (a + (4294967296 - b)) % 4294967296

theorem u16_of_lt {n : Nat} (h : n < 65536) : u16 n = n := Nat.mod_eq_of_lt h

theorem u32_of_lt {n : Nat} (h : n < 4294967296) : u32 n = n := Nat.mod_eq_of_lt h

/-- A difference that does not wrap is the ordinary one. -/
theorem sub32_of_le {a b : Nat} (hb : b ≤ a) (ha : a < 4294967296) : sub32 a b = a - b := by
  unfold sub32
  omega

/-- Memory byte `i` of a word. -/
def byteAt (w : BitVec 32) (i : Nat) : UInt8 := .ofBitVec (w.extractLsb' (8 * i) 8)

/-- Replace memory byte `i` of a word. -/
def setByte (w : BitVec 32) (i : Nat) (b : UInt8) : BitVec 32 :=
  (w &&& ~~~(0xFF#32 <<< (8 * i))) ||| (b.toBitVec.setWidth 32 <<< (8 * i))

/-- Byte-order reversal of a word, `__REV`. -/
def rev (w : BitVec 32) : BitVec 32 :=
  w.extractLsb' 0 8 ++ w.extractLsb' 8 8 ++ w.extractLsb' 16 8 ++ w.extractLsb' 24 8

/-- Byte-order reversal of each half of a word, `__REV16`. -/
def rev16 (w : BitVec 32) : BitVec 32 :=
  w.extractLsb' 16 8 ++ w.extractLsb' 24 8 ++ w.extractLsb' 0 8 ++ w.extractLsb' 8 8

private theorem byteMask_bit (k : Nat) : (0xFF#32).getLsbD k = decide (k < 8) := by
  by_cases h : k < 32
  · interval_cases k <;> rfl
  · rw [BitVec.getLsbD_of_ge _ _ (by omega)]
    simp; omega

/-- Storing a byte changes that byte only. -/
theorem byteAt_setByte (w : BitVec 32) (i j : Nat) (b : UInt8) (hi : i < 4) (hj : j < 4) :
    byteAt (setByte w i b) j = if j = i then b else byteAt w j := by
  apply UInt8.toBitVec_inj.mp
  apply BitVec.eq_of_getLsbD_eq
  intro k hk
  simp only [byteAt, setByte, UInt8.toBitVec_ofBitVec, BitVec.getLsbD_extractLsb',
    BitVec.getLsbD_or, BitVec.getLsbD_and, BitVec.getLsbD_not, BitVec.getLsbD_shiftLeft,
    BitVec.getLsbD_setWidth, byteMask_bit]
  split
  · next h =>
    subst h
    simp [hk, show 8 * j + k < 32 by omega, show ¬ 8 * j + k < 8 * j by omega,
      show k < 32 by omega]
  · next h =>
    rw [UInt8.toBitVec_ofBitVec, BitVec.getLsbD_extractLsb']
    rcases Nat.lt_or_gt_of_ne h with hl | hl
    · simp [hk, show 8 * j + k < 32 by omega, show 8 * j + k < 8 * i by omega]
    · have hb : b.toBitVec.getLsbD (8 * j + k - 8 * i) = false :=
        BitVec.getLsbD_of_ge _ _ (by omega)
      simp [hk, hb, show 8 * j + k < 32 by omega, show ¬ 8 * j + k - 8 * i < 8 by omega]

/-- The upper half of a word holds its last two bytes. -/
theorem byteAt_shift (w : BitVec 32) (i : Nat) :
    byteAt (w >>> 16) i = byteAt w (i + 2) := by
  apply UInt8.toBitVec_inj.mp
  apply BitVec.eq_of_getLsbD_eq
  intro k hk
  simp only [byteAt, BitVec.getLsbD_extractLsb', BitVec.getLsbD_ushiftRight]
  rw [show 16 + (8 * i + k) = 8 * (i + 2) + k by omega]

/-- Reversal puts the bytes of a word in the opposite order. -/
theorem byteAt_rev (w : BitVec 32) (i : Nat) (hi : i < 4) :
    byteAt (rev w) i = byteAt w (3 - i) := by
  apply UInt8.toBitVec_inj.mp
  apply BitVec.eq_of_getLsbD_eq
  intro k hk
  simp only [byteAt, rev, BitVec.getLsbD_extractLsb', BitVec.getLsbD_append]
  interval_cases i <;> interval_cases k <;> simp

/-- Half-word reversal swaps the first two bytes of a word. -/
theorem byteAt_rev16 (w : BitVec 32) (i : Nat) (hi : i < 2) :
    byteAt (rev16 w) i = byteAt w (1 - i) := by
  apply UInt8.toBitVec_inj.mp
  apply BitVec.eq_of_getLsbD_eq
  intro k hk
  simp only [byteAt, rev16, BitVec.getLsbD_extractLsb', BitVec.getLsbD_append]
  interval_cases i <;> interval_cases k <;> simp

end CanDybug.Base
