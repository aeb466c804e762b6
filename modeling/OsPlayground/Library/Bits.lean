/-
  File:      OsPlayground/Library/Bits.lean
  Subject:   BITS OF A BYTE. `b |= 1 << j` and `b &= ~(1 << j)` on a bit vector, read bit by bit,
             and a bitmap (bytes by index) read as one bit by position.

  * `getLsbD_set`, `getLsbD_clear` -- what the two idioms do to every bit;
  * `lowestClear` -- the shifting loop that finds the first clear bit of a byte;
  * `bit` -- the bit of a bitmap at a position, byte `p / 8`, bit `p % 8`;
  * `bit_setBit`, `bit_clearBit` -- the idioms on a bitmap change that position and no other.
-/
import Mathlib.Logic.Function.Basic
import Mathlib.Data.Nat.Bitwise

namespace Bits

/-! ## 1. One word -/

section Word

variable {w : Nat}

/-- `b | 1 << j` has bit `j` set and every other bit as before. -/
theorem getLsbD_set (b : BitVec w) (i j : Nat) (hi : i < w) :
    (b ||| (1#w <<< j)).getLsbD i = (b.getLsbD i || decide (i = j)) := by
  rw [BitVec.getLsbD_or, BitVec.getLsbD_shiftLeft]
  simp only [BitVec.getLsbD_one]
  congr 1
  by_cases h : i = j
  · simp [h]; omega
  · simp [h]; omega

/-- `b & ~(1 << j)` has bit `j` clear and every other bit as before. -/
theorem getLsbD_clear (b : BitVec w) (i j : Nat) (hi : i < w) :
    (b &&& ~~~(1#w <<< j)).getLsbD i = (b.getLsbD i && !decide (i = j)) := by
  rw [BitVec.getLsbD_and, BitVec.getLsbD_not, BitVec.getLsbD_shiftLeft]
  simp only [BitVec.getLsbD_one]
  congr 1
  by_cases h : i = j
  · simp [h]; omega
  · simp [h]; omega

/-- A word is zero when none of its bits is set. -/
theorem eq_zero_iff (b : BitVec w) : b = 0#w ↔ ∀ i < w, b.getLsbD i = false := by
  constructor
  · intro hzero i _
    rw [hzero]
    exact BitVec.getLsbD_zero
  · intro h
    refine BitVec.eq_of_getLsbD_eq fun i hi => ?_
    rw [h i hi, BitVec.getLsbD_zero]

end Word

/-! ## 2. The lowest clear bit of a byte -/

/-- `while (b & 1) { b >>= 1; j++; }`, with fuel for its passes. -/
def shiftOut : Nat → BitVec 8 → Nat → Nat
  | 0, _, j => j
  | n + 1, b, j => if b &&& 1#8 ≠ 0#8 then shiftOut n (b >>> 1) (j + 1) else j

/-- Where the loop stops: a byte has eight bits to shift out. -/
def lowestClear (b : BitVec 8) : Nat := shiftOut 8 b 0

/-- **A byte that is not full has a lowest clear bit**, and the loop finds it. -/
theorem lowestClear_spec (b : BitVec 8) (h : b ≠ 0xff#8) :
    lowestClear b < 8 ∧ b.getLsbD (lowestClear b) = false ∧
      ∀ i < lowestClear b, b.getLsbD i = true := by
  revert b
  decide +kernel

/-- A full byte has every bit set. -/
theorem getLsbD_full {i : Nat} (h : i < 8) : (0xff#8).getLsbD i = true := by
  revert i
  decide

/-! ## 3. Bitmaps -/

/-- The bit of a bitmap at position `p`. -/
def bit (m : Nat → BitVec 8) (p : Nat) : Bool := (m (p / 8)).getLsbD (p % 8)

/-- `m[p / 8] |= 1 << (p % 8)`. -/
def setBit (m : Nat → BitVec 8) (p : Nat) : Nat → BitVec 8 :=
  Function.update m (p / 8) (m (p / 8) ||| (1#8 <<< (p % 8)))

/-- `m[p / 8] &= ~(1 << (p % 8))`. -/
def clearBit (m : Nat → BitVec 8) (p : Nat) : Nat → BitVec 8 :=
  Function.update m (p / 8) (m (p / 8) &&& ~~~(1#8 <<< (p % 8)))

variable (m : Nat → BitVec 8) (p q : Nat)

/-- A position given by its byte and its bit. -/
theorem setBit_byte (i : Nat) {j : Nat} (hj : j < 8) :
    setBit m (8 * i + j) = Function.update m i (m i ||| (1#8 <<< j)) := by
  have hdiv : (8 * i + j) / 8 = i := by omega
  have hmod : (8 * i + j) % 8 = j := by omega
  simp only [setBit, hdiv, hmod]

theorem pos_eq_iff : p = q ↔ p / 8 = q / 8 ∧ p % 8 = q % 8 := by omega

/-- **Setting a bit changes that position only.** -/
@[simp] theorem bit_setBit : bit (setBit m p) q = (bit m q || decide (q = p)) := by
  unfold bit setBit
  by_cases h : q / 8 = p / 8
  · rw [h, Function.update_self, getLsbD_set _ _ _ (by omega), ← h]
    congr 1
    simp only [pos_eq_iff q p, h, true_and]
  · rw [Function.update_of_ne h]
    have hne : q ≠ p := fun e => h (e ▸ rfl)
    simp [hne]

/-- **Clearing a bit changes that position only.** -/
@[simp] theorem bit_clearBit : bit (clearBit m p) q = (bit m q && !decide (q = p)) := by
  unfold bit clearBit
  by_cases h : q / 8 = p / 8
  · rw [h, Function.update_self, getLsbD_clear _ _ _ (by omega), ← h]
    congr 1
    simp only [pos_eq_iff q p, h, true_and]
  · rw [Function.update_of_ne h]
    have hne : q ≠ p := fun e => h (e ▸ rfl)
    simp [hne]

end Bits
