/-
  File:      OsPlayground/Library/Bytes.lean
  Subject:   WORDS AND BYTES. A memory that holds a word of four bytes at every aligned address,
             the low byte first, read and written byte by byte.

  * `lane`, `setLane` -- a byte of a word; `lane_setLane_self`, `lane_setLane_ne`;
  * `byteAt`, `setByte` -- a byte of the memory; `byteAt_setByte_self`, `byteAt_setByte_ne`;
  * `byteAt_update`, `setByte_word` -- what a word written does to the bytes of other words, and
    a byte written to other words;
  * `fill` -- a range of bytes set; `byteAt_fill` -- the bytes of the range, and the others.
-/
import Mathlib.Logic.Function.Basic

namespace Bytes

/-! ## 1. The bytes of a word -/

/-- The value of a one in byte `i` of a word. -/
def weight : Nat → Nat
  | 0 => 1
  | 1 => 256
  | 2 => 65536
  | _ => 16777216

/-- Byte `i` of a word. -/
def lane (w i : Nat) : Nat := w / weight i % 256

/-- Byte `i` of a word set to `b`. -/
def setLane (w i b : Nat) : Nat := w - lane w i * weight i + b * weight i

variable {w i j b : Nat}

theorem four_cases (h : i < 4) : i = 0 ∨ i = 1 ∨ i = 2 ∨ i = 3 := by omega

/-- **The byte set is read back.** -/
theorem lane_setLane_self (hi : i < 4) (hb : b < 256) : lane (setLane w i b) i = b := by
  unfold setLane lane
  rcases four_cases hi with rfl | rfl | rfl | rfl
  · simp only [weight]
    omega
  · simp only [weight]
    omega
  · simp only [weight]
    omega
  · simp only [weight]
    omega

/-- **The other bytes of the word stay.** -/
theorem lane_setLane_ne (hi : i < 4) (hj : j < 4) (hb : b < 256) (hne : j ≠ i) :
    lane (setLane w i b) j = lane w j := by
  unfold setLane lane
  rcases four_cases hi with rfl | rfl | rfl | rfl
  · rcases four_cases hj with rfl | rfl | rfl | rfl <;> simp only [weight] <;> omega
  · rcases four_cases hj with rfl | rfl | rfl | rfl <;> simp only [weight] <;> omega
  · rcases four_cases hj with rfl | rfl | rfl | rfl <;> simp only [weight] <;> omega
  · rcases four_cases hj with rfl | rfl | rfl | rfl <;> simp only [weight] <;> omega

/-! ## 2. The bytes of a memory -/

/-- The address of the word that byte `a` is in. -/
def wordOf (a : Nat) : Nat := a - a % 4

/-- The byte at address `a`. -/
def byteAt (m : Nat → Nat) (a : Nat) : Nat := lane (m (wordOf a)) (a % 4)

/-- The memory with byte `b` at address `a`. -/
def setByte (m : Nat → Nat) (a b : Nat) : Nat → Nat :=
  Function.update m (wordOf a) (setLane (m (wordOf a)) (a % 4) b)

variable {m m' : Nat → Nat} {a x : Nat}

theorem wordOf_aligned (h : a % 4 = 0) : wordOf a = a := by
  unfold wordOf
  omega

theorem wordOf_mod (a : Nat) : wordOf a % 4 = 0 := by
  unfold wordOf
  omega

theorem byteAt_congr (h : m' (wordOf a) = m (wordOf a)) : byteAt m' a = byteAt m a := by
  unfold byteAt
  rw [h]

/-- **The byte written is read back.** -/
theorem byteAt_setByte_self (m : Nat → Nat) (a : Nat) (hb : b < 256) :
    byteAt (setByte m a b) a = b := by
  unfold byteAt setByte
  rw [Function.update_self]
  exact lane_setLane_self (Nat.mod_lt _ (by decide)) hb

/-- **The other bytes stay**, those of the same word too. -/
theorem byteAt_setByte_ne (m : Nat → Nat) (hb : b < 256) (hne : x ≠ a) :
    byteAt (setByte m a b) x = byteAt m x := by
  unfold byteAt setByte
  by_cases hw : wordOf x = wordOf a
  · rw [hw, Function.update_self]
    refine lane_setLane_ne (Nat.mod_lt _ (by decide)) (Nat.mod_lt _ (by decide)) hb ?_
    unfold wordOf at hw
    omega
  · rw [Function.update_of_ne hw]

/-- A word written leaves the bytes of the others. -/
theorem byteAt_update (hout : x < a ∨ a + 4 ≤ x) (ha : a % 4 = 0) :
    byteAt (Function.update m a w) x = byteAt m x := by
  refine byteAt_congr (Function.update_of_ne ?_ _ _)
  unfold wordOf
  omega

/-- A byte written leaves the other words. -/
theorem setByte_word (hout : x < a ∨ a + 4 ≤ x) (hx : a % 4 = 0) :
    setByte m x b a = m a := by
  refine Function.update_of_ne ?_ _ _
  unfold wordOf
  omega

/-! ## 3. A range of bytes -/

/-- The `n` bytes from `a` on set to `b`, the first one first. -/
def fill (m : Nat → Nat) (a b : Nat) : Nat → Nat → Nat
  | 0 => m
  | n + 1 => fill (setByte m a b) (a + 1) b n

/-- **The bytes of the range**, and the others. -/
theorem byteAt_fill (m : Nat → Nat) (a : Nat) (hb : b < 256) (n x : Nat) :
    byteAt (fill m a b n) x = if a ≤ x ∧ x < a + n then b else byteAt m x := by
  induction n generalizing m a with
  | zero =>
      rw [if_neg (by omega)]
      rfl
  | succ n ih =>
      unfold fill
      rw [ih]
      by_cases hx : x = a
      · rw [if_neg (by omega), if_pos (by omega), hx]
        exact byteAt_setByte_self m a hb
      · rw [byteAt_setByte_ne m hb hx]
        refine if_congr ?_ rfl rfl
        omega

/-- The words with no byte of the range stay. -/
theorem fill_word (m : Nat → Nat) {b : Nat} (n : Nat) (hx : x % 4 = 0)
    (hout : ∀ y, a ≤ y → y < a + n → y < x ∨ x + 4 ≤ y) : fill m a b n x = m x := by
  induction n generalizing m a with
  | zero => rfl
  | succ n ih =>
      unfold fill
      rw [ih _ fun y h1 h2 => hout y (by omega) (by omega),
        setByte_word (hout a (Nat.le_refl a) (by omega)) hx]

end Bytes
