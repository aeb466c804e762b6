/-
  File:      OsPlayground/Library/Pic.lean
  Subject:   A PAIR OF 8259A INTERRUPT CONTROLLERS, the second one on line 2 of the first.

  A controller has eight in-service bits; bit 0 has the highest priority. Delivering a line sets
  its bit, and for a line of the second controller bit 2 of the first as well. A line is
  delivered only while no bit of its priority or a higher one is in service. The end-of-interrupt
  command clears the bit of the highest priority of the controller it is sent to. A mask register
  keeps requests from the processor; it changes nothing in service.

  * `eoi_accept` -- an end of interrupt takes back a delivery to an idle controller;
  * `eoi_accept_of_free` -- and to every controller that may deliver the line;
  * `deliver_eoi` -- so the commands to the controllers a line goes through take back the
    delivery of the line to an idle pair;
  * `deliver_eoi_of_can` -- and to every pair that may deliver it.
-/
import Mathlib
import OsPlayground.Library.Bits

namespace Pic8259

/-! ## 1. One controller -/

/-- No bit of the priority of `n` or a higher one is in service. -/
def free (r : BitVec 8) (n : Nat) : Prop := ∀ k, k ≤ n → r.getLsbD k = false

instance (r : BitVec 8) (n : Nat) : Decidable (free r n) :=
  decidable_of_iff (∀ k, k < n + 1 → r.getLsbD k = false)
    ⟨fun h k hk => h k (Nat.lt_succ_of_le hk), fun h k hk => h k (Nat.le_of_lt_succ hk)⟩

/-- Bit `n` is put in service. -/
def accept (r : BitVec 8) (n : Nat) : BitVec 8 := r ||| (1#8 <<< n)

/-- The end of an interrupt: the bit of the highest priority is cleared. -/
def eoi (r : BitVec 8) : BitVec 8 :=
  match (List.range 8).find? (fun k => r.getLsbD k) with
  | none => r
  | some k => r &&& ~~~(1#8 <<< k)

/-- On an idle controller the end of interrupt clears the bit just accepted. -/
theorem eoi_accept : ∀ n < 8, eoi (accept 0#8 n) = 0#8 := by decide

theorem accept_ne_zero (r : BitVec 8) : ∀ n < 8, accept r n ≠ 0#8 := by
  intro n hn h
  have hbit := congrArg (fun x : BitVec 8 => x.getLsbD n) h
  simp [accept, hn] at hbit

/-- **The end of an interrupt takes back a delivery** on every controller that may deliver the
    line, whatever lines of lower priority are in service. -/
theorem eoi_accept_of_free {r : BitVec 8} {n : Nat} (hn : n < 8) (h : free r n) :
    eoi (accept r n) = r := by
  have hbit : ∀ k < 8, (accept r n).getLsbD k = (r.getLsbD k || decide (k = n)) :=
    fun k hk => Bits.getLsbD_set r k n hk
  -- the bit of the highest priority is the one just accepted
  have hfind : (List.range 8).find? (fun k => (accept r n).getLsbD k) = some n := by
    rw [List.find?_range_eq_some]
    refine ⟨?_, List.mem_range.mpr hn, fun j hj => ?_⟩
    · rw [hbit n hn]
      simp
    · rw [hbit j (by omega), h j (by omega)]
      simp only [Bool.false_or, Bool.not_eq_true']
      exact decide_eq_false (by omega)
  unfold eoi
  rw [hfind]
  dsimp only
  refine BitVec.eq_of_getLsbD_eq fun k hk => ?_
  rw [Bits.getLsbD_clear _ k n hk, hbit k hk]
  by_cases hkn : k = n
  · subst hkn
    rw [h k (Nat.le_refl k)]
    simp
  · simp [hkn]

/-! ## 2. The pair -/

/-- The in-service bits of both controllers, and the lines that ask for service. -/
structure Pair where
  first : BitVec 8
  second : BitVec 8
  raised : Nat → Bool

/-- One of the two controllers. -/
inductive Chip where
  | first | second
  deriving DecidableEq, Repr

namespace Pair

/-- No line is in service. -/
def Idle (p : Pair) : Prop := p.first = 0#8 ∧ p.second = 0#8

instance (p : Pair) : Decidable p.Idle := inferInstanceAs (Decidable (_ ∧ _))

/-- A device raises its line. -/
def raise (p : Pair) (line : Nat) : Pair := { p with raised := Function.update p.raised line true }

/-- The line may be delivered. -/
def CanDeliver (p : Pair) (line : Nat) : Prop :=
  p.raised line = true ∧
    if line < 8 then free p.first line else free p.first 2 ∧ free p.second (line - 8)

instance (p : Pair) (line : Nat) : Decidable (p.CanDeliver line) := by
  unfold CanDeliver
  infer_instance

/-- The line is delivered. -/
def deliver (p : Pair) (line : Nat) : Pair :=
  if line < 8 then
    { p with first := accept p.first line, raised := Function.update p.raised line false }
  else
    { p with
      first := accept p.first 2
      second := accept p.second (line - 8)
      raised := Function.update p.raised line false }

/-- The end-of-interrupt command to one controller. -/
def command (p : Pair) : Chip → Pair
  | .first => { p with first := eoi p.first }
  | .second => { p with second := eoi p.second }

/-- The controllers a line goes through. -/
def path (line : Nat) : List Chip := if line < 8 then [.first] else [.second, .first]

@[simp] theorem raise_idle (p : Pair) (line : Nat) : (p.raise line).Idle ↔ p.Idle := Iff.rfl

/-- **A delivery is taken back** by an end of interrupt to each controller of the line's path. -/
theorem deliver_eoi {p : Pair} (h : p.Idle) {line : Nat} (hl : line < 16) :
    ((path line).foldl command (p.deliver line)).Idle := by
  obtain ⟨h1, h2⟩ := h
  unfold path deliver Idle
  by_cases h8 : line < 8
  · rw [if_pos h8, if_pos h8, h1]
    simp only [List.foldl_cons, List.foldl_nil, command]
    exact ⟨eoi_accept line h8, h2⟩
  · rw [if_neg h8, if_neg h8, h1, h2]
    simp only [List.foldl_cons, List.foldl_nil, command]
    exact ⟨eoi_accept 2 (by decide), eoi_accept (line - 8) (by omega)⟩

/-- **A delivery is taken back on every pair**: the end of interrupt to each controller of the
    line's path leaves in service what was before the line was delivered. -/
theorem deliver_eoi_of_can {p : Pair} {line : Nat} (h : p.CanDeliver line) (hl : line < 16) :
    ((path line).foldl command (p.deliver line)).first = p.first ∧
      ((path line).foldl command (p.deliver line)).second = p.second := by
  obtain ⟨_, hfree⟩ := h
  unfold path deliver
  by_cases h8 : line < 8
  · rw [if_pos h8] at hfree
    rw [if_pos h8, if_pos h8]
    exact ⟨eoi_accept_of_free h8 hfree, rfl⟩
  · rw [if_neg h8] at hfree
    rw [if_neg h8, if_neg h8]
    exact ⟨eoi_accept_of_free (by decide) hfree.1, eoi_accept_of_free (by omega) hfree.2⟩

/-- A delivery puts a line in service. -/
theorem deliver_not_idle (p : Pair) (line : Nat) : ¬ (p.deliver line).Idle := by
  unfold deliver
  by_cases h8 : line < 8
  · rw [if_pos h8]
    exact fun h => accept_ne_zero p.first line h8 h.1
  · rw [if_neg h8]
    exact fun h => accept_ne_zero p.first 2 (by decide) h.1

end Pair

/-! ## 3. Masks -/

/-- The mask registers of both controllers: a bit set keeps the requests of its line back. -/
structure Masks where
  first : BitVec 8
  second : BitVec 8
  deriving DecidableEq, Repr

/-- The requests of a line pass: neither it nor the line its controller is on is masked. -/
def Masks.Passes (masks : Masks) (line : Nat) : Prop :=
  if line < 8 then masks.first.getLsbD line = false
  else masks.second.getLsbD (line - 8) = false ∧ masks.first.getLsbD 2 = false

instance (masks : Masks) (line : Nat) : Decidable (masks.Passes line) := by
  unfold Masks.Passes
  infer_instance

end Pic8259
