/-
  File:      OsPlayground/Library/Ring.lean
  Subject:   TAPES BENT TO A RING. A position that walks round `n` cells of a store, writing one
             cell a step forwards or backwards.

  * `puts_pos`, `puts_last` -- writing a list from a position: where the position ends, and each
    cell holds the last element written to it or what it held before;
  * `rub_put` -- a step back undoes the position of a step forward;
  * `rubs_puts` -- as many steps back as forward: the position is the first one again, the cells
    covered hold the mark of the steps back, the others are as before.
-/
import Mathlib.Data.List.Induction
import Mathlib.Order.Bounds.Basic
import Mathlib.Logic.Function.Basic
import Mathlib.Tactic.Common

/-- **A tape bent to a ring** of `n` cells. The store may have other cells as well. -/
@[ext] structure RingTape (n : Nat) (α : Type*) where
  pos : Nat
  inside : pos < n
  cells : Nat → α

namespace RingTape

variable {n : Nat} {α : Type*}

/-! ## 1. Steps -/

theorem size_pos (r : RingTape n α) : 0 < n := Nat.zero_lt_of_lt r.inside

/-- Writes the cell at the position and steps forward. -/
def put (r : RingTape n α) (a : α) : RingTape n α where
  pos := (r.pos + 1) % n
  inside := Nat.mod_lt _ r.size_pos
  cells := Function.update r.cells r.pos a

/-- Steps back and writes the cell stepped on. -/
def rub (r : RingTape n α) (a : α) : RingTape n α where
  pos := (r.pos + (n - 1)) % n
  inside := Nat.mod_lt _ r.size_pos
  cells := Function.update r.cells ((r.pos + (n - 1)) % n) a

/-- A list written forwards. -/
def puts (r : RingTape n α) (as : List α) : RingTape n α := as.foldl put r

/-- A list written backwards. -/
def rubs (r : RingTape n α) (as : List α) : RingTape n α := as.foldl rub r

/-- The next `k` steps forward write this cell. -/
def Covers (r : RingTape n α) (k q : Nat) : Prop := ∃ i < k, (r.pos + i) % n = q

@[simp] theorem put_pos (r : RingTape n α) (a : α) : (r.put a).pos = (r.pos + 1) % n := rfl

@[simp] theorem put_cells (r : RingTape n α) (a : α) :
    (r.put a).cells = Function.update r.cells r.pos a := rfl

@[simp] theorem rub_pos (r : RingTape n α) (a : α) : (r.rub a).pos = (r.pos + (n - 1)) % n := rfl

@[simp] theorem rub_cells (r : RingTape n α) (a : α) :
    (r.rub a).cells = Function.update r.cells (r.rub a).pos a := rfl

@[simp] theorem puts_nil (r : RingTape n α) : r.puts [] = r := rfl

@[simp] theorem puts_cons (r : RingTape n α) (a : α) (as : List α) :
    r.puts (a :: as) = (r.put a).puts as := rfl

theorem puts_concat (r : RingTape n α) (as : List α) (a : α) :
    r.puts (as ++ [a]) = (r.puts as).put a := List.foldl_append

@[simp] theorem rubs_cons (r : RingTape n α) (a : α) (as : List α) :
    r.rubs (a :: as) = (r.rub a).rubs as := rfl

theorem rubs_concat (r : RingTape n α) (as : List α) (a : α) :
    r.rubs (as ++ [a]) = (r.rubs as).rub a := List.foldl_append

/-! ## 2. Forwards -/

/-- **Where the position ends.** -/
theorem puts_pos (r : RingTape n α) (as : List α) :
    (r.puts as).pos = (r.pos + as.length) % n := by
  induction as generalizing r with
  | nil => exact (Nat.mod_eq_of_lt r.inside).symm
  | cons a as ih =>
      rw [puts_cons, ih, List.length_cons, put_pos, Nat.mod_add_mod]
      congr 1
      omega

/-- **The last writer wins**: a cell holds the element with the greatest index among those written
    to it, or what it held before when there is none. -/
theorem puts_last (r : RingTape n α) (as : List α) (q : Nat) :
    (∃ i, ∃ h : i < as.length,
        IsGreatest {i | i < as.length ∧ (r.pos + i) % n = q} i ∧ (r.puts as).cells q = as[i]) ∨
      (¬ r.Covers as.length q ∧ (r.puts as).cells q = r.cells q) := by
  induction as using List.reverseRecOn with
  | nil =>
      refine Or.inr ⟨fun h => ?_, rfl⟩
      obtain ⟨i, hi, _⟩ := h
      exact absurd hi (Nat.not_lt_zero i)
  | append_singleton as a ih =>
      have hlen : (as ++ [a]).length = as.length + 1 := List.length_append
      have hcells : (r.puts (as ++ [a])).cells =
          Function.update (r.puts as).cells ((r.pos + as.length) % n) a := by
        rw [puts_concat, put_cells, puts_pos]
      rw [hcells]
      by_cases hq : (r.pos + as.length) % n = q
      · -- the last element is written here
        refine Or.inl ⟨as.length, by omega, ⟨⟨by omega, hq⟩, fun i hi => ?_⟩, ?_⟩
        · have h1 := hi.1
          omega
        · rw [hq, Function.update_self, List.getElem_append_right (Nat.le_refl _)]
          simp
      · rw [Function.update_of_ne (Ne.symm hq)]
        rcases ih with ⟨i, hi, ⟨⟨_, hiq⟩, hmax⟩, hcell⟩ | ⟨hnone, hcell⟩
        · refine Or.inl ⟨i, by omega, ⟨⟨by omega, hiq⟩, fun j hj => ?_⟩, ?_⟩
          · obtain ⟨hj1, hj2⟩ := hj
            have hne : j ≠ as.length := fun e => hq (e ▸ hj2)
            exact hmax ⟨by omega, hj2⟩
          · rw [hcell, List.getElem_append_left hi]
        · refine Or.inr ⟨fun h => ?_, hcell⟩
          obtain ⟨j, hj, hjq⟩ := h
          have hne : j ≠ as.length := fun e => hq (e ▸ hjq)
          exact hnone ⟨j, by omega, hjq⟩

/-! ## 3. Backwards -/

/-- **A step back undoes a step forward**, up to the mark it leaves. -/
theorem rub_put (r : RingTape n α) (a b : α) :
    (r.put a).rub b = { r with cells := Function.update r.cells r.pos b } := by
  have hpos : ((r.pos + 1) % n + (n - 1)) % n = r.pos := by
    have hn := r.size_pos
    rw [Nat.mod_add_mod, show r.pos + 1 + (n - 1) = r.pos + n by omega, Nat.add_mod_right,
      Nat.mod_eq_of_lt r.inside]
  refine RingTape.ext hpos ?_
  rw [rub_cells, rub_pos, put_pos, hpos, put_cells, Function.update_idem]

/-- The first of the cells covered, and the others. -/
theorem covers_succ (r : RingTape n α) (a : α) (k q : Nat) :
    r.Covers (k + 1) q ↔ q = r.pos ∨ (r.put a).Covers k q := by
  have hstep : ∀ i, ((r.pos + 1) % n + i) % n = (r.pos + (i + 1)) % n := fun i => by
    rw [Nat.mod_add_mod, Nat.add_assoc, Nat.add_comm 1]
  constructor
  · intro h
    obtain ⟨i, hi, hq⟩ := h
    cases i with
    | zero => exact Or.inl (hq.symm.trans (Nat.mod_eq_of_lt r.inside))
    | succ i => exact Or.inr ⟨i, Nat.lt_of_succ_lt_succ hi, (hstep i).trans hq⟩
  · intro h
    rcases h with rfl | ⟨i, hi, hq⟩
    · exact ⟨0, Nat.succ_pos k, Nat.mod_eq_of_lt r.inside⟩
    · exact ⟨i + 1, Nat.succ_lt_succ hi, (hstep i).symm.trans hq⟩

/-- **As many steps back as forward**: the position is the first one again, the cells covered hold
    the mark, and the others are as before. -/
theorem rubs_puts (r : RingTape n α) (as : List α) (b : α) :
    ((r.puts as).rubs (List.replicate as.length b)).pos = r.pos ∧
      ∀ q, (r.Covers as.length q →
          ((r.puts as).rubs (List.replicate as.length b)).cells q = b) ∧
        (¬ r.Covers as.length q →
          ((r.puts as).rubs (List.replicate as.length b)).cells q = r.cells q) := by
  induction as generalizing r with
  | nil =>
      refine ⟨rfl, fun q => ⟨fun h => ?_, fun _ => rfl⟩⟩
      obtain ⟨i, hi, _⟩ := h
      exact absurd hi (Nat.not_lt_zero i)
  | cons a as ih =>
      obtain ⟨hpos, hcells⟩ := ih (r.put a)
      rw [List.length_cons, List.replicate_succ', puts_cons, rubs_concat]
      generalize ((r.put a).puts as).rubs (List.replicate as.length b) = u at hpos hcells ⊢
      -- the last step back goes from the second position to the first
      have hback : (u.rub b).pos = r.pos := by
        rw [rub_pos, hpos, ← rub_pos (r.put a) b, rub_put]
      refine ⟨hback, fun q => ?_⟩
      have hq : (u.rub b).cells q = if q = r.pos then b else u.cells q := by
        rw [rub_cells, hback, Function.update_apply]
      rw [hq, covers_succ r a]
      by_cases hfirst : q = r.pos
      · rw [if_pos hfirst]
        exact ⟨fun _ => rfl, fun h => absurd (Or.inl hfirst) h⟩
      · rw [if_neg hfirst, or_iff_right hfirst]
        refine ⟨(hcells q).1, fun h => ((hcells q).2 h).trans ?_⟩
        exact Function.update_of_ne hfirst a r.cells

end RingTape
