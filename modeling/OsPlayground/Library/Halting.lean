/-
  File:      OsPlayground/Library/Halting.lean
  Subject:   OPERATIONS THAT MAY STOP. An operation answers the state it leaves and a result, or no
             result when it stopped on the way; the state of a stopped operation is kept, so that
             what it did before can be spoken about.

  * `andThen`, `Post`, `Post.andThen` -- composition, and its rule for total correctness;
  * `check`, `upTo`, `Post.upTo` -- an assert, and a counted loop with its invariant;
  * `upTo_or`, `through_andThen`, `through_upTo` -- a loop that may go wrong, and what every part
    keeps from its state to the one it leaves, also where it stops;
  * `Run`, `Run.inv` -- what a machine reaches over calls that each completed, with the history of
    calls and results, newest first; `Allowed` names the calls that may follow it in a state.
-/
import Mathlib.Tactic.Common

namespace Halting

variable {σ α β γ : Type*}

/-! ## 1. Composition -/

/-- One operation, then another on its state and result. -/
def andThen (r : σ × Option α) (f : σ → α → σ × Option β) : σ × Option β :=
  match r.2 with
  | none => (r.1, none)
  | some a => f r.1 a

@[simp] theorem andThen_some (s : σ) (a : α) (f : σ → α → σ × Option β) :
    andThen (s, some a) f = f s a := rfl

@[simp] theorem andThen_none (s : σ) (f : σ → α → σ × Option β) :
    andThen (s, (none : Option α)) f = (s, none) := rfl

/-- What completes completed in both parts. -/
theorem andThen_eq_some {r : σ × Option α} {f : σ → α → σ × Option β} {s : σ} {b : β}
    (h : andThen r f = (s, some b)) : ∃ s' a, r = (s', some a) ∧ f s' a = (s, some b) := by
  obtain ⟨s', o⟩ := r
  cases o with
  | none => cases h
  | some a => exact ⟨s', a, rfl, h⟩

/-- The operation completed, and `P` holds of its state and result. -/
def Post (P : σ → α → Prop) (r : σ × Option α) : Prop :=
  ∃ s a, r = (s, some a) ∧ P s a

variable {P : σ → α → Prop} {Q : σ → β → Prop}

theorem Post.intro {s : σ} {a : α} (h : P s a) : Post P (s, some a) := ⟨s, a, rfl, h⟩

theorem Post.imp {P' : σ → α → Prop} {r : σ × Option α} (h : Post P r)
    (himp : ∀ s a, P s a → P' s a) : Post P' r := by
  obtain ⟨s, a, rfl, hP⟩ := h
  exact .intro (himp s a hP)

theorem Post.andThen {r : σ × Option α} {f : σ → α → σ × Option β} (h : Post P r)
    (hf : ∀ s a, P s a → Post Q (f s a)) : Post Q (andThen r f) := by
  obtain ⟨s, a, rfl, hP⟩ := h
  exact hf s a hP

/-- What is known of a completed operation from its contract. -/
theorem Post.of_eq {r : σ × Option α} {s : σ} {a : α} (h : Post P r) (hr : r = (s, some a)) :
    P s a := by
  obtain ⟨s', a', rfl, hP⟩ := h
  cases hr
  exact hP

/-! ## 2. Asserts and counted loops -/

/-- An assert: the operation stops where `c` fails. -/
def check (c : Prop) [Decidable c] (s : σ) : σ × Option Unit :=
  if c then (s, some ()) else (s, none)

theorem check_of {c : Prop} [Decidable c] (h : c) (s : σ) : check c s = (s, some ()) := if_pos h

/-- `for (i = 0; i < n; ++i) body(i)`. -/
def upTo (body : Nat → σ → σ × Option Unit) : Nat → σ → σ × Option Unit
  | 0, s => (s, some ())
  | n + 1, s => andThen (upTo body n s) fun s _ => body n s

/-- **The rule of the counted loop**: `Inv i` holds before pass `i`. -/
theorem Post.upTo (Inv : Nat → σ → Prop) {body : Nat → σ → σ × Option Unit} {n : Nat} {s : σ}
    (h0 : Inv 0 s) (hbody : ∀ i < n, ∀ s, Inv i s → Post (fun s' _ => Inv (i + 1) s') (body i s)) :
    Post (fun s' _ => Inv n s') (upTo body n s) := by
  induction n with
  | zero => exact .intro h0
  | succ n ih =>
      have hfirst := ih fun i hi => hbody i (Nat.lt_succ_of_lt hi)
      exact hfirst.andThen fun s' _ hI => hbody n (Nat.lt_succ_self n) s' hI

/-- A loop whose first pass stops is that pass. -/
theorem upTo_first_none {body : Nat → σ → σ × Option Unit} {s t : σ} (h : body 0 s = (t, none))
    (n : Nat) : upTo body (n + 1) s = (t, none) := by
  induction n with
  | zero => exact h
  | succ n ih =>
      show andThen (upTo body (n + 1) s) _ = _
      rw [ih, andThen_none]

/-- **The rule of a loop that may go wrong**: a pass keeps `Inv`, or answers with `Bad`, which the
    passes after it do not mend. -/
theorem upTo_or (Inv : Nat → σ → Prop) (Bad : σ × Option Unit → Prop)
    {body : Nat → σ → σ × Option Unit} {n : Nat} {s : σ} (h0 : Inv 0 s)
    (hbody : ∀ i < n, ∀ s, Inv i s → Post (fun s' _ => Inv (i + 1) s') (body i s) ∨ Bad (body i s))
    (hbad : ∀ i r, Bad r → Bad (andThen r fun s _ => body i s)) :
    Post (fun s' _ => Inv n s') (upTo body n s) ∨ Bad (upTo body n s) := by
  induction n with
  | zero => exact Or.inl (.intro h0)
  | succ n ih =>
      rcases ih fun i hi => hbody i (Nat.lt_succ_of_lt hi) with h1 | h1
      · obtain ⟨s', a, hrun, hI⟩ := h1
        show Post _ (andThen (upTo body n s) _) ∨ Bad (andThen (upTo body n s) _)
        rw [hrun]
        exact hbody n (Nat.lt_succ_self n) s' hI
      · exact Or.inr (hbad n _ h1)

/-! ## 3. Parts -/

section Through

variable {R : σ → σ → Prop}

/-- **What both parts keep** the whole keeps, also where it stops on the way. -/
theorem through_andThen (htrans : ∀ s t u, R s t → R t u → R s u) {s : σ} {r : σ × Option α}
    {f : σ → α → σ × Option β} (h : R s r.1) (hf : ∀ t a, R t (f t a).1) :
    R s (andThen r f).1 := by
  obtain ⟨t, o⟩ := r
  cases o with
  | none => exact h
  | some a => exact htrans _ _ _ h (hf t a)

theorem through_upTo (hrefl : ∀ s, R s s) (htrans : ∀ s t u, R s t → R t u → R s u)
    {body : Nat → σ → σ × Option Unit} (hbody : ∀ i t, R t (body i t).1) (n : Nat) (s : σ) :
    R s (upTo body n s).1 := by
  induction n with
  | zero => exact hrefl s
  | succ n ih => exact through_andThen htrans ih fun t _ => hbody n t

/-- From the end of the first pass on. -/
theorem through_first (hrefl : ∀ s, R s s) (htrans : ∀ s t u, R s t → R t u → R s u)
    {body : Nat → σ → σ × Option Unit} (hbody : ∀ i t, R t (body i t).1) (n : Nat) (s : σ) :
    R (body 0 s).1 (upTo body (n + 1) s).1 := by
  induction n with
  | zero => exact hrefl _
  | succ n ih => exact through_andThen htrans ih fun t _ => hbody (n + 1) t

end Through

/-! ## 4. Runs -/

variable (step : σ → α → σ × Option β) (Allowed : List (α × β) → σ → α → Prop)

/-- **The states a machine reaches** from `s₀`, with the calls and results so far, newest
    first. -/
inductive Run (s₀ : σ) : List (α × β) → σ → Prop
  | start : Run s₀ [] s₀
  | call {h : List (α × β)} {s s' : σ} {a : α} {b : β} (run : Run s₀ h s) (allowed : Allowed h s a)
      (done : step s a = (s', some b)) : Run s₀ ((a, b) :: h) s'

variable {step Allowed}

/-- **The invariant rule over runs.** -/
theorem Run.inv (Inv : List (α × β) → σ → Prop) {s₀ : σ} (h0 : Inv [] s₀)
    (hstep : ∀ h s a s' b, Inv h s → Allowed h s a → step s a = (s', some b) →
      Inv ((a, b) :: h) s')
    {h : List (α × β)} {s : σ} (hr : Run step Allowed s₀ h s) : Inv h s := by
  induction hr with
  | start => exact h0
  | call _ hal hd ih => exact hstep _ _ _ _ _ ih hal hd

end Halting
