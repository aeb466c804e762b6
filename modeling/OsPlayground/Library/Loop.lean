/-
  File:      OsPlayground/Library/Loop.lean
  Subject:   LOOPS. A `for` or `while` loop as one pass of its body, run with fuel.

  A pass either goes on in a new state or leaves the loop with a result. `run` iterates it;
  `none` says that the fuel ran out, so a loop that never ends is `none` for every fuel. The
  rules a program's loops are proved with:

  * `run_mono`, `run_det` -- more fuel gives the same result;
  * `run_post` -- an invariant kept by every pass gives the postcondition of the result
    (partial correctness);
  * `run_total`, `run_passes` -- with a measure that falls the loop also ends, within the fuel
    the measure names (total correctness);
  * `run_sim` -- two loops whose passes correspond end with results that correspond.
-/
import Mathlib.Logic.Basic

namespace FuelLoop

variable {σ : Type*} {β : Type*}

/-- The loop whose pass is `step`: `.inl` goes on, `.inr` leaves. -/
def run (step : σ → σ ⊕ β) : Nat → σ → Option β
  | 0, _ => none
  | n + 1, s =>
    match step s with
    | .inl s' => run step n s'
    | .inr b => some b

variable {step : σ → σ ⊕ β}

theorem run_go {n : Nat} {s s' : σ} (h : step s = .inl s') : run step (n + 1) s = run step n s' := by
  simp only [run, h]

theorem run_stop {n : Nat} {s : σ} {b : β} (h : step s = .inr b) : run step (n + 1) s = some b := by
  simp only [run, h]

/-- More fuel gives the same result. -/
theorem run_mono {n m : Nat} {s : σ} {b : β} (hnm : n ≤ m) (h : run step n s = some b) :
    run step m s = some b := by
  induction n generalizing m s with
  | zero => simp [run] at h
  | succ n ih =>
      obtain ⟨m, rfl⟩ : ∃ m', m = m' + 1 := ⟨m - 1, by omega⟩
      cases hs : step s with
      | inl s' =>
          rw [run_go hs] at h ⊢
          exact ih (by omega) h
      | inr b' =>
          rw [run_stop hs] at h ⊢
          exact h

/-- The result does not depend on the fuel. -/
theorem run_det {n m : Nat} {s : σ} {b b' : β} (h : run step n s = some b)
    (h' : run step m s = some b') : b = b' := by
  have h1 := run_mono (Nat.le_max_left n m) h
  rw [run_mono (Nat.le_max_right n m) h'] at h1
  exact (Option.some.inj h1).symm

/-- **Partial correctness**: what every pass keeps holds when the loop is left. -/
theorem run_post (Inv : σ → Prop) (Post : β → Prop)
    (hgo : ∀ s s', Inv s → step s = .inl s' → Inv s')
    (hstop : ∀ s b, Inv s → step s = .inr b → Post b)
    {n : Nat} {s : σ} {b : β} (hI : Inv s) (h : run step n s = some b) : Post b := by
  induction n generalizing s with
  | zero => simp [run] at h
  | succ n ih =>
      cases hs : step s with
      | inl s' =>
          rw [run_go hs] at h
          exact ih (hgo s s' hI hs) h
      | inr b' =>
          rw [run_stop hs] at h
          cases h
          exact hstop s _ hI hs

/-- **Total correctness**: with a falling measure the loop ends, within the fuel it names. -/
theorem run_total (Inv : σ → Prop) (Post : β → Prop) (μ : σ → Nat)
    (hgo : ∀ s s', Inv s → step s = .inl s' → Inv s' ∧ μ s' < μ s)
    (hstop : ∀ s b, Inv s → step s = .inr b → Post b)
    {n : Nat} {s : σ} (hI : Inv s) (hn : μ s < n) : ∃ b, run step n s = some b ∧ Post b := by
  induction n generalizing s with
  | zero => omega
  | succ n ih =>
      cases hs : step s with
      | inl s' =>
          obtain ⟨hI', hμ⟩ := hgo s s' hI hs
          rw [run_go hs]
          exact ih hI' (by omega)
      | inr b => exact ⟨b, run_stop hs, hstop s b hI hs⟩

/-- Total correctness from one lemma about a pass: it goes on with a smaller measure, or leaves
    with the postcondition. -/
theorem run_passes (Inv : σ → Prop) (Post : β → Prop) (μ : σ → Nat)
    (hpass : ∀ s, Inv s →
      (∃ s', step s = .inl s' ∧ Inv s' ∧ μ s' < μ s) ∨ ∃ b, step s = .inr b ∧ Post b)
    {n : Nat} {s : σ} (hI : Inv s) (hn : μ s < n) : ∃ b, run step n s = some b ∧ Post b := by
  refine run_total Inv Post μ (fun s s' hI hgo => ?_) (fun s b hI hstop => ?_) hI hn
  · rcases hpass s hI with h | h
    · obtain ⟨s₁, h₁, hI₁, hμ⟩ := h
      rw [hgo] at h₁
      obtain rfl := Sum.inl.inj h₁
      exact ⟨hI₁, hμ⟩
    · obtain ⟨b, hb, _⟩ := h
      rw [hgo] at hb
      cases hb
  · rcases hpass s hI with h | h
    · obtain ⟨s₁, h₁, _⟩ := h
      rw [hstop] at h₁
      cases h₁
    · obtain ⟨b', hb, hpost⟩ := h
      rw [hstop] at hb
      obtain rfl := Sum.inr.inj hb
      exact hpost

/-- **Two loops in step**: related states go on to related states and leave with related results,
    so the second loop ends where the first does. -/
theorem run_sim {σ' : Type*} {β' : Type*} {step' : σ' → σ' ⊕ β'} (R : σ → σ' → Prop)
    (Q : β → β' → Prop)
    (hgo : ∀ s s' t, R s s' → step s = .inl t → ∃ t', step' s' = .inl t' ∧ R t t')
    (hstop : ∀ s s' b, R s s' → step s = .inr b → ∃ b', step' s' = .inr b' ∧ Q b b')
    {n : Nat} {s : σ} {s' : σ'} {b : β} (hR : R s s') (h : run step n s = some b) :
    ∃ b', run step' n s' = some b' ∧ Q b b' := by
  induction n generalizing s s' with
  | zero => simp [run] at h
  | succ n ih =>
      cases hs : step s with
      | inl t =>
          obtain ⟨t', ht', hRt⟩ := hgo s s' t hR hs
          rw [run_go hs] at h
          rw [run_go ht']
          exact ih hRt h
      | inr c =>
          obtain ⟨c', hc', hQ⟩ := hstop s s' c hR hs
          rw [run_stop hs] at h
          cases h
          exact ⟨c', run_stop hc', hQ⟩

end FuelLoop
