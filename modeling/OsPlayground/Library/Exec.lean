/-
  File:      OsPlayground/Library/Exec.lean
  Subject:   RUNS. A machine that answers calls, driven by a list of them.

  `step s a` is the machine's answer to call `a` in state `s`: the new state and the output, or
  `none` when the call gives no answer. `run` feeds a list of calls. The rules:

  * `run_history`, `run_inv` -- what every answered call keeps, of the state and of the calls and
    outputs so far, holds after every run;
  * `run_forall₂` -- what every call's answer has to do with the call, the outputs of a run have
    to do with its calls, one by one;
  * `run_total` -- where every call is answered in a state of the invariant, so is every run;
  * `run_until` -- a call repeated with a falling measure gives the output wanted; `run_reach` --
    calls with a falling measure reach the state wanted;
  * `run_append` -- a run can be cut anywhere; `run_mono` -- a system with fewer steps has no other
    runs.

  `Hands` is the contract of an allocator over an arbitrary index set: the block handed out was
  free, is taken afterwards, and nothing is ever given back. `run_hands` is its theorem over
  runs: the blocks of a run are pairwise disjoint, were free at the start and are taken at the
  end.
-/
import Mathlib

namespace Exec

variable {σ : Type*} {α : Type*} {β : Type*}

/-- The run of the machine over a list of calls: the last state and the outputs in order. -/
def run (step : σ → α → Option (σ × β)) : σ → List α → Option (σ × List β)
  | s, [] => some (s, [])
  | s, a :: as =>
    match step s a with
    | none => none
    | some (s', b) =>
      match run step s' as with
      | none => none
      | some (s'', bs) => some (s'', b :: bs)

variable {step : σ → α → Option (σ × β)}

@[simp] theorem run_nil (s : σ) : run step s [] = some (s, []) := rfl

/-- A run of a call and more calls is the call's answer and the run of the rest. -/
theorem run_cons {s t : σ} {a : α} {as : List α} {cs : List β} :
    run step s (a :: as) = some (t, cs) ↔
      ∃ s' b bs, step s a = some (s', b) ∧ run step s' as = some (t, bs) ∧ cs = b :: bs := by
  constructor
  · intro h
    simp only [run] at h
    split at h
    · cases h
    · rename_i s' b hs
      split at h
      · cases h
      · rename_i t' bs hr
        cases h
        exact ⟨s', b, bs, hs, hr, rfl⟩
  · intro hfirst
    obtain ⟨s', b, bs, hs, hr, rfl⟩ := hfirst
    simp only [run, hs, hr]

/-- **A run can be cut**: the run of two lists is the run of the second after the first. -/
theorem run_append {s t : σ} {as as' : List α} {cs : List β} :
    run step s (as ++ as') = some (t, cs) ↔
      ∃ u bs bs', run step s as = some (u, bs) ∧ run step u as' = some (t, bs') ∧
        cs = bs ++ bs' := by
  induction as generalizing s cs with
  | nil =>
      constructor
      · intro h
        exact ⟨s, [], cs, rfl, h, rfl⟩
      · intro hcut
        obtain ⟨u, bs, bs', h1, h2, rfl⟩ := hcut
        cases h1
        exact h2
  | cons a as ih =>
      simp only [List.cons_append, run_cons, ih]
      constructor
      · intro hfirst
        obtain ⟨s', b, _, hs, ⟨u, bs, bs', h1, h2, rfl⟩, rfl⟩ := hfirst
        exact ⟨u, b :: bs, bs', ⟨s', b, bs, hs, h1, rfl⟩, h2, rfl⟩
      · intro hcut
        obtain ⟨u, _, bs', ⟨s', b, bs, hs, h1, rfl⟩, h2, rfl⟩ := hcut
        exact ⟨s', b, bs ++ bs', hs, ⟨u, bs, bs', h1, h2, rfl⟩, rfl⟩

/-- **The history rule**: a property of the state, the calls so far and the outputs so far that
    every answered call of the run keeps holds at its end. -/
theorem run_history (Inv : σ → List α → List β → Prop) {s : σ}
    (hstep : ∀ u as bs a u' b, run step s as = some (u, bs) → Inv u as bs →
      step u a = some (u', b) → Inv u' (as ++ [a]) (bs ++ [b]))
    (h0 : Inv s [] []) {t : σ} {as : List α} {bs : List β} (h : run step s as = some (t, bs)) :
    Inv t as bs := by
  induction as using List.reverseRecOn generalizing t bs with
  | nil =>
      cases h
      exact h0
  | append_singleton as a ih =>
      obtain ⟨u, bs₁, bs₂, h1, h2, rfl⟩ := run_append.mp h
      obtain ⟨u', b, bs', hs, hr, rfl⟩ := run_cons.mp h2
      cases hr
      exact hstep u as bs₁ a t b h1 (ih h1) hs

/-- **The invariant rule**: what every answered call keeps holds after every run. -/
theorem run_inv (Inv : σ → Prop)
    (hstep : ∀ s a s' b, Inv s → step s a = some (s', b) → Inv s')
    {s t : σ} {as : List α} {bs : List β} (hI : Inv s) (h : run step s as = some (t, bs)) :
    Inv t :=
  run_history (fun u _ _ => Inv u) (fun u _ _ a u' b _ hu hs => hstep u a u' b hu hs) hI h

/-- A run of the steps that one of two systems has is a run of the other. -/
theorem run_mono {step' : σ → α → Option (σ × β)}
    (hstep : ∀ s a r, step' s a = some r → step s a = some r) {s : σ} {as : List α}
    {r : σ × List β} (h : run step' s as = some r) : run step s as = some r := by
  induction as generalizing s r with
  | nil => exact h
  | cons a as ih =>
      obtain ⟨t, cs⟩ := r
      obtain ⟨s', b, bs, hs, hrest, hcs⟩ := run_cons.mp h
      exact run_cons.mpr ⟨s', b, bs, hstep s a _ hs, ih hrest, hcs⟩

/-- **The output rule**: what relates every answered call to its output, in a state of the
    invariant, relates the calls of a run to its outputs one by one. -/
theorem run_forall₂ (Inv : σ → Prop) (R : α → β → Prop)
    (hstep : ∀ s a s' b, Inv s → step s a = some (s', b) → Inv s' ∧ R a b)
    {s t : σ} {as : List α} {bs : List β} (hI : Inv s) (h : run step s as = some (t, bs)) :
    List.Forall₂ R as bs := by
  induction as generalizing s bs with
  | nil =>
      cases h
      exact .nil
  | cons a as ih =>
      obtain ⟨s', b, bs', hs, hr, rfl⟩ := run_cons.mp h
      obtain ⟨hI', hR⟩ := hstep s a s' b hI hs
      exact .cons hR (ih hI' hr)

/-- Every output belongs to a call. -/
theorem exists_call {R : α → β → Prop} {as : List α} {bs : List β} (h : List.Forall₂ R as bs)
    {b : β} (hb : b ∈ bs) : ∃ a ∈ as, R a b := by
  induction h with
  | nil => cases hb
  | @cons a b' as bs hR _ ih =>
      rcases List.mem_cons.mp hb with rfl | hb
      · exact ⟨a, List.mem_cons_self, hR⟩
      · obtain ⟨c, hc, hRc⟩ := ih hb
        exact ⟨c, List.mem_cons_of_mem _ hc, hRc⟩

/-- **Every run is answered** where every call is, in a state of the invariant. -/
theorem run_total (Inv : σ → Prop) (Ok : α → Prop)
    (hstep : ∀ s a, Inv s → Ok a → ∃ s' b, step s a = some (s', b) ∧ Inv s')
    {s : σ} {as : List α} (hI : Inv s) (hok : ∀ a ∈ as, Ok a) :
    ∃ t bs, run step s as = some (t, bs) ∧ Inv t := by
  induction as generalizing s with
  | nil => exact ⟨s, [], rfl, hI⟩
  | cons a as ih =>
      obtain ⟨s', b, hs, hI'⟩ := hstep s a hI (hok a List.mem_cons_self)
      obtain ⟨t, bs, hr, ht⟩ := ih hI' fun a' ha' => hok a' (List.mem_cons_of_mem _ ha')
      exact ⟨t, b :: bs, run_cons.mpr ⟨s', b, bs, hs, hr, rfl⟩, ht⟩

/-- **The progress rule**: where a call repeated in a state of the invariant gives the output
    wanted or makes the measure fall, a run of that call gives the output wanted. -/
theorem run_until (Inv : σ → Prop) (Goal : β → Prop) (μ : σ → Nat) {a : α}
    (hstep : ∀ s, Inv s → ∃ s' b, step s a = some (s', b) ∧ (Goal b ∨ (Inv s' ∧ μ s' < μ s)))
    {s : σ} (hI : Inv s) :
    ∃ n t bs, run step s (List.replicate n a) = some (t, bs) ∧ ∃ b ∈ bs, Goal b := by
  induction hμ : μ s using Nat.strong_induction_on generalizing s with
  | h m ih =>
      obtain ⟨s', b, hs, hgoal | ⟨hI', hlt⟩⟩ := hstep s hI
      · exact ⟨1, s', [b], run_cons.mpr ⟨s', b, [], hs, rfl, rfl⟩, b, List.mem_singleton_self b,
          hgoal⟩
      · obtain ⟨n, t, bs, hr, b', hb', hgoal⟩ := ih (μ s') (by omega) hI' rfl
        exact ⟨n + 1, t, b :: bs, run_cons.mpr ⟨s', b, bs, hs, hr, rfl⟩, b',
          List.mem_cons_of_mem _ hb', hgoal⟩

/-- **The reaching rule**: where every state of the invariant has what is wanted, or answers some
    call with a smaller measure, a run reaches what is wanted in no more calls than the measure. -/
theorem run_reach (Inv Goal : σ → Prop) (μ : σ → Nat)
    (hstep : ∀ s, Inv s → Goal s ∨ ∃ a s' b, step s a = some (s', b) ∧ Inv s' ∧ μ s' < μ s)
    {s : σ} (hI : Inv s) :
    ∃ as t bs, run step s as = some (t, bs) ∧ Inv t ∧ Goal t ∧ as.length ≤ μ s := by
  induction hμ : μ s using Nat.strong_induction_on generalizing s with
  | h m ih =>
      rcases hstep s hI with hgoal | ⟨a, s', b, hs, hI', hlt⟩
      · exact ⟨[], s, [], rfl, hI, hgoal, Nat.zero_le _⟩
      · obtain ⟨as, t, bs, hr, ht, hgoal, hlen⟩ := ih (μ s') (by omega) hI' rfl
        refine ⟨a :: as, t, b :: bs, run_cons.mpr ⟨s', b, bs, hs, hr, rfl⟩, ht, hgoal, ?_⟩
        rw [List.length_cons]
        omega

/-! An answer that may fail with a message. -/

theorem toOption_eq_some {ε : Type*} {x : Except ε β} {b : β} : x.toOption = some b ↔ x = .ok b := by
  cases x <;> simp [Except.toOption]

theorem map_eq_ok {ε γ : Type*} {x : Except ε β} {f : β → γ} {c : γ} (h : x.map f = .ok c) :
    ∃ b, x = .ok b ∧ f b = c := by
  cases x with
  | error e => cases h
  | ok b => exact ⟨b, rfl, Except.ok.inj h⟩

section Allocator

variable {ι : Type*} (taken : σ → Set ι) (block : β → Set ι)

/-- **The contract of an allocator**: the block handed out was free, it is taken afterwards, and
    what was taken stays taken. -/
structure Hands (s : σ) (b : β) (s' : σ) : Prop where
  fresh : Disjoint (block b) (taken s)
  kept : taken s ⊆ taken s'
  given : block b ⊆ taken s'

variable {taken block} (Inv : σ → Prop)

/-- **Nothing is handed out twice**: over a run of calls that keep the contract, the blocks are
    pairwise disjoint, were free at the start, are taken at the end, and nothing is given
    back. -/
theorem run_hands
    (hstep : ∀ s a s' b, Inv s → step s a = some (s', b) → Inv s' ∧ Hands taken block s b s')
    {s t : σ} {as : List α} {bs : List β} (hI : Inv s) (h : run step s as = some (t, bs)) :
    bs.Pairwise (fun b b' => Disjoint (block b) (block b')) ∧
      (∀ b ∈ bs, Disjoint (block b) (taken s) ∧ block b ⊆ taken t) ∧ taken s ⊆ taken t := by
  induction as generalizing s bs with
  | nil =>
      cases h
      exact ⟨List.Pairwise.nil, fun _ h => absurd h List.not_mem_nil, Set.Subset.rfl⟩
  | cons a as ih =>
      obtain ⟨s', b, bs', hs, hr, rfl⟩ := run_cons.mp h
      obtain ⟨hI', hb⟩ := hstep s a s' b hI hs
      obtain ⟨hpw, hall, hkept⟩ := ih hI' hr
      refine ⟨List.pairwise_cons.mpr ⟨fun b' hb' => ?_, hpw⟩, fun b' hb' => ?_,
        hb.kept.trans hkept⟩
      · -- `b` is taken before `b'` is handed out
        exact ((hall b' hb').1.mono_right hb.given).symm
      · rcases List.mem_cons.mp hb' with rfl | hb'
        · exact ⟨hb.fresh, hb.given.trans hkept⟩
        · exact ⟨(hall b' hb').1.mono_right hb.kept, (hall b' hb').2⟩

end Allocator

end Exec
