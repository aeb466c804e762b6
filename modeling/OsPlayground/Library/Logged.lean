/-
  File:      OsPlayground/Library/Logged.lean
  Subject:   LOGGED OPERATIONS. An operation is a function of a state that answers the new state
             and a list of the events it caused.

  `andThen` and `each` put operations one after the other and run one for every element of a
  list. `Keeps Inv stat Ok` is the contract of an operation: it keeps the invariant and the static
  part of the state, and every event it causes is one the static part allows. Contracts of the
  parts give the contract of the whole (`Keeps.andThen`, `Keeps.each`).
-/
import Mathlib.Tactic.Common

namespace Logged

variable {σ ε α κ : Type*}

/-! ## 1. Composition -/

/-- One operation after another; the events in order. -/
def andThen (r : σ × List ε) (f : σ → σ × List ε) : σ × List ε :=
  ((f r.1).1, r.2 ++ (f r.1).2)

/-- An operation for every element of a list in order. -/
def each (f : σ → α → σ × List ε) : σ → List α → σ × List ε
  | s, [] => (s, [])
  | s, a :: as => andThen (f s a) fun s' => each f s' as

@[simp] theorem andThen_fst (r : σ × List ε) (f : σ → σ × List ε) : (andThen r f).1 = (f r.1).1 := rfl

@[simp] theorem andThen_snd (r : σ × List ε) (f : σ → σ × List ε) :
    (andThen r f).2 = r.2 ++ (f r.1).2 := rfl

theorem andThen_assoc (r : σ × List ε) (f g : σ → σ × List ε) :
    andThen (andThen r f) g = andThen r fun s => andThen (f s) g := by
  simp only [andThen, List.append_assoc]

@[simp] theorem each_nil (f : σ → α → σ × List ε) (s : σ) : each f s [] = (s, []) := rfl

@[simp] theorem each_cons (f : σ → α → σ × List ε) (s : σ) (a : α) (as : List α) :
    each f s (a :: as) = andThen (f s a) fun s' => each f s' as := rfl

/-! ## 2. Contracts -/

variable (Inv : σ → Prop) (stat : σ → κ) (Ok : κ → ε → Prop)

/-- **The contract of an operation** run in state `s` with answer `r`: the invariant holds of the
    new state, the static part is kept, and the events are allowed by it. -/
structure Keeps (s : σ) (r : σ × List ε) : Prop where
  inv : Inv r.1
  same : stat r.1 = stat s
  events : ∀ e ∈ r.2, Ok (stat s) e

variable {Inv stat Ok}

/-- An operation that causes nothing and changes nothing. -/
theorem Keeps.refl {s : σ} (h : Inv s) : Keeps Inv stat Ok s (s, []) :=
  ⟨h, rfl, fun _ he => absurd he List.not_mem_nil⟩

/-- The contract looks at the static part of the start only. -/
theorem Keeps.of_same {s s' : σ} {r : σ × List ε} (hs : stat s' = stat s)
    (h : Keeps Inv stat Ok s' r) : Keeps Inv stat Ok s r :=
  ⟨h.inv, h.same.trans hs, fun e he => hs ▸ h.events e he⟩

theorem Keeps.andThen {s : σ} {r : σ × List ε} {f : σ → σ × List ε} (hr : Keeps Inv stat Ok s r)
    (hf : Keeps Inv stat Ok r.1 (f r.1)) : Keeps Inv stat Ok s (andThen r f) := by
  refine ⟨hf.inv, hf.same.trans hr.same, fun e he => ?_⟩
  rcases List.mem_append.mp he with h | h
  · exact hr.events e h
  · exact hr.same ▸ hf.events e h

/-- **The loop rule**: an operation that keeps its contract for every element of a list keeps it
    over the list. -/
theorem Keeps.each {f : σ → α → σ × List ε} {as : List α}
    (hf : ∀ s, ∀ a ∈ as, Inv s → Keeps Inv stat Ok s (f s a)) {s : σ} (hs : Inv s) :
    Keeps Inv stat Ok s (each f s as) := by
  induction as generalizing s with
  | nil => exact Keeps.refl hs
  | cons a as ih =>
      have ha := hf s a List.mem_cons_self hs
      exact ha.andThen (ih (fun s b hb => hf s b (List.mem_cons_of_mem a hb)) ha.inv)

end Logged
