/-
  File:      OsPlayground/PhysMem/Frames.lean
  Subject:   FRAMES OVER A WHOLE RUN. `alloc1`, `alloc8`, `alloc32` and the constructor in any
             order (bootstrap.s calls the constructors after the first allocations).

  * `physStep_answers` -- every call answers, and keeps the allocator's contract (`Exec.Hands`)
    over the set of taken frames;
  * `physRun_frames` -- so over every run the blocks handed out are aligned, pairwise disjoint,
    free at the start and taken at the end.
-/
import OsPlayground.PhysMem.Blocks
import OsPlayground.Library.Exec

namespace OsPlayground.PhysMem

/-- A call: one of the three allocations, or the constructor. -/
inductive PhysCall where
  | alloc1 | alloc8 | alloc32 | construct
  deriving DecidableEq, Repr

/-- The frames a call asks for. -/
def PhysCall.frames : PhysCall → Nat
  | .alloc1 => 1
  | .alloc8 => 8
  | .alloc32 => 32
  | .construct => 0

/-- The answer to a call: the address returned, null for the constructor. -/
structure Grant where
  frames : Nat
  addr : Nat
  deriving DecidableEq, Repr

/-- The frames of a non-null answer. -/
def Grant.block (g : Grant) : Set Nat :=
  {p | g.addr ≠ 0 ∧ g.addr / pageSize ≤ p ∧ p < g.addr / pageSize + g.frames}

/-- The frames whose bit is set. -/
def takenFrames (s : PhysMemAllocator) : Set Nat := {p | frameBit s p = true}

/-- One call. -/
def physStep (s : PhysMemAllocator) (c : PhysCall) : Option (PhysMemAllocator × Grant) :=
  match c with
  | .alloc1 => (alloc1 s).map fun r => (r.1, ⟨1, r.2⟩)
  | .alloc8 => (alloc8 s).map fun r => (r.1, ⟨8, r.2⟩)
  | .alloc32 => (alloc32 s).map fun r => (r.1, ⟨32, r.2⟩)
  | .construct => some (construct s, ⟨0, 0⟩)

/-- A run of calls. -/
def physRun (s : PhysMemAllocator) (cs : List PhysCall) :
    Option (PhysMemAllocator × List Grant) :=
  Exec.run physStep s cs

/-- The hint names a frame. -/
def HintOk (s : PhysMemAllocator) : Prop := s.lastAlloc < numPages

theorem hintOk_iff {s : PhysMemAllocator} : HintOk s ↔ s.lastAlloc < 2 ^ 20 := by
  simp only [HintOk, numPages]
  omega

/-- A non-null answer is a block aligned to its own size. -/
def Grant.Aligned (g : Grant) : Prop :=
  g.addr % (pageSize * g.frames) = 0 ∧ g.addr + pageSize * g.frames ≤ 2 ^ 32

/-- What one call does to the set of taken frames, and the shape of its answer. -/
structure Answers (s : PhysMemAllocator) (c : PhysCall) (s' : PhysMemAllocator) (g : Grant) :
    Prop where
  hint : HintOk s'
  size : g.frames = c.frames
  aligned : g.addr ≠ 0 → g.Aligned
  hands : Exec.Hands takenFrames Grant.block s g s'

theorem hands_of_result {n : Nat} {s s' : PhysMemAllocator} {out : Nat}
    (h : AllocResult n s s' out) :
    (out ≠ 0 → (Grant.mk n out).Aligned) ∧
      Exec.Hands takenFrames Grant.block s (Grant.mk n out) s' := by
  rcases h with ⟨hne, s₁, f, hl, ht, hf, hout⟩ | ⟨rfl, hl⟩
  · have hdiv : out / pageSize = f := by
      rw [hout]
      exact Nat.mul_div_cancel_left f (by decide)
    have hr := ht.inRange
    refine ⟨fun _ => ⟨?_, ?_⟩, ?_, fun p hp => ht.mono (hl.mono hp), ?_⟩
    · rw [hout]
      simp only [pageSize]
      rw [Nat.mul_mod_mul_left, ht.aligned, Nat.mul_zero]
    · simp only [pageSize]
      omega
    · rw [Set.disjoint_left]
      intro p hblock hp
      obtain ⟨_, h1, h2⟩ := hblock
      rw [hdiv] at h1 h2
      have hfree := ht.free p h1 h2
      rw [hl.mono hp] at hfree
      cases hfree
    · intro p hblock
      obtain ⟨_, h1, h2⟩ := hblock
      rw [hdiv] at h1 h2
      exact ht.taken h1 h2
  · have hempty : (Grant.mk n 0).block = ∅ := by
      ext p
      simp [Grant.block]
    refine ⟨fun h => absurd rfl h, ?_, fun p hp => hl.mono hp, ?_⟩
    · rw [hempty]
      exact Set.empty_disjoint _
    · rw [hempty]
      exact Set.empty_subset _

/-- **Every call is answered**, and the answer keeps the contract. -/
theorem physStep_answers {s : PhysMemAllocator} (hs : HintOk s) (c : PhysCall) :
    ∃ s' g, physStep s c = some (s', g) ∧ Answers s c s' g := by
  have hs' := hintOk_iff.mp hs
  cases c with
  | alloc1 =>
      obtain ⟨s', out, h, hr, hl, _⟩ := alloc1_spec hs'
      obtain ⟨ha, hh⟩ := hands_of_result hr
      exact ⟨s', ⟨1, out⟩, by simp [physStep, h], ⟨hintOk_iff.mpr hl, rfl, ha, hh⟩⟩
  | alloc8 =>
      obtain ⟨s', out, h, hr, hl, _⟩ := alloc8_spec hs'
      obtain ⟨ha, hh⟩ := hands_of_result hr
      exact ⟨s', ⟨8, out⟩, by simp [physStep, h], ⟨hintOk_iff.mpr hl, rfl, ha, hh⟩⟩
  | alloc32 =>
      obtain ⟨s', out, h, hr, hl, _⟩ := alloc32_spec hs'
      obtain ⟨ha, hh⟩ := hands_of_result hr
      exact ⟨s', ⟨32, out⟩, by simp [physStep, h], ⟨hintOk_iff.mpr hl, rfl, ha, hh⟩⟩
  | construct =>
      have hempty : (Grant.mk 0 0).block = ∅ := by
        ext p
        simp [Grant.block]
      refine ⟨construct s, ⟨0, 0⟩, rfl, ⟨by simp [HintOk, construct, numPages], rfl,
        fun h => absurd rfl h, ?_, Set.Subset.rfl, ?_⟩⟩
      · rw [hempty]
        exact Set.empty_disjoint _
      · rw [hempty]
        exact Set.empty_subset _

theorem answers_of_step {s s' : PhysMemAllocator} {c : PhysCall} {g : Grant} (hs : HintOk s)
    (h : physStep s c = some (s', g)) : Answers s c s' g := by
  obtain ⟨s'', g', h', ha⟩ := physStep_answers hs c
  rw [h] at h'
  cases h'
  exact ha

/-- Every run is answered. -/
theorem physRun_total {s : PhysMemAllocator} (hs : HintOk s) (cs : List PhysCall) :
    ∃ t gs, physRun s cs = some (t, gs) := by
  have hstep : ∀ u c, HintOk u → True → ∃ u' g, physStep u c = some (u', g) ∧ HintOk u' := by
    intro u c hu _
    obtain ⟨u', g, h, ha⟩ := physStep_answers hu c
    exact ⟨u', g, h, ha.hint⟩
  obtain ⟨t, gs, h, _⟩ := Exec.run_total HintOk (fun _ => True) hstep hs fun c (_ : c ∈ cs) => trivial
  exact ⟨t, gs, h⟩

/-- The answers of a run have the sizes asked for, and the non-null ones are aligned. -/
theorem physRun_shape {s t : PhysMemAllocator} {cs : List PhysCall} {gs : List Grant}
    (hs : HintOk s) (h : physRun s cs = some (t, gs)) :
    List.Forall₂ (fun c g => g.frames = PhysCall.frames c ∧ (g.addr ≠ 0 → g.Aligned)) cs gs := by
  refine Exec.run_forall₂ HintOk _ (fun u c u' g hu hstep => ?_) hs h
  have ha := answers_of_step hu hstep
  exact ⟨ha.hint, ha.size, ha.aligned⟩

/-- The blocks of a run are disjoint, were free at its start and are taken at its end. -/
theorem physRun_hands {s t : PhysMemAllocator} {cs : List PhysCall} {gs : List Grant}
    (hs : HintOk s) (h : physRun s cs = some (t, gs)) :
    gs.Pairwise (fun g g' => Disjoint g.block g'.block) ∧
      (∀ g ∈ gs, Disjoint g.block (takenFrames s) ∧ g.block ⊆ takenFrames t) ∧
      takenFrames s ⊆ takenFrames t := by
  refine Exec.run_hands HintOk (fun u c u' g hu hstep => ?_) hs h
  have ha := answers_of_step hu hstep
  exact ⟨ha.hint, ha.hands⟩

theorem free_of_disjoint {s : PhysMemAllocator} {g : Grant} (h : Disjoint g.block (takenFrames s))
    {p : Nat} (hp : p ∈ g.block) : frameBit s p = false := by
  have hfree : p ∉ takenFrames s := Set.disjoint_left.mp h hp
  rw [← Bool.not_eq_true]
  exact hfree

/-- A frame of an aligned non-null block is a frame other than the first. -/
theorem Grant.Aligned.frame {g : Grant} (h : g.Aligned) {p : Nat} (hp : p ∈ g.block) :
    0 < p ∧ p < 2 ^ 20 := by
  obtain ⟨h0, h1, h2⟩ := hp
  obtain ⟨hmod, hle⟩ := h
  have hpage : g.addr % 4096 = 0 :=
    Nat.mod_eq_zero_of_dvd ((Nat.dvd_mul_right _ _).trans (Nat.dvd_of_mod_eq_zero hmod))
  simp only [pageSize] at h1 h2 hle
  omega

/-- The frames a run hands out were free at its start. -/
theorem physRun_fresh {s t : PhysMemAllocator} {cs : List PhysCall} {gs : List Grant}
    (hs : HintOk s) (h : physRun s cs = some (t, gs)) {g : Grant} (hg : g ∈ gs) {p : Nat}
    (hp : p ∈ g.block) : frameBit s p = false ∧ 0 < p ∧ p < 2 ^ 20 := by
  obtain ⟨_, hblk, _⟩ := physRun_hands hs h
  refine ⟨free_of_disjoint (hblk g hg).1 hp, ?_⟩
  obtain ⟨_, _, _, hal⟩ := Exec.exists_call (physRun_shape hs h) hg
  exact (hal hp.1).frame hp

/-- **Frames are never handed out twice.** From any bitmap and any hint below `NUM_PAGES`, every
    sequence of calls is answered, and the blocks of its non-null answers have the size asked for,
    are aligned to it, are pairwise disjoint, were free in the initial bitmap and are taken in the
    state reached, whatever calls came after them. -/
theorem physRun_frames (s : PhysMemAllocator) (hs : s.lastAlloc < numPages)
    (cs : List PhysCall) :
    ∃ t gs, physRun s cs = some (t, gs) ∧
      List.Forall₂ (fun c g => g.frames = PhysCall.frames c ∧ (g.addr ≠ 0 → g.Aligned)) cs gs ∧
      gs.Pairwise (fun g g' => Disjoint g.block g'.block) ∧
      (∀ g ∈ gs, ∀ p ∈ g.block, frameBit s p = false ∧ frameBit t p = true) ∧
      ∀ p, frameBit s p = true → frameBit t p = true := by
  obtain ⟨t, gs, h⟩ := physRun_total hs cs
  obtain ⟨hpw, hblk, hkept⟩ := physRun_hands hs h
  exact ⟨t, gs, h, physRun_shape hs h, hpw,
    fun g hg p hp => ⟨free_of_disjoint (hblk g hg).1 hp, (hblk g hg).2 hp⟩, fun p hp => hkept hp⟩

/-- A run on the empty bitmap with the hint in the middle and a reset in between. -/
theorem physRun_frames_mixed :
    ∃ t gs, physRun ⟨fun _ => 0, 4096⟩ [.alloc32, .alloc1, .construct, .alloc8, .alloc1] =
        some (t, gs) ∧
      List.Forall₂ (fun c g => g.frames = PhysCall.frames c ∧ (g.addr ≠ 0 → g.Aligned))
        [.alloc32, .alloc1, .construct, .alloc8, .alloc1] gs ∧
      gs.Pairwise (fun g g' => Disjoint g.block g'.block) ∧
      (∀ g ∈ gs, ∀ p ∈ g.block, frameBit ⟨fun _ => 0, 4096⟩ p = false ∧ frameBit t p = true) ∧
      ∀ p, frameBit ⟨fun _ => 0, 4096⟩ p = true → frameBit t p = true :=
  physRun_frames ⟨fun _ => 0, 4096⟩ (by decide)
    [.alloc32, .alloc1, .construct, .alloc8, .alloc1]

end OsPlayground.PhysMem
