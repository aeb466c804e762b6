/-
  File:      OsPlayground/PhysMem/Leaks.lean
  Subject:   WHEN AN ALLOCATION CHANGES ONLY THE BLOCK IT RETURNS.

  The address of block 0 is the null one. An attempt that takes it looks like a failure to the scan,
  which goes on, and the block stays taken with nobody holding it.

  * `scan_ahead` -- a scan that begins past block 0 takes the block it returns and no other, or
    changes nothing;
  * `scan_zero`, `allocWith_takes_zero` -- a scan from byte 0 with block 0 free leaves frame 0 taken,
    and so does a call that finds nothing past it;
  * `allocWith_leaks_iff` -- so a call leaks nothing exactly when block 0 is occupied, or the hint
    is past it and a block is free from there on;
  * `alloc_leaksNothing_iff` -- the three calls, for every bitmap and every hint.
-/
import OsPlayground.PhysMem.Complete

namespace OsPlayground.PhysMem

/-- **The call leaks nothing**: it answers, the frames of the block returned turn from free to
    taken, and no other bit changes. A null answer has no frames. -/
def LeaksNothing (n : Nat) (alloc : PhysMemAllocator → Option (PhysMemAllocator × Nat))
    (s : PhysMemAllocator) : Prop :=
  ∃ s' out, alloc s = some (s', out) ∧ ∀ p,
    (p ∈ (Grant.mk n out).block → frameBit s p = false ∧ frameBit s' p = true) ∧
    (p ∉ (Grant.mk n out).block → frameBit s' p = frameBit s p)

/-- A block is free from the hint on, the hint rounded down to where the scan begins: to a
    multiple of `m` frames. -/
def FreeAhead (n m : Nat) (s : PhysMemAllocator) : Prop :=
  ∃ f, f % n = 0 ∧ f + n ≤ numPages ∧ s.lastAlloc / m ≤ f / m ∧ ¬ Occupied n s f

theorem TakesBlock.not_occupied {n f : Nat} {s s' : PhysMemAllocator} (h : TakesBlock n s s' f) :
    ¬ Occupied n s f := by
  intro hocc
  obtain ⟨p, h1, h2, hp⟩ := hocc
  rw [h.free p h1 h2] at hp
  cases hp

theorem Granted.mono {n out : Nat} {s s' : PhysMemAllocator} (h : Granted n s s' out) {p : Nat}
    (hp : frameBit s p = true) : frameBit s' p = true := by
  obtain ⟨s₁, f, hl, ht, _, _⟩ := h
  exact ht.mono (hl.mono hp)

/-- The frames of the answer 4096 * f. -/
theorem grant_block {n f out : Nat} (h0 : f ≠ 0) (hout : out = 4096 * f) (p : Nat) :
    p ∈ (Grant.mk n out).block ↔ f ≤ p ∧ p < f + n := by
  have hne : out ≠ 0 := by omega
  have hdiv : out / pageSize = f := by
    rw [hout]
    exact Nat.mul_div_cancel_left f (by decide)
  show out ≠ 0 ∧ out / pageSize ≤ p ∧ p < out / pageSize + n ↔ _
  rw [hdiv]
  exact and_iff_right hne

/-- A call that takes the block it returns, and nothing before that, leaks nothing. -/
theorem leaksNothing_of_takes {n f out : Nat} {s s' : PhysMemAllocator}
    {alloc : PhysMemAllocator → Option (PhysMemAllocator × Nat)} (h : alloc s = some (s', out))
    (ht : TakesBlock n s s' f) (h0 : f ≠ 0) (hout : out = 4096 * f) : LeaksNothing n alloc s := by
  refine ⟨s', out, h, fun p => ?_⟩
  rw [grant_block h0 hout]
  refine ⟨fun hp => ⟨ht.free p hp.1 hp.2, ht.taken hp.1 hp.2⟩, fun hp => ?_⟩
  rw [ht.bits, decide_eq_false hp, Bool.or_false]

/-- A null answer that changes nothing leaks nothing. -/
theorem leaksNothing_of_null {n : Nat} {s : PhysMemAllocator}
    {alloc : PhysMemAllocator → Option (PhysMemAllocator × Nat)} (h : alloc s = some (s, 0)) :
    LeaksNothing n alloc s :=
  ⟨s, 0, h, fun _ => ⟨fun hp => absurd rfl hp.1, fun _ => rfl⟩⟩

/-- Only the call in this state matters. -/
theorem leaksNothing_congr {n : Nat} {s : PhysMemAllocator}
    {alloc alloc' : PhysMemAllocator → Option (PhysMemAllocator × Nat)} (h : alloc s = alloc' s) :
    LeaksNothing n alloc s ↔ LeaksNothing n alloc' s := by
  unfold LeaksNothing
  rw [h]

/-! ## 1. Scans -/

section Scan

variable {n stride : Nat} {tryAlloc : PhysMemAllocator → Nat → PhysMemAllocator × Nat}
  {bound : PhysMemAllocator → Nat} {s : PhysMemAllocator}

/-- **A scan that begins past block 0**: it takes a block and returns its address, or changes
    nothing, and then every block from its start on is occupied. -/
theorem scan_ahead (G : Granular n stride tryAlloc) {start : Nat} (hpos : 0 < start)
    (hstart : start % stride = 0) :
    (∃ s' f, scan (fun _ => bitmapBytes) stride tryAlloc start s = some (s', 4096 * f) ∧
      TakesBlock n s s' f ∧ start ≤ f / 8) ∨
    (scan (fun _ => bitmapBytes) stride tryAlloc start s = some (s, 0) ∧
      ∀ f, f % n = 0 → f + n ≤ numPages → start ≤ f / 8 → Occupied n s f) := by
  have hbytes : bitmapBytes = 0x20000 := by decide
  have hpages : numPages = 0x100000 := by decide
  have h : ∃ r, FuelLoop.run (scanStep (fun _ => bitmapBytes) stride tryAlloc) (bitmapBytes + 1)
      (start, s) = some r ∧
      ((∃ f, r.2 = 4096 * f ∧ TakesBlock n s r.1 f ∧ start ≤ f / 8) ∨
        (r = (s, 0) ∧ ∀ f, f % n = 0 → f + n ≤ numPages → start ≤ f / 8 → Occupied n s f)) := by
    refine FuelLoop.run_passes
      (fun x => x.2 = s ∧ start ≤ x.1 ∧ x.1 % stride = 0 ∧
        ∀ f, f % n = 0 → start ≤ f / 8 → f / 8 < x.1 → Occupied n s f) _
      (fun x => bitmapBytes - x.1) ?_ ⟨rfl, Nat.le_refl _, hstart, ?_⟩ (by omega)
    · intro x hI
      obtain ⟨i, u⟩ := x
      obtain ⟨hu, hi, halign, hocc⟩ := hI
      dsimp only at hu hi halign hocc
      subst hu
      by_cases hb : i < bitmapBytes
      · rcases G.attempt u i (by omega) halign with ⟨f, hf, ht, hout⟩ | ⟨he, hno⟩
        · -- a free block that starts past byte 0 has an address
          exact Or.inr ⟨_, scanStep_found hb (by omega), Or.inl ⟨f, hout, ht, by omega⟩⟩
        · have hgo : scanStep (fun _ => bitmapBytes) stride tryAlloc (i, u) =
              .inl (i + stride, u) := by
            rw [scanStep_go hb (by rw [he]), he]
          refine Or.inl ⟨_, hgo, ⟨rfl, by dsimp only; omega, ?_, ?_⟩, ?_⟩
          · dsimp only
            rw [Nat.add_mod_right]
            exact halign
          · intro f hfn hs hlt
            rcases G.next halign hfn hlt with h | h
            · exact hocc f hfn hs h
            · exact hno f hfn h
          · have := G.spos
            dsimp only
            omega
      · refine Or.inr ⟨_, scanStep_end hb, Or.inr ⟨rfl, fun f hfn hin hs => ?_⟩⟩
        have := G.npos
        exact hocc f hfn hs (by omega)
    · intro f _ hs hlt
      exact absurd hlt (Nat.not_lt.mpr hs)
  obtain ⟨r, hrun, hr⟩ := h
  rcases hr with ⟨f, hout, ht, hf⟩ | ⟨rfl, hocc⟩
  · refine Or.inl ⟨r.1, f, ?_, ht, hf⟩
    rw [← hout]
    exact hrun
  · exact Or.inr ⟨hrun, hocc⟩

/-- An attempt keeps the hint a frame, and frame 0 taken. -/
theorem attempt_keeps (G : Granular n stride tryAlloc) {i : Nat} (hi : i < 2 ^ 17)
    (halign : i % stride = 0) (hs : s.lastAlloc < 2 ^ 20) (hbit : frameBit s 0 = true) :
    (tryAlloc s i).1.lastAlloc < 2 ^ 20 ∧ frameBit (tryAlloc s i).1 0 = true := by
  rcases G.attempt s i hi halign with ⟨f, _, ht, _⟩ | ⟨he, _⟩
  · have := ht.inRange
    have := G.npos
    exact ⟨by rw [ht.hint]; omega, ht.mono hbit⟩
  · rw [he]
    exact ⟨hs, hbit⟩

/-- **A scan from byte 0 takes block 0 where it is free**, whatever it returns in the end. -/
theorem scan_zero (G : Granular n stride tryAlloc)
    (hbound : ∀ s, s.lastAlloc < 2 ^ 20 → bound s ≤ 2 ^ 17) (hpos : 0 < bound s)
    (htake : TakesBlock n s (tryAlloc s 0).1 0) (hnull : (tryAlloc s 0).2 = 0)
    {s' : PhysMemAllocator} {out : Nat} (h : scan bound stride tryAlloc 0 s = some (s', out)) :
    frameBit s' 0 = true := by
  have hn := G.npos
  have hgo : scanStep bound stride tryAlloc (0, s) = .inl (0 + stride, (tryAlloc s 0).1) :=
    scanStep_go hpos hnull
  have hrest : FuelLoop.run (scanStep bound stride tryAlloc) bitmapBytes
      (0 + stride, (tryAlloc s 0).1) = some (s', out) := by
    rw [← FuelLoop.run_go hgo]
    exact h
  -- every pass after the first keeps frame 0 taken
  refine FuelLoop.run_post
    (fun x => x.1 % stride = 0 ∧ x.2.lastAlloc < 2 ^ 20 ∧ frameBit x.2 0 = true)
    (fun r => frameBit r.1 0 = true) ?_ ?_ ⟨?_, ?_, htake.taken (Nat.le_refl 0) (by omega)⟩ hrest
  · intro x x' hI hgo'
    obtain ⟨i, u⟩ := x
    obtain ⟨halign, hhint, hbit⟩ := hI
    dsimp only at halign hhint hbit
    by_cases hb : i < bound u
    · obtain ⟨hhint', hbit'⟩ :=
        attempt_keeps G (Nat.lt_of_lt_of_le hb (hbound u hhint)) halign hhint hbit
      by_cases h0 : (tryAlloc u i).2 = 0
      · rw [scanStep_go hb h0] at hgo'
        cases hgo'
        exact ⟨by dsimp only; rw [Nat.add_mod_right]; exact halign, hhint', hbit'⟩
      · rw [scanStep_found hb h0] at hgo'
        cases hgo'
    · rw [scanStep_end hb] at hgo'
      cases hgo'
  · intro x r hI hstop
    obtain ⟨i, u⟩ := x
    obtain ⟨halign, hhint, hbit⟩ := hI
    dsimp only at halign hhint hbit
    by_cases hb : i < bound u
    · by_cases h0 : (tryAlloc u i).2 = 0
      · rw [scanStep_go hb h0] at hstop
        cases hstop
      · rw [scanStep_found hb h0] at hstop
        cases hstop
        exact (attempt_keeps G (Nat.lt_of_lt_of_le hb (hbound u hhint)) halign hhint hbit).2
    · rw [scanStep_end hb] at hstop
      cases hstop
      exact hbit
  · rw [Nat.zero_add]
    exact Nat.mod_self stride
  · rw [htake.hint]
    omega

/-! ## 2. Calls -/

/-- **A call that finds nothing past block 0** while block 0 is free takes it, whatever it
    returns. -/
theorem allocWith_takes_zero (G : Granular n stride tryAlloc)
    (hbound : ∀ s, s.lastAlloc < 2 ^ 20 → bound s ≤ 2 ^ 17) {start : Nat}
    (hstart : start % stride = 0) (hs : s.lastAlloc < 2 ^ 20) (hbs : bound s = start)
    (htake : TakesBlock n s (tryAlloc s 0).1 0) (hnull : (tryAlloc s 0).2 = 0)
    (hahead : ¬ (0 < start ∧
      ∃ f, f % n = 0 ∧ f + n ≤ numPages ∧ start ≤ f / 8 ∧ ¬ Occupied n s f))
    {s' : PhysMemAllocator} {out : Nat}
    (halloc : allocWith bound stride tryAlloc start s = some (s', out)) :
    frameBit s' 0 = true := by
  unfold allocWith at halloc
  by_cases hstart0 : start = 0
  · -- the first scan takes it, and the second one keeps it
    subst hstart0
    obtain ⟨s₁, out₁, hscan, hr⟩ := scan_spec (fun _ => bitmapBytes) G
      (fun _ _ => by simp only [bitmapBytes, numPages]; omega) hstart hs
    have h1 := scan_zero G (fun _ _ => by simp only [bitmapBytes, numPages]; omega)
      (by decide) htake hnull hscan
    rw [hscan] at halloc
    dsimp only at halloc
    split_ifs at halloc with hne
    · cases halloc
      exact h1
    · have hhint : s₁.lastAlloc < 2 ^ 20 := by
        rcases hr with ⟨hne', _⟩ | ⟨_, _, hhint, _⟩
        · exact absurd hne' hne
        · exact hhint
      obtain ⟨s₂, out₂, hscan₂, hr₂⟩ := scan_spec bound G hbound (Nat.zero_mod stride) hhint
      rw [hscan₂] at halloc
      cases halloc
      rcases hr₂ with ⟨_, hg⟩ | ⟨_, hl, _⟩
      · exact hg.mono h1
      · exact hl.mono h1
  · -- the first scan changes nothing, and the second one takes it
    rcases scan_ahead (s := s) G (Nat.pos_of_ne_zero hstart0) hstart with
      ⟨s₁, f, _, ht, hf⟩ | ⟨hscan, _⟩
    · have hin : f + n ≤ numPages := ht.inRange
      exact absurd ⟨Nat.pos_of_ne_zero hstart0, f, ht.aligned, hin, hf, ht.not_occupied⟩ hahead
    · rw [hscan] at halloc
      dsimp only at halloc
      rw [if_neg (not_not.mpr rfl)] at halloc
      exact scan_zero G hbound (by omega) htake hnull halloc

/-- Where a call leaks nothing, block 0 is occupied or a block past it is found. -/
theorem ahead_of_leaksNothing (G : Granular n stride tryAlloc)
    (hbound : ∀ s, s.lastAlloc < 2 ^ 20 → bound s ≤ 2 ^ 17) {start : Nat}
    (hstart : start % stride = 0) (hs : s.lastAlloc < 2 ^ 20) (hbs : bound s = start)
    (hzero : ¬ Occupied n s 0 →
      TakesBlock n s (tryAlloc s 0).1 0 ∧ (tryAlloc s 0).2 = 0)
    (h : LeaksNothing n (allocWith bound stride tryAlloc start) s) :
    Occupied n s 0 ∨ (0 < start ∧
      ∃ f, f % n = 0 ∧ f + n ≤ numPages ∧ start ≤ f / 8 ∧ ¬ Occupied n s f) := by
  have hpos := G.npos
  by_contra hcon
  obtain ⟨hocc, hahead⟩ := not_or.mp hcon
  obtain ⟨htake, hnull⟩ := hzero hocc
  obtain ⟨s', out, halloc, hbits⟩ := h
  have h0 : frameBit s 0 = false := htake.free 0 (Nat.le_refl 0) (by omega)
  have htaken : frameBit s' 0 = true :=
    allocWith_takes_zero G hbound hstart hs hbs htake hnull hahead halloc
  -- but frame 0 is in no block returned
  have hmem : 0 ∈ (Grant.mk n out).block := by
    by_contra hno
    rw [(hbits 0).2 hno, h0] at htaken
    cases htaken
  obtain ⟨s₂, out₂, halloc₂, hr, _⟩ := allocWith_spec bound G hbound hstart hs
  rw [halloc] at halloc₂
  cases halloc₂
  rcases hr with ⟨_, hg⟩ | ⟨hz, _⟩
  · obtain ⟨_, f, _, _, hf0, hout⟩ := hg
    rw [grant_block hf0 hout] at hmem
    exact hf0 (Nat.le_zero.mp hmem.1)
  · exact hmem.1 hz

/-- With block 0 occupied no attempt takes it, so a call leaks nothing. -/
theorem leaksNothing_of_occupied (G : Granular n stride tryAlloc)
    (hbound : ∀ s, s.lastAlloc < 2 ^ 20 → bound s ≤ 2 ^ 17) {start : Nat}
    (hstart : start % stride = 0) (hs : s.lastAlloc < 2 ^ 20) (hocc : Occupied n s 0) :
    LeaksNothing n (allocWith bound stride tryAlloc start) s := by
  have hkeep : ∀ s₁, Leak n s s₁ → s₁ = s := by
    intro s₁ hl
    rcases hl with hl | hl
    · exact hl
    · exact absurd hocc hl.not_occupied
  obtain ⟨s', out, halloc, hr, _⟩ := allocWith_spec bound G hbound hstart hs
  rcases hr with ⟨_, s₁, f, hl, ht, hf0, hout⟩ | ⟨rfl, hl⟩
  · rw [hkeep s₁ hl] at ht
    exact leaksNothing_of_takes halloc ht hf0 hout
  · rw [hkeep s' hl] at halloc
    exact leaksNothing_of_null halloc

/-- A scan that begins past block 0 and finds a block there leaks nothing. -/
theorem leaksNothing_of_ahead (G : Granular n stride tryAlloc) {start : Nat}
    (hstart : start % stride = 0) (hpos : 0 < start) {f : Nat} (hf : f % n = 0)
    (hin : f + n ≤ numPages) (hahead : start ≤ f / 8) (hfree : ¬ Occupied n s f) :
    LeaksNothing n (allocWith bound stride tryAlloc start) s := by
  rcases scan_ahead (s := s) G hpos hstart with ⟨s', g, hscan, ht, hg⟩ | ⟨_, hocc⟩
  · have hg0 : g ≠ 0 := by omega
    have halloc : allocWith bound stride tryAlloc start s = some (s', 4096 * g) := by
      unfold allocWith
      rw [hscan]
      dsimp only
      rw [if_pos (by omega)]
    exact leaksNothing_of_takes halloc ht hg0 rfl
  · exact absurd (hocc f hf hin hahead) hfree

variable (bound) in
/-- **A call leaks nothing exactly** when block 0 is occupied, or its scan begins past block 0 and
    finds a block there. -/
theorem allocWith_leaks_iff (G : Granular n stride tryAlloc)
    (hbound : ∀ s, s.lastAlloc < 2 ^ 20 → bound s ≤ 2 ^ 17) {start : Nat}
    (hstart : start % stride = 0) (hs : s.lastAlloc < 2 ^ 20) (hbs : bound s = start)
    (hzero : ¬ Occupied n s 0 →
      TakesBlock n s (tryAlloc s 0).1 0 ∧ (tryAlloc s 0).2 = 0) :
    LeaksNothing n (allocWith bound stride tryAlloc start) s ↔
      Occupied n s 0 ∨ (0 < start ∧
        ∃ f, f % n = 0 ∧ f + n ≤ numPages ∧ start ≤ f / 8 ∧ ¬ Occupied n s f) := by
  refine ⟨ahead_of_leaksNothing G hbound hstart hs hbs hzero, fun h => ?_⟩
  rcases h with hocc | ⟨hpos, f, hf, hin, hahead, hfree⟩
  · exact leaksNothing_of_occupied G hbound hstart hs hocc
  · exact leaksNothing_of_ahead G hstart hpos hf hin hahead hfree

end Scan

/-! ## 3. The three calls -/

/-- With block 0 free the attempt at byte 0 takes it, and returns the null address. -/
theorem tryAlloc32_zero {s : PhysMemAllocator} (h : ¬ Occupied 32 s 0) :
    TakesBlock 32 s (tryAlloc32 s 0).1 0 ∧ (tryAlloc32 s 0).2 = 0 := by
  rcases attempt_tryAlloc32 s 0 (by decide) (by decide) with ⟨f, hf, ht, hout⟩ | ⟨_, hocc⟩
  · have hf0 : f = 0 := by
      have := ht.aligned
      omega
    subst hf0
    exact ⟨ht, hout⟩
  · exact absurd (hocc 0 (by decide) (by decide)) h

theorem alloc1_leaksNothing_iff {s : PhysMemAllocator} (hs : s.lastAlloc < 2 ^ 20) :
    LeaksNothing 1 alloc1 s ↔ Occupied 1 s 0 ∨ (8 ≤ s.lastAlloc ∧ FreeAhead 1 8 s) := by
  have hzero : ¬ Occupied 1 s 0 → TakesBlock 1 s (tryAlloc1 s 0).1 0 ∧ (tryAlloc1 s 0).2 = 0 := by
    intro h
    rw [occupied_one, Bool.not_eq_true] at h
    exact tryAlloc1_zero h
  have hpos : 0 < s.lastAlloc / 8 ↔ 8 ≤ s.lastAlloc := by omega
  have h := allocWith_leaks_iff (fun s => s.lastAlloc / 8) granular1 (fun _ => hint_le)
    (Nat.mod_one (s.lastAlloc / 8)) hs rfl hzero
  rw [hpos] at h
  exact (leaksNothing_congr rfl).trans h

theorem alloc8_leaksNothing_iff {s : PhysMemAllocator} (hs : s.lastAlloc < 2 ^ 20) :
    LeaksNothing 8 alloc8 s ↔ Occupied 8 s 0 ∨ (8 ≤ s.lastAlloc ∧ FreeAhead 8 8 s) := by
  have hpos : 0 < s.lastAlloc / 8 ↔ 8 ≤ s.lastAlloc := by omega
  have h := allocWith_leaks_iff (fun s => s.lastAlloc / 8) granular8 (fun _ => hint_le)
    (Nat.mod_one (s.lastAlloc / 8)) hs rfl tryAlloc8_zero
  rw [hpos] at h
  exact (leaksNothing_congr rfl).trans h

/-- The scan of `alloc32` begins at the word of the hint. -/
theorem start32_pos {k : Nat} : 0 < k / 8 - k / 8 % b32 ↔ 32 ≤ k := by
  have hb32 : b32 = 4 := rfl
  rw [hb32]
  omega

theorem freeAhead32 {s : PhysMemAllocator} : (∃ f, f % 32 = 0 ∧ f + 32 ≤ numPages ∧
    s.lastAlloc / 8 - s.lastAlloc / 8 % b32 ≤ f / 8 ∧ ¬ Occupied 32 s f) ↔ FreeAhead 32 32 s := by
  have hb32 : b32 = 4 := rfl
  refine exists_congr fun f => ?_
  refine and_congr_right fun hf => and_congr_right fun _ => and_congr_left fun _ => ?_
  rw [hb32]
  omega

theorem alloc32_eq (s : PhysMemAllocator) : alloc32 s =
    allocWith (fun _ => s.lastAlloc / 8 - s.lastAlloc / 8 % b32) b32 tryAlloc32
      (s.lastAlloc / 8 - s.lastAlloc / 8 % b32) s := rfl

theorem alloc32_leaksNothing_iff {s : PhysMemAllocator} (hs : s.lastAlloc < 2 ^ 20) :
    LeaksNothing 32 alloc32 s ↔ Occupied 32 s 0 ∨ (32 ≤ s.lastAlloc ∧ FreeAhead 32 32 s) := by
  have hstart : (s.lastAlloc / 8 - s.lastAlloc / 8 % b32) % b32 = 0 := by
    have hb32 : b32 = 4 := rfl
    rw [hb32]
    omega
  have h := allocWith_leaks_iff (fun _ => s.lastAlloc / 8 - s.lastAlloc / 8 % b32) granular32
    (fun _ _ => by omega) hstart hs rfl tryAlloc32_zero
  rw [start32_pos, freeAhead32] at h
  rw [leaksNothing_congr (alloc32_eq s), h]

/-- **When an allocation leaks nothing**: each of the three calls, for every bitmap and every
    hint. -/
theorem alloc_leaksNothing_iff (s : PhysMemAllocator) (hs : HintOk s) :
    (LeaksNothing 1 alloc1 s ↔ Occupied 1 s 0 ∨ (8 ≤ s.lastAlloc ∧ FreeAhead 1 8 s)) ∧
      (LeaksNothing 8 alloc8 s ↔ Occupied 8 s 0 ∨ (8 ≤ s.lastAlloc ∧ FreeAhead 8 8 s)) ∧
      (LeaksNothing 32 alloc32 s ↔ Occupied 32 s 0 ∨ (32 ≤ s.lastAlloc ∧ FreeAhead 32 32 s)) := by
  have hs' := hintOk_iff.mp hs
  exact ⟨alloc1_leaksNothing_iff hs', alloc8_leaksNothing_iff hs', alloc32_leaksNothing_iff hs'⟩

/-- The bitmap of zeros, as it is before the memory map was read. -/
def allFree : PhysMemAllocator := ⟨fun _ => 0, 0⟩

theorem alloc_leaksNothing_allFree :
    (LeaksNothing 1 alloc1 allFree ↔
        Occupied 1 allFree 0 ∨ (8 ≤ allFree.lastAlloc ∧ FreeAhead 1 8 allFree)) ∧
      (LeaksNothing 8 alloc8 allFree ↔
        Occupied 8 allFree 0 ∨ (8 ≤ allFree.lastAlloc ∧ FreeAhead 8 8 allFree)) ∧
      (LeaksNothing 32 alloc32 allFree ↔
        Occupied 32 allFree 0 ∨ (32 ≤ allFree.lastAlloc ∧ FreeAhead 32 32 allFree)) :=
  alloc_leaksNothing_iff allFree (hintOk_iff.mpr (by decide))

/-- There each of the calls returns the second block, and keeps the first. -/
theorem not_leaksNothing_allFree : ¬ LeaksNothing 1 alloc1 allFree ∧
    ¬ LeaksNothing 8 alloc8 allFree ∧ ¬ LeaksNothing 32 alloc32 allFree := by
  have hs : allFree.lastAlloc < 2 ^ 20 := by decide
  have hfree : ∀ n, ¬ Occupied n allFree 0 := by
    intro n h
    obtain ⟨p, _, _, hp⟩ := h
    have h0 : frameBit allFree p = false := BitVec.getLsbD_zero
    rw [h0] at hp
    cases hp
  have hhint : ∀ k, 0 < k → ¬ k ≤ allFree.lastAlloc := fun k hk => Nat.not_le.mpr hk
  refine ⟨fun h => ?_, fun h => ?_, fun h => ?_⟩
  · exact ((alloc1_leaksNothing_iff hs).mp h).elim (hfree 1) fun h => hhint 8 (by decide) h.1
  · exact ((alloc8_leaksNothing_iff hs).mp h).elim (hfree 8) fun h => hhint 8 (by decide) h.1
  · exact ((alloc32_leaksNothing_iff hs).mp h).elim (hfree 32) fun h => hhint 32 (by decide) h.1

end OsPlayground.PhysMem
