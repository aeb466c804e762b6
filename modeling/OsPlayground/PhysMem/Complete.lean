/-
  File:      OsPlayground/PhysMem/Complete.lean
  Subject:   WHEN A NULL RESULT MEANS THAT MEMORY IS FULL.

  `alloc32` fails only when no block but block 0 is free. `alloc1` and `alloc8` can fail earlier:
  their second pass reads the hint again in its test, and taking block 0, whose address is the
  null one, sets the hint to 0 and ends the pass; and the pass of `alloc1` that takes frame 0
  leaves the rest of byte 0.

  * `run_occupied` -- a scan over occupied blocks changes nothing;
  * `allocWith_spurious`, `allocWith_spurious_zero` -- the two ways to fail early;
  * `alloc1_complete_iff`, `alloc8_complete_iff`, `alloc32_complete` -- the calls, each exactly.
-/
import OsPlayground.PhysMem.Frames

namespace OsPlayground.PhysMem

/-- A free block other than the one at physical address 0. -/
def OtherFree (n : Nat) (s : PhysMemAllocator) : Prop :=
  ∃ f, f ≠ 0 ∧ f % n = 0 ∧ f + n ≤ numPages ∧ ¬ Occupied n s f

/-- **The call is complete**: it answers, and null only if no other block than the one at
    address 0 was free. -/
def Complete (n : Nat) (alloc : PhysMemAllocator → Option (PhysMemAllocator × Nat))
    (s : PhysMemAllocator) : Prop :=
  ∃ s' out, alloc s = some (s', out) ∧ (out = 0 → ¬ OtherFree n s)

/-- A free block other than block 0 that starts in the hint's byte or after it. -/
def FreeFromHint (n : Nat) (s : PhysMemAllocator) : Prop :=
  ∃ f, f % n = 0 ∧ f + n ≤ numPages ∧ 8 ≤ f ∧ s.lastAlloc / 8 ≤ f / 8 ∧ ¬ Occupied n s f

theorem occupied_one {s : PhysMemAllocator} {p : Nat} : Occupied 1 s p ↔ frameBit s p = true := by
  constructor
  · intro ⟨q, h1, h2, hq⟩
    obtain rfl : q = p := by omega
    exact hq
  · intro h
    exact ⟨p, Nat.le_refl p, Nat.lt_succ_self p, h⟩

/-! ## 1. Scans that find nothing -/

section Scan

variable {tryAlloc : PhysMemAllocator → Nat → PhysMemAllocator × Nat}
  {bound : PhysMemAllocator → Nat} {s s₁ : PhysMemAllocator}

/-- A scan over indices whose attempts fail changes nothing. -/
theorem run_occupied {start fuel : Nat} (hb : bound s ≤ 2 ^ 17) (hf : 2 ^ 17 - start < fuel)
    (hocc : ∀ i, start ≤ i → i < bound s → tryAlloc s i = (s, 0)) :
    FuelLoop.run (scanStep bound 1 tryAlloc) fuel (start, s) = some (s, 0) := by
  have h : ∃ r, FuelLoop.run (scanStep bound 1 tryAlloc) fuel (start, s) = some r ∧
      r = (s, 0) := by
    refine FuelLoop.run_passes (fun x => x.2 = s ∧ start ≤ x.1) _ (fun x => 2 ^ 17 - x.1) ?_
      ⟨rfl, Nat.le_refl start⟩ hf
    intro x hI
    obtain ⟨i, u⟩ := x
    obtain ⟨hu, hi⟩ := hI
    dsimp only at hu hi
    subst hu
    by_cases hlt : i < bound u
    · have hnone := hocc i hi hlt
      have hgo : scanStep bound 1 tryAlloc (i, u) = .inl (i + 1, u) := by
        rw [scanStep_go hlt (by rw [hnone]), hnone]
      exact Or.inl ⟨_, hgo, ⟨rfl, Nat.le_succ_of_le hi⟩, by dsimp only; omega⟩
    · exact Or.inr ⟨_, scanStep_end hlt, rfl⟩
  obtain ⟨r, hr, rfl⟩ := h
  exact hr

/-- A scan from 0 whose first attempt takes block 0 goes on at 1. -/
theorem scan_leak (h0 : tryAlloc s 0 = (s₁, 0)) (hpos : 0 < bound s) (hb : bound s₁ ≤ 2 ^ 17)
    (hocc : ∀ i, 1 ≤ i → i < bound s₁ → tryAlloc s₁ i = (s₁, 0)) :
    scan bound 1 tryAlloc 0 s = some (s₁, 0) := by
  have hgo : scanStep bound 1 tryAlloc (0, s) = .inl (1, s₁) := by
    rw [scanStep_go hpos (by rw [h0]), h0]
  unfold scan
  rw [FuelLoop.run_go hgo]
  refine run_occupied hb ?_ hocc
  simp only [bitmapBytes, numPages]
  omega

/-- **The early end of the second pass**: nothing is free from the hint's byte on, block 0 is, and
    taking it moves the hint to 0. -/
theorem allocWith_spurious (h0 : tryAlloc s 0 = (s₁, 0)) (hhint : s₁.lastAlloc = 0)
    (hpos : 0 < s.lastAlloc / 8)
    (hocc : ∀ i, s.lastAlloc / 8 ≤ i → i < 2 ^ 17 → tryAlloc s i = (s, 0)) :
    allocWith (fun s => s.lastAlloc / 8) 1 tryAlloc (s.lastAlloc / 8) s = some (s₁, 0) := by
  have hbytes : bitmapBytes = 2 ^ 17 := by decide
  have hfirst : scan (fun _ => bitmapBytes) 1 tryAlloc (s.lastAlloc / 8) s = some (s, 0) := by
    unfold scan
    rw [hbytes]
    exact run_occupied (Nat.le_refl _) (by omega) hocc
  have hb : s₁.lastAlloc / 8 = 0 := by rw [hhint]
  have hsecond : scan (fun s => s.lastAlloc / 8) 1 tryAlloc 0 s = some (s₁, 0) := by
    refine scan_leak h0 hpos (by rw [hb]; exact Nat.zero_le _) fun i _ hi => ?_
    rw [hb] at hi
    exact absurd hi (Nat.not_lt_zero i)
  rw [allocWith, hfirst]
  exact hsecond

/-- **The rest of byte 0 is left**: the hint is in byte 0, the first attempt takes block 0, and no
    attempt after it succeeds. -/
theorem allocWith_spurious_zero (h0 : tryAlloc s 0 = (s₁, 0)) (hhint : s₁.lastAlloc = 0)
    (hzero : s.lastAlloc / 8 = 0)
    (hocc : ∀ i, 1 ≤ i → i < 2 ^ 17 → tryAlloc s₁ i = (s₁, 0)) :
    allocWith (fun s => s.lastAlloc / 8) 1 tryAlloc (s.lastAlloc / 8) s = some (s₁, 0) := by
  have hbytes : bitmapBytes = 2 ^ 17 := by decide
  have hfirst : scan (fun _ => bitmapBytes) 1 tryAlloc 0 s = some (s₁, 0) := by
    rw [hbytes]
    exact scan_leak h0 (by decide) (Nat.le_refl _) hocc
  have hb : s₁.lastAlloc / 8 = 0 := by rw [hhint]
  have hsecond : scan (fun s => s.lastAlloc / 8) 1 tryAlloc 0 s₁ = some (s₁, 0) := by
    unfold scan
    refine run_occupied (by rw [hb]; exact Nat.zero_le _) ?_ fun i _ hi => ?_
    · rw [hbytes]
      omega
    · rw [hb] at hi
      exact absurd hi (Nat.not_lt_zero i)
  rw [allocWith, hzero, hfirst]
  exact hsecond

end Scan

/-! ## 2. Single frames -/

/-- An attempt at a byte whose blocks are occupied fails. -/
theorem Attempt.fails {n : Nat} {tryAlloc : PhysMemAllocator → Nat → PhysMemAllocator × Nat}
    (ha : Attempt n 1 tryAlloc) {s : PhysMemAllocator} {i : Nat} (hi : i < 2 ^ 17)
    (hocc : ∀ f, f % n = 0 → f / 8 = i → f + n ≤ 2 ^ 20 → Occupied n s f) :
    tryAlloc s i = (s, 0) := by
  rcases ha s i hi (Nat.mod_one i) with ⟨f, hf, ht, _⟩ | ⟨he, _⟩
  · obtain ⟨p, h1, h2, hp⟩ := hocc f ht.aligned hf ht.inRange
    rw [ht.free p h1 h2] at hp
    cases hp
  · exact he

/-- With frame 0 free the attempt at byte 0 takes it, and returns the null address. -/
theorem tryAlloc1_zero {s : PhysMemAllocator} (h : frameBit s 0 = false) :
    TakesBlock 1 s (tryAlloc1 s 0).1 0 ∧ (tryAlloc1 s 0).2 = 0 := by
  have hne : s.memBitmap 0 ≠ 0xff#8 := by
    intro e
    simp only [frameBit, Bits.bit, Nat.zero_div, Nat.zero_mod, e] at h
    exact absurd h (by decide)
  obtain ⟨_, _, hlow⟩ := Bits.lowestClear_spec _ hne
  have hj : Bits.lowestClear (s.memBitmap 0) = 0 := by
    rcases Nat.eq_zero_or_pos (Bits.lowestClear (s.memBitmap 0)) with h0 | h0
    · exact h0
    · have hset := hlow 0 h0
      simp only [frameBit, Bits.bit, Nat.zero_div, Nat.zero_mod, hset] at h
      cases h
  rcases attempt_tryAlloc1 s 0 (by decide) (by decide) with ⟨f, hf, ht, hout⟩ | ⟨_, hocc⟩
  · have hlt : s.memBitmap 0 < 0xff#8 := by
      have h1 := (s.memBitmap 0).isLt
      have h2 : (s.memBitmap 0).toNat ≠ 255 := fun e => hne (BitVec.eq_of_toNat_eq e)
      show (s.memBitmap 0).toNat < 255
      omega
    have hlast : (tryAlloc1 s 0).1.lastAlloc = 0 := by
      simp only [tryAlloc1, if_pos hlt, hj]
    have hf0 : f = 0 := by
      rw [← ht.hint]
      exact hlast
    subst hf0
    exact ⟨ht, hout⟩
  · rw [occupied_one.mp (hocc 0 (by decide) (by decide))] at h
    cases h

/-- **`alloc1` is complete exactly** when frame 0 is taken, or a frame is free past byte 0 and
    from the hint's byte on, or no frame but frame 0 is free. -/
theorem alloc1_complete_iff {s : PhysMemAllocator} (hs : s.lastAlloc < 2 ^ 20) :
    Complete 1 alloc1 s ↔ frameBit s 0 = true ∨ FreeFromHint 1 s ∨ ¬ OtherFree 1 s := by
  constructor
  · intro ⟨s', out, halloc, hnull⟩
    by_contra hcon
    simp only [not_or, not_not] at hcon
    obtain ⟨h0, hno, hother⟩ := hcon
    rw [Bool.not_eq_true] at h0
    obtain ⟨ht, hout⟩ := tryAlloc1_zero h0
    have htry : tryAlloc1 s 0 = ((tryAlloc1 s 0).1, 0) := Prod.ext rfl hout
    have hocc : ∀ f, 8 ≤ f → s.lastAlloc / 8 ≤ f / 8 → f + 1 ≤ 2 ^ 20 → Occupied 1 s f := by
      intro f h8 hh hin
      by_contra hfree
      exact hno ⟨f, Nat.mod_one f, hin, h8, hh, hfree⟩
    have hfail : alloc1 s = some ((tryAlloc1 s 0).1, 0) := by
      rcases Nat.eq_zero_or_pos (s.lastAlloc / 8) with hz | hpos
      · refine allocWith_spurious_zero htry ht.hint hz fun i h1 hi => ?_
        refine attempt_tryAlloc1.fails hi fun f _ hf hin => ?_
        exact (hocc f (by omega) (by omega) hin).mono fun p hp => ht.mono hp
      · refine allocWith_spurious htry ht.hint hpos fun i hi hlt => ?_
        exact attempt_tryAlloc1.fails hlt fun f _ hf hin =>
          hocc f (by omega) (by omega) hin
    rw [hfail] at halloc
    cases halloc
    exact hnull rfl hother
  · intro h
    obtain ⟨s', out, halloc, _, _, hnull⟩ := alloc1_spec hs
    refine ⟨s', out, halloc, fun h0 => ?_⟩
    rcases hnull h0 with hall | ⟨ht, hfrom⟩
    · intro ⟨f, _, _, hin, hfree⟩
      exact hfree (occupied_one.mpr (hall f hin))
    · rcases h with h | ⟨f, _, hin, h8, hh, hfree⟩ | h
      · rw [ht.free 0 (Nat.le_refl 0) (by decide)] at h
        cases h
      · exact absurd (occupied_one.mpr (hfrom f hin h8 hh)) hfree
      · exact h

/-! ## 3. Blocks of eight -/

/-- With block 0 free the attempt at byte 0 takes it, and returns the null address. -/
theorem tryAlloc8_zero {s : PhysMemAllocator} (h : ¬ Occupied 8 s 0) :
    TakesBlock 8 s (tryAlloc8 s 0).1 0 ∧ (tryAlloc8 s 0).2 = 0 := by
  rcases attempt_tryAlloc8 s 0 (by decide) (by decide) with ⟨f, hf, ht, hout⟩ | ⟨_, hocc⟩
  · have hf0 : f = 0 := by
      have := ht.aligned
      omega
    subst hf0
    exact ⟨ht, hout⟩
  · exact absurd (hocc 0 (by decide) (by decide)) h

/-- **`alloc8` is complete exactly** when block 0 is occupied, or the hint is in byte 0, or a
    block is free from the hint's byte on, or no block but block 0 is free. -/
theorem alloc8_complete_iff {s : PhysMemAllocator} (hs : s.lastAlloc < 2 ^ 20) :
    Complete 8 alloc8 s ↔
      Occupied 8 s 0 ∨ s.lastAlloc < 8 ∨ FreeFromHint 8 s ∨ ¬ OtherFree 8 s := by
  constructor
  · intro ⟨s', out, halloc, hnull⟩
    by_contra hcon
    simp only [not_or, not_not, Nat.not_lt] at hcon
    obtain ⟨h0, h8, hno, hother⟩ := hcon
    obtain ⟨ht, hout⟩ := tryAlloc8_zero h0
    have htry : tryAlloc8 s 0 = ((tryAlloc8 s 0).1, 0) := Prod.ext rfl hout
    have hfail : alloc8 s = some ((tryAlloc8 s 0).1, 0) := by
      refine allocWith_spurious htry ht.hint (by omega) fun i hi hlt => ?_
      refine attempt_tryAlloc8.fails hlt fun f hf8 hf hin => ?_
      by_contra hfree
      exact hno ⟨f, hf8, hin, by omega, by omega, hfree⟩
    rw [hfail] at halloc
    cases halloc
    exact hnull rfl hother
  · intro h
    obtain ⟨s', out, halloc, _, _, hnull⟩ := alloc8_spec hs
    refine ⟨s', out, halloc, fun h0 => ?_⟩
    rcases hnull h0 with hall | ⟨ht, hfrom⟩
    · intro ⟨f, _, hf8, hin, hfree⟩
      exact hfree (hall f hf8 hin)
    · rcases h with ⟨p, h1, h2, hp⟩ | h | ⟨f, hf8, hin, h8, hh, hfree⟩ | h
      · rw [ht.free p h1 h2] at hp
        cases hp
      · -- the first pass began at byte 0, so it passed every block
        intro ⟨f, hne, hf8, hin, hfree⟩
        exact hfree (hfrom f hne hf8 hin (by omega))
      · exact absurd (hfrom f (by omega) hf8 hin hh) hfree
      · exact h

/-! ## 4. Blocks of 32, and all three -/

/-- **`alloc32` is complete**, for every bitmap and every hint. -/
theorem alloc32_complete {s : PhysMemAllocator} (hs : s.lastAlloc < 2 ^ 20) :
    Complete 32 alloc32 s := by
  obtain ⟨s', out, halloc, _, _, hnull⟩ := alloc32_spec hs
  refine ⟨s', out, halloc, fun h0 => ?_⟩
  intro ⟨f, hne, hf, hin, hfree⟩
  exact hfree (hnull h0 f hne hf hin)

/-- **When a null result means that memory is full**, for each of the three calls, for every
    bitmap and every hint. -/
theorem alloc_complete (s : PhysMemAllocator) (hs : HintOk s) :
    (Complete 1 alloc1 s ↔ frameBit s 0 = true ∨ FreeFromHint 1 s ∨ ¬ OtherFree 1 s) ∧
      (Complete 8 alloc8 s ↔
        Occupied 8 s 0 ∨ s.lastAlloc < 8 ∨ FreeFromHint 8 s ∨ ¬ OtherFree 8 s) ∧
      Complete 32 alloc32 s := by
  have hs' := hintOk_iff.mp hs
  exact ⟨alloc1_complete_iff hs', alloc8_complete_iff hs', alloc32_complete hs'⟩

/-- A bitmap with all of the first two bytes free and nothing else, the hint in byte 2. -/
def lowFree : PhysMemAllocator := ⟨fun i => if i < 2 then 0 else 0xff, 16⟩

/-- The theorem at that bitmap. -/
theorem alloc_complete_lowFree :
    (Complete 1 alloc1 lowFree ↔
        frameBit lowFree 0 = true ∨ FreeFromHint 1 lowFree ∨ ¬ OtherFree 1 lowFree) ∧
      (Complete 8 alloc8 lowFree ↔
        Occupied 8 lowFree 0 ∨ lowFree.lastAlloc < 8 ∨ FreeFromHint 8 lowFree ∨
          ¬ OtherFree 8 lowFree) ∧
      Complete 32 alloc32 lowFree :=
  alloc_complete lowFree (hintOk_iff.mpr (by decide))

theorem lowFree_bit {p : Nat} (h : 16 ≤ p) : frameBit lowFree p = true := by
  have hlt : ¬ p / 8 < 2 := by omega
  simp only [frameBit, Bits.bit, lowFree, if_neg hlt]
  exact Bits.getLsbD_full (Nat.mod_lt _ (by decide))

theorem lowFree_free {p : Nat} (h : p < 16) : frameBit lowFree p = false := by
  have hlt : p / 8 < 2 := by omega
  simp only [frameBit, Bits.bit, lowFree, if_pos hlt]
  exact BitVec.getLsbD_zero

/-- There frames 1 to 15 are free, `alloc1` and `alloc8` fail. -/
theorem not_complete_lowFree : ¬ Complete 1 alloc1 lowFree ∧ ¬ Complete 8 alloc8 lowFree := by
  have hs : lowFree.lastAlloc < 2 ^ 20 := by decide
  have hhint : lowFree.lastAlloc / 8 = 2 := by decide
  have hother : ∀ n f, 0 < f → f % n = 0 → f + n ≤ 16 → OtherFree n lowFree := by
    intro n f h0 hf hin
    refine ⟨f, by omega, hf, by simp only [numPages]; omega, fun hp => ?_⟩
    obtain ⟨p, h1, h2, hp⟩ := hp
    rw [lowFree_free (by omega)] at hp
    cases hp
  have hno : ∀ n, 0 < n → ¬ FreeFromHint n lowFree := by
    intro n hn hf
    obtain ⟨f, _, _, _, hh, hfree⟩ := hf
    rw [hhint] at hh
    exact hfree ⟨f, Nat.le_refl f, by omega, lowFree_bit (by omega)⟩
  refine ⟨fun h => ?_, fun h => ?_⟩
  · rcases (alloc1_complete_iff hs).mp h with h | h | h
    · rw [lowFree_free (by decide)] at h
      cases h
    · exact hno 1 (by decide) h
    · exact h (hother 1 1 (by decide) (by decide) (by decide))
  · rcases (alloc8_complete_iff hs).mp h with ⟨p, _, h2, hp⟩ | h | h | h
    · rw [lowFree_free (by omega)] at hp
      cases hp
    · exact absurd h (by decide)
    · exact hno 8 (by decide) h
    · exact h (hother 8 8 (by decide) (by decide) (by decide))

end OsPlayground.PhysMem
