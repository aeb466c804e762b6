/-
  File:      OsPlayground/PhysMem/Blocks.lean
  Subject:   WHAT ONE ALLOCATION DOES, in terms of frames.

  * `TakesBlock n s s' f` -- the aligned block of `n` frames at `f` was free in `s`, and `s'`
    differs from `s` by its bits and the hint;
  * `Attempt n` -- the contract the three attempts share at their own granularity: the bit view,
    the byte view and the word view of the bitmap agree (`attempt_tryAlloc1`,
    `attempt_tryAlloc8`, `attempt_tryAlloc32`);
  * `scan_spec` -- one scan under that contract: it ends, it hands out at most one block, and on a
    null result every block it passed has a frame that is taken. Block 0 is the exception: its
    address is the null one, so a scan takes it and goes on (`Leak`);
  * `alloc1_spec`, `alloc8_spec`, `alloc32_spec` -- the three calls, and what a null result means:
    for `alloc32`, whose second bound is fixed, that no block but block 0 was free; for `alloc1`,
    that no frame was, or that frame 0 was taken on the way.
-/
import OsPlayground.PhysMem.Alloc

namespace OsPlayground.PhysMem

/-- The bit of frame `p`. -/
def frameBit (s : PhysMemAllocator) (p : Nat) : Bool := Bits.bit s.memBitmap p

/-- **`s'` is `s` with the free block of `n` frames at `f` taken.** -/
structure TakesBlock (n : Nat) (s s' : PhysMemAllocator) (f : Nat) : Prop where
  aligned : f % n = 0
  inRange : f + n ≤ 2 ^ 20
  free : ∀ p, f ≤ p → p < f + n → frameBit s p = false
  bits : ∀ p, frameBit s' p = (frameBit s p || decide (f ≤ p ∧ p < f + n))
  hint : s'.lastAlloc = f

theorem TakesBlock.mono {n f : Nat} {s s' : PhysMemAllocator} (h : TakesBlock n s s' f) {p : Nat}
    (hp : frameBit s p = true) : frameBit s' p = true := by
  rw [h.bits, hp, Bool.true_or]

theorem TakesBlock.taken {n f : Nat} {s s' : PhysMemAllocator} (h : TakesBlock n s s' f) {p : Nat}
    (h1 : f ≤ p) (h2 : p < f + n) : frameBit s' p = true := by
  rw [h.bits, decide_eq_true ⟨h1, h2⟩, Bool.or_true]

/-- Some frame of the block of `n` at `f` is taken. -/
def Occupied (n : Nat) (s : PhysMemAllocator) (f : Nat) : Prop :=
  ∃ p, f ≤ p ∧ p < f + n ∧ frameBit s p = true

/-- **The contract of an attempt at byte `i`**: it takes a free block that starts in that byte and
    returns its address, or every block that starts there is occupied and nothing changes. -/
def Attempt (n stride : Nat) (tryAlloc : PhysMemAllocator → Nat → PhysMemAllocator × Nat) : Prop :=
  ∀ s i, i < 2 ^ 17 → i % stride = 0 →
    (∃ f, f / 8 = i ∧ TakesBlock n s (tryAlloc s i).1 f ∧ (tryAlloc s i).2 = 4096 * f) ∨
    (tryAlloc s i = (s, 0) ∧ ∀ f, f % n = 0 → f / 8 = i → Occupied n s f)

theorem bitToPageAddr_eq {f : Nat} (h : f < 2 ^ 20) : bitToPageAddr f = 4096 * f := by
  simp only [bitToPageAddr, pageAddrNbits, Nat.shiftLeft_eq]
  omega

/-! ## 1. The three attempts -/

/-- The bit view: one frame of byte `i`. -/
theorem attempt_tryAlloc1 : Attempt 1 1 tryAlloc1 := by
  intro s i hi _
  by_cases hb : s.memBitmap i < 0xff#8
  · left
    have hne : s.memBitmap i ≠ 0xff#8 := by
      intro e
      rw [e] at hb
      exact absurd hb (by decide)
    obtain ⟨hj, hclear, _⟩ := Bits.lowestClear_spec _ hne
    generalize hjdef : Bits.lowestClear (s.memBitmap i) = j at hj hclear
    have hdiv : (8 * i + j) / 8 = i := by omega
    have hmod : (8 * i + j) % 8 = j := by omega
    have he : tryAlloc1 s i = (⟨Function.update s.memBitmap i (s.memBitmap i ||| (1#8 <<< j)),
      8 * i + j⟩, bitToPageAddr (8 * i + j)) := by
      rw [← hjdef]
      exact if_pos hb
    rw [he]
    refine ⟨8 * i + j, hdiv, ⟨Nat.mod_one _, by omega, ?_, ?_, rfl⟩, bitToPageAddr_eq (by omega)⟩
    · intro p h1 h2
      obtain rfl : p = 8 * i + j := by omega
      simp only [frameBit, Bits.bit, hdiv, hmod, hclear]
    · intro p
      have h := Bits.bit_setBit s.memBitmap (8 * i + j) p
      simp only [Bits.setBit, hdiv, hmod] at h
      simp only [frameBit, h]
      congr 1
      exact decide_eq_decide.mpr ⟨fun e => by omega, fun e => by omega⟩
  · right
    have hfull : s.memBitmap i = 0xff#8 := by
      have h1 : ¬ (s.memBitmap i).toNat < 255 := hb
      have h2 := (s.memBitmap i).isLt
      exact BitVec.eq_of_toNat_eq (by simp only [BitVec.toNat_ofNat]; omega)
    refine ⟨if_neg hb, fun f _ hf => ⟨f, Nat.le_refl f, by omega, ?_⟩⟩
    simp only [frameBit, Bits.bit, hf, hfull]
    exact Bits.getLsbD_full (Nat.mod_lt _ (by decide))

/-- A byte is not zero: one of its frames is taken. -/
theorem byte_ne_zero {s : PhysMemAllocator} {i : Nat} (h : s.memBitmap i ≠ 0#8) :
    ∃ p, p / 8 = i ∧ frameBit s p = true := by
  rw [ne_eq, Bits.eq_zero_iff] at h
  push Not at h
  obtain ⟨j, hj, hbit⟩ := h
  refine ⟨8 * i + j, by omega, ?_⟩
  have hdiv : (8 * i + j) / 8 = i := by omega
  have hmod : (8 * i + j) % 8 = j := by omega
  simp only [frameBit, Bits.bit, hdiv, hmod]
  simpa using hbit

theorem frameBit_of_byte_zero {s : PhysMemAllocator} {p : Nat} (h : s.memBitmap (p / 8) = 0#8) :
    frameBit s p = false := by
  simp only [frameBit, Bits.bit, h, BitVec.getLsbD_zero]

/-- The byte view: the eight frames of byte `i`. -/
theorem attempt_tryAlloc8 : Attempt 8 1 tryAlloc8 := by
  intro s i hi _
  by_cases hb : s.memBitmap i = 0#8
  · left
    have he : tryAlloc8 s i = (⟨Function.update s.memBitmap i 0xff#8, 8 * i⟩,
      bitToPageAddr (8 * i)) := if_pos hb
    rw [he]
    refine ⟨8 * i, by omega, ⟨by omega, by omega, ?_, ?_, rfl⟩, bitToPageAddr_eq (by omega)⟩
    · intro p h1 h2
      obtain rfl : i = p / 8 := by omega
      exact frameBit_of_byte_zero hb
    · intro p
      simp only [frameBit, Bits.bit]
      by_cases hp : p / 8 = i
      · have hin : 8 * i ≤ p ∧ p < 8 * i + 8 := by omega
        rw [hp, Function.update_self, Bits.getLsbD_full (Nat.mod_lt _ (by decide)),
          decide_eq_true hin, Bool.or_true]
      · have hout : ¬ (8 * i ≤ p ∧ p < 8 * i + 8) := by omega
        rw [Function.update_of_ne hp, decide_eq_false hout, Bool.or_false]
  · right
    refine ⟨if_neg hb, fun f h8 hf => ?_⟩
    obtain ⟨p, hp, hbit⟩ := byte_ne_zero hb
    exact ⟨p, by omega, by omega, hbit⟩

/-- A word is zero when its four bytes are. -/
theorem word32_eq_zero (m : Nat → BitVec 8) (k : Nat) :
    word32 m k = 0#32 ↔ ∀ b, b / 4 = k → m b = 0#8 := by
  have hsplit : ∀ a b c d : BitVec 8, a ++ b ++ c ++ d = 0#32 ↔
      a = 0#8 ∧ b = 0#8 ∧ c = 0#8 ∧ d = 0#8 := by
    intro a b c d
    constructor
    · intro h
      have h' : (a ++ b ++ c ++ d).toNat = 0 := by rw [h]; rfl
      rw [BitVec.toNat_append, BitVec.toNat_append, BitVec.toNat_append] at h'
      simp only [Nat.shiftLeft_eq, Nat.or_eq_zero_iff, Nat.mul_eq_zero] at h'
      have hz : ∀ x : BitVec 8, x.toNat = 0 → x = 0#8 := fun x hx =>
        BitVec.eq_of_toNat_eq (by simpa using hx)
      exact ⟨hz a (by omega), hz b (by omega), hz c (by omega), hz d (by omega)⟩
    · intro hzero
      obtain ⟨rfl, rfl, rfl, rfl⟩ := hzero
      decide
  rw [word32, hsplit]
  constructor
  · intro hzero b hb
    obtain ⟨h3, h2, h1, h0⟩ := hzero
    obtain rfl | rfl | rfl | rfl : b = 4 * k ∨ b = 4 * k + 1 ∨ b = 4 * k + 2 ∨ b = 4 * k + 3 := by
      omega
    · exact h0
    · exact h1
    · exact h2
    · exact h3
  · intro h
    exact ⟨h _ (by omega), h _ (by omega), h _ (by omega), h _ (by omega)⟩

/-- A word of ones is four full bytes. -/
theorem extract_ones {r : Nat} (h : r < 4) : (0xffffffff#32).extractLsb' (8 * r) 8 = 0xff#8 := by
  revert r
  decide

/-- The word view: the 32 frames of the word at byte `i`. -/
theorem attempt_tryAlloc32 : Attempt 32 4 tryAlloc32 := by
  intro s i hi h4
  by_cases hb : word32 s.memBitmap (i / 4) = 0#32
  · left
    have he : tryAlloc32 s i = (⟨setWord32 s.memBitmap (i / 4) 0xffffffff#32, 8 * i⟩,
      bitToPageAddr (8 * i)) := if_pos hb
    rw [he]
    refine ⟨8 * i, by omega, ⟨by omega, by omega, ?_, ?_, rfl⟩, bitToPageAddr_eq (by omega)⟩
    · intro p h1 h2
      exact frameBit_of_byte_zero ((word32_eq_zero _ _).mp hb (p / 8) (by omega))
    · intro p
      simp only [frameBit, Bits.bit, setWord32]
      by_cases hp : p / 8 / 4 = i / 4
      · have hin : 8 * i ≤ p ∧ p < 8 * i + 32 := by omega
        rw [if_pos hp, extract_ones (Nat.mod_lt _ (by decide)),
          Bits.getLsbD_full (Nat.mod_lt _ (by decide)), decide_eq_true hin, Bool.or_true]
      · have hout : ¬ (8 * i ≤ p ∧ p < 8 * i + 32) := by omega
        rw [if_neg hp, decide_eq_false hout, Bool.or_false]
  · right
    refine ⟨if_neg hb, fun f h32 hf => ?_⟩
    rw [word32_eq_zero] at hb
    push Not at hb
    obtain ⟨b, hbi, hne⟩ := hb
    obtain ⟨p, hp, hbit⟩ := byte_ne_zero hne
    exact ⟨p, by omega, by omega, hbit⟩

/-! ## 2. A scan -/

/-- What a scan may change without a result: the block at frame 0 is taken, for its address is
    the null one. -/
def Leak (n : Nat) (s s' : PhysMemAllocator) : Prop := s' = s ∨ TakesBlock n s s' 0

/-- A block other than the one at frame 0 was taken and its address returned. -/
def Granted (n : Nat) (s s' : PhysMemAllocator) (out : Nat) : Prop :=
  ∃ s₁ f, Leak n s s₁ ∧ TakesBlock n s₁ s' f ∧ f ≠ 0 ∧ out = 4096 * f

/-- What the attempt and the stride of a scan have to do with the size of the block. -/
structure Granular (n stride : Nat)
    (tryAlloc : PhysMemAllocator → Nat → PhysMemAllocator × Nat) : Prop where
  attempt : Attempt n stride tryAlloc
  npos : 0 < n
  spos : 0 < stride
  starts : ∀ f, f % n = 0 → f / 8 % stride = 0

theorem granular1 : Granular 1 1 tryAlloc1 :=
  ⟨attempt_tryAlloc1, by decide, by decide, fun _ _ => Nat.mod_one _⟩

theorem granular8 : Granular 8 1 tryAlloc8 :=
  ⟨attempt_tryAlloc8, by decide, by decide, fun _ _ => Nat.mod_one _⟩

theorem granular32 : Granular 32 b32 tryAlloc32 :=
  ⟨attempt_tryAlloc32, by decide, by decide, fun f h => by simp only [b32]; omega⟩

/-- A block that starts before `i + stride` starts before `i` or in byte `i`. -/
theorem Granular.next {n stride : Nat}
    {tryAlloc : PhysMemAllocator → Nat → PhysMemAllocator × Nat}
    (G : Granular n stride tryAlloc) {i f : Nat} (hi : i % stride = 0) (hf : f % n = 0)
    (hlt : f / 8 < i + stride) : f / 8 < i ∨ f / 8 = i := by
  have hstart := G.starts f hf
  by_cases hle : f / 8 ≤ i
  · omega
  · have hd : stride ∣ f / 8 - i :=
      Nat.dvd_sub (Nat.dvd_of_mod_eq_zero hstart) (Nat.dvd_of_mod_eq_zero hi)
    have := Nat.le_of_dvd (by omega) hd
    omega

theorem Leak.mono {n : Nat} {s s' : PhysMemAllocator} (h : Leak n s s') {p : Nat}
    (hp : frameBit s p = true) : frameBit s' p = true := by
  rcases h with rfl | h
  · exact hp
  · exact h.mono hp

theorem Occupied.mono {n f : Nat} {s s' : PhysMemAllocator}
    (hm : ∀ p, frameBit s p = true → frameBit s' p = true) (h : Occupied n s f) :
    Occupied n s' f := by
  obtain ⟨p, h1, h2, hp⟩ := h
  exact ⟨p, h1, h2, hm p hp⟩

/-- Block 0 is taken at most once. -/
theorem Leak.trans {n : Nat} (hn : 0 < n) {s s' s'' : PhysMemAllocator} (h : Leak n s s')
    (h' : Leak n s' s'') : Leak n s s'' := by
  rcases h with rfl | h
  · exact h'
  · rcases h' with rfl | h'
    · exact Or.inr h
    · have h0 := h.taken (Nat.le_refl 0) (by omega)
      rw [h'.free 0 (Nat.le_refl 0) (by omega)] at h0
      exact absurd h0 Bool.false_ne_true

/-- Two scans that end where they began took nothing. -/
theorem Leak.eq_of_back {n : Nat} (hn : 0 < n) {s s' : PhysMemAllocator} (h : Leak n s s')
    (h' : Leak n s' s) : s' = s := by
  rcases h with rfl | h
  · rfl
  · have h0 := h'.mono (h.taken (Nat.le_refl 0) (by omega))
    rw [h.free 0 (Nat.le_refl 0) (by omega)] at h0
    exact absurd h0 Bool.false_ne_true

section Scan

variable {n stride : Nat} {tryAlloc : PhysMemAllocator → Nat → PhysMemAllocator × Nat}
  (bound : PhysMemAllocator → Nat)

/-- What holds before every pass of a scan that began at byte `start` in state `s₀`: nothing but
    block 0 was taken, and every block passed is occupied, up to one case: the pass that takes
    frame 0 alone goes on to the next byte, whatever the rest of byte 0 is. -/
structure ScanInv (n stride start : Nat) (s₀ : PhysMemAllocator)
    (x : Nat × PhysMemAllocator) : Prop where
  leak : Leak n s₀ x.2
  hint : x.2.lastAlloc < 2 ^ 20
  aligned : x.1 % stride = 0
  passed : ∀ f, 8 ≤ n ∨ x.2 = s₀ ∨ 8 ≤ f → f % n = 0 → start ≤ f / 8 → f / 8 < x.1 →
    Occupied n x.2 f

variable {bound} in
/-- A pass without a result goes on. -/
theorem scanStep_go {i : Nat} {s : PhysMemAllocator} (hb : i < bound s)
    (h0 : (tryAlloc s i).2 = 0) :
    scanStep bound stride tryAlloc (i, s) = .inl (i + stride, (tryAlloc s i).1) := by
  unfold scanStep
  dsimp only
  rw [if_pos hb, if_neg (not_not.mpr h0)]

variable {bound} in
/-- A pass with a result leaves with it. -/
theorem scanStep_found {i : Nat} {s : PhysMemAllocator} (hb : i < bound s)
    (hne : (tryAlloc s i).2 ≠ 0) :
    scanStep bound stride tryAlloc (i, s) = .inr (tryAlloc s i) := by
  unfold scanStep
  dsimp only
  rw [if_pos hb, if_pos hne]

variable {bound} in
/-- At the bound the scan is left without a result. -/
theorem scanStep_end {i : Nat} {s : PhysMemAllocator} (hb : ¬ i < bound s) :
    scanStep bound stride tryAlloc (i, s) = .inr (s, 0) := if_neg hb

/-- The invariant after a pass over byte `i` that found every block there occupied. -/
theorem ScanInv.occupied (G : Granular n stride tryAlloc) {start i : Nat} {s₀ s : PhysMemAllocator}
    (hI : ScanInv n stride start s₀ (i, s)) (hocc : ∀ f, f % n = 0 → f / 8 = i → Occupied n s f) :
    ScanInv n stride start s₀ (i + stride, s) := by
  refine ⟨hI.leak, hI.hint, ?_, fun f hn hfn hs hlt => ?_⟩
  · show (i + stride) % stride = 0
    rw [Nat.add_mod_right]
    exact hI.aligned
  · rcases G.next hI.aligned hfn hlt with h | h
    · exact hI.passed f hn hfn hs h
    · exact hocc f hfn h

/-- The invariant after block 0 was taken, which is taken for a failure. -/
theorem ScanInv.leaked (G : Granular n stride tryAlloc) {start i : Nat}
    {s₀ s s' : PhysMemAllocator} (hI : ScanInv n stride start s₀ (i, s)) (hi : i = 0)
    (ht : TakesBlock n s s' 0) : ScanInv n stride start s₀ (i + stride, s') := by
  have hpos := G.npos
  have h0 := ht.taken (Nat.le_refl 0) (by omega)
  refine ⟨hI.leak.trans hpos (Or.inr ht), ?_, ?_, fun f hn hfn hs hlt => ?_⟩
  · show s'.lastAlloc < 2 ^ 20
    rw [ht.hint]
    omega
  · show (i + stride) % stride = 0
    rw [Nat.add_mod_right]
    exact hI.aligned
  · -- taking block 0 is a change
    have hn : 8 ≤ n ∨ 8 ≤ f := by
      rcases hn with hn | heq | hf8
      · exact Or.inl hn
      · rw [show s' = s₀ from heq] at h0
        have h1 := hI.leak.mono h0
        rw [ht.free 0 (Nat.le_refl 0) (by omega)] at h1
        exact absurd h1 Bool.false_ne_true
      · exact Or.inr hf8
    rcases G.next hI.aligned hfn hlt with h | h
    · exact (hI.passed f (hn.imp_right Or.inr) hfn hs h).mono fun p hp => ht.mono hp
    · have h8 : f < 8 := by omega
      obtain rfl : f = 0 := by
        rw [Nat.mod_eq_of_lt (by omega)] at hfn
        exact hfn
      exact ⟨0, Nat.le_refl 0, by omega, h0⟩

/-- One pass keeps the invariant or leaves with a granted block. -/
theorem scanStep_spec (G : Granular n stride tryAlloc) {start : Nat} {s₀ : PhysMemAllocator}
    {i : Nat} {s : PhysMemAllocator} (hI : ScanInv n stride start s₀ (i, s)) (hi : i < 2 ^ 17)
    (hb : i < bound s) :
    (∃ s', scanStep bound stride tryAlloc (i, s) = .inl (i + stride, s') ∧
      ScanInv n stride start s₀ (i + stride, s')) ∨
    (∃ s' out, scanStep bound stride tryAlloc (i, s) = .inr (s', out) ∧ out ≠ 0 ∧
      Granted n s₀ s' out) := by
  rcases G.attempt s i hi hI.aligned with ⟨f, hf, ht, hout⟩ | ⟨he, hocc⟩
  · by_cases h0 : f = 0
    · subst h0
      exact Or.inl ⟨_, scanStep_go hb hout, hI.leaked G (by omega) ht⟩
    · have hne : (tryAlloc s i).2 ≠ 0 := by omega
      exact Or.inr ⟨_, _, scanStep_found hb hne, hne, s, f, hI.leak, ht, h0, hout⟩
  · have hgo : scanStep bound stride tryAlloc (i, s) = .inl (i + stride, s) := by
      rw [scanStep_go hb (by rw [he]), he]
    exact Or.inl ⟨s, hgo, hI.occupied G hocc⟩

/-- **What a scan leaves behind**: a granted block, or no result; then nothing but block 0 was
    taken, and every block the scan had to pass is occupied (see `ScanInv`). -/
def ScanResult (n : Nat) (bound : PhysMemAllocator → Nat) (start : Nat) (s s' : PhysMemAllocator)
    (out : Nat) : Prop :=
  (out ≠ 0 ∧ Granted n s s' out) ∨
  (out = 0 ∧ Leak n s s' ∧ s'.lastAlloc < 2 ^ 20 ∧
    ∀ f, 8 ≤ n ∨ s' = s ∨ 8 ≤ f → f % n = 0 → start ≤ f / 8 → f / 8 < bound s' → Occupied n s' f)

/-- **A scan ends**, and leaves what `ScanResult` says. -/
theorem scan_spec (G : Granular n stride tryAlloc)
    (hbound : ∀ s, s.lastAlloc < 2 ^ 20 → bound s ≤ 2 ^ 17) {start : Nat}
    (hstart : start % stride = 0) {s : PhysMemAllocator} (hs : s.lastAlloc < 2 ^ 20) :
    ∃ s' out, scan bound stride tryAlloc start s = some (s', out) ∧
      ScanResult n bound start s s' out := by
  have h : ∃ r, FuelLoop.run (scanStep bound stride tryAlloc) (bitmapBytes + 1) (start, s) = some r ∧
      ScanResult n bound start s r.1 r.2 := by
    refine FuelLoop.run_passes (ScanInv n stride start s) _ (fun x => 2 ^ 17 - x.1) ?_ ?_ ?_
    · intro x hI
      obtain ⟨i, u⟩ := x
      by_cases hb : i < bound u
      · have hi : i < 2 ^ 17 := Nat.lt_of_lt_of_le hb (hbound u hI.hint)
        rcases scanStep_spec bound G hI hi hb with ⟨v, hv, hI'⟩ | ⟨v, out, hv, hne, hg⟩
        · have := G.spos
          exact Or.inl ⟨_, hv, hI', by dsimp only; omega⟩
        · exact Or.inr ⟨_, hv, Or.inl ⟨hne, hg⟩⟩
      · refine Or.inr ⟨_, scanStep_end hb, Or.inr ⟨rfl, hI.leak, hI.hint, fun f hn hf h1 h2 => ?_⟩⟩
        exact hI.passed f hn hf h1 (Nat.lt_of_lt_of_le h2 (Nat.le_of_not_lt hb))
    · exact ⟨Or.inl rfl, hs, hstart, fun f _ _ h1 h2 => absurd h1 (Nat.not_le.mpr h2)⟩
    · simp only [bitmapBytes, numPages]
      omega
  obtain ⟨⟨s', out⟩, hrun, hpost⟩ := h
  exact ⟨s', out, hrun, hpost⟩

/-! ## 3. A call -/

/-- **What a call leaves behind**: a granted block, or a null result and at most block 0
    taken. -/
def AllocResult (n : Nat) (s s' : PhysMemAllocator) (out : Nat) : Prop :=
  (out ≠ 0 ∧ Granted n s s' out) ∨ (out = 0 ∧ Leak n s s')

theorem Granted.after {s s' s'' : PhysMemAllocator} {out : Nat} (hn : 0 < n) (hl : Leak n s s')
    (h : Granted n s' s'' out) : Granted n s s'' out := by
  obtain ⟨s₁, f, h1, h2, h3, h4⟩ := h
  exact ⟨s₁, f, hl.trans hn h1, h2, h3, h4⟩

/-- **The two scans of a call**: they end with `AllocResult`, the hint stays a frame, and after a
    null result every block either scan had to pass is occupied. -/
theorem allocWith_spec (G : Granular n stride tryAlloc)
    (hbound : ∀ s, s.lastAlloc < 2 ^ 20 → bound s ≤ 2 ^ 17) {start : Nat}
    (hstart : start % stride = 0) {s : PhysMemAllocator} (hs : s.lastAlloc < 2 ^ 20) :
    ∃ s' out, allocWith bound stride tryAlloc start s = some (s', out) ∧ AllocResult n s s' out ∧
      s'.lastAlloc < 2 ^ 20 ∧
      (out = 0 → ∀ f, 8 ≤ n ∨ s' = s ∨ 8 ≤ f → f % n = 0 → f + n ≤ 2 ^ 20 →
        start ≤ f / 8 ∨ f / 8 < bound s' → Occupied n s' f) := by
  have hgrant : ∀ {u u' out}, Granted n u u' out → u'.lastAlloc < 2 ^ 20 := by
    intro u u' out hgranted
    obtain ⟨_, f, _, ht, _, _⟩ := hgranted
    have h1 := ht.inRange
    have h2 := G.npos
    rw [ht.hint]
    omega
  obtain ⟨s₁, out₁, h1, hr1⟩ := scan_spec (fun _ => bitmapBytes) G
    (fun _ _ => by simp only [bitmapBytes, numPages]; omega) hstart hs
  rcases hr1 with ⟨hne, hg⟩ | ⟨rfl, hl1, hs1, hocc1⟩
  · refine ⟨s₁, out₁, by simp [allocWith, h1, hne], Or.inl ⟨hne, hg⟩, hgrant hg, fun h0 => ?_⟩
    exact absurd h0 hne
  · obtain ⟨s₂, out₂, h2, hr2⟩ := scan_spec bound G hbound (Nat.zero_mod stride) hs1
    have he : allocWith bound stride tryAlloc start s = some (s₂, out₂) := by
      simp [allocWith, h1, h2]
    rcases hr2 with ⟨hne, hg⟩ | ⟨rfl, hl2, hs2, hocc2⟩
    · exact ⟨s₂, out₂, he, Or.inl ⟨hne, hg.after G.npos hl1⟩, hgrant hg, fun h0 => absurd h0 hne⟩
    · refine ⟨s₂, 0, he, Or.inr ⟨rfl, hl1.trans G.npos hl2⟩, hs2, fun _ f hn hf hin hpos => ?_⟩
      -- with no change in all, neither scan made one
      have hback : s₂ = s → s₁ = s := fun heq => by
        rw [heq] at hl2
        exact hl1.eq_of_back G.npos hl2
      rcases hpos with hpos | hpos
      · have hlt : f / 8 < bitmapBytes := by
          have := G.npos
          simp only [bitmapBytes, numPages]
          omega
        have hn1 : 8 ≤ n ∨ s₁ = s ∨ 8 ≤ f := hn.imp_right fun h => h.imp_left hback
        exact (hocc1 f hn1 hf hpos hlt).mono fun p hp => hl2.mono hp
      · have hn2 : 8 ≤ n ∨ s₂ = s₁ ∨ 8 ≤ f :=
          hn.imp_right fun h => h.imp_left fun heq => heq.trans (hback heq).symm
        exact hocc2 f hn2 hf (Nat.zero_le _) hpos

end Scan

theorem hint_le {s : PhysMemAllocator} (hs : s.lastAlloc < 2 ^ 20) : s.lastAlloc / 8 ≤ 2 ^ 17 := by
  omega

/-- Before the call a frame that is taken after it was taken, unless it is frame 0. -/
theorem Leak.occupied_before {n f : Nat} {s s' : PhysMemAllocator} (hl : Leak n s s')
    (hnf : n ≤ f) (h : Occupied n s' f) : Occupied n s f := by
  obtain ⟨p, h1, h2, hp⟩ := h
  refine ⟨p, h1, h2, ?_⟩
  rcases hl with rfl | ht
  · exact hp
  · have hout : ¬ (0 ≤ p ∧ p < 0 + n) := by omega
    rw [ht.bits, decide_eq_false hout, Bool.or_false] at hp
    exact hp

/-- **A scan returns the first block it can**: every block before it that has an address was
    occupied. -/
theorem scan_first {n stride : Nat} {tryAlloc : PhysMemAllocator → Nat → PhysMemAllocator × Nat}
    {bound : PhysMemAllocator → Nat} (G : Granular n stride tryAlloc) (h8 : 8 ≤ n)
    (hbound : ∀ s, s.lastAlloc < 2 ^ 20 → bound s ≤ 2 ^ 17) {start : Nat}
    (hstart : start % stride = 0) {s s' : PhysMemAllocator} (hs : s.lastAlloc < 2 ^ 20) {out : Nat}
    (h : scan bound stride tryAlloc start s = some (s', out)) (hne : out ≠ 0) :
    ∃ f, out = 4096 * f ∧ start ≤ f / 8 ∧
      ∀ f', n ≤ f' → f' % n = 0 → start ≤ f' / 8 → f' / 8 < f / 8 → Occupied n s f' := by
  refine FuelLoop.run_post (fun x => ScanInv n stride start s x ∧ start ≤ x.1)
    (fun r => r.2 ≠ 0 → ∃ f, r.2 = 4096 * f ∧ start ≤ f / 8 ∧
      ∀ f', n ≤ f' → f' % n = 0 → start ≤ f' / 8 → f' / 8 < f / 8 → Occupied n s f')
    ?_ ?_ ⟨⟨Or.inl rfl, hs, hstart, fun f _ _ h1 h2 => absurd h1 (Nat.not_le.mpr h2)⟩,
      Nat.le_refl _⟩ h hne
  · intro x x' hI hgo
    obtain ⟨i, u⟩ := x
    obtain ⟨hI, hle⟩ := hI
    dsimp only at hle
    by_cases hb : i < bound u
    · have hi : i < 2 ^ 17 := Nat.lt_of_lt_of_le hb (hbound u hI.hint)
      rcases scanStep_spec bound G hI hi hb with ⟨v, hv, hI'⟩ | ⟨v, out, hv, _⟩
      · rw [hv] at hgo
        cases hgo
        exact ⟨hI', Nat.le_trans hle (Nat.le_add_right _ _)⟩
      · rw [hv] at hgo
        cases hgo
    · rw [scanStep_end hb] at hgo
      cases hgo
  · intro x r hI hstop hr
    obtain ⟨i, u⟩ := x
    obtain ⟨hI, hle⟩ := hI
    dsimp only at hle
    by_cases hb : i < bound u
    · by_cases h0 : (tryAlloc u i).2 = 0
      · rw [scanStep_go hb h0] at hstop
        cases hstop
      · rw [scanStep_found hb h0] at hstop
        cases hstop
        have hi : i < 2 ^ 17 := Nat.lt_of_lt_of_le hb (hbound u hI.hint)
        rcases G.attempt u i hi hI.aligned with ⟨f, hf, _, hout⟩ | ⟨he, _⟩
        · refine ⟨f, hout, by omega, fun f' hnf hfn hs' hlt => ?_⟩
          -- the scan has passed these
          exact hI.leak.occupied_before hnf (hI.passed f' (Or.inl h8) hfn hs' (by dsimp only; omega))
        · rw [he] at h0
          exact absurd rfl h0
    · rw [scanStep_end hb] at hstop
      cases hstop
      exact absurd rfl hr

/-- **`alloc1`** hands out at most one frame; a null result means that no frame was free, or that
    frame 0 was and has been taken, and then no frame past byte 0 and from the hint's byte on. -/
theorem alloc1_spec {s : PhysMemAllocator} (hs : s.lastAlloc < 2 ^ 20) :
    ∃ s' out, alloc1 s = some (s', out) ∧ AllocResult 1 s s' out ∧ s'.lastAlloc < 2 ^ 20 ∧
      (out = 0 → (∀ p < 2 ^ 20, frameBit s p = true) ∨
        (TakesBlock 1 s s' 0 ∧ ∀ p < 2 ^ 20, 8 ≤ p → s.lastAlloc / 8 ≤ p / 8 →
          frameBit s p = true)) := by
  obtain ⟨s', out, h, hr, hl, hocc⟩ := allocWith_spec (fun s => s.lastAlloc / 8) granular1
    (fun _ => hint_le) (Nat.mod_one (s.lastAlloc / 8)) hs
  refine ⟨s', out, h, hr, hl, fun h0 => ?_⟩
  rcases hr with ⟨hne, _⟩ | ⟨_, rfl | ht⟩
  · exact absurd h0 hne
  · left
    intro p hp
    obtain ⟨q, h1, h2, hq⟩ := hocc h0 p (Or.inr (Or.inl rfl)) (Nat.mod_one p) (by omega)
      (Nat.lt_or_ge _ _).symm
    obtain rfl : q = p := by omega
    exact hq
  · refine Or.inr ⟨ht, fun p hp h8 hhint => ?_⟩
    have hafter := hocc h0 p (Or.inr (Or.inr h8)) (Nat.mod_one p) (by omega) (Or.inl hhint)
    obtain ⟨q, h1, h2, hq⟩ := Leak.occupied_before (Or.inr ht) (by omega) hafter
    obtain rfl : q = p := by omega
    exact hq

/-- **`alloc8`** hands out at most one aligned block of eight frames; a null result means that no
    block but block 0 was free, or that block 0 was and has been taken, and then no block from the
    hint's byte on. -/
theorem alloc8_spec {s : PhysMemAllocator} (hs : s.lastAlloc < 2 ^ 20) :
    ∃ s' out, alloc8 s = some (s', out) ∧ AllocResult 8 s s' out ∧ s'.lastAlloc < 2 ^ 20 ∧
      (out = 0 → (∀ f, f % 8 = 0 → f + 8 ≤ 2 ^ 20 → Occupied 8 s f) ∨
        (TakesBlock 8 s s' 0 ∧ ∀ f, f ≠ 0 → f % 8 = 0 → f + 8 ≤ 2 ^ 20 →
          s.lastAlloc / 8 ≤ f / 8 → Occupied 8 s f)) := by
  obtain ⟨s', out, h, hr, hl, hocc⟩ := allocWith_spec (fun s => s.lastAlloc / 8) granular8
    (fun _ => hint_le) (Nat.mod_one (s.lastAlloc / 8)) hs
  refine ⟨s', out, h, hr, hl, fun h0 => ?_⟩
  rcases hr with ⟨hne, _⟩ | ⟨_, rfl | ht⟩
  · exact absurd h0 hne
  · left
    intro f hf hin
    exact hocc h0 f (Or.inl (Nat.le_refl 8)) hf hin (Nat.lt_or_ge _ _).symm
  · refine Or.inr ⟨ht, fun f hne hf hin hhint => ?_⟩
    have hafter := hocc h0 f (Or.inl (Nat.le_refl 8)) hf hin (Or.inl hhint)
    exact Leak.occupied_before (Or.inr ht) (by omega) hafter

/-- **`alloc32`** hands out at most one aligned block of 32 frames, and a null result means that
    every block but the one at frame 0 was occupied before the call. -/
theorem alloc32_spec {s : PhysMemAllocator} (hs : s.lastAlloc < 2 ^ 20) :
    ∃ s' out, alloc32 s = some (s', out) ∧ AllocResult 32 s s' out ∧ s'.lastAlloc < 2 ^ 20 ∧
      (out = 0 → ∀ f, f ≠ 0 → f % 32 = 0 → f + 32 ≤ 2 ^ 20 → Occupied 32 s f) := by
  have hstart : (s.lastAlloc / 8 - s.lastAlloc / 8 % b32) % b32 = 0 := by
    simp only [b32]
    omega
  obtain ⟨s', out, h, hr, hl, hocc⟩ := allocWith_spec
    (fun _ => s.lastAlloc / 8 - s.lastAlloc / 8 % b32) granular32
    (fun _ _ => by simp only [b32]; omega) hstart hs
  refine ⟨s', out, h, hr, hl, fun h0 f hf h32 hin => ?_⟩
  have hafter := hocc h0 f (Or.inl (by decide)) h32 hin (Nat.lt_or_ge _ _).symm
  rcases hr with ⟨hne, _⟩ | ⟨_, hleak⟩
  · exact absurd h0 hne
  · exact hleak.occupied_before (by omega) hafter

end OsPlayground.PhysMem
