/-
  File:      OsPlayground/PhysMem/Intake.lean
  Subject:   WHEN THE INTAKE OF A MEMORY MAP IS SAFE. `init_mmap` ends without a write outside
             the bitmap exactly on the maps `MapSafe` describes.

  * `Marks e p` -- the marking loop of entry `e` visits an address whose truncated page number is
    `p`;
  * `EntrySafe e` -- the condition on one entry: its marked range stays inside the first 4 GiB of
    a window of 2^44 bytes, for page numbers are cast to 32 bits (so, below 2^44, it ends at or
    below 4 GiB), or is empty;
  * `mark_safe`, `mark_ok` -- the loop ends in bounds under that condition, and only then;
  * `MapSafe` -- the chain of entries leaves the buffer after finitely many steps and every entry
    met is safe;
  * `walk_safe`, `walk_ok` -- the walk, likewise;
  * `initMmap_ok` -- the bits a successful intake leaves are those of the marked pages;
    `initMmap_safe_iff` -- the intake succeeds on the safe maps and on no other.
-/
import OsPlayground.PhysMem.Mmap

namespace OsPlayground.PhysMem

/-! ## 1. One entry -/

/-- The page address `a` is visited by the marking loop of `e`. -/
def MmapEntry.Visits (e : MmapEntry) (a : Nat) : Prop :=
  a % 4096 = 0 ∧ e.firstPage ≤ a ∧ a < e.stop

/-- **The bits an entry sets**: the page numbers, cast to 32 bits, of the addresses visited. -/
def Marks (e : MmapEntry) (p : Nat) : Prop :=
  ¬ e.Available ∧ ∃ a, e.Visits a ∧ a / 4096 % 2 ^ 32 = p

/-- **One entry is safe**: nothing is marked, or the marked range ends inside the first 4 GiB of
    the 2^44-byte window it begins in. -/
def EntrySafe (e : MmapEntry) : Prop :=
  e.Available ∨ e.stop ≤ e.firstPage ∨ e.stop ≤ e.firstPage / 2 ^ 44 * 2 ^ 44 + 2 ^ 32

theorem firstPage_mod (e : MmapEntry) : e.firstPage % 4096 = 0 := by
  simp only [MmapEntry.firstPage, pageMask, pageSize]
  omega

theorem stop_lt (e : MmapEntry) : e.stop < 2 ^ 64 := (e.addr + e.len).isLt

theorem pageAddrToBit_eq (a : Nat) : pageAddrToBit a = a / 4096 % 2 ^ 32 := by
  simp only [pageAddrToBit, pageAddrNbits, Nat.shiftRight_eq_div_pow]

/-- The write for page address `a` is inside the bitmap. -/
theorem inBitmap_iff (a : Nat) : pageAddrToBit a / 8 < bitmapBytes ↔ a % 2 ^ 44 < 2 ^ 32 := by
  rw [pageAddrToBit_eq]
  simp only [bitmapBytes, numPages]
  omega

/-- A visited address of a safe entry is inside the bitmap. -/
theorem EntrySafe.inBitmap {e : MmapEntry} (h : EntrySafe e) (hav : ¬ e.Available) {a : Nat}
    (ha : e.Visits a) : a % 2 ^ 44 < 2 ^ 32 := by
  obtain ⟨_, h1, h2⟩ := ha
  rcases h with h | h | h
  · exact absurd h hav
  · omega
  · omega

/-- The marking loop of an unavailable entry, one pass. -/
theorem markStep_go {e : MmapEntry} {addr : Nat} {bm : Nat → BitVec 8} (h : addr < e.stop)
    (hb : addr % 2 ^ 44 < 2 ^ 32) :
    markStep e (addr, bm) = .inl ((addr + 4096) % 2 ^ 64, Bits.setBit bm (addr / 4096 % 2 ^ 32)) := by
  have hi := (inBitmap_iff addr).mpr hb
  simp only [markStep, if_pos h, if_pos hi, pageSize]
  rw [pageAddrToBit_eq]

theorem markStep_oob {e : MmapEntry} {addr : Nat} {bm : Nat → BitVec 8} (h : addr < e.stop)
    (hb : ¬ addr % 2 ^ 44 < 2 ^ 32) :
    markStep e (addr, bm) = .inr (.error (pageAddrToBit addr / 8)) := by
  have hi : ¬ pageAddrToBit addr / 8 < bitmapBytes := fun hlt => hb ((inBitmap_iff addr).mp hlt)
  simp only [markStep, if_pos h, if_neg hi]

theorem markStep_done {e : MmapEntry} {addr : Nat} {bm : Nat → BitVec 8} (h : ¬ addr < e.stop) :
    markStep e (addr, bm) = .inr (.ok bm) := by
  simp only [markStep, if_neg h]

/-- What holds before every pass of the marking loop: the addresses below `addr` are marked. -/
structure MarkInv (e : MmapEntry) (bm₀ : Nat → BitVec 8) (x : Nat × (Nat → BitVec 8)) : Prop where
  aligned : x.1 % 4096 = 0
  ge : e.firstPage ≤ x.1
  le : x.1 < e.stop + 4096 ∨ x.1 = e.firstPage
  bits : ∀ p, Bits.bit x.2 p = true ↔
    Bits.bit bm₀ p = true ∨ ∃ a, e.Visits a ∧ a < x.1 ∧ a / 4096 % 2 ^ 32 = p

/-- The loop starts with nothing marked. -/
theorem MarkInv.start (e : MmapEntry) (bm : Nat → BitVec 8) : MarkInv e bm (e.firstPage, bm) := by
  refine ⟨firstPage_mod e, Nat.le_refl _, Or.inr rfl, fun p => ⟨Or.inl, fun hmarked => ?_⟩⟩
  rcases hmarked with hp | ⟨a, ha, hlt, _⟩
  · exact hp
  · exact absurd ha.2.1 (Nat.not_le.mpr hlt)

/-- **One pass**: the page at `addr` is marked. -/
theorem MarkInv.pass {e : MmapEntry} {bm b : Nat → BitVec 8} {addr : Nat}
    (hI : MarkInv e bm (addr, b)) (hlt : addr < e.stop) :
    MarkInv e bm (addr + 4096, Bits.setBit b (addr / 4096 % 2 ^ 32)) := by
  have hv : e.Visits addr := ⟨hI.aligned, hI.ge, hlt⟩
  have h1 : addr % 4096 = 0 := hI.aligned
  have h2 : e.firstPage ≤ addr := hI.ge
  refine ⟨?_, ?_, Or.inl ?_, fun p => ?_⟩
  · dsimp only
    omega
  · dsimp only
    omega
  · dsimp only
    omega
  · rw [Bits.bit_setBit, Bool.or_eq_true, hI.bits p, decide_eq_true_eq, or_assoc]
    refine or_congr Iff.rfl ⟨fun hmarked => ?_, fun hmarked => ?_⟩
    · rcases hmarked with ⟨a, ha, hlta, hp⟩ | rfl
      · exact ⟨a, ha, by dsimp only at hlta ⊢; omega, hp⟩
      · exact ⟨addr, hv, by dsimp only; omega, rfl⟩
    · obtain ⟨a, ha, hlta, hp⟩ := hmarked
      dsimp only at hlta
      by_cases hal : a < addr
      · exact Or.inl ⟨a, ha, hal, hp⟩
      · have heq : a = addr := by
          have h3 := ha.1
          omega
        subst heq
        exact Or.inr hp.symm

/-- At the end the bits of the entry are set. -/
theorem MarkInv.marks {e : MmapEntry} {bm b : Nat → BitVec 8} {addr : Nat}
    (hI : MarkInv e bm (addr, b)) (hend : e.stop ≤ addr) (hav : ¬ e.Available) (p : Nat) :
    Bits.bit b p = true ↔ Bits.bit bm p = true ∨ Marks e p := by
  rw [hI.bits p]
  refine or_congr Iff.rfl ⟨fun hmarked => ?_, fun hmarks => ?_⟩
  · obtain ⟨a, ha, _, hp⟩ := hmarked
    exact ⟨hav, a, ha, hp⟩
  · obtain ⟨_, a, ha, hp⟩ := hmarks
    exact ⟨a, ha, Nat.lt_of_lt_of_le ha.2.2 hend, hp⟩

/-- **The marking loop of a safe entry** ends in bounds and sets the bits of the entry. -/
theorem mark_safe {e : MmapEntry} (h : EntrySafe e) {fuel : Nat} (hf : 2 ^ 20 + 1 < fuel)
    (bm : Nat → BitVec 8) :
    ∃ bm', markUnavailPages fuel e bm = some (.ok bm') ∧
      ∀ p, Bits.bit bm' p = true ↔ Bits.bit bm p = true ∨ Marks e p := by
  by_cases hav : e.Available
  · refine ⟨bm, by simp only [markUnavailPages, if_pos hav], fun p => ?_⟩
    simp [Marks, hav]
  · simp only [markUnavailPages, if_neg hav]
    have hrun : ∃ r, FuelLoop.run (markStep e) fuel (e.firstPage, bm) = some r ∧
        ∃ bm', r = .ok bm' ∧ ∀ p, Bits.bit bm' p = true ↔ Bits.bit bm p = true ∨ Marks e p := by
      refine FuelLoop.run_total (MarkInv e bm) _ (fun x => (e.stop + 4095 - x.1) / 4096) ?_ ?_
        (MarkInv.start e bm) ?_
      · intro x s' hI hgo
        obtain ⟨addr, b⟩ := x
        by_cases hlt : addr < e.stop
        · have hb := h.inBitmap hav ⟨hI.aligned, hI.ge, hlt⟩
          have hs := stop_lt e
          have h1 : addr % 4096 = 0 := hI.aligned
          -- the next address does not wrap: the range ends below 2^64 - 4096
          have hnw : (addr + 4096) % 2 ^ 64 = addr + 4096 := by omega
          rw [markStep_go hlt hb, hnw] at hgo
          cases hgo
          refine ⟨hI.pass hlt, ?_⟩
          dsimp only
          omega
        · rw [markStep_done hlt] at hgo
          cases hgo
      · intro x r hI hstop
        obtain ⟨addr, b⟩ := x
        by_cases hlt : addr < e.stop
        · rw [markStep_go hlt (h.inBitmap hav ⟨hI.aligned, hI.ge, hlt⟩)] at hstop
          cases hstop
        · rw [markStep_done hlt] at hstop
          cases hstop
          exact ⟨b, rfl, hI.marks (Nat.le_of_not_lt hlt) hav⟩
      · have hfirst := firstPage_mod e
        rcases h with h | h | h
        · exact absurd h hav
        · dsimp only
          omega
        · dsimp only
          omega
    obtain ⟨r, hr, bm', rfl, hbits⟩ := hrun
    exact ⟨bm', hr, hbits⟩

/-- A marking loop that ends in bounds from `addr` has written in bounds at every address it
    visited from there. -/
theorem markLoop_inBitmap {e : MmapEntry} {n addr : Nat} {bm bm' : Nat → BitVec 8}
    (h : FuelLoop.run (markStep e) n (addr, bm) = some (.ok bm')) (h4 : addr % 4096 = 0)
    {a : Nat} (ha : a % 4096 = 0) (hle : addr ≤ a) (hlt : a < e.stop) : a % 2 ^ 44 < 2 ^ 32 := by
  induction n generalizing addr bm with
  | zero => simp [FuelLoop.run] at h
  | succ n ih =>
      have hlt' : addr < e.stop := by omega
      by_cases hb : addr % 2 ^ 44 < 2 ^ 32
      · rw [FuelLoop.run_go (markStep_go hlt' hb)] at h
        by_cases heq : a = addr
        · rw [heq]
          exact hb
        · have hs := stop_lt e
          have hnw : (addr + 4096) % 2 ^ 64 = addr + 4096 := by omega
          rw [hnw] at h
          exact ih h (by omega) (by omega)
      · rw [FuelLoop.run_stop (markStep_oob hlt' hb)] at h
        cases h

/-- A marking loop that ends in bounds is about a safe entry. -/
theorem entrySafe_of_mark {e : MmapEntry} {fuel : Nat} {bm bm' : Nat → BitVec 8}
    (h : markUnavailPages fuel e bm = some (.ok bm')) : EntrySafe e := by
  by_cases hav : e.Available
  · exact Or.inl hav
  by_cases hempty : e.stop ≤ e.firstPage
  · exact Or.inr (Or.inl hempty)
  simp only [markUnavailPages, if_neg hav] at h
  have hmod := firstPage_mod e
  have hin : ∀ a, a % 4096 = 0 → e.firstPage ≤ a → a < e.stop → a % 2 ^ 44 < 2 ^ 32 :=
    fun a ha hle hlt => markLoop_inBitmap h hmod ha hle hlt
  refine Or.inr (Or.inr (Nat.le_of_not_lt fun hgt => ?_))
  -- the first page of the window past its first 4 GiB is visited, or the first page itself is
  have hfirst := hin _ hmod (Nat.le_refl _) (by omega)
  have hbad := hin (e.firstPage / 2 ^ 44 * 2 ^ 44 + 2 ^ 32) (by omega) (by omega) hgt
  omega

/-- The result of the marking loop does not depend on the fuel. -/
theorem mark_det {e : MmapEntry} {n m : Nat} {bm : Nat → BitVec 8}
    {r r' : Except Nat (Nat → BitVec 8)} (h : markUnavailPages n e bm = some r)
    (h' : markUnavailPages m e bm = some r') : r = r' := by
  unfold markUnavailPages at h h'
  split at h
  · rename_i hav
    rw [if_pos hav] at h'
    rw [h] at h'
    exact Option.some.inj h'
  · rename_i hav
    rw [if_neg hav] at h'
    exact FuelLoop.run_det h h'

/-- **The marking loop ends in bounds on safe entries only**, and leaves the entry's bits set. -/
theorem mark_ok {e : MmapEntry} {fuel : Nat} {bm bm' : Nat → BitVec 8}
    (h : markUnavailPages fuel e bm = some (.ok bm')) :
    EntrySafe e ∧ ∀ p, Bits.bit bm' p = true ↔ Bits.bit bm p = true ∨ Marks e p := by
  have hs := entrySafe_of_mark h
  obtain ⟨b, hb, hbits⟩ := mark_safe hs (show 2 ^ 20 + 1 < 2 ^ 20 + 2 by decide) bm
  have he := mark_det hb h
  cases he
  exact ⟨hs, hbits⟩

/-! ## 2. The walk -/

/-- The address of the `k`th entry of the chain that starts at `p`. -/
def entryAt (mem : Nat → BitVec 8) : Nat → Nat → Nat
  | p, 0 => p
  | p, k + 1 => entryAt mem (nextEntry mem p) k

/-- **The chain of entries from `p` is safe**: after `n` entries it is outside the buffer, and the
    `n` entries are inside and safe. -/
def ChainSafe (mem : Nat → BitVec 8) (stop p n : Nat) : Prop :=
  stop ≤ entryAt mem p n ∧
    ∀ k < n, entryAt mem p k < stop ∧ EntrySafe (readEntry mem (entryAt mem p k))

/-- **A map is safe**: its chain of entries is. -/
def MapSafe (mem : Nat → BitVec 8) (mmapLength mmapAddr : Nat) : Prop :=
  ∃ n, ChainSafe mem ((mmapAddr + mmapLength) % 2 ^ 32) mmapAddr n

theorem chainSafe_succ {mem : Nat → BitVec 8} {stop p n : Nat} :
    ChainSafe mem stop p (n + 1) ↔
      (p < stop ∧ EntrySafe (readEntry mem p)) ∧ ChainSafe mem stop (nextEntry mem p) n := by
  constructor
  · intro hsafe
    obtain ⟨h, hk⟩ := hsafe
    exact ⟨hk 0 (Nat.succ_pos n), h, fun k hlt => hk (k + 1) (Nat.succ_lt_succ hlt)⟩
  · intro hsafe
    obtain ⟨h0, h, hk⟩ := hsafe
    refine ⟨h, fun k hlt => ?_⟩
    cases k with
    | zero => exact h0
    | succ k => exact hk k (Nat.lt_of_succ_lt_succ hlt)

/-- The entries of a chain are its first one and those of the rest. -/
theorem exists_entryAt_succ {mem : Nat → BitVec 8} {P : Nat → Prop} {p n : Nat} :
    (∃ k < n + 1, P (entryAt mem p k)) ↔
      P p ∨ ∃ k < n, P (entryAt mem (nextEntry mem p) k) := by
  constructor
  · intro h
    obtain ⟨k, hk, hP⟩ := h
    cases k with
    | zero => exact Or.inl hP
    | succ k => exact Or.inr ⟨k, Nat.lt_of_succ_lt_succ hk, hP⟩
  · intro h
    rcases h with hP | ⟨k, hk, hP⟩
    · exact ⟨0, Nat.succ_pos n, hP⟩
    · exact ⟨k + 1, Nat.succ_lt_succ hk, hP⟩

/-- **The walk over a safe chain** ends in bounds. -/
theorem walk_safe {mem : Nat → BitVec 8} {stop fuel : Nat} (hf : 2 ^ 20 + 1 < fuel) {n p : Nat}
    (h : ChainSafe mem stop p n) (bm : Nat → BitVec 8) :
    ∃ bm', FuelLoop.run (walkStep fuel mem stop) (n + 1) (p, bm) = some (some (.ok bm')) := by
  induction n generalizing p bm with
  | zero =>
      have hstop : ¬ p < stop := Nat.not_lt.mpr h.1
      exact ⟨bm, FuelLoop.run_stop (by simp only [walkStep, if_neg hstop])⟩
  | succ n ih =>
      obtain ⟨⟨hlt, hsafe⟩, hrest⟩ := chainSafe_succ.mp h
      obtain ⟨bm₁, hm, _⟩ := mark_safe hsafe hf bm
      obtain ⟨bm₂, hw⟩ := ih hrest bm₁
      have hgo : walkStep fuel mem stop (p, bm) = .inl (nextEntry mem p, bm₁) := by
        simp only [walkStep, if_pos hlt, hm]
      exact ⟨bm₂, by rw [FuelLoop.run_go hgo]; exact hw⟩

/-- **The walk ends in bounds on safe chains only**, and leaves the bits of their entries set. -/
theorem walk_ok {mem : Nat → BitVec 8} {stop fuel m p : Nat} {bm bm' : Nat → BitVec 8}
    (h : FuelLoop.run (walkStep fuel mem stop) m (p, bm) = some (some (.ok bm'))) :
    ∃ n, ChainSafe mem stop p n ∧ ∀ q, Bits.bit bm' q = true ↔
      Bits.bit bm q = true ∨ ∃ k < n, Marks (readEntry mem (entryAt mem p k)) q := by
  induction m generalizing p bm with
  | zero => simp [FuelLoop.run] at h
  | succ m ih =>
      by_cases hlt : p < stop
      · rcases hm : markUnavailPages fuel (readEntry mem p) bm with _ | k | bm₁
        · rw [FuelLoop.run_stop (b := none) (by simp only [walkStep, if_pos hlt, hm])] at h
          cases h
        · rw [FuelLoop.run_stop (b := some (.error k))
            (by simp only [walkStep, if_pos hlt, hm])] at h
          cases h
        · have hgo : walkStep fuel mem stop (p, bm) = .inl (nextEntry mem p, bm₁) := by
            simp only [walkStep, if_pos hlt, hm]
          rw [FuelLoop.run_go hgo] at h
          obtain ⟨n, hn, hb₂⟩ := ih h
          obtain ⟨hsafe, hb₁⟩ := mark_ok hm
          refine ⟨n + 1, chainSafe_succ.mpr ⟨⟨hlt, hsafe⟩, hn⟩, fun q => ?_⟩
          rw [hb₂, hb₁, or_assoc, exists_entryAt_succ (P := fun a => Marks (readEntry mem a) q)]
      · rw [FuelLoop.run_stop (b := some (.ok bm)) (by simp only [walkStep, if_neg hlt])] at h
        cases h
        refine ⟨0, ⟨Nat.le_of_not_lt hlt, fun k hk => absurd hk (Nat.not_lt_zero k)⟩, fun q => ?_⟩
        simp

/-! ## 3. The intake -/

/-- What the loop visits for an entry built from numbers whose sum does not wrap. -/
theorem visits_ofNat {e : MmapEntry} {base len : Nat} (ha : e.addr = BitVec.ofNat 64 base)
    (hl : e.len = BitVec.ofNat 64 len) (h : base + len < 2 ^ 64) (a : Nat) :
    e.Visits a ↔ a % 4096 = 0 ∧ base - base % 4096 ≤ a ∧ a < base + len := by
  have ea : e.addr.toNat = base := by
    rw [ha, BitVec.toNat_ofNat, Nat.mod_eq_of_lt (by omega)]
  have el : e.len.toNat = len := by
    rw [hl, BitVec.toNat_ofNat, Nat.mod_eq_of_lt (by omega)]
  have e1 : e.firstPage = base - base % 4096 := by
    simp only [MmapEntry.firstPage, pageMask, pageSize, ea]
  have e2 : e.stop = base + len := by
    rw [MmapEntry.stop, BitVec.toNat_add, ea, el, Nat.mod_eq_of_lt h]
  simp only [MmapEntry.Visits, e1, e2]

/-- An entry that visits addresses below 4 GiB only is safe. -/
theorem entrySafe_of_visits {e : MmapEntry} (h : ∀ a, e.Visits a → a < 2 ^ 32) : EntrySafe e := by
  by_cases hempty : e.stop ≤ e.firstPage
  · exact Or.inr (Or.inl hempty)
  · have hmod := firstPage_mod e
    have hlast := h (e.stop - 1 - (e.stop - 1) % 4096) ⟨by omega, by omega, by omega⟩
    refine Or.inr (Or.inr ?_)
    omega

theorem kernelMmap_visits (K : KernelExtent) (a : Nat) : (kernelMmap K).Visits a ↔
    a % 4096 = 0 ∧ kernelVirtToPhys K.kernelStart - kernelVirtToPhys K.kernelStart % 4096 ≤ a ∧
      a < kernelVirtToPhys K.kernelStart + (K.kernelEnd - K.kernelStart) :=
  visits_ofNat rfl rfl (Nat.lt_of_le_of_lt K.below (by decide)) a

theorem kernelMmap_safe (K : KernelExtent) : EntrySafe (kernelMmap K) :=
  entrySafe_of_visits fun a ha =>
    Nat.lt_of_lt_of_le ((kernelMmap_visits K a).mp ha).2.2 K.below

theorem vgaMmap_visits (a : Nat) : vgaMmap.Visits a ↔ a = 0xB8000 := by
  have h : vgaMmap.Visits a ↔ a % 4096 = 0 ∧ termBuffer - termBuffer % 4096 ≤ a ∧
      a < termBuffer + termBufferLen := visits_ofNat rfl rfl (by decide) a
  rw [h]
  simp only [termBuffer, termBufferLen]
  omega

theorem vgaMmap_safe : EntrySafe vgaMmap :=
  entrySafe_of_visits fun a ha => by
    rw [(vgaMmap_visits a).mp ha]
    decide

theorem andThen_ok {r : Option (Except Nat (Nat → BitVec 8))}
    {f : (Nat → BitVec 8) → Option (Except Nat (Nat → BitVec 8))} {bm : Nat → BitVec 8}
    (h : andThen r f = some (.ok bm)) : ∃ bm₁, r = some (.ok bm₁) ∧ f bm₁ = some (.ok bm) := by
  rcases r with _ | k | bm₁
  · cases h
  · cases h
  · exact ⟨bm₁, rfl, h⟩

/-- The bits of the array are zero after `memset`. -/
theorem bit_memset (bm : Nat → BitVec 8) {p : Nat} (hp : p < 2 ^ 20) :
    Bits.bit (memsetBitmap bm) p = false := by
  have hlt : p / 8 < bitmapBytes := by
    simp only [bitmapBytes, numPages]
    omega
  simp only [Bits.bit, memsetBitmap, if_pos hlt]
  exact BitVec.getLsbD_zero

theorem initMmap_ok_iff {fuel : Nat} {mem : Nat → BitVec 8} {K : KernelExtent}
    {mmapLength mmapAddr : Nat} {s s' : PhysMemAllocator} :
    initMmap fuel mem K mmapLength mmapAddr s = some (.ok s') ↔
      ∃ bm, initBitmap fuel mem K mmapLength mmapAddr s.memBitmap = some (.ok bm) ∧
        s' = { s with memBitmap := bm } := by
  unfold initMmap
  constructor
  · intro h
    rw [Option.map_eq_some_iff] at h
    obtain ⟨r, hr, he⟩ := h
    cases r with
    | error k => cases he
    | ok bm =>
        cases he
        exact ⟨bm, hr, rfl⟩
  · intro hok
    obtain ⟨bm, hb, rfl⟩ := hok
    rw [hb]
    rfl

/-- **What a successful intake leaves**: the map was safe, the hint is kept, and the bits of the
    array are those of the pages of its entries, of the kernel image and of the text buffer. -/
theorem initMmap_ok {fuel : Nat} {mem : Nat → BitVec 8} {K : KernelExtent}
    {mmapLength mmapAddr : Nat} {s s' : PhysMemAllocator}
    (h : initMmap fuel mem K mmapLength mmapAddr s = some (.ok s')) :
    ∃ n, ChainSafe mem ((mmapAddr + mmapLength) % 2 ^ 32) mmapAddr n ∧
      s'.lastAlloc = s.lastAlloc ∧
      ∀ p < 2 ^ 20, Bits.bit s'.memBitmap p = true ↔
        (∃ k < n, Marks (readEntry mem (entryAt mem mmapAddr k)) p) ∨ Marks (kernelMmap K) p ∨
          Marks vgaMmap p := by
  obtain ⟨bm, hb, rfl⟩ := initMmap_ok_iff.mp h
  obtain ⟨bm₁, h₁, hvga⟩ := andThen_ok hb
  obtain ⟨bm₂, h₂, hkernel⟩ := andThen_ok h₁
  obtain ⟨n, hn, hbits⟩ := walk_ok (Option.join_eq_some_iff.mp h₂)
  refine ⟨n, hn, rfl, fun p hp => ?_⟩
  rw [(mark_ok hvga).2, (mark_ok hkernel).2, hbits, bit_memset _ hp]
  simp [or_assoc]

/-- **The intake of a safe map succeeds**, and keeps the hint. -/
theorem initMmap_safe {mem : Nat → BitVec 8} (K : KernelExtent) {mmapLength mmapAddr : Nat}
    (h : MapSafe mem mmapLength mmapAddr) (s : PhysMemAllocator) :
    ∃ fuel s', initMmap fuel mem K mmapLength mmapAddr s = some (.ok s') := by
  obtain ⟨n, hn⟩ := h
  have hf : 2 ^ 20 + 1 < max (n + 1) (2 ^ 20 + 2) := by omega
  obtain ⟨bm₁, h1⟩ := walk_safe hf hn (memsetBitmap s.memBitmap)
  obtain ⟨bm₂, h2, _⟩ := mark_safe (kernelMmap_safe K) hf bm₁
  obtain ⟨bm₃, h3, _⟩ := mark_safe vgaMmap_safe hf bm₂
  have h1' := FuelLoop.run_mono (show n + 1 ≤ max (n + 1) (2 ^ 20 + 2) by omega) h1
  refine ⟨max (n + 1) (2 ^ 20 + 2), _, initMmap_ok_iff.mpr ⟨bm₃, ?_, rfl⟩⟩
  simp only [initBitmap, h1', Option.join_some, andThen, h2, h3]

/-- **The intake of a map terminates with every write inside the bitmap exactly when the map is
    safe**, for every memory content, every kernel extent and every earlier bitmap. -/
theorem initMmap_safe_iff (K : KernelExtent) (mem : Nat → BitVec 8) (mmapLength mmapAddr : Nat)
    (s : PhysMemAllocator) :
    (∃ fuel s', initMmap fuel mem K mmapLength mmapAddr s = some (.ok s')) ↔
      MapSafe mem mmapLength mmapAddr := by
  constructor
  · intro hok
    obtain ⟨fuel, s', h⟩ := hok
    obtain ⟨n, hn, _⟩ := initMmap_ok h
    exact ⟨n, hn⟩
  · intro h
    exact initMmap_safe K h s

/-- A memory that holds the bytes from address `base` on and zeros elsewhere. -/
def bytesAt (base : Nat) (bytes : List (BitVec 8)) (p : Nat) : BitVec 8 :=
  if base ≤ p then bytes.getD (p - base) 0 else 0

/-- A map of one entry: 12 GiB reserved from 0xfd00000000 on, below 1 TiB. -/
def highReservedMap : Nat → BitVec 8 :=
  bytesAt 0xc0009000
    [0x14, 0, 0, 0, 0, 0, 0, 0, 0xfd, 0, 0, 0, 0, 0, 0, 0, 0x03, 0, 0, 0, 0x02, 0, 0, 0]

/-- An image of 4.1 MiB linked at `_kernel_start`. -/
def smallImage : KernelExtent where
  kernelStart := kernelStart
  kernelEnd := 0xc0520000
  le := by decide
  lt := by decide
  below := by decide

/-- The first write for that entry is at byte 33161216 of a bitmap of 131072: the intake never
    succeeds. -/
theorem highReservedMap_oob :
    initMmap 2 highReservedMap smallImage 24 0xc0009000 ⟨fun _ => 0, 0⟩ = some (.error 33161216) ∧
      ¬ ∃ fuel s', initMmap fuel highReservedMap smallImage 24 0xc0009000 ⟨fun _ => 0, 0⟩ =
        some (.ok s') := by
  have he : readEntry highReservedMap 0xc0009000 = ⟨20, 0xfd00000000, 0x300000000, 2⟩ := by decide
  have hun : ¬ EntrySafe ⟨20, 0xfd00000000, 0x300000000, 2⟩ := by
    unfold EntrySafe
    decide
  refine ⟨?_, ?_⟩
  · rfl
  · intro hok
    obtain ⟨fuel, s', h⟩ := hok
    obtain ⟨n, ⟨hstop, hk⟩, _⟩ := initMmap_ok h
    cases n with
    | zero => exact absurd hstop (by decide)
    | succ n =>
        have hsafe := (hk 0 (Nat.succ_pos n)).2
        simp only [entryAt] at hsafe
        rw [he] at hsafe
        exact hun hsafe

end OsPlayground.PhysMem
