/-
  File:      OsPlayground/PhysMem/RealRam.lean
  Subject:   WHICH FRAMES ARE HANDED OUT after the intake of a memory map.

  * `WellFormedMap` -- the entries of a multiboot map, one after the other in its buffer;
  * `RealRam` -- a frame inside the usable entries and clear of the others, of the kernel image
    and of the text buffer;
  * `intake_free` -- the frames free after the intake are those of the 4 GiB no unavailable entry
    marks, whatever the usable entries say;
  * `handed_out` -- each of them but frame 0 is handed out by some run;
  * `onlyRealRam_iff` -- so only real RAM is handed out exactly when the map leaves no hole.
-/
import OsPlayground.PhysMem.Frames
import OsPlayground.PhysMem.Intake
import Mathlib.Data.Finset.Card

namespace OsPlayground.PhysMem

/-! ## 1. Maps and regions -/

/-- The entries from address `p` on fill the buffer that ends at `stop`, each at least as long as
    its fields. -/
inductive LaidOut (mem : Nat → BitVec 8) (stop : Nat) : Nat → List MmapEntry → Prop
  | done : LaidOut mem stop stop []
  | entry {p : Nat} {es : List MmapEntry} (hsize : 20 ≤ (readEntry mem p).size.toNat)
      (hfits : p + (readEntry mem p).size.toNat + 4 ≤ stop)
      (rest : LaidOut mem stop (p + (readEntry mem p).size.toNat + 4) es) :
      LaidOut mem stop p (readEntry mem p :: es)

/-- The next entry, as its bytes are read. -/
theorem LaidOut.read {mem : Nat → BitVec 8} {stop p : Nat} {e : MmapEntry} {es : List MmapEntry}
    (he : readEntry mem p = e) (hsize : 20 ≤ e.size.toNat) (hfits : p + e.size.toNat + 4 ≤ stop)
    (rest : LaidOut mem stop (p + e.size.toNat + 4) es) : LaidOut mem stop p (e :: es) := by
  subst he
  exact .entry hsize hfits rest

/-- **A well-formed map** with entries `es`. -/
structure WellFormedMap (mem : Nat → BitVec 8) (mmapLength mmapAddr : Nat)
    (es : List MmapEntry) : Prop where
  stop_lt : mmapAddr + mmapLength < 2 ^ 32
  entries : LaidOut mem (mmapAddr + mmapLength) mmapAddr es

/-- The address `a` is in the region of the entry. -/
def MmapEntry.Covers (e : MmapEntry) (a : Nat) : Prop :=
  e.addr.toNat ≤ a ∧ a < e.addr.toNat + e.len.toNat

/-- The address is in an entry typed AVAILABLE or ACPI_RECLAIMABLE. -/
def Usable (es : List MmapEntry) (a : Nat) : Prop := ∃ e ∈ es, e.Available ∧ e.Covers a

/-- The address is in an entry of any other type. -/
def Reserved (es : List MmapEntry) (a : Nat) : Prop := ∃ e ∈ es, ¬ e.Available ∧ e.Covers a

/-- The physical address is in the kernel image. -/
def InImage (K : KernelExtent) (a : Nat) : Prop :=
  kernelVirtToPhys K.kernelStart ≤ a ∧
    a < kernelVirtToPhys K.kernelStart + (K.kernelEnd - K.kernelStart)

/-- The physical address is in the VGA text buffer. -/
def InTermBuffer (a : Nat) : Prop := termBuffer ≤ a ∧ a < termBuffer + termBufferLen

/-- **Frame `p` is real RAM**: wholly inside the usable entries, and clear of the others, of the
    kernel image and of the text buffer. -/
def RealRam (es : List MmapEntry) (K : KernelExtent) (p : Nat) : Prop :=
  ∀ a, a / pageSize = p → Usable es a ∧ ¬ Reserved es a ∧ ¬ InImage K a ∧ ¬ InTermBuffer a

/-- The intake marks frame `p`, for an entry, for the image or for the text buffer. -/
def Marked (es : List MmapEntry) (K : KernelExtent) (p : Nat) : Prop :=
  (∃ e ∈ es, Marks e p) ∨ Marks (kernelMmap K) p ∨ Marks vgaMmap p

/-- **Only real RAM is handed out** after the intake of the map: it ends without a write outside
    the bitmap, and every frame of every run's answers is real RAM. -/
def OnlyRealRam (mem : Nat → BitVec 8) (K : KernelExtent) (mmapLength mmapAddr : Nat)
    (es : List MmapEntry) (s : PhysMemAllocator) : Prop :=
  (∃ fuel s', initMmap fuel mem K mmapLength mmapAddr s = some (.ok s')) ∧
    ∀ fuel s', initMmap fuel mem K mmapLength mmapAddr s = some (.ok s') →
      ∀ cs t gs, physRun s' cs = some (t, gs) → ∀ g ∈ gs, ∀ p ∈ g.block, RealRam es K p

/-! ## 2. The entries the walk meets -/

/-- The step from an entry to the next one, in a buffer below 4 GiB. -/
theorem nextEntry_eq {mem : Nat → BitVec 8} {stop p : Nat}
    (hfits : p + (readEntry mem p).size.toNat + 4 ≤ stop) (hstop : stop < 2 ^ 32) :
    nextEntry mem p = p + (readEntry mem p).size.toNat + 4 :=
  Nat.mod_eq_of_lt (Nat.lt_of_le_of_lt hfits hstop)

/-- A walk over entries that are all safe is safe. -/
theorem LaidOut.chainSafe {mem : Nat → BitVec 8} {stop p : Nat} {es : List MmapEntry}
    (h : LaidOut mem stop p es) (hstop : stop < 2 ^ 32) (hs : ∀ e ∈ es, EntrySafe e) :
    ChainSafe mem stop p es.length := by
  induction h with
  | done => exact ⟨Nat.le_refl _, fun k hk => absurd hk (Nat.not_lt_zero k)⟩
  | @entry p es hsize hfits _ ih =>
      rw [List.length_cons, chainSafe_succ, nextEntry_eq hfits hstop]
      exact ⟨⟨by omega, hs _ List.mem_cons_self⟩, ih fun e he => hs e (List.mem_cons_of_mem _ he)⟩

/-- **A safe walk meets exactly the entries of the map**, and they are safe. -/
theorem LaidOut.met {mem : Nat → BitVec 8} {stop p : Nat} {es : List MmapEntry}
    (h : LaidOut mem stop p es) (hstop : stop < 2 ^ 32) {n : Nat} (hc : ChainSafe mem stop p n) :
    (∀ e ∈ es, EntrySafe e) ∧ ∀ q, (∃ k < n, Marks (readEntry mem (entryAt mem p k)) q) ↔
      ∃ e ∈ es, Marks e q := by
  induction h generalizing n with
  | done =>
      cases n with
      | zero =>
          refine ⟨fun e he => absurd he List.not_mem_nil, fun q => ?_⟩
          simp
      | succ n => exact absurd (chainSafe_succ.mp hc).1.1 (Nat.lt_irrefl _)
  | @entry p es hsize hfits _ ih =>
      cases n with
      | zero =>
          have := hc.1
          simp only [entryAt] at this
          omega
      | succ n =>
          obtain ⟨⟨_, hsafe⟩, hrest⟩ := chainSafe_succ.mp hc
          rw [nextEntry_eq hfits hstop] at hrest
          obtain ⟨hs, hmet⟩ := ih hrest
          refine ⟨fun e he => ?_, fun q => ?_⟩
          · rcases List.mem_cons.mp he with rfl | he
            · exact hsafe
            · exact hs e he
          · rw [exists_entryAt_succ (P := fun a => Marks (readEntry mem a) q),
              nextEntry_eq hfits hstop, hmet]
            simp only [List.mem_cons, exists_eq_or_imp]

/-! ## 3. What the intake leaves free -/

section Intake

variable {mem : Nat → BitVec 8} {K : KernelExtent} {mmapLength mmapAddr : Nat}
  {es : List MmapEntry} {s : PhysMemAllocator}

/-- The intake of a well-formed map ends in bounds when its entries are safe. -/
theorem WellFormedMap.intake (hw : WellFormedMap mem mmapLength mmapAddr es)
    (hs : ∀ e ∈ es, EntrySafe e) :
    ∃ fuel s', initMmap fuel mem K mmapLength mmapAddr s = some (.ok s') := by
  refine initMmap_safe K ⟨es.length, ?_⟩ s
  rw [Nat.mod_eq_of_lt hw.stop_lt]
  exact hw.entries.chainSafe hw.stop_lt hs

/-- **The frames taken by the intake are the marked ones**, and its entries are safe. -/
theorem intake_free (hw : WellFormedMap mem mmapLength mmapAddr es) {fuel : Nat}
    {s' : PhysMemAllocator} (h : initMmap fuel mem K mmapLength mmapAddr s = some (.ok s')) :
    (∀ e ∈ es, EntrySafe e) ∧ s'.lastAlloc = s.lastAlloc ∧
      ∀ p < 2 ^ 20, frameBit s' p = true ↔ Marked es K p := by
  obtain ⟨n, hn, hhint, hbits⟩ := initMmap_ok h
  rw [Nat.mod_eq_of_lt hw.stop_lt] at hn
  obtain ⟨hsafe, hmet⟩ := hw.entries.met hw.stop_lt hn
  refine ⟨hsafe, hhint, fun p hp => ?_⟩
  rw [frameBit, hbits p hp, hmet p]
  exact Iff.rfl

end Intake

/-! ## 4. Every free frame is handed out -/

/-- The free frames. -/
def freeFrames (s : PhysMemAllocator) : Finset Nat :=
  (Finset.range (2 ^ 20)).filter fun p => frameBit s p = false

theorem freeFrames_lt {s s' : PhysMemAllocator}
    (hmono : ∀ p, frameBit s p = true → frameBit s' p = true) {q : Nat} (hq : q < 2 ^ 20)
    (hfree : frameBit s q = false) (htaken : frameBit s' q = true) :
    (freeFrames s').card < (freeFrames s).card := by
  refine Finset.card_lt_card (Finset.ssubset_iff_subset_ne.mpr ⟨fun p hp => ?_, fun he => ?_⟩)
  · obtain ⟨hr, hp⟩ := Finset.mem_filter.mp hp
    refine Finset.mem_filter.mpr ⟨hr, ?_⟩
    rw [← Bool.not_eq_true]
    intro ht
    rw [hmono p ht] at hp
    cases hp
  · have hmem : q ∈ freeFrames s := Finset.mem_filter.mpr ⟨Finset.mem_range.mpr hq, hfree⟩
    rw [← he] at hmem
    rw [(Finset.mem_filter.mp hmem).2] at htaken
    cases htaken

/-- One `alloc1` with frame `p` free hands it out, or takes another frame and leaves `p` free. -/
theorem alloc1_progress {s : PhysMemAllocator} {p : Nat} (hs : HintOk s) (h0 : 0 < p)
    (hp : p < 2 ^ 20) (hfree : frameBit s p = false) :
    ∃ s' g, physStep s .alloc1 = some (s', g) ∧ (p ∈ g.block ∨
      (HintOk s' ∧ frameBit s' p = false) ∧ (freeFrames s').card < (freeFrames s).card) := by
  obtain ⟨s', out, h, hr, hl, hnull⟩ := alloc1_spec (hintOk_iff.mp hs)
  refine ⟨s', ⟨1, out⟩, by rw [physStep, h]; rfl, ?_⟩
  have hkeep : ∀ {u u' : PhysMemAllocator} {f : Nat}, TakesBlock 1 u u' f → f ≠ p →
      frameBit u p = false → frameBit u' p = false := by
    intro u u' f ht hne hu
    rw [ht.bits, hu, Bool.false_or]
    exact decide_eq_false (by omega)
  rcases hr with ⟨hne, s₁, f, hleak, ht, hf, hout⟩ | ⟨rfl, hleak⟩
  · by_cases hfp : f = p
    · left
      rw [hfp] at hout
      have hdiv : out / pageSize = p := by
        rw [hout]
        exact Nat.mul_div_cancel_left p (by decide)
      exact ⟨hne, by rw [hdiv], by rw [hdiv]; exact Nat.lt_succ_self p⟩
    · right
      have h1 : frameBit s₁ p = false := by
        rcases hleak with rfl | hleak
        · exact hfree
        · exact hkeep hleak (by omega) hfree
      have hfs : frameBit s f = false := by
        rw [← Bool.not_eq_true]
        intro hft
        have := hleak.mono hft
        rw [ht.free f (Nat.le_refl f) (Nat.lt_succ_self f)] at this
        cases this
      have hin := ht.inRange
      exact ⟨⟨hintOk_iff.mpr hl, hkeep ht hfp h1⟩,
        freeFrames_lt (fun q hq => ht.mono (hleak.mono hq)) (by omega) hfs
          (ht.taken (Nat.le_refl f) (Nat.lt_succ_self f))⟩
  · right
    rcases hnull rfl with hall | ⟨ht, _⟩
    · rw [hall p hp] at hfree
      cases hfree
    · exact ⟨⟨hintOk_iff.mpr hl, hkeep ht (by omega) hfree⟩,
        freeFrames_lt (fun q hq => ht.mono hq) (by decide) (ht.free 0 (Nat.le_refl 0) (by decide))
          (ht.taken (Nat.le_refl 0) (by decide))⟩

/-- **Every free frame but frame 0 is handed out** by a run of `alloc1` calls that is long
    enough. -/
theorem handed_out {s : PhysMemAllocator} {p : Nat} (hs : HintOk s) (h0 : 0 < p)
    (hp : p < 2 ^ 20) (hfree : frameBit s p = false) :
    ∃ n t gs, physRun s (List.replicate n .alloc1) = some (t, gs) ∧ ∃ g ∈ gs, p ∈ g.block := by
  unfold physRun
  exact Exec.run_until (fun s => HintOk s ∧ frameBit s p = false) (fun g : Grant => p ∈ g.block)
    (fun s => (freeFrames s).card) (fun _ hu => alloc1_progress hu.1 h0 hp hu.2) ⟨hs, hfree⟩

/-! ## 5. Only real RAM -/

/-- **Only real RAM is handed out exactly when the map leaves no hole**: its entries are safe to
    take in, and every frame of the 4 GiB but frame 0 is marked or real RAM. -/
theorem onlyRealRam_iff (mem : Nat → BitVec 8) (K : KernelExtent) (mmapLength mmapAddr : Nat)
    (es : List MmapEntry) (s : PhysMemAllocator)
    (hw : WellFormedMap mem mmapLength mmapAddr es) (hs : HintOk s) :
    OnlyRealRam mem K mmapLength mmapAddr es s ↔
      (∀ e ∈ es, EntrySafe e) ∧ ∀ p, 0 < p → p < numPages → Marked es K p ∨ RealRam es K p := by
  constructor
  · intro h
    obtain ⟨⟨fuel, s', hok⟩, hall⟩ := h
    obtain ⟨hsafe, hhint, hbits⟩ := intake_free hw hok
    refine ⟨hsafe, fun p h0 hp => or_iff_not_imp_left.mpr fun hnot => ?_⟩
    rw [← hbits p hp, Bool.not_eq_true] at hnot
    have hs' : HintOk s' := by
      rw [HintOk, hhint]
      exact hs
    obtain ⟨n, t, gs, hrun, g, hg, hblock⟩ := handed_out hs' h0 hp hnot
    exact hall fuel s' hok _ t gs hrun g hg p hblock
  · intro h
    obtain ⟨hsafe, hcover⟩ := h
    refine ⟨hw.intake hsafe, fun fuel s' hok cs t gs hrun g hg p hblock => ?_⟩
    obtain ⟨_, hhint, hbits⟩ := intake_free hw hok
    have hs' : HintOk s' := by
      rw [HintOk, hhint]
      exact hs
    obtain ⟨hfree, h0, hp⟩ := physRun_fresh hs' hrun hg hblock
    rcases hcover p h0 hp with hmarked | hreal
    · rw [(hbits p hp).mpr hmarked] at hfree
      cases hfree
    · exact hreal

/-- A map of one entry: the RAM from 1 MiB to 128 MiB. -/
def holeMap : Nat → BitVec 8 :=
  bytesAt 0xc0009000
    [0x14, 0, 0, 0, 0, 0, 0x10, 0, 0, 0, 0, 0, 0, 0, 0xf0, 0x07, 0, 0, 0, 0, 0x01, 0, 0, 0]

/-- Its entry. -/
def holeEntry : MmapEntry := ⟨20, 0x100000, 0x7f00000, 1⟩

theorem readEntry_holeMap : readEntry holeMap 0xc0009000 = holeEntry := by decide

theorem wellFormed_holeMap : WellFormedMap holeMap 24 0xc0009000 [holeEntry] :=
  ⟨by decide, .read readEntry_holeMap (by decide) (by decide) .done⟩

theorem safe_holeEntry : ∀ e ∈ [holeEntry], EntrySafe e := by
  intro e he
  rw [List.mem_singleton.mp he]
  exact Or.inl (by decide)

/-- The pages that image makes the intake mark, and those it lies in. -/
theorem smallImage_pages (p : Nat) : (Marks (kernelMmap smallImage) p ↔ 0x100 ≤ p ∧ p < 0x520) ∧
    ∀ a, a / pageSize = p → (InImage smallImage a ↔ 0x100 ≤ p ∧ p < 0x520) := by
  have hsize : pageSize = 4096 := rfl
  have hstart : kernelVirtToPhys smallImage.kernelStart = 0x100000 := by decide
  have hlen : smallImage.kernelEnd - smallImage.kernelStart = 0x420000 := by decide
  have hav : ¬ (kernelMmap smallImage).Available := by decide
  refine ⟨⟨fun h => ?_, fun h => ⟨hav, 4096 * p, ?_, by omega⟩⟩, fun a ha => ?_⟩
  · obtain ⟨_, a, ha, hp⟩ := h
    rw [kernelMmap_visits, hstart, hlen] at ha
    omega
  · rw [kernelMmap_visits, hstart, hlen]
    omega
  · rw [hsize] at ha
    unfold InImage
    rw [hstart, hlen]
    omega

/-- The page of the text buffer. -/
theorem termBuffer_page (p : Nat) : (Marks vgaMmap p ↔ p = 0xb8) ∧
    ∀ a, a / pageSize = p → (InTermBuffer a ↔ p = 0xb8) := by
  have hsize : pageSize = 4096 := rfl
  have hav : ¬ vgaMmap.Available := by decide
  refine ⟨⟨fun h => ?_, fun h => ⟨hav, 0xb8000, (vgaMmap_visits _).mpr rfl, by omega⟩⟩,
    fun a ha => ?_⟩
  · obtain ⟨_, a, ha, hp⟩ := h
    rw [vgaMmap_visits] at ha
    omega
  · rw [hsize] at ha
    unfold InTermBuffer termBuffer termBufferLen
    omega

/-- The intake of that map marks none of the first 64 frames. -/
theorem not_marked_holeMap {p : Nat} (hp : p < 64) : ¬ Marked [holeEntry] smallImage p := by
  intro hm
  rcases hm with ⟨e, he, hun, _⟩ | himage | hterm
  · rw [List.mem_singleton.mp he] at hun
    exact hun (by decide)
  · have hpage := (smallImage_pages p).1.mp himage
    omega
  · have hpage := (termBuffer_page p).1.mp hterm
    omega

/-- No entry of that map covers frame 32. -/
theorem not_realRam_holeMap : ¬ RealRam [holeEntry] smallImage 32 := by
  intro hreal
  obtain ⟨⟨e, he, _, hlo, _⟩, _⟩ := hreal 0x20000 (by decide)
  rw [List.mem_singleton.mp he] at hlo
  exact absurd hlo (by decide)

/-- A map of one entry without a hole: 4 GiB of RAM. -/
def fullMap : Nat → BitVec 8 :=
  bytesAt 0xc0009000
    [0x14, 0, 0, 0, 0, 0, 0, 0, 0, 0, 0, 0, 0, 0, 0, 0, 0x01, 0, 0, 0, 0x01, 0, 0, 0]

/-- Its entry. -/
def fullEntry : MmapEntry := ⟨20, 0, 0x100000000, 1⟩

theorem readEntry_fullMap : readEntry fullMap 0xc0009000 = fullEntry := by decide

theorem wellFormed_fullMap : WellFormedMap fullMap 24 0xc0009000 [fullEntry] :=
  ⟨by decide, .read readEntry_fullMap (by decide) (by decide) .done⟩

/-- Every frame is marked or real RAM in that map. -/
theorem covered_fullMap {p : Nat} (hp : p < numPages) :
    Marked [fullEntry] smallImage p ∨ RealRam [fullEntry] smallImage p := by
  have hframes : numPages = 1048576 := by decide
  have hsize : pageSize = 4096 := rfl
  by_cases himage : 0x100 ≤ p ∧ p < 0x520
  · exact Or.inl (Or.inr (Or.inl ((smallImage_pages p).1.mpr himage)))
  by_cases hterm : p = 0xb8
  · exact Or.inl (Or.inr (Or.inr ((termBuffer_page p).1.mpr hterm)))
  refine Or.inr fun a ha => ⟨⟨fullEntry, List.mem_singleton_self _, by decide, ?_⟩, fun hres => ?_,
    fun h => himage (((smallImage_pages p).2 a ha).mp h),
    fun h => hterm (((termBuffer_page p).2 a ha).mp h)⟩
  · have hbase : fullEntry.addr.toNat = 0 := by decide
    have hlen : fullEntry.len.toNat = 0x100000000 := by decide
    rw [hsize] at ha
    unfold MmapEntry.Covers
    omega
  · obtain ⟨e, he, hav, _⟩ := hres
    rw [List.mem_singleton.mp he] at hav
    exact hav (by decide)

/-- The theorem at the two maps: of the one without a hole only real RAM is handed out, of the
    other not. -/
theorem onlyRealRam_iff_fullMap :
    OnlyRealRam fullMap smallImage 24 0xc0009000 [fullEntry] ⟨fun _ => 0, 0⟩ ∧
      ¬ OnlyRealRam holeMap smallImage 24 0xc0009000 [holeEntry] ⟨fun _ => 0, 0⟩ := by
  have hhint : HintOk ⟨fun _ => 0, 0⟩ := hintOk_iff.mpr (by decide)
  constructor
  · refine (onlyRealRam_iff fullMap smallImage 24 0xc0009000 [fullEntry] _ wellFormed_fullMap
      hhint).mpr ⟨fun e he => ?_, fun p _ hp => covered_fullMap hp⟩
    rw [List.mem_singleton.mp he]
    exact Or.inl (by decide)
  · intro h
    have hcover := ((onlyRealRam_iff holeMap smallImage 24 0xc0009000 [holeEntry] _
      wellFormed_holeMap hhint).mp h).2 32 (by decide) (by decide)
    exact hcover.elim (not_marked_holeMap (by decide)) not_realRam_holeMap

/-- With the first 64 frames free and the hint at 0, `alloc32` takes block 0 on the way and hands
    out the next one. -/
theorem alloc32_second {s : PhysMemAllocator} (hs : s.lastAlloc = 0)
    (hfree : ∀ p < 64, frameBit s p = false) : ∃ s', alloc32 s = some (s', 0x20000) := by
  rcases attempt_tryAlloc32 s 0 (by decide) (by decide) with ⟨f, hf, ht, hout⟩ | ⟨_, hocc⟩
  · have hf0 : f = 0 := by
      have := ht.aligned
      omega
    subst hf0
    rcases attempt_tryAlloc32 (tryAlloc32 s 0).1 4 (by decide) (by decide) with
      ⟨f, hf', ht', hout'⟩ | ⟨_, hocc⟩
    · have hf32 : f = 32 := by
        have := ht'.aligned
        omega
      subst hf32
      have hgo : scanStep (fun _ => bitmapBytes) b32 tryAlloc32 (0, s) =
          .inl (4, (tryAlloc32 s 0).1) := scanStep_go (by decide) hout
      have hstop : scanStep (fun _ => bitmapBytes) b32 tryAlloc32 (4, (tryAlloc32 s 0).1) =
          .inr ((tryAlloc32 (tryAlloc32 s 0).1 4).1, 0x20000) := by
        rw [scanStep_found (by decide) (by rw [hout']; decide)]
        exact congrArg Sum.inr (Prod.ext rfl hout')
      have hscan : scan (fun _ => bitmapBytes) b32 tryAlloc32 0 s =
          some ((tryAlloc32 (tryAlloc32 s 0).1 4).1, 0x20000) := by
        refine FuelLoop.run_mono (n := 2) (by decide) ?_
        rw [FuelLoop.run_go hgo, FuelLoop.run_stop hstop]
      refine ⟨(tryAlloc32 (tryAlloc32 s 0).1 4).1, ?_⟩
      unfold alloc32 allocWith
      rw [hs]
      dsimp only
      rw [show 0 / 8 - 0 / 8 % b32 = 0 from rfl, hscan]
      rfl
    · obtain ⟨p, h1, h2, hp⟩ := hocc 32 (by decide) (by decide)
      rw [ht.bits, hfree p (by omega), decide_eq_false (by omega)] at hp
      cases hp
  · obtain ⟨p, _, h2, hp⟩ := hocc 0 (by decide) (by decide)
    rw [hfree p (by omega)] at hp
    cases hp

/-- The intake of that map leaves frames 32 to 63 free, `alloc32` hands them out, and no entry
    covers them. -/
theorem holeMap_alloc32 :
    (∃ fuel s' t, initMmap fuel holeMap smallImage 24 0xc0009000 ⟨fun _ => 0, 0⟩ =
        some (.ok s') ∧ physRun s' [.alloc32] = some (t, [⟨32, 0x20000⟩])) ∧
      ¬ OnlyRealRam holeMap smallImage 24 0xc0009000 [holeEntry] ⟨fun _ => 0, 0⟩ := by
  obtain ⟨fuel, s', hok⟩ :=
    wellFormed_holeMap.intake (K := smallImage) (s := ⟨fun _ => 0, 0⟩) safe_holeEntry
  obtain ⟨_, hhint, hbits⟩ := intake_free wellFormed_holeMap hok
  have hfree : ∀ p < 64, frameBit s' p = false := by
    intro p hp
    rw [← Bool.not_eq_true, hbits p (by omega)]
    exact not_marked_holeMap hp
  obtain ⟨t, ht⟩ := alloc32_second hhint hfree
  have hrun : physRun s' [.alloc32] = some (t, [⟨32, 0x20000⟩]) :=
    Exec.run_cons.mpr ⟨t, ⟨32, 0x20000⟩, [], by rw [physStep, ht]; rfl, rfl, rfl⟩
  refine ⟨⟨fuel, s', t, hok, hrun⟩, fun h => ?_⟩
  exact not_realRam_holeMap (h.2 fuel s' hok _ t _ hrun _ List.mem_cons_self 32
    ⟨by decide, by decide, by decide⟩)

end OsPlayground.PhysMem
