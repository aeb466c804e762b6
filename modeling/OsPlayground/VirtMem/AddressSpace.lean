/-
  File:      OsPlayground/VirtMem/AddressSpace.lean
  Subject:   THE ADDRESS SPACE `setup_paging` BUILDS.

  The scan moves a page, two directory indices, an entry and a table pointer in step; `ScanAt`
  says what they are while the current block is `c`. What the tables hold is stated by the set of
  pages they map (`Filled`): every write of the code adds one page to it.

  * `nextTable_at`, `mapKernelPage_at` -- the two halves of a pass;
  * `scan_spec`, `buffer_spec` -- the loops, each with its result and that it ends;
  * `setupPaging_tables` -- the directory and all tables afterwards;
  * **`setupPaging_space`** -- the translation of every page.
-/
import OsPlayground.VirtMem.Setup

namespace OsPlayground.VirtMem

open Paging
open PhysMem (termBuffer)

variable (I : KernelImage)

/-- The directory and the tables of an image are all zero. -/
structure Blank (m : Ram) : Prop where
  dir : ∀ k < 1024, I.dirAt m k = 0
  tables : ∀ t < 1024, ∀ j < 1024, I.entryAt m t j = 0

/-- **The directory with the image's blocks up to `c` in both halves**, each pair of slots on one
    table. -/
def DirUpTo (c : Nat) (m : Ram) : Prop :=
  ∀ k < 1024, I.dirAt m k =
    if k ≤ c then I.tableEntry k
    else if 768 ≤ k ∧ k ≤ 768 + c then I.tableEntry (k - 768) else 0

/-- **The tables map the pages of `P`**, each at its place and to itself, and no other. -/
def Filled (P : Nat → Prop) (m : Ram) : Prop :=
  ∀ q, q % 4096 = 0 → q < 0x100000000 →
    (P q → I.entryAt m (q / 4194304) (q / 4096 % 1024) = q + 1) ∧
      (¬ P q → I.entryAt m (q / 4194304) (q / 4096 % 1024) = 0)

/-- A page with a byte among the `len` bytes at `addr`. -/
def Touched (addr len p : Nat) : Prop := ∃ b, addr ≤ b ∧ b < addr + len ∧ p = pageMask b

/-- A page the loop over `len` bytes at `addr` maps. -/
def Looped (addr len p : Nat) : Prop := p % 4096 = 0 ∧ pageMask addr ≤ p ∧ p < addr + len

variable {I} {m m₀ : Ram} {P Q : Nat → Prop} {c q : Nat}

/-! ## 1. One write -/

theorem Filled.congr (h : Filled I P m) (hPQ : ∀ q, q % 4096 = 0 → (P q ↔ Q q)) :
    Filled I Q m := by
  intro q hq hlt
  obtain ⟨h1, h2⟩ := h q hq hlt
  exact ⟨fun hQ => h1 ((hPQ q hq).mpr hQ), fun hQ => h2 fun hP => hQ ((hPQ q hq).mp hP)⟩

/-- **A page's own entry written adds that page.** -/
theorem Filled.add (h : Filled I P m) (hq : q % 4096 = 0) :
    Filled I (fun r => P r ∨ r = q) (I.setEntry m (q / 4194304) (q / 4096 % 1024) (q + 1)) := by
  intro r hr hrlt
  by_cases heq : r = q
  · subst heq
    rw [I.entryAt_setEntry_self]
    exact ⟨fun _ => rfl, fun hno => absurd (Or.inr rfl) hno⟩
  · rw [I.entryAt_setEntry_ne m (by omega) (by omega) (by omega)]
    obtain ⟨h1, h2⟩ := h r hr hrlt
    refine ⟨fun hP => h1 ?_, fun hno => h2 fun hP => hno (Or.inl hP)⟩
    exact hP.resolve_right heq

theorem Filled.setDir {k w : Nat} (h : Filled I P m) (hk : k < 1024) :
    Filled I P (I.setDir m k w) := by
  intro r hr hrlt
  rw [I.entryAt_setDir m hk]
  exact h r hr hrlt

theorem DirUpTo.setEntry {t j w : Nat} (h : DirUpTo I c m) : DirUpTo I c (I.setEntry m t j w) := by
  intro k hk
  rw [I.dirAt_setEntry m hk]
  exact h k hk

/-- Both slots of the next block written. -/
theorem DirUpTo.next (h : DirUpTo I c m) (hc : c < 255) :
    DirUpTo I (c + 1) (I.setDir (I.setDir m (c + 1) (I.tableEntry (c + 1))) (768 + (c + 1))
      (I.tableEntry (c + 1))) := by
  intro k hk
  by_cases hhigh : k = 768 + (c + 1)
  · subst hhigh
    have hsub : 768 + (c + 1) - 768 = c + 1 := by omega
    rw [I.dirAt_setDir_self, if_neg (by omega), if_pos (by omega), hsub]
  · rw [I.dirAt_setDir_ne _ hhigh]
    by_cases hlow : k = c + 1
    · subst hlow
      rw [I.dirAt_setDir_self, if_pos (Nat.le_refl _)]
    · rw [I.dirAt_setDir_ne _ hlow, h k hk]
      by_cases h1 : k ≤ c
      · rw [if_pos h1, if_pos (by omega)]
      · rw [if_neg h1, if_neg (by omega : ¬ k ≤ c + 1)]
        by_cases h2 : 768 ≤ k ∧ k ≤ 768 + c
        · rw [if_pos h2, if_pos (by omega)]
        · rw [if_neg h2, if_neg (by omega)]

/-- The directory before the scan: block 0 in both halves. -/
theorem Blank.dirUpTo (h : Blank I m) :
    DirUpTo I 0 (I.setDir (I.setDir m 0 (I.tableEntry 0)) 768 (I.tableEntry 0)) := by
  intro k hk
  by_cases hhigh : k = 768
  · subst hhigh
    rw [I.dirAt_setDir_self, if_neg (by omega), if_pos (by omega)]
  · rw [I.dirAt_setDir_ne _ hhigh]
    by_cases hlow : k = 0
    · subst hlow
      rw [I.dirAt_setDir_self, if_pos (Nat.le_refl _)]
    · rw [I.dirAt_setDir_ne _ hlow, h.dir k hk, if_neg (by omega), if_neg (by omega)]

theorem Blank.filled (h : Blank I m) : Filled I (fun _ => False) m := by
  intro q _ hlt
  exact ⟨fun hf => hf.elim, fun _ => h.tables _ (by omega) _ (by omega)⟩

/-- The `map_page` of the boot code on the table of a page's block. -/
theorem mapPagePre_eq {virt phys t : Nat} (hp : phys % 4096 = 0) :
    mapPagePre m virt phys (I.pageTables + 4096 * t) =
      I.setEntry m t (virt / 4096 % 1024) (phys + 1) := by
  unfold mapPagePre KernelImage.setEntry ptFlags
  rw [virtToPtIndex_eq, frame_or_one hp]

theorem writePageDir_eq {k w : Nat} : writePageDir I m k w = I.setDir m k w := by
  unfold writePageDir KernelImage.setDir
  rw [I.phys_initPageDir]

@[simp] theorem identPdIndex_eq : identPdIndex = 0 := by decide

@[simp] theorem highhalfPdIndex_eq : highhalfPdIndex = 768 := by decide

/-! ## 2. The scan -/

variable (I m₀) in
/-- **The scan while block `c` is current**: the entry and the table pointer are those of block
    `c`, the directory has the blocks up to it, and the tables hold the pages before the current
    one. -/
structure ScanAt (c : Nat) (s : Scan) : Prop where
  entry : s.kernelPdEntry = I.tableEntry c
  table : s.curPageTable = I.pageTables + 4096 * c
  ident : s.curIdentPdIndex = c
  dir : DirUpTo I c s.ram
  filled : Filled I (fun q => 0x100000 ≤ q ∧ q < s.kernelPage) s.ram
  outside : ∀ a, I.Outside a → s.ram a = m₀ a

theorem scanStart_at (h : Blank I m₀) : ScanAt I m₀ 0 (scanStart I m₀) := by
  have hentry : kernelVirtToPhys I.initPageTables ||| pdFlags = I.tableEntry 0 := by
    rw [I.phys_initPageTables]
    exact frame_or_one I.pageTables_aligned
  have hpage : pageMask (kernelVirtToPhys kernelStart) = 0x100000 := by decide
  unfold scanStart
  dsimp only
  rw [hentry, writePageDir_eq, writePageDir_eq, I.phys_initPageTables, hpage, identPdIndex_eq,
    highhalfPdIndex_eq]
  refine ⟨rfl, rfl, rfl, h.dirUpTo, ?_, fun a ha => ?_⟩
  · refine ((h.filled.setDir (by omega)).setDir (by omega)).congr fun q _ => ?_
    exact ⟨False.elim, fun hq => Nat.not_lt.mpr hq.1 hq.2⟩
  · show I.setDir (I.setDir m₀ _ _) _ _ a = _
    rw [I.setDir_outside _ (by omega) ha, I.setDir_outside _ (by omega) ha]

/-- **The first half of a pass**: at the first page of a block the next table is taken. -/
theorem nextTable_at {s : Scan} (h : ScanAt I m₀ c s) (hc : c < 255) :
    ScanAt I m₀ (c + 1) (nextTable I s (c + 1)) := by
  have hentry : s.kernelPdEntry + pageSize = I.tableEntry (c + 1) := by
    rw [h.entry]
    unfold KernelImage.tableEntry pageSize
    omega
  have hhigh : highhalfPdIndex + (c + 1) - identPdIndex = 768 + (c + 1) := by
    rw [highhalfPdIndex_eq, identPdIndex_eq]
    omega
  unfold nextTable
  dsimp only
  rw [hentry, hhigh, writePageDir_eq, writePageDir_eq]
  refine ⟨rfl, ?_, rfl, h.dir.next hc, ?_, fun a ha => ?_⟩
  · show s.curPageTable + pageSize = _
    rw [h.table]
    unfold pageSize
    omega
  · exact (h.filled.setDir (by omega)).setDir (by omega)
  · show I.setDir (I.setDir s.ram _ _) _ _ a = _
    rw [I.setDir_outside _ (by omega) ha, I.setDir_outside _ (by omega) ha, h.outside a ha]

/-- **The second half of a pass**: the page is mapped in the current table. -/
theorem mapKernelPage_at {s : Scan} (h : ScanAt I m₀ c s) (hpage : s.kernelPage % 4096 = 0)
    (hlow : 0x100000 ≤ s.kernelPage) (hlt : s.kernelPage < 0x40000000)
    (hc : c = s.kernelPage / 4194304) : ScanAt I m₀ c (mapKernelPage s) := by
  have hnext : (s.kernelPage + pageSize) % 2 ^ 32 = s.kernelPage + 4096 := by
    unfold pageSize
    omega
  unfold mapKernelPage
  rw [hnext, h.table, mapPagePre_eq hpage]
  refine ⟨h.entry, rfl, h.ident, h.dir.setEntry, ?_, fun a ha => ?_⟩
  · subst hc
    refine (h.filled.add hpage).congr fun q hq => ?_
    dsimp only
    omega
  · show I.setEntry s.ram _ _ _ a = _
    rw [I.setEntry_outside _ (by omega) (by omega) ha, h.outside a ha]

variable (I m₀) in
/-- **The invariant of the scan**: the current block is that of the last page mapped. -/
structure ScanInv (s : Scan) : Prop where
  page : s.kernelPage % 4096 = 0
  low : 0x100000 ≤ s.kernelPage
  high : s.kernelPage < I.stop + 4096
  block : ScanAt I m₀ ((s.kernelPage - 4096) / 4194304) s

theorem scanStart_inv (h : Blank I m₀) : ScanInv I m₀ (scanStart I m₀) := by
  have hpage : (scanStart I m₀).kernelPage = 0x100000 := by
    show pageMask (kernelVirtToPhys kernelStart) = 0x100000
    decide
  have h1 := I.start_le
  have h2 := I.tables_le
  refine ⟨by rw [hpage], by rw [hpage], by rw [hpage]; omega, ?_⟩
  rw [hpage]
  exact scanStart_at h

/-- **One pass keeps the invariant**, one page on. -/
theorem scanStep_inv {s s' : Scan} (h : ScanInv I m₀ s) (hgo : scanStep I s = .inl s') :
    ScanInv I m₀ s' ∧ s'.kernelPage = s.kernelPage + 4096 ∧ s.kernelPage < I.stop := by
  have hstop := I.stop_lt
  have hpage := h.page
  have hlow := h.low
  unfold scanStep at hgo
  rw [I.phys_kernelEnd] at hgo
  by_cases hlt : s.kernelPage < I.stop
  · rw [if_pos hlt] at hgo
    have hident := h.block.ident
    -- after the first half the current block is that of the page
    have hready : ∀ u, u = (if s.curIdentPdIndex < virtToPdIndex s.kernelPage
        then nextTable I s (virtToPdIndex s.kernelPage) else s) →
        u.kernelPage = s.kernelPage ∧ ScanAt I m₀ (s.kernelPage / 4194304) u := by
      intro u hu
      rw [virtToPdIndex_eq] at hu
      by_cases hnew : s.curIdentPdIndex < s.kernelPage / 4194304
      · rw [if_pos hnew] at hu
        have hsucc : s.kernelPage / 4194304 = (s.kernelPage - 4096) / 4194304 + 1 := by omega
        rw [hsucc] at hu ⊢
        subst hu
        exact ⟨rfl, nextTable_at h.block (by omega)⟩
      · rw [if_neg hnew] at hu
        have hsame : s.kernelPage / 4194304 = (s.kernelPage - 4096) / 4194304 := by omega
        rw [hu, hsame]
        exact ⟨rfl, h.block⟩
    obtain ⟨hkp, hat⟩ := hready _ rfl
    have hs' := Sum.inl.inj hgo
    have hnext : s'.kernelPage = s.kernelPage + 4096 := by
      rw [← hs']
      unfold mapKernelPage
      dsimp only
      rw [hkp]
      unfold pageSize
      omega
    refine ⟨⟨by omega, by omega, by omega, ?_⟩, hnext, hlt⟩
    have hblock : (s'.kernelPage - 4096) / 4194304 = s.kernelPage / 4194304 := by
      rw [hnext, Nat.add_sub_cancel]
    rw [hblock, ← hs']
    exact mapKernelPage_at hat (by rw [hkp]; exact hpage) (by rw [hkp]; exact hlow)
      (by rw [hkp]; omega) (by rw [hkp])
  · rw [if_neg hlt] at hgo
    cases hgo

/-- **The scan ends**, with the pages of the image mapped in all of its blocks. -/
theorem scan_spec (h : Blank I m₀) {fuel : Nat} (hf : 0x40000 < fuel) :
    ∃ m, FuelLoop.run (scanStep I) fuel (scanStart I m₀) = some m ∧
      DirUpTo I (I.blocks - 1) m ∧ Filled I I.Page m ∧ ∀ a, I.Outside a → m a = m₀ a := by
  have hstop := I.stop_lt
  refine FuelLoop.run_total (ScanInv I m₀) _ (fun s => (I.stop + 4095 - s.kernelPage) / 4096) ?_ ?_
    (scanStart_inv h) ?_
  · intro s s' hI hgo
    obtain ⟨hI', hnext, hlt⟩ := scanStep_inv hI hgo
    exact ⟨hI', by omega⟩
  · intro s m hI hend
    unfold scanStep at hend
    rw [I.phys_kernelEnd] at hend
    by_cases hlt : s.kernelPage < I.stop
    · rw [if_pos hlt] at hend
      cases hend
    · rw [if_neg hlt] at hend
      obtain rfl := Sum.inr.inj hend
      have hpage := hI.page
      have hhigh := hI.high
      have hlow := hI.low
      have hlast : (s.kernelPage - 4096) / 4194304 = I.blocks - 1 := by
        unfold KernelImage.blocks
        omega
      refine ⟨hlast ▸ hI.block.dir, hI.block.filled.congr fun q hq => ?_, hI.block.outside⟩
      unfold KernelImage.Page
      omega
  · show (I.stop + 4095 - (scanStart I m₀).kernelPage) / 4096 < fuel
    omega

/-! ## 3. The boot structures -/

theorem pageMask_eq (a : Nat) : pageMask a = a - a % 4096 := rfl

/-- **The loop over a structure that is not empty maps the pages it touches.** -/
theorem looped_iff {addr len p : Nat} (hlen : 0 < len) :
    Looped addr len p ↔ Touched addr len p := by
  unfold Touched Looped
  rw [Iff.comm]
  simp only [pageMask_eq]
  constructor
  · intro h
    obtain ⟨b, h1, h2, rfl⟩ := h
    refine ⟨?_, ?_, ?_⟩
    · omega
    · omega
    · omega
  · intro h
    obtain ⟨h1, h2, h3⟩ := h
    by_cases hlt : p < addr
    · exact ⟨addr, Nat.le_refl _, by omega, by omega⟩
    · exact ⟨p, by omega, h3, by omega⟩

variable (I m₀) in
/-- **The invariant of the loop over a boot structure**: the pages before the current one are
    mapped beside those of `P`. -/
structure BufferInv (c : Nat) (P : Nat → Prop) (lo hi : Nat) (x : Nat × Ram) : Prop where
  page : x.1 % 4096 = 0
  low : lo ≤ x.1
  high : x.1 < hi + 4096
  dir : DirUpTo I c x.2
  filled : Filled I (fun q => P q ∨ lo ≤ q ∧ q < x.1) x.2
  outside : ∀ a, I.Outside a → x.2 a = m₀ a

/-- The write of a pass, for a page below 4 MiB: its entry in the first table. -/
theorem bufferWrite_eq {page : Nat} (hpage : page % 4096 = 0) (hlow : page < 0x400000) :
    mapPagePre m ((kernelBase + page) % 2 ^ 32) page (kernelVirtToPhys I.initPageTables) =
      I.setEntry m (page / 4194304) (page / 4096 % 1024) (page + 1) := by
  have hindex : (kernelBase + page) % 2 ^ 32 / 4096 % 1024 = page / 4096 % 1024 := by
    unfold kernelBase
    omega
  have hzero : page / 4194304 = 0 := by omega
  have htab : kernelVirtToPhys I.initPageTables = I.pageTables + 4096 * (page / 4194304) := by
    rw [I.phys_initPageTables, hzero, Nat.mul_zero, Nat.add_zero]
  rw [htab, mapPagePre_eq hpage, hindex]

/-- **One pass.** -/
theorem BufferInv.pass {lo hi page : Nat} {u : Ram} (hI : BufferInv I m₀ c P lo hi (page, u))
    (hgt : page < hi) (hhi : hi ≤ 0x400000) :
    BufferInv I m₀ c P lo hi
      (page + 4096, I.setEntry u (page / 4194304) (page / 4096 % 1024) (page + 1)) := by
  have hpage : page % 4096 = 0 := hI.page
  have hlow : lo ≤ page := hI.low
  refine ⟨?_, ?_, ?_, hI.dir.setEntry, ?_, fun a ha => ?_⟩
  · show (page + 4096) % 4096 = 0
    omega
  · show lo ≤ page + 4096
    omega
  · show page + 4096 < hi + 4096
    omega
  · refine (hI.filled.add hpage).congr fun q hq => ?_
    have hsplit : (lo ≤ q ∧ q < page + 4096) ↔ (lo ≤ q ∧ q < page) ∨ q = page := by
      omega
    show (P q ∨ lo ≤ q ∧ q < page) ∨ q = page ↔ P q ∨ lo ≤ q ∧ q < page + 4096
    rw [hsplit, or_assoc]
  · show I.setEntry u _ _ _ a = _
    rw [I.setEntry_outside _ (by omega) (by omega) ha]
    exact hI.outside a ha

/-- The invariant holds at the first page. -/
theorem BufferInv.start {lo hi : Nat} (hlo : lo % 4096 = 0) (hle : lo < hi + 4096)
    (hd : DirUpTo I c m) (hP : Filled I P m) (hout : ∀ a, I.Outside a → m a = m₀ a) :
    BufferInv I m₀ c P lo hi (lo, m) := by
  refine ⟨hlo, Nat.le_refl _, hle, hd, hP.congr fun q hq => ?_, hout⟩
  show P q ↔ P q ∨ lo ≤ q ∧ q < lo
  have hnone : ¬ (lo ≤ q ∧ q < lo) := by omega
  simp only [hnone, or_false]

/-- **The loop over a boot structure ends**, with its pages mapped. Its bound may lie in memory
    outside the tables. -/
theorem buffer_spec (stop : Ram → Nat) (addr hi : Nat) {fuel : Nat} (hd : DirUpTo I c m)
    (hP : Filled I P m) (hout : ∀ a, I.Outside a → m a = m₀ a)
    (hstop : ∀ m' : Ram, (∀ a, I.Outside a → m' a = m₀ a) → stop m' = hi) (hlow : addr < 0x400000)
    (hle : addr ≤ hi) (hhi : hi ≤ 0x400000) (hf : 0x40000 < fuel) :
    ∃ m', mapBuffer I fuel addr stop m = some m' ∧ DirUpTo I c m' ∧
      Filled I (fun q => P q ∨ q % 4096 = 0 ∧ pageMask addr ≤ q ∧ q < hi) m' ∧
      ∀ a, I.Outside a → m' a = m₀ a := by
  have hassert : virtToPdIndex ((kernelBase + addr) % 2 ^ 32) = highhalfPdIndex := by
    rw [virtToPdIndex_eq, highhalfPdIndex_eq]
    unfold kernelBase
    omega
  have hmask := pageMask_eq addr
  unfold mapBuffer
  rw [if_pos hassert]
  refine FuelLoop.run_total (BufferInv I m₀ c P (pageMask addr) hi) _
    (fun x => (hi + 4095 - x.1) / 4096) ?_ ?_
    (BufferInv.start (by omega) (by omega) hd hP hout) ?_
  · intro x x' hI hgo
    obtain ⟨page, u⟩ := x
    have hpage : page % 4096 = 0 := hI.page
    unfold bufferStep at hgo
    dsimp only at hgo
    rw [hstop u hI.outside] at hgo
    by_cases hgt : page < hi
    · have hnext : (page + pageSize) % 2 ^ 32 = page + 4096 := by
        unfold pageSize
        omega
      rw [if_pos hgt, hnext, bufferWrite_eq hpage (by omega)] at hgo
      obtain rfl := Sum.inl.inj hgo
      refine ⟨hI.pass hgt hhi, ?_⟩
      show (hi + 4095 - (page + 4096)) / 4096 < (hi + 4095 - page) / 4096
      omega
    · rw [if_neg hgt] at hgo
      cases hgo
  · intro x m' hI hend
    obtain ⟨page, u⟩ := x
    have hpage : page % 4096 = 0 := hI.page
    have hhigh : page < hi + 4096 := hI.high
    unfold bufferStep at hend
    dsimp only at hend
    rw [hstop u hI.outside] at hend
    by_cases hgt : page < hi
    · rw [if_pos hgt] at hend
      cases hend
    · rw [if_neg hgt] at hend
      obtain rfl := Sum.inr.inj hend
      refine ⟨hI.dir, hI.filled.congr fun q hq => ?_, hI.outside⟩
      have hend : (pageMask addr ≤ q ∧ q < page) ↔ q % 4096 = 0 ∧ pageMask addr ≤ q ∧ q < hi := by
        omega
      show P q ∨ pageMask addr ≤ q ∧ q < page ↔ _
      rw [hend]
  · show (hi + 4095 - pageMask addr) / 4096 < fuel
    omega

/-! ## 4. The whole of `setup_paging` -/

/-- **What the boot loader promises and the asserts check** of the info structure and the mmap
    buffer: they start where the first table reaches, and neither overlaps the image. -/
structure Placed (I : KernelImage) (m : Ram) (info : Nat) : Prop where
  info_lt : info < 0x100000000
  mmap_lt : mmapAddr m info < 0x100000000
  info_assert : virtToPdIndex ((kernelBase + info) % 2 ^ 32) = highhalfPdIndex
  mmap_assert : virtToPdIndex ((kernelBase + mmapAddr m info) % 2 ^ 32) = highhalfPdIndex
  info_apart : info + sizeofMultibootInfo ≤ 0x100000 ∨ I.stop ≤ info
  mmap_apart : 0 < mmapLength m info →
    mmapAddr m info + mmapLength m info ≤ 0x100000 ∨ I.stop ≤ mmapAddr m info

/-- **The intended pages**: the image, the text buffer, the info structure, the mmap buffer. -/
def Intended (I : KernelImage) (m : Ram) (info p : Nat) : Prop :=
  I.Page p ∨ p = termBuffer ∨ Touched info sizeofMultibootInfo p ∨
    Touched (mmapAddr m info) (mmapLength m info) p

variable {info : Nat}

/-- The pages `setup_paging` maps. -/
def Looping (I : KernelImage) (m : Ram) (info p : Nat) : Prop :=
  I.Page p ∨ p = termBuffer ∨ Looped info sizeofMultibootInfo p ∨
    Looped (mmapAddr m info) (mmapLength m info) p

theorem low_of_assert {addr : Nat} (hlt : addr < 0x100000000)
    (hassert : virtToPdIndex ((kernelBase + addr) % 2 ^ 32) = highhalfPdIndex) :
    addr < 0x400000 := by
  rw [virtToPdIndex_eq, highhalfPdIndex_eq] at hassert
  unfold kernelBase at hassert
  omega

/-- The info structure lies below the image. -/
theorem Placed.info_low (hp : Placed I m info) : info + sizeofMultibootInfo ≤ 0x100000 := by
  have h1 := I.start_le
  have h2 := I.tables_le
  have h3 := low_of_assert hp.info_lt hp.info_assert
  rcases hp.info_apart with h | h
  · exact h
  · omega

/-- The mmap buffer lies below the image, or is empty and starts in the first 4 MiB. -/
theorem Placed.mmap_low (hp : Placed I m info) :
    mmapAddr m info < 0x400000 ∧ mmapAddr m info + mmapLength m info ≤ 0x400000 := by
  have h1 := I.start_le
  have h2 := I.tables_le
  have h3 := low_of_assert hp.mmap_lt hp.mmap_assert
  by_cases hempty : mmapLength m info = 0
  · omega
  · rcases hp.mmap_apart (by omega) with h | h
    · omega
    · omega

/-- The info structure lies outside the tables, so they are built without changing it. -/
theorem fields_eq (hinfo : info + sizeofMultibootInfo ≤ 0x100000) {m' : Ram}
    (hout : ∀ a, I.Outside a → m' a = m₀ a) :
    mmapAddr m' info = mmapAddr m₀ info ∧ mmapLength m' info = mmapLength m₀ info := by
  have h1 := I.start_le
  unfold sizeofMultibootInfo at hinfo
  unfold mmapAddr mmapLength
  refine ⟨hout _ ?_, hout _ ?_⟩
  · exact Or.inl (by omega)
  · exact Or.inl (by omega)

/-- More fuel gives the same memory. -/
theorem setupPaging_mono {fuel fuel' : Nat} {m' : Ram} (hle : fuel ≤ fuel')
    (h : setupPaging I fuel info m = some m') : setupPaging I fuel' info m = some m' := by
  have hbuffer : ∀ addr stop u u', mapBuffer I fuel addr stop u = some u' →
      mapBuffer I fuel' addr stop u = some u' := by
    intro addr stop u u' hrun
    unfold mapBuffer at hrun ⊢
    split at hrun
    · rename_i hassert
      rw [if_pos hassert]
      exact FuelLoop.run_mono hle hrun
    · cases hrun
  unfold setupPaging at h ⊢
  cases hscan : FuelLoop.run (scanStep I) fuel (scanStart I m) with
  | none =>
      rw [hscan] at h
      cases h
  | some m₁ =>
      rw [hscan] at h
      rw [FuelLoop.run_mono hle hscan]
      unfold mapBuffers at h ⊢
      dsimp only at h ⊢
      split at h
      · rename_i hterm
        rw [if_pos hterm]
        generalize mapPagePre m₁ virtTermBuffer termBuffer (kernelVirtToPhys I.initPageTables) = m₂
          at h ⊢
        cases hinfo : mapBuffer I fuel info (infoStop info) m₂ with
        | none =>
            rw [hinfo] at h
            cases h
        | some m₃ =>
            rw [hinfo] at h
            rw [hbuffer _ _ _ _ hinfo]
            exact hbuffer _ _ _ _ h
      · cases h

/-- **The text buffer's page** joins the pages of `P`. -/
theorem termBuffer_spec (hd : DirUpTo I c m) (hP : Filled I P m)
    (hout : ∀ a, I.Outside a → m a = m₀ a) :
    ∃ m', mapPagePre m virtTermBuffer termBuffer (kernelVirtToPhys I.initPageTables) = m' ∧
      DirUpTo I c m' ∧ Filled I (fun q => P q ∨ q = termBuffer) m' ∧
      ∀ a, I.Outside a → m' a = m₀ a := by
  have hterm : mapPagePre m virtTermBuffer termBuffer (kernelVirtToPhys I.initPageTables) =
      I.setEntry m (termBuffer / 4194304) (termBuffer / 4096 % 1024) (termBuffer + 1) := by
    have htab : kernelVirtToPhys I.initPageTables = I.pageTables + 4096 * (termBuffer / 4194304) :=
      I.phys_initPageTables
    rw [htab, mapPagePre_eq (by decide)]
    rfl
  refine ⟨_, hterm, hd.setEntry, hP.add (by decide), fun a ha => ?_⟩
  rw [I.setEntry_outside _ (by decide) (by decide) ha]
  exact hout a ha

/-- **Up to the mmap buffer**: the image, the text buffer and the info structure are mapped, and the
    last buffer is due, where the info structure says. -/
theorem setupPaging_mmap (hb : Blank I m) (hinfo : info + sizeofMultibootInfo ≤ 0x100000)
    {fuel : Nat} (hf : 0x40000 < fuel) :
    ∃ m₃, setupPaging I fuel info m = mapBuffer I fuel (mmapAddr m info) (mmapStop info) m₃ ∧
      DirUpTo I (I.blocks - 1) m₃ ∧
      Filled I (fun q => (I.Page q ∨ q = termBuffer) ∨ Looped info sizeofMultibootInfo q) m₃ ∧
      ∀ a, I.Outside a → m₃ a = m a := by
  obtain ⟨m₁, hscan, hd₁, hf₁, ho₁⟩ := scan_spec hb hf
  have hsize : sizeofMultibootInfo = 120 := rfl
  obtain ⟨m₂, hterm, hd₂, hf₂, ho₂⟩ := termBuffer_spec hd₁ hf₁ ho₁
  obtain ⟨m₃, hinfoRun, hd₃, hf₃, ho₃⟩ := buffer_spec (infoStop info) info
    (info + sizeofMultibootInfo) hd₂ hf₂ ho₂
    (fun _ _ => Nat.mod_eq_of_lt (by omega)) (by omega) (by omega) (by omega) hf
  obtain ⟨haddr, _⟩ := fields_eq hinfo ho₃
  refine ⟨m₃, ?_, hd₃, hf₃, ho₃⟩
  unfold setupPaging mapBuffers
  rw [hscan]
  dsimp only
  rw [if_pos (by decide), hterm, hinfoRun]
  dsimp only
  rw [haddr]

/-- **`setup_paging` ends**, and writes its directory and its tables only. -/
theorem setupPaging_ends (hb : Blank I m) (hp : Placed I m info) {fuel : Nat}
    (hf : 0x40000 < fuel) :
    ∃ m', setupPaging I fuel info m = some m' ∧ DirUpTo I (I.blocks - 1) m' ∧
      Filled I (Looping I m info) m' ∧ ∀ a, I.Outside a → m' a = m a := by
  have hinfo := hp.info_low
  obtain ⟨hmmap, hmmapEnd⟩ := hp.mmap_low
  obtain ⟨m₃, hrest, hd₃, hf₃, ho₃⟩ := setupPaging_mmap hb hinfo hf
  -- the fields of the mmap buffer are still those of the start
  obtain ⟨m₄, hmmapRun, hd₄, hf₄, ho₄⟩ := buffer_spec (mmapStop info) (mmapAddr m info)
    (mmapAddr m info + mmapLength m info) hd₃ hf₃ ho₃
    (fun m' ho => by
      obtain ⟨h1, h2⟩ := fields_eq hinfo ho
      rw [mmapStop, h1, h2]
      exact Nat.mod_eq_of_lt (by omega)) hmmap (by omega) hmmapEnd hf
  refine ⟨m₄, hrest.trans hmmapRun, hd₄, hf₄.congr fun q _ => ?_, ho₄⟩
  unfold Looping Looped
  rw [or_assoc, or_assoc]

/-- **The directory and the tables `setup_paging` leaves.** -/
theorem setupPaging_tables (hb : Blank I m) (hp : Placed I m info) {fuel : Nat}
    (hf : 0x40000 < fuel) :
    ∃ m', setupPaging I fuel info m = some m' ∧ DirUpTo I (I.blocks - 1) m' ∧
      Filled I (Looping I m info) m' := by
  obtain ⟨m', hrun, hd, hfill, _⟩ := setupPaging_ends hb hp hf
  exact ⟨m', hrun, hd, hfill⟩

/-- A page that is mapped lies in a block of the image. -/
theorem Looping.block (hp : Placed I m info) (h : Looping I m info q) :
    q / 4194304 < I.blocks := by
  have hinfo := hp.info_low
  obtain ⟨hmmap, hmmapEnd⟩ := hp.mmap_low
  have hpos := I.blocks_pos
  rcases h with h | h | h | h
  · exact h.block
  · subst h
    exact Nat.lt_of_lt_of_le (by decide) hpos
  · obtain ⟨h1, _, h3⟩ := h
    omega
  · obtain ⟨h1, _, h3⟩ := h
    omega

/-- With an mmap buffer the pages mapped are the intended ones. -/
theorem looping_iff (hpos : 0 < mmapLength m info) :
    Looping I m info q ↔ Intended I m info q := by
  unfold Looping Intended
  rw [looped_iff (by decide), looped_iff hpos]

/-- **The translation through filled tables**: a page whose slot names the table of page `q`, at
    the index of `q`, is mapped to `q` or not at all. -/
theorem Filled.walk {v : Nat} (h : Filled I P m) (hq : q % 4096 = 0) (hlt : q < 0x100000000)
    (hv : v % 4096 = 0) (hd : I.dirAt m (v / 4194304) = I.tableEntry (q / 4194304))
    (hidx : v / 4096 % 1024 = q / 4096 % 1024) :
    (P q → walk m I.pageDir v = some q) ∧ (¬ P q → walk m I.pageDir v = none) := by
  obtain ⟨h1, h2⟩ := h q hq hlt
  refine ⟨fun hP => ?_, fun hno => ?_⟩
  · rw [I.walk_slot hd hq (by rw [hidx]; exact h1 hP), hv, Nat.add_zero]
  · rw [I.walk_slot_none_iff hd, hidx, h2 hno]
    exact not_present_zero

/-- **`setup_paging` builds exactly the intended address space.** -/
theorem setupPaging_space (I : KernelImage) (m : Ram) (info : Nat) (hb : Blank I m)
    (hp : Placed I m info) (hpos : 0 < mmapLength m info) :
    ∀ fuel > 0x40000, ∃ m', setupPaging I fuel info m = some m' ∧
      (∀ v, v % 4096 = 0 → kernelBase ≤ v → v < 0x100000000 →
        (Intended I m info (v - kernelBase) → walk m' I.pageDir v = some (v - kernelBase)) ∧
        (¬ Intended I m info (v - kernelBase) → walk m' I.pageDir v = none)) ∧
      ∀ v, v % 4096 = 0 → v < kernelBase → v / 4194304 < I.blocks →
        walk m' I.pageDir v = walk m' I.pageDir (v + kernelBase) := by
  intro fuel hf
  obtain ⟨m', hrun, hd, hfill⟩ := setupPaging_tables hb hp hf
  have hblocks := I.blocks_le
  have hblocks' := I.blocks_pos
  have hbase : kernelBase = 0xc0000000 := rfl
  refine ⟨m', hrun, fun v hv hlow hlt => ?_, fun v hv hlt hblock => ?_⟩
  · rw [hbase] at hlow ⊢
    rw [← looping_iff hpos]
    by_cases hin : (v - 0xc0000000) / 4194304 < I.blocks
    · refine hfill.walk (by omega) (by omega) hv ?_ (by omega)
      have hslot : v / 4194304 - 768 = (v - 0xc0000000) / 4194304 := by omega
      rw [hd _ (by omega), if_neg (by omega), if_pos (by omega), hslot]
    · have hclear : I.dirAt m' (v / 4194304) = 0 := by
        rw [hd _ (by omega), if_neg (by omega), if_neg (by omega)]
      exact ⟨fun h => absurd (h.block hp) hin, fun _ => I.walk_absent hclear⟩
  · rw [hbase] at hlt ⊢
    have hslot : (v + 0xc0000000) / 4194304 - 768 = v / 4194304 := by omega
    have hdlow : I.dirAt m' (v / 4194304) = I.tableEntry (v / 4194304) := by
      rw [hd _ (by omega), if_pos (by omega)]
    have hdhigh : I.dirAt m' ((v + 0xc0000000) / 4194304) = I.tableEntry (v / 4194304) := by
      rw [hd _ (by omega), if_neg (by omega), if_pos (by omega), hslot]
    exact I.walk_shared hdlow hdhigh (by omega) (by omega)

/-! ## 5. A boot -/

/-- A memory with an info structure at 0x9000: an mmap buffer of 24 bytes at 0x9100. -/
def bootRam : Ram := fun a => if a = 0x902c then 24 else if a = 0x9030 then 0x9100 else 0

/-- An image of 4.1 MiB. -/
def realImage : KernelImage where
  pageDir := 0x11e000
  stop := 0x520000
  aligned := by decide
  start_le := by decide
  tables_le := by decide
  stop_lt := by decide

theorem bootRam_zero {a : Nat} (h : 0x100000 ≤ a) : bootRam a = 0 := by
  unfold bootRam
  rw [if_neg (by omega), if_neg (by omega)]

theorem blank_bootRam (I : KernelImage) : Blank I bootRam := by
  have h1 := I.start_le
  refine ⟨fun k _ => bootRam_zero (by omega), fun t _ j _ => bootRam_zero ?_⟩
  unfold KernelImage.pageTables
  omega

theorem placed_bootRam (I : KernelImage) : Placed I bootRam 0x9000 :=
  ⟨by decide, by decide, by decide, by decide, Or.inl (by decide), fun _ => Or.inl (by decide)⟩

/-- The text buffer of that boot is mapped in both halves, and the page after the image is not. -/
theorem setupPaging_space_boot : ∃ m, setupPaging realImage 0x40001 0x9000 bootRam = some m ∧
    walk m realImage.pageDir 0xc00b8000 = some 0xb8000 ∧
    walk m realImage.pageDir 0xb8000 = some 0xb8000 ∧
    walk m realImage.pageDir 0xc0520000 = none := by
  obtain ⟨m, hrun, hhigh, hlow⟩ := setupPaging_space realImage bootRam 0x9000
    (blank_bootRam realImage) (placed_bootRam realImage) (by decide) 0x40001 (by decide)
  have hterm := (hhigh 0xc00b8000 (by decide) (by decide) (by decide)).1 (Or.inr (Or.inl rfl))
  refine ⟨m, hrun, hterm, ?_, ?_⟩
  · rw [hlow 0xb8000 (by decide) (by decide) (by decide)]
    exact hterm
  · refine (hhigh 0xc0520000 (by decide) (by decide) (by decide)).2 fun hint => ?_
    have hblock : ¬ Intended realImage bootRam 0x9000 0x520000 := by
      rw [← looping_iff (by decide)]
      unfold Looping Looped KernelImage.Page
      decide
    exact hblock hint

end OsPlayground.VirtMem
