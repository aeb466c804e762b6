/-
  File:      OsPlayground/VirtMem/Identity.lean
  Subject:   IS THE IDENTITY MAPPING GONE? `setup_paging` installs one identity slot for every
             block of the image, two at least, for the image holds 4 MiB of tables;
             `clear_ident_map` clears slot 0 only.

  * `OnlyFirst` -- the boot structures, wherever they lie, change the first table only;
  * `setupPaging_clear` -- so after every accepted `setup_paging` a low address stays mapped;
  * `pagesInv_step` -- calls on pages outside the image keep the image's slots;
  * **`ident_map_stays`** -- both.
-/
import OsPlayground.VirtMem.Stable

namespace OsPlayground.VirtMem

open Paging Halting
open PhysMem (termBuffer)

variable (I : KernelImage)

/-- `reserve_block`, and `map_page` with no page or with one from `_kernel_start` on. -/
def PageCall (_ : History) (_ : Vm) : VirtCall → Prop
  | .reserveBlock => True
  | .mapPage v _ => v = 0 ∨ kernelStart ≤ v ∧ v < 0x100000000
  | .loadPageTable _ => False
  | .clearIdentMap => False

/-- Such a call that leaves the pages of the image alone. -/
def OutsideImage (h : History) (vm : Vm) (c : VirtCall) : Prop :=
  PageCall h vm c ∧ ∀ v phys, c = .mapPage v phys → ¬ I.Page (v - kernelBase)

/-- **The identity mapping is gone** after `clear_ident_map`, whatever calls were made before. -/
def IdentGone (m : Ram) : Prop :=
  ∀ h vm, Run virtStep PageCall (bootVm I m) h vm → ∀ vm', clearIdentMap vm = (vm', some ()) →
    ∀ v < kernelBase, walk vm'.ram I.pageDir v = none

/-- **Only the first table changed**, and no entry of it was removed. -/
structure OnlyFirst (m m' : Ram) : Prop where
  other : ∀ a, (∀ j < 1024, a ≠ I.pageTables + 4 * j) → m' a = m a
  present : ∀ j < 1024, Present (m (I.pageTables + 4 * j)) → Present (m' (I.pageTables + 4 * j))

variable {I} {m m' m'' : Ram} {vm vm' : Vm} {h : History}

/-! ## 1. Every accepted placement -/

theorem OnlyFirst.refl : OnlyFirst I m m := ⟨fun _ _ => rfl, fun _ _ hp => hp⟩

theorem OnlyFirst.trans (h₁ : OnlyFirst I m m') (h₂ : OnlyFirst I m' m'') : OnlyFirst I m m'' := by
  refine ⟨fun a ha => ?_, fun j hj hp => h₂.present j hj (h₁.present j hj hp)⟩
  rw [h₂.other a ha, h₁.other a ha]

theorem mapPagePre_first (virt phys : Nat) :
    OnlyFirst I m (mapPagePre m virt phys (kernelVirtToPhys I.initPageTables)) := by
  have hidx : virtToPtIndex virt < 1024 := by
    rw [virtToPtIndex_eq]
    omega
  unfold mapPagePre
  rw [I.phys_initPageTables]
  refine ⟨fun a ha => Function.update_of_ne (ha _ hidx) _ _, fun j _ hp => ?_⟩
  by_cases heq : I.pageTables + 4 * j = I.pageTables + 4 * virtToPtIndex virt
  · rw [heq, Function.update_self]
    exact present_or_one phys
  · rw [Function.update_of_ne heq]
    exact hp

theorem mapBuffer_first {fuel addr : Nat} {stop : Ram → Nat}
    (hrun : mapBuffer I fuel addr stop m = some m') : OnlyFirst I m m' := by
  unfold mapBuffer at hrun
  split at hrun
  · refine FuelLoop.run_post (fun x => OnlyFirst I m x.2) (OnlyFirst I m) ?_ ?_ OnlyFirst.refl hrun
    · intro x x' hI hgo
      obtain ⟨page, u⟩ := x
      unfold bufferStep at hgo
      dsimp only at hgo
      split at hgo
      · obtain rfl := Sum.inl.inj hgo
        exact hI.trans (mapPagePre_first _ _)
      · cases hgo
    · intro x b hI hend
      obtain ⟨page, u⟩ := x
      unfold bufferStep at hend
      dsimp only at hend
      split at hend
      · cases hend
      · obtain rfl := Sum.inr.inj hend
        exact hI
  · cases hrun

theorem mapBuffers_first {fuel info : Nat} (hrun : mapBuffers I fuel info m = some m') :
    OnlyFirst I m m' := by
  unfold mapBuffers at hrun
  dsimp only at hrun
  split at hrun
  · have hterm := mapPagePre_first (I := I) (m := m) virtTermBuffer termBuffer
    cases hinfo : mapBuffer I fuel info (infoStop info)
        (mapPagePre m virtTermBuffer termBuffer (kernelVirtToPhys I.initPageTables)) with
    | none =>
        rw [hinfo] at hrun
        cases hrun
    | some m₁ =>
        rw [hinfo] at hrun
        exact (hterm.trans (mapBuffer_first hinfo)).trans (mapBuffer_first hrun)
  · cases hrun

/-- **Whatever the boot structures**, `setup_paging` leaves the directory and all tables but the
    first as the scan built them. -/
theorem setupPaging_first {fuel info : Nat} (hb : Blank I m)
    (hrun : setupPaging I fuel info m = some m') :
    ∃ m₁, DirUpTo I (I.blocks - 1) m₁ ∧ Filled I I.Page m₁ ∧ OnlyFirst I m₁ m' := by
  obtain ⟨m₁, hscan, hd, hf, _⟩ := scan_spec hb (show 0x40000 < 0x40001 by decide)
  unfold setupPaging at hrun
  cases hscan' : FuelLoop.run (scanStep I) fuel (scanStart I m) with
  | none =>
      rw [hscan'] at hrun
      cases hrun
  | some m₂ =>
      rw [hscan'] at hrun
      obtain rfl := FuelLoop.run_det hscan hscan'
      exact ⟨m₁, hd, hf, mapBuffers_first hrun⟩

theorem OnlyFirst.dirAt {k : Nat} (ho : OnlyFirst I m m') (hk : k < 1024) :
    I.dirAt m' k = I.dirAt m k := by
  refine ho.other _ fun j _ => ?_
  unfold KernelImage.pageTables
  omega

theorem OnlyFirst.entryAt {t j : Nat} (ho : OnlyFirst I m m') (ht : 0 < t) :
    I.entryAt m' t j = I.entryAt m t j := by
  refine ho.other _ fun i _ => ?_
  omega

/-- The directory is reached through the kernel's half, wherever that leads. -/
theorem OnlyFirst.walk_pageDir (hd : DirUpTo I (I.blocks - 1) m) (hf : Filled I I.Page m)
    (ho : OnlyFirst I m m') :
    ∃ pa, pa % 4096 = 0 ∧ walk m' I.pageDir (kernelBase + I.pageDir) = some pa := by
  have hle := I.blocks_le
  have haligned := I.aligned
  have hlt := I.pageDir_lt
  have hblock := I.page_pageDir.block
  have hbase : kernelBase = 768 * 4194304 := rfl
  have hslot : I.dirAt m' ((kernelBase + I.pageDir) / 4194304) =
      I.tableEntry (I.pageDir / 4194304) := by
    have hk : (kernelBase + I.pageDir) / 4194304 = 768 + I.pageDir / 4194304 := by omega
    have hsub : 768 + I.pageDir / 4194304 - 768 = I.pageDir / 4194304 := by omega
    rw [hk, ho.dirAt (by omega), hd _ (by omega), if_neg (by omega), if_pos (by omega), hsub]
  have hentry : Present (I.entryAt m' (I.pageDir / 4194304) (I.pageDir / 4096 % 1024)) := by
    have hold : I.entryAt m (I.pageDir / 4194304) (I.pageDir / 4096 % 1024) = I.pageDir + 1 :=
      (hf I.pageDir haligned (by omega)).1 I.page_pageDir
    by_cases h0 : I.pageDir / 4194304 = 0
    · rw [h0] at hold ⊢
      refine ho.present _ (by omega) ?_
      have hcell : m (I.pageTables + 4 * (I.pageDir / 4096 % 1024)) = I.pageDir + 1 := hold
      rw [hcell]
      exact present_succ haligned
    · rw [ho.entryAt (by omega), hold]
      exact present_succ haligned
  have hidx : (kernelBase + I.pageDir) / 4096 % 1024 = I.pageDir / 4096 % 1024 := by omega
  obtain ⟨pa, hpa⟩ : ∃ pa, walk m' I.pageDir (kernelBase + I.pageDir) = some pa := by
    rw [← Option.ne_none_iff_exists']
    intro hnone
    rw [I.walk_slot_none_iff hslot, hidx] at hnone
    exact hnone hentry
  refine ⟨pa, ?_, hpa⟩
  obtain ⟨_, _, heq⟩ := walk_eq_some hpa
  unfold frame at heq
  omega

/-- **After every accepted `setup_paging` clearing slot 0 leaves the page at 0x401000 mapped.** -/
theorem setupPaging_clear {fuel info : Nat} (hb : Blank I m)
    (hrun : setupPaging I fuel info m = some m') :
    ∃ vm, clearIdentMap (bootVm I m') = (vm, some ()) ∧
      walk vm.ram I.pageDir 0x401000 = some 0x401000 := by
  obtain ⟨m₁, hd, hf, ho⟩ := setupPaging_first hb hrun
  obtain ⟨pa, hpaAligned, hpa⟩ := ho.walk_pageDir hd hf
  have hpos := I.blocks_pos
  have hstart := I.start_le
  have htables := I.tables_le
  have haligned := I.aligned
  have hwalk : walk (bootVm I m').ram (bootVm I m').cr3 (I.initPageDir + 4 * identPdIndex) =
      some pa := by
    show walk m' (kernelVirtToPhys I.initPageDir) _ = some pa
    rw [I.phys_initPageDir, identPdIndex_eq]
    exact hpa
  refine ⟨_, storeWord_of_walk hwalk, ?_⟩
  -- the two words that translate 0x401000 lie inside their pages, so the store spares them
  show walk (Function.update m' pa 0) I.pageDir 0x401000 = some (0x401000 + 0x401000 % 4096)
  have hpage : I.Page 0x401000 := ⟨by decide, by decide, by omega⟩
  refine I.walk_slot (t := 1) ?_ (by decide) ?_
  · have hone : I.dirAt m' 1 = I.tableEntry 1 := by
      rw [ho.dirAt (by omega), hd 1 (by omega), if_pos (by omega)]
    show Function.update m' pa 0 (I.pageDir + 4 * (0x401000 / 4194304)) = _
    rw [Function.update_of_ne (by omega)]
    exact hone
  · have hold : I.entryAt m' 1 1 = 0x401001 := by
      rw [ho.entryAt (by omega)]
      exact (hf 0x401000 (by decide) (by decide)).1 hpage
    have htab := I.pageTables_aligned
    show Function.update m' pa 0 (I.pageTables + 4096 * 1 + 4 * (0x401000 / 4096 % 1024)) = _
    rw [Function.update_of_ne (by omega)]
    exact hold

/-! ## 2. Calls on pages outside the image -/

variable (I) in
/-- The entry of the page at 0, before a search failed: not mapped, or mapped to itself. -/
def LowWord (m : Ram) : Prop := I.entryAt m 0 0 = 0 ∨ I.entryAt m 0 0 = 1

variable (I) in
/-- **The invariant over such calls.** While a slot is clear, a `map_page` for it takes 0 as its
    table's address, and what it writes lies in the frame at 0. -/
structure PagesInv (vm : Vm) : Prop where
  booted : Booted I vm
  ident : Ident I vm.ram
  low : ∀ k, 768 ≤ k → k < 1024 → I.dirAt vm.ram k = 0 → LowWord I vm.ram

/-- The first page of memory leads to itself or nowhere. -/
theorem LowWord.leads {va pa : Nat} (hl : LowWord I m) (hid : Ident I m) (hva : va < 4096)
    (hw : walk m I.pageDir va = some pa) : pa < 4096 := by
  have hslot : I.dirAt m (va / 4194304) = I.tableEntry 0 := by
    have hzero : va / 4194304 = 0 := by omega
    rw [hzero]
    exact hid
  have hidx : va / 4096 % 1024 = 0 := by omega
  rcases hl with h0 | h1
  · have hnone : walk m I.pageDir va = none := by
      rw [I.walk_slot_none_iff hslot, hidx, h0]
      exact not_present_zero
    rw [hnone] at hw
    cases hw
  · rw [I.walk_slot (f := 0) hslot (by decide) (by rw [hidx]; exact h1)] at hw
    obtain rfl := Option.some.inj hw
    omega

/-- **A page of a clear slot**: what is written lies in the frame at 0. -/
theorem writePage_clear {v phys q : Nat} (hI : PagesInv I vm) (hlow : 768 ≤ v / 4194304)
    (hv : v < 0x100000000) (hclear : I.dirAt vm.ram (v / 4194304) = 0)
    (hrun : writePage v phys vm = (vm', some q)) :
    Booted I vm' ∧ ∃ a w, a < 4096 ∧ vm'.ram = Function.update vm.ram a w := by
  have hb := hI.booted
  have hk : v / 4194304 < 1024 := by omega
  have hstart := I.start_le
  unfold writePage at hrun
  rw [virtToPdIndex_eq, virtToPtIndex_eq] at hrun
  dsimp only at hrun
  rw [hb.getPageTable_eq hk, hclear, andThen_some] at hrun
  obtain ⟨vm₁, _, hwrite, hend⟩ := andThen_eq_some hrun
  obtain rfl : vm₁ = vm' := congrArg Prod.fst hend
  have hrec := hb.record_clear (t := pageMask 0) hclear
  unfold writeTable storeWord at hwrite
  cases hstore : store (record (v / 4194304) (pageMask 0) vm).ram
      (record (v / 4194304) (pageMask 0) vm).cr3 (pageMask 0 + 4 * (v / 4096 % 1024))
      (pageMask phys ||| ptFlags) with
  | none =>
      rw [hstore] at hwrite
      cases hwrite
  | some m' =>
      rw [hstore] at hwrite
      obtain rfl := (congrArg Prod.fst hwrite).symm
      unfold store at hstore
      obtain ⟨pa, hwalk, hm'⟩ := Option.map_eq_some_iff.mp hstore
      have hwalk : walk vm.ram I.pageDir (pageMask 0 + 4 * (v / 4096 % 1024)) = some pa := by
        rw [← hb.cr3]
        exact hwalk
      have hmask : pageMask 0 = 0 := rfl
      have hpa : pa < 4096 := (hI.low _ hlow hk hclear).leads hI.ident (by omega) hwalk
      subst hm'
      exact ⟨hrec.withRam (hb.shape.outside (Or.inl (by omega))), pa, _, hpa, rfl⟩

/-- A call that keeps the first word of table 0, while a slot is clear, keeps the invariant. -/
theorem PagesInv.keep (hI : PagesInv I vm) (hb' : Booted I vm') (hid' : Ident I vm'.ram)
    (hstep : ∀ k, 768 ≤ k → k < 1024 → I.dirAt vm'.ram k = 0 →
      I.dirAt vm.ram k = 0 ∧ I.entryAt vm'.ram 0 0 = I.entryAt vm.ram 0 0) : PagesInv I vm' := by
  refine ⟨hb', hid', fun k hlow hk hclear => ?_⟩
  obtain ⟨hclear', hword'⟩ := hstep k hlow hk hclear
  have hword := hI.low k hlow hk hclear'
  unfold LowWord at hword ⊢
  rw [hword']
  exact hword

theorem PagesInv.reserve {b : Nat} (hI : PagesInv I vm) (hb' : Booted I vm')
    (hr : Reserves I vm.ram vm'.ram b) : PagesInv I vm' := by
  have hs := hI.booted.shape
  refine hI.keep hb' ((extends_reserves (P := fun _ => False) hs hr).ident hI.ident) ?_
  intro k hlow hk hclear
  rcases hr with h1 | h1
  · rw [h1.2.1] at hclear ⊢
    exact ⟨hclear, rfl⟩
  · obtain ⟨i, _, _, hi, hci, _, hram⟩ := h1
    refine ⟨?_, by rw [hram, I.entryAt_setDir _ hi]⟩
    by_cases hki : k = i
    · rw [hki]
      exact hci
    · rw [hram, I.dirAt_setDir_ne _ hki] at hclear
      exact hclear

theorem PagesInv.anonymous {phys q : Nat} (hI : PagesInv I vm) (hb' : Booted I vm')
    (hphys : phys % 4096 = 0) (hq : q % 4096 = 0) (ha : MapsAnonymous I vm.ram vm'.ram phys q) :
    PagesInv I vm' := by
  have hs := hI.booted.shape
  have hpos := I.blocks_pos
  have hstart : kernelStart = 0xc0100000 := rfl
  refine hI.keep hb' ((anonymous_effect hs hphys ha).2.ident hI.ident) ?_
  intro k hlow hk hclear
  obtain ⟨m₁, hfound, hram⟩ := ha
  rw [hram, I.dirAt_setEntry _ hk] at hclear
  rcases hfound with h1 | h1
  · -- the search failed: no slot is clear
    obtain ⟨_, rfl, hall⟩ := h1
    by_cases h768 : k = 768
    · subst h768
      exact absurd hclear (hs.kernel_ne_zero (Nat.le_refl _) (by omega))
    · have hdiv : 4194304 * k / 4194304 = k := by omega
      have hnone : walk vm.ram I.pageDir (4194304 * k) = none := by
        refine I.walk_absent ?_
        rw [hdiv]
        exact hclear
      exact absurd hnone (hall (4194304 * k) (by omega) (by omega) (by omega))
  · obtain ⟨hlt, hfree, hm₁⟩ := h1
    have hqlow := hfree.low
    refine ⟨?_, ?_⟩
    · by_cases hkq : k = q / 4194304
      · rw [hm₁, hkq] at hclear
        exact absurd hclear loaded_ne_zero
      · rw [hm₁, dirAt_loaded_ne hkq] at hclear
        exact hclear
    · rw [hram, I.entryAt_setEntry_ne _ (by omega) (by omega)
        ((not_null_entry hq hqlow).imp Ne.symm Ne.symm), hm₁, entryAt_loaded (by omega)]

/-- A page at or above `_kernel_start`, outside the image, in any slot there. -/
theorem PagesInv.explicit {phys q : Nat} (hI : PagesInv I vm) (hphys : phys % 4096 = 0)
    (hq : q % 4096 = 0) (hlow : kernelStart ≤ q) (hlt : q < 0x100000000)
    (hpage : ¬ I.Page (q - kernelBase)) (hrun : writePage q phys vm = (vm', some q)) :
    PagesInv I vm' := by
  have hstart : kernelStart = 0xc0100000 := rfl
  have hbase : kernelBase = 0xc0000000 := rfl
  by_cases hclear : I.dirAt vm.ram (q / 4194304) = 0
  · obtain ⟨hb', a, w, ha, hram⟩ := writePage_clear hI (by omega) hlt hclear hrun
    have hout : I.Outside a := Or.inl (by
      have h1 := I.start_le
      omega)
    refine hI.keep hb' ?_ fun k _ hk hck => ?_
    · unfold Ident
      rw [hram, I.dirAt_outside _ (by omega) hout]
      exact hI.ident
    · rw [hram, I.dirAt_outside _ hk hout] at hck
      exact ⟨hck, by rw [hram, I.entryAt_outside _ (by omega) (by omega) hout]⟩
  · have himg := place_not_image hq (by omega) hpage
    obtain ⟨hb', _, hram⟩ :=
      (writePage_spec hI.booted hlt hclear (Or.inl hI.ident) hphys himg).of_eq hrun
    refine hI.keep hb' ?_ fun k _ hk hck => ?_
    · unfold Ident
      rw [hram, I.dirAt_setEntry _ (by omega)]
      exact hI.ident
    · rw [hram, I.dirAt_setEntry _ hk] at hck
      refine ⟨hck, ?_⟩
      rw [hram, I.entryAt_setEntry_ne _ (by omega) (by omega)
        ((not_null_entry hq hlow).imp Ne.symm Ne.symm)]

/-- **One such call keeps the invariant.** -/
theorem pagesInv_step {c : VirtCall} {q : Nat} (hI : PagesInv I vm) (hc : OutsideImage I h vm c)
    (hrun : virtStep vm c = (vm', some q)) : PagesInv I vm' := by
  have hb := hI.booted
  obtain ⟨hc, houtside⟩ := hc
  cases c with
  | loadPageTable k => exact absurd hc id
  | clearIdentMap => exact absurd hc id
  | reserveBlock =>
      obtain ⟨hb', hr⟩ := (reserveBlock_spec hb).of_eq hrun
      exact hI.reserve hb' hr
  | mapPage v phys =>
      obtain ⟨hq, hphys, hsame⟩ := mapPage_aligned hrun
      by_cases h0 : v = 0
      · subst h0
        obtain ⟨hb', ha⟩ := (mapPage_anonymous hb hI.ident hphys).of_eq hrun
        exact hI.anonymous hb' hphys hq ha
      · obtain rfl := hsame h0
        obtain ⟨hlow, hlt⟩ := hc.resolve_left h0
        have hwrite : writePage q phys vm = (vm', some q) := by
          rw [← mapPage_of_ne h0 hq hphys]
          exact hrun
        exact hI.explicit hphys hq hlow hlt (houtside q phys rfl) hwrite

theorem pagesInv_start {fuel info : Nat} (hb : Blank I m) (hp : Placed I m info)
    (hrun : setupPaging I fuel info m = some m') : PagesInv I (bootVm I m') := by
  obtain ⟨hbooted, hid⟩ := bootVm_booted ⟨fuel, m, info, hb, hp, hrun⟩
  obtain ⟨_, hfill⟩ := setupPaging_left hb hp hrun
  obtain ⟨hyes, hno⟩ := hfill 0 (by decide) (by decide)
  refine ⟨hbooted, hid, fun _ _ _ _ => ?_⟩
  by_cases h : Looping I m info 0
  · exact Or.inr (hyes h)
  · exact Or.inl (hno h)

/-- **The identity mapping is never gone.** For every image and all boot structures that
    `setup_paging` accepts, a low address stays mapped when `clear_ident_map` follows at once; and
    where the boot structures are apart from the image, the page at 4 MiB stays mapped after every
    run of calls on pages outside the image. -/
theorem ident_map_stays (I : KernelImage) (m₀ m : Ram) (fuel info : Nat) (hb : Blank I m₀)
    (hrun : setupPaging I fuel info m₀ = some m) :
    ¬ IdentGone I m ∧
      (Placed I m₀ info → ∀ h vm, Run virtStep (OutsideImage I) (bootVm I m) h vm →
        ∃ vm', clearIdentMap vm = (vm', some ()) ∧
          walk vm'.ram I.pageDir 0x400000 = some 0x400000) := by
  refine ⟨fun hgone => ?_, fun hp h vm hr => ?_⟩
  · obtain ⟨vm, hclear, hwalk⟩ := setupPaging_clear hb hrun
    have hnone := hgone [] (bootVm I m) .start vm hclear 0x401000 (by decide)
    rw [hwalk] at hnone
    cases hnone
  · have hI : PagesInv I vm := by
      refine hr.inv (fun _ vm => PagesInv I vm) (pagesInv_start hb hp hrun) ?_
      intro h s c s' b hI hc hcall
      exact pagesInv_step hI hc hcall
    have hs := hI.booted.shape.clear
    have htables := I.tables_le
    have hstart := I.start_le
    refine ⟨_, hI.booted.clearIdentMap_eq, hs.walk_low ⟨by decide, by decide, by omega⟩ ?_⟩
    exact Or.inr (Nat.le_refl _)

/-- The boot of an image of 4.1 MiB, `clear_ident_map` called at once. -/
theorem ident_map_stays_boot : ∃ m vm,
    setupPaging realImage 0x40001 0x9000 bootRam = some m ∧
    clearIdentMap (bootVm realImage m) = (vm, some ()) ∧
    walk vm.ram realImage.pageDir 0x400000 = some 0x400000 := by
  obtain ⟨m, hrun, _⟩ := setupPaging_tables (blank_bootRam realImage) (placed_bootRam realImage)
    (show 0x40000 < 0x40001 by decide)
  obtain ⟨vm, hclear, hwalk⟩ := (ident_map_stays realImage bootRam m 0x40001 0x9000
    (blank_bootRam realImage) hrun).2 (placed_bootRam realImage) [] _ .start
  exact ⟨m, vm, hrun, hclear, hwalk⟩

/-- That boot is one whose identity mapping is not gone. -/
theorem not_identGone_boot : ¬ ∀ (I : KernelImage) (m₀ m : Ram) (fuel info : Nat), Blank I m₀ →
    setupPaging I fuel info m₀ = some m → IdentGone I m := by
  intro hall
  obtain ⟨m, hrun, _⟩ := setupPaging_tables (blank_bootRam realImage) (placed_bootRam realImage)
    (show 0x40000 < 0x40001 by decide)
  obtain ⟨vm, hclear, hwalk⟩ := setupPaging_clear (blank_bootRam realImage) hrun
  have hnone := hall realImage bootRam m 0x40001 0x9000 (blank_bootRam realImage) hrun [] _ .start
    vm hclear 0x401000 (by decide)
  rw [hwalk] at hnone
  cases hnone

end OsPlayground.VirtMem
