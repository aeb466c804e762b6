/-
  File:      OsPlayground/VirtMem/Pointers.lean
  Subject:   ARE THE TABLES REACHED THROUGH THEIR POINTERS? `get_page_table` takes the physical
             address out of a directory entry and uses it as a virtual one, which the identity
             mapping makes right. `clear_ident_map` clears slot 0, and with it the addresses of the
             tables below 4 MiB.

  * `Lost` -- the call that uses such a pointer;
  * `kernelCall_booted` -- every other call keeps the machine's invariant;
  * **`derefs_valid_iff`** -- every use of a table pointer is valid, but for that call.
-/
import OsPlayground.VirtMem.Stable

namespace OsPlayground.VirtMem

open Paging Halting

variable (I : KernelImage)

/-- **The calls the kernel may issue**: `load_page_table` for a clear slot, as its callers make it;
    `map_page` with no page or with one of a block reserved earlier; the others freely. -/
def KernelCall (h : History) (vm : Vm) : VirtCall → Prop
  | .reserveBlock => True
  | .loadPageTable k => k < 1024 ∧ I.dirAt vm.ram k = 0
  | .mapPage v _ => v = 0 ∨ InReserved h v
  | .clearIdentMap => True

/-- **The call that uses a lost pointer**: `map_page(nullptr, _)` while slot 0 is clear and the
    first table lies below 4 MiB. -/
def Lost (vm : Vm) (c : VirtCall) : Prop :=
  (∃ phys, c = .mapPage 0 phys) ∧ I.dirAt vm.ram 0 = 0 ∧ I.pageTables < 0x400000

variable {I} {m m' : Ram} {vm vm' : Vm} {h : History}

/-- **`map_page(nullptr, phys)` keeps every use valid** where the first table is open, also where
    it stops. -/
theorem mapPage_null_booted {phys : Nat} (hb : Booted I vm) (ho : Open I vm.ram 0) :
    Booted I (mapPage 0 phys vm).1 := by
  obtain ⟨vm₁, q, hrun, hb₁, hfound⟩ := findFreeVirtPage_spec hb ho
  unfold mapPage
  rw [if_pos rfl, hrun, andThen_some]
  by_cases hal : q % pageSize = 0 ∧ phys % pageSize = 0
  · rw [if_pos hal]
    rcases hfound with h1 | h1
    · obtain ⟨rfl, hram, _⟩ := h1
      rcases hb₁.shape.slot 0 (by omega) with h0 | h0
      · rw [hb₁.paged.writePage_null_fault h0]
        exact hb₁.record_clear h0
      · have hpos := I.blocks_pos
        have hid : Ident I vm₁.ram := by
          unfold Ident
          rw [h0, I.slotTable_own (by omega)]
        obtain ⟨vm₂, r, hrun₂, hb₂, _⟩ := writePage_null hb₁ hid hal.2
        rw [hrun₂]
        exact hb₂
    · obtain ⟨hlt, hfree, hram⟩ := h1
      obtain ⟨vm₂, r, hrun₂, hb₂, _⟩ := writePage_found hb ho hal.2 hb₁ hlt hfree hram
      rw [hrun₂]
      exact hb₂
  · rw [if_neg hal]
    exact hb₁

/-- With slot 0 clear the first table is not mapped where its address points. -/
theorem firstTable_unmapped (hb : Booted I vm) (hclear : I.dirAt vm.ram 0 = 0)
    (hlow : I.pageTables < 0x400000) {d : Nat} (hd : d < 4096) :
    walk vm.ram vm.cr3 (I.pageTables + d) = none := by
  have haligned := I.pageTables_aligned
  have hzero : (I.pageTables + d) / 4194304 = 0 := by omega
  rw [hb.cr3]
  refine I.walk_absent ?_
  rw [hzero]
  exact hclear

/-- The scan of the search's first block reads the first table, and faults. -/
theorem scanBlock_lost (hb : Booted I vm) (hclear : I.dirAt vm.ram 0 = 0)
    (hlow : I.pageTables < 0x400000) :
    scanBlock 0xc0100000 vm = (record 768 I.pageTables vm, none) := by
  have hpos := I.blocks_pos
  have hne : I.dirAt vm.ram 768 ≠ 0 := by
    rw [hb.shape.high 0 (by omega)]
    exact tableEntry_ne_zero 0
  have hfirst : I.slotTable 768 = 0 := I.slotTable_kernel (Nat.le_refl _) (by omega)
  have htable : getPageTable 768 vm = (vm, some I.pageTables) := by
    rw [hb.getPageTable_table (by omega) hne, hfirst]
    rfl
  have hread : readTable 768 I.pageTables 256 vm = (record 768 I.pageTables vm, none) :=
    loadWord_fault (firstTable_unmapped hb hclear hlow (show 4 * 256 < 4096 by omega))
  have hscan : scanTable 768 I.pageTables (nextBlock 0xc0100000) 0xc0100000 vm =
      (record 768 I.pageTables vm, none) := by
    refine scanTable_fault ?_
    rw [show virtToPtIndex 0xc0100000 = 256 from rfl]
    exact hread
  unfold scanBlock
  rw [show virtToPdIndex 0xc0100000 = 768 from rfl]
  dsimp only
  rw [hb.loadWord_dir (by omega), andThen_some,
    if_pos ((present_iff hb.shape (by omega)).mpr hne), andThen_some, htable, andThen_some, hscan]

/-- **The lost pointer**: the search starts in slot 768, whose table is the first one. -/
theorem findFreeVirtPage_lost (hb : Booted I vm) (hclear : I.dirAt vm.ram 0 = 0)
    (hlow : I.pageTables < 0x400000) :
    findFreeVirtPage vm = (record 768 I.pageTables vm, none) ∧
      ¬ (⟨I.tableEntry 0, none⟩ : Deref).Valid ∧
      (record 768 I.pageTables vm).derefs = ⟨I.tableEntry 0, none⟩ :: vm.derefs := by
  have hpos := I.blocks_pos
  have hsearch : searchStep (pageMask kernelStart, vm) =
      .inr (record 768 I.pageTables vm, none) := by
    have hstart : pageMask kernelStart = 0xc0100000 := by decide
    rw [hstart]
    unfold searchStep
    dsimp only
    rw [if_pos (by decide), scanBlock_lost hb hclear hlow]
  refine ⟨?_, fun hvalid => ?_, ?_⟩
  · unfold findFreeVirtPage
    rw [FuelLoop.run_stop hsearch]
  · cases hvalid (I.present_tableEntry 0)
  · show (⟨vm.ram (vm.cr3 + 4 * 768), walk vm.ram vm.cr3 I.pageTables⟩ : Deref) :: _ = _
    have hentry : vm.ram (vm.cr3 + 4 * 768) = I.tableEntry 0 := by
      rw [hb.cr3]
      exact hb.shape.high 0 (by omega)
    have hseen := firstTable_unmapped hb hclear hlow (show 0 < 4096 by omega)
    rw [Nat.add_zero] at hseen
    rw [hentry, hseen]

variable (I) in
/-- **The invariant over the kernel's calls.** -/
structure KernelInv (h : History) (vm : Vm) : Prop where
  booted : Booted I vm
  reserved : ∀ b, IsReserved h b → Block I vm.ram b

/-- A completed `map_page(nullptr, phys)`, the first table being open. -/
theorem mapPage_null_effect {phys q : Nat} (hb : Booted I vm) (ho : Open I vm.ram 0)
    (hrun : mapPage 0 phys vm = (vm', some q)) : MapsAnonymous I vm.ram vm'.ram phys q := by
  obtain ⟨_, hphys, _⟩ := mapPage_aligned hrun
  obtain ⟨vm₁, q₁, hfind, hb₁, hfound⟩ := findFreeVirtPage_spec hb ho
  unfold mapPage at hrun
  rw [if_pos rfl, hfind, andThen_some] at hrun
  by_cases hal : q₁ % pageSize = 0 ∧ phys % pageSize = 0
  · rw [if_pos hal] at hrun
    refine ⟨vm₁.ram, ?_⟩
    rcases hfound with h1 | h1
    · obtain ⟨rfl, hram, hall⟩ := h1
      rcases hb₁.shape.slot 0 (by omega) with h0 | h0
      · rw [hb₁.paged.writePage_null_fault h0] at hrun
        cases hrun
      · have hpos := I.blocks_pos
        have hzero : I.slotTable (0 / 4194304) = 0 := I.slotTable_own (by omega)
        have hid : Ident I vm₁.ram := h0.trans (congrArg I.tableEntry hzero)
        obtain ⟨_, rfl, hram'⟩ := (writePage_null hb₁ hid hphys).of_eq hrun
        rw [hzero]
        exact ⟨Or.inl ⟨rfl, hram, hall⟩, hram'⟩
    · obtain ⟨hlt, hfree, hram⟩ := h1
      obtain ⟨_, rfl, hram'⟩ := (writePage_found hb ho hphys hb₁ hlt hfree hram).of_eq hrun
      exact ⟨Or.inr ⟨hlt, hfree, hram⟩, hram'⟩
  · rw [if_neg hal] at hrun
    cases hrun

/-- Where the call is not the lost one, the first table is open to it. -/
theorem open_of_not_lost {phys : Nat} (hb : Booted I vm) (hno : ¬ Lost I vm (.mapPage 0 phys)) :
    Open I vm.ram 0 := by
  have hpos := I.blocks_pos
  rcases hb.shape.slot 0 (by omega) with h0 | h0
  · refine Or.inr ?_
    by_contra hlow
    exact hno ⟨⟨phys, rfl⟩, h0, by omega⟩
  · refine Or.inl ?_
    unfold Ident
    rw [h0, I.slotTable_own (by omega)]

/-- **Every call but the lost one keeps the machine's invariant**, also where it stops. -/
theorem kernelCall_booted {c : VirtCall} (hI : KernelInv I h vm) (hc : KernelCall I h vm c)
    (hno : ¬ Lost I vm c) : Booted I (virtStep vm c).1 := by
  have hb := hI.booted
  cases c with
  | reserveBlock =>
      obtain ⟨vm', b, hrun, hb', _⟩ := reserveBlock_spec hb
      show Booted I (reserveBlock vm).1
      rw [hrun]
      exact hb'
  | loadPageTable k =>
      show Booted I (andThen (loadPageTable k vm) fun vm _ => (vm, some 0)).1
      rw [hb.loadPageTable_eq hc.1]
      exact hb.withRam (hb.shape.load hc.1 hc.2)
  | clearIdentMap =>
      show Booted I (andThen (clearIdentMap vm) fun vm _ => (vm, some 0)).1
      rw [hb.clearIdentMap_eq]
      exact hb.withRam hb.shape.clear
  | mapPage v phys =>
      by_cases h0 : v = 0
      · subst h0
        exact mapPage_null_booted hb (open_of_not_lost hb hno)
      · obtain ⟨b, hb₁, hin⟩ := hc.resolve_left h0
        have hblock := hI.reserved b hb₁
        obtain ⟨hslot, hlt, _⟩ := hblock.slot_of hin
        show Booted I (mapPage v phys vm).1
        by_cases hal : v % 4096 = 0 ∧ phys % 4096 = 0
        · obtain ⟨vm', q, hrun, hb', _⟩ := mapPage_explicit hb hlt hal.1 hal.2
            (hslot ▸ hblock.above) (hslot ▸ hblock.slot)
          rw [hrun]
          exact hb'
        · have hsize : pageSize = 4096 := rfl
          unfold mapPage
          rw [if_neg h0, andThen_some, hsize, if_neg hal]
          exact hb

/-- A completed call leaves the slots above 0 that are not clear. -/
theorem kernelCall_keep {c : VirtCall} {q : Nat} (hI : KernelInv I h vm)
    (hc : KernelCall I h vm c) (hno : ¬ Lost I vm c) (hrun : virtStep vm c = (vm', some q)) :
    ∀ k < 1024, 0 < k → I.dirAt vm.ram k ≠ 0 → I.dirAt vm'.ram k = I.dirAt vm.ram k := by
  have hb := hI.booted
  have hs := hb.shape
  intro k hk hpos hne
  cases c with
  | reserveBlock =>
      obtain ⟨_, hr⟩ := (reserveBlock_spec hb).of_eq hrun
      exact (extends_reserves (P := fun _ => False) hs hr).dir k hk hne
  | loadPageTable i =>
      have hload : andThen (loadPageTable i vm) (fun vm _ => (vm, some 0)) = (vm', some q) := hrun
      rw [hb.loadPageTable_eq hc.1, andThen_some] at hload
      cases hload
      refine I.dirAt_setDir_ne _ fun heq => hne ?_
      rw [heq]
      exact hc.2
  | clearIdentMap =>
      have hclear : andThen (clearIdentMap vm) (fun vm _ => (vm, some 0)) = (vm', some q) := hrun
      rw [hb.clearIdentMap_eq, andThen_some] at hclear
      cases hclear
      exact I.dirAt_setDir_ne _ (by omega)
  | mapPage v phys =>
      obtain ⟨hq, hphys, hsame⟩ := mapPage_aligned hrun
      by_cases h0 : v = 0
      · subst h0
        have ha := mapPage_null_effect hb (open_of_not_lost hb hno) hrun
        exact (anonymous_effect hs hphys ha).2.dir k hk hne
      · obtain rfl := hsame h0
        obtain ⟨b, hb₁, hin⟩ := hc.resolve_left h0
        have hblock := hI.reserved b hb₁
        obtain ⟨hslot, hlt, _⟩ := hblock.slot_of hin
        obtain ⟨_, _, hram⟩ := (mapPage_explicit hb hlt hq hphys (hslot ▸ hblock.above)
          (hslot ▸ hblock.slot)).of_eq hrun
        rw [hram]
        exact I.dirAt_setEntry _ hk

/-- The lost call faults at its first use of a pointer. -/
theorem virtStep_lost {c : VirtCall} (hb : Booted I vm) (hlost : Lost I vm c) :
    virtStep vm c = (record 768 I.pageTables vm, none) := by
  obtain ⟨⟨phys, rfl⟩, hclear, hlow⟩ := hlost
  obtain ⟨hfind, _⟩ := findFreeVirtPage_lost hb hclear hlow
  show mapPage 0 phys vm = _
  unfold mapPage
  rw [if_pos rfl, hfind, andThen_none]

/-- **One call keeps the invariant.** -/
theorem kernelInv_step {c : VirtCall} {q : Nat} (hI : KernelInv I h vm) (hc : KernelCall I h vm c)
    (hrun : virtStep vm c = (vm', some q)) : KernelInv I ((c, q) :: h) vm' := by
  have hno : ¬ Lost I vm c := by
    intro hlost
    rw [virtStep_lost hI.booted hlost] at hrun
    cases hrun
  have hb' := kernelCall_booted hI hc hno
  rw [hrun] at hb'
  refine ⟨hb', fun b hb => ?_⟩
  rcases isReserved_cons hb with hb | hb
  · obtain ⟨rfl, rfl, hne⟩ := hb
    obtain ⟨_, hr⟩ := (reserveBlock_spec hI.booted).of_eq hrun
    exact (hr.block hI.booted.shape hne).1
  · exact (hI.reserved b hb).keep (kernelCall_keep hI hc hno hrun)

/-- **Every use of a page table pointer is valid, but for the lost one**: after every run of the
    kernel's calls, before and after `clear_ident_map`, a call uses valid pointers only exactly
    where it is not `map_page(nullptr, _)` with slot 0 clear and the first table below 4 MiB. -/
theorem derefs_valid_iff (I : KernelImage) (m : Ram) (hm : LeftBySetup I m) (h : History) (vm : Vm)
    (hr : Run virtStep (KernelCall I) (bootVm I m) h vm) (c : VirtCall)
    (hc : KernelCall I h vm c) :
    (∀ d ∈ (virtStep vm c).1.derefs, d.Valid) ↔ ¬ Lost I vm c := by
  have hI : KernelInv I h vm := hr.inv (KernelInv I)
    ⟨(bootVm_booted hm).1, fun b hb => absurd hb.1 List.not_mem_nil⟩
    fun _ _ _ _ _ hI hc hrun => kernelInv_step hI hc hrun
  refine ⟨fun hvalid hlost => ?_, fun hno => (kernelCall_booted hI hc hno).valid⟩
  rw [virtStep_lost hI.booted hlost] at hvalid
  obtain ⟨⟨_, _⟩, hclear, hlow⟩ := hlost
  obtain ⟨_, hinvalid, hderefs⟩ := findFreeVirtPage_lost hI.booted hclear hlow
  rw [show (record 768 I.pageTables vm, (none : Option Nat)).1.derefs = _ from hderefs] at hvalid
  exact hinvalid (hvalid _ List.mem_cons_self)

/-- At the start of a boot `map_page(nullptr, 0x900000)` uses valid pointers only. -/
theorem derefs_valid_iff_boot : ∃ m, LeftBySetup realImage m ∧
    ∀ d ∈ (virtStep (bootVm realImage m) (.mapPage 0 0x900000)).1.derefs, d.Valid := by
  obtain ⟨m, hm⟩ := exists_leftBySetup realImage
  refine ⟨m, hm, (derefs_valid_iff realImage m hm [] _ .start (.mapPage 0 0x900000)
    (Or.inl rfl)).mpr fun hlost => ?_⟩
  have hid : realImage.dirAt m 0 = realImage.tableEntry 0 := (bootVm_booted hm).2
  have hclear : realImage.dirAt m 0 = 0 := hlost.2.1
  rw [hid] at hclear
  exact tableEntry_ne_zero 0 hclear

/-- **After `clear_ident_map` that call uses a lost pointer.** -/
theorem not_derefs_valid_cleared : ¬ ∀ (I : KernelImage) (m : Ram), LeftBySetup I m → ∀ h vm,
    Run virtStep (KernelCall I) (bootVm I m) h vm → ∀ c, KernelCall I h vm c →
      ∀ d ∈ (virtStep vm c).1.derefs, d.Valid := by
  intro hall
  obtain ⟨m, hm⟩ := exists_leftBySetup realImage
  have hb := (bootVm_booted hm).1
  have hrun : virtStep (bootVm realImage m) .clearIdentMap =
      ((bootVm realImage m).withRam (realImage.setDir m 0 0), some 0) := by
    show andThen (clearIdentMap (bootVm realImage m)) (fun vm _ => (vm, some 0)) = _
    rw [hb.clearIdentMap_eq]
    rfl
  have hrun₁ : Run virtStep (KernelCall realImage) (bootVm realImage m) [(.clearIdentMap, 0)]
      ((bootVm realImage m).withRam (realImage.setDir m 0 0)) := .call .start trivial hrun
  have hb₁ : Booted realImage ((bootVm realImage m).withRam (realImage.setDir m 0 0)) :=
    hb.withRam hb.shape.clear
  have hclear : realImage.dirAt (realImage.setDir m 0 0) 0 = 0 := realImage.dirAt_setDir_self m
  have hlow : realImage.pageTables < 0x400000 := by decide
  have hvalid := hall realImage m hm _ _ hrun₁ (.mapPage 0 0x900000) (Or.inl rfl)
  rw [virtStep_lost hb₁ ⟨⟨0x900000, rfl⟩, hclear, hlow⟩] at hvalid
  obtain ⟨_, hinvalid, hderefs⟩ := findFreeVirtPage_lost hb₁ hclear hlow
  refine hinvalid (hvalid _ ?_)
  show _ ∈ (record 768 realImage.pageTables ((bootVm realImage m).withRam
    (realImage.setDir m 0 0))).derefs
  rw [hderefs]
  exact List.mem_cons_self

end OsPlayground.VirtMem
