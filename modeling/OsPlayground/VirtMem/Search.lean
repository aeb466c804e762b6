/-
  File:      OsPlayground/VirtMem/Search.lean
  Subject:   WHAT THE OPERATIONS OF THE ALLOCATOR DO. Each has one lemma, used by name afterwards.

  `Booted` is the invariant: the registers and pointers of the boot, the shape of the tables, and
  every use of a table pointer so far valid.

  * `scanTable_spec`, `scanBlock_spec`, `findFreeVirtPage_spec` -- the search answers the least
    unmapped page from `_kernel_start` on (the loops are in Scan.lean);
  * `writePage_spec`, `mapPage_anonymous`, `mapPage_explicit` -- a page is mapped;
  * `reserveBlock_spec` -- the first clear slot above the kernel's first block.
-/
import OsPlayground.VirtMem.Paged
import OsPlayground.VirtMem.Shape

namespace OsPlayground.VirtMem

open Paging Halting

variable (I : KernelImage)

/-- **The invariant of the machine.** -/
structure Booted (vm : Vm) : Prop where
  cr3 : vm.cr3 = I.pageDir
  pageDir : vm.pageDir = kernelBase + I.pageDir
  pageTables : vm.pageTables = kernelBase + I.pageTables
  shape : Shape I vm.ram
  valid : ∀ d ∈ vm.derefs, d.Valid

/-- The memory after the table of a clear slot is loaded. -/
def loaded (m : Ram) (k : Nat) : Ram :=
  if I.dirAt m k = 0 then I.setDir m k (I.tableEntry k) else m

/-- **The least unmapped page from `lo` on.** -/
structure LeastFree (m : Ram) (lo q : Nat) : Prop where
  low : lo ≤ q
  page : q % 4096 = 0
  free : walk m I.pageDir q = none
  least : ∀ v, v % 4096 = 0 → lo ≤ v → v < q → walk m I.pageDir v ≠ none

variable {I} {vm vm' : Vm} {m : Ram} {k j t w : Nat}

theorem Booted.withRam (h : Booted I vm) (hm : Shape I m) : Booted I (vm.withRam m) :=
  ⟨h.cr3, h.pageDir, h.pageTables, hm, h.valid⟩

/-! ## 1. Accesses -/

/-- **A booted machine is paged**, whatever of the identity mapping is left. -/
theorem Booted.paged (h : Booted I vm) : Paged I vm := by
  have hpos := I.blocks_pos
  refine ⟨h.cr3, h.pageDir, h.pageTables, h.shape.walk_high I.page_pageDir, fun k hk => ?_,
    fun t ht => ?_⟩
  · refine (h.shape.slot k hk).imp_right fun hslot => ?_
    rw [hslot]
    exact ⟨I.present_tableEntry _, I.slotTable k, I.slotTable_lt hk, I.frame_tableEntry _⟩
  · by_cases hlow : 0x400000 ≤ I.pageTables + 4096 * t
    · exact Or.inr (h.shape.walk_low (I.page_table ht) (Or.inr hlow))
    · rcases h.shape.slot 0 (by omega) with hclear | hslot
      · refine Or.inl (I.walk_absent ?_)
        have hzero : (I.pageTables + 4096 * t) / 4194304 = 0 := by omega
        rw [hzero]
        exact hclear
      · rw [I.slotTable_own (by omega)] at hslot
        exact Or.inr (h.shape.walk_low (I.page_table ht) (Or.inl hslot))

theorem Booted.loadWord_dir (h : Booted I vm) (hk : k < 1024) :
    loadWord (vm.pageDir + 4 * k) vm = (vm, some (I.dirAt vm.ram k)) := h.paged.loadWord_dir hk

theorem Booted.getPageTable_eq (h : Booted I vm) (hk : k < 1024) :
    getPageTable k vm = (vm, some (pageMask (I.dirAt vm.ram k))) := h.paged.getPageTable_eq hk

theorem Shape.tableOf_eq (h : Shape I m) (hk : k < 1024) (hne : I.dirAt m k ≠ 0) :
    tableOf I m k = I.pageTables + 4096 * I.slotTable k := by
  rw [tableOf_named hne, present_of_ne_zero h hk hne, I.frame_tableEntry]

/-- The pointer of a slot that is not clear. -/
theorem Booted.getPageTable_table (h : Booted I vm) (hk : k < 1024) (hne : I.dirAt vm.ram k ≠ 0) :
    getPageTable k vm = (vm, some (I.pageTables + 4096 * I.slotTable k)) := by
  rw [h.paged.getPageTable_named hk hne, h.shape.tableOf_eq hk hne]

/-- **`load_page_table` writes the slot's own table.** -/
theorem Booted.loadPageTable_eq (h : Booted I vm) (hk : k < 1024) :
    loadPageTable k vm = (vm.withRam (I.setDir vm.ram k (I.tableEntry k)), some ()) :=
  h.paged.loadPageTable_eq hk

/-- **`clear_ident_map` clears slot 0.** -/
theorem Booted.clearIdentMap_eq (h : Booted I vm) :
    clearIdentMap vm = (vm.withRam (I.setDir vm.ram 0 0), some ()) := by
  unfold clearIdentMap
  rw [identPdIndex_eq]
  exact h.paged.storeWord_dir (by omega)

/-- **A use of an open table's pointer is valid.** -/
theorem Booted.record (h : Booted I vm) (hk : k < 1024) (hne : I.dirAt vm.ram k ≠ 0)
    (ho : Open I vm.ram (I.slotTable k)) :
    Booted I (record k (I.pageTables + 4096 * I.slotTable k) vm) := by
  refine ⟨h.cr3, h.pageDir, h.pageTables, h.shape, fun d hd => ?_⟩
  rcases List.mem_cons.mp hd with rfl | hd
  · intro _
    show walk vm.ram vm.cr3 _ = some (frame (vm.ram (vm.cr3 + 4 * k)))
    have hentry : vm.ram (I.pageDir + 4 * k) = I.tableEntry (I.slotTable k) :=
      present_of_ne_zero h.shape hk hne
    rw [h.cr3, hentry, I.frame_tableEntry]
    exact h.shape.walk_table (I.slotTable_lt hk) ho
  · exact h.valid d hd

/-- A use of a pointer from a clear slot is no use of a table. -/
theorem Booted.record_clear {k t : Nat} (h : Booted I vm) (hclear : I.dirAt vm.ram k = 0) :
    Booted I (VirtMem.record k t vm) := by
  refine ⟨h.cr3, h.pageDir, h.pageTables, h.shape, fun d hd => ?_⟩
  rcases List.mem_cons.mp hd with rfl | hd
  · intro hp
    have hentry : vm.ram (vm.cr3 + 4 * k) = 0 := by
      rw [h.cr3]
      exact hclear
    have hp : Present (vm.ram (vm.cr3 + 4 * k)) := hp
    rw [hentry] at hp
    exact absurd hp not_present_zero
  · exact h.valid d hd

theorem Booted.walk_entry (h : Booted I vm) (ht : t < 1024) (hj : j < 1024)
    (ho : Open I vm.ram t) : walk vm.ram vm.cr3 (I.pageTables + 4096 * t + 4 * j) =
      some (I.pageTables + 4096 * t + 4 * j) := by
  have haligned := I.pageTables_aligned
  rw [h.cr3]
  exact walk_page (by omega) (by omega) (h.shape.walk_table ht ho)

/-- An entry of an open table is read. -/
theorem Booted.readTable_eq (h : Booted I vm) (hk : k < 1024) (hj : j < 1024)
    (ho : Open I vm.ram (I.slotTable k)) :
    readTable k (I.pageTables + 4096 * I.slotTable k) j vm =
      (VirtMem.record k (I.pageTables + 4096 * I.slotTable k) vm,
        some (I.entryAt vm.ram (I.slotTable k) j)) := by
  unfold readTable
  exact loadWord_of_walk (h.walk_entry (I.slotTable_lt hk) hj ho)

/-! ## 2. Loading a table -/

theorem loaded_of_ne (h : I.dirAt m k ≠ 0) : loaded I m k = m := by
  unfold loaded
  rw [if_neg h]

theorem loaded_of_clear (h : I.dirAt m k = 0) : loaded I m k = I.setDir m k (I.tableEntry k) := by
  unfold loaded
  rw [if_pos h]

theorem shape_loaded (h : Shape I m) (hk : k < 1024) : Shape I (loaded I m k) := by
  by_cases hc : I.dirAt m k = 0
  · rw [loaded_of_clear hc]
    exact h.load hk hc
  · rw [loaded_of_ne hc]
    exact h

theorem loaded_ne_zero : I.dirAt (loaded I m k) k ≠ 0 := by
  by_cases hc : I.dirAt m k = 0
  · rw [loaded_of_clear hc, I.dirAt_setDir_self]
    exact tableEntry_ne_zero k
  · rw [loaded_of_ne hc]
    exact hc

theorem dirAt_loaded_ne {i : Nat} (h : i ≠ k) : I.dirAt (loaded I m k) i = I.dirAt m i := by
  by_cases hc : I.dirAt m k = 0
  · rw [loaded_of_clear hc, I.dirAt_setDir_ne _ h]
  · rw [loaded_of_ne hc]

theorem entryAt_loaded (hk : k < 1024) : I.entryAt (loaded I m k) t j = I.entryAt m t j := by
  by_cases hc : I.dirAt m k = 0
  · rw [loaded_of_clear hc, I.entryAt_setDir _ hk]
  · rw [loaded_of_ne hc]

theorem Shape.walk_loaded (h : Shape I m) (hk : k < 1024) (h0 : 0 < k) {va : Nat}
    (hva : va < 0x100000000) : walk (loaded I m k) I.pageDir va = walk m I.pageDir va := by
  by_cases hc : I.dirAt m k = 0
  · rw [loaded_of_clear hc]
    exact h.walk_load hk h0 hc hva
  · rw [loaded_of_ne hc]

/-- Loading a table of another slot leaves slot 0, and so what is open. -/
theorem open_loaded (h0 : 0 < k) : Open I (loaded I m k) t ↔ Open I m t := by
  unfold Open Ident
  rw [dirAt_loaded_ne (by omega)]

/-- Where the first table is open every table is. -/
theorem Open.all (h : Open I m 0) (t : Nat) : Open I m t := by
  unfold Open at h ⊢
  rcases h with h | h
  · exact Or.inl h
  · exact Or.inr (by omega)

/-! ## 3. The search for a free page -/

variable (I) in
/-- **The answer of a search from `page` on in its block**: the least unmapped page, or `none`
    where the rest of the block is mapped. -/
def Scanned (m : Ram) (page : Nat) : Option Nat → Prop
  | some q => LeastFree I m page q ∧ q / 4194304 = page / 4194304
  | none => ∀ v, v % 4096 = 0 → page ≤ v → v / 4194304 = page / 4194304 →
      walk m I.pageDir v ≠ none

/-- The answer of the inner loop, where a page is taken when it is mapped. -/
theorem scanned_of_answer {page : Nat} {a : Option Nat}
    (h : BlockAnswer (fun v => walk m I.pageDir v ≠ none) page a) : Scanned I m page a := by
  cases a with
  | none => exact h
  | some q =>
      obtain ⟨hq, hlow, hslot, hfree, hleast⟩ := h
      exact ⟨⟨hlow, hq, not_not.mp hfree, hleast⟩, hslot⟩

/-- The entry of a page tells whether the page is mapped. -/
theorem Shape.walk_none_iff (h : Shape I m) (hk : k < 1024) (hne : I.dirAt m k ≠ 0) {v : Nat}
    (hv : v / 4194304 = k) :
    walk m I.pageDir v = none ↔ ¬ Present (I.entryAt m (I.slotTable k) (v / 4096 % 1024)) := by
  refine I.walk_slot_none_iff ?_
  rw [hv]
  exact present_of_ne_zero h hk hne

/-- **The inner loop** finds the least unmapped page of the block from `page` on. -/
theorem scanTable_spec {page : Nat} (h : Booted I vm) (hk : k < 1024) (hslot : page / 4194304 = k)
    (hpos : 0 < page) (hp : page % 4096 = 0) (hne : I.dirAt vm.ram k ≠ 0)
    (ho : Open I vm.ram (I.slotTable k)) :
    Post (fun vm' a => Booted I vm' ∧ vm'.ram = vm.ram ∧ Scanned I vm.ram page a)
      (scanTable k (I.pageTables + 4096 * I.slotTable k) (nextBlock page) page vm) := by
  have hread : Reads (fun u => Booted I u ∧ u.ram = vm.ram) (fun v => walk vm.ram I.pageDir v ≠ none)
      k (I.pageTables + 4096 * I.slotTable k) page := by
    intro u hu cur _ _ hcur
    obtain ⟨hb, hram⟩ := hu
    have hne' : I.dirAt u.ram k ≠ 0 := by rwa [hram]
    have ho' : Open I u.ram (I.slotTable k) := by rwa [hram]
    have hwalk := h.shape.walk_none_iff hk hne hcur
    refine ⟨_, _, hb.readTable_eq hk ?_ ho', ⟨hb.record hk hne' ho', hram⟩, ?_⟩
    · rw [virtToPtIndex_eq]
      omega
    · rw [virtToPtIndex_eq, hram]
      exact ((not_congr hwalk).trans not_not).symm
  refine (scanTable_answer hslot (by omega) hpos hp hread ⟨h, rfl⟩).imp fun vm' a hpost => ?_
  obtain ⟨⟨hb', hram'⟩, ha⟩ := hpost
  exact ⟨hb', hram', scanned_of_answer ha⟩

/-- The first half of a block's pass: its table is loaded when the slot is clear. -/
theorem Booted.ensure (h : Booted I vm) (hk : k < 1024) :
    (if Present (I.dirAt vm.ram k) then (vm, some ()) else loadPageTable k vm) =
      (vm.withRam (loaded I vm.ram k), some ()) := by
  by_cases hc : I.dirAt vm.ram k = 0
  · rw [if_neg (fun hp => (present_iff h.shape hk).mp hp hc), h.loadPageTable_eq hk,
      loaded_of_clear hc]
  · rw [if_pos ((present_iff h.shape hk).mpr hc), loaded_of_ne hc]
    rfl

/-- The answer of a search looks at the translation only. -/
theorem Scanned.congr {m' : Ram} {page : Nat} {a : Option Nat} (hpage : page < 0x100000000)
    (hw : ∀ v < 0x100000000, walk m' I.pageDir v = walk m I.pageDir v) (h : Scanned I m' page a) :
    Scanned I m page a := by
  cases a with
  | none =>
      intro v hv hpv hvk
      rw [← hw v (by omega)]
      exact h v hv hpv hvk
  | some q =>
      obtain ⟨⟨h1, h2, h3, h4⟩, h5⟩ := h
      refine ⟨⟨h1, h2, ?_, fun v hv hpv hvq => ?_⟩, h5⟩
      · rw [← hw q (by omega)]
        exact h3
      · rw [← hw v (by omega)]
        exact h4 v hv hpv hvq

/-- **A block's pass**: the least unmapped page of the block from `page` on. A table is loaded
    only where a page is found. -/
theorem scanBlock_spec {page : Nat} (h : Booted I vm) (hlow : kernelBase ≤ page)
    (hlt : page < 0x100000000) (hp : page % 4096 = 0) (ho : Open I vm.ram 0) :
    Post (fun vm' a => Booted I vm' ∧ Scanned I vm.ram page a ∧
        vm'.ram = if a = none then vm.ram else loaded I vm.ram (page / 4194304))
      (scanBlock page vm) := by
  have hbase : kernelBase = 0xc0000000 := rfl
  have hk : page / 4194304 < 1024 := by omega
  have h0 : 0 < page / 4194304 := by omega
  have hshape := shape_loaded h.shape hk
  have hb : Booted I (vm.withRam (loaded I vm.ram (page / 4194304))) := h.withRam hshape
  have hscan := scanTable_spec hb hk rfl (by omega) hp loaded_ne_zero
    (((open_loaded h0).mpr ho).all _)
  unfold scanBlock
  rw [virtToPdIndex_eq]
  dsimp only
  rw [h.loadWord_dir hk, andThen_some, h.ensure hk, andThen_some,
    hb.getPageTable_table hk loaded_ne_zero, andThen_some]
  refine hscan.imp fun vm' a hpost => ?_
  obtain ⟨hb', hram, ha⟩ := hpost
  have ha' : Scanned I vm.ram page a :=
    ha.congr hlt fun v hv => h.shape.walk_loaded hk h0 hv
  refine ⟨hb', ha', ?_⟩
  cases a with
  | some q => exact hram
  | none =>
      -- a clear slot leaves its first page unmapped, so the slot was not clear
      have hne : I.dirAt vm.ram (page / 4194304) ≠ 0 := fun hc =>
        ha' page hp (Nat.le_refl _) rfl (I.walk_absent hc)
      rw [hram, Vm.withRam_ram, loaded_of_ne hne, if_pos rfl]

variable (I) in
/-- **What `find_free_virt_page` answers**, from memory `m` to `m'`: null where every page from
    `_kernel_start` on is mapped, or the least unmapped page, its table loaded. -/
def Found (m m' : Ram) (q : Nat) : Prop :=
  (q = 0 ∧ m' = m ∧
    ∀ v, v % 4096 = 0 → kernelStart ≤ v → v < 0x100000000 → walk m I.pageDir v ≠ none) ∨
  (q < 0x100000000 ∧ LeastFree I m kernelStart q ∧ m' = loaded I m (q / 4194304))

/-- **`find_free_virt_page` answers the least unmapped page** from `_kernel_start` on. -/
theorem findFreeVirtPage_spec (h : Booted I vm) (ho : Open I vm.ram 0) :
    Post (fun vm' q => Booted I vm' ∧ Found I vm.ram vm'.ram q) (findFreeVirtPage vm) := by
  have hbase : kernelBase = 0xc0000000 := rfl
  have hstart : kernelStart = 0xc0100000 := rfl
  have hblock : ∀ u page, Booted I u ∧ u.ram = vm.ram → kernelStart ≤ page → page < 0x100000000 →
      page % 4096 = 0 → BlockOutcome (fun u => Booted I u ∧ u.ram = vm.ram)
        (fun q u => Booted I u ∧ u.ram = loaded I vm.ram (q / 4194304))
        (fun v => walk vm.ram I.pageDir v ≠ none) (fun _ => False) page (scanBlock page u) := by
    intro u page hu hlow hlt hp
    obtain ⟨hb, hram⟩ := hu
    have ho' : Open I u.ram 0 := by rwa [hram]
    obtain ⟨vm', a, hrun, hb', hscan, hram'⟩ := scanBlock_spec hb (by omega) hlt hp ho'
    rw [hram] at hscan hram'
    rw [hrun]
    cases a with
    | none => exact ⟨⟨hb', hram'⟩, hscan⟩
    | some q =>
        obtain ⟨hq, hslot⟩ := hscan
        refine ⟨⟨hb', ?_⟩, hq.page, hq.low, hslot, fun hne => hne hq.free, hq.least⟩
        rw [hram', if_neg (by simp), hslot]
  have hout := findFreeVirtPage_answer hblock ⟨h, rfl⟩
  obtain ⟨vm', a, hrun⟩ : ∃ vm' a, findFreeVirtPage vm = (vm', a) := ⟨_, _, rfl⟩
  rw [hrun] at hout
  rw [hrun]
  match a, hout with
  | none, hlost =>
      obtain ⟨_, _, _, hfalse, _⟩ := hlost
      exact absurd hfalse id
  | some q, Or.inl hnone => exact .intro ⟨hnone.2.1.1, Or.inl ⟨hnone.1, hnone.2.1.2, hnone.2.2⟩⟩
  | some q, Or.inr hfound =>
      obtain ⟨⟨hb, hram⟩, hq, hlow, hlt, hfree, hleast⟩ := hfound
      exact .intro ⟨hb, Or.inr ⟨hlt, ⟨hlow, hq, not_not.mp hfree, hleast⟩, hram⟩⟩

/-! ## 4. map_page -/

/-- A clear slot is not the table of a slot that is not. -/
theorem Shape.used (h : Shape I m) (hk : k < 1024) (hne : I.dirAt m k ≠ 0) :
    ∀ i < 1024, 0 < i → I.dirAt m i = 0 → i ≠ I.slotTable k := by
  intro i hi h0 hc heq
  by_cases hkern : 768 ≤ k ∧ k < 768 + I.blocks
  · rw [I.slotTable_kernel hkern.1 hkern.2] at heq
    rw [h.low i h0 (by omega)] at hc
    exact tableEntry_ne_zero _ hc
  · rw [I.slotTable_own hkern] at heq
    rw [heq] at hc
    exact hne hc

/-- The place a page of the upper half has in the tables is no page of the image, unless the page
    is one through the kernel's half. -/
theorem place_not_image {v : Nat} (hv : v % 4096 = 0) (hlow : kernelBase ≤ v)
    (hno : ¬ I.Page (v - kernelBase)) :
    ¬ I.Page (4194304 * I.slotTable (v / 4194304) + 4096 * (v / 4096 % 1024)) := by
  intro hp
  have hbase : kernelBase = 0xc0000000 := rfl
  have hstop := I.stop_lt
  by_cases hkern : 768 ≤ v / 4194304 ∧ v / 4194304 < 768 + I.blocks
  · rw [I.slotTable_kernel hkern.1 hkern.2] at hp
    have hplace : 4194304 * (v / 4194304 - 768) + 4096 * (v / 4096 % 1024) = v - kernelBase := by
      omega
    rw [hplace] at hp
    exact hno hp
  · rw [I.slotTable_own hkern] at hp
    have h3 := hp.2.2
    omega

/-- An unmapped page of the upper half is no page of the image. -/
theorem Shape.not_image (h : Shape I m) {v : Nat} (hlow : kernelBase ≤ v)
    (hfree : walk m I.pageDir v = none) : ¬ I.Page (v - kernelBase) := by
  intro hp
  have hw := h.walk_high hp
  have hsum : kernelBase + (v - kernelBase) = v := by omega
  rw [hsum, hfree] at hw
  cases hw

/-- **The entry of a page is written** in the table of its slot. -/
theorem writePage_spec {v phys : Nat} (h : Booted I vm) (hv : v < 0x100000000)
    (hne : I.dirAt vm.ram (v / 4194304) ≠ 0) (ho : Open I vm.ram (I.slotTable (v / 4194304)))
    (hphys : phys % 4096 = 0)
    (himg : ¬ I.Page (4194304 * I.slotTable (v / 4194304) + 4096 * (v / 4096 % 1024))) :
    Post (fun vm' q => Booted I vm' ∧ q = v ∧
        vm'.ram = I.setEntry vm.ram (I.slotTable (v / 4194304)) (v / 4096 % 1024) (phys + 1))
      (writePage v phys vm) := by
  have hk : v / 4194304 < 1024 := by omega
  have hshape := h.shape.write (w := phys + 1) (by omega : v / 4096 % 1024 < 1024) himg
    (h.shape.used hk hne)
  have htab := h.shape.tableOf_eq hk hne
  have hr : Reached I vm.ram (v / 4194304) := by
    unfold Reached
    rw [htab]
    exact h.shape.walk_table (I.slotTable_lt hk) ho
  rw [h.paged.writePage_eq hv hne hr hphys htab]
  exact .intro ⟨(h.record hk hne ho).withRam hshape, rfl, rfl⟩

theorem loaded_slot {q : Nat} (h0 : 0 < q / 4194304) (ho : Open I vm.ram 0) {vm₁ : Vm}
    (hram : vm₁.ram = loaded I vm.ram (q / 4194304)) :
    I.dirAt vm₁.ram (q / 4194304) ≠ 0 ∧ Open I vm₁.ram (I.slotTable (q / 4194304)) := by
  rw [hram]
  exact ⟨loaded_ne_zero, ((open_loaded h0).mpr ho).all _⟩

/-- **The page found is mapped.** -/
theorem writePage_found {q phys : Nat} {vm₁ : Vm} (h : Booted I vm) (ho : Open I vm.ram 0)
    (hphys : phys % 4096 = 0) (hb : Booted I vm₁) (hq : q < 0x100000000)
    (hfree : LeastFree I vm.ram kernelStart q) (hram : vm₁.ram = loaded I vm.ram (q / 4194304)) :
    Post (fun vm' r => Booted I vm' ∧ r = q ∧
        vm'.ram = I.setEntry vm₁.ram (I.slotTable (q / 4194304)) (q / 4096 % 1024) (phys + 1))
      (writePage q phys vm₁) := by
  have hlow := hfree.low
  have hstart : kernelStart = 0xc0100000 := rfl
  have hbase : kernelBase = 0xc0000000 := rfl
  obtain ⟨hne, hopen⟩ := loaded_slot (by omega) ho hram
  exact writePage_spec hb hq hne hopen hphys (place_not_image hfree.page (by omega)
    (h.shape.not_image (by omega) hfree.free))

/-- The page at 0, which a failed search makes `map_page` write. -/
theorem writePage_null {phys : Nat} (h : Booted I vm) (hid : Ident I vm.ram)
    (hphys : phys % 4096 = 0) :
    Post (fun vm' r => Booted I vm' ∧ r = 0 ∧ vm'.ram = I.setEntry vm.ram 0 0 (phys + 1))
      (writePage 0 phys vm) := by
  have hpos := I.blocks_pos
  have hzero : I.slotTable 0 = 0 := I.slotTable_own (by omega)
  have hne : I.dirAt vm.ram 0 ≠ 0 := by
    rw [hid]
    exact tableEntry_ne_zero 0
  have h1 := writePage_spec (v := 0) h (by omega) hne (Or.inl hid) hphys (by
    intro hp
    rw [show 0 / 4194304 = 0 from rfl, hzero] at hp
    exact absurd hp.2.1 (by decide))
  rw [show 0 / 4194304 = 0 from rfl, hzero] at h1
  exact h1

variable (I) in
/-- **What `map_page(nullptr, phys)` does** from memory `m` to `m'`: the answer of the search, its
    entry written. -/
def MapsAnonymous (m m' : Ram) (phys q : Nat) : Prop :=
  ∃ m₁, Found I m m₁ q ∧
    m' = I.setEntry m₁ (I.slotTable (q / 4194304)) (q / 4096 % 1024) (phys + 1)

/-- **`map_page(nullptr, phys)`** while the identity mapping is there. -/
theorem mapPage_anonymous {phys : Nat} (h : Booted I vm) (hid : Ident I vm.ram)
    (hphys : phys % 4096 = 0) :
    Post (fun vm' q => Booted I vm' ∧ MapsAnonymous I vm.ram vm'.ram phys q)
      (mapPage 0 phys vm) := by
  have hpos := I.blocks_pos
  have hsize : pageSize = 4096 := rfl
  unfold mapPage
  rw [if_pos rfl]
  refine (findFreeVirtPage_spec h (Or.inl hid)).andThen fun vm₁ q hfound => ?_
  obtain ⟨hb, hfound⟩ := hfound
  rcases hfound with h1 | h1
  · obtain ⟨rfl, hram, hall⟩ := h1
    rw [if_pos ⟨rfl, hphys⟩]
    have hzero : I.slotTable (0 / 4194304) = 0 := I.slotTable_own (by omega)
    refine (writePage_null hb (by rwa [hram]) hphys).imp fun vm' r hpost => ?_
    obtain ⟨hb', rfl, hram'⟩ := hpost
    refine ⟨hb', vm₁.ram, Or.inl ⟨rfl, hram, hall⟩, ?_⟩
    rw [hzero]
    exact hram'
  · obtain ⟨hlt, hfree, hram⟩ := h1
    rw [if_pos ⟨hfree.page, hphys⟩]
    refine (writePage_found h (Or.inl hid) hphys hb hlt hfree hram).imp fun vm' r hpost => ?_
    obtain ⟨hb', rfl, hram'⟩ := hpost
    exact ⟨hb', vm₁.ram, Or.inr ⟨hlt, hfree, hram⟩, hram'⟩

/-- **`map_page(v, phys)`** with a page of a loaded slot above the kernel's blocks: it needs no
    identity mapping of the first 4 MiB, for its table lies higher. -/
theorem mapPage_explicit {v phys : Nat} (h : Booted I vm) (hv : v < 0x100000000)
    (hvp : v % 4096 = 0) (hphys : phys % 4096 = 0) (habove : 768 + I.blocks ≤ v / 4194304)
    (hne : I.dirAt vm.ram (v / 4194304) ≠ 0) :
    Post (fun vm' q => Booted I vm' ∧ q = v ∧
        vm'.ram = I.setEntry vm.ram (I.slotTable (v / 4194304)) (v / 4096 % 1024) (phys + 1))
      (mapPage v phys vm) := by
  have hstart := I.start_le
  have hpos := I.blocks_pos
  have hown : I.slotTable (v / 4194304) = v / 4194304 := I.slotTable_own (by omega)
  have hopen : Open I vm.ram (I.slotTable (v / 4194304)) := by
    rw [hown]
    unfold Open KernelImage.pageTables
    exact Or.inr (by omega)
  have hbase : kernelBase = 0xc0000000 := rfl
  have himg : ¬ I.Page (v - kernelBase) := by
    intro hp
    have hblock := hp.block
    omega
  rw [mapPage_of_ne (by omega) hvp hphys]
  exact writePage_spec h hv hne hopen hphys (place_not_image hvp (by omega) himg)

/-- A `map_page` that completes had aligned arguments, and returns the page it was given. -/
theorem mapPage_aligned {v phys q : Nat} (hrun : mapPage v phys vm = (vm', some q)) :
    q % 4096 = 0 ∧ phys % 4096 = 0 ∧ (v ≠ 0 → q = v) := by
  unfold mapPage at hrun
  obtain ⟨vm₁, virt, hvirt, hrest⟩ := andThen_eq_some hrun
  by_cases hal : virt % pageSize = 0 ∧ phys % pageSize = 0
  · rw [if_pos hal] at hrest
    unfold writePage at hrest
    obtain ⟨vm₂, pt, _, hwrite⟩ := andThen_eq_some hrest
    obtain ⟨vm₃, _, _, hend⟩ := andThen_eq_some hwrite
    obtain rfl : virt = q := Option.some.inj (congrArg Prod.snd hend)
    refine ⟨hal.1, hal.2, fun hne => ?_⟩
    rw [if_neg hne] at hvirt
    exact (Option.some.inj (congrArg Prod.snd hvirt)).symm
  · rw [if_neg hal] at hrest
    cases hrest

/-! ## 5. reserve_block -/

/-- **`reserve_block` loads the first clear slot** above the kernel's first. -/
theorem reserveBlock_spec (h : Booted I vm) :
    Post (fun vm' b => Booted I vm' ∧ Reserves I vm.ram vm'.ram b) (reserveBlock vm) := by
  refine h.paged.reserveBlock_spec.imp fun vm' b hpost => ?_
  obtain ⟨hvm', hr⟩ := hpost
  have hshape : Shape I vm'.ram := by
    rcases hr with h1 | h1
    · rw [h1.2.1]
      exact h.shape
    · obtain ⟨k, _, _, hk, hc, _, hram⟩ := h1
      rw [hram]
      exact h.shape.load hk hc
  refine ⟨?_, hr⟩
  rw [hvm']
  exact h.withRam hshape

end OsPlayground.VirtMem
