/-
  File:      OsPlayground/VirtMem/Paged.lean
  Subject:   ANY PAGE DIRECTORY AND TABLES. `Paged` asks of them what the allocator's accesses rest
             on, and nothing of what the tables hold: pages may be mapped anywhere, slots may share a
             table, the table of a clear slot may be in use or hold old entries.

  * `Paged.loadWord_dir`, `Paged.readTable_eq`, `Paged.writeTable_eq` -- the accesses;
  * `Loads` -- what a search changes: clear slots from `KERNEL_BASE` on get their tables;
  * **`Paged.findFreeVirtPage_spec`** -- the search, which stops at a table that is not reached;
  * `Paged.reserveBlock_spec` -- the first clear slot above the kernel's first block;
  * `Paged.writePage_eq`, `Paged.writePage_fault`, `Tables.walk_written` -- the entry of a page.
-/
import OsPlayground.VirtMem.Image
import OsPlayground.VirtMem.Scan

namespace OsPlayground.VirtMem

open Paging Halting

variable (I : KernelImage)

/-- **A page directory and its tables**: the directory is reached where it is linked; a slot is
    clear or names one of the tables; the address of a table leads to it or nowhere. -/
structure Tables (m : Ram) : Prop where
  dir : walk m I.pageDir (kernelBase + I.pageDir) = some I.pageDir
  slot : ∀ k < 1024, I.dirAt m k = 0 ∨
    (Present (I.dirAt m k) ∧ ∃ t < 1024, frame (I.dirAt m k) = I.pageTables + 4096 * t)
  pointer : ∀ t < 1024, walk m I.pageDir (I.pageTables + 4096 * t) = none ∨
    walk m I.pageDir (I.pageTables + 4096 * t) = some (I.pageTables + 4096 * t)

/-- The machine with such a directory, which the allocator knows. -/
structure Paged (vm : Vm) : Prop where
  cr3 : vm.cr3 = I.pageDir
  pageDir : vm.pageDir = kernelBase + I.pageDir
  pageTables : vm.pageTables = kernelBase + I.pageTables
  tables : Tables I vm.ram

/-- The table of slot `k`: the one it names; for a clear slot its own, which `load_page_table` gives
    it. -/
def tableOf (m : Ram) (k : Nat) : Nat :=
  if I.dirAt m k = 0 then I.pageTables + 4096 * k else frame (I.dirAt m k)

/-- The entry of the page at `v` in the table of its slot. -/
def pageEntry (m : Ram) (v : Nat) : Nat :=
  m (tableOf I m (v / 4194304) + 4 * (v / 4096 % 1024))

/-- **The table of slot `k` is reached** through the pointer `get_page_table` makes. -/
def Reached (m : Ram) (k : Nat) : Prop := walk m I.pageDir (tableOf I m k) = some (tableOf I m k)

/-- **What a search changes**, from memory `m` to `m'`: clear slots from `KERNEL_BASE` on are loaded
    with their own tables. -/
def Loads (m m' : Ram) : Prop :=
  ∀ a, m' a = m a ∨ ∃ k, 768 ≤ k ∧ k < 1024 ∧ a = I.pageDir + 4 * k ∧ I.dirAt m k = 0 ∧
    m' a = I.tableEntry k

variable {I} {vm : Vm} {m m' m'' : Ram} {k t j w v : Nat}

/-! ## 1. Tables -/

theorem tableOf_clear (h : I.dirAt m k = 0) : tableOf I m k = I.pageTables + 4096 * k := if_pos h

theorem tableOf_named (h : I.dirAt m k ≠ 0) : tableOf I m k = frame (I.dirAt m k) := if_neg h

/-- The present bit of a slot tells whether it is clear. -/
theorem Tables.present_iff (h : Tables I m) (hk : k < 1024) :
    Present (I.dirAt m k) ↔ I.dirAt m k ≠ 0 := by
  rcases h.slot k hk with h0 | h0
  · rw [h0]
    exact ⟨fun hp => absurd hp not_present_zero, fun hne => absurd rfl hne⟩
  · refine ⟨fun _ h1 => ?_, fun _ => h0.1⟩
    have hp := h0.1
    rw [h1] at hp
    exact not_present_zero hp

/-- The table of a slot is one of the array. -/
theorem Tables.tableOf_eq (h : Tables I m) (hk : k < 1024) :
    ∃ t < 1024, tableOf I m k = I.pageTables + 4096 * t := by
  rcases h.slot k hk with h0 | h0
  · exact ⟨k, hk, tableOf_clear h0⟩
  · obtain ⟨hp, t, ht, heq⟩ := h0
    refine ⟨t, ht, ?_⟩
    rw [tableOf_named fun h0 => not_present_zero (h0 ▸ hp), heq]

theorem Tables.tableOf_aligned (h : Tables I m) (hk : k < 1024) : tableOf I m k % 4096 = 0 := by
  obtain ⟨t, _, heq⟩ := h.tableOf_eq hk
  have haligned := I.pageTables_aligned
  omega

/-- A table that is not reached is not mapped. -/
theorem Tables.not_reached (h : Tables I m) (hk : k < 1024) (hr : ¬ Reached I m k) :
    walk m I.pageDir (tableOf I m k) = none := by
  obtain ⟨t, ht, heq⟩ := h.tableOf_eq hk
  unfold Reached at hr
  rw [heq] at hr ⊢
  exact (h.pointer t ht).resolve_right hr

/-- **The walk of a page in a slot that is not clear.** -/
theorem Tables.walk_iff (h : Tables I m) (hv : v < 0x100000000)
    (hne : I.dirAt m (v / 4194304) ≠ 0) :
    walk m I.pageDir v = none ↔ ¬ Present (pageEntry I m v) := by
  have hp := (h.present_iff (k := v / 4194304) (by omega)).mpr hne
  rw [walk_eq_none_iff rfl hp]
  unfold pageEntry
  rw [tableOf_named hne]
  rfl

/-- A page whose entry is not present is unmapped. -/
theorem Tables.unmapped (h : Tables I m) (hv : v < 0x100000000)
    (hfree : ¬ Present (pageEntry I m v)) : walk m I.pageDir v = none := by
  by_cases hne : I.dirAt m (v / 4194304) = 0
  · exact I.walk_absent hne
  · exact (h.walk_iff hv hne).mpr hfree

/-! ## 2. Accesses -/

theorem Paged.withRam (h : Paged I vm) (hm : Tables I m) : Paged I (vm.withRam m) :=
  ⟨h.cr3, h.pageDir, h.pageTables, hm⟩

theorem Paged.recorded (h : Paged I vm) (k t : Nat) : Paged I (record k t vm) :=
  ⟨h.cr3, h.pageDir, h.pageTables, h.tables⟩

/-- Word `k` of the directory is reached through the kernel's half. -/
theorem Paged.walk_dir (h : Paged I vm) (hk : k < 1024) :
    walk vm.ram vm.cr3 (vm.pageDir + 4 * k) = some (I.pageDir + 4 * k) := by
  have hbase : kernelBase = 768 * 4194304 := rfl
  have haligned := I.aligned
  rw [h.cr3, h.pageDir]
  exact walk_page (by omega) (by omega) h.tables.dir

theorem Paged.loadWord_dir (h : Paged I vm) (hk : k < 1024) :
    loadWord (vm.pageDir + 4 * k) vm = (vm, some (I.dirAt vm.ram k)) :=
  loadWord_of_walk (h.walk_dir hk)

theorem Paged.storeWord_dir (h : Paged I vm) (hk : k < 1024) :
    storeWord (vm.pageDir + 4 * k) w vm = (vm.withRam (I.setDir vm.ram k w), some ()) :=
  storeWord_of_walk (h.walk_dir hk)

theorem Paged.getPageTable_eq (h : Paged I vm) (hk : k < 1024) :
    getPageTable k vm = (vm, some (pageMask (I.dirAt vm.ram k))) := by
  unfold getPageTable
  rw [h.loadWord_dir hk]
  rfl

/-- The pointer of a slot that is not clear. -/
theorem Paged.getPageTable_named (h : Paged I vm) (hk : k < 1024) (hne : I.dirAt vm.ram k ≠ 0) :
    getPageTable k vm = (vm, some (tableOf I vm.ram k)) := by
  rw [h.getPageTable_eq hk, tableOf_named hne]
  rfl

/-- **`load_page_table` writes the slot's own table.** -/
theorem Paged.loadPageTable_eq (h : Paged I vm) (hk : k < 1024) :
    loadPageTable k vm = (vm.withRam (I.setDir vm.ram k (I.tableEntry k)), some ()) := by
  have hbase : kernelBase = 0xc0000000 := rfl
  have hle := I.tables_le
  have hlt := I.stop_lt
  have haligned := I.pageTables_aligned
  have hentry : kernelVirtToPhys (vm.pageTables + 4 * (1024 * k)) ||| pdFlags =
      I.tableEntry k := by
    have hphys : kernelVirtToPhys (vm.pageTables + 4 * (1024 * k)) = I.pageTables + 4096 * k := by
      rw [h.pageTables, kernelVirtToPhys_high]
      · omega
      · omega
      · unfold KernelImage.pageTables
        omega
    rw [hphys]
    exact frame_or_one (by omega)
  unfold loadPageTable
  rw [hentry, h.storeWord_dir hk]

/-- **The table of a slot is reached** word by word, or not at all. -/
theorem Paged.walk_entry (h : Paged I vm) (hk : k < 1024) (hj : j < 1024)
    (hr : Reached I vm.ram k) : walk vm.ram vm.cr3 (tableOf I vm.ram k + 4 * j) =
      some (tableOf I vm.ram k + 4 * j) := by
  rw [h.cr3]
  exact walk_page (h.tables.tableOf_aligned hk) (by omega) hr

theorem Paged.walk_entry_none (h : Paged I vm) (hk : k < 1024) (hj : j < 1024)
    (hr : ¬ Reached I vm.ram k) : walk vm.ram vm.cr3 (tableOf I vm.ram k + 4 * j) = none := by
  rw [h.cr3]
  exact walk_page_none (h.tables.tableOf_aligned hk) (by omega) (h.tables.not_reached hk hr)

theorem Paged.readTable_eq (h : Paged I vm) (hk : k < 1024) (hj : j < 1024)
    (hr : Reached I vm.ram k) : readTable k (tableOf I vm.ram k) j vm =
      (record k (tableOf I vm.ram k) vm, some (vm.ram (tableOf I vm.ram k + 4 * j))) := by
  unfold readTable
  exact loadWord_of_walk (h.walk_entry hk hj hr)

theorem Paged.readTable_fault (h : Paged I vm) (hk : k < 1024) (hj : j < 1024)
    (hr : ¬ Reached I vm.ram k) : readTable k (tableOf I vm.ram k) j vm =
      (record k (tableOf I vm.ram k) vm, none) := by
  unfold readTable
  exact loadWord_fault (h.walk_entry_none hk hj hr)

theorem Paged.writeTable_eq (h : Paged I vm) (hk : k < 1024) (hj : j < 1024)
    (hr : Reached I vm.ram k) : writeTable k (tableOf I vm.ram k) j w vm =
      ((record k (tableOf I vm.ram k) vm).withRam
        (Function.update vm.ram (tableOf I vm.ram k + 4 * j) w), some ()) := by
  unfold writeTable
  exact storeWord_of_walk (h.walk_entry hk hj hr)

theorem Paged.writeTable_fault (h : Paged I vm) (hk : k < 1024) (hj : j < 1024)
    (hr : ¬ Reached I vm.ram k) : writeTable k (tableOf I vm.ram k) j w vm =
      (record k (tableOf I vm.ram k) vm, none) := by
  unfold writeTable
  exact storeWord_fault (h.walk_entry_none hk hj hr)

/-! ## 3. Loading tables -/

theorem Loads.refl : Loads I m m := fun _ => Or.inl rfl

/-- A clear slot loaded with its table. -/
theorem loads_setDir (hk : 768 ≤ k) (hk' : k < 1024) (hc : I.dirAt m k = 0) :
    Loads I m (I.setDir m k (I.tableEntry k)) := by
  intro a
  by_cases ha : a = I.pageDir + 4 * k
  · refine Or.inr ⟨k, hk, hk', ha, hc, ?_⟩
    rw [ha]
    exact I.dirAt_setDir_self m
  · exact Or.inl (Function.update_of_ne ha _ _)

/-- What becomes of a slot. -/
theorem Loads.slot_cases (h : Loads I m m') (k : Nat) : I.dirAt m' k = I.dirAt m k ∨
    (768 ≤ k ∧ I.dirAt m k = 0 ∧ I.dirAt m' k = I.tableEntry k) := by
  rcases h (I.pageDir + 4 * k) with h1 | h1
  · exact Or.inl h1
  · obtain ⟨k', hlow, _, heq, hc, hm'⟩ := h1
    obtain rfl : k' = k := by omega
    exact Or.inr ⟨hlow, hc, hm'⟩

theorem Loads.dirAt (h : Loads I m m') (hne : I.dirAt m k ≠ 0) : I.dirAt m' k = I.dirAt m k :=
  (h.slot_cases k).resolve_right fun h1 => hne h1.2.1

theorem Loads.dirAt_low (h : Loads I m m') (hk : k < 768) : I.dirAt m' k = I.dirAt m k :=
  (h.slot_cases k).resolve_right fun h1 => by omega

/-- **No entry of a table changes.** -/
theorem Loads.entryAt (h : Loads I m m') (t j : Nat) : I.entryAt m' t j = I.entryAt m t j := by
  rcases h (I.pageTables + 4096 * t + 4 * j) with h1 | h1
  · exact h1
  · obtain ⟨k, _, hk, heq, _⟩ := h1
    unfold KernelImage.pageTables at heq
    omega

/-- A slot keeps its table. -/
theorem Loads.tableOf_eq (h : Loads I m m') (k : Nat) : tableOf I m' k = tableOf I m k := by
  rcases h.slot_cases k with h1 | h1
  · unfold tableOf
    rw [h1]
  · obtain ⟨_, hc, hm'⟩ := h1
    have hne : I.dirAt m' k ≠ 0 := by
      rw [hm']
      exact Nat.succ_ne_zero _
    rw [tableOf_clear hc, tableOf_named hne, hm', I.frame_tableEntry]

theorem Loads.pageEntry_eq (h : Loads I m m') (ht : Tables I m) (hv : v < 0x100000000) :
    pageEntry I m' v = pageEntry I m v := by
  obtain ⟨t, _, heq⟩ := ht.tableOf_eq (k := v / 4194304) (by omega)
  unfold pageEntry
  rw [h.tableOf_eq, heq]
  exact h.entryAt t _

theorem Loads.trans (h₁ : Loads I m m') (h₂ : Loads I m' m'') : Loads I m m'' := by
  intro a
  rcases h₂ a with h3 | h3
  · rw [h3]
    exact h₁ a
  · obtain ⟨k, hlow, hk, heq, hc, hm''⟩ := h3
    refine Or.inr ⟨k, hlow, hk, heq, ?_, hm''⟩
    by_contra hne
    rw [h₁.dirAt hne] at hc
    exact hne hc

/-- **The translation of a slot that was not clear stays.** -/
theorem Loads.walk_same (h : Loads I m m') (ht : Tables I m) (hv : v < 0x100000000)
    (hd : I.dirAt m' (v / 4194304) = I.dirAt m (v / 4194304)) :
    walk m' I.pageDir v = walk m I.pageDir v := by
  refine walk_congr hd fun hp => ?_
  have hk : v / 4194304 < 1024 := by omega
  have hne := (ht.present_iff hk).mp hp
  have hentry := h.pageEntry_eq ht hv
  unfold pageEntry at hentry
  rw [h.tableOf_eq, tableOf_named hne] at hentry
  exact hentry

/-- An address below `KERNEL_BASE` is translated as before. -/
theorem Loads.walk_low (h : Loads I m m') (ht : Tables I m) (hv : v < kernelBase) :
    walk m' I.pageDir v = walk m I.pageDir v := by
  have hbase : kernelBase = 768 * 4194304 := rfl
  exact h.walk_same ht (by omega) (h.dirAt_low (by omega))

theorem Loads.tables (h : Loads I m m') (ht : Tables I m) : Tables I m' := by
  have hbase : kernelBase = 768 * 4194304 := rfl
  have hle := I.tables_le
  have hlt := I.stop_lt
  have htab : I.pageTables = I.pageDir + 4096 := rfl
  refine ⟨?_, fun k hk => ?_, fun t ht' => ?_⟩
  · have hne : I.dirAt m ((kernelBase + I.pageDir) / 4194304) ≠ 0 := by
      intro h0
      have hnone := I.walk_absent h0
      rw [ht.dir] at hnone
      cases hnone
    rw [h.walk_same ht (by omega) (h.dirAt hne)]
    exact ht.dir
  · rcases h.slot_cases k with h1 | h1
    · rw [h1]
      exact ht.slot k hk
    · rw [h1.2.2]
      exact Or.inr ⟨I.present_tableEntry k, k, hk, I.frame_tableEntry k⟩
  · rw [h.walk_low ht (by omega)]
    exact ht.pointer t ht'

/-- A table stays reached, or not. -/
theorem Loads.reached (h : Loads I m m') (ht : Tables I m) (hk : k < 1024) :
    Reached I m' k ↔ Reached I m k := by
  have hbase : kernelBase = 0xc0000000 := rfl
  have hle := I.tables_le
  have hlt := I.stop_lt
  have htab : I.pageTables = I.pageDir + 4096 := rfl
  obtain ⟨t, ht', heq⟩ := ht.tableOf_eq hk
  unfold Reached
  rw [h.tableOf_eq, h.walk_low ht (by omega)]

/-! ## 4. The search -/

variable (I) in
/-- **A page is taken for the search**: the table of its slot is reached and has its entry
    present. -/
def Taken (m : Ram) (v : Nat) : Prop := Reached I m (v / 4194304) ∧ Present (pageEntry I m v)

variable (I) in
/-- The machine during a search that began with memory `m`. -/
def Searching (m : Ram) (vm : Vm) : Prop := Paged I vm ∧ Loads I m vm.ram

variable (I) in
/-- The machine when the table of slot `k` is used: the slot is loaded, its table reached. -/
structure InUse (m : Ram) (k : Nat) (vm : Vm) : Prop where
  search : Searching I m vm
  slot : I.dirAt vm.ram k ≠ 0
  reached : Reached I m k

/-- The first half of a block's pass: the slot is loaded when it is clear. -/
theorem Searching.ensure (h : Searching I m vm) (hk : 768 ≤ k) (hk' : k < 1024) :
    ∃ vm', (if Present (I.dirAt vm.ram k) then (vm, some ()) else loadPageTable k vm) =
      (vm', some ()) ∧ Searching I m vm' ∧ I.dirAt vm'.ram k ≠ 0 := by
  obtain ⟨hp, hl⟩ := h
  by_cases hc : I.dirAt vm.ram k = 0
  · rw [if_neg fun hpr => (hp.tables.present_iff hk').mp hpr hc, hp.loadPageTable_eq hk']
    have hset := loads_setDir hk hk' hc
    refine ⟨_, rfl, ⟨hp.withRam (hset.tables hp.tables), hl.trans hset⟩, ?_⟩
    rw [Vm.withRam_ram, I.dirAt_setDir_self]
    exact Nat.succ_ne_zero _
  · rw [if_pos ((hp.tables.present_iff hk').mpr hc)]
    exact ⟨vm, rfl, ⟨hp, hl⟩, hc⟩

/-- **One block**: a table that is reached is searched, one that is not stops the search. -/
theorem Searching.scanBlock_spec {page : Nat} (ht : Tables I m) (h : Searching I m vm)
    (hlow : kernelStart ≤ page) (hlt : page < 0x100000000) (hpage : page % 4096 = 0) :
    BlockOutcome (Searching I m) (fun q => InUse I m (q / 4194304)) (Taken I m)
      (fun page => ¬ Reached I m (page / 4194304)) page (scanBlock page vm) := by
  have hstart : kernelStart = 0xc0100000 := rfl
  have hk : page / 4194304 < 1024 := by omega
  obtain ⟨vm₁, hensure, ⟨hp, hl⟩, hne⟩ := h.ensure (k := page / 4194304) (by omega) hk
  unfold scanBlock
  rw [virtToPdIndex_eq]
  dsimp only
  rw [h.1.loadWord_dir hk, andThen_some, hensure, andThen_some, hp.getPageTable_named hk hne,
    andThen_some]
  by_cases hr : Reached I m (page / 4194304)
  · have hread : Reads (InUse I m (page / 4194304)) (Taken I m) (page / 4194304)
        (tableOf I vm₁.ram (page / 4194304)) page := by
      intro u hu cur _ _ hcur
      obtain ⟨⟨hpu, hlu⟩, hneu, _⟩ := hu
      have htab : tableOf I vm₁.ram (page / 4194304) =
          tableOf I u.ram (page / 4194304) := by
        rw [hl.tableOf_eq, hlu.tableOf_eq]
      have hru := (hlu.reached ht hk).mpr hr
      rw [virtToPtIndex_eq, htab]
      refine ⟨_, _, hpu.readTable_eq hk (by omega) hru, ⟨⟨hpu.recorded _ _, hlu⟩, hneu, hr⟩, ?_⟩
      have hentry := hlu.pageEntry_eq ht (v := cur) (by omega)
      unfold pageEntry at hentry
      rw [hcur] at hentry
      unfold Taken pageEntry
      rw [hentry, hcur]
      exact ⟨fun hpr => ⟨hr, hpr⟩, And.right⟩
    obtain ⟨vm', a, hrun, hJ, ha⟩ := scanTable_answer rfl hlt (by omega) hpage hread
      ⟨⟨hp, hl⟩, hne, hr⟩
    rw [hrun]
    cases a with
    | none => exact ⟨hJ.search, ha⟩
    | some q =>
        have hslot : q / 4194304 = page / 4194304 := ha.2.2.1
        refine ⟨?_, ha⟩
        show InUse I m (q / 4194304) vm'
        rw [hslot]
        exact hJ
  · have hr₁ : ¬ Reached I vm₁.ram (page / 4194304) := fun hcon => hr ((hl.reached ht hk).mp hcon)
    have hidx : virtToPtIndex page < 1024 := by
      rw [virtToPtIndex_eq]
      omega
    rw [scanTable_fault (hp.readTable_fault hk hidx hr₁)]
    exact hr

/-- **The search in any directory**: it answers the least page from `_kernel_start` on that is not
    taken, or null where all are, or stops at the first table that is not reached. -/
theorem Paged.findFreeVirtPage_spec (h : Paged I vm) :
    SearchOutcome (Searching I vm.ram) (fun q => InUse I vm.ram (q / 4194304)) (Taken I vm.ram)
      (fun page => ¬ Reached I vm.ram (page / 4194304)) (findFreeVirtPage vm) :=
  findFreeVirtPage_answer
    (fun _ _ hu hlow hlt hpage => hu.scanBlock_spec h.tables hlow hlt hpage) ⟨h, Loads.refl⟩

/-! ## 5. reserve_block -/

variable (I) in
/-- **What `reserve_block` does** from memory `m` to `m'`: null where no slot above the kernel's
    first is clear, or the first clear one loaded. -/
def Reserves (m m' : Ram) (b : Nat) : Prop :=
  (b = 0 ∧ m' = m ∧ ∀ i, 769 ≤ i → i < 1024 → I.dirAt m i ≠ 0) ∨
  ∃ k, b = 4194304 * k ∧ 769 ≤ k ∧ k < 1024 ∧ I.dirAt m k = 0 ∧
    (∀ i, 769 ≤ i → i < k → I.dirAt m i ≠ 0) ∧ m' = I.setDir m k (I.tableEntry k)

variable (I) in
/-- The invariant of the loop of `reserve_block`. -/
structure ReserveInv (vm : Vm) (x : Nat × Vm) : Prop where
  same : x.2 = vm
  lt : x.1 < 0x100000000
  aligned : x.1 % 4194304 = 0
  low : 769 ≤ top x.1 / 4194304
  used : ∀ i, 769 ≤ i → i < top x.1 / 4194304 → I.dirAt vm.ram i ≠ 0

/-- **One pass of `reserve_block`.** -/
theorem reserveStep_spec {x : Nat × Vm} (h : Paged I vm) (hI : ReserveInv I vm x) :
    (∃ x', reserveStep x = .inl x' ∧ ReserveInv I vm x' ∧
        top x'.1 / 4194304 = top x.1 / 4194304 + 1 ∧ top x.1 / 4194304 < 1024) ∨
      ∃ r, reserveStep x = .inr r ∧
        Post (fun vm' b => vm' = vm.withRam vm'.ram ∧ Reserves I vm.ram vm'.ram b) r := by
  obtain ⟨page, u⟩ := x
  obtain rfl : u = vm := hI.same
  have hlt : page < 0x100000000 := hI.lt
  have hal : page % 4194304 = 0 := hI.aligned
  have hlow : 769 ≤ top page / 4194304 := hI.low
  have hused : ∀ i, 769 ≤ i → i < top page / 4194304 → I.dirAt u.ram i ≠ 0 := hI.used
  have hsize : pageBlockSize = 4194304 := by decide
  unfold reserveStep
  dsimp only
  by_cases h0 : page = 0
  · rw [if_neg (fun hc => hc h0)]
    rw [h0, top_zero] at hused
    exact Or.inr ⟨_, rfl, .intro ⟨rfl, Or.inl ⟨rfl, rfl, hused⟩⟩⟩
  · have htop := top_of_pos h0
    have hk : page / 4194304 < 1024 := by omega
    rw [if_pos h0, virtToPdIndex_eq, h.loadWord_dir hk]
    dsimp only
    rw [htop] at hused hlow
    by_cases hc : I.dirAt u.ram (page / 4194304) = 0
    · -- the first clear slot
      rw [if_neg (fun hp => (h.tables.present_iff hk).mp hp hc), h.loadPageTable_eq hk, andThen_some]
      refine Or.inr ⟨_, rfl, .intro ⟨rfl, Or.inr ?_⟩⟩
      exact ⟨page / 4194304, by omega, hlow, hk, hc, hused, rfl⟩
    · rw [if_pos ((h.tables.present_iff hk).mpr hc), hsize]
      have hnext : top ((page + 4194304) % 2 ^ 32) = page + 4194304 :=
        top_mod (by omega) (by omega)
      refine Or.inl ⟨_, rfl, ⟨rfl, ?_, ?_, ?_, fun i hi hlti => ?_⟩, ?_, ?_⟩
      · show (page + 4194304) % 2 ^ 32 < 0x100000000
        omega
      · show (page + 4194304) % 2 ^ 32 % 4194304 = 0
        omega
      · show 769 ≤ top ((page + 4194304) % 2 ^ 32) / 4194304
        rw [hnext]
        omega
      · have hlti : i < (page + 4194304) / 4194304 := by
          rw [← hnext]
          exact hlti
        by_cases heq : i = page / 4194304
        · rw [heq]
          exact hc
        · exact hused i hi (by omega)
      · show top ((page + 4194304) % 2 ^ 32) / 4194304 = top page / 4194304 + 1
        rw [hnext, htop]
        omega
      · show top page / 4194304 < 1024
        omega

/-- **`reserve_block` loads the first clear slot** above the kernel's first. -/
theorem Paged.reserveBlock_spec (h : Paged I vm) :
    Post (fun vm' b => vm' = vm.withRam vm'.ram ∧ Reserves I vm.ram vm'.ram b) (reserveBlock vm) := by
  have hfirst : firstBlock = 769 * 4194304 := by decide
  have htop : top firstBlock = 769 * 4194304 := by decide
  have hrun : ∃ r, FuelLoop.run reserveStep 1025 (firstBlock, vm) = some r ∧
      Post (fun vm' b => vm' = vm.withRam vm'.ram ∧ Reserves I vm.ram vm'.ram b) r := by
    refine FuelLoop.run_passes (ReserveInv I vm) _ (fun x => 1024 - top x.1 / 4194304)
      (fun x hI => ?_) ?_ ?_
    · rcases reserveStep_spec h hI with h1 | h1
      · obtain ⟨x', hx', hI', hnext, hlt⟩ := h1
        exact Or.inl ⟨x', hx', hI', by omega⟩
      · exact Or.inr h1
    · refine ⟨rfl, by dsimp only; omega, by dsimp only; omega, ?_, fun i hi hlti => ?_⟩
      · show 769 ≤ top firstBlock / 4194304
        omega
      · have hlti : i < top firstBlock / 4194304 := hlti
        omega
    · show 1024 - top firstBlock / 4194304 < 1025
      omega
  obtain ⟨r, hr, hpost⟩ := hrun
  unfold reserveBlock
  rw [hr]
  exact hpost

/-! ## 6. The entry of a page -/

section Entry

variable {phys : Nat}

/-- **The entry of a page is written** in the table of its slot. -/
theorem Paged.writePage_eq (h : Paged I vm) (hv : v < 0x100000000)
    (hne : I.dirAt vm.ram (v / 4194304) ≠ 0) (hr : Reached I vm.ram (v / 4194304))
    (hphys : phys % 4096 = 0) (htab : tableOf I vm.ram (v / 4194304) = I.pageTables + 4096 * t) :
    writePage v phys vm =
      ((record (v / 4194304) (I.pageTables + 4096 * t) vm).withRam
        (I.setEntry vm.ram t (v / 4096 % 1024) (phys + 1)), some v) := by
  have hk : v / 4194304 < 1024 := by omega
  have hentry : pageMask phys ||| ptFlags = phys + 1 := by
    have hsize : pageSize = 4096 := rfl
    unfold pageMask
    rw [hsize, hphys, Nat.sub_zero]
    exact frame_or_one hphys
  have hwrite := h.writeTable_eq (w := phys + 1) hk (show v / 4096 % 1024 < 1024 by omega) hr
  rw [htab] at hwrite
  unfold writePage
  rw [virtToPdIndex_eq, virtToPtIndex_eq, hentry]
  dsimp only
  rw [h.getPageTable_named hk hne, andThen_some, htab, hwrite, andThen_some]
  rfl

/-- A table that is not reached cannot be written. -/
theorem Paged.writePage_fault (h : Paged I vm) (hv : v < 0x100000000)
    (hne : I.dirAt vm.ram (v / 4194304) ≠ 0) (hr : ¬ Reached I vm.ram (v / 4194304)) :
    writePage v phys vm =
      (record (v / 4194304) (tableOf I vm.ram (v / 4194304)) vm, none) := by
  have hk : v / 4194304 < 1024 := by omega
  unfold writePage
  rw [virtToPdIndex_eq, virtToPtIndex_eq]
  dsimp only
  rw [h.getPageTable_named hk hne, andThen_some,
    h.writeTable_fault hk (show v / 4096 % 1024 < 1024 by omega) hr, andThen_none]

/-- The page at 0 cannot be written while slot 0 is clear. -/
theorem Paged.writePage_null_fault (h : Paged I vm) (hclear : I.dirAt vm.ram 0 = 0) :
    writePage 0 phys vm = (record 0 0 vm, none) := by
  have hpt : getPageTable 0 vm = (vm, some 0) := by
    rw [h.getPageTable_eq (by omega), hclear]
    rfl
  have hfault : walk vm.ram vm.cr3 0 = none := by
    rw [h.cr3]
    exact I.walk_absent hclear
  have hwrite : writeTable 0 0 0 (pageMask phys ||| ptFlags) vm = (record 0 0 vm, none) :=
    storeWord_fault hfault
  unfold writePage
  rw [show virtToPdIndex 0 = 0 from rfl, show virtToPtIndex 0 = 0 from rfl]
  dsimp only
  rw [hpt, andThen_some, hwrite, andThen_none]

/-- **A page whose entry is written** is translated to the frame. -/
theorem Tables.walk_written (h : Tables I m) (hv : v < 0x100000000) (hvp : v % 4096 = 0)
    (hne : I.dirAt m (v / 4194304) ≠ 0) (hphys : phys % 4096 = 0)
    (htab : tableOf I m (v / 4194304) = I.pageTables + 4096 * t) :
    walk (I.setEntry m t (v / 4096 % 1024) (phys + 1)) I.pageDir v = some phys := by
  have hk : v / 4194304 < 1024 := by omega
  have hdir : I.dirAt (I.setEntry m t (v / 4096 % 1024) (phys + 1)) (v / 4194304) =
      I.dirAt m (v / 4194304) := I.dirAt_setEntry m hk
  have hentry : I.setEntry m t (v / 4096 % 1024) (phys + 1)
      (tableCell (I.dirAt m (v / 4194304)) v) = phys + 1 := by
    unfold tableCell
    rw [← tableOf_named hne, htab]
    exact I.entryAt_setEntry_self m
  rw [walk_of_entries hdir ((h.present_iff hk).mpr hne) hentry (present_succ hphys),
    frame_succ hphys, hvp, Nat.add_zero]

end Entry

/-- `map_page` of an aligned page. -/
theorem mapPage_of_ne {phys : Nat} (hne : v ≠ 0) (hv : v % 4096 = 0) (hphys : phys % 4096 = 0) :
    mapPage v phys vm = writePage v phys vm := by
  have hsize : pageSize = 4096 := rfl
  unfold mapPage
  rw [if_neg hne, andThen_some, hsize, if_pos ⟨hv, hphys⟩]

end OsPlayground.VirtMem
