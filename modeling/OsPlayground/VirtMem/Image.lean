/-
  File:      OsPlayground/VirtMem/Image.lean
  Subject:   THE KERNEL IMAGE AND ITS PAGE TABLES (kernel.ld, bootstrap.s). The image is loaded at
             1 MiB and linked `KERNEL_BASE` above; its .bss holds `init_page_dir` and right after
             it `init_page_tables`, one table for every directory slot.

  The words of the directory and of the tables are read and written as cells of physical memory
  (`dirAt`, `entryAt`, `setDir`, `setEntry`); `walk_slot` is the translation through a slot that
  names one of these tables.
-/
import OsPlayground.Kernel
import OsPlayground.Library.Paging

namespace OsPlayground.VirtMem

open Paging

/-- **A kernel image**: the physical address of `init_page_dir` and of `_kernel_end`. The image
    ends below 1 GiB, so that it fits above `KERNEL_BASE`. -/
structure KernelImage where
  pageDir : Nat
  stop : Nat
  aligned : pageDir % 4096 = 0
  start_le : 0x100000 ≤ pageDir
  tables_le : pageDir + 4096 + 4096 * 1024 ≤ stop
  stop_lt : stop < 0x40000000

namespace KernelImage

variable (I : KernelImage)

/-- The physical address of `init_page_tables`. -/
def pageTables : Nat := I.pageDir + 4096

/-- `init_page_dir` as linked. -/
def initPageDir : Nat := kernelBase + I.pageDir

/-- `init_page_tables` as linked. -/
def initPageTables : Nat := kernelBase + I.pageTables

/-- `_kernel_end` as linked. -/
def kernelEnd : Nat := kernelBase + I.stop

/-- The number of 4 MiB blocks from physical 0 on that the image touches. -/
def blocks : Nat := (I.stop - 1) / 4194304 + 1

/-- A page of the image, by its physical address. -/
def Page (p : Nat) : Prop := p % 4096 = 0 ∧ 0x100000 ≤ p ∧ p < I.stop

/-- The directory entry of table `t`. -/
def tableEntry (t : Nat) : Nat := I.pageTables + 4096 * t + 1

/-! ## 1. The addresses -/

theorem pageDir_lt : I.pageDir < 0x40000000 := by
  have h1 := I.tables_le
  have h2 := I.stop_lt
  omega

theorem blocks_pos : 2 ≤ I.blocks := by
  have h1 := I.start_le
  have h2 := I.tables_le
  unfold blocks
  omega

theorem blocks_le : I.blocks ≤ 256 := by
  have h := I.stop_lt
  unfold blocks
  omega

theorem pageTables_aligned : I.pageTables % 4096 = 0 := by
  have h := I.aligned
  unfold pageTables
  omega

theorem phys_initPageDir : kernelVirtToPhys I.initPageDir = I.pageDir := by
  have h := I.pageDir_lt
  unfold kernelVirtToPhys initPageDir kernelBase
  omega

theorem phys_initPageTables : kernelVirtToPhys I.initPageTables = I.pageTables := by
  have h := I.pageDir_lt
  unfold kernelVirtToPhys initPageTables pageTables kernelBase
  omega

theorem phys_kernelEnd : kernelVirtToPhys I.kernelEnd = I.stop := by
  have h := I.stop_lt
  unfold kernelVirtToPhys kernelEnd kernelBase
  omega

/-- A page of the image lies in one of its blocks. -/
theorem Page.block {I : KernelImage} {p : Nat} (h : I.Page p) : p / 4194304 < I.blocks := by
  obtain ⟨_, _, h3⟩ := h
  unfold blocks
  omega

/-- The directory is a page of the image. -/
theorem page_pageDir : I.Page I.pageDir := by
  have h1 := I.tables_le
  exact ⟨I.aligned, I.start_le, by omega⟩

/-- Every table is a page of the image. -/
theorem page_table {t : Nat} (ht : t < 1024) : I.Page (I.pageTables + 4096 * t) := by
  have h1 := I.tables_le
  have h2 := I.aligned
  have h3 := I.start_le
  unfold pageTables
  refine ⟨?_, ?_, ?_⟩
  · omega
  · omega
  · omega

/-! ## 2. Cells -/

/-- Word `k` of the directory. -/
def dirAt (m : Ram) (k : Nat) : Nat := m (I.pageDir + 4 * k)

/-- Word `j` of table `t`. -/
def entryAt (m : Ram) (t j : Nat) : Nat := m (I.pageTables + 4096 * t + 4 * j)

/-- `init_page_dir[k] = w`. -/
def setDir (m : Ram) (k w : Nat) : Ram := Function.update m (I.pageDir + 4 * k) w

/-- `init_page_tables[1024 * t + j] = w`. -/
def setEntry (m : Ram) (t j w : Nat) : Ram :=
  Function.update m (I.pageTables + 4096 * t + 4 * j) w

/-- An address outside the directory and the tables. -/
def Outside (a : Nat) : Prop := a < I.pageDir ∨ I.pageDir + 4096 + 4096 * 1024 ≤ a

variable (m : Ram) {k k' t t' j j' w a : Nat}

@[simp] theorem dirAt_setDir_self : I.dirAt (I.setDir m k w) k = w := by
  unfold dirAt setDir
  exact Function.update_self _ _ _

theorem dirAt_setDir_ne (h : k' ≠ k) : I.dirAt (I.setDir m k w) k' = I.dirAt m k' := by
  unfold dirAt setDir
  exact Function.update_of_ne (by omega) _ _

theorem dirAt_setEntry (h : k < 1024) : I.dirAt (I.setEntry m t j w) k = I.dirAt m k := by
  unfold dirAt setEntry pageTables
  exact Function.update_of_ne (by omega) _ _

theorem entryAt_setDir (h : k < 1024) : I.entryAt (I.setDir m k w) t j = I.entryAt m t j := by
  unfold entryAt setDir pageTables
  exact Function.update_of_ne (by omega) _ _

@[simp] theorem entryAt_setEntry_self : I.entryAt (I.setEntry m t j w) t j = w := by
  unfold entryAt setEntry
  exact Function.update_self _ _ _

theorem entryAt_setEntry_ne (hj : j < 1024) (hj' : j' < 1024) (h : t' ≠ t ∨ j' ≠ j) :
    I.entryAt (I.setEntry m t j w) t' j' = I.entryAt m t' j' := by
  unfold entryAt setEntry
  exact Function.update_of_ne (by omega) _ _

theorem setDir_outside (hk : k < 1024) (ha : I.Outside a) : I.setDir m k w a = m a := by
  unfold Outside at ha
  unfold setDir
  exact Function.update_of_ne (by omega) _ _

theorem setEntry_outside (ht : t < 1024) (hj : j < 1024) (ha : I.Outside a) :
    I.setEntry m t j w a = m a := by
  unfold Outside at ha
  unfold setEntry pageTables
  exact Function.update_of_ne (by omega) _ _

theorem dirAt_outside (hk : k < 1024) (ha : I.Outside a) :
    I.dirAt (Function.update m a w) k = I.dirAt m k := by
  unfold Outside at ha
  unfold dirAt
  exact Function.update_of_ne (by omega) _ _

theorem entryAt_outside (ht : t < 1024) (hj : j < 1024) (ha : I.Outside a) :
    I.entryAt (Function.update m a w) t j = I.entryAt m t j := by
  unfold Outside at ha
  unfold entryAt pageTables
  exact Function.update_of_ne (by omega) _ _

/-! ## 3. The translation through a slot -/

theorem present_tableEntry (t : Nat) : Present (I.tableEntry t) := by
  have h := I.pageTables_aligned
  unfold Present tableEntry
  omega

theorem frame_tableEntry (t : Nat) : frame (I.tableEntry t) = I.pageTables + 4096 * t := by
  have h := I.pageTables_aligned
  unfold frame tableEntry
  omega

theorem tableCell_tableEntry (t va : Nat) :
    tableCell (I.tableEntry t) va = I.pageTables + 4096 * t + 4 * (va / 4096 % 1024) := by
  rw [tableCell, frame_tableEntry]

variable {m} {va : Nat}

/-- **A page whose slot names table `t` and whose entry there names frame `f`.** -/
theorem walk_slot (hd : I.dirAt m (va / 4194304) = I.tableEntry t) {f : Nat} (hf : f % 4096 = 0)
    (he : I.entryAt m t (va / 4096 % 1024) = f + 1) :
    walk m I.pageDir va = some (f + va % 4096) := by
  have hcell : m (tableCell (I.tableEntry t) va) = f + 1 := by
    rw [tableCell_tableEntry]
    exact he
  rw [walk_of_entries hd (I.present_tableEntry t) hcell (present_succ hf), frame_succ hf]

/-- A page whose slot names table `t` is unmapped when its entry there is not present. -/
theorem walk_slot_none_iff (hd : I.dirAt m (va / 4194304) = I.tableEntry t) :
    walk m I.pageDir va = none ↔ ¬ Present (I.entryAt m t (va / 4096 % 1024)) := by
  rw [walk_eq_none_iff hd (I.present_tableEntry t), tableCell_tableEntry]
  rfl

/-- A page whose slot is clear is unmapped. -/
theorem walk_absent (hd : I.dirAt m (va / 4194304) = 0) : walk m I.pageDir va = none := by
  refine walk_none_dir ?_
  show ¬ Present (I.dirAt m (va / 4194304))
  rw [hd]
  exact not_present_zero

/-- Two pages whose slots name one table, at one index of it, are translated alike. -/
theorem walk_shared {va' : Nat} (hd : I.dirAt m (va / 4194304) = I.tableEntry t)
    (hd' : I.dirAt m (va' / 4194304) = I.tableEntry t)
    (hidx : va / 4096 % 1024 = va' / 4096 % 1024) (hoff : va % 4096 = va' % 4096) :
    walk m I.pageDir va = walk m I.pageDir va' := by
  have h : m (dirCell I.pageDir va) = I.tableEntry t := hd
  have h' : m (dirCell I.pageDir va') = I.tableEntry t := hd'
  unfold walk
  dsimp only
  rw [h, h', tableCell_tableEntry, tableCell_tableEntry, hidx, hoff]

end KernelImage

end OsPlayground.VirtMem
