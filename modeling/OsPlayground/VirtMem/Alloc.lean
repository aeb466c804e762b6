/-
  File:      OsPlayground/VirtMem/Alloc.lean
  Subject:   THE VIRTUAL PAGE ALLOCATOR (virt_mem_allocator.h, virt_mem_allocator.cpp).

  The code runs with paging on: the directory and the tables are read and written through the
  translation they define. An access that faults stops the operation, as a failed assert does.
  The translation is the walk of the tables at the access; a stale TLB entry is not modelled.

  Every use of a pointer from `get_page_table` leaves a record (`Deref`) of the directory entry
  the pointer was taken from and of where the pointer leads.
-/
import OsPlayground.Library.Halting
import OsPlayground.VirtMem.Setup

namespace OsPlayground.VirtMem

open Paging Halting

/-- A use of a page table pointer: the directory entry of its slot, and the translation of the
    pointer. -/
structure Deref where
  entry : Nat
  seen : Option Nat
  deriving DecidableEq, Repr

/-- **A valid use**: for a present entry the pointer leads to the table the entry names. -/
def Deref.Valid (d : Deref) : Prop := Present d.entry → d.seen = some (frame d.entry)

/-- The machine and `VirtMemAllocator`, whose two fields are virtual addresses. -/
structure Vm where
  cr3 : Nat
  ram : Ram
  pageDir : Nat
  pageTables : Nat
  derefs : List Deref

/-- The answer of an operation: the state it leaves, and its result unless it stopped. -/
abbrev Answer (α : Type) := Vm × Option α

/-- `init_page_dir`. -/
def initPageDir (pageDir pageTables : Nat) (vm : Vm) : Vm :=
  { vm with pageDir := pageDir, pageTables := pageTables }

/-! ## 1. Accesses -/

/-- A load of the word at virtual address `va`. -/
def loadWord (va : Nat) (vm : Vm) : Answer Nat := (vm, load vm.ram vm.cr3 va)

/-- A store to virtual address `va`. -/
def storeWord (va w : Nat) (vm : Vm) : Answer Unit :=
  match store vm.ram vm.cr3 va w with
  | none => (vm, none)
  | some m => ({ vm with ram := m }, some ())

/-- The record of a use of `pageTable`, the pointer from slot `pdIndex`. -/
def record (pdIndex pageTable : Nat) (vm : Vm) : Vm :=
  { vm with
    derefs := ⟨vm.ram (vm.cr3 + 4 * pdIndex), walk vm.ram vm.cr3 pageTable⟩ :: vm.derefs }

/-- `page_table[pt_index]`. -/
def readTable (pdIndex pageTable ptIndex : Nat) (vm : Vm) : Answer Nat :=
  loadWord (pageTable + 4 * ptIndex) (record pdIndex pageTable vm)

/-- `page_table[pt_index] = w`. -/
def writeTable (pdIndex pageTable ptIndex w : Nat) (vm : Vm) : Answer Unit :=
  storeWord (pageTable + 4 * ptIndex) w (record pdIndex pageTable vm)

/-! ## 2. The directory -/

/-- `clear_ident_map`. -/
def clearIdentMap (vm : Vm) : Answer Unit := storeWord (vm.pageDir + 4 * identPdIndex) 0 vm

/-- `get_page_table`: the physical address in the directory entry, used as a pointer. -/
def getPageTable (pdIndex : Nat) (vm : Vm) : Answer Nat :=
  andThen (loadWord (vm.pageDir + 4 * pdIndex) vm) fun vm entry => (vm, some (pageMask entry))

/-- `load_page_table`. -/
def loadPageTable (pdIndex : Nat) (vm : Vm) : Answer Unit :=
  storeWord (vm.pageDir + 4 * pdIndex)
    (kernelVirtToPhys (vm.pageTables + 4 * (1024 * pdIndex)) ||| pdFlags) vm

/-! ## 3. The search for a free page -/

/-- One pass of the inner loop, over the entries of one table: `some page` is returned, `none` is
    the end of the block. -/
def tableStep (pdIndex pageTable nextBlock : Nat) :
    Nat × Vm → (Nat × Vm) ⊕ Answer (Option Nat)
  | (page, vm) =>
    if page ≠ nextBlock then
      match readTable pdIndex pageTable (virtToPtIndex page) vm with
      | (vm, none) => .inr (vm, none)
      | (vm, some entry) =>
        if Present entry then .inl ((page + pageSize) % 2 ^ 32, vm) else .inr (vm, some (some page))
    else .inr (vm, some none)

/-- The inner loop, with fuel for the entries of a table. -/
def scanTable (pdIndex pageTable nextBlock page : Nat) (vm : Vm) : Answer (Option Nat) :=
  match FuelLoop.run (tableStep pdIndex pageTable nextBlock) 1025 (page, vm) with
  | none => (vm, none)
  | some r => r

/-- The 4 MiB boundary after `page`. -/
def nextBlock (page : Nat) : Nat :=
  ((page + pageBlockSize) % 2 ^ 32 + 2 ^ 32 - page % pageBlockSize) % 2 ^ 32

/-- The block of `page`: its table is loaded when the slot is clear, and searched from `page`
    on. -/
def scanBlock (page : Nat) (vm : Vm) : Answer (Option Nat) :=
  let pdIndex := virtToPdIndex page
  andThen (loadWord (vm.pageDir + 4 * pdIndex) vm) fun vm entry =>
    andThen (if Present entry then (vm, some ()) else loadPageTable pdIndex vm) fun vm _ =>
      andThen (getPageTable pdIndex vm) fun vm pageTable =>
        scanTable pdIndex pageTable (nextBlock page) page vm

/-- One pass of the outer loop, which ends where the address wraps. -/
def searchStep : Nat × Vm → (Nat × Vm) ⊕ Answer Nat
  | (page, vm) =>
    if page ≠ 0 then
      match scanBlock page vm with
      | (vm, none) => .inr (vm, none)
      | (vm, some (some page)) => .inr (vm, some page)
      | (vm, some none) => .inl (nextBlock page, vm)
    else .inr (vm, some 0)

/-- `find_free_virt_page`, with fuel for the blocks of the address space. -/
def findFreeVirtPage (vm : Vm) : Answer Nat :=
  match FuelLoop.run searchStep 1025 (pageMask kernelStart, vm) with
  | none => (vm, none)
  | some r => r

/-! ## 4. map_page and reserve_block -/

/-- The end of `map_page`: the entry of the page is written. -/
def writePage (virtPage physPage : Nat) (vm : Vm) : Answer Nat :=
  let pdIndex := virtToPdIndex virtPage
  andThen (getPageTable pdIndex vm) fun vm pageTable =>
    andThen (writeTable pdIndex pageTable (virtToPtIndex virtPage)
      (pageMask physPage ||| ptFlags) vm) fun vm _ => (vm, some virtPage)

/-- `map_page`, with its two asserts. -/
def mapPage (virtPage physPage : Nat) (vm : Vm) : Answer Nat :=
  andThen (if virtPage = 0 then findFreeVirtPage vm else (vm, some virtPage)) fun vm virtPage =>
    if virtPage % pageSize = 0 ∧ physPage % pageSize = 0 then writePage virtPage physPage vm
    else (vm, none)

/-- One pass of `reserve_block`. -/
def reserveStep : Nat × Vm → (Nat × Vm) ⊕ Answer Nat
  | (page, vm) =>
    if page ≠ 0 then
      match loadWord (vm.pageDir + 4 * virtToPdIndex page) vm with
      | (vm, none) => .inr (vm, none)
      | (vm, some entry) =>
        if Present entry then .inl ((page + pageBlockSize) % 2 ^ 32, vm)
        else .inr (andThen (loadPageTable (virtToPdIndex page) vm) fun vm _ => (vm, some page))
    else .inr (vm, some 0)

/-- The first block boundary at or above `_kernel_start`. -/
def firstBlock : Nat :=
  let page := pageMask kernelStart
  if page % pageBlockSize ≠ 0 then page + (pageBlockSize - page % pageBlockSize) else page

/-- `reserve_block`. -/
def reserveBlock (vm : Vm) : Answer Nat :=
  match FuelLoop.run reserveStep 1025 (firstBlock, vm) with
  | none => (vm, none)
  | some r => r

/-! ## 5. Calls -/

/-- A call of the allocator. -/
inductive VirtCall where
  | reserveBlock
  | loadPageTable (pdIndex : Nat)
  | mapPage (virtPage physPage : Nat)
  | clearIdentMap
  deriving DecidableEq, Repr

/-- The call made; one without a result answers 0. -/
def virtStep (vm : Vm) : VirtCall → Answer Nat
  | .reserveBlock => reserveBlock vm
  | .loadPageTable pdIndex => andThen (loadPageTable pdIndex vm) fun vm _ => (vm, some 0)
  | .mapPage virtPage physPage => mapPage virtPage physPage vm
  | .clearIdentMap => andThen (clearIdentMap vm) fun vm _ => (vm, some 0)

/-- The machine after `setup_paging` and `init_page_dir`. -/
def bootVm (I : KernelImage) (m : Ram) : Vm :=
  initPageDir I.initPageDir I.initPageTables
    { cr3 := kernelVirtToPhys I.initPageDir, ram := m, pageDir := 0, pageTables := 0, derefs := [] }

end OsPlayground.VirtMem
