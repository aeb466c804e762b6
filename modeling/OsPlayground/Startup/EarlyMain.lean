/-
  File:      OsPlayground/Startup/EarlyMain.lean
  Subject:   `kernel_early_main` (kernel.cpp), with `init_mmap` reading the boot loader's map
             through the page tables (phys_mem_allocator.cpp), and the steps before it (bootstrap.s).

  Every read of the info structure, of the map, of the directory and of the table is a read
  through the translation; one that faults stops the operation, as a failed assert does.
-/
import OsPlayground.Library.Bytes
import OsPlayground.Startup.Log

namespace OsPlayground.Startup

open Halting Paging Heap Stdlib VirtMem PhysMem

/-! ## 1. The memory map, through the page tables -/

/-- The byte at virtual address `va`; 0 where the read faults. -/
def virtByte (vm : Vm) (va : Nat) : BitVec 8 :=
  match walk vm.ram vm.cr3 va with
  | some pa => BitVec.ofNat 8 (Bytes.byteAt vm.ram pa)
  | none => 0

/-- The 24 bytes of the entry at `mmap` can be read. -/
def Readable (vm : Vm) (mmap : Nat) : Prop :=
  ∀ k < 24, walk vm.ram vm.cr3 ((mmap + k) % 0x100000000) ≠ none

instance (vm : Vm) (mmap : Nat) : Decidable (Readable vm mmap) :=
  inferInstanceAs (Decidable (∀ k < 24, _))

/-- `mem_bitmap` replaced. -/
def withBitmap (bm : Nat → BitVec 8) (e : Early) : Early :=
  { e with mgr := { e.mgr with phys := { e.mgr.phys with memBitmap := bm } } }

/-- `mark_unavail_pages` of one entry. -/
def markEntry (fuel : Nat) (entry : MmapEntry) (e : Early) : Early × Option Unit :=
  match markUnavailPages fuel entry e.mgr.phys.memBitmap with
  | some (.ok bm) => (withBitmap bm e, some ())
  | _ => (e, none)

/-- The line printed for an entry. -/
def mmapFormat : List Char := "mmap %08x (len %08x) type = %u\n".toList

/-- What is done with an entry. -/
def takeEntry (fuel : Nat) (entry : MmapEntry) (e : Early) : Early × Option Unit :=
  andThen (serialPrintf mmapFormat
    [entry.addr.setWidth 32, entry.len.setWidth 32, entry.type] e) fun e _ =>
    markEntry fuel entry e

/-- One pass of the walk over the map. -/
def mmapStep (fuel stop : Nat) : Nat × Early → (Nat × Early) ⊕ (Early × Option Unit)
  | (mmap, e) =>
    if mmap < stop then
      if Readable e.mgr.vm mmap then
        match takeEntry fuel (readEntry (virtByte e.mgr.vm) mmap) e with
        | (e', some ()) => .inl (nextEntry (virtByte e.mgr.vm) mmap, e')
        | (e', none) => .inr (e', none)
      else .inr (e, none)
    else .inr (e, some ())

/-- The walk over the map. -/
def walkMmap (fuel mmapLength mmapAddr : Nat) (e : Early) : Early × Option Unit :=
  match FuelLoop.run (mmapStep fuel ((mmapAddr + mmapLength) % 2 ^ 32)) fuel (mmapAddr, e) with
  | none => (e, none)
  | some r => r

/-- `init_mmap`. -/
def initMmapEarly (fuel : Nat) (K : KernelExtent) (mmapLength mmapAddr : Nat) (e : Early) :
    Early × Option Unit :=
  andThen (walkMmap fuel mmapLength mmapAddr (withBitmap (memsetBitmap e.mgr.phys.memBitmap) e))
    fun e _ => andThen (markEntry fuel (kernelMmap K) e) fun e _ => markEntry fuel vgaMmap e

/-! ## 2. kernel_early_main -/

/-- `MULTIBOOT_INFO_MEM_MAP`. -/
def memMapFlag : Nat := 0x40

/-- The dumps of the page directory and of the table its slot 0 names. -/
def dumpTables (I : KernelImage) (e : Early) : Early × Option Unit :=
  andThen (say "begin kernel_early_main\n".toList e) fun e _ =>
  andThen (say "init page dir:\n".toList e) fun e _ =>
  andThen (dumpWords (fun i => loadVirt (I.initPageDir + 4 * i)) 1024 e) fun e _ =>
  andThen (say "\n".toList e) fun e _ =>
  andThen (loadVirt I.initPageDir e) fun e entry =>
  andThen (say "init page table:\n".toList e) fun e _ =>
  andThen (dumpWords (fun i => loadVirt ((entry &&& 0xfffffc00) + 4 * i)) 1024 e) fun e _ =>
  say "\n".toList e

/-- `((uint32_t*)physMemAlloc.mem_bitmap)[i]`. -/
def bitmapWord (i : Nat) (e : Early) : Early × Option Nat :=
  (e, some (readLE e.mgr.phys.memBitmap (4 * i) 4))

/-- The memory map, and the dump of the bitmap made of it. -/
def takeMemory (fuel : Nat) (K : KernelExtent) (mmapLength mmapAddr : Nat) (e : Early) :
    Early × Option Unit :=
  andThen (initMmapEarly fuel K mmapLength mmapAddr e) fun e _ =>
  andThen (say "phys mem bitmap:\n".toList e) fun e _ =>
  andThen (dumpWords bitmapWord 256 e) fun e _ =>
  say "...\n".toList e

/-- `init_heap_pages`, with the four lines at its end. -/
def initHeapEarly (e : Early) : Early × Option Unit :=
  andThen (onMgr initHeapPages e) fun e _ =>
  andThen (serialPrintf "heap reserved at v %08x\n".toList [BitVec.ofNat 32 e.mgr.heap] e)
    fun e _ =>
  andThen (serialPrintf "slab8 reserved at v %08x\n".toList [BitVec.ofNat 32 e.mgr.slab8] e)
    fun e _ =>
  andThen (serialPrintf "slab16 reserved at v %08x\n".toList [BitVec.ofNat 32 e.mgr.slab16] e)
    fun e _ =>
  serialPrintf "slab32 reserved at v %08x\n".toList [BitVec.ofNat 32 e.mgr.slab32] e

/-- The page directory handed over, and the heap built. -/
def buildHeap (I : KernelImage) (e : Early) : Early × Option Unit :=
  andThen (say "init page dir...\n".toList e) fun e _ =>
  andThen (onMgr (onVm fun vm => (initPageDir I.initPageDir I.initPageTables vm, some ())) e)
    fun e _ =>
  andThen (say "done\n".toList e) fun e _ =>
  andThen (say "init heap pages...\n".toList e) fun e _ =>
  andThen (initHeapEarly e) fun e _ =>
  andThen (say "done\n".toList e) fun e _ =>
  say "end kernel_early_main\n".toList e

/-- `kernel_early_main`, after `init_serial`. -/
def kernelEarlyMain (I : KernelImage) (fuel : Nat) (K : KernelExtent) (info : Nat) (e : Early) :
    Early × Option Nat :=
  andThen (dumpTables I e) fun e _ =>
  andThen (loadVirt info e) fun e flags =>
  if flags &&& memMapFlag = 0 then
    andThen (say "multiboot mmap structures required to boot\n".toList e) fun e _ => (e, some 1)
  else
    andThen (loadVirt (info + 44) e) fun e mmapLength =>
    andThen (loadVirt (info + 48) e) fun e mmapAddr =>
    andThen (takeMemory fuel K mmapLength ((mmapAddr + kernelBase) % 0x100000000) e) fun e _ =>
    andThen (buildHeap I e) fun e _ => (e, some 0)

/-! ## 3. Before and after -/

/-- The end of `init_paging`: the directory is loaded, and paging is on. -/
def pagedVm (I : KernelImage) (m : Ram) : Vm :=
  { cr3 := kernelVirtToPhys I.initPageDir, ram := m, pageDir := 0, pageTables := 0, derefs := [] }

/-- The machine then, with nothing printed yet; `s` has the globals. -/
def pagedEarly (I : KernelImage) (m : Ram) (s : Managers) : Early :=
  ⟨{ s with vm := pagedVm I m }, []⟩

/-- `_start` up to the return of `kernel_early_main`, from the memory the boot loader left with
    the info structure at `info`. -/
def start (I : KernelImage) (fuel : Nat) (K : KernelExtent) (info : Nat) (m : Ram) (s : Managers) :
    Option (Early × Option Nat) :=
  (setupPaging I fuel info m).map fun m =>
    kernelEarlyMain I fuel K ((info + kernelBase) % 0x100000000) (pagedEarly I m s)

end OsPlayground.Startup
