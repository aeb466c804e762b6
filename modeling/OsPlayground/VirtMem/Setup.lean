/-
  File:      OsPlayground/VirtMem/Setup.lean
  Subject:   SETTING UP PAGING (pre_kernel.cpp). The code runs before paging is on: every access is
             to physical memory.

  An assert that fails hangs the machine, so it leaves no memory (`none`), as a loop does that
  runs out of fuel.
-/
import OsPlayground.Library.Loop
import OsPlayground.VirtMem.Image
import OsPlayground.PhysMem.Mmap

namespace OsPlayground.VirtMem

open Paging
open PhysMem (termBuffer)

/-- `PD_FLAGS`. -/
def pdFlags : Nat := 0x1

/-- `PT_FLAGS`. -/
def ptFlags : Nat := 0x1

/-- `VIRT_TERM_BUFFER`. -/
def virtTermBuffer : Nat := termBuffer + kernelBase

/-- `sizeof(multiboot_info_t)`. -/
def sizeofMultibootInfo : Nat := 120

/-- `info->mmap_length`. -/
def mmapLength (m : Ram) (info : Nat) : Nat := m (info + 44)

/-- `info->mmap_addr`. -/
def mmapAddr (m : Ram) (info : Nat) : Nat := m (info + 48)

/-- The `map_page` of pre_kernel.cpp: `p_page_table[VIRT_TO_PT_INDEX(virt_addr)] = ...`. -/
def mapPagePre (m : Ram) (virtAddr physAddr pPageTable : Nat) : Ram :=
  Function.update m (pPageTable + 4 * virtToPtIndex virtAddr) (physAddr ||| ptFlags)

/-! ## 1. The scan of the kernel's pages -/

/-- The variables of the scan. -/
structure Scan where
  ram : Ram
  kernelPage : Nat
  kernelPdEntry : Nat
  curPageTable : Nat
  curIdentPdIndex : Nat
  curHighhalfPdIndex : Nat

variable (I : KernelImage)

/-- `ident_pd_index`. -/
def identPdIndex : Nat := virtToPdIndex (kernelVirtToPhys kernelStart)

/-- `highhalf_pd_index`. -/
def highhalfPdIndex : Nat := virtToPdIndex kernelStart

/-- `p_init_page_dir[k] = w`. -/
def writePageDir (m : Ram) (k w : Nat) : Ram :=
  Function.update m (kernelVirtToPhys I.initPageDir + 4 * k) w

/-- The scan before its first pass, with the first table in both halves. -/
def scanStart (m : Ram) : Scan :=
  let entry := kernelVirtToPhys I.initPageTables ||| pdFlags
  { ram := writePageDir I (writePageDir I m identPdIndex entry) highhalfPdIndex entry
    kernelPage := pageMask (kernelVirtToPhys kernelStart)
    kernelPdEntry := entry
    curPageTable := kernelVirtToPhys I.initPageTables
    curIdentPdIndex := identPdIndex
    curHighhalfPdIndex := highhalfPdIndex }

/-- A page in a new block: the next table, in both halves. -/
def nextTable (s : Scan) (newIdentPdIndex : Nat) : Scan :=
  let entry := s.kernelPdEntry + pageSize
  let high := highhalfPdIndex + newIdentPdIndex - identPdIndex
  { s with
    kernelPdEntry := entry
    curPageTable := s.curPageTable + pageSize
    curIdentPdIndex := newIdentPdIndex
    curHighhalfPdIndex := high
    ram := writePageDir I (writePageDir I s.ram newIdentPdIndex entry) high entry }

/-- The end of a pass: the page is mapped, and the next one is due. -/
def mapKernelPage (s : Scan) : Scan :=
  { s with
    ram := mapPagePre s.ram s.kernelPage s.kernelPage s.curPageTable
    kernelPage := (s.kernelPage + pageSize) % 2 ^ 32 }

/-- One pass of the scan. -/
def scanStep (s : Scan) : Scan ⊕ Ram :=
  if s.kernelPage < kernelVirtToPhys I.kernelEnd then
    let new := virtToPdIndex s.kernelPage
    .inl (mapKernelPage (if s.curIdentPdIndex < new then nextTable I s new else s))
  else .inr s.ram

/-! ## 2. The boot structures -/

/-- One pass of `for (; page < stop; page += PAGE_SIZE) map_page(KERNEL_BASE + page, page, ...)`.
    The bound may lie in memory. -/
def bufferStep (stop : Ram → Nat) : Nat × Ram → (Nat × Ram) ⊕ Ram
  | (page, m) =>
    if page < stop m then
      .inl ((page + pageSize) % 2 ^ 32,
        mapPagePre m ((kernelBase + page) % 2 ^ 32) page (kernelVirtToPhys I.initPageTables))
    else .inr m

/-- The pages from `addr` up to `stop`, into the first table. The assert looks at the start
    only. -/
def mapBuffer (fuel : Nat) (addr : Nat) (stop : Ram → Nat) (m : Ram) : Option Ram :=
  if virtToPdIndex ((kernelBase + addr) % 2 ^ 32) = highhalfPdIndex then
    FuelLoop.run (bufferStep I stop) fuel (pageMask addr, m)
  else none

/-- `multiboot_addr + sizeof(multiboot_info_t)`. -/
def infoStop (info : Nat) (_ : Ram) : Nat := (info + sizeofMultibootInfo) % 2 ^ 32

/-- `info->mmap_addr + info->mmap_length`. -/
def mmapStop (info : Nat) (m : Ram) : Nat := (mmapAddr m info + mmapLength m info) % 2 ^ 32

/-- The three asserted groups after the scan. -/
def mapBuffers (fuel : Nat) (info : Nat) (m : Ram) : Option Ram :=
  if virtToPdIndex virtTermBuffer = highhalfPdIndex then
    let m := mapPagePre m virtTermBuffer termBuffer (kernelVirtToPhys I.initPageTables)
    match mapBuffer I fuel info (infoStop info) m with
    | none => none
    | some m => mapBuffer I fuel (mmapAddr m info) (mmapStop info) m
  else none

/-- `setup_paging`. -/
def setupPaging (fuel : Nat) (info : Nat) (m : Ram) : Option Ram :=
  match FuelLoop.run (scanStep I) fuel (scanStart I m) with
  | none => none
  | some m => mapBuffers I fuel info m

end OsPlayground.VirtMem
