/-
  File:      OsPlayground/PhysMem/Mmap.lean
  Subject:   MEMORY-MAP INTAKE (multiboot.h, phys_mem_allocator.cpp): the entries as they lie in
             memory, `mark_unavail_pages` and `init_mmap`.

  Both loops may run for ever and the write into the bitmap is not checked, so the model has three
  ways to end: `none` is fuel that ran out, `.error k` a write at byte `k` past the bitmap, `.ok`
  the bitmap left behind.
-/
import OsPlayground.PhysMem.Alloc

namespace OsPlayground.PhysMem

/-! ## 1. Entries in memory -/

/-- `multiboot_mmap_entry`, 24 packed bytes. -/
structure MmapEntry where
  size : BitVec 32
  addr : BitVec 64
  len : BitVec 64
  type : BitVec 32
  deriving DecidableEq, Repr

/-- `MULTIBOOT_MEMORY_AVAILABLE`. -/
def memoryAvailable : BitVec 32 := 1

/-- `MULTIBOOT_MEMORY_RESERVED`. -/
def memoryReserved : BitVec 32 := 2

/-- `MULTIBOOT_MEMORY_ACPI_RECLAIMABLE`. -/
def memoryAcpiReclaimable : BitVec 32 := 3

/-- The little-endian number in the `n` bytes at the 32-bit address `p`. -/
def readLE (mem : Nat → BitVec 8) (p : Nat) : Nat → Nat
  | 0 => 0
  | n + 1 => readLE mem p n + (mem ((p + n) % 2 ^ 32)).toNat * 256 ^ n

/-- `*mmap`. -/
def readEntry (mem : Nat → BitVec 8) (p : Nat) : MmapEntry :=
  ⟨BitVec.ofNat 32 (readLE mem p 4), BitVec.ofNat 64 (readLE mem (p + 4) 8),
    BitVec.ofNat 64 (readLE mem (p + 12) 8), BitVec.ofNat 32 (readLE mem (p + 20) 4)⟩

/-! ## 2. Marking one entry -/

/-- The entry's memory may be used: the test at the head of `mark_unavail_pages`. -/
def MmapEntry.Available (e : MmapEntry) : Prop :=
  e.type = memoryAvailable ∨ e.type = memoryAcpiReclaimable

instance (e : MmapEntry) : Decidable e.Available :=
  inferInstanceAs (Decidable (e.type = memoryAvailable ∨ e.type = memoryAcpiReclaimable))

/-- `mmap.addr & PAGE_MASK`. -/
def MmapEntry.firstPage (e : MmapEntry) : Nat := pageMask e.addr.toNat

/-- `mmap.addr + mmap.len`, a 64-bit sum. -/
def MmapEntry.stop (e : MmapEntry) : Nat := (e.addr + e.len).toNat

/-- One pass of the marking loop, on the address and the bitmap. -/
def markStep (e : MmapEntry) :
    Nat × (Nat → BitVec 8) → (Nat × (Nat → BitVec 8)) ⊕ Except Nat (Nat → BitVec 8)
  | (addr, bm) =>
    if addr < e.stop then
      let i := pageAddrToBit addr
      if i / 8 < bitmapBytes then
        .inl ((addr + pageSize) % 2 ^ 64, Bits.setBit bm i)
      else .inr (.error (i / 8))
    else .inr (.ok bm)

/-- `mark_unavail_pages`. -/
def markUnavailPages (fuel : Nat) (e : MmapEntry) (bm : Nat → BitVec 8) :
    Option (Except Nat (Nat → BitVec 8)) :=
  if e.Available then some (.ok bm) else FuelLoop.run (markStep e) fuel (e.firstPage, bm)

/-! ## 3. The walk over the map -/

/-- The address of the entry after the one at `p`: a 32-bit sum. -/
def nextEntry (mem : Nat → BitVec 8) (p : Nat) : Nat :=
  (p + (readEntry mem p).size.toNat + 4) % 2 ^ 32

/-- One pass of the walk, on the pointer and the bitmap; `stop` is `mmap_addr + mmap_length`. -/
def walkStep (fuel : Nat) (mem : Nat → BitVec 8) (stop : Nat) :
    Nat × (Nat → BitVec 8) →
      (Nat × (Nat → BitVec 8)) ⊕ Option (Except Nat (Nat → BitVec 8))
  | (mmap, bm) =>
    if mmap < stop then
      match markUnavailPages fuel (readEntry mem mmap) bm with
      | some (.ok bm') => .inl (nextEntry mem mmap, bm')
      | r => .inr r
    else .inr (some (.ok bm))

/-- `_kernel_start` and `_kernel_end` as linked: the image lies below 4 GiB of physical memory. -/
structure KernelExtent where
  kernelStart : Nat
  kernelEnd : Nat
  le : kernelStart ≤ kernelEnd
  lt : kernelEnd < 2 ^ 32
  below : kernelVirtToPhys kernelStart + (kernelEnd - kernelStart) ≤ 2 ^ 32

/-- `kernel_mmap`. -/
def kernelMmap (K : KernelExtent) : MmapEntry where
  size := 0
  addr := BitVec.ofNat 64 (kernelVirtToPhys K.kernelStart)
  len := BitVec.ofNat 64 (K.kernelEnd - K.kernelStart)
  type := memoryReserved

/-- `TERM_BUFFER`. -/
def termBuffer : Nat := 0xB8000

/-- `TERM_BUFFER_LEN`. -/
def termBufferLen : Nat := 0x1000

/-- `vga_mmap`. -/
def vgaMmap : MmapEntry where
  size := 0
  addr := BitVec.ofNat 64 termBuffer
  len := BitVec.ofNat 64 termBufferLen
  type := memoryReserved

/-- `memset(mem_bitmap, 0, sizeof(mem_bitmap))`. -/
def memsetBitmap (bm : Nat → BitVec 8) : Nat → BitVec 8 :=
  fun k => if k < bitmapBytes then 0 else bm k

/-- The next statement runs on the bitmap the last one left. -/
def andThen (r : Option (Except Nat (Nat → BitVec 8)))
    (f : (Nat → BitVec 8) → Option (Except Nat (Nat → BitVec 8))) :
    Option (Except Nat (Nat → BitVec 8)) :=
  match r with
  | some (.ok bm) => f bm
  | r => r

/-- The bitmap `init_mmap` leaves. -/
def initBitmap (fuel : Nat) (mem : Nat → BitVec 8) (K : KernelExtent) (mmapLength mmapAddr : Nat)
    (bm : Nat → BitVec 8) : Option (Except Nat (Nat → BitVec 8)) :=
  let walk := FuelLoop.run (walkStep fuel mem ((mmapAddr + mmapLength) % 2 ^ 32)) fuel
    (mmapAddr, memsetBitmap bm)
  andThen (andThen walk.join fun bm => markUnavailPages fuel (kernelMmap K) bm) fun bm =>
    markUnavailPages fuel vgaMmap bm

/-- `init_mmap`. -/
def initMmap (fuel : Nat) (mem : Nat → BitVec 8) (K : KernelExtent) (mmapLength mmapAddr : Nat)
    (s : PhysMemAllocator) : Option (Except Nat PhysMemAllocator) :=
  (initBitmap fuel mem K mmapLength mmapAddr s.memBitmap).map fun r =>
    r.map fun bm => { s with memBitmap := bm }

end OsPlayground.PhysMem
