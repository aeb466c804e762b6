/-
  File:      OsPlayground/PhysMem/Alloc.lean
  Subject:   THE PHYSICAL FRAME ALLOCATOR (phys_mem_allocator.h, phys_mem_allocator.cpp): the
             bitmap of frames and `alloc1`, `alloc8`, `alloc32`.

  The three functions share one shape (`allocWith`): a pass from the hint to the end of the
  bitmap, then one from its start up to the hint, calling an attempt at each index until it
  returns a non-null address. `alloc1` and `alloc8` read the hint again in the test of the second
  pass; `alloc32` computed its rounded hint once.
-/
import OsPlayground.Kernel
import OsPlayground.Library.Bits
import OsPlayground.Library.Loop

namespace OsPlayground.PhysMem

/-- `PhysMemAllocator`. `memBitmap` are the bytes from `&mem_bitmap[0]` on; the array is the
    first `bitmapBytes` of them. -/
structure PhysMemAllocator where
  memBitmap : Nat → BitVec 8
  lastAlloc : Nat

/-- `sizeof(mem_bitmap)`. -/
def bitmapBytes : Nat := numPages / 8

/-- `page_addr_to_bit`: the page number of a 64-bit address, cast to 32 bits. -/
def pageAddrToBit (addr : Nat) : Nat := (addr >>> pageAddrNbits) % 2 ^ 32

/-- `bit_to_page_addr`: a 32-bit shift. -/
def bitToPageAddr (i : Nat) : Nat := (i <<< pageAddrNbits) % 2 ^ 32

/-- The constructor resets the hint and leaves the bitmap alone. -/
def construct (s : PhysMemAllocator) : PhysMemAllocator := { s with lastAlloc := 0 }

/-! ## 1. The bitmap as 32-bit words -/

/-- `((uint32_t*)mem_bitmap)[k]`, little endian. -/
def word32 (m : Nat → BitVec 8) (k : Nat) : BitVec 32 :=
  m (4 * k + 3) ++ m (4 * k + 2) ++ m (4 * k + 1) ++ m (4 * k)

/-- `((uint32_t*)mem_bitmap)[k] = w`. -/
def setWord32 (m : Nat → BitVec 8) (k : Nat) (w : BitVec 32) : Nat → BitVec 8 :=
  fun b => if b / 4 = k then w.extractLsb' (8 * (b % 4)) 8 else m b

/-! ## 2. The attempts -/

/-- `try_alloc1`: the first clear bit of byte `i`. -/
def tryAlloc1 (s : PhysMemAllocator) (i : Nat) : PhysMemAllocator × Nat :=
  let bitmap := s.memBitmap i
  if bitmap < 0xff#8 then
    let j := Bits.lowestClear bitmap
    (⟨Function.update s.memBitmap i (bitmap ||| (1#8 <<< j)), 8 * i + j⟩,
      bitToPageAddr (8 * i + j))
  else (s, 0)

/-- `try_alloc8`: byte `i` whole. -/
def tryAlloc8 (s : PhysMemAllocator) (i : Nat) : PhysMemAllocator × Nat :=
  let bitmap := s.memBitmap i
  if bitmap = 0#8 then
    (⟨Function.update s.memBitmap i 0xff#8, 8 * i⟩, bitToPageAddr (8 * i))
  else (s, 0)

/-- `b32`, the bytes of a word. -/
def b32 : Nat := 4

/-- `try_alloc32`: the word at byte `i` whole. Its assert, `i % b32 == 0`, holds at every call
    (`ScanInv.aligned`). -/
def tryAlloc32 (s : PhysMemAllocator) (i : Nat) : PhysMemAllocator × Nat :=
  let bitmap := word32 s.memBitmap (i / b32)
  if bitmap = 0#32 then
    (⟨setWord32 s.memBitmap (i / b32) 0xffffffff#32, 8 * i⟩, bitToPageAddr (8 * i))
  else (s, 0)

/-! ## 3. The scans -/

/-- One pass of `for (; i < bound; i += stride) { out = tryAlloc(i); if (out) return out; }`. A
    loop that ends without a result leaves a null one. -/
def scanStep (bound : PhysMemAllocator → Nat) (stride : Nat)
    (tryAlloc : PhysMemAllocator → Nat → PhysMemAllocator × Nat) :
    Nat × PhysMemAllocator → (Nat × PhysMemAllocator) ⊕ (PhysMemAllocator × Nat)
  | (i, s) =>
    if i < bound s then
      let r := tryAlloc s i
      if r.2 ≠ 0 then .inr r else .inl (i + stride, r.1)
    else .inr (s, 0)

/-- The loop, with fuel for one pass over the whole bitmap. -/
def scan (bound : PhysMemAllocator → Nat) (stride : Nat)
    (tryAlloc : PhysMemAllocator → Nat → PhysMemAllocator × Nat) (start : Nat)
    (s : PhysMemAllocator) : Option (PhysMemAllocator × Nat) :=
  FuelLoop.run (scanStep bound stride tryAlloc) (bitmapBytes + 1) (start, s)

/-- The two loops: from `start` to the end of the bitmap, then from 0 to `bound`. -/
def allocWith (bound : PhysMemAllocator → Nat) (stride : Nat)
    (tryAlloc : PhysMemAllocator → Nat → PhysMemAllocator × Nat) (start : Nat)
    (s : PhysMemAllocator) : Option (PhysMemAllocator × Nat) :=
  match scan (fun _ => bitmapBytes) stride tryAlloc start s with
  | none => none
  | some (s', out) =>
    if out ≠ 0 then some (s', out) else scan bound stride tryAlloc 0 s'

/-- `alloc1`. -/
def alloc1 (s : PhysMemAllocator) : Option (PhysMemAllocator × Nat) :=
  allocWith (fun s => s.lastAlloc / 8) 1 tryAlloc1 (s.lastAlloc / 8) s

/-- `alloc8`. -/
def alloc8 (s : PhysMemAllocator) : Option (PhysMemAllocator × Nat) :=
  allocWith (fun s => s.lastAlloc / 8) 1 tryAlloc8 (s.lastAlloc / 8) s

/-- `alloc32`. -/
def alloc32 (s : PhysMemAllocator) : Option (PhysMemAllocator × Nat) :=
  let lastAllocB32 := s.lastAlloc / 8 - s.lastAlloc / 8 % b32
  allocWith (fun _ => lastAllocB32) b32 tryAlloc32 lastAllocB32 s

end OsPlayground.PhysMem
