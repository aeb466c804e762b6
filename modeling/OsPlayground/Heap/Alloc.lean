/-
  File:      OsPlayground/Heap/Alloc.lean
  Subject:   THE HEAP ALLOCATOR (heap_allocator.h, heap_allocator.cpp): three slabs of 8, 16 and
             32 bytes, the block list, and `malloc`, which tries them in this order.

  The headers of the blocks lie in the memory the list hands out; `blocks` is that memory read as
  a header at each address. The loops carry fuel: one pass for each byte of a slab's bitmap, one
  for each header the heap has room for. The arithmetic of `size_t` wraps, so it is written out
  (`usub`).
-/
import OsPlayground.Kernel
import OsPlayground.Library.Bits
import OsPlayground.Library.Loop

namespace OsPlayground.Heap

/-- `CHUNK_PAGES`. -/
def chunkPages : Nat := 32

/-- `HEAP_PAGES`: a heap of 4 MiB. -/
def heapPages : Nat := 1024

/-- `HEAP_BLOCK_ALIGN`. -/
def heapBlockAlign : Nat := 64

/-- `sizeof(HeapBlock)`: the union is padded to its alignment. -/
def sizeofHeapBlock : Nat := heapBlockAlign

/-- `HeapBlock`; a null `next` is 0. -/
structure HeapBlock where
  next : Nat
  size : Nat
  allocated : Bool
  deriving DecidableEq, Repr

/-- `HeapAllocator`, with the headers in memory by address. -/
structure HeapAllocator where
  heap : Nat
  slab8 : Nat
  slab16 : Nat
  slab32 : Nat
  slab8Bitmap : Nat → BitVec 8
  slab16Bitmap : Nat → BitVec 8
  slab32Bitmap : Nat → BitVec 8
  blocks : Nat → HeapBlock

/-- A difference of two 32-bit unsigned numbers. -/
def usub (a b : Nat) : Nat := (a + 2 ^ 32 - b) % 2 ^ 32

/-! ## 1. The slabs -/

/-- `sizeof(slab_bitmap)` of a slab with slots of `slot` bytes. -/
def slabBitmapBytes (slot : Nat) : Nat := pageSize * chunkPages / (slot * 8)

/-- One pass of a slab's scan: the first clear bit of byte `i`. A scan that ends leaves a null
    address. -/
def slabStep (slot slab : Nat) (bm : Nat → BitVec 8) : Nat → Nat ⊕ ((Nat → BitVec 8) × Nat)
  | i =>
    if i < slabBitmapBytes slot then
      let bitmap := bm i
      if bitmap ≠ 0xff#8 then
        let j := Bits.lowestClear bitmap
        .inr (Function.update bm i (bm i ||| (1#8 <<< j)), (slab + slot * (8 * i + j)) % 2 ^ 32)
      else .inl (i + 1)
    else .inr (bm, 0)

/-- The body the three slab functions share. -/
def slabMalloc (slot slab : Nat) (bm : Nat → BitVec 8) : Option ((Nat → BitVec 8) × Nat) :=
  FuelLoop.run (slabStep slot slab bm) (slabBitmapBytes slot + 1) 0

/-- `slab8_malloc`. -/
def slab8Malloc (s : HeapAllocator) : Option (HeapAllocator × Nat) :=
  (slabMalloc 8 s.slab8 s.slab8Bitmap).map fun r => ({ s with slab8Bitmap := r.1 }, r.2)

/-- `slab16_malloc`. -/
def slab16Malloc (s : HeapAllocator) : Option (HeapAllocator × Nat) :=
  (slabMalloc 16 s.slab16 s.slab16Bitmap).map fun r => ({ s with slab16Bitmap := r.1 }, r.2)

/-- `slab32_malloc`. -/
def slab32Malloc (s : HeapAllocator) : Option (HeapAllocator × Nat) :=
  (slabMalloc 32 s.slab32 s.slab32Bitmap).map fun r => ({ s with slab32Bitmap := r.1 }, r.2)

/-! ## 2. The block list -/

/-- `!node->allocated && node->size - sizeof(HeapBlock) >= size`. -/
def Fits (b : HeapBlock) (size : Nat) : Prop :=
  b.allocated = false ∧ size ≤ usub b.size sizeofHeapBlock

instance (b : HeapBlock) (size : Nat) : Decidable (Fits b size) :=
  inferInstanceAs (Decidable (_ ∧ _))

/-- `*node = b`. -/
def setBlock (m : Nat → HeapBlock) (node : Nat) (b : HeapBlock) : Nat → HeapBlock :=
  Function.update m node b

/-- What is left of a block after its header and `size` bytes, in whole units. -/
def leftover (b : HeapBlock) (size : Nat) : Nat :=
  let left := usub (usub b.size sizeofHeapBlock) size
  left - left % heapBlockAlign

/-- The block at `node` is allocated, and what is left of it becomes a block of its own. -/
def takeBlock (m : Nat → HeapBlock) (node size : Nat) : Nat → HeapBlock :=
  let left := leftover (m node) size
  let m := setBlock m node { m node with allocated := true }
  if 0 < left then
    let m := setBlock m node { m node with size := usub (m node).size left }
    let next := (node + (m node).size) % 2 ^ 32
    let m := setBlock m next ⟨(m node).next, left, false⟩
    setBlock m node { m node with next := next }
  else m

/-- One pass of `block_malloc`, on the node pointer. -/
def blockStep (m : Nat → HeapBlock) (size : Nat) : Nat → Nat ⊕ ((Nat → HeapBlock) × Nat)
  | node =>
    if node ≠ 0 then
      if Fits (m node) size then
        .inr (takeBlock m node size, (node + sizeofHeapBlock) % 2 ^ 32)
      else .inl (m node).next
    else .inr (m, 0)

/-- `block_malloc`. -/
def blockMalloc (s : HeapAllocator) (size : Nat) : Option (HeapAllocator × Nat) :=
  (FuelLoop.run (blockStep s.blocks size) (heapPages * pageSize / heapBlockAlign + 1) s.heap).map
    fun r => ({ s with blocks := r.1 }, r.2)

/-! ## 3. malloc -/

/-- `if (c) { out = f(); if (out) return out; }`, followed by `rest`. -/
def tryFirst (c : Prop) [Decidable c] (f rest : HeapAllocator → Option (HeapAllocator × Nat))
    (s : HeapAllocator) : Option (HeapAllocator × Nat) :=
  if c then
    match f s with
    | none => none
    | some (s', out) => if out ≠ 0 then some (s', out) else rest s'
  else rest s

/-- `malloc`. -/
def malloc (s : HeapAllocator) (size : Nat) : Option (HeapAllocator × Nat) :=
  if heapPages * pageSize < size then some (s, 0)
  else
    tryFirst (size ≤ 8) slab8Malloc
      (tryFirst (size ≤ 16) slab16Malloc
        (tryFirst (size ≤ 32) slab32Malloc fun s => blockMalloc s size)) s

/-! ## 4. The state `init_heap_pages` leaves -/

/-- The offset of chunk `i` of the heap. -/
def chunkOffset (i : Nat) : Nat := chunkPages * i * pageSize

/-- `heap->size` of the one block at the start: `(CHUNK_PAGES-3) * PAGE_SIZE`. -/
def firstBlockSize : Nat := (chunkPages - 3) * pageSize

/-- **The heap as `init_heap_pages` leaves it** in a block at `base`: one free block at the start,
    the slabs in the last three chunks, their bitmaps clear. -/
structure Fresh (base : Nat) (s : HeapAllocator) : Prop where
  heap : s.heap = base
  slab8 : s.slab8 = base + chunkOffset (heapPages / chunkPages - 3)
  slab16 : s.slab16 = base + chunkOffset (heapPages / chunkPages - 2)
  slab32 : s.slab32 = base + chunkOffset (heapPages / chunkPages - 1)
  bitmap8 : ∀ i < slabBitmapBytes 8, s.slab8Bitmap i = 0
  bitmap16 : ∀ i < slabBitmapBytes 16, s.slab16Bitmap i = 0
  bitmap32 : ∀ i < slabBitmapBytes 32, s.slab32Bitmap i = 0
  first : s.blocks base = ⟨0, firstBlockSize, false⟩

/-- A 4 MiB block of virtual memory, as `reserve_block` returns it. -/
structure HeapBase (base : Nat) : Prop where
  aligned : base % pageBlockSize = 0
  pos : 0 < base
  le : base + pageBlockSize ≤ 2 ^ 32

/-- A fresh heap over memory that reads as zero elsewhere. -/
def freshHeap (base : Nat) : HeapAllocator where
  heap := base
  slab8 := base + chunkOffset (heapPages / chunkPages - 3)
  slab16 := base + chunkOffset (heapPages / chunkPages - 2)
  slab32 := base + chunkOffset (heapPages / chunkPages - 1)
  slab8Bitmap := fun _ => 0
  slab16Bitmap := fun _ => 0
  slab32Bitmap := fun _ => 0
  blocks := setBlock (fun _ => ⟨0, 0, false⟩) base ⟨0, firstBlockSize, false⟩

theorem fresh_freshHeap (base : Nat) : Fresh base (freshHeap base) :=
  ⟨rfl, rfl, rfl, rfl, fun _ _ => rfl, fun _ _ => rfl, fun _ _ => rfl,
    by simp only [freshHeap, setBlock, Function.update_self]⟩

end OsPlayground.Heap
