/-
  File:      OsPlayground/Heap/Pages.lean
  Subject:   THE PAGES OF THE HEAP (heap_allocator.cpp, `init_heap_pages`): a block of virtual
             memory is reserved, 32 chunks of 32 frames are allocated and mapped into it page by
             page, and the first header is written through the new mapping.

  The operation works on the three memory managers at once (`Managers`). An assert that fails
  stops it, as a fault does; a build with `NDEBUG` drops the asserts.
-/
import OsPlayground.Heap.Alloc
import OsPlayground.PhysMem.Alloc
import OsPlayground.VirtMem.Alloc

namespace OsPlayground.Heap

open Paging Halting VirtMem PhysMem

/-- The machine with `VirtMemAllocator`, `PhysMemAllocator`, and the pointers `HeapAllocator`
    keeps. -/
structure Managers where
  vm : Vm
  phys : PhysMemAllocator
  physHeapChunks : Nat → Nat
  heap : Nat
  slab8 : Nat
  slab16 : Nat
  slab32 : Nat

/-- The translation of a virtual address. -/
def Managers.translate (s : Managers) (va : Nat) : Option Nat := walk s.vm.ram s.vm.cr3 va

/-- `n_chunks`. -/
def nChunks : Nat := heapPages / chunkPages

/-- An operation of the machine. -/
def onVm {α : Type} (op : Vm → Answer α) (s : Managers) : Managers × Option α :=
  let r := op s.vm
  ({ s with vm := r.1 }, r.2)

/-! ## 1. The loops -/

/-- `phys_heap_chunks[i] = physMemAlloc.alloc32()`. -/
def allocChunk (i : Nat) (s : Managers) : Managers × Option Unit :=
  match alloc32 s.phys with
  | none => (s, none)
  | some (phys, out) =>
    ({ s with phys := phys, physHeapChunks := Function.update s.physHeapChunks i out }, some ())

/-- The addresses of the suballocators: the last three chunks. -/
def saveSlab (i virtPage : Nat) (s : Managers) : Managers :=
  if i = nChunks - 3 then { s with slab8 := virtPage }
  else if i = nChunks - 2 then { s with slab16 := virtPage }
  else if i = nChunks - 1 then { s with slab32 := virtPage }
  else s

/-- One pass of the inner loop: page `j` of chunk `i`. -/
def mapHeapPage (i j : Nat) (s : Managers) : Managers × Option Unit :=
  let heapPage := (s.physHeapChunks i + j * pageSize) % 0x100000000
  let virtPage := (s.heap + (chunkPages * i + j) * pageSize) % 0x100000000
  andThen (onVm (mapPage virtPage heapPage) s) fun s res =>
    andThen (check (res ≠ 0) s) fun s _ =>
      (if j = 0 then saveSlab i virtPage s else s, some ())

/-- One pass of the outer loop: chunk `i`. -/
def mapChunk (i : Nat) (s : Managers) : Managers × Option Unit :=
  andThen (check (chunkPages = 32) s) fun s _ =>
    andThen (allocChunk i s) fun s _ =>
      andThen (check (s.physHeapChunks i ≠ 0) s) fun s _ => upTo (mapHeapPage i) chunkPages s

/-- The first part of `init_heap_pages`: the block, and its pages. -/
def mapHeap (s : Managers) : Managers × Option Unit :=
  andThen (onVm reserveBlock s) fun s heap =>
    andThen (check (heapPages % 32 = 0) { s with heap := heap }) fun s _ => upTo mapChunk nChunks s

/-! ## 2. The first header -/

/-- A store to the low byte of the word at virtual address `va`. -/
def storeByte (va b : Nat) (vm : Vm) : Answer Unit :=
  andThen (loadWord va vm) fun vm w => storeWord va (w - w % 256 + b) vm

/-- `heap->next`, `heap->size` and `heap->allocated`. -/
def writeHeader (s : Managers) : Managers × Option Unit :=
  andThen (onVm (storeWord s.heap 0) s) fun s _ =>
    andThen (onVm (storeWord (s.heap + 4) firstBlockSize) s) fun s _ =>
      onVm (storeByte (s.heap + 8) 0) s

/-- `init_heap_pages`. -/
def initHeapPages (s : Managers) : Managers × Option Unit :=
  andThen (mapHeap s) fun s _ => writeHeader s

/-! ## 3. The heap read back -/

/-- The word at virtual address `va`; 0 where it faults. -/
def Managers.wordAt (s : Managers) (va : Nat) : Nat := (load s.vm.ram s.vm.cr3 va).getD 0

/-- `HeapAllocator` over the machine: the headers are read through the translation. -/
def Managers.heapAllocator (bitmap8 bitmap16 bitmap32 : Nat → BitVec 8) (s : Managers) :
    HeapAllocator where
  heap := s.heap
  slab8 := s.slab8
  slab16 := s.slab16
  slab32 := s.slab32
  slab8Bitmap := bitmap8
  slab16Bitmap := bitmap16
  slab32Bitmap := bitmap32
  blocks := fun a => ⟨s.wordAt a, s.wordAt (a + 4), decide (s.wordAt (a + 8) % 256 ≠ 0)⟩

end OsPlayground.Heap
