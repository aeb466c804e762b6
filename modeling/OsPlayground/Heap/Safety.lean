/-
  File:      OsPlayground/Heap/Safety.lean
  Subject:   THE HEAP OVER A WHOLE RUN of `malloc` calls of any size, from the state
             `init_heap_pages` leaves.

  * `HeapInv` -- the slabs are the last three chunks and the block list tiles the first
    `firstBlockSize` bytes; it says nothing of what has been handed out;
  * `takenBytes` -- the bytes in use: the slots whose bit is set and the data of the allocated
    blocks. `Serves` is what one call does to them: the contract `Exec.Hands`, and the place of
    the answer;
  * `slabMallocOf_scan` -- a slab in its chunk gives its first clear slot, or is full;
  * `slabMallocOf_cases`, `blockMalloc_cases` -- what the sub-allocators do on the heap;
  * `slabMallocOf_serves`, `blockMalloc_serves`, `malloc_serves` -- so each of them serves, and
    `malloc` itself, which falls through from one to the next;
  * `mallocRun_safe` -- the regions of a run are disjoint, aligned, inside the heap and clear of
    every header;
  * `mallocRun_not_tiles` -- the block list never covers the heap up to the slabs.
-/
import OsPlayground.Heap.Parts
import OsPlayground.Library.Exec
import Mathlib.Order.Interval.Set.Basic

namespace OsPlayground.Heap

open Linked

/-! ## 1. The three slabs as one -/

/-- The slabs. -/
inductive SlabKind where
  | slab8 | slab16 | slab32
  deriving DecidableEq, Repr

/-- The size of a slot. -/
def SlabKind.slot : SlabKind → Nat
  | .slab8 => 8
  | .slab16 => 16
  | .slab32 => 32

/-- The chunk of the heap the slab is in. -/
def SlabKind.chunk : SlabKind → Nat
  | .slab8 => 29
  | .slab16 => 30
  | .slab32 => 31

def HeapAllocator.slabOf (s : HeapAllocator) : SlabKind → Nat
  | .slab8 => s.slab8
  | .slab16 => s.slab16
  | .slab32 => s.slab32

def HeapAllocator.bitmapOf (s : HeapAllocator) : SlabKind → Nat → BitVec 8
  | .slab8 => s.slab8Bitmap
  | .slab16 => s.slab16Bitmap
  | .slab32 => s.slab32Bitmap

def HeapAllocator.setBitmap (s : HeapAllocator) (k : SlabKind) (bm : Nat → BitVec 8) :
    HeapAllocator :=
  match k with
  | .slab8 => { s with slab8Bitmap := bm }
  | .slab16 => { s with slab16Bitmap := bm }
  | .slab32 => { s with slab32Bitmap := bm }

/-- The slab function of a kind. -/
def slabMallocOf (k : SlabKind) (s : HeapAllocator) : Option (HeapAllocator × Nat) :=
  (slabMalloc k.slot (s.slabOf k) (s.bitmapOf k)).map fun r => (s.setBitmap k r.1, r.2)

theorem slab8Malloc_eq : slab8Malloc = slabMallocOf .slab8 := rfl

theorem slab16Malloc_eq : slab16Malloc = slabMallocOf .slab16 := rfl

theorem slab32Malloc_eq : slab32Malloc = slabMallocOf .slab32 := rfl

variable {s s' t : HeapAllocator} {base n out : Nat}

@[simp] theorem slabOf_setBitmap (k j : SlabKind) (bm : Nat → BitVec 8) :
    (s.setBitmap k bm).slabOf j = s.slabOf j := by
  cases k <;> rfl

@[simp] theorem heap_setBitmap (k : SlabKind) (bm : Nat → BitVec 8) :
    (s.setBitmap k bm).heap = s.heap := by
  cases k <;> rfl

@[simp] theorem blocks_setBitmap (k : SlabKind) (bm : Nat → BitVec 8) :
    (s.setBitmap k bm).blocks = s.blocks := by
  cases k <;> rfl

theorem slabOf_withBlocks (m : Nat → HeapBlock) (k : SlabKind) :
    HeapAllocator.slabOf { s with blocks := m } k = s.slabOf k := by
  cases k <;> rfl

theorem bitmapOf_withBlocks (m : Nat → HeapBlock) (k : SlabKind) :
    HeapAllocator.bitmapOf { s with blocks := m } k = s.bitmapOf k := by
  cases k <;> rfl

theorem bitmapOf_setBitmap (k j : SlabKind) (bm : Nat → BitVec 8) :
    (s.setBitmap k bm).bitmapOf j = if j = k then bm else s.bitmapOf j := by
  cases k <;> cases j <;> rfl

theorem setBitmap_self (k : SlabKind) : s.setBitmap k (s.bitmapOf k) = s := by
  cases k <;> rfl

/-- The slots of a slab fill its chunk. -/
theorem slot_slots (k : SlabKind) : k.slot * slots k.slot = 131072 := by
  cases k <;> rfl

theorem slot_pos (k : SlabKind) : 0 < k.slot := by
  cases k <;> decide

/-- A slot lies inside the chunk. -/
theorem slot_inside {k : SlabKind} {q : Nat} (hq : q < slots k.slot) :
    k.slot * q + k.slot ≤ 131072 := by
  have hmul : k.slot * (q + 1) ≤ k.slot * slots k.slot := Nat.mul_le_mul_left _ hq
  rw [slot_slots, Nat.mul_add, Nat.mul_one] at hmul
  exact hmul

/-- A chunk of the address space, as `init_heap_pages` gives one to each slab. -/
structure ChunkAt (slab : Nat) : Prop where
  pos : 0 < slab
  le : slab + pageSize * chunkPages ≤ 0x100000000

/-- **The two answers of a slab** in its chunk: the first clear slot, now set, or null. -/
theorem slabMallocOf_scan (k : SlabKind) (h : ChunkAt (s.slabOf k)) :
    ∃ s' out, slabMallocOf k s = some (s', out) ∧
      ((∃ q, IsLeast (clearSlots k.slot (s.bitmapOf k)) q ∧
          s' = s.setBitmap k (Bits.setBit (s.bitmapOf k) q) ∧ out = s.slabOf k + k.slot * q) ∨
        (s' = s ∧ out = 0 ∧ ∀ p < slots k.slot, Bits.bit (s.bitmapOf k) p = true)) := by
  have hroom : s.slabOf k + k.slot * slots k.slot ≤ 2 ^ 32 := by
    rw [slot_slots]
    exact h.le
  obtain ⟨r, hr, hcase⟩ := slabMalloc_scan (s.bitmapOf k) hroom (slot_pos k)
  refine ⟨s.setBitmap k r.1, r.2, by rw [slabMallocOf, hr]; rfl, ?_⟩
  rcases hcase with ⟨q, hleast, rfl⟩ | ⟨rfl, hfull⟩
  · exact Or.inl ⟨q, hleast, rfl, rfl⟩
  · exact Or.inr ⟨setBitmap_self k, rfl, hfull⟩

/-- The address `x` is in slot `q` of slab `k` of the heap at `base`. -/
def InSlot (base : Nat) (k : SlabKind) (q x : Nat) : Prop :=
  q < slots k.slot ∧ base + 131072 * k.chunk + k.slot * q ≤ x ∧
    x < base + 131072 * k.chunk + k.slot * q + k.slot

/-- A slot lies in its slab's chunk. -/
theorem InSlot.inChunk {k : SlabKind} {q x : Nat} (h : InSlot base k q x) :
    base + 131072 * k.chunk ≤ x ∧ x < base + 131072 * k.chunk + 131072 := by
  obtain ⟨hq, h1, h2⟩ := h
  have hin := slot_inside hq
  omega

theorem chunk_range (k : SlabKind) : 29 ≤ k.chunk ∧ k.chunk ≤ 31 := by
  cases k <;> decide

theorem chunk_injective {j k : SlabKind} (h : j.chunk = k.chunk) : j = k := by
  cases j <;> cases k <;> first | rfl | exact absurd h (by decide)

/-- Two slots do not overlap. -/
theorem InSlot.unique {j k : SlabKind} {p q x : Nat} (h : InSlot base j p x)
    (h' : InSlot base k q x) : j = k ∧ p = q := by
  have h1 := h.inChunk
  have h2 := h'.inChunk
  obtain rfl : j = k := chunk_injective (by omega)
  refine ⟨rfl, ?_⟩
  obtain ⟨_, h3, h4⟩ := h
  obtain ⟨_, h5, h6⟩ := h'
  cases j <;> simp only [SlabKind.slot] at h3 h4 h5 h6 <;> omega

/-! ## 2. The invariant and the bytes in use -/

/-- `a` is a node of the block list. -/
def HeapAllocator.Node (s : HeapAllocator) (a : Nat) : Prop :=
  ∃ as, Path (fun a => (s.blocks a).next) 0 s.heap as ∧ a ∈ as

/-- **The heap invariant.** -/
structure HeapInv (base : Nat) (s : HeapAllocator) : Prop where
  heap : s.heap = base
  slabs : ∀ k, s.slabOf k = base + 131072 * k.chunk
  list : ∃ as, BlockList s.blocks base (base + 118784) as

/-- The address `x` is in a slot whose bit is set. -/
def HeapAllocator.SlotTaken (s : HeapAllocator) (x : Nat) : Prop :=
  ∃ k q, Bits.bit (s.bitmapOf k) q = true ∧ InSlot s.heap k q x

/-- The address `x` is in the data of an allocated block. -/
def HeapAllocator.DataTaken (s : HeapAllocator) (x : Nat) : Prop :=
  ∃ a, s.Node a ∧ (s.blocks a).allocated = true ∧ a + 64 ≤ x ∧ x < a + (s.blocks a).size

/-- The bytes in use. -/
def takenBytes (s : HeapAllocator) : Set Nat := {x | s.SlotTaken x ∨ s.DataTaken x}

theorem node_iff {as : List Nat} (hh : s.heap = base)
    (h : BlockList s.blocks base (base + 118784) as) {a : Nat} : s.Node a ↔ a ∈ as := by
  constructor
  · intro hnode
    obtain ⟨bs, hbs, ha⟩ := hnode
    rw [hh] at hbs
    rw [h.path.unique hbs]
    exact ha
  · intro ha
    exact ⟨as, by rw [hh]; exact h.path, ha⟩

/-- The data of a block lies below the slabs. -/
theorem HeapInv.data_lt (h : HeapInv base s) {x : Nat} (hx : s.DataTaken x) :
    base + 64 ≤ x ∧ x < base + 118784 := by
  obtain ⟨as, hl⟩ := h.list
  obtain ⟨a, ha, _, h1, h2⟩ := hx
  have hr := hl.range ((node_iff h.heap hl).mp ha)
  omega

theorem HeapInv.slot_range (h : HeapInv base s) {x : Nat} (hx : s.SlotTaken x) :
    base + 3801088 ≤ x ∧ x < base + 4194304 := by
  obtain ⟨k, q, _, hin⟩ := hx
  rw [h.heap] at hin
  have h1 := hin.inChunk
  have h2 := chunk_range k
  omega

/-- **The header of a block is never in use.** -/
theorem HeapInv.header_free (h : HeapInv base s) {a : Nat} (ha : s.Node a) :
    Disjoint (Set.Ico a (a + 64)) (takenBytes s) := by
  obtain ⟨as, hl⟩ := h.list
  have ha' := (node_iff h.heap hl).mp ha
  rw [Set.disjoint_left]
  intro x hin htaken
  obtain ⟨h1, h2⟩ := hin
  rcases htaken with hx | ⟨b, hb, _, h3, h4⟩
  · have := h.slot_range hx
    have := hl.range ha'
    have := hl.size_ge ha'
    omega
  · have hb' := (node_iff h.heap hl).mp hb
    have := hl.size_ge ha'
    by_cases hab : a = b
    · omega
    · rcases hl.apart ha' hb' hab with h5 | h5
      · omega
      · omega

/-! ## 3. One call -/

/-- The answer is a slot of a slab whose slots are large enough. -/
def InSlab (base n out : Nat) : Prop :=
  ∃ (k : SlabKind) (q : Nat), n ≤ k.slot ∧ q < slots k.slot ∧
    out = base + 131072 * k.chunk + k.slot * q

/-- The answer is in the block list's part, behind a header. -/
def InBlocks (base n out : Nat) : Prop :=
  out % 64 = 0 ∧ base + 64 ≤ out ∧ out + n ≤ base + 118784

/-- **Where an answer lies.** -/
def Place (base n out : Nat) : Prop := InSlab base n out ∨ InBlocks base n out

/-- **What an allocation of `n` bytes does**: it keeps the invariant, a null answer changes
    nothing, and any other answer is in its place and keeps the allocator's contract. -/
structure Serves (base n : Nat) (s s' : HeapAllocator) (out : Nat) : Prop where
  inv : HeapInv base s'
  null : out = 0 → s' = s
  place : out ≠ 0 → Place base n out
  hands : out ≠ 0 → Exec.Hands takenBytes (fun p => Set.Ico p (p + n)) s out s'

theorem HeapInv.setBitmap (h : HeapInv base s) (k : SlabKind) (bm : Nat → BitVec 8) :
    HeapInv base (s.setBitmap k bm) where
  heap := by rw [heap_setBitmap, h.heap]
  slabs j := by rw [slabOf_setBitmap, h.slabs]
  list := by rw [blocks_setBitmap]; exact h.list

theorem dataTaken_setBitmap (k : SlabKind) (bm : Nat → BitVec 8) (x : Nat) :
    (s.setBitmap k bm).DataTaken x ↔ s.DataTaken x := by
  simp only [HeapAllocator.DataTaken, HeapAllocator.Node, blocks_setBitmap, heap_setBitmap]

/-- A null answer that changes nothing serves. -/
theorem serves_null (h : HeapInv base s) : Serves base n s s 0 :=
  ⟨h, fun _ => rfl, fun h0 => absurd rfl h0, fun h0 => absurd rfl h0⟩

/-- The slabs of a heap are in chunks of the address space. -/
theorem HeapInv.chunkAt (hb : HeapBase base) (h : HeapInv base s) (k : SlabKind) :
    ChunkAt (s.slabOf k) := by
  have hk := chunk_range k
  have hpos := hb.pos
  have hle := hb.le
  simp only [pageBlockSize, pageSize] at hle
  constructor
  · rw [h.slabs]
    omega
  · rw [h.slabs]
    show base + 131072 * k.chunk + 131072 ≤ 0x100000000
    omega

/-- **A slab of the heap** gives a clear slot, or is full. -/
theorem slabMallocOf_cases (hb : HeapBase base) (h : HeapInv base s) (k : SlabKind) :
    ∃ s' out, slabMallocOf k s = some (s', out) ∧
      ((∃ q < slots k.slot, Bits.bit (s.bitmapOf k) q = false ∧
          s' = s.setBitmap k (Bits.setBit (s.bitmapOf k) q) ∧
          out = base + 131072 * k.chunk + k.slot * q) ∨
        (out = 0 ∧ s' = s ∧ ∀ q < slots k.slot, Bits.bit (s.bitmapOf k) q = true)) := by
  obtain ⟨s', out, hrun, hcase⟩ := slabMallocOf_scan k (h.chunkAt hb k)
  refine ⟨s', out, hrun, ?_⟩
  rcases hcase with ⟨q, hleast, hs', hout⟩ | ⟨hs', hout, hfull⟩
  · rw [h.slabs] at hout
    exact Or.inl ⟨q, hleast.1.1, hleast.1.2, hs', hout⟩
  · exact Or.inr ⟨hout, hs', hfull⟩

/-- **A slot given serves** requests up to its size. -/
theorem serves_slot (h : HeapInv base s) {k : SlabKind} (hn : n ≤ k.slot) {q : Nat}
    (hq : q < slots k.slot) (hclear : Bits.bit (s.bitmapOf k) q = false)
    (hout : out = base + 131072 * k.chunk + k.slot * q) :
    Serves base n s (s.setBitmap k (Bits.setBit (s.bitmapOf k) q)) out := by
  have hk := chunk_range k
  refine ⟨h.setBitmap k _, fun h0 => by omega, fun _ => Or.inl ⟨k, q, hn, hq, hout⟩,
    fun _ => ⟨?_, ?_, ?_⟩⟩
  · rw [Set.disjoint_left]
    intro x hbytes hx
    obtain ⟨h1, h2⟩ := hbytes
    have hin : InSlot base k q x := ⟨hq, by omega, by omega⟩
    rcases hx with ⟨j, p, hbit, hx⟩ | hx
    · rw [h.heap] at hx
      obtain ⟨rfl, rfl⟩ := hx.unique hin
      rw [hclear] at hbit
      cases hbit
    · have := h.data_lt hx
      have := hin.inChunk
      omega
  · intro x htaken
    rcases htaken with ⟨j, p, hbit, hx⟩ | hx
    · refine Or.inl ⟨j, p, ?_, by rw [heap_setBitmap]; exact hx⟩
      rw [bitmapOf_setBitmap]
      split
      · rename_i hjk
        rw [hjk] at hbit
        rw [Bits.bit_setBit, hbit, Bool.true_or]
      · exact hbit
    · exact Or.inr ((dataTaken_setBitmap k _ x).mpr hx)
  · intro x hbytes
    obtain ⟨h1, h2⟩ := hbytes
    refine Or.inl ⟨k, q, ?_, ?_⟩
    · rw [bitmapOf_setBitmap, if_pos rfl, Bits.bit_setBit, decide_eq_true rfl, Bool.or_true]
    · rw [heap_setBitmap, h.heap]
      exact ⟨hq, by omega, by omega⟩

/-- **A slab serves requests up to its slot size.** -/
theorem slabMallocOf_serves (hb : HeapBase base) (h : HeapInv base s) (k : SlabKind)
    (hn : n ≤ k.slot) : ∃ s' out, slabMallocOf k s = some (s', out) ∧ Serves base n s s' out := by
  obtain ⟨s', out, hrun, hcase⟩ := slabMallocOf_cases hb h k
  refine ⟨s', out, hrun, ?_⟩
  rcases hcase with ⟨q, hq, hclear, rfl, hout⟩ | ⟨rfl, rfl, _⟩
  · exact serves_slot h hn hq hclear hout
  · exact serves_null h

/-- **The block list of the heap** gives a free block, or none is large enough. -/
theorem blockMalloc_cases (hb : HeapBase base) (h : HeapInv base s) (n : Nat) :
    ∃ s' out, blockMalloc s n = some (s', out) ∧
      ∃ as, BlockList s.blocks base (base + 118784) as ∧
        ((∃ a ∈ as, (s.blocks a).allocated = false ∧ 64 + n ≤ (s.blocks a).size ∧
            s' = { s with blocks := takeBlock s.blocks a n } ∧ out = a + 64) ∨
          (out = 0 ∧ s' = s ∧ ∀ a ∈ as, (s.blocks a).allocated = false →
            (s.blocks a).size < 64 + n)) := by
  have hb' := hb.le
  simp only [pageBlockSize, pageSize] at hb'
  obtain ⟨as, hl⟩ := h.list
  have hl' := hl
  rw [← h.heap] at hl'
  have hstop : s.heap + 118784 < 2 ^ 32 := by
    rw [h.heap]
    omega
  have hlen : s.heap + 118784 - s.heap ≤ heapPages * pageSize := by
    simp only [heapPages, pageSize]
    omega
  obtain ⟨s', out, hrun, hcase⟩ := blockMalloc_spec n hl' hstop hlen
  exact ⟨s', out, hrun, as, hl, hcase⟩

/-- A block in use is not one that is free. -/
theorem ne_of_free {a b : Nat} (hfree : (s.blocks a).allocated = false)
    (hall : (s.blocks b).allocated = true) : b ≠ a := by
  intro heq
  rw [heq, hfree] at hall
  cases hall

/-- **A block given serves**: only the headers change. -/
theorem serves_block (hb : HeapBase base) (h : HeapInv base s) {as : List Nat}
    (hl : BlockList s.blocks base (base + 118784) as) {a : Nat} (ha : a ∈ as)
    (hfree : (s.blocks a).allocated = false) (hfit : 64 + n ≤ (s.blocks a).size)
    (hs' : s' = { s with blocks := takeBlock s.blocks a n }) :
    Serves base n s s' (a + 64) ∧ InBlocks base n (a + 64) := by
  have hb' := hb.le
  simp only [pageBlockSize, pageSize] at hb'
  obtain ⟨as', ht⟩ := takeBlock_spec hl (by omega) ha hfit
  have hheap : s'.heap = base := by rw [hs']; exact h.heap
  have hslabs : ∀ k, s'.slabOf k = s.slabOf k := fun k => by rw [hs', slabOf_withBlocks]
  have hbitmaps : ∀ k, s'.bitmapOf k = s.bitmapOf k := fun k => by
    rw [hs', bitmapOf_withBlocks]
  have hblocks : takeBlock s.blocks a n = s'.blocks := by rw [hs']
  rw [hblocks] at ht
  have hinv : HeapInv base s' := ⟨hheap, fun k => by rw [hslabs, h.slabs], as', ht.list⟩
  have hnode : ∀ {b}, s.Node b ↔ b ∈ as := node_iff h.heap hl
  have hnode' : ∀ {b}, s'.Node b ↔ b ∈ as' := node_iff hheap ht.list
  have hr := hl.range ha
  have hu := (hl.units a ha).1
  obtain ⟨hall', hsize'⟩ := ht.here
  have hplace : InBlocks base n (a + 64) := ⟨by omega, by omega, by omega⟩
  refine ⟨⟨hinv, fun h0 => by omega, fun _ => Or.inr hplace, fun _ => ⟨?_, ?_, ?_⟩⟩, hplace⟩
  · rw [Set.disjoint_left]
    intro x hbytes htaken
    obtain ⟨h1, h2⟩ := hbytes
    rcases htaken with hx | ⟨b, hbn, hall, h3, h4⟩
    · have := h.slot_range hx
      omega
    · rcases hl.apart (hnode.mp hbn) ha (ne_of_free hfree hall) with h5 | h5
      · omega
      · omega
  · intro x htaken
    rcases htaken with ⟨j, p, hbit, hx⟩ | ⟨b, hbn, hall, h3, h4⟩
    · refine Or.inl ⟨j, p, ?_, ?_⟩
      · rw [hbitmaps]
        exact hbit
      · rw [hheap, ← h.heap]
        exact hx
    · have hb1 := hnode.mp hbn
      have hsame := ht.others b hb1 (ne_of_free hfree hall)
      refine Or.inr ⟨b, hnode'.mpr (ht.kept b hb1), ?_, h3, ?_⟩
      · rw [hsame]
        exact hall
      · rw [hsame]
        exact h4
  · intro x hbytes
    obtain ⟨h1, h2⟩ := hbytes
    exact Or.inr ⟨a, hnode'.mpr (ht.kept a ha), hall', h1, by omega⟩

/-- **The block list serves any request** from its own part, or answers null. -/
theorem blockMalloc_serves (hb : HeapBase base) (h : HeapInv base s) (n : Nat) :
    ∃ s' out, blockMalloc s n = some (s', out) ∧ Serves base n s s' out ∧
      (out ≠ 0 → InBlocks base n out) := by
  obtain ⟨s', out, hrun, as, hl, hcase⟩ := blockMalloc_cases hb h n
  refine ⟨s', out, hrun, ?_⟩
  rcases hcase with ⟨a, ha, hfree, hfit, hs', rfl⟩ | ⟨rfl, rfl, _⟩
  · obtain ⟨hserves, hplace⟩ := serves_block hb h hl ha hfree hfit hs'
    exact ⟨hserves, fun _ => hplace⟩
  · exact ⟨serves_null h, fun h0 => absurd rfl h0⟩

/-- **Falling through**: a null answer leaves the state to the next allocator. -/
theorem tryFirst_serves {c : Prop} [Decidable c]
    {f rest : HeapAllocator → Option (HeapAllocator × Nat)}
    (hf : c → ∃ s' out, f s = some (s', out) ∧ Serves base n s s' out)
    (hrest : ∃ s' out, rest s = some (s', out) ∧ Serves base n s s' out) :
    ∃ s' out, tryFirst c f rest s = some (s', out) ∧ Serves base n s s' out := by
  unfold tryFirst
  by_cases hc : c
  · rw [if_pos hc]
    obtain ⟨s', out, hrun, hs⟩ := hf hc
    rw [hrun]
    dsimp only
    by_cases h0 : out ≠ 0
    · rw [if_pos h0]
      exact ⟨s', out, rfl, hs⟩
    · rw [if_neg h0, hs.null (not_not.mp h0)]
      exact hrest
  · rw [if_neg hc]
    exact hrest

/-- **Every call of `malloc` is answered**, and the answer keeps the contract. -/
theorem malloc_serves (hb : HeapBase base) (h : HeapInv base s) (n : Nat) :
    ∃ s' out, malloc s n = some (s', out) ∧ Serves base n s s' out := by
  unfold malloc
  split
  · exact ⟨s, 0, rfl, serves_null h⟩
  · rw [slab8Malloc_eq, slab16Malloc_eq, slab32Malloc_eq]
    refine tryFirst_serves (fun hn => slabMallocOf_serves hb h .slab8 hn) ?_
    refine tryFirst_serves (fun hn => slabMallocOf_serves hb h .slab16 hn) ?_
    refine tryFirst_serves (fun hn => slabMallocOf_serves hb h .slab32 hn) ?_
    obtain ⟨s', out, hrun, hserves, _⟩ := blockMalloc_serves hb h n
    exact ⟨s', out, hrun, hserves⟩

/-! ## 4. Runs -/

/-- The answer to a call: the size asked for and the address returned. -/
structure Region where
  size : Nat
  addr : Nat
  deriving DecidableEq, Repr

/-- The bytes of a non-null answer. -/
def Region.bytes (r : Region) : Set Nat := {x | r.addr ≠ 0 ∧ r.addr ≤ x ∧ x < r.addr + r.size}

/-- The alignment a request of its size is served with. -/
def Region.align (r : Region) : Nat :=
  if r.size ≤ 8 then 8 else if r.size ≤ 16 then 16 else if r.size ≤ 32 then 32 else 64

/-- One call. -/
def mallocStep (s : HeapAllocator) (n : Nat) : Option (HeapAllocator × Region) :=
  (malloc s n).map fun r => (r.1, ⟨n, r.2⟩)

/-- A run of calls. -/
def mallocRun (s : HeapAllocator) (ns : List Nat) : Option (HeapAllocator × List Region) :=
  Exec.run mallocStep s ns

/-- The chunks of the slabs. -/
def slabBytes (s : HeapAllocator) : Set Nat := {x | ∃ k, s.slabOf k ≤ x ∧ x < s.slabOf k + 131072}

theorem mallocStep_serves (hb : HeapBase base) (h : HeapInv base s) (n : Nat) :
    ∃ s' out, mallocStep s n = some (s', ⟨n, out⟩) ∧ Serves base n s s' out := by
  obtain ⟨s', out, hrun, hs⟩ := malloc_serves hb h n
  exact ⟨s', out, by rw [mallocStep, hrun]; rfl, hs⟩

theorem serves_of_step (hb : HeapBase base) (h : HeapInv base s) {r : Region}
    (hstep : mallocStep s n = some (s', r)) : r.size = n ∧ Serves base n s s' r.addr := by
  obtain ⟨s'', out, hrun, hs⟩ := mallocStep_serves hb h n
  rw [hstep] at hrun
  cases hrun
  exact ⟨rfl, hs⟩

/-- The contract of a call, null answers included. -/
theorem Serves.region (h : Serves base n s s' out) :
    Exec.Hands takenBytes Region.bytes s ⟨n, out⟩ s' := by
  by_cases h0 : out = 0
  · have hempty : (Region.mk n out).bytes = ∅ := by
      ext x
      simp [Region.bytes, h0]
    refine ⟨?_, by rw [h.null h0], ?_⟩
    · rw [hempty]
      exact Set.empty_disjoint _
    · rw [hempty]
      exact Set.empty_subset _
  · have hbytes : (Region.mk n out).bytes = Set.Ico out (out + n) := by
      ext x
      simp [Region.bytes, h0]
    have hh := h.hands h0
    exact ⟨by rw [hbytes]; exact hh.fresh, hh.kept, by rw [hbytes]; exact hh.given⟩

/-- The alignment of a request divides every slot size it fits, and 64. -/
theorem align_dvd_slot {k : SlabKind} (hn : n ≤ k.slot) : (Region.mk n out).align ∣ k.slot := by
  unfold Region.align
  dsimp only
  cases k <;> simp only [SlabKind.slot] at hn ⊢ <;> split_ifs <;> omega

theorem align_dvd_64 : (Region.mk n out).align ∣ 64 := by
  unfold Region.align
  split_ifs <;> decide

/-- **A place is inside the heap and aligned.** -/
theorem Place.sound (hb : HeapBase base) (h : Place base n out) :
    base ≤ out ∧ out + n ≤ base + 4194304 ∧ (Region.mk n out).align ∣ out := by
  rcases h with ⟨k, q, hn, hq, rfl⟩ | ⟨hmod, h1, h2⟩
  · have hmul : k.slot * (q + 1) ≤ k.slot * slots k.slot := Nat.mul_le_mul_left _ hq
    rw [slot_slots, Nat.mul_add, Nat.mul_one] at hmul
    have hk := chunk_range k
    have hbase : 64 ∣ base + 131072 * k.chunk := by
      have hb' := hb.aligned
      simp only [pageBlockSize, pageSize] at hb'
      omega
    refine ⟨by omega, by omega, ?_⟩
    exact Nat.dvd_add (align_dvd_64.trans hbase) ((align_dvd_slot hn).mul_right q)
  · exact ⟨by omega, by omega, align_dvd_64.trans (Nat.dvd_of_mod_eq_zero hmod)⟩

/-- The one block of a fresh heap is a list. -/
theorem Fresh.list (hb : HeapBase base) (hs : Fresh base s) :
    BlockList s.blocks base (base + 118784) [base] := by
  have hpos := hb.pos
  have ha := hb.aligned
  simp only [pageBlockSize, pageSize] at ha
  refine ⟨.node (by omega) ?_, .block ?_ ?_, ?_⟩
  · rw [hs.first]
    exact .stop
  · rw [hs.first]
    decide
  · rw [hs.first]
    exact .done
  · intro a ha'
    rw [List.mem_singleton.mp ha', hs.first]
    exact ⟨by omega, by decide⟩

/-- The state `init_heap_pages` leaves keeps the invariant. -/
theorem Fresh.inv (hb : HeapBase base) (hs : Fresh base s) : HeapInv base s where
  heap := hs.heap
  slabs k := by
    cases k
    · exact hs.slab8
    · exact hs.slab16
    · exact hs.slab32
  list := ⟨[base], hs.list hb⟩

theorem mallocRun_inv (hb : HeapBase base) (h : HeapInv base s) {ns : List Nat}
    {rs : List Region} (hrun : mallocRun s ns = some (t, rs)) : HeapInv base t :=
  Exec.run_inv (HeapInv base) (fun _ _ _ _ hI hstep => (serves_of_step hb hI hstep).2.inv) h hrun

/-- **Live objects never overlap.** From the state `init_heap_pages` leaves, every sequence of
    `malloc` calls is answered. The regions of its non-null answers are pairwise disjoint, inside
    the heap's 4 MiB, clear of the header of every block in the list reached, and aligned; each is
    a slot of a slab that is large enough or lies in the block list's part, away from the slabs;
    and so does whatever the block list would answer next. -/
theorem mallocRun_safe (base : Nat) (hb : HeapBase base) (s : HeapAllocator) (hs : Fresh base s)
    (ns : List Nat) :
    ∃ t rs, mallocRun s ns = some (t, rs) ∧
      List.Forall₂ (fun n r => r.size = n ∧
        (r.addr ≠ 0 → Place base n r.addr ∧ base ≤ r.addr ∧
          r.addr + r.size ≤ base + pageBlockSize ∧ r.align ∣ r.addr)) ns rs ∧
      rs.Pairwise (fun r r' => Disjoint r.bytes r'.bytes) ∧
      (∀ r ∈ rs, ∀ a, t.Node a → Disjoint r.bytes (Set.Ico a (a + sizeofHeapBlock))) ∧
      ∀ n t' out, blockMalloc t n = some (t', out) → out ≠ 0 →
        Disjoint (Set.Ico out (out + n)) (slabBytes t) := by
  have hinv := hs.inv hb
  have htotal : ∃ t rs, mallocRun s ns = some (t, rs) ∧ HeapInv base t :=
    Exec.run_total (HeapInv base) (fun _ => True)
      (fun u n hu _ => by
        obtain ⟨u', out, hstep, hserves⟩ := mallocStep_serves hb hu n
        exact ⟨u', _, hstep, hserves.inv⟩) hinv fun _ _ => trivial
  obtain ⟨t, rs, hrun, ht⟩ := htotal
  obtain ⟨hpw, hgiven, _⟩ := Exec.run_hands (HeapInv base)
    (fun u n u' r hu hstep => by
      obtain ⟨hsize, hserves⟩ := serves_of_step hb hu hstep
      refine ⟨hserves.inv, ?_⟩
      have hreg := hserves.region
      rw [← hsize] at hreg
      exact hreg) hinv hrun
  refine ⟨t, rs, hrun, ?_, hpw, fun r hr a ha => ?_, fun n t' out hblock h0 => ?_⟩
  · refine Exec.run_forall₂ (HeapInv base) _ (fun u n u' r hu hstep => ?_) hinv hrun
    obtain ⟨hsize, hserves⟩ := serves_of_step hb hu hstep
    refine ⟨hserves.inv, hsize, fun h0 => ?_⟩
    have hplace := hserves.place h0
    obtain ⟨h1, h2, h3⟩ := hplace.sound hb
    cases hsize
    exact ⟨hplace, h1, h2, h3⟩
  · exact (ht.header_free ha).symm.mono_left (hgiven r hr).2
  · obtain ⟨t'', out', hblock', _, hplace⟩ := blockMalloc_serves hb ht n
    rw [hblock] at hblock'
    cases hblock'
    obtain ⟨_, _, hlt⟩ := hplace h0
    rw [Set.disjoint_left]
    intro x hblocks hslabs
    obtain ⟨_, hx⟩ := hblocks
    obtain ⟨k, hk, _⟩ := hslabs
    rw [ht.slabs] at hk
    have := chunk_range k
    omega

/-- The requests of `kernel_main` and a few more, on a heap at 0xc0800000. -/
theorem mallocRun_safe_boot :
    ∃ t rs, mallocRun (freshHeap 0xc0800000) [128, 8, 16, 32, 0, 100000, 2 ^ 32 - 1] =
        some (t, rs) ∧
      List.Forall₂ (fun n r => r.size = n ∧
        (r.addr ≠ 0 → Place 0xc0800000 n r.addr ∧ 0xc0800000 ≤ r.addr ∧
          r.addr + r.size ≤ 0xc0800000 + pageBlockSize ∧ r.align ∣ r.addr))
        [128, 8, 16, 32, 0, 100000, 2 ^ 32 - 1] rs ∧
      rs.Pairwise (fun r r' => Disjoint r.bytes r'.bytes) ∧
      (∀ r ∈ rs, ∀ a, t.Node a → Disjoint r.bytes (Set.Ico a (a + sizeofHeapBlock))) ∧
      ∀ n t' out, blockMalloc t n = some (t', out) → out ≠ 0 →
        Disjoint (Set.Ico out (out + n)) (slabBytes t) :=
  mallocRun_safe 0xc0800000 ⟨by decide, by decide, by decide⟩ (freshHeap 0xc0800000)
    (fresh_freshHeap 0xc0800000) [128, 8, 16, 32, 0, 100000, 2 ^ 32 - 1]

/-! ## 5. What the block list covers -/

/-- **The blocks tile the heap up to the slabs**: they are disjoint and cover exactly the range
    from `heap` to `slab8`. -/
def TilesHeap (s : HeapAllocator) : Prop :=
  ∃ as, Path (fun a => (s.blocks a).next) 0 s.heap as ∧
    as.Pairwise (fun a b => Disjoint (Set.Ico a (a + (s.blocks a).size))
      (Set.Ico b (b + (s.blocks b).size))) ∧
    ∀ x, (∃ a ∈ as, a ≤ x ∧ x < a + (s.blocks a).size) ↔ s.heap ≤ x ∧ x < s.slab8

/-- **The blocks cover the first `firstBlockSize` bytes and no more**, in every state. -/
theorem HeapInv.covered (h : HeapInv base s) (x : Nat) :
    (∃ a, s.Node a ∧ a ≤ x ∧ x < a + (s.blocks a).size) ↔
      base ≤ x ∧ x < base + firstBlockSize := by
  obtain ⟨as, hl⟩ := h.list
  have hcover := hl.tiles.cover x
  constructor
  · intro hcovered
    obtain ⟨a, ha, hx⟩ := hcovered
    exact hcover.mp ⟨a, (node_iff h.heap hl).mp ha, hx⟩
  · intro hx
    obtain ⟨a, ha, hx⟩ := hcover.mpr hx
    exact ⟨a, (node_iff h.heap hl).mpr ha, hx⟩

theorem HeapInv.not_tilesHeap (h : HeapInv base s) : ¬ TilesHeap s := by
  intro htiles
  obtain ⟨as, hpath, _, hcover⟩ := htiles
  have hslab : s.slab8 = base + 3801088 := h.slabs .slab8
  -- the first byte after the first 29 pages is below the slabs and in no block
  obtain ⟨a, ha, hx⟩ := (hcover (base + firstBlockSize)).mpr (by
    rw [h.heap, hslab]
    exact ⟨Nat.le_add_right _ _, Nat.add_lt_add_left (by decide) _⟩)
  have := (h.covered (base + firstBlockSize)).mp ⟨a, ⟨as, hpath, ha⟩, hx⟩
  omega

/-- A request above the slabs goes to the block list. -/
theorem malloc_large (hn : 32 < n) (hle : n ≤ heapPages * pageSize) :
    malloc s n = blockMalloc s n := by
  unfold malloc tryFirst
  rw [if_neg (Nat.not_lt.mpr hle), if_neg (show ¬ n ≤ 8 by omega), if_neg (show ¬ n ≤ 16 by omega),
    if_neg (show ¬ n ≤ 32 by omega)]

/-- A fresh heap serves a request above the slabs when it fits the first block. -/
theorem Fresh.malloc_iff (hb : HeapBase base) (hs : Fresh base s) (hn : 32 < n) :
    (∃ s' out, malloc s n = some (s', out) ∧ out ≠ 0) ↔ 64 + n ≤ 118784 := by
  have hfirst : (s.blocks base).size = 118784 := by
    rw [hs.first]
    rfl
  by_cases hle : n ≤ heapPages * pageSize
  · rw [malloc_large hn hle]
    have hl := hs.list hb
    rw [← hs.heap] at hl hfirst
    have hstop : s.heap + 118784 < 2 ^ 32 := by
      have hb' := hb.le
      simp only [pageBlockSize, pageSize] at hb'
      rw [hs.heap]
      omega
    have hlen : s.heap + 118784 - s.heap ≤ heapPages * pageSize := by
      simp only [heapPages, pageSize]
      omega
    obtain ⟨s', out, hrun, hcase⟩ := blockMalloc_spec n hl hstop hlen
    rw [hrun]
    rcases hcase with ⟨a, ha, _, hfit, _, rfl⟩ | ⟨rfl, _, hnone⟩
    · rw [List.mem_singleton.mp ha, hfirst] at hfit
      exact ⟨fun _ => hfit, fun _ => ⟨s', a + 64, rfl, by omega⟩⟩
    · have hfree : (s.blocks s.heap).allocated = false := by rw [hs.heap, hs.first]
      have hsmall := hnone s.heap List.mem_cons_self hfree
      rw [hfirst] at hsmall
      constructor
      · intro hserved
        obtain ⟨_, _, h, h0⟩ := hserved
        cases h
        exact absurd rfl h0
      · intro hfit
        omega
  · have hnull : malloc s n = some (s, 0) := if_pos (Nat.lt_of_not_le hle)
    rw [hnull]
    simp only [heapPages, pageSize] at hle
    constructor
    · intro hserved
      obtain ⟨_, _, h, h0⟩ := hserved
      cases h
      exact absurd rfl h0
    · intro hfit
      omega

/-- **The block list never covers its part of the heap.** In every state reached from the one
    `init_heap_pages` leaves, the blocks do not tile the range up to the slabs; and on a fresh
    heap a request in the range the block list should serve succeeds only if it fits 29 pages. -/
theorem mallocRun_not_tiles (base : Nat) (hb : HeapBase base) (s : HeapAllocator)
    (hs : Fresh base s) :
    (∀ ns t rs, mallocRun s ns = some (t, rs) → ¬ TilesHeap t) ∧
      ∀ n, 32 < n → n ≤ s.slab8 - s.heap - sizeofHeapBlock →
        ((∃ s' out, malloc s n = some (s', out) ∧ out ≠ 0) ↔
          n ≤ firstBlockSize - sizeofHeapBlock) := by
  refine ⟨fun ns t rs hrun => (mallocRun_inv hb (hs.inv hb) hrun).not_tilesHeap, fun n hn _ => ?_⟩
  rw [hs.malloc_iff hb hn]
  simp only [firstBlockSize, chunkPages, pageSize, sizeofHeapBlock, heapBlockAlign]
  omega

/-- A fresh heap at 0xc0800000. -/
theorem mallocRun_not_tiles_boot :
    (∀ ns t rs, mallocRun (freshHeap 0xc0800000) ns = some (t, rs) → ¬ TilesHeap t) ∧
      ∀ n, 32 < n →
        n ≤ (freshHeap 0xc0800000).slab8 - (freshHeap 0xc0800000).heap - sizeofHeapBlock →
        ((∃ s' out, malloc (freshHeap 0xc0800000) n = some (s', out) ∧ out ≠ 0) ↔
          n ≤ firstBlockSize - sizeofHeapBlock) :=
  mallocRun_not_tiles 0xc0800000 ⟨by decide, by decide, by decide⟩ (freshHeap 0xc0800000)
    (fresh_freshHeap 0xc0800000)

/-- On that heap a request of 118721 bytes fails, although 3800960 bytes lie between the first
    header and the slabs. -/
theorem freshHeap_lost :
    (malloc (freshHeap 0xc0800000) 118721).map (·.2) = some 0 ∧
      118721 ≤ (freshHeap 0xc0800000).slab8 - (freshHeap 0xc0800000).heap - sizeofHeapBlock ∧
      ¬ TilesHeap (freshHeap 0xc0800000) := by
  refine ⟨by rfl, by decide, ?_⟩
  exact ((fresh_freshHeap 0xc0800000).inv ⟨by decide, by decide, by decide⟩).not_tilesHeap

end OsPlayground.Heap
