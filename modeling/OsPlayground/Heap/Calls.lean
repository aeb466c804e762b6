/-
  File:      OsPlayground/Heap/Calls.lean
  Subject:   WHAT ONE CALL OF `malloc` DOES, said once: it sets one clear bit of one slab, or it
             takes one free block, whole or cut in two, or it fails and changes nothing.

  * `SlotGiven`, `BlockGiven` -- the two ways to succeed, with everything that changes;
  * `slabMallocOf_answers`, `blockMalloc_answers` -- the sub-allocators, `tryFirst_answers` -- the
    chain of them; what was tried in vain is full;
  * `malloc_answers` -- so `malloc` fails only where every slab that could serve is full and no
    free block is large enough, or the request is larger than the heap;
  * `malloc_fails_iff` -- exactly then, in every state a run reaches.
-/
import OsPlayground.Heap.Safety

namespace OsPlayground.Heap

open Linked

/-! ## 1. Failures and successes -/

/-- Every slot of the slab is taken. -/
def SlabFull (s : HeapAllocator) (k : SlabKind) : Prop :=
  ∀ q < slots k.slot, Bits.bit (s.bitmapOf k) q = true

/-- No free block has room for `n` bytes after its header. -/
def NoBlockFits (s : HeapAllocator) (n : Nat) : Prop :=
  ∀ a, s.Node a → (s.blocks a).allocated = false → (s.blocks a).size < n + sizeofHeapBlock

/-- **`malloc(n)` has to fail**: `n` is more than the heap, or every slab with slots of `n` bytes
    is full and no free block is large enough. -/
def MustFail (s : HeapAllocator) (n : Nat) : Prop :=
  heapPages * pageSize < n ∨ ((∀ k : SlabKind, n ≤ k.slot → SlabFull s k) ∧ NoBlockFits s n)

/-- **Slot `q` of slab `k` is given**: its bit was clear and is set, and nothing else changes. -/
structure SlotGiven (n : Nat) (s s' : HeapAllocator) (k : SlabKind) (q : Nat) : Prop where
  large : n ≤ k.slot
  inSlab : q < slots k.slot
  clear : Bits.bit (s.bitmapOf k) q = false
  set : s' = s.setBitmap k (Bits.setBit (s.bitmapOf k) q)

/-- The block at `a` keeps its extent. -/
def GivenWhole (s s' : HeapAllocator) (a : Nat) : Prop :=
  (∀ b, s'.Node b ↔ s.Node b) ∧ s'.blocks a = { s.blocks a with allocated := true }

/-- The block at `a` is cut: a free block `b` begins where it ends, and points where it did. -/
def GivenCut (s s' : HeapAllocator) (a b : Nat) : Prop :=
  ¬ s.Node b ∧ (∀ c, s'.Node c ↔ s.Node c ∨ c = b) ∧
    ∃ left, s'.blocks a = ⟨b, b - a, true⟩ ∧ s'.blocks b = ⟨(s.blocks a).next, left, false⟩ ∧
      a < b ∧ 0 < left ∧ b + left = a + (s.blocks a).size

/-- **The block at `a` is given**: it was free and large enough, is allocated now, whole or cut in
    two, and no other block of the list changes, nor does anything but the list. -/
structure BlockGiven (n : Nat) (s s' : HeapAllocator) (a : Nat) : Prop where
  node : s.Node a
  free : (s.blocks a).allocated = false
  large : n + sizeofHeapBlock ≤ (s.blocks a).size
  frame : s' = { s with blocks := s'.blocks }
  others : ∀ b, s.Node b → b ≠ a → s'.blocks b = s.blocks b
  here : GivenWhole s s' a ∨ ∃ b, GivenCut s s' a b

/-- **What a call answers** when the slabs in `tried` were tried first: an address, for one slot
    or one block given, or null; then nothing changed, the slabs tried are full and no free block
    is large enough. -/
def Answered (n : Nat) (tried : List SlabKind) (s s' : HeapAllocator) (out : Nat) : Prop :=
  (out ≠ 0 ∧ ((∃ k q, SlotGiven n s s' k q) ∨ ∃ a, BlockGiven n s s' a)) ∨
  (out = 0 ∧ s' = s ∧ (∀ k ∈ tried, n ≤ k.slot → SlabFull s k) ∧ NoBlockFits s n)

variable {s s' t : HeapAllocator} {base n out : Nat}

theorem SlotGiven.not_full {k : SlabKind} {q : Nat} (h : SlotGiven n s s' k q) :
    ¬ SlabFull s k := by
  intro hfull
  have hset := hfull q h.inSlab
  rw [h.clear] at hset
  cases hset

/-- Where something was given, `malloc` did not have to fail. -/
theorem not_mustFail (hn : n ≤ heapPages * pageSize)
    (h : (∃ k q, SlotGiven n s s' k q) ∨ ∃ a, BlockGiven n s s' a) : ¬ MustFail s n := by
  intro hfail
  obtain ⟨hslabs, hblocks⟩ := hfail.resolve_left (Nat.not_lt.mpr hn)
  rcases h with ⟨k, q, hgiven⟩ | ⟨a, hgiven⟩
  · exact hgiven.not_full (hslabs k hgiven.large)
  · have hsmall := hblocks a hgiven.node hgiven.free
    have hlarge := hgiven.large
    omega

/-! ## 2. The sub-allocators -/

/-- **A slab** gives a slot, or is full. -/
theorem slabMallocOf_answers (hb : HeapBase base) (h : HeapInv base s) (k : SlabKind)
    (hn : n ≤ k.slot) : ∃ s' out, slabMallocOf k s = some (s', out) ∧
      ((out ≠ 0 ∧ ∃ q, SlotGiven n s s' k q) ∨ (out = 0 ∧ s' = s ∧ SlabFull s k)) := by
  have hpos := hb.pos
  obtain ⟨s', out, hrun, hcase⟩ := slabMallocOf_cases hb h k
  refine ⟨s', out, hrun, ?_⟩
  rcases hcase with ⟨q, hq, hclear, hset, hout⟩ | hfull
  · exact Or.inl ⟨by omega, q, hn, hq, hclear, hset⟩
  · exact Or.inr hfull

/-- The block cut off is none of those before the cut. -/
theorem cut_not_mem {xs ys : List Nat} {a b : Nat} (h : (xs ++ a :: b :: ys).Nodup) :
    b ∉ xs ++ a :: ys := by
  rw [List.append_cons, List.nodup_middle, ← List.append_cons] at h
  exact (List.nodup_cons.mp h).1

/-- A block of the list that is taken is given. -/
theorem blockGiven_of_take {as : List Nat} (hb : HeapBase base) (h : HeapInv base s)
    (hl : BlockList s.blocks base (base + 118784) as) {a : Nat} (ha : a ∈ as)
    (hfree : (s.blocks a).allocated = false) (hfit : 64 + n ≤ (s.blocks a).size)
    (hs' : s' = { s with blocks := takeBlock s.blocks a n }) : BlockGiven n s s' a := by
  have hle := hb.le
  simp only [pageBlockSize, pageSize] at hle
  have hheap : s'.heap = base := by
    rw [hs']
    exact h.heap
  have hblocks : takeBlock s.blocks a n = s'.blocks := by rw [hs']
  have hframe : s' = { s with blocks := s'.blocks } := by rw [← hblocks, hs']
  have hnode : ∀ {b}, s.Node b ↔ b ∈ as := node_iff h.heap hl
  have hlarge : n + sizeofHeapBlock ≤ (s.blocks a).size := by
    simp only [sizeofHeapBlock, heapBlockAlign]
    omega
  rcases takeBlock_cases hl (by omega) ha hfit with ⟨hwhole, ht⟩ |
    ⟨xs, ys, k, left, rfl, hpos, hsum, hcut, ht⟩
  · rw [hblocks] at hwhole ht
    refine ⟨hnode.mpr ha, hfree, hlarge, hframe, fun b hb => ht.others b (hnode.mp hb),
      Or.inl ⟨fun b => ?_, by rw [hwhole, Function.update_self]⟩⟩
    rw [hnode, node_iff hheap ht.list]
  · rw [hblocks] at hcut ht
    have hnew : a + k ∉ xs ++ a :: ys := cut_not_mem ht.list.tiles.nodup
    have hk : 0 < k := by
      have hsize := ht.here.2
      rw [hcut, Function.update_self] at hsize
      dsimp only at hsize
      omega
    refine ⟨hnode.mpr ha, hfree, hlarge, hframe, fun b hb => ht.others b (hnode.mp hb),
      Or.inr ⟨a + k, fun hn => hnew (hnode.mp hn), fun c => ?_, left, ?_, ?_, by omega, hpos,
        by omega⟩⟩
    · rw [hnode, node_iff hheap ht.list]
      exact mem_cut
    · rw [hcut, Function.update_self, Nat.add_sub_cancel_left]
    · rw [hcut, Function.update_of_ne (by omega : a + k ≠ a), Function.update_self]

/-- **The block list** gives a block, or none is large enough. -/
theorem blockMalloc_answers (hb : HeapBase base) (h : HeapInv base s) (n : Nat) :
    ∃ s' out, blockMalloc s n = some (s', out) ∧ Answered n [] s s' out := by
  obtain ⟨s', out, hrun, as, hl, hcase⟩ := blockMalloc_cases hb h n
  refine ⟨s', out, hrun, ?_⟩
  rcases hcase with ⟨a, ha, hfree, hfit, hs', hout⟩ | ⟨hout, hs', hnone⟩
  · exact Or.inl ⟨by omega, Or.inr ⟨a, blockGiven_of_take hb h hl ha hfree hfit hs'⟩⟩
  · refine Or.inr ⟨hout, hs', fun k hk => absurd hk List.not_mem_nil, fun a ha hfree => ?_⟩
    have hsmall := hnone a ((node_iff h.heap hl).mp ha) hfree
    simp only [sizeofHeapBlock, heapBlockAlign]
    omega

/-! ## 3. malloc -/

/-- **A slab tried first**: its null answer leaves the state to the rest. -/
theorem tryFirst_answers (hb : HeapBase base) (h : HeapInv base s) (k : SlabKind)
    {tried : List SlabKind} {rest : HeapAllocator → Option (HeapAllocator × Nat)}
    (hrest : ∃ s' out, rest s = some (s', out) ∧ Answered n tried s s' out) :
    ∃ s' out, tryFirst (n ≤ k.slot) (slabMallocOf k) rest s = some (s', out) ∧
      Answered n (k :: tried) s s' out := by
  -- what the rest answers when the slab is full or too small
  have hfall : (n ≤ k.slot → SlabFull s k) → ∃ s' out, rest s = some (s', out) ∧
      Answered n (k :: tried) s s' out := by
    intro hfull
    obtain ⟨s', out, hrun, hans⟩ := hrest
    refine ⟨s', out, hrun, ?_⟩
    rcases hans with hgiven | ⟨hout, hs', htried, hblocks⟩
    · exact Or.inl hgiven
    · refine Or.inr ⟨hout, hs', fun j hj => ?_, hblocks⟩
      rcases List.mem_cons.mp hj with rfl | hj
      · exact hfull
      · exact htried j hj
  unfold tryFirst
  by_cases hn : n ≤ k.slot
  · rw [if_pos hn]
    obtain ⟨s', out, hrun, hcase⟩ := slabMallocOf_answers hb h k hn
    rw [hrun]
    dsimp only
    rcases hcase with ⟨hout, q, hgiven⟩ | ⟨rfl, rfl, hfull⟩
    · rw [if_pos hout]
      exact ⟨s', out, rfl, Or.inl ⟨hout, Or.inl ⟨k, q, hgiven⟩⟩⟩
    · rw [if_neg (not_not.mpr rfl)]
      exact hfall fun _ => hfull
  · rw [if_neg hn]
    exact hfall fun h' => absurd h' hn

/-- **What `malloc` answers** to a request not larger than the heap. -/
theorem malloc_answers (hb : HeapBase base) (h : HeapInv base s)
    (hn : n ≤ heapPages * pageSize) :
    ∃ s' out, malloc s n = some (s', out) ∧
      Answered n [.slab8, .slab16, .slab32] s s' out := by
  unfold malloc
  rw [if_neg (Nat.not_lt.mpr hn), slab8Malloc_eq, slab16Malloc_eq, slab32Malloc_eq]
  exact tryFirst_answers hb h .slab8 (tryFirst_answers hb h .slab16
    (tryFirst_answers hb h .slab32 (blockMalloc_answers hb h n)))

/-- **Every call**: it fails exactly when it must, and then changes nothing; else it gives one
    slot or one block. -/
theorem malloc_cases (hb : HeapBase base) (h : HeapInv base s) (n : Nat) :
    ∃ s' out, malloc s n = some (s', out) ∧ (out = 0 ↔ MustFail s n) ∧ (out = 0 → s' = s) ∧
      (out ≠ 0 → (∃ k q, SlotGiven n s s' k q) ∨ ∃ a, BlockGiven n s s' a) := by
  by_cases hn : n ≤ heapPages * pageSize
  · obtain ⟨s', out, hrun, hans⟩ := malloc_answers hb h hn
    refine ⟨s', out, hrun, ?_⟩
    rcases hans with ⟨hout, hgiven⟩ | ⟨hout, hs', hfull, hblocks⟩
    · exact ⟨iff_of_false hout (not_mustFail hn hgiven), fun h0 => absurd h0 hout, fun _ => hgiven⟩
    · have hslabs : ∀ k : SlabKind, n ≤ k.slot → SlabFull s k := by
        intro k
        cases k with
        | slab8 => exact hfull .slab8 (by decide)
        | slab16 => exact hfull .slab16 (by decide)
        | slab32 => exact hfull .slab32 (by decide)
      exact ⟨iff_of_true hout (Or.inr ⟨hslabs, hblocks⟩), fun _ => hs', fun h0 => absurd hout h0⟩
  · have hlarge : heapPages * pageSize < n := Nat.lt_of_not_le hn
    have hrun : malloc s n = some (s, 0) := if_pos hlarge
    exact ⟨s, 0, hrun, iff_of_true rfl (Or.inl hlarge), fun _ => rfl, fun h0 => absurd rfl h0⟩

/-- **`malloc` fails only when it must, and then changes nothing**: in every state a run of calls
    reaches from the one `init_heap_pages` leaves, and for every size, null is returned exactly
    when the size is more than the heap, or every slab that could serve is full and no free block
    is large enough; on null the state is unchanged, and otherwise one slab bit is set or one block
    becomes allocated, whole or cut in two. -/
theorem malloc_fails_iff (base : Nat) (hb : HeapBase base) (s : HeapAllocator) (hs : Fresh base s)
    (ns : List Nat) (t : HeapAllocator) (rs : List Region) (hrun : mallocRun s ns = some (t, rs))
    (n : Nat) :
    ∃ t' out, malloc t n = some (t', out) ∧ (out = 0 ↔ MustFail t n) ∧ (out = 0 → t' = t) ∧
      (out ≠ 0 → (∃ k q, SlotGiven n t t' k q) ∨ ∃ a, BlockGiven n t t' a) :=
  malloc_cases hb (mallocRun_inv hb (hs.inv hb) hrun) n

/-- Four calls that take two blocks and two slots. -/
def splitCalls : List Nat := [128, 8, 16, 100000]

/-- **The heap after these calls**: the first block is cut twice, and 18496 bytes are left in the
    third. -/
theorem mallocRun_split : ∃ t rs, mallocRun (freshHeap 0xc0800000) splitCalls = some (t, rs) ∧
    rs.map Region.addr = [0xc0800040, 0xc0ba0000, 0xc0bc0000, 0xc0800100] ∧
    t.blocks 0xc0800000 = ⟨0xc08000c0, 192, true⟩ ∧
    t.blocks 0xc08000c0 = ⟨0xc08187c0, 100096, true⟩ ∧
    t.blocks 0xc08187c0 = ⟨0, 18496, false⟩ ∧
    (malloc t 18433).map Prod.snd = some 0 ∧ (malloc t 18432).map Prod.snd = some 0xc0818800 ∧
    (mallocRun t [40, 300000, 8]).map (fun r => r.2.map Region.addr) =
      some [0xc0818800, 0, 0xc0ba0008] := by
  have hblocks : (mallocRun (freshHeap 0xc0800000) splitCalls).map (fun r =>
      (r.2.map Region.addr, r.1.blocks 0xc0800000, r.1.blocks 0xc08000c0, r.1.blocks 0xc08187c0)) =
      some ([0xc0800040, 0xc0ba0000, 0xc0bc0000, 0xc0800100], ⟨0xc08000c0, 192, true⟩,
        ⟨0xc08187c0, 100096, true⟩, ⟨0, 18496, false⟩) := by decide +kernel
  have hcalls : (mallocRun (freshHeap 0xc0800000) splitCalls).map (fun r =>
      ((malloc r.1 18433).map Prod.snd, (malloc r.1 18432).map Prod.snd,
        (mallocRun r.1 [40, 300000, 8]).map fun r => r.2.map Region.addr)) =
      some (some 0, some 0xc0818800, some [0xc0818800, 0, 0xc0ba0008]) := by decide +kernel
  obtain ⟨⟨t, rs⟩, hrun, hresult⟩ := Option.map_eq_some_iff.mp hblocks
  rw [hrun, Option.map_some] at hcalls
  simp only [Prod.mk.injEq, Option.some.injEq] at hresult hcalls
  obtain ⟨haddrs, hfirst, hsecond, hthird⟩ := hresult
  exact ⟨t, rs, hrun, haddrs, hfirst, hsecond, hthird, hcalls⟩

/-- The theorem after these calls: 18433 bytes are more than any free block has left, and the state
    stays as it was; 18432 bytes are not, and a block or a slot is given. -/
theorem malloc_fails_iff_boot :
    ∃ t rs, mallocRun (freshHeap 0xc0800000) splitCalls = some (t, rs) ∧
      MustFail t 18433 ∧ malloc t 18433 = some (t, 0) ∧
      ¬ MustFail t 18432 ∧ ∃ t', malloc t 18432 = some (t', 0xc0818800) ∧
        ((∃ k q, SlotGiven 18432 t t' k q) ∨ ∃ a, BlockGiven 18432 t t' a) := by
  have hbase : HeapBase 0xc0800000 := ⟨by decide, by decide, by decide⟩
  obtain ⟨t, rs, hrun, _, _, _, _, hfail, hgive, _⟩ := mallocRun_split
  obtain ⟨t₁, out₁, hrun₁, hiff₁, hsame, _⟩ := malloc_fails_iff 0xc0800000 hbase
    (freshHeap 0xc0800000) (fresh_freshHeap 0xc0800000) splitCalls t rs hrun 18433
  obtain ⟨t₂, out₂, hrun₂, hiff₂, _, hgiven⟩ := malloc_fails_iff 0xc0800000 hbase
    (freshHeap 0xc0800000) (fresh_freshHeap 0xc0800000) splitCalls t rs hrun 18432
  rw [hrun₁] at hfail
  rw [hrun₂] at hgive
  obtain rfl : out₁ = 0 := Option.some.inj hfail
  obtain rfl : out₂ = 0xc0818800 := Option.some.inj hgive
  rw [hsame rfl] at hrun₁
  exact ⟨t, rs, hrun, hiff₁.mp rfl, hrun₁, fun h => absurd (hiff₂.mpr h) (by decide), t₂, hrun₂,
    hgiven (by decide)⟩

end OsPlayground.Heap
