/-
  File:      OsPlayground/Heap/Lists.lean
  Subject:   THE BLOCK LIST OVER A WHOLE RUN of `malloc` calls.

  * `ListShape` -- what a well-formed list is: the pointers from `heap` visit finitely many blocks
    at rising addresses, each pointing to where it ends, their sizes add up to the first block's;
  * `HeapInv.shape` -- the tiling of the heap invariant gives all of it;
  * `Keeps`, `mallocStep_keeps` -- an allocated block keeps its header whole: in the source a split
    rewrites the block it allocates and writes a new header behind it, and nothing else;
  * `blockStep_ends` -- the traversal of `block_malloc` ends;
  * `mallocRun_list` -- all of it in every state a run reaches, over every run that follows.
-/
import OsPlayground.Heap.Calls

namespace OsPlayground.Heap

open Linked

/-! ## 1. The shape of the list -/

/-- **The list is well formed**: `as` are the blocks visited from `heap` along `next`, to null. -/
structure ListShape (s : HeapAllocator) (as : List Nat) : Prop where
  path : Path (fun a => (s.blocks a).next) 0 s.heap as
  increasing : as.Pairwise (· < ·)
  aligned : ∀ a ∈ as, a % heapBlockAlign = 0
  adjacent : ∀ a ∈ as, (s.blocks a).next ≠ 0 → (s.blocks a).next = a + (s.blocks a).size
  total : (as.map fun a => (s.blocks a).size).sum = firstBlockSize
  units : ∀ a ∈ as, 0 < (s.blocks a).size ∧ (s.blocks a).size % heapBlockAlign = 0
  noWrap : ∀ a ∈ as, usub (s.blocks a).size sizeofHeapBlock = (s.blocks a).size - sizeofHeapBlock ∧
    sizeofHeapBlock ≤ (s.blocks a).size

/-- **An allocated block is left alone**: it stays in the list with its header as it was. -/
def Keeps (s t : HeapAllocator) : Prop :=
  ∀ a, s.Node a → (s.blocks a).allocated = true → t.Node a ∧ t.blocks a = s.blocks a

variable {s s' t u : HeapAllocator} {base n : Nat}

/-- **The invariant gives the shape.** -/
theorem HeapInv.shape (hb : HeapBase base) (h : HeapInv base s) : ∃ as, ListShape s as := by
  have hle := hb.le
  simp only [pageBlockSize, pageSize] at hle
  obtain ⟨as, hl⟩ := h.list
  refine ⟨as, by rw [h.heap]; exact hl.path, hl.tiles.increasing, fun a ha => (hl.units a ha).1,
    fun a ha hn => hl.tiles.adjacent hl.path ha hn, ?_, fun a ha => ⟨hl.tiles.pos ha,
      (hl.units a ha).2⟩, fun a ha => ?_⟩
  · have hfirst : firstBlockSize = 118784 := rfl
    have hsum := hl.tiles.sum
    omega
  · have hge := hl.size_ge ha
    have hrange := (hl.range ha).2
    simp only [usub, sizeofHeapBlock, heapBlockAlign]
    omega

/-- **The traversal of `block_malloc` ends**, for any size, after as many passes as there are
    blocks and one more. -/
theorem blockStep_ends {as : List Nat} (h : ListShape s as) (n : Nat) {fuel : Nat}
    (hf : as.length < fuel) : ∃ r, FuelLoop.run (blockStep s.blocks n) fuel s.heap = some r := by
  rcases h.path.walk (blockStep_nil s.blocks n) (fun _ _ => blockStep_next) hf with
    ⟨_, _, _, r, _, _, hrun⟩ | ⟨_, hrun⟩
  · exact ⟨r, hrun⟩
  · exact ⟨_, hrun⟩

/-! ## 2. Allocated blocks -/

theorem Keeps.refl (s : HeapAllocator) : Keeps s s := fun _ ha _ => ⟨ha, rfl⟩

theorem Keeps.trans (h : Keeps s t) (h' : Keeps t u) : Keeps s u := by
  intro a ha halloc
  obtain ⟨hnode, hsame⟩ := h a ha halloc
  obtain ⟨hnode', hsame'⟩ := h' a hnode (by rw [hsame]; exact halloc)
  exact ⟨hnode', hsame'.trans hsame⟩

theorem SlotGiven.keeps {k : SlabKind} {q : Nat} (h : SlotGiven n s s' k q) : Keeps s s' := by
  intro a ha _
  have hblocks : s'.blocks = s.blocks := by rw [h.set, blocks_setBitmap]
  have hheap : s'.heap = s.heap := by rw [h.set, heap_setBitmap]
  refine ⟨?_, by rw [hblocks]⟩
  unfold HeapAllocator.Node at ha ⊢
  rw [hblocks, hheap]
  exact ha

/-- The block given was free, so it is none of those that have to stay. -/
theorem BlockGiven.keeps {a : Nat} (h : BlockGiven n s s' a) : Keeps s s' := by
  intro b hb halloc
  have hba : b ≠ a := by
    intro he
    rw [he, h.free] at halloc
    cases halloc
  refine ⟨?_, h.others b hb hba⟩
  rcases h.here with hwhole | ⟨c, hcut⟩
  · exact (hwhole.1 b).mpr hb
  · exact (hcut.2.1 b).mpr (Or.inl hb)

/-- **One call** leaves the allocated blocks alone. -/
theorem mallocStep_keeps (hb : HeapBase base) (h : HeapInv base s) {r : Region}
    (hstep : mallocStep s n = some (s', r)) : Keeps s s' := by
  obtain ⟨s'', out, hrun, _, hnull, hgiven⟩ := malloc_cases hb h n
  rw [mallocStep, hrun] at hstep
  cases hstep
  by_cases h0 : out = 0
  · rw [hnull h0]
    exact Keeps.refl s
  · rcases hgiven h0 with ⟨k, q, hslot⟩ | ⟨a, hblock⟩
    · exact hslot.keeps
    · exact hblock.keeps

/-- **A run of calls** leaves the allocated blocks alone. -/
theorem mallocRun_keeps (hb : HeapBase base) (h : HeapInv base s) {ns : List Nat}
    {rs : List Region} (hrun : mallocRun s ns = some (t, rs)) : Keeps s t := by
  have hboth : HeapInv base t ∧ Keeps s t := by
    refine Exec.run_inv (fun u => HeapInv base u ∧ Keeps s u) (fun u m u' r hI hstep => ?_)
      ⟨h, Keeps.refl s⟩ hrun
    exact ⟨(serves_of_step hb hI.1 hstep).2.inv, hI.2.trans (mallocStep_keeps hb hI.1 hstep)⟩
  exact hboth.2

/-! ## 3. Every state of a run -/

/-- **The block list stays well formed.** In every state a run of calls reaches from the one
    `init_heap_pages` leaves, the blocks from `heap` on are finitely many, at rising addresses in
    units of 64 bytes, each pointing to where it ends; their sizes are positive multiples of 64 that
    add up to the first block's, so that the test of `block_malloc` never wraps and its traversal
    ends; and whatever calls follow, an allocated block keeps its address, size and flag. -/
theorem mallocRun_list (base : Nat) (hb : HeapBase base) (s : HeapAllocator) (hs : Fresh base s)
    (ns : List Nat) (t : HeapAllocator) (rs : List Region) (hrun : mallocRun s ns = some (t, rs)) :
    (∃ as, ListShape t as ∧ ∀ n fuel, as.length < fuel →
      ∃ r, FuelLoop.run (blockStep t.blocks n) fuel t.heap = some r) ∧
      ∀ ns' u rs', mallocRun t ns' = some (u, rs') → Keeps t u := by
  have hinv := mallocRun_inv hb (hs.inv hb) hrun
  obtain ⟨as, hshape⟩ := hinv.shape hb
  exact ⟨⟨as, hshape, fun n fuel hf => blockStep_ends hshape n hf⟩,
    fun ns' u rs' hrun' => mallocRun_keeps hb hinv hrun'⟩

/-- The theorem after those four calls, with three more to come, one of which fails: the list is well
    formed, and the first block, allocated and cut, stays as it was. -/
theorem mallocRun_list_boot :
    ∃ t rs u rs', mallocRun (freshHeap 0xc0800000) splitCalls = some (t, rs) ∧
      mallocRun t [40, 300000, 8] = some (u, rs') ∧
      rs'.map Region.addr = [0xc0818800, 0, 0xc0ba0008] ∧
      t.blocks 0xc0800000 = ⟨0xc08000c0, 192, true⟩ ∧ u.blocks 0xc0800000 = ⟨0xc08000c0, 192, true⟩ ∧
      ∃ as, ListShape t as ∧ 0xc08000c0 ∈ as ∧
        ∀ n fuel, as.length < fuel →
          ∃ r, FuelLoop.run (blockStep t.blocks n) fuel t.heap = some r := by
  have hbase : HeapBase 0xc0800000 := ⟨by decide, by decide, by decide⟩
  obtain ⟨t, rs, hrun, _, hfirst, hsecond, _, _, _, hlater⟩ := mallocRun_split
  obtain ⟨⟨u, rs'⟩, hrun', haddrs⟩ := Option.map_eq_some_iff.mp hlater
  obtain ⟨⟨as, hshape, hends⟩, hkeeps⟩ := mallocRun_list 0xc0800000 hbase (freshHeap 0xc0800000)
    (fresh_freshHeap 0xc0800000) splitCalls t rs hrun
  have hheap : t.heap = 0xc0800000 := (mallocRun_inv hbase
    ((fresh_freshHeap 0xc0800000).inv hbase) hrun).heap
  have hstart : 0xc0800000 ∈ as := by
    have h1 := hshape.path.start
    rw [hheap] at h1
    exact h1.resolve_left (by decide)
  have hnext : 0xc08000c0 ∈ as := by
    have h1 := hshape.path.next_mem hstart
    rw [hfirst] at h1
    exact h1.resolve_left (by decide)
  have hkept := (hkeeps _ u rs' hrun' 0xc0800000 ⟨as, hshape.path, hstart⟩ (by rw [hfirst])).2
  rw [hfirst] at hkept
  exact ⟨t, rs, u, rs', hrun, hrun', haddrs, hfirst, hkept, as, hshape, hnext, hends⟩

end OsPlayground.Heap
