/-
  File:      OsPlayground/Heap/Mapping.lean
  Subject:   THE HEAP MAPPING: `init_heap_pages` over the three memory managers.

  The loops keep `MapInv`, which joins what the physical allocator handed out (`ChunksInv`) to
  what the page tables map (`HeapPages`) and to the saved addresses (`SlabsInv`). One lemma for a
  page, one for a chunk, one for the whole. The header is then written through the new mapping:
  where the bitmap has the page tables taken it changes no translation; where it has not, chunk 0
  can be a table in use.

  * `mapHeap_spec` -- the loops;
  * **`initHeapPages_maps`**, `initHeapPages_fresh` -- the heap is mapped, and is a fresh heap;
  * `initHeapPages_hits_table` -- a bitmap with a table's frame free.
-/
import OsPlayground.Heap.Chunks
import OsPlayground.PhysMem.Intake
import OsPlayground.VirtMem.Stable

namespace OsPlayground.Heap

open Paging Halting VirtMem PhysMem

theorem chunkOffset_eq (i : Nat) : chunkOffset i = 131072 * i := by
  simp only [chunkOffset, chunkPages, pageSize]
  omega

/-- An operation of the machine leaves the rest of the state. -/
theorem post_onVm {α : Type} {op : Vm → Answer α} {s : Managers} {P : Vm → α → Prop}
    (h : Post P (op s.vm)) : Post (fun s' a => ∃ vm, s' = { s with vm := vm } ∧ P vm a)
      (onVm op s) := by
  obtain ⟨vm, a, hrun, hP⟩ := h
  unfold onVm
  rw [hrun]
  exact .intro ⟨vm, rfl, hP⟩

/-! ## 1. The pages -/

variable (I : KernelImage)

/-- **The first `n` pages of the heap are mapped**, and nothing else from `_kernel_start` on has
    changed since memory `m₁`. -/
structure HeapPages (m₁ : Ram) (base : Nat) (chunks : Nat → Nat) (n : Nat) (vm : Vm) : Prop where
  booted : Booted I vm
  mapped : ∀ k < n,
    walk vm.ram I.pageDir (base + 4096 * k) = some (chunks (k / 32) + 4096 * (k % 32))
  left : Extends I m₁ vm.ram (InBlock base)

variable {I} {m₁ : Ram} {base n : Nat} {chunks : Nat → Nat} {vm : Vm}

/-- **One page.** -/
theorem HeapPages.map (hI : HeapPages I m₁ base chunks n vm) (hb : Block I m₁ base) (hn : n < 1024)
    (hal : chunks (n / 32) % 4096 = 0) :
    Post (fun vm' q => q = base + 4096 * n ∧ HeapPages I m₁ base chunks (n + 1) vm')
      (mapPage (base + 4096 * n) (chunks (n / 32) + 4096 * (n % 32)) vm) := by
  have hblock := hI.left.block hb
  have hbase := hblock.aligned
  have habove := hblock.above
  have hlt := hblock.lt
  have hsize : pageBlockSize = 4194304 := by decide
  have hs := hI.booted.shape
  have hslot : (base + 4096 * n) / 4194304 = base / 4194304 := by omega
  have hne : I.dirAt vm.ram ((base + 4096 * n) / 4194304) ≠ 0 := by
    rw [hslot]
    exact hblock.slot
  refine (mapPage_explicit hI.booted (v := base + 4096 * n) (by omega) (by omega) (by omega)
    (by omega) hne).imp fun vm' q hpost => ?_
  obtain ⟨hb', hq, hram⟩ := hpost
  have hext : Extends I vm.ram vm'.ram (· = base + 4096 * n) := by
    rw [hram]
    exact extends_write hs (by omega) (by omega)
  refine ⟨hq, hb', fun k hk => ?_, hI.left.trans (hext.mono fun v hv => ?_)⟩
  · rcases Nat.lt_succ_iff_lt_or_eq.mp hk with hlt' | rfl
    · have hstart : kernelStart = 0xc0100000 := rfl
      have hpos := I.blocks_pos
      rw [hext.walk _ (by omega) (by omega) (by omega) (by omega)]
      exact hI.mapped k hlt'
    · rw [hram]
      exact walk_write_page hs (by omega) (by omega) hne (by omega)
  · unfold InBlock
    omega

/-- Pages mapped stay mapped to their chunks when a later chunk is saved. -/
theorem HeapPages.update {c out : Nat} (hI : HeapPages I m₁ base chunks (32 * c) vm) :
    HeapPages I m₁ base (Function.update chunks c out) (32 * c) vm := by
  refine ⟨hI.booted, fun k hk => ?_, hI.left⟩
  rw [Function.update_of_ne (by omega)]
  exact hI.mapped k hk

/-! ## 2. The addresses of the suballocators -/

/-- The addresses saved once `n` pages are mapped. -/
structure SlabsInv (base n : Nat) (s : Managers) : Prop where
  slab8 : 928 < n → s.slab8 = base + chunkOffset 29
  slab16 : 960 < n → s.slab16 = base + chunkOffset 30
  slab32 : 992 < n → s.slab32 = base + chunkOffset 31

/-- The state after page `j` of chunk `i`, which may save an address. -/
def saved (i j virtPage : Nat) (s : Managers) : Managers :=
  if j = 0 then saveSlab i virtPage s else s

/-- Only the three addresses are saved. -/
theorem saved_eq (i j virtPage : Nat) (s : Managers) : ∃ a b c,
    saved i j virtPage s = { s with slab8 := a, slab16 := b, slab32 := c } := by
  unfold saved saveSlab
  split
  · split
    · exact ⟨_, _, _, rfl⟩
    · split
      · exact ⟨_, _, _, rfl⟩
      · split
        · exact ⟨_, _, _, rfl⟩
        · exact ⟨_, _, _, rfl⟩
  · exact ⟨_, _, _, rfl⟩

/-- **The first page of each of the last three chunks** is saved. -/
theorem SlabsInv.saved {s : Managers} {i j : Nat} (h : SlabsInv base (32 * i + j) s) (hi : i < 32)
    (hj : j < 32) : SlabsInv base (32 * i + j + 1) (saved i j (base + 4096 * (32 * i + j)) s) := by
  have h8 := h.slab8
  have h16 := h.slab16
  have h32 := h.slab32
  have hn : nChunks = 32 := by decide
  rw [chunkOffset_eq] at h8 h16 h32
  unfold Heap.saved saveSlab
  rw [hn]
  by_cases hj0 : j = 0
  · subst hj0
    rw [if_pos rfl]
    by_cases h1 : i = 32 - 3
    · rw [if_pos h1]
      refine ⟨fun _ => ?_, fun hn => h16 (by omega), fun hn => h32 (by omega)⟩
      show base + 4096 * (32 * i + 0) = base + chunkOffset 29
      rw [chunkOffset_eq]
      omega
    · rw [if_neg h1]
      by_cases h2 : i = 32 - 2
      · rw [if_pos h2]
        refine ⟨fun hn => h8 (by omega), fun _ => ?_, fun hn => h32 (by omega)⟩
        show base + 4096 * (32 * i + 0) = base + chunkOffset 30
        rw [chunkOffset_eq]
        omega
      · rw [if_neg h2]
        by_cases h3 : i = 32 - 1
        · rw [if_pos h3]
          refine ⟨fun hn => h8 (by omega), fun hn => h16 (by omega), fun _ => ?_⟩
          show base + 4096 * (32 * i + 0) = base + chunkOffset 31
          rw [chunkOffset_eq]
          omega
        · rw [if_neg h3]
          exact ⟨fun hn => h8 (by omega), fun hn => h16 (by omega), fun hn => h32 (by omega)⟩
  · rw [if_neg hj0]
    exact ⟨fun hn => h8 (by omega), fun hn => h16 (by omega), fun hn => h32 (by omega)⟩

/-! ## 3. The loops -/

variable (I) in
/-- **The invariant of the loops**, after `c` chunks and `n` pages. -/
structure MapInv (u₀ : PhysMemAllocator) (m₁ : Ram) (base c n : Nat) (s : Managers) : Prop where
  heap : s.heap = base
  chunks : ChunksInv u₀ s.phys s.physHeapChunks c
  pages : HeapPages I m₁ base s.physHeapChunks n s.vm
  slabs : SlabsInv base n s

variable {u₀ : PhysMemAllocator}

/-- **One pass of the inner loop.** -/
theorem mapHeapPage_spec {i j : Nat} {s : Managers} (hb : Block I m₁ base) (hi : i < 32)
    (hj : j < 32) (hI : MapInv I u₀ m₁ base (i + 1) (32 * i + j) s) :
    Post (fun s' _ => MapInv I u₀ m₁ base (i + 1) (32 * i + (j + 1)) s') (mapHeapPage i j s) := by
  have hchunk := hI.chunks.chunk i (by omega)
  have hal := hchunk.aligned
  have hend := hchunk.lt
  have hbase := hb.aligned
  have habove := hb.above
  have hlt := hb.lt
  have hdiv : (32 * i + j) / 32 = i := by omega
  have hmod : (32 * i + j) % 32 = j := by omega
  have hheap : (s.physHeapChunks i + j * pageSize) % 0x100000000 =
      s.physHeapChunks ((32 * i + j) / 32) + 4096 * ((32 * i + j) % 32) := by
    have hsize : pageSize = 4096 := rfl
    rw [hdiv, hmod, hsize]
    omega
  have hvirt : (s.heap + (chunkPages * i + j) * pageSize) % 0x100000000 =
      base + 4096 * (32 * i + j) := by
    have hsize : pageSize = 4096 := rfl
    have hpages : chunkPages = 32 := rfl
    rw [hI.heap, hsize, hpages]
    omega
  have hpage := hI.pages.map hb (by omega) (by rw [hdiv]; omega)
  unfold mapHeapPage
  dsimp only
  rw [hheap, hvirt]
  refine (post_onVm hpage).andThen fun s₁ q hpost => ?_
  obtain ⟨vm, rfl, rfl, hpages⟩ := hpost
  rw [check_of (by omega), andThen_some]
  obtain ⟨a, b, c, hsaved⟩ := saved_eq i j (base + 4096 * (32 * i + j)) { s with vm := vm }
  have hslabs : SlabsInv base (32 * i + j + 1)
      (saved i j (base + 4096 * (32 * i + j)) { s with vm := vm }) :=
    SlabsInv.saved ⟨hI.slabs.slab8, hI.slabs.slab16, hI.slabs.slab32⟩ hi hj
  refine .intro ?_
  show MapInv I u₀ m₁ base (i + 1) (32 * i + j + 1)
    (saved i j (base + 4096 * (32 * i + j)) { s with vm := vm })
  rw [hsaved] at hslabs ⊢
  exact ⟨hI.heap, hI.chunks, hpages, hslabs⟩

/-- **One pass of the outer loop.** -/
theorem mapChunk_spec {i : Nat} {s : Managers} (hb : Block I m₁ base) (hi : i < 32)
    (hI : MapInv I u₀ m₁ base i (32 * i) s) :
    Post (fun s' _ => MapInv I u₀ m₁ base (i + 1) (32 * (i + 1)) s') (mapChunk i s) := by
  obtain ⟨u', out, hrun, hchunks⟩ := hI.chunks.alloc hi
  have hne : Function.update s.physHeapChunks i out i ≠ 0 := (hchunks.chunk i (by omega)).ne
  have hpages : chunkPages = 32 := rfl
  unfold mapChunk
  rw [check_of hpages, andThen_some]
  unfold allocChunk
  rw [hrun]
  dsimp only
  rw [andThen_some]
  dsimp only
  rw [check_of hne, andThen_some]
  have hloop : Post (fun s' _ => MapInv I u₀ m₁ base (i + 1) (32 * i + chunkPages) s')
      (upTo (mapHeapPage i) chunkPages
        { s with phys := u', physHeapChunks := Function.update s.physHeapChunks i out }) :=
    Post.upTo (fun j s => MapInv I u₀ m₁ base (i + 1) (32 * i + j) s)
      ⟨hI.heap, hchunks, hI.pages.update, ⟨hI.slabs.slab8, hI.slabs.slab16, hI.slabs.slab32⟩⟩
      fun j hj s' hI' => mapHeapPage_spec hb hi hj hI'
  exact hloop

/-- **The loops**: the block that `reserve_block` returns is mapped, page by page. -/
theorem mapHeap_spec {s : Managers} (hbooted : Booted I s.vm)
    (hclear : ∃ k, 769 ≤ k ∧ k < 1024 ∧ I.dirAt s.vm.ram k = 0) (hhint : HintOk s.phys)
    (hfree : 33 ≤ (freeBlocks s.phys).card) :
    ∃ vm base, reserveBlock s.vm = (vm, some base) ∧ Block I vm.ram base ∧
      Extends I s.vm.ram vm.ram (InBlock base) ∧
      Post (fun s' _ => MapInv I s.phys vm.ram base 32 1024 s') (mapHeap s) := by
  obtain ⟨vm, base, hrun, hbooted', hreserves⟩ := reserveBlock_spec hbooted
  have hne : base ≠ 0 := by
    intro h0
    rcases hreserves with h1 | h1
    · obtain ⟨k, hk, hk', hc⟩ := hclear
      exact h1.2.2 k hk hk' hc
    · obtain ⟨k, hbase, hk, _⟩ := h1
      omega
  have hblock := (hreserves.block hbooted.shape hne).1
  refine ⟨vm, base, hrun, hblock, extends_reserves hbooted.shape hreserves, ?_⟩
  have hpages : heapPages % 32 = 0 := rfl
  unfold mapHeap onVm
  rw [hrun]
  dsimp only
  rw [andThen_some, check_of hpages, andThen_some]
  have hloop : Post (fun s' _ => MapInv I s.phys vm.ram base nChunks (32 * nChunks) s')
      (upTo mapChunk nChunks { s with vm := vm, heap := base }) :=
    Post.upTo (fun i s' => MapInv I s.phys vm.ram base i (32 * i) s')
      ⟨rfl, ChunksInv.zero hhint hfree,
        ⟨hbooted', fun k hk => absurd hk (by omega), Extends.refl⟩,
        ⟨fun h => absurd h (by omega), fun h => absurd h (by omega), fun h => absurd h (by omega)⟩⟩
      fun i hi s' hI => mapChunk_spec hblock hi hI
  exact hloop

/-! ## 4. The header -/

/-- The memory after the header is written at physical address `a`. -/
def headed (m : Ram) (a : Nat) : Ram :=
  let m₁ := Function.update (Function.update m a 0) (a + 4) firstBlockSize
  Function.update m₁ (a + 8) (m₁ (a + 8) - m₁ (a + 8) % 256 + 0)

theorem headed_next (m : Ram) (a : Nat) : headed m a a = 0 := by
  unfold headed
  rw [Function.update_of_ne (by omega), Function.update_of_ne (by omega), Function.update_self]

theorem headed_size (m : Ram) (a : Nat) : headed m a (a + 4) = firstBlockSize := by
  unfold headed
  rw [Function.update_of_ne (by omega), Function.update_self]

theorem headed_allocated (m : Ram) (a : Nat) : headed m a (a + 8) % 256 = 0 := by
  unfold headed
  rw [Function.update_self]
  omega

theorem storeByte_of_walk {va pa b : Nat} (h : walk vm.ram vm.cr3 va = some pa) :
    storeByte va b vm =
      (vm.withRam (Function.update vm.ram pa (vm.ram pa - vm.ram pa % 256 + b)), some ()) := by
  unfold storeByte
  rw [loadWord_of_walk h, andThen_some, storeWord_of_walk h]

/-- **The header is written** where the heap's first page is mapped, each word through the
    translation the words before it left. -/
theorem writeHeader_eq {s : Managers} {a : Nat} (h0 : walk s.vm.ram s.vm.cr3 s.heap = some a)
    (h1 : walk (Function.update s.vm.ram a 0) s.vm.cr3 (s.heap + 4) = some (a + 4))
    (h2 : walk (Function.update (Function.update s.vm.ram a 0) (a + 4) firstBlockSize) s.vm.cr3
      (s.heap + 8) = some (a + 8)) :
    writeHeader s = ({ s with vm := s.vm.withRam (headed s.vm.ram a) }, some ()) := by
  have hnext : storeWord s.heap 0 s.vm = (s.vm.withRam (Function.update s.vm.ram a 0), some ()) :=
    storeWord_of_walk h0
  have hsize : storeWord (s.heap + 4) firstBlockSize (s.vm.withRam (Function.update s.vm.ram a 0)) =
      (s.vm.withRam (Function.update (Function.update s.vm.ram a 0) (a + 4) firstBlockSize),
        some ()) := storeWord_of_walk h1
  have hallocated : storeByte (s.heap + 8) 0 (s.vm.withRam
      (Function.update (Function.update s.vm.ram a 0) (a + 4) firstBlockSize)) =
        (s.vm.withRam (headed s.vm.ram a), some ()) := storeByte_of_walk h2
  unfold writeHeader onVm
  rw [hnext]
  dsimp only
  rw [andThen_some]
  dsimp only
  rw [hsize]
  dsimp only
  rw [andThen_some]
  dsimp only
  rw [hallocated]

variable (I) in
/-- The frames of the directory and of the tables are taken. -/
def TablesTaken (u : PhysMemAllocator) : Prop :=
  ∀ p, I.pageDir ≤ 4096 * p → 4096 * p < I.pageDir + 4096 + 4096 * 1024 → frameBit u p = true

/-- A chunk is no table where these are taken. -/
theorem Chunk.outside {u u' : PhysMemAllocator} {a d : Nat} (h : Chunk u u' a)
    (ht : TablesTaken I u) (hd : d < 4096) : I.Outside (a + d) := by
  have hal := h.aligned
  have haligned := I.aligned
  unfold KernelImage.Outside
  by_contra hin
  have hfree := h.free (a / 4096) (Nat.le_refl _) (by omega)
  rw [ht (a / 4096) (by omega) (by omega)] at hfree
  cases hfree

/-- A word written outside the directory and the tables keeps the pages. -/
theorem HeapPages.outside (hI : HeapPages I m₁ base chunks n vm) (hend : base + 4096 * n ≤ 0x100000000)
    {a w : Nat} (ha : I.Outside a) :
    HeapPages I m₁ base chunks n (vm.withRam (Function.update vm.ram a w)) := by
  have hs := hI.booted.shape
  refine ⟨hI.booted.withRam (hs.outside ha), fun k hk => ?_, hI.left.trans ⟨?_, ?_⟩⟩
  · rw [Vm.withRam_ram, hs.walk_outside ha (by omega)]
    exact hI.mapped k hk
  · exact fun v _ _ hlt _ => hs.walk_outside ha hlt
  · exact fun k hk _ => I.dirAt_outside _ hk ha

/-- The heap's first page leads to chunk 0. -/
theorem MapInv.walk_heap {s : Managers} {c : Nat} (hI : MapInv I u₀ m₁ base c 1024 s)
    (hal : base % 4096 = 0) {d : Nat} (hd : d < 4096) :
    walk s.vm.ram s.vm.cr3 (s.heap + d) = some (s.physHeapChunks 0 + d) := by
  have hfirst : walk s.vm.ram I.pageDir base = some (s.physHeapChunks 0) :=
    hI.pages.mapped 0 (by omega)
  rw [hI.heap, hI.pages.booted.cr3]
  exact walk_page hal hd hfirst

/-- The machine changed, and its pages kept. -/
theorem MapInv.withVm {s : Managers} {c : Nat} {vm' : Vm} (hI : MapInv I u₀ m₁ base c n s)
    (hp : HeapPages I m₁ base s.physHeapChunks n vm') :
    MapInv I u₀ m₁ base c n { s with vm := vm' } :=
  ⟨hI.heap, hI.chunks, hp, ⟨hI.slabs.slab8, hI.slabs.slab16, hI.slabs.slab32⟩⟩

/-- **The header changes no translation** where the tables are taken. -/
theorem writeHeader_spec {s : Managers} (hb : Block I m₁ base) (ht : TablesTaken I u₀)
    (hI : MapInv I u₀ m₁ base 32 1024 s) :
    Post (fun s' _ => MapInv I u₀ m₁ base 32 1024 s' ∧
        ∃ m, s'.vm.ram = headed m (s'.physHeapChunks 0)) (writeHeader s) := by
  have hal := hb.aligned
  have hlt := hb.lt
  have hend : base + 4096 * 1024 ≤ 0x100000000 := by omega
  have hchunk := hI.chunks.chunk 0 (by omega)
  have ho0 : I.Outside (s.physHeapChunks 0) := hchunk.outside ht (show 0 < 4096 by omega)
  have ho4 : I.Outside (s.physHeapChunks 0 + 4) := hchunk.outside ht (by omega)
  have ho8 : I.Outside (s.physHeapChunks 0 + 8) := hchunk.outside ht (by omega)
  have hI1 := hI.withVm (hI.pages.outside hend ho0 (w := 0))
  have hI2 := hI.withVm (hI1.pages.outside hend ho4 (w := firstBlockSize))
  have hI3 : MapInv I u₀ m₁ base 32 1024
      { s with vm := s.vm.withRam (headed s.vm.ram (s.physHeapChunks 0)) } :=
    hI.withVm (hI2.pages.outside hend ho8)
  have h0 : walk s.vm.ram s.vm.cr3 s.heap = some (s.physHeapChunks 0) :=
    hI.walk_heap (by omega) (show 0 < 4096 by omega)
  rw [writeHeader_eq h0 (hI1.walk_heap (by omega) (by omega)) (hI2.walk_heap (by omega) (by omega))]
  exact .intro ⟨hI3, s.vm.ram, rfl⟩

/-! ## 5. The heap mapped -/

/-- **The heap is mapped** from state `s` to `s'`: the pages of the block that `reserve_block`
    returned are translated chunk by chunk, to distinct frames that were free; the slabs are in
    the last three chunks; the other pages from `_kernel_start` on are translated as before. -/
structure HeapMapped (s s' : Managers) : Prop where
  reserved : ∃ vm, reserveBlock s.vm = (vm, some s'.heap)
  base : HeapBase s'.heap
  mapped : ∀ i < nChunks, ∀ j < chunkPages,
    s'.translate (s'.heap + (chunkPages * i + j) * pageSize) =
      some (s'.physHeapChunks i + j * pageSize)
  distinct : ∀ k < heapPages, ∀ k' < heapPages,
    s'.translate (s'.heap + k * pageSize) = s'.translate (s'.heap + k' * pageSize) → k = k'
  free : ∀ k < heapPages, ∃ p < numPages,
    s'.translate (s'.heap + k * pageSize) = some (p * pageSize) ∧ frameBit s.phys p = false
  slab8 : s'.slab8 = s'.heap + chunkOffset 29
  slab16 : s'.slab16 = s'.heap + chunkOffset 30
  slab32 : s'.slab32 = s'.heap + chunkOffset 31
  others : ∀ v, v % pageSize = 0 → kernelStart ≤ v → v < 0x100000000 → ¬ InBlock s'.heap v →
    s'.translate v = s.translate v

/-- A block of the tables is a block of virtual memory. -/
theorem heapBase_of_block {m : Ram} (h : Block I m base) : HeapBase base := by
  have hsize : pageBlockSize = 4194304 := by decide
  have hal := h.aligned
  have habove := h.above
  have hlt := h.lt
  refine ⟨?_, ?_, ?_⟩
  · rw [hsize]
    exact hal
  · omega
  · rw [hsize]
    omega

/-- Every page of the heap is a place of a chunk. -/
theorem MapInv.translate {s : Managers} (hI : MapInv I u₀ m₁ base 32 1024 s) {k : Nat}
    (hk : k < 1024) : s.translate (s.heap + k * pageSize) =
      some (s.physHeapChunks (k / 32) + 4096 * (k % 32)) := by
  have hsize : k * pageSize = 4096 * k := Nat.mul_comm _ _
  unfold Managers.translate
  rw [hI.heap, hI.pages.booted.cr3, hsize]
  exact hI.pages.mapped k hk

/-- **The invariant at the end of the loops is the mapping of the heap.** -/
theorem MapInv.heapMapped {s s' : Managers} {vm : Vm} (hbooted : Booted I s.vm)
    (hrun : reserveBlock s.vm = (vm, some base)) (hb : Block I vm.ram base)
    (hext : Extends I s.vm.ram vm.ram (InBlock base))
    (hI : MapInv I s.phys vm.ram base 32 1024 s') : HeapMapped s s' := by
  have hheap := hI.heap
  have hpages : heapPages = 1024 := rfl
  have hchunkPages : chunkPages = 32 := rfl
  have hn : nChunks = 32 := by decide
  have hsize : pageSize = 4096 := rfl
  have hnum : numPages = 1048576 := by decide
  refine ⟨⟨vm, by rw [hheap]; exact hrun⟩, ?_, fun i hi j hj => ?_, fun k hk k' hk' heq => ?_,
    fun k hk => ?_, ?_, ?_, ?_, fun v hv hlow hlt hout => ?_⟩
  · rw [hheap]
    exact heapBase_of_block hb
  · have hdiv : (32 * i + j) / 32 = i := by omega
    have hmod : (32 * i + j) % 32 = j := by omega
    rw [hchunkPages, hI.translate (by omega), hdiv, hmod, hsize, Nat.mul_comm 4096 j]
  · rw [hI.translate hk, hI.translate hk'] at heq
    have hplace := hI.chunks.frame_inj (show k / 32 < 32 by omega) (show k' / 32 < 32 by omega)
      (Nat.mod_lt _ (by omega)) (Nat.mod_lt _ (by omega)) (Option.some.inj heq)
    omega
  · have hchunk := hI.chunks.chunk (k / 32) (by omega)
    have hal := hchunk.aligned
    have hend := hchunk.lt
    refine ⟨s'.physHeapChunks (k / 32) / 4096 + k % 32, by omega, ?_,
      hchunk.free _ (by omega) (by omega)⟩
    rw [hI.translate hk, hsize]
    congr 1
    omega
  · rw [hheap]
    exact hI.slabs.slab8 (by omega)
  · rw [hheap]
    exact hI.slabs.slab16 (by omega)
  · rw [hheap]
    exact hI.slabs.slab32 (by omega)
  · rw [hheap] at hout
    have hwalk := (hext.trans hI.pages.left).walk v hv hlow hlt hout
    unfold Managers.translate
    rw [hI.pages.booted.cr3, hbooted.cr3]
    exact hwalk

/-! ## 6. `init_heap_pages` -/

/-- The image leaves a 4 MiB block free above its own. -/
def LeavesBlock (I : KernelImage) : Prop :=
  kernelBase + pageBlockSize * I.blocks + pageBlockSize ≤ 0x100000000

/-- **`init_mmap` takes the tables**, with the rest of the kernel image. -/
theorem tablesTaken_of_intake {K : KernelExtent} {mem : Nat → BitVec 8}
    {fuel mmapLength mmapAddr : Nat} {u u' : PhysMemAllocator} (hstart : K.kernelStart = kernelStart)
    (hend : K.kernelEnd = I.kernelEnd)
    (hrun : initMmap fuel mem K mmapLength mmapAddr u = some (.ok u')) : TablesTaken I u' := by
  obtain ⟨n, _, _, hbits⟩ := initMmap_ok hrun
  intro p hlow hhigh
  have hle := I.tables_le
  have hlt := I.stop_lt
  have hfirst := I.start_le
  have hreserved : ¬ (kernelMmap K).Available := by
    show ¬ (memoryReserved = memoryAvailable ∨ memoryReserved = memoryAcpiReclaimable)
    decide
  refine (hbits p (by omega)).mpr (Or.inr (Or.inl ⟨hreserved, 4096 * p, ?_, by omega⟩))
  have hphys : kernelVirtToPhys K.kernelStart = 0x100000 := by
    rw [hstart]
    decide
  have hlen : K.kernelEnd - K.kernelStart = I.stop - 0x100000 := by
    have hbase : kernelBase = 0xc0000000 := rfl
    have hkernel : kernelStart = 0xc0100000 := rfl
    rw [hstart, hend, KernelImage.kernelEnd]
    omega
  rw [kernelMmap_visits, hphys, hlen]
  refine ⟨?_, ?_, ?_⟩
  · omega
  · omega
  · omega

/-- The slot of that block is clear after `setup_paging`. -/
theorem exists_clear {m : Ram} (hm : LeftBySetup I m) (hblock : LeavesBlock I) :
    ∃ k, 769 ≤ k ∧ k < 1024 ∧ I.dirAt m k = 0 := by
  obtain ⟨fuel, m₀, info, hb, hp, hrun⟩ := hm
  have hbase : kernelBase = 768 * 4194304 := rfl
  have hsize : pageBlockSize = 4194304 := by decide
  have hpos := I.blocks_pos
  unfold LeavesBlock at hblock
  rw [hbase, hsize] at hblock
  refine ⟨768 + I.blocks, by omega, by omega, ?_⟩
  rw [(setupPaging_left hb hp hrun).1 _ (by omega), if_neg (by omega), if_neg (by omega)]

/-- **The whole operation**, from any state of the machine with a clear slot. -/
theorem initHeapPages_spec {s : Managers} (hbooted : Booted I s.vm)
    (hclear : ∃ k, 769 ≤ k ∧ k < 1024 ∧ I.dirAt s.vm.ram k = 0) (hhint : HintOk s.phys)
    (hfree : 33 ≤ (freeBlocks s.phys).card) (htaken : TablesTaken I s.phys) :
    Post (fun s' _ => HeapMapped s s' ∧
        s'.translate s'.heap = some (s'.physHeapChunks 0) ∧
        ∃ m, s'.vm.ram = headed m (s'.physHeapChunks 0)) (initHeapPages s) := by
  obtain ⟨vm, base, hrun, hb, hext, hloops⟩ := mapHeap_spec hbooted hclear hhint hfree
  unfold initHeapPages
  refine hloops.andThen fun s₁ _ hI => (writeHeader_spec hb htaken hI).imp fun s' _ hpost => ?_
  obtain ⟨hI', m, hram⟩ := hpost
  have hal := hb.aligned
  exact ⟨hI'.heapMapped hbooted hrun hb hext,
    hI'.walk_heap (by omega) (show 0 < 4096 by omega), m, hram⟩

/-- **The chunks lie between the hint and any bound** up to which 32 blocks are ahead. -/
theorem initHeapPages_below {s : Managers} (hbooted : Booted I s.vm)
    (hclear : ∃ k, 769 ≤ k ∧ k < 1024 ∧ I.dirAt s.vm.ram k = 0) (hhint : HintOk s.phys)
    (hfree : 33 ≤ (freeBlocks s.phys).card) (htaken : TablesTaken I s.phys) {top : Nat}
    (htop : 32 ≤ (ahead s.phys top).card) :
    Post (fun s' _ => ∀ i < nChunks, Chunk s.phys s'.phys (s'.physHeapChunks i) ∧
      s.phys.lastAlloc / 32 ≤ s'.physHeapChunks i / 131072 ∧
        s'.physHeapChunks i < 131072 * top) (initHeapPages s) := by
  obtain ⟨vm, base, _, hb, _, hloops⟩ := mapHeap_spec hbooted hclear hhint hfree
  unfold initHeapPages
  refine hloops.andThen fun s₁ _ hI => (writeHeader_spec hb htaken hI).imp fun s' _ hpost => ?_
  have hbelow := (hpost.1.chunks.below top htop).2.2
  exact fun i hi => ⟨hpost.1.chunks.chunk i hi, hbelow i hi⟩

/-- **The heap mapping is injective and self-contained** for a bitmap that has the page tables
    taken. -/
theorem initHeapPages_maps (I : KernelImage) (m : Ram) (s : Managers) (hm : LeftBySetup I m)
    (hvm : s.vm = bootVm I m) (hblock : LeavesBlock I) (hhint : HintOk s.phys)
    (hfree : 33 ≤ (freeBlocks s.phys).card) (htaken : TablesTaken I s.phys) :
    Post (fun s' _ => HeapMapped s s') (initHeapPages s) := by
  have hbooted : Booted I s.vm := by
    rw [hvm]
    exact (bootVm_booted hm).1
  have hclear : ∃ k, 769 ≤ k ∧ k < 1024 ∧ I.dirAt s.vm.ram k = 0 := by
    rw [hvm]
    exact exists_clear hm hblock
  exact (initHeapPages_spec hbooted hclear hhint hfree htaken).imp fun s' _ h => h.1

/-- A bitmap in which the frames of the real image's tables are taken and no others. -/
def tablesBitmap : PhysMemAllocator := ⟨fun i => if 35 ≤ i ∧ i < 164 then 0xff else 0, 0⟩

theorem tablesTaken_tablesBitmap : TablesTaken realImage tablesBitmap := by
  intro p hlow hhigh
  have hdir : realImage.pageDir = 0x11e000 := rfl
  rw [hdir] at hlow hhigh
  have hbyte : tablesBitmap.memBitmap (p / 8) = 0xff#8 := if_pos (by omega)
  unfold frameBit Bits.bit
  rw [hbyte]
  exact Bits.getLsbD_full (Nat.mod_lt _ (by decide))

/-- Blocks 41, 42, ... of a bitmap are free when the bytes from 164 on are zero. -/
theorem freeBlocks_of_zero {u : PhysMemAllocator} (hz : ∀ i, 164 ≤ i → u.memBitmap i = 0#8) :
    33 ≤ (freeBlocks u).card := by
  have hsub : Finset.Ico 41 74 ⊆ freeBlocks u := by
    intro b hb
    rw [Finset.mem_Ico] at hb
    refine mem_freeBlocks.mpr ⟨by omega, fun p h1 h2 => ?_⟩
    exact frameBit_of_byte_zero (hz _ (by omega))
  have hcard := Finset.card_le_card hsub
  rw [Nat.card_Ico] at hcard
  exact hcard

theorem leavesBlock_realImage : LeavesBlock realImage := by
  unfold LeavesBlock
  decide

/-- The theorem at that bitmap. -/
theorem initHeapPages_maps_tablesBitmap : ∃ m, LeftBySetup realImage m ∧
    Post (fun s' _ => HeapMapped ⟨bootVm realImage m, tablesBitmap, fun _ => 0, 0, 0, 0, 0⟩ s')
      (initHeapPages ⟨bootVm realImage m, tablesBitmap, fun _ => 0, 0, 0, 0, 0⟩) := by
  obtain ⟨m, hm⟩ := exists_leftBySetup realImage
  have hhint : HintOk tablesBitmap := hintOk_iff.mpr (by decide)
  refine ⟨m, hm, initHeapPages_maps realImage m _ hm rfl leavesBlock_realImage hhint ?_ ?_⟩
  · exact freeBlocks_of_zero fun i hi => if_neg (by omega)
  · exact tablesTaken_tablesBitmap

/-- **The heap read back is a fresh heap**, when its slabs' bitmaps are clear. -/
theorem initHeapPages_fresh {s : Managers} {bitmap8 bitmap16 bitmap32 : Nat → BitVec 8}
    (hbooted : Booted I s.vm) (hclear : ∃ k, 769 ≤ k ∧ k < 1024 ∧ I.dirAt s.vm.ram k = 0)
    (hhint : HintOk s.phys) (hfree : 33 ≤ (freeBlocks s.phys).card) (htaken : TablesTaken I s.phys)
    (h8 : ∀ i < slabBitmapBytes 8, bitmap8 i = 0) (h16 : ∀ i < slabBitmapBytes 16, bitmap16 i = 0)
    (h32 : ∀ i < slabBitmapBytes 32, bitmap32 i = 0) :
    Post (fun s' _ => HeapBase s'.heap ∧
      Fresh s'.heap (s'.heapAllocator bitmap8 bitmap16 bitmap32)) (initHeapPages s) := by
  refine (initHeapPages_spec hbooted hclear hhint hfree htaken).imp fun s' _ hpost => ?_
  obtain ⟨hmapped, hfirst, m, hram⟩ := hpost
  have hal : s'.heap % 4096 = 0 := by
    have hsize : pageBlockSize = 4194304 := by decide
    have hbase := hmapped.base.aligned
    rw [hsize] at hbase
    omega
  have hword : ∀ d < 4096, s'.wordAt (s'.heap + d) = headed m (s'.physHeapChunks 0)
      (s'.physHeapChunks 0 + d) := by
    intro d hd
    have hwalk : walk s'.vm.ram s'.vm.cr3 (s'.heap + d) = some (s'.physHeapChunks 0 + d) :=
      walk_page hal hd hfirst
    unfold Managers.wordAt
    rw [load_of_walk hwalk, Option.getD_some, hram]
  refine ⟨hmapped.base, rfl, hmapped.slab8, hmapped.slab16, hmapped.slab32, h8, h16, h32, ?_⟩
  have h0 : s'.wordAt s'.heap = 0 := by
    have h := hword 0 (by omega)
    rw [Nat.add_zero, Nat.add_zero, headed_next] at h
    exact h
  have h4 : s'.wordAt (s'.heap + 4) = firstBlockSize := by
    rw [hword 4 (by omega), headed_size]
  have hbyte : s'.wordAt (s'.heap + 8) % 256 = 0 := by
    rw [hword 8 (by omega), headed_allocated]
  unfold Managers.heapAllocator
  dsimp only
  rw [h0, h4, hbyte]
  rfl

/-! ## 7. A table's frame free -/

/-- A memory that keeps the heap's slot and the first entry of its table keeps its first page. -/
theorem MapInv.walk_heap_same {s : Managers} {m' : Ram} {c d : Nat} (hb : Block I m₁ base)
    (hI : MapInv I u₀ m₁ base c 1024 s) (hd : d < 4096)
    (hdir : I.dirAt m' (base / 4194304) = I.dirAt s.vm.ram (base / 4194304))
    (hentry : I.entryAt m' (base / 4194304) 0 = I.entryAt s.vm.ram (base / 4194304) 0) :
    walk m' s.vm.cr3 (s.heap + d) = some (s.physHeapChunks 0 + d) := by
  have hal := hb.aligned
  have hlt := hb.lt
  have habove := hb.above
  have hpos := I.blocks_pos
  have hslot : (base + d) / 4194304 = base / 4194304 := by omega
  have hidx : (base + d) / 4096 % 1024 = 0 := by omega
  have hown : I.slotTable (base / 4194304) = base / 4194304 := I.slotTable_own (by omega)
  rw [← hI.walk_heap (by omega) hd, hI.heap, hI.pages.booted.cr3]
  refine hI.pages.booted.shape.walk_same (by omega) (by rw [hslot]; exact hdir) fun _ => ?_
  rw [hslot, hidx, hown]
  exact hentry

/-- **Chunk 0 a table in use**: the header clears its first entry, and the first page of its block
    loses its translation. -/
theorem header_hits_table {s : Managers} {t : Nat} (hb : Block I m₁ base) (ht : t < I.blocks)
    (hI : MapInv I u₀ m₁ base 32 1024 s) (hchunk : s.physHeapChunks 0 = I.pageTables + 4096 * t) :
    Post (fun s' _ => s'.heap = base ∧ s'.translate (kernelBase + 4194304 * t) = none)
      (writeHeader s) := by
  have hbase : kernelBase = 768 * 4194304 := rfl
  have hblocks := I.blocks_le
  have hal := hb.aligned
  have hlt := hb.lt
  have habove := hb.above
  have hs := hI.pages.booted.shape
  have hcr3 := hI.pages.booted.cr3
  have hne : base / 4194304 ≠ t := by omega
  have hk : base / 4194304 < 1024 := by omega
  have h0 : walk s.vm.ram s.vm.cr3 (s.heap + 0) = some (s.physHeapChunks 0 + 0) :=
    hI.walk_heap_same hb (by omega) rfl rfl
  have h1 : walk (I.setEntry s.vm.ram t 0 0) s.vm.cr3 (s.heap + 4) =
      some (s.physHeapChunks 0 + 4) :=
    hI.walk_heap_same hb (by omega) (I.dirAt_setEntry _ hk)
      (I.entryAt_setEntry_ne _ (by omega) (by omega) (Or.inl hne))
  have h2 : walk (I.setEntry (I.setEntry s.vm.ram t 0 0) t 1 firstBlockSize) s.vm.cr3
      (s.heap + 8) = some (s.physHeapChunks 0 + 8) := by
    refine hI.walk_heap_same hb (by omega) ?_ ?_
    · rw [I.dirAt_setEntry _ hk, I.dirAt_setEntry _ hk]
    · rw [I.entryAt_setEntry_ne _ (by omega) (by omega) (Or.inl hne),
        I.entryAt_setEntry_ne _ (by omega) (by omega) (Or.inl hne)]
  rw [hchunk] at h0 h1 h2
  rw [writeHeader_eq h0 h1 h2]
  refine .intro ⟨hI.heap, ?_⟩
  show walk (headed s.vm.ram (I.pageTables + 4096 * t)) s.vm.cr3 _ = none
  obtain ⟨w, hheaded⟩ : ∃ w, headed s.vm.ram (I.pageTables + 4096 * t) =
      I.setEntry (I.setEntry (I.setEntry s.vm.ram t 0 0) t 1 firstBlockSize) t 2 w := ⟨_, rfl⟩
  have hslot : (kernelBase + 4194304 * t) / 4194304 = 768 + t := by omega
  have hidx : (kernelBase + 4194304 * t) / 4096 % 1024 = 0 := by omega
  have hdir : I.dirAt (I.setEntry (I.setEntry (I.setEntry s.vm.ram t 0 0) t 1 firstBlockSize) t 2 w)
      ((kernelBase + 4194304 * t) / 4194304) = I.tableEntry t := by
    rw [hslot, I.dirAt_setEntry _ (by omega), I.dirAt_setEntry _ (by omega),
      I.dirAt_setEntry _ (by omega)]
    exact hs.high t ht
  rw [hheaded, hcr3, I.walk_slot_none_iff hdir, hidx,
    I.entryAt_setEntry_ne _ (by omega) (by omega) (Or.inr (by omega)),
    I.entryAt_setEntry_ne _ (by omega) (by omega) (Or.inr (by omega)), I.entryAt_setEntry_self]
  exact not_present_zero

/-- A bitmap with every frame free, and the hint at the block of frames 288 to 319. -/
def freeBitmap : PhysMemAllocator := ⟨fun _ => 0, 288⟩

/-- Chunk 0 of that bitmap is table 1 of the real image. -/
theorem freeBitmap_chunk {s : Managers}
    (hI : MapInv realImage freeBitmap m₁ base 32 1024 s) :
    s.physHeapChunks 0 = realImage.pageTables + 4096 * 1 := by
  have hblock : 9 ∈ freeBlocks freeBitmap :=
    mem_freeBlocks.mpr ⟨by omega, fun p _ _ => frameBit_of_byte_zero rfl⟩
  have hhint : freeBitmap.lastAlloc / 32 = 9 := by decide
  obtain ⟨u₁, hfirst⟩ := hI.chunks.first (by omega)
  obtain ⟨u₂, hhere⟩ := alloc32_here hhint (by decide) hblock
  have hchunk : s.physHeapChunks 0 = 131072 * 9 :=
    congrArg Prod.snd (Option.some.inj (hfirst.symm.trans hhere))
  exact hchunk.trans (by decide)

/-- **The mapping fails where the tables' frames are free**: chunk 0 is table 1 of the real image,
    and the page at 0xc0400000 loses its translation. -/
theorem initHeapPages_hits_table : ∃ m, LeftBySetup realImage m ∧ LeavesBlock realImage ∧
    HintOk freeBitmap ∧ 33 ≤ (freeBlocks freeBitmap).card ∧
    ¬ Post (fun s' _ => HeapMapped ⟨bootVm realImage m, freeBitmap, fun _ => 0, 0, 0, 0, 0⟩ s')
      (initHeapPages ⟨bootVm realImage m, freeBitmap, fun _ => 0, 0, 0, 0, 0⟩) := by
  obtain ⟨m, hm⟩ := exists_leftBySetup realImage
  have hhint : HintOk freeBitmap := hintOk_iff.mpr (by decide)
  have hfree : 33 ≤ (freeBlocks freeBitmap).card := freeBlocks_of_zero fun _ _ => rfl
  refine ⟨m, hm, leavesBlock_realImage, hhint, hfree, fun hpost => ?_⟩
  obtain ⟨vm, base, _, hb, _, hloops⟩ := mapHeap_spec
    (s := ⟨bootVm realImage m, freeBitmap, fun _ => 0, 0, 0, 0, 0⟩) (bootVm_booted hm).1
    (exists_clear hm leavesBlock_realImage) hhint hfree
  have hheader := hloops.andThen (f := fun s _ => writeHeader s)
    (Q := fun s' _ => s'.heap = base ∧ s'.translate (kernelBase + 4194304 * 1) = none)
    fun s₁ _ hI => header_hits_table hb (by decide) hI (freeBitmap_chunk hI)
  obtain ⟨s', _, hrun, hheap, hnone⟩ := hheader
  have hmapped := hpost.of_eq hrun
  have habove := hb.above
  have hpage : realImage.Page 0x400000 := ⟨by decide, by decide, by decide⟩
  have hbefore : walk m realImage.pageDir (kernelBase + 0x400000) = some 0x400000 :=
    (bootVm_booted hm).1.shape.walk_high hpage
  have hsame := hmapped.others (kernelBase + 4194304 * 1) (by decide) (by decide) (by decide)
    (fun hin => by
      have hblocks : realImage.blocks = 2 := by decide
      have hbase : kernelBase = 768 * 4194304 := rfl
      have hlow := hin.1
      rw [hheap] at hlow
      omega)
  rw [hnone] at hsame
  have hcr3 : kernelVirtToPhys realImage.initPageDir = realImage.pageDir := realImage.phys_initPageDir
  have htranslate : Managers.translate ⟨bootVm realImage m, freeBitmap, fun _ => 0, 0, 0, 0, 0⟩
      (kernelBase + 4194304 * 1) = some 0x400000 := by
    show walk m (kernelVirtToPhys realImage.initPageDir) (kernelBase + 0x400000) = some 0x400000
    rw [hcr3]
    exact hbefore
  rw [htranslate] at hsame
  cases hsame

end OsPlayground.Heap
