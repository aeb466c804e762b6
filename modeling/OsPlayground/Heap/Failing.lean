/-
  File:      OsPlayground/Heap/Failing.lean
  Subject:   DOES init_heap_pages FAIL CLEANLY? The result of `reserve_block` is not checked at all,
             that of `alloc32` by an assert only; a null page tells `map_page` to pick any page, a
             null chunk is the frame at 0, and no one looks whether chunk 0 is the heap's own table.

  * `HeaderHits` -- the header of the heap would be written over the heap's own table;
  * `HeapSlot`, `HeapSlot.map` -- the slot of the heap: a page mapped changes one entry of its own
    table;
  * `FillInv`, `mapHeapPageIn_spec`, `mapChunkIn_spec` -- the loops, up to the chunk that is null;
  * `mapHeapIn_null` -- the loops with a null heap;
  * `writeHeader_cases`, `FillInv.clean_iff` -- the header;
  * **`initHeapPagesIn_clean_iff`** -- for every directory and bitmap, in both builds.
-/
import OsPlayground.Heap.Builds
import OsPlayground.Heap.Mapping

namespace OsPlayground.Heap

open Paging Halting VirtMem PhysMem

variable (I : KernelImage)

/-- **A clear slot above the kernel's first has its table to itself**: it is reached, and no other
    slot names it. -/
def FreshSlots (m : Ram) : Prop :=
  ∀ k, 769 ≤ k → k < 1024 → I.dirAt m k = 0 →
    Reached I m k ∧ ∀ k' < 1024, I.dirAt m k' ≠ 0 → tableOf I m k' ≠ I.pageTables + 4096 * k

/-- There is a slot for `reserve_block` to load. -/
def HasClear (m : Ram) : Prop := ∃ k, 769 ≤ k ∧ k < 1024 ∧ I.dirAt m k = 0

/-- Slot `k` is the one `reserve_block` loads. -/
structure FirstClear (m : Ram) (k : Nat) : Prop where
  low : 769 ≤ k
  lt : k < 1024
  clear : I.dirAt m k = 0
  first : ∀ i, 769 ≤ i → i < k → I.dirAt m i ≠ 0

/-- The first block `alloc32` can hand out begins with the table of the slot `reserve_block` loads:
    the header of the heap is then written over the entries of its own pages. -/
def HeaderHits (s : Managers) : Prop :=
  ∃ k b, FirstClear I s.vm.ram k ∧ FirstBlock s.phys b ∧ 131072 * b = I.pageTables + 4096 * k

/-- **When the outcome is clean.** -/
def CleanWhen (build : Build) (s : Managers) : Prop :=
  match build with
  | .debug =>
      (HasClear I s.vm.ram ∧ (32 ≤ (otherBlocks s.phys).card → ¬ HeaderHits I s)) ∨
        otherBlocks s.phys = ∅
  | .ndebug =>
      HasClear I s.vm.ram ∧ 32 ≤ (otherBlocks s.phys).card ∧ ¬ HeaderHits I s

/-- **Slot `k` is the heap's**: loaded with its own table, which no other slot names. -/
structure HeapSlot (k : Nat) (vm : Vm) : Prop where
  paged : Paged I vm
  low : 769 ≤ k
  lt : k < 1024
  slot : I.dirAt vm.ram k = I.tableEntry k
  reached : Reached I vm.ram k
  dir : (kernelBase + I.pageDir) / 4194304 ≠ k
  own : ∀ k' < 1024, k' ≠ k → I.dirAt vm.ram k' ≠ 0 → tableOf I vm.ram k' ≠ I.pageTables + 4096 * k

variable {I} {build : Build} {vm vm' : Vm} {m : Ram} {k j phys : Nat}

/-! ## 1. The log -/

/-- The log grows at its head. -/
def LogGrows (t t' : Traced) : Prop := t.log <:+ t'.log

theorem LogGrows.refl (t : Traced) : LogGrows t t := List.suffix_rfl

theorem LogGrows.trans (t t' t'' : Traced) (h : LogGrows t t') (h' : LogGrows t' t'') :
    LogGrows t t'' := List.IsSuffix.trans h h'

theorem logGrows_note (e : InitEvent) (t : Traced) : LogGrows t (note e t) := List.suffix_cons e t.log

theorem logGrows_assertIn (build : Build) (c : Prop) [Decidable c] (t : Traced) :
    LogGrows t (assertIn build c t).1 := by
  unfold assertIn
  cases build with
  | ndebug => exact LogGrows.refl t
  | debug =>
      dsimp only
      split
      · exact LogGrows.refl t
      · exact logGrows_note .panicked t

theorem logGrows_mapPageIn (build : Build) (virtPage physPage : Nat) (t : Traced) :
    LogGrows t (mapPageIn build virtPage physPage t).1 := by
  unfold mapPageIn
  refine through_andThen LogGrows.trans ?_ fun t' virt => ?_
  · split
    · exact LogGrows.refl t
    · exact LogGrows.refl t
  · refine through_andThen LogGrows.trans (logGrows_assertIn build _ t') fun t'' _ => ?_
    refine through_andThen LogGrows.trans (logGrows_assertIn build _ t'') fun t₃ _ => ?_
    exact LogGrows.refl t₃

/-- What a pass of the inner loop does after its call is noted. -/
theorem logGrows_noted (build : Build) (i j : Nat) (t : Traced) :
    LogGrows (note (.mapped ((t.managers.heap + (chunkPages * i + j) * pageSize) % 0x100000000)
      ((t.managers.physHeapChunks i + j * pageSize) % 0x100000000)) t)
        (mapHeapPageIn build i j t).1 := by
  unfold mapHeapPageIn
  dsimp only
  refine through_andThen LogGrows.trans (logGrows_mapPageIn build _ _ _) fun t' res => ?_
  refine through_andThen LogGrows.trans (logGrows_assertIn build _ t') fun t'' _ => ?_
  exact LogGrows.refl t''

theorem logGrows_mapHeapPageIn (build : Build) (i j : Nat) (t : Traced) :
    LogGrows t (mapHeapPageIn build i j t).1 :=
  LogGrows.trans _ _ _ (logGrows_note _ t) (logGrows_noted build i j t)

theorem logGrows_mapChunkIn (build : Build) (i : Nat) (t : Traced) :
    LogGrows t (mapChunkIn build i t).1 := by
  unfold mapChunkIn
  refine through_andThen LogGrows.trans (logGrows_assertIn build _ t) fun t _ => ?_
  refine through_andThen LogGrows.trans ?_ fun t _ => ?_
  · unfold allocChunkIn
    exact through_andThen LogGrows.trans (LogGrows.refl t) fun t _ => logGrows_note _ t
  · refine through_andThen LogGrows.trans (logGrows_assertIn build _ t) fun t _ => ?_
    exact through_upTo LogGrows.refl LogGrows.trans (logGrows_mapHeapPageIn build i) chunkPages t

/-- A log that was not clean stays so. -/
theorem CleanLog.suffix {l l' : List InitEvent} (h : CleanLog l') (hs : l <:+ l') : CleanLog l := by
  induction l' with
  | nil =>
      rw [List.suffix_nil.mp hs]
      exact h
  | cons e l' ih =>
      rcases List.suffix_cons_iff.mp hs with heq | hs
      · rw [heq]
        exact h
      · refine ih ?_ hs
        cases e with
        | reserved heap => exact h
        | allocated chunk => exact h
        | mapped virtPage physPage => exact h.2.2
        | panicked => exact h

theorem not_clean_of_grows {t t' : Traced} (h : ¬ CleanLog t.log) (hg : LogGrows t t') :
    ¬ CleanLog t'.log := fun hc => h (hc.suffix hg)

/-! ## 2. The slot of the heap -/

/-- The entry of a page of the heap translates it. -/
theorem walk_heap_page {f d : Nat} (hk : I.dirAt m k = I.tableEntry k) (hj : j < 1024)
    (hf : f % 4096 = 0) (hd : d < 4096) (he : I.entryAt m k j = f + 1) :
    walk m I.pageDir (4194304 * k + 4096 * j + d) = some (f + d) := by
  refine walk_page (by omega) hd ?_
  have hslot : (4194304 * k + 4096 * j) / 4194304 = k := by omega
  have hidx : (4194304 * k + 4096 * j) / 4096 % 1024 = j := by omega
  have hoff : (4194304 * k + 4096 * j) % 4096 = 0 := by omega
  rw [I.walk_slot (by rw [hslot]; exact hk) hf (by rw [hidx]; exact he), hoff, Nat.add_zero]

/-- An assert that holds does nothing. -/
theorem assertIn_of {c : Prop} [Decidable c] (h : c) (t : Traced) :
    assertIn build c t = (t, some ()) := by
  cases build with
  | ndebug => rfl
  | debug => exact if_pos h

/-- `map_page` of an aligned page and frame, in both builds. -/
theorem mapPageIn_of_ne {v : Nat} (hv : v ≠ 0) (hal : v % 4096 = 0) (hphys : phys % 4096 = 0)
    (t : Traced) : mapPageIn build v phys t = onManagers (onVm (writePage v phys)) t := by
  have hsize : pageSize = 4096 := rfl
  unfold mapPageIn
  rw [if_neg hv, andThen_some, hsize, assertIn_of hal, andThen_some, assertIn_of hphys, andThen_some]

/-- An entry of the heap's table written leaves the translation of the other slots. -/
theorem HeapSlot.walk_other (h : HeapSlot I k vm) {w v : Nat} (hj : j < 1024)
    (hv : v < 0x100000000) (hne : v / 4194304 ≠ k) :
    walk (I.setEntry vm.ram k j w) I.pageDir v = walk vm.ram I.pageDir v := by
  have hslot : v / 4194304 < 1024 := by omega
  refine walk_congr (I.dirAt_setEntry _ hslot) fun hp => ?_
  have hnz := (h.paged.tables.present_iff hslot).mp hp
  obtain ⟨t, ht, htab⟩ := h.paged.tables.tableOf_eq hslot
  have hother := h.own _ hslot hne hnz
  rw [htab] at hother
  rw [tableOf_named hnz] at htab
  show I.setEntry vm.ram k j w (frame (I.dirAt vm.ram (v / 4194304)) + 4 * (v / 4096 % 1024)) =
    vm.ram (frame (I.dirAt vm.ram (v / 4194304)) + 4 * (v / 4096 % 1024))
  rw [htab]
  exact I.entryAt_setEntry_ne vm.ram hj (by omega) (Or.inl (by omega))

theorem HeapSlot.tableOf_eq (h : HeapSlot I k vm) :
    tableOf I vm.ram k = I.pageTables + 4096 * k := by
  have hne : I.dirAt vm.ram k ≠ 0 := by
    rw [h.slot]
    exact tableEntry_ne_zero k
  rw [tableOf_named hne, h.slot, I.frame_tableEntry]

/-- An entry of the heap's table written keeps the slot. -/
theorem HeapSlot.write (h : HeapSlot I k vm) (hj : j < 1024) {w : Nat} {u : Vm}
    (hu : u.cr3 = vm.cr3 ∧ u.pageDir = vm.pageDir ∧ u.pageTables = vm.pageTables)
    (hram : u.ram = I.setEntry vm.ram k j w) : HeapSlot I k u := by
  have hbase : kernelBase = 768 * 4194304 := rfl
  have hle := I.tables_le
  have hlt := I.stop_lt
  have htab : I.pageTables = I.pageDir + 4096 := rfl
  have hlow := h.low
  have htables : Tables I u.ram := by
    rw [hram]
    refine ⟨?_, fun i hi => ?_, fun t ht => ?_⟩
    · rw [h.walk_other hj (by omega) h.dir]
      exact h.paged.tables.dir
    · rw [I.dirAt_setEntry _ hi]
      exact h.paged.tables.slot i hi
    · rw [h.walk_other hj (by omega) (by omega)]
      exact h.paged.tables.pointer t ht
  have hdir : ∀ i < 1024, I.dirAt u.ram i = I.dirAt vm.ram i := by
    intro i hi
    rw [hram, I.dirAt_setEntry _ hi]
  have htable : ∀ i < 1024, tableOf I u.ram i = tableOf I vm.ram i := by
    intro i hi
    unfold tableOf
    rw [hdir i hi]
  refine ⟨⟨hu.1.trans h.paged.cr3, hu.2.1.trans h.paged.pageDir, hu.2.2.trans h.paged.pageTables,
    htables⟩, hlow, h.lt, ?_, ?_, h.dir, fun i hi hne hnz => ?_⟩
  · rw [hdir k h.lt]
    exact h.slot
  · have hr := h.reached
    have hk := h.lt
    unfold Reached at hr ⊢
    rw [htable k hk, h.tableOf_eq, hram]
    rw [h.tableOf_eq] at hr
    rw [h.walk_other hj (by omega) (by omega)]
    exact hr
  · rw [htable i hi]
    rw [hdir i hi] at hnz
    exact h.own i hi hne hnz

/-- **A page of the heap mapped**: its entry is written, and the slot stays the heap's. -/
theorem HeapSlot.map (h : HeapSlot I k vm) (hj : j < 1024) (hphys : phys % 4096 = 0) :
    Post (fun vm' q => q = 4194304 * k + 4096 * j ∧ HeapSlot I k vm' ∧
        vm'.ram = I.setEntry vm.ram k j (phys + 1))
      (writePage (4194304 * k + 4096 * j) phys vm) := by
  have hlow := h.low
  have hlt := h.lt
  have hslot : (4194304 * k + 4096 * j) / 4194304 = k := by omega
  have hidx : (4194304 * k + 4096 * j) / 4096 % 1024 = j := by omega
  have hne : I.dirAt vm.ram ((4194304 * k + 4096 * j) / 4194304) ≠ 0 := by
    rw [hslot, h.slot]
    exact tableEntry_ne_zero k
  have hwrite := h.paged.writePage_eq (v := 4194304 * k + 4096 * j) (by omega) hne
    (by rw [hslot]; exact h.reached) hphys (by rw [hslot]; exact h.tableOf_eq)
  rw [hslot, hidx] at hwrite
  rw [hwrite]
  exact .intro ⟨rfl, h.write hj ⟨rfl, rfl, rfl⟩ rfl, rfl⟩

/-- **`reserve_block` gives the heap a slot.** -/
theorem heapSlot_of_reserves {b : Nat} (hp : Paged I vm) (hf : FreshSlots I vm.ram)
    (hvm : vm' = vm.withRam vm'.ram) (hr : Reserves I vm.ram vm'.ram b) (hb : b ≠ 0) :
    ∃ k, b = 4194304 * k ∧ FirstClear I vm.ram k ∧ HeapSlot I k vm' := by
  obtain ⟨k, rfl, hlow, hlt, hc, hfirst, hram⟩ := hr.resolve_left fun h0 => hb h0.1
  obtain ⟨hreached, hown⟩ := hf k hlow hlt hc
  have hl := loads_setDir (m := vm.ram) (show 768 ≤ k by omega) hlt hc
  rw [← hram] at hl
  have hpaged : Paged I vm' := by
    rw [hvm]
    exact hp.withRam (hl.tables hp.tables)
  refine ⟨k, rfl, ⟨hlow, hlt, hc, hfirst⟩, hpaged, hlow, hlt, ?_, (hl.reached hp.tables hlt).mpr hreached, ?_,
    fun i hi hne hnz => ?_⟩
  · rw [hram, I.dirAt_setDir_self]
  · intro heq
    have hnone : walk vm.ram I.pageDir (kernelBase + I.pageDir) = none := by
      refine I.walk_absent ?_
      rw [heq]
      exact hc
    rw [hp.tables.dir] at hnone
    cases hnone
  · rw [hl.tableOf_eq]
    rw [hram, I.dirAt_setDir_ne _ hne] at hnz
    exact hown i hi hnz

/-! ## 3. The loops -/

variable (I) in
/-- **The invariant of the loops**, after `c` chunks and `n` pages, of the heap in slot `k`. -/
structure FillInv (u₀ : PhysMemAllocator) (k c n : Nat) (t : Traced) : Prop where
  heap : t.managers.heap = 4194304 * k
  slot : HeapSlot I k t.managers.vm
  entries : ∀ p < n, I.entryAt t.managers.vm.ram k p =
    t.managers.physHeapChunks (p / 32) + 4096 * (p % 32) + 1
  hint : HintOk t.managers.phys
  blocks : (otherBlocks u₀).card = (otherBlocks t.managers.phys).card + c
  start : c = 0 → t.managers.phys = u₀
  first : 0 < c → ∃ b, FirstBlock u₀ b ∧ t.managers.physHeapChunks 0 = 131072 * b
  chunks : ∀ i < c, t.managers.physHeapChunks i % 131072 = 0 ∧ t.managers.physHeapChunks i ≠ 0 ∧
    t.managers.physHeapChunks i + 131072 ≤ 0x100000000 ∧
    .allocated (t.managers.physHeapChunks i) ∈ t.log
  clean : CleanLog t.log
  quiet : .panicked ∉ t.log

variable {u₀ : PhysMemAllocator} {i n c : Nat} {t : Traced}

/-- A place of a chunk was given. -/
theorem FillInv.given (hI : FillInv I u₀ k c n t) (hi : i < c) (hj : j < 32) :
    GivenIn t.log (t.managers.physHeapChunks i + 4096 * j) := by
  obtain ⟨_, hne, _, hmem⟩ := hI.chunks i hi
  have hsize : chunkPages * pageSize = 131072 := by decide
  exact ⟨_, hmem, hne, by omega, by rw [hsize]; omega⟩

/-- The arguments of a call of `map_page` in chunk `i`. -/
theorem FillInv.arguments (hI : FillInv I u₀ k (i + 1) n t) (hi : i < 32) (hj : j < 32) :
    (t.managers.physHeapChunks i + j * pageSize) % 0x100000000 =
        t.managers.physHeapChunks i + 4096 * j ∧
      (t.managers.heap + (chunkPages * i + j) * pageSize) % 0x100000000 =
        4194304 * k + 4096 * (32 * i + j) := by
  have hsize : pageSize = 4096 := rfl
  have hpages : chunkPages = 32 := rfl
  have hlt := hI.slot.lt
  obtain ⟨_, _, hend, _⟩ := hI.chunks i (by omega)
  rw [hI.heap, hsize, hpages]
  omega

/-- An operation of the machine leaves the rest of the managers, and the log. -/
theorem post_onManagers {α : Type} {op : Vm → Answer α} {t : Traced} {P : Vm → α → Prop}
    (h : Post P (op t.managers.vm)) :
    Post (fun t' a => ∃ vm, t' = { t with managers := { t.managers with vm := vm } } ∧ P vm a)
      (onManagers (onVm op) t) := by
  obtain ⟨s, a, hrun, vm, rfl, hP⟩ := post_onVm h
  unfold onManagers
  rw [hrun]
  exact .intro ⟨vm, rfl, hP⟩

/-- An event other than a panic keeps a log without one. -/
theorem quiet_cons {e : InitEvent} {l : List InitEvent} (hne : .panicked ≠ e)
    (h : .panicked ∉ l) : .panicked ∉ e :: l := List.not_mem_cons_of_ne_of_not_mem hne h

/-- **One pass of the inner loop.** -/
theorem mapHeapPageIn_spec (hi : i < 32) (hj : j < 32)
    (hI : FillInv I u₀ k (i + 1) (32 * i + j) t) :
    Post (fun t' _ => FillInv I u₀ k (i + 1) (32 * i + (j + 1)) t') (mapHeapPageIn build i j t) := by
  obtain ⟨hphys, hvirt⟩ := hI.arguments hi hj
  have hlow := hI.slot.low
  obtain ⟨hal, _, _, _⟩ := hI.chunks i (by omega)
  have hgiven := hI.given (Nat.lt_succ_self i) hj
  have hmap := hI.slot.map (show 32 * i + j < 1024 by omega)
    (show (t.managers.physHeapChunks i + 4096 * j) % 4096 = 0 by omega)
  unfold mapHeapPageIn
  dsimp only
  rw [hphys, hvirt, mapPageIn_of_ne (by omega) (by omega) (by omega)]
  refine (post_onManagers (t := note _ t) hmap).andThen fun t₁ q hpost => ?_
  obtain ⟨vm, rfl, rfl, hslot, hram⟩ := hpost
  rw [assertIn_of (by omega), andThen_some]
  obtain ⟨a, b, c, hsaved⟩ := saved_eq i j (4194304 * k + 4096 * (32 * i + j))
    { t.managers with vm := vm }
  refine .intro ?_
  show FillInv I u₀ k (i + 1) (32 * i + (j + 1))
    { managers := saved i j (4194304 * k + 4096 * (32 * i + j)) { t.managers with vm := vm }
      log := .mapped (4194304 * k + 4096 * (32 * i + j))
        (t.managers.physHeapChunks i + 4096 * j) :: t.log }
  rw [hsaved]
  refine ⟨hI.heap, hslot, fun p hp => ?_, hI.hint, hI.blocks, hI.start, hI.first,
    fun i' hi' => ?_, ⟨by omega, hgiven, hI.clean⟩, quiet_cons nofun hI.quiet⟩
  · show I.entryAt vm.ram k p = t.managers.physHeapChunks (p / 32) + 4096 * (p % 32) + 1
    rw [hram]
    by_cases heq : p = 32 * i + j
    · have hdiv : p / 32 = i := by omega
      have hmod : p % 32 = j := by omega
      rw [hdiv, hmod, heq, I.entryAt_setEntry_self]
    · rw [I.entryAt_setEntry_ne _ (by omega) (by omega) (Or.inr heq)]
      exact hI.entries p (by omega)
  · obtain ⟨h1, h2, h3, h4⟩ := hI.chunks i' hi'
    exact ⟨h1, h2, h3, List.mem_cons_of_mem _ h4⟩

/-- A null chunk, or a null heap, makes the first call of `map_page` for it unclean. -/
theorem not_clean_first (h : t.managers.physHeapChunks i = 0 ∨ (t.managers.heap = 0 ∧ i = 0)) :
    ¬ CleanLog (upTo (mapHeapPageIn build i) chunkPages t).1.log := by
  have hrest : LogGrows (mapHeapPageIn build i 0 t).1
      (upTo (mapHeapPageIn build i) chunkPages t).1 :=
    through_first LogGrows.refl LogGrows.trans (logGrows_mapHeapPageIn build i) 31 t
  refine not_clean_of_grows (fun hc => ?_)
    (LogGrows.trans _ _ _ (logGrows_noted build i 0 t) hrest)
  obtain ⟨hvirt, hgiven, _⟩ := hc
  rcases h with h0 | h0
  · rw [h0, Nat.zero_mul] at hgiven
    obtain ⟨chunk, _, hne, hle, _⟩ := hgiven
    have hzero : chunk ≤ 0 := hle
    omega
  · rw [h0.1, h0.2] at hvirt
    exact hvirt rfl

/-- The state after `alloc32` returned `out` for chunk `i`. -/
def chunked (i : Nat) (u : PhysMemAllocator) (out : Nat) (t : Traced) : Traced :=
  note (.allocated out) { t with
    managers := { t.managers with
      phys := u
      physHeapChunks := Function.update t.managers.physHeapChunks i out } }

theorem chunked_chunk (i : Nat) (u : PhysMemAllocator) (out : Nat) (t : Traced) :
    (chunked i u out t).managers.physHeapChunks i = out := by
  show Function.update t.managers.physHeapChunks i out i = out
  exact Function.update_self _ _ _

theorem allocChunkIn_eq {u : PhysMemAllocator} {out : Nat}
    (hrun : alloc32 t.managers.phys = some (u, out)) :
    allocChunkIn i t = (chunked i u out t, some ()) := by
  unfold allocChunkIn onManagers allocChunk
  rw [hrun]
  dsimp only
  rw [andThen_some]
  dsimp only
  rw [Function.update_self]
  rfl

/-- A pass of the outer loop after its allocation. -/
theorem mapChunkIn_eq {u : PhysMemAllocator} {out : Nat}
    (hrun : alloc32 t.managers.phys = some (u, out)) :
    mapChunkIn build i t = andThen (assertIn build (out ≠ 0) (chunked i u out t)) fun t _ =>
      upTo (mapHeapPageIn build i) chunkPages t := by
  have hpages : chunkPages = 32 := rfl
  unfold mapChunkIn
  rw [assertIn_of hpages, andThen_some, allocChunkIn_eq hrun, andThen_some, chunked_chunk]

/-- The invariant after the allocation of a chunk. -/
theorem FillInv.chunked {u : PhysMemAllocator} {out : Nat} (hI : FillInv I u₀ k i (32 * i) t)
    (hhint : HintOk u) (hchunk : Chunk t.managers.phys u out)
    (hfirst : ∃ b, FirstBlock t.managers.phys b ∧ out = 131072 * b)
    (hcard : (otherBlocks t.managers.phys).card = (otherBlocks u).card + 1) :
    FillInv I u₀ k (i + 1) (32 * i) (chunked i u out t) := by
  have hblocks := hI.blocks
  refine ⟨hI.heap, hI.slot, fun p hp => ?_, hhint, ?_, fun h => absurd h (by omega), fun _ => ?_,
    fun i' hi' => ?_, hI.clean, quiet_cons nofun hI.quiet⟩
  · show I.entryAt t.managers.vm.ram k p =
      Function.update t.managers.physHeapChunks i out (p / 32) + 4096 * (p % 32) + 1
    rw [Function.update_of_ne (by omega)]
    exact hI.entries p hp
  · show (otherBlocks u₀).card = (otherBlocks u).card + (i + 1)
    omega
  · show ∃ b, FirstBlock u₀ b ∧ Function.update t.managers.physHeapChunks i out 0 = 131072 * b
    rcases Nat.eq_zero_or_pos i with rfl | hpos
    · rw [Function.update_self, ← hI.start rfl]
      exact hfirst
    · rw [Function.update_of_ne (by omega)]
      exact hI.first hpos
  · by_cases heq : i' = i
    · rw [heq, chunked_chunk]
      exact ⟨hchunk.aligned, hchunk.ne, hchunk.lt, List.mem_cons_self⟩
    · have hold : (Heap.chunked i u out t).managers.physHeapChunks i' =
          t.managers.physHeapChunks i' := Function.update_of_ne heq _ _
      obtain ⟨h1, h2, h3, h4⟩ := hI.chunks i' (by omega)
      rw [hold]
      exact ⟨h1, h2, h3, List.mem_cons_of_mem _ h4⟩

/-- **What a null chunk leads to**: with asserts one that fails, the log clean; without them a log
    that is not. -/
def Spoilt (build : Build) (u₀ : PhysMemAllocator) (r : Traced × Option Unit) : Prop :=
  (otherBlocks u₀).card < 32 ∧
    match build with
    | .debug => r.2 = none ∧ .panicked ∈ r.1.log ∧ CleanLog r.1.log
    | .ndebug => ¬ CleanLog r.1.log

/-- **One pass of the outer loop.** -/
theorem mapChunkIn_spec (hi : i < 32) (hI : FillInv I u₀ k i (32 * i) t) :
    Post (fun t' _ => FillInv I u₀ k (i + 1) (32 * (i + 1)) t') (mapChunkIn build i t) ∨
      Spoilt build u₀ (mapChunkIn build i t) := by
  obtain ⟨u, out, hrun, hhint, hcases⟩ := alloc32_blocks hI.hint
  rw [mapChunkIn_eq hrun]
  rcases hcases with ⟨rfl, hempty⟩ | ⟨hchunk, _, hcard⟩
  · have hblocks := hI.blocks
    rw [hempty, Finset.card_empty] at hblocks
    refine Or.inr ⟨by omega, ?_⟩
    cases build with
    | debug =>
        have hstop : assertIn .debug ((0 : Nat) ≠ 0) (chunked i u 0 t) =
            (note .panicked (chunked i u 0 t), none) := rfl
        rw [hstop, andThen_none]
        exact ⟨rfl, List.mem_cons_self, hI.clean⟩
    | ndebug =>
        have hpass : assertIn .ndebug ((0 : Nat) ≠ 0) (chunked i u 0 t) =
            (chunked i u 0 t, some ()) := rfl
        rw [hpass, andThen_some]
        exact not_clean_first (Or.inl (chunked_chunk i u 0 t))
  · rw [assertIn_of hchunk.ne, andThen_some]
    have hloop : Post (fun t' _ => FillInv I u₀ k (i + 1) (32 * i + chunkPages) t')
        (upTo (mapHeapPageIn build i) chunkPages (chunked i u out t)) :=
      Post.upTo (fun j t => FillInv I u₀ k (i + 1) (32 * i + j) t) (hI.chunked hhint hchunk
        (alloc32_first hI.hint hrun hchunk.ne) hcard)
        fun j hj t' hI' => mapHeapPageIn_spec hi hj hI'
    exact Or.inl hloop

/-- Passes after a null chunk do not mend it. -/
theorem Spoilt.andThen {r : Traced × Option Unit} {f : Traced → Unit → Traced × Option Unit}
    (h : Spoilt build u₀ r) (hf : ∀ t a, LogGrows t (f t a).1) : Spoilt build u₀ (andThen r f) := by
  obtain ⟨t, o⟩ := r
  refine ⟨h.1, ?_⟩
  have h2 := h.2
  cases build with
  | debug =>
      obtain ⟨hstop, hpanic, hclean⟩ := h2
      have hstop : o = none := hstop
      rw [hstop, andThen_none]
      exact ⟨rfl, hpanic, hclean⟩
  | ndebug => exact not_clean_of_grows h2 (through_andThen LogGrows.trans (LogGrows.refl t) hf)

/-! ## 4. The header -/

variable (I) in
/-- The words that translate the heap: the slot, and its table naming frame `f p` for page `p`. -/
structure HeapWords (k : Nat) (f : Nat → Nat) (m : Ram) : Prop where
  slot : I.dirAt m k = I.tableEntry k
  entry : ∀ p < 1024, I.entryAt m k p = f p + 1

/-- A word near the start of another frame is none of them. -/
theorem HeapWords.update {f : Nat → Nat} {a d w : Nat} (h : HeapWords I k f m) (hk : 769 ≤ k)
    (hk' : k < 1024) (ha : a % 4096 = 0) (hd : d ≤ 8) (hne : a ≠ I.pageTables + 4096 * k) :
    HeapWords I k f (Function.update m (a + d) w) := by
  have haligned := I.aligned
  have htab := I.pageTables_aligned
  refine ⟨?_, fun p hp => ?_⟩
  · have heq : I.dirAt (Function.update m (a + d) w) k = I.dirAt m k :=
      Function.update_of_ne (by omega) _ _
    rw [heq]
    exact h.slot
  · have heq : I.entryAt (Function.update m (a + d) w) k p = I.entryAt m k p :=
      Function.update_of_ne (by omega) _ _
    rw [heq]
    exact h.entry p hp

theorem HeapWords.walk {f : Nat → Nat} {p d : Nat} (h : HeapWords I k f m) (hp : p < 1024)
    (hf : f p % 4096 = 0) (hd : d < 4096) :
    walk m I.pageDir (4194304 * k + 4096 * p + d) = some (f p + d) :=
  walk_heap_page h.slot hp hf hd (h.entry p hp)

/-- **The header written through the heap's first page**: over the heap's own table it clears the
    first entry, and the next store faults; elsewhere it keeps the heap's words. -/
theorem writeHeader_cases {s : Managers} {f : Nat → Nat} (hcr3 : s.vm.cr3 = I.pageDir)
    (hheap : s.heap = 4194304 * k) (hk : 769 ≤ k) (hk' : k < 1024)
    (h : HeapWords I k f s.vm.ram) (hf : f 0 % 4096 = 0) :
    (f 0 = I.pageTables + 4096 * k ∧ (writeHeader s).2 = none) ∨
      (f 0 ≠ I.pageTables + 4096 * k ∧
        ∃ m', writeHeader s = ({ s with vm := s.vm.withRam m' }, some ()) ∧
          HeapWords I k f m') := by
  have hstore : ∀ m' d, HeapWords I k f m' → d < 4096 →
      Paging.walk m' s.vm.cr3 (s.heap + d) = some (f 0 + d) := by
    intro m' d hm' hd
    have hw := hm'.walk (p := 0) (by omega) hf hd
    rw [hcr3, hheap]
    exact hw
  by_cases hhit : f 0 = I.pageTables + 4096 * k
  · have hnext : storeWord s.heap 0 s.vm =
        (s.vm.withRam (I.setEntry s.vm.ram k 0 0), some ()) := by
      have hwalk := hstore _ 0 h (by omega)
      rw [hhit] at hwalk
      exact storeWord_of_walk hwalk
    have hslot : (s.heap + 4) / 4194304 = k := by omega
    have hfault : Paging.walk (I.setEntry s.vm.ram k 0 0) s.vm.cr3 (s.heap + 4) = none := by
      have hdir : I.dirAt (I.setEntry s.vm.ram k 0 0) ((s.heap + 4) / 4194304) =
          I.tableEntry k := by
        rw [hslot, I.dirAt_setEntry _ hk']
        exact h.slot
      have hidx : (s.heap + 4) / 4096 % 1024 = 0 := by omega
      rw [hcr3, I.walk_slot_none_iff hdir, hidx, I.entryAt_setEntry_self]
      exact not_present_zero
    have hsize : storeWord (s.heap + 4) firstBlockSize
        (s.vm.withRam (I.setEntry s.vm.ram k 0 0)) =
          (s.vm.withRam (I.setEntry s.vm.ram k 0 0), none) := storeWord_fault hfault
    refine Or.inl ⟨hhit, ?_⟩
    unfold writeHeader onVm
    rw [hnext]
    dsimp only
    rw [andThen_some]
    dsimp only
    rw [hsize]
    rfl
  · have h1 : HeapWords I k f (Function.update s.vm.ram (f 0) 0) :=
      h.update (d := 0) hk hk' hf (by omega) hhit
    have h2 := h1.update (d := 4) (w := firstBlockSize) hk hk' hf (by omega) hhit
    refine Or.inr ⟨hhit, headed s.vm.ram (f 0), ?_, h2.update (d := 8) hk hk' hf (by omega) hhit⟩
    exact writeHeader_eq (hstore _ 0 h (by omega)) (hstore _ 4 h1 (by omega))
      (hstore _ 8 h2 (by omega))

/-- The words of a filled heap. -/
theorem FillInv.words (hI : FillInv I u₀ k 32 1024 t) :
    HeapWords I k (fun p => t.managers.physHeapChunks (p / 32) + 4096 * (p % 32))
      t.managers.vm.ram := ⟨hI.slot.slot, hI.entries⟩

theorem FillInv.aligned (hI : FillInv I u₀ k 32 1024 t) {p : Nat} (hp : p < 1024) :
    (t.managers.physHeapChunks (p / 32) + 4096 * (p % 32)) % 4096 = 0 := by
  obtain ⟨h1, _⟩ := hI.chunks (p / 32) (by omega)
  omega

/-- **The heap filled**: after the header the outcome is clean, unless chunk 0 is its own table. -/
theorem FillInv.clean_iff (hI : FillInv I u₀ k 32 1024 t) :
    CleanOutcome (onManagers writeHeader t) ↔
      t.managers.physHeapChunks 0 ≠ I.pageTables + 4096 * k := by
  have hsize : pageSize = 4096 := rfl
  have hpages : heapPages = 1024 := rfl
  have hcr3 := hI.slot.paged.cr3
  rcases writeHeader_cases hcr3 hI.heap hI.slot.low hI.slot.lt hI.words (hI.aligned (by omega))
    with h | h
  · obtain ⟨hhit, hnone⟩ := h
    refine ⟨fun hc => ?_, fun hne => absurd hhit hne⟩
    exact absurd (hc.2.1 hnone) hI.quiet
  · obtain ⟨hne, m', hrun, hm'⟩ := h
    refine ⟨fun _ => hne, fun _ => ?_⟩
    have hresult : onManagers writeHeader t =
        ({ t with managers := { t.managers with vm := t.managers.vm.withRam m' } }, some ()) := by
      unfold onManagers
      rw [hrun]
    rw [hresult]
    refine ⟨hI.clean, fun hstop => ?_, fun _ p hp => ?_⟩
    · cases hstop
    refine ⟨_, ?_, hI.given (show p / 32 < 32 by omega) (show p % 32 < 32 by omega)⟩
    have hwalk := hm'.walk (d := 0) (show p < 1024 by omega) (hI.aligned (by omega)) (by omega)
    rw [Nat.add_zero, Nat.add_zero] at hwalk
    show Paging.walk m' t.managers.vm.cr3 (t.managers.heap + p * pageSize) = _
    rw [hcr3, hI.heap, hsize, Nat.mul_comm p 4096]
    exact hwalk

/-! ## 5. From the reserved block on -/

/-- The state after `reserve_block` returned `b`. -/
def reservedAt (s : Managers) (vm : Vm) (b : Nat) : Traced :=
  ⟨{ s with vm := vm, heap := b }, [.reserved b]⟩

theorem mapHeapIn_eq (build : Build) {s : Managers} {b : Nat}
    (hrun : reserveBlock s.vm = (vm, some b)) :
    mapHeapIn build ⟨s, []⟩ = upTo (mapChunkIn build) nChunks (reservedAt s vm b) := by
  have hpages : heapPages % 32 = 0 := rfl
  have hreserve : onManagers (onVm reserveBlock) ⟨s, []⟩ = (⟨{ s with vm := vm }, []⟩, some b) := by
    unfold onManagers onVm
    dsimp only
    rw [hrun]
  unfold mapHeapIn
  rw [hreserve, andThen_some, assertIn_of hpages, andThen_some]
  rfl

/-- **The loops over a slot**: the heap filled, or spoilt by a null chunk. -/
theorem mapHeapIn_slot (build : Build) {s : Managers} (hslot : HeapSlot I k vm) (hh : HintOk s.phys) :
    (32 ≤ (otherBlocks s.phys).card ∧ Post (fun t _ => FillInv I s.phys k 32 1024 t)
        (upTo (mapChunkIn build) nChunks (reservedAt s vm (4194304 * k)))) ∨
      Spoilt build s.phys (upTo (mapChunkIn build) nChunks (reservedAt s vm (4194304 * k))) := by
  have hstart : FillInv I s.phys k 0 (32 * 0) (reservedAt s vm (4194304 * k)) :=
    ⟨rfl, hslot, fun p hp => absurd hp (by omega), hh, (Nat.add_zero _).symm, fun _ => rfl,
      fun h => absurd h (by omega), fun i hi => absurd hi (by omega), trivial,
      quiet_cons nofun List.not_mem_nil⟩
  rcases upTo_or (fun i t => FillInv I s.phys k i (32 * i) t) (Spoilt build s.phys) hstart
    (fun i hi t hI => mapChunkIn_spec hi hI)
    (fun i r h => h.andThen fun t _ => logGrows_mapChunkIn build i t) with h | h
  · obtain ⟨t, a, hrun, hI⟩ := h
    have hblocks := hI.blocks
    refine Or.inl ⟨?_, t, a, hrun, hI⟩
    have hn : nChunks = 32 := by decide
    omega
  · exact Or.inr h

/-- A null heap whose first chunk passes its assert: page 0 is passed to `map_page`. -/
theorem not_clean_null {u : PhysMemAllocator} {out : Nat} (hheap : t.managers.heap = 0)
    (hrun : alloc32 t.managers.phys = some (u, out))
    (hpass : assertIn build (out ≠ 0) (chunked 0 u out t) = (chunked 0 u out t, some ())) :
    ¬ CleanLog (upTo (mapChunkIn build) nChunks t).1.log := by
  have hchunk : mapChunkIn build 0 t =
      upTo (mapHeapPageIn build 0) chunkPages (chunked 0 u out t) := by
    rw [mapChunkIn_eq hrun, hpass, andThen_some]
  have hchunks : LogGrows (mapChunkIn build 0 t).1 (upTo (mapChunkIn build) nChunks t).1 :=
    through_first LogGrows.refl LogGrows.trans (logGrows_mapChunkIn build) 31 t
  rw [hchunk] at hchunks
  exact not_clean_of_grows (not_clean_first (t := chunked 0 u out t) (Or.inr ⟨hheap, rfl⟩)) hchunks

/-- **The loops with a null heap**: the assert of `alloc32` stops them, or page 0 is passed to
    `map_page`. -/
theorem mapHeapIn_null (build : Build) (vm : Vm) {s : Managers} (hh : HintOk s.phys) :
    (build = .debug ∧ otherBlocks s.phys = ∅ ∧ ∃ t, CleanLog t.log ∧ .panicked ∈ t.log ∧
        upTo (mapChunkIn build) nChunks (reservedAt s vm 0) = (t, none)) ∨
      (¬ (build = .debug ∧ otherBlocks s.phys = ∅) ∧
        ¬ CleanLog (upTo (mapChunkIn build) nChunks (reservedAt s vm 0)).1.log) := by
  obtain ⟨u, out, hrun, _, hcases⟩ := alloc32_blocks hh
  have hrun : alloc32 (reservedAt s vm 0).managers.phys = some (u, out) := hrun
  rcases hcases with ⟨rfl, hempty⟩ | ⟨hchunk, _, hcard⟩
  · cases build with
    | debug =>
        have hstop : mapChunkIn .debug 0 (reservedAt s vm 0) =
            (note .panicked (chunked 0 u 0 (reservedAt s vm 0)), none) := by
          rw [mapChunkIn_eq hrun]
          rfl
        exact Or.inl ⟨rfl, hempty, note .panicked (chunked 0 u 0 (reservedAt s vm 0)), trivial,
          List.mem_cons_self, upTo_first_none hstop 31⟩
    | ndebug =>
        refine Or.inr ⟨fun h => ?_, not_clean_null rfl hrun rfl⟩
        cases h.1
  · refine Or.inr ⟨fun h => ?_, not_clean_null rfl hrun (assertIn_of hchunk.ne _)⟩
    rw [h.2, Finset.card_empty] at hcard
    omega

/-! ## 6. When the outcome is clean -/

/-- The header adds nothing to the log. -/
theorem cleanLog_header {r : Traced × Option Unit} :
    CleanLog (andThen r fun t _ => onManagers writeHeader t).1.log ↔ CleanLog r.1.log := by
  obtain ⟨t, o⟩ := r
  cases o with
  | none => exact Iff.rfl
  | some a => exact Iff.rfl

/-- An operation that an assert stops after clean calls is clean. -/
theorem cleanInit_of_stop {s : Managers} {t : Traced} (hrun : mapHeapIn build ⟨s, []⟩ = (t, none))
    (hclean : CleanLog t.log) (hpanic : .panicked ∈ t.log) : CleanInit build s := by
  unfold CleanInit initHeapPagesIn
  rw [hrun, andThen_none]
  refine ⟨hclean, fun _ => hpanic, fun hdone => ?_⟩
  cases hdone

theorem not_cleanInit {s : Managers} (h : ¬ CleanLog (mapHeapIn build ⟨s, []⟩).1.log) :
    ¬ CleanInit build s := by
  intro hclean
  exact h (cleanLog_header.mp hclean.1)

theorem not_hasClear_iff : ¬ HasClear I m ↔ ∀ i, 769 ≤ i → i < 1024 → I.dirAt m i ≠ 0 := by
  unfold HasClear
  constructor
  · intro h i hi hlt h0
    exact h ⟨i, hi, hlt, h0⟩
  · intro h hc
    obtain ⟨i, hi, hlt, h0⟩ := hc
    exact h i hi hlt h0

theorem FirstClear.unique {k' : Nat} (h : FirstClear I m k) (h' : FirstClear I m k') : k = k' := by
  rcases Nat.lt_trichotomy k k' with hlt | heq | hlt
  · exact absurd h.clear (h'.first k h.low hlt)
  · exact heq
  · exact absurd h'.clear (h.first k' h'.low hlt)

/-- The chunk that the header is written to. -/
theorem FillInv.headerHits_iff {s : Managers} (hI : FillInv I s.phys k 32 1024 t)
    (hh : HintOk s.phys) (hk : FirstClear I s.vm.ram k) :
    t.managers.physHeapChunks 0 = I.pageTables + 4096 * k ↔ HeaderHits I s := by
  obtain ⟨b, hb, hchunk⟩ := hI.first (by omega)
  rw [hchunk]
  refine ⟨fun heq => ⟨k, b, hk, hb, heq⟩, fun h => ?_⟩
  obtain ⟨k', b', hk', hb', heq⟩ := h
  rw [hk.unique hk', hb.unique hh hb']
  exact heq

/-- With a slot for the heap: clean where the blocks suffice or an assert watches, and chunk 0 is
    not the heap's table. -/
theorem clean_iff_of_slot {s : Managers} (hslot : HeapSlot I k vm) (hh : HintOk s.phys)
    (hk : FirstClear I s.vm.ram k) (hrun : reserveBlock s.vm = (vm, some (4194304 * k))) :
    CleanInit build s ↔ (build = .ndebug → 32 ≤ (otherBlocks s.phys).card) ∧
      (32 ≤ (otherBlocks s.phys).card → ¬ HeaderHits I s) := by
  have hloops := mapHeapIn_eq build hrun
  rcases mapHeapIn_slot build hslot hh with ⟨hcard, t, a, hdone, hI⟩ | hspoilt
  · rw [hdone] at hloops
    unfold CleanInit initHeapPagesIn
    rw [hloops, andThen_some, hI.clean_iff, Ne, hI.headerHits_iff hh hk]
    exact ⟨fun h => ⟨fun _ => hcard, fun _ => h⟩, fun h => h.2 hcard⟩
  · rw [← hloops] at hspoilt
    obtain ⟨hcard, hout⟩ := hspoilt
    cases build with
    | debug =>
        obtain ⟨hstop, hpanic, hclean⟩ := hout
        refine ⟨fun _ => ⟨fun h => ?_, fun h => absurd h (by omega)⟩,
          fun _ => cleanInit_of_stop (Prod.ext rfl hstop) hclean hpanic⟩
        cases h
    | ndebug =>
        exact ⟨fun h => absurd h (not_cleanInit hout), fun h => absurd (h.1 rfl) (by omega)⟩

/-- Without one: only where the first assert stops the operation. -/
theorem clean_iff_of_null {s : Managers} (hh : HintOk s.phys)
    (hrun : reserveBlock s.vm = (vm, some 0)) :
    CleanInit build s ↔ build = .debug ∧ otherBlocks s.phys = ∅ := by
  have hloops := mapHeapIn_eq build hrun
  rcases mapHeapIn_null build vm hh with ⟨hbuild, hempty, t, hclean, hpanic, hstop⟩ | h
  · rw [hstop] at hloops
    exact ⟨fun _ => ⟨hbuild, hempty⟩, fun _ => cleanInit_of_stop hloops hclean hpanic⟩
  · obtain ⟨hnot, hlog⟩ := h
    rw [← hloops] at hlog
    exact ⟨fun hc => absurd hc (not_cleanInit hlog), fun hc => absurd hc hnot⟩

/-- A directory with a clear slot gives the heap a block. -/
theorem clean_iff_of_hasClear {s : Managers} (hp : Paged I s.vm) (hf : FreshSlots I s.vm.ram)
    (hh : HintOk s.phys) (hclear : HasClear I s.vm.ram) :
    CleanInit build s ↔ (build = .ndebug → 32 ≤ (otherBlocks s.phys).card) ∧
      (32 ≤ (otherBlocks s.phys).card → ¬ HeaderHits I s) := by
  obtain ⟨vm, b, hrun, hvm, hreserves⟩ := hp.reserveBlock_spec
  have hb : b ≠ 0 := by
    intro h0
    rcases hreserves with h | h
    · exact not_hasClear_iff.mpr h.2.2 hclear
    · obtain ⟨k, hk, hlow, _⟩ := h
      omega
  obtain ⟨k, rfl, hk, hslot⟩ := heapSlot_of_reserves hp hf hvm hreserves hb
  exact clean_iff_of_slot hslot hh hk hrun

/-- A directory without one gives it null. -/
theorem clean_iff_of_not_hasClear {s : Managers} (hp : Paged I s.vm) (hh : HintOk s.phys)
    (hnone : ¬ HasClear I s.vm.ram) :
    CleanInit build s ↔ build = .debug ∧ otherBlocks s.phys = ∅ := by
  obtain ⟨vm, b, hrun, _, hreserves⟩ := hp.reserveBlock_spec
  rcases hreserves with h | h
  · rw [h.1] at hrun
    exact clean_iff_of_null hh hrun
  · obtain ⟨k, _, hlow, hlt, hc, _⟩ := h
    exact absurd ⟨k, hlow, hlt, hc⟩ hnone

/-- **When `init_heap_pages` fails cleanly**: with asserts, where a block is reserved, and chunk 0 is
    not the heap's table if all chunks can be handed out, or there is no chunk to hand out at all;
    without them, where a block is reserved, 32 chunks are free, and chunk 0 is not that table. -/
theorem initHeapPagesIn_clean_iff (I : KernelImage) (build : Build) (s : Managers)
    (hp : Paged I s.vm) (hf : FreshSlots I s.vm.ram) (hh : HintOk s.phys) :
    CleanInit build s ↔ CleanWhen I build s := by
  by_cases hclear : HasClear I s.vm.ram
  · rw [clean_iff_of_hasClear hp hf hh hclear]
    cases build with
    | debug =>
        refine ⟨fun h => Or.inl ⟨hclear, h.2⟩, fun h => ⟨fun hb => ?_, fun hcard => ?_⟩⟩
        · cases hb
        · rcases h with h | h
          · exact h.2 hcard
          · rw [h, Finset.card_empty] at hcard
            omega
    | ndebug =>
        exact ⟨fun h => ⟨hclear, h.1 rfl, h.2 (h.1 rfl)⟩, fun h => ⟨fun _ => h.2.1, fun _ => h.2.2⟩⟩
  · rw [clean_iff_of_not_hasClear hp hh hclear]
    cases build with
    | debug => exact ⟨fun h => Or.inr h.2, fun h => ⟨rfl, h.resolve_left fun hc => hclear hc.1⟩⟩
    | ndebug =>
        refine ⟨fun h => ?_, fun h => absurd h.1 hclear⟩
        cases h.1

/-! ## 7. Two builds at the boot -/

/-- **The clear slots of a booted machine have their tables to themselves.** -/
theorem freshSlots_of_booted (h : Booted I vm) : FreshSlots I vm.ram := by
  intro k hlow hlt hc
  have hstart := I.start_le
  have htab : I.pageTables = I.pageDir + 4096 := rfl
  refine ⟨?_, fun k' hk' hne heq => ?_⟩
  · unfold Reached
    rw [tableOf_clear hc]
    exact h.shape.walk_table hlt (Or.inr (by omega))
  · rw [h.shape.tableOf_eq hk' hne] at heq
    have hother := h.shape.used hk' hne k hlt (by omega) hc
    omega

variable (I) in
/-- The directory with every slot from the kernel's first on loaded: what `reserve_block` leaves when
    it has run out. -/
def exhausted (m : Ram) : Ram := fun a =>
  if I.pageDir + 4 * 768 ≤ a ∧ a < I.pageDir + 4096 ∧ (a - I.pageDir) % 4 = 0 ∧ m a = 0 then
    I.tableEntry ((a - I.pageDir) / 4)
  else m a

theorem loads_exhausted (I : KernelImage) (m : Ram) : Loads I m (exhausted I m) := by
  intro a
  unfold exhausted
  split
  · next h =>
      obtain ⟨hlow, hlt, hal, hz⟩ := h
      have ha : a = I.pageDir + 4 * ((a - I.pageDir) / 4) := by omega
      refine Or.inr ⟨(a - I.pageDir) / 4, by omega, by omega, ha, ?_, rfl⟩
      unfold KernelImage.dirAt
      rw [← ha]
      exact hz
  · exact Or.inl rfl

theorem dirAt_exhausted (I : KernelImage) (m : Ram) (hk : 768 ≤ k) (hk' : k < 1024) :
    I.dirAt (exhausted I m) k ≠ 0 := by
  unfold KernelImage.dirAt exhausted
  split
  · exact tableEntry_ne_zero _
  · next h => exact fun hz => h ⟨by omega, by omega, by omega, hz⟩

/-- **The slot behind the image** is the first one clear after the boot. -/
theorem firstClear_of_setup (hm : LeftBySetup I m) (hblock : LeavesBlock I) :
    FirstClear I m (768 + I.blocks) := by
  have hshape := (bootVm_booted hm).1.shape
  obtain ⟨fuel, m₀, info, hb, hp, hrun⟩ := hm
  have hbase : kernelBase = 768 * 4194304 := rfl
  have hsize : pageBlockSize = 4194304 := by decide
  have hpos := I.blocks_pos
  unfold LeavesBlock at hblock
  rw [hbase, hsize] at hblock
  refine ⟨by omega, by omega, ?_, fun i hi hlt => ?_⟩
  · rw [(setupPaging_left hb hp hrun).1 _ (by omega), if_neg (by omega), if_neg (by omega)]
  · have hslot : i = 768 + (i - 768) := by omega
    have hhigh : I.dirAt m (768 + (i - 768)) = I.tableEntry (i - 768) :=
      hshape.high (i - 768) (by omega)
    rw [hslot, hhigh]
    exact tableEntry_ne_zero _

/-- Where the tables are taken no chunk is one of them. -/
theorem not_headerHits_of_taken {s : Managers} (ht : TablesTaken I s.phys) : ¬ HeaderHits I s := by
  intro h
  obtain ⟨k, b, hk, hb, heq⟩ := h
  have hlt := hk.lt
  have htab : I.pageTables = I.pageDir + 4096 := rfl
  have hfree := (mem_freeBlocks.mp (mem_otherBlocks.mp hb.mem).2).2 (32 * b) (Nat.le_refl _)
    (by omega)
  rw [ht (32 * b) (by omega) (by omega)] at hfree
  cases hfree

/-- A bitmap with every frame taken. -/
def fullBitmap : PhysMemAllocator := ⟨fun _ => 0xff, 0⟩

theorem otherBlocks_fullBitmap : otherBlocks fullBitmap = ∅ := by
  refine Finset.eq_empty_iff_forall_notMem.mpr fun b hb => ?_
  have hfree := (mem_freeBlocks.mp (mem_otherBlocks.mp hb).2).2 (32 * b) (Nat.le_refl _) (by omega)
  have htaken : frameBit fullBitmap (32 * b) = true := Bits.getLsbD_full (Nat.mod_lt _ (by decide))
  rw [htaken] at hfree
  cases hfree

theorem otherBlocks_tablesBitmap : 32 ≤ (otherBlocks tablesBitmap).card := by
  have hfree : 33 ≤ (freeBlocks tablesBitmap).card := freeBlocks_of_zero fun i hi => if_neg (by omega)
  have hcard := Finset.pred_card_le_card_erase (s := freeBlocks tablesBitmap) (a := 0)
  unfold otherBlocks
  omega

/-- The managers at the boot of the real image, with bitmap `u`. -/
def atBoot (m : Ram) (u : PhysMemAllocator) : Managers :=
  ⟨bootVm realImage m, u, fun _ => 0, 0, 0, 0, 0⟩

/-- The same after `reserve_block` has run out. -/
def outOfBlocks (m : Ram) : Managers :=
  ⟨(bootVm realImage m).withRam (exhausted realImage m), tablesBitmap, fun _ => 0, 0, 0, 0, 0⟩

theorem hintOk_tablesBitmap : HintOk tablesBitmap := hintOk_iff.mpr (by decide)

theorem hintOk_fullBitmap : HintOk fullBitmap := hintOk_iff.mpr (by decide)

/-- An image whose table for the slot behind it begins a chunk. -/
def chunkImage : KernelImage where
  pageDir := 0x11d000
  stop := 0x51f000
  aligned := by decide
  start_le := by decide
  tables_le := by decide
  stop_lt := by decide

/-- Every frame free, and the search about to start at that chunk. -/
def chunkBitmap : PhysMemAllocator := ⟨fun _ => 0, 0x420⟩

theorem leavesBlock_chunkImage : LeavesBlock chunkImage := by
  unfold LeavesBlock
  decide

theorem hintOk_chunkBitmap : HintOk chunkBitmap := hintOk_iff.mpr (by decide)

theorem otherBlocks_chunkBitmap : 32 ≤ (otherBlocks chunkBitmap).card := by
  have hfree : 33 ≤ (freeBlocks chunkBitmap).card := freeBlocks_of_zero fun i hi => rfl
  have hcard := Finset.pred_card_le_card_erase (s := freeBlocks chunkBitmap) (a := 0)
  unfold otherBlocks
  omega

/-- That chunk is the first `alloc32` hands out. -/
theorem firstBlock_chunkBitmap : FirstBlock chunkBitmap 33 := by
  refine ⟨mem_otherBlocks.mpr ⟨by decide, mem_freeBlocks.mpr ⟨by decide, fun p _ _ => ?_⟩⟩,
    fun b _ => ?_⟩
  · unfold frameBit Bits.bit
    exact BitVec.getLsbD_zero
  · have hturn : turn chunkBitmap 33 = 0 := rfl
    rw [hturn]
    exact Nat.zero_le _

/-- The managers at the boot of that image. -/
def atChunk (m : Ram) : Managers := ⟨bootVm chunkImage m, chunkBitmap, fun _ => 0, 0, 0, 0, 0⟩

theorem headerHits_atChunk (hm : LeftBySetup chunkImage m) : HeaderHits chunkImage (atChunk m) :=
  ⟨770, 33, firstClear_of_setup hm leavesBlock_chunkImage, firstBlock_chunkBitmap, by decide⟩

/-- The theorem at the boot: clean in both builds where memory is left, and not clean without
    asserts where none is. -/
theorem initHeapPagesIn_clean_iff_boot : ∃ m, LeftBySetup realImage m ∧
    (∀ build, CleanInit build (atBoot m tablesBitmap)) ∧ CleanInit .debug (atBoot m fullBitmap) ∧
      ¬ CleanInit .ndebug (atBoot m fullBitmap) := by
  obtain ⟨m, hm⟩ := exists_leftBySetup realImage
  have hb := (bootVm_booted hm).1
  have hclear : HasClear realImage (bootVm realImage m).ram := exists_clear hm leavesBlock_realImage
  refine ⟨m, hm, fun build => ?_, ?_, fun hc => ?_⟩
  · refine (initHeapPagesIn_clean_iff realImage build (atBoot m tablesBitmap) hb.paged
      (freshSlots_of_booted hb) hintOk_tablesBitmap).mpr ?_
    have hmiss : ¬ HeaderHits realImage (atBoot m tablesBitmap) :=
      not_headerHits_of_taken tablesTaken_tablesBitmap
    cases build with
    | debug => exact Or.inl ⟨hclear, fun _ => hmiss⟩
    | ndebug => exact ⟨hclear, otherBlocks_tablesBitmap, hmiss⟩
  · refine (initHeapPagesIn_clean_iff realImage .debug (atBoot m fullBitmap) hb.paged
      (freshSlots_of_booted hb) hintOk_fullBitmap).mpr (Or.inr ?_)
    exact otherBlocks_fullBitmap
  · have hwhen := (initHeapPagesIn_clean_iff realImage .ndebug (atBoot m fullBitmap) hb.paged
      (freshSlots_of_booted hb) hintOk_fullBitmap).mp hc
    have hcard : 32 ≤ (otherBlocks fullBitmap).card := hwhen.2.1
    rw [otherBlocks_fullBitmap, Finset.card_empty] at hcard
    omega

/-- **The outcome is not always clean**: `reserve_block` has run out; all frames are taken and no
    assert looks at the null chunk; or, in either build, chunk 0 is the heap's own table. -/
theorem not_initHeapPagesIn_clean :
    (¬ ∀ (I : KernelImage) (s : Managers), Paged I s.vm → FreshSlots I s.vm.ram → HintOk s.phys →
      CleanInit .debug s) ∧
    (¬ ∀ (I : KernelImage) (s : Managers), Paged I s.vm → FreshSlots I s.vm.ram → HintOk s.phys →
      CleanInit .ndebug s) ∧
    ∀ build, ¬ ∀ (I : KernelImage) (s : Managers), Paged I s.vm → FreshSlots I s.vm.ram →
      HintOk s.phys → HasClear I s.vm.ram → 32 ≤ (otherBlocks s.phys).card →
        CleanInit build s := by
  obtain ⟨m, hm⟩ := exists_leftBySetup realImage
  have hb := (bootVm_booted hm).1
  refine ⟨?_, ?_, fun build => ?_⟩
  · intro hall
    have hl := loads_exhausted realImage m
    have hp : Paged realImage (outOfBlocks m).vm := hb.paged.withRam (hl.tables hb.paged.tables)
    have hram : (outOfBlocks m).vm.ram = exhausted realImage m := Vm.withRam_ram _ _
    have hnone : ¬ HasClear realImage (outOfBlocks m).vm.ram := by
      rw [hram]
      exact not_hasClear_iff.mpr fun i hi hlt => dirAt_exhausted realImage m (by omega) hlt
    have hf : FreshSlots realImage (outOfBlocks m).vm.ram :=
      fun k hlow hlt hc => absurd ⟨k, hlow, hlt, hc⟩ hnone
    have hclean := hall realImage (outOfBlocks m) hp hf hintOk_tablesBitmap
    have hstop := (clean_iff_of_not_hasClear hp hintOk_tablesBitmap hnone).mp hclean
    have hempty : otherBlocks tablesBitmap = ∅ := hstop.2
    have hcard := otherBlocks_tablesBitmap
    rw [hempty, Finset.card_empty] at hcard
    omega
  · intro hall
    have hclear : HasClear realImage (bootVm realImage m).ram :=
      exists_clear hm leavesBlock_realImage
    have hclean := hall realImage (atBoot m fullBitmap) hb.paged (freshSlots_of_booted hb)
      hintOk_fullBitmap
    have hcard := (clean_iff_of_hasClear (s := atBoot m fullBitmap) hb.paged
      (freshSlots_of_booted hb) hintOk_fullBitmap hclear).mp hclean
    have hcard : 32 ≤ (otherBlocks fullBitmap).card := hcard.1 rfl
    rw [otherBlocks_fullBitmap, Finset.card_empty] at hcard
    omega
  · intro hall
    obtain ⟨m, hm⟩ := exists_leftBySetup chunkImage
    have hb := (bootVm_booted hm).1
    have hclear : HasClear chunkImage (bootVm chunkImage m).ram :=
      exists_clear hm leavesBlock_chunkImage
    have hclean := hall chunkImage (atChunk m) hb.paged (freshSlots_of_booted hb)
      hintOk_chunkBitmap hclear otherBlocks_chunkBitmap
    have hmiss := (clean_iff_of_hasClear (s := atChunk m) hb.paged (freshSlots_of_booted hb)
      hintOk_chunkBitmap hclear).mp hclean
    exact hmiss.2 otherBlocks_chunkBitmap (headerHits_atChunk hm)

end OsPlayground.Heap
