/-
  File:      OsPlayground/Heap/Program.lean
  Subject:   PROGRAMS ON THE HEAP: `malloc`, `memset`, stores and loads in any order, from the
             state the boot leaves (heap_allocator.cpp, stdlib.cpp, kernel.cpp).

  A program keeps the answers of its `malloc` calls and uses an object by its number: byte `i` of
  object `r`. It may use the bytes it asked for, of the calls that were not answered null. The
  headers lie between the objects, the pages are scattered over physical memory, and the page
  tables are in the same memory; a program sees none of it:

  * `ProgInv`, `progInv_step` -- the machine simulates the allocator on its headers alone, and the
    bytes written are in the memory between the headers;
  * **`heap_refines`** -- the pointers are those the allocator gives for the requests, whatever
    was written in between; no access faults; nothing outside the heap's frames changes;
  * **`heap_objects`** -- every byte of every object reads back what was last written to it.
-/
import OsPlayground.Heap.Machine

namespace OsPlayground.Heap

open Linked Paging Halting VirtMem PhysMem

/-! ## 1. Programs -/

/-- What a program does; `r` is the number of an object and `i` the place in it. -/
inductive HeapOp where
  | malloc (n : Nat)
  | memset (r i value num : Nat)
  | store (r i b : Nat)
  | load (r i : Nat)
  deriving DecidableEq

/-- The machine, and the answers the program got so far. -/
abbrev Program := HeapMachine × List Region

/-- An operation of the machine, on the heap's. -/
def onMachine {α : Type} (op : Vm → Answer α) (h : HeapMachine) : HeapMachine × Option α :=
  let r := op h.vm
  ({ h with vm := r.1 }, r.2)

/-- The pointer to byte `i` of object `r`. -/
def pointer (given : List Region) (r i : Nat) : Nat := ((given[r]?.map Region.addr).getD 0 + i) %
  0x100000000

/-- One operation, with its result. -/
def heapStep (p : Program) : HeapOp → Program × Option Nat
  | .malloc n =>
    match mallocAt n p.1 with
    | (h, some out) => ((h, p.2 ++ [⟨n, out⟩]), some out)
    | (h, none) => ((h, p.2), none)
  | .memset r i value num =>
    match onMachine (memset (pointer p.2 r i) value num) p.1 with
    | (h, some ()) => ((h, p.2), some (pointer p.2 r i))
    | (h, none) => ((h, p.2), none)
  | .store r i b =>
    match onMachine (storeByteAt (pointer p.2 r i) (b % 256)) p.1 with
    | (h, some ()) => ((h, p.2), some 0)
    | (h, none) => ((h, p.2), none)
  | .load r i =>
    match onMachine (loadByte (pointer p.2 r i)) p.1 with
    | (h, some b) => ((h, p.2), some b)
    | (h, none) => ((h, p.2), none)

/-- The operations and results so far, newest first. -/
abbrev Trace := List (HeapOp × Nat)

/-- The `num` bytes from byte `i` on are bytes of object `r`. -/
def Owned (given : List Region) (r i num : Nat) : Prop :=
  ∃ reg, given[r]? = some reg ∧ reg.addr ≠ 0 ∧ i + num ≤ reg.size

/-- **The program uses its own objects only.** -/
def OwnBytes (_ : Trace) (p : Program) : HeapOp → Prop
  | .malloc _ => True
  | .memset r i _ num => Owned p.2 r i num
  | .store r i _ => Owned p.2 r i 1
  | .load r i => Owned p.2 r i 1

/-- What an operation writes to byte `i` of object `r`. -/
def HeapOp.writes (r i : Nat) : HeapOp → Option Nat
  | .malloc _ => none
  | .memset r' j value num => if r' = r ∧ j ≤ i ∧ i < j + num then some (value % 256) else none
  | .store r' j b => if r' = r ∧ j = i then some (b % 256) else none
  | .load _ _ => none

/-- What was last written to byte `i` of object `r`. -/
def written (r i : Nat) : Trace → Option Nat
  | [] => none
  | (op, _) :: h =>
    match op.writes r i with
    | some v => some v
    | none => written r i h

/-- The sizes asked for, in order. -/
def requests : Trace → List Nat
  | [] => []
  | (.malloc n, _) :: h => requests h ++ [n]
  | _ :: h => requests h

/-- The heap as `kernel_early_main` hands it on: the bitmaps are zero. -/
def bootHeap (s : Managers) : HeapMachine where
  vm := s.vm
  heap := s.heap
  slab
    | .slab8 => s.slab8
    | .slab16 => s.slab16
    | .slab32 => s.slab32
  bitmap _ _ := 0

/-! ## 2. The invariant -/

section Invariant

variable (I : KernelImage) (chunks : Nat → Nat) (m₀ : Ram) (base : Nat) (s₀ : HeapAllocator)

/-- **The machine simulates the allocator** on the requests made, and holds what was written. -/
structure ProgInv (h : Trace) (p : Program) : Prop where
  simulates : ∃ s mem, HeapInv base s ∧ Simulates I chunks m₀ base mem s p.1 ∧
    mallocRun s₀ (requests h) = some (s, p.2) ∧
    ∀ r i v, written r i h = some v → ∃ reg, p.2[r]? = some reg ∧ reg.addr ≠ 0 ∧ i < reg.size ∧
      mem (reg.addr + i) = v

variable {I chunks m₀ base s₀} {s : HeapAllocator} {h : Trace} {p p' : Program}
  {given : List Region} {ns : List Nat} {r r' i j num va n : Nat} {W : Nat → Nat} {mem : Nat → Nat}

/-- The bytes in use are in the heap and in no header. -/
theorem HeapInv.taken (hs : HeapInv base s) {x : Nat} (hx : x ∈ takenBytes s) :
    InHeap base x ∧ ∀ a, s.Node a → x < a ∨ a + 64 ≤ x := by
  constructor
  · rcases hx with hx | hx
    · have hr := hs.slot_range hx
      exact ⟨by omega, by omega⟩
    · have hr := hs.data_lt hx
      exact ⟨by omega, by omega⟩
  · intro a ha
    have hfree := hs.header_free ha
    rw [Set.disjoint_left] at hfree
    by_contra hin
    exact hfree (show x ∈ Set.Ico a (a + 64) from ⟨by omega, by omega⟩) hx

/-- What a run of requests hands out: the bytes of the objects are in use, and no two objects
    share one. -/
theorem mallocRun_given (hb : HeapBase base) (hs₀ : HeapInv base s₀)
    (hrun : mallocRun s₀ ns = some (s, given)) :
    (∀ reg ∈ given, reg.bytes ⊆ takenBytes s) ∧
      given.Pairwise fun reg reg' => Disjoint reg.bytes reg'.bytes := by
  obtain ⟨hpw, hgiven, _⟩ := Exec.run_hands (HeapInv base)
    (fun u n u' r hu hstep => by
      obtain ⟨hsize, hserves⟩ := serves_of_step hb hu hstep
      refine ⟨hserves.inv, ?_⟩
      have hreg := hserves.region
      rw [← hsize] at hreg
      exact hreg) hs₀ hrun
  exact ⟨fun reg hreg => (hgiven reg hreg).2, hpw⟩

/-- Bytes of two objects, or two bytes of one, have different addresses. -/
theorem address_inj (hpw : given.Pairwise fun reg reg' => Disjoint reg.bytes reg'.bytes)
    {reg reg' : Region} (hr : given[r]? = some reg) (hr' : given[r']? = some reg')
    (h0 : reg.addr ≠ 0) (h0' : reg'.addr ≠ 0) (hi : i < reg.size) (hj : j < reg'.size)
    (heq : reg.addr + i = reg'.addr + j) : r = r' ∧ i = j := by
  obtain ⟨hlt, hget⟩ := List.getElem?_eq_some_iff.mp hr
  obtain ⟨hlt', hget'⟩ := List.getElem?_eq_some_iff.mp hr'
  rw [List.pairwise_iff_getElem] at hpw
  have hbyte : reg.addr + i ∈ reg.bytes := ⟨h0, by omega, by omega⟩
  have hbyte' : reg.addr + i ∈ reg'.bytes := ⟨h0', by omega, by omega⟩
  rcases Nat.lt_trichotomy r r' with hlt₁ | rfl | hlt₁
  · have hdis := hpw r r' hlt hlt' hlt₁
    rw [hget, hget'] at hdis
    exact absurd hbyte' (Set.disjoint_left.mp hdis hbyte)
  · obtain rfl : reg = reg' := hget.symm.trans hget'
    exact ⟨rfl, by omega⟩
  · have hdis := hpw r' r hlt' hlt hlt₁
    rw [hget, hget'] at hdis
    exact absurd hbyte (Set.disjoint_left.mp hdis hbyte')

/-- **A range of bytes in use written**: the headers stay, and so do the other bytes. -/
theorem Heads.fill (hs : HeapInv base s) (hW : Heads base mem s W) {b : Nat} (hb : b < 256)
    (htaken : ∀ x, va ≤ x → x < va + n → x ∈ takenBytes s) :
    Heads base (fun x => if va ≤ x ∧ x < va + n then b else mem x) s (Bytes.fill W va b n) := by
  refine ⟨fun a ha => ?_, fun x hx hout => ?_⟩
  · have hunit := (hs.headerIn ha).1
    rw [headerOf_congr (W := W) (by omega) fun y hy hin => ?_]
    · exact hW.head a ha
    · unfold InHeader at hin
      -- a byte of the range is in no header
      refine Bytes.fill_word W n hy fun z h1 h2 => ?_
      have hmem := (hs.taken (htaken z h1 h2)).2 a ha
      omega
  · rw [Bytes.byteAt_fill W va hb n x, hW.data x hx hout]

/-- The pointer to an owned byte, without the wrap; the range is in the heap. -/
structure Reaches (s : HeapAllocator) (given : List Region) (r i num va : Nat) : Prop where
  eq : pointer given r i = va
  taken : ∀ x, va ≤ x → x < va + num → x ∈ takenBytes s
  region : ∃ reg, given[r]? = some reg ∧ reg.addr ≠ 0 ∧ i + num ≤ reg.size ∧ va = reg.addr + i

theorem reaches_of_owned (hb : HeapBase base) (hs₀ : HeapInv base s₀)
    (hrun : mallocRun s₀ ns = some (s, given)) (hown : Owned given r i num) (hnum : 0 < num) :
    ∃ va, Reaches s given r i num va := by
  obtain ⟨reg, hr, h0, hsize⟩ := hown
  obtain ⟨hgiven, _⟩ := mallocRun_given hb hs₀ hrun
  have hs := mallocRun_inv hb hs₀ hrun
  have hbytes := hgiven reg (List.mem_of_getElem? hr)
  have htaken : ∀ x, reg.addr + i ≤ x → x < reg.addr + i + num → x ∈ takenBytes s :=
    fun x h1 h2 => hbytes ⟨h0, by omega, by omega⟩
  obtain ⟨_, _, hle⟩ := hb.bounds
  have hheap := (hs.taken (htaken _ (Nat.le_refl _) (by omega))).1
  refine ⟨reg.addr + i, ?_, htaken, reg, hr, h0, hsize, rfl⟩
  unfold pointer
  rw [hr, Option.map_some, Option.getD_some]
  exact Nat.mod_eq_of_lt (by have := hheap.2; omega)

/-! ## 3. The steps -/

/-- A store of one byte is a `memset` of one byte. -/
theorem memsetLoop_one (b va : Nat) (vm : Vm) : memsetLoop b 1 va vm = storeByteAt va b vm := by
  unfold memsetLoop memsetLoop
  generalize storeByteAt va b vm = r
  obtain ⟨vm', o⟩ := r
  cases o with
  | none => rfl
  | some u => rfl

/-- **Bytes written.** -/
theorem progInv_write (hb : HeapBase base) (hs₀ : HeapInv base s₀)
    (hI : ProgInv I chunks m₀ base s₀ h p) (hown : Owned p.2 r i num) {b : Nat} (hb256 : b < 256)
    (op : HeapOp) (hreq : ∀ out, requests ((op, out) :: h) = requests h)
    (hwrites : ∀ r' i', op.writes r' i' =
      if r = r' ∧ i ≤ i' ∧ i' < i + num then some b else none) :
    ∃ vm', memsetLoop b num (pointer p.2 r i) p.1.vm = (vm', some ()) ∧
      ∀ out, ProgInv I chunks m₀ base s₀ ((op, out) :: h) ({ p.1 with vm := vm' }, p.2) := by
  obtain ⟨s, mem, hs, ⟨hheap, hslab, hbitmap, W, hW, hheads⟩, hrun, hwritten⟩ := hI.simulates
  by_cases hnum : num = 0
  · subst hnum
    refine ⟨p.1.vm, rfl, fun out => ⟨s, mem, hs, ⟨hheap, hslab, hbitmap, W, hW, hheads⟩, ?_,
      fun r' i' v hv => hwritten r' i' v ?_⟩⟩
    · rw [hreq]
      exact hrun
    · have hnone : op.writes r' i' = none := by
        rw [hwrites]
        exact if_neg (by omega)
      unfold written at hv
      rw [hnone] at hv
      exact hv
  · obtain ⟨va, heq, htaken, reg, hr, h0, hsize, hva⟩ :=
      reaches_of_owned hb hs₀ hrun hown (by omega)
    have hlow := (hs.taken (htaken va (Nat.le_refl va) (by omega))).1
    have hhigh := (hs.taken (htaken (va + num - 1) (by omega) (by omega))).1
    obtain ⟨vm', _, hloop, hW'⟩ :=
      hW.memsetLoop (b := b) (n := num) hlow.1 (by have := hhigh.2; omega)
    rw [heq]
    refine ⟨vm', hloop, fun out => ⟨s, _, hs, ⟨hheap, hslab, hbitmap, _, hW',
      hheads.fill hs hb256 htaken⟩, ?_, fun r' i' v hv => ?_⟩⟩
    · rw [hreq]
      exact hrun
    · obtain ⟨_, hpw⟩ := mallocRun_given hb hs₀ hrun
      unfold written at hv
      rw [hwrites] at hv
      by_cases hhit : r = r' ∧ i ≤ i' ∧ i' < i + num
      · obtain ⟨rfl, h1, h2⟩ := hhit
        rw [if_pos ⟨rfl, h1, h2⟩] at hv
        cases hv
        exact ⟨reg, hr, h0, by omega, if_pos (by omega)⟩
      · rw [if_neg hhit] at hv
        obtain ⟨reg', hr', h0', hi', hmem⟩ := hwritten r' i' v hv
        refine ⟨reg', hr', h0', hi', ?_⟩
        rw [if_neg ?_, hmem]
        -- a byte of the range is a byte of this object
        intro hin
        have hplace : reg.addr + (reg'.addr + i' - reg.addr) = reg'.addr + i' := by omega
        obtain ⟨rfl, he⟩ := address_inj hpw hr hr' h0 h0' (by omega) hi' hplace
        exact hhit ⟨rfl, by omega, by omega⟩

/-- **A byte read**: what was written there last, if anything was. -/
theorem ProgInv.load (hb : HeapBase base) (hs₀ : HeapInv base s₀)
    (hI : ProgInv I chunks m₀ base s₀ h p) (hown : Owned p.2 r i 1) :
    ∃ b, heapStep p (.load r i) = (p, some b) ∧ ∀ v, written r i h = some v → b = v := by
  obtain ⟨s, mem, hs, ⟨hheap, hslab, hbitmap, W, hW, hheads⟩, hrun, hwritten⟩ := hI.simulates
  obtain ⟨va, heq, htaken, reg, hr, h0, hsize, hva⟩ :=
    reaches_of_owned hb hs₀ hrun hown (by omega)
  obtain ⟨hin, hfree⟩ := hs.taken (htaken va (Nat.le_refl va) (by omega))
  have hbyte : Bytes.byteAt W va = mem va := hheads.data va hin fun a ha => by
    have := hfree a ha
    unfold InHeader
    omega
  refine ⟨mem va, ?_, fun v hv => ?_⟩
  · unfold heapStep onMachine
    dsimp only
    rw [heq, hW.loadByte hin, hbyte]
  · obtain ⟨reg', hr', _, _, hmem⟩ := hwritten r i v hv
    rw [hr] at hr'
    cases hr'
    rw [hva]
    exact hmem

/-- **A request.** -/
theorem progInv_malloc (hb : HeapBase base) (hI : ProgInv I chunks m₀ base s₀ h p) (n : Nat) :
    ∃ p' out, heapStep p (.malloc n) = (p', some out) ∧
      ProgInv I chunks m₀ base s₀ ((.malloc n, out) :: h) p' := by
  obtain ⟨s, mem, hs, hsim, hrun, hwritten⟩ := hI.simulates
  obtain ⟨s', out, hstep, _⟩ := malloc_serves hb hs n
  obtain ⟨hs', h', hstep', hsim'⟩ := mallocAt_refines hb n s p.1 s' out hs hsim hstep
  refine ⟨(h', p.2 ++ [⟨n, out⟩]), out, ?_, s', mem, hs', hsim', ?_, fun r i v hv => ?_⟩
  · unfold heapStep
    dsimp only
    rw [hstep']
  · unfold requests mallocRun
    refine Exec.run_append.mpr ⟨s, p.2, [⟨n, out⟩], hrun, ?_, rfl⟩
    refine Exec.run_cons.mpr ⟨s', ⟨n, out⟩, [], ?_, rfl, rfl⟩
    unfold mallocStep
    rw [hstep]
    rfl
  · obtain ⟨reg, hr, hrest⟩ := hwritten r i v hv
    refine ⟨reg, ?_, hrest⟩
    rw [List.getElem?_append_left (List.getElem?_eq_some_iff.mp hr).1]
    exact hr

/-- **Every operation on the program's own bytes is done**, and keeps the invariant. -/
theorem progInv_step (hb : HeapBase base) (hs₀ : HeapInv base s₀)
    (hI : ProgInv I chunks m₀ base s₀ h p) {op : HeapOp} (hown : OwnBytes h p op) :
    ∃ p' out, heapStep p op = (p', some out) ∧
      ProgInv I chunks m₀ base s₀ ((op, out) :: h) p' := by
  cases op with
  | malloc n => exact progInv_malloc hb hI n
  | memset r i value num =>
      obtain ⟨vm', hloop, hnext⟩ := progInv_write hb hs₀ hI hown (Nat.mod_lt value (by decide))
        (.memset r i value num) (fun _ => rfl) fun _ _ => rfl
      refine ⟨_, pointer p.2 r i, ?_, hnext _⟩
      unfold heapStep onMachine memset
      dsimp only
      rw [hloop]
  | store r i b =>
      obtain ⟨vm', hloop, hnext⟩ := progInv_write hb hs₀ hI hown (Nat.mod_lt b (by decide))
        (.store r i b) (fun _ => rfl) fun r' i' => if_congr (by omega) rfl rfl
      rw [memsetLoop_one] at hloop
      refine ⟨_, 0, ?_, hnext _⟩
      unfold heapStep onMachine
      dsimp only
      rw [hloop]
  | load r i =>
      obtain ⟨b, hstep, _⟩ := hI.load hb hs₀ hown
      exact ⟨p, b, hstep, ⟨hI.simulates⟩⟩

end Invariant

/-! ## 4. From the boot -/

/-- The heap is built (`kernel_early_main`), and the identity mapping cleared (`kernel_main`). -/
def heapBoot (s : Managers) : Managers × Option Unit :=
  andThen (initHeapPages s) fun s _ => onVm clearIdentMap s

section Boot

variable {I : KernelImage} {u u' u₀ : PhysMemAllocator} {m₁ : Ram} {base a d : Nat} {s : Managers}
  {vm : Vm} {chunks : Nat → Nat}

/-- No byte of a chunk is in a table, where the tables are taken. -/
theorem Chunk.apart_tables (h : Chunk u u' a) (ht : TablesTaken I u) (hd : d < 131072) :
    I.Outside (a + d) := by
  have hal := h.aligned
  have haligned := I.aligned
  unfold KernelImage.Outside
  by_contra hin
  have hfree := h.free ((a + d) / 4096) (by omega) (by omega)
  rw [ht ((a + d) / 4096) (by omega) (by omega)] at hfree
  cases hfree

/-- **The mapping `init_heap_pages` builds is a window.** -/
theorem MapInv.window (hb : Block I m₁ base) (ht : TablesTaken I u₀)
    (hI : MapInv I u₀ m₁ base 32 1024 s) : Window I base s.physHeapChunks s.vm :=
  ⟨hI.pages.booted, hI.pages.mapped, heapBase_of_block hb,
    fun i hi => (hI.chunks.chunk i hi).aligned, hI.chunks.distinct,
    fun i hi _ hd => (hI.chunks.chunk i hi).apart_tables ht hd⟩

/-- **The window outlives the identity mapping.** -/
theorem Window.clear (h : Window I base chunks vm) :
    Window I base chunks (vm.withRam (I.setDir vm.ram 0 0)) := by
  obtain ⟨hal, hpos, hle⟩ := h.heapBase.bounds
  have hshape := h.booted.shape
  refine ⟨h.booted.withRam hshape.clear, fun k hk => ?_, h.heapBase, h.aligned, h.distinct,
    h.outside⟩
  have hslot : (base + 4096 * k) / 4194304 ≠ 0 := by omega
  rw [← h.mapped k hk]
  exact hshape.walk_same (by omega) (I.dirAt_setDir_ne _ hslot)
    fun _ => I.entryAt_setDir _ (by decide)

/-- A word of the heap, read before the identity mapping is cleared. -/
theorem Window.wordAt (h : Window I base s.physHeapChunks s.vm) (ha : InHeap base a) :
    s.wordAt a = (I.setDir s.vm.ram 0 0) (place base s.physHeapChunks a) := by
  unfold Managers.wordAt
  rw [load_of_walk (h.walk ha), Option.getD_some]
  exact (I.setDir_outside _ (by decide) (h.place_outside ha)).symm

/-- **The start of every program.** -/
theorem progInv_boot (hbooted : Booted I s.vm)
    (hclear : ∃ k, 769 ≤ k ∧ k < 1024 ∧ I.dirAt s.vm.ram k = 0) (hhint : HintOk s.phys)
    (hfree : 33 ≤ (freeBlocks s.phys).card) (htaken : TablesTaken I s.phys) :
    Post (fun s₁ _ => HeapBase s₁.heap ∧ ∃ s₀, Fresh s₁.heap s₀ ∧
      ProgInv I s₁.physHeapChunks s₁.vm.ram s₁.heap s₀ [] (bootHeap s₁, [])) (heapBoot s) := by
  obtain ⟨vm, base, _, hb, _, hloops⟩ := mapHeap_spec hbooted hclear hhint hfree
  have hwindow : Post (fun s' _ => MapInv I s.phys vm.ram base 32 1024 s') (initHeapPages s) :=
    hloops.andThen fun s₁ _ hI => (writeHeader_spec hb htaken hI).imp fun s' _ h => h.1
  obtain ⟨s', _, hrun, hI⟩ := hwindow
  have hfresh := (initHeapPages_fresh hbooted hclear hhint hfree htaken
    (fun _ _ => rfl) (fun _ _ => rfl) (fun _ _ => rfl) :
      Post (fun s' _ => HeapBase s'.heap ∧
        Fresh s'.heap (s'.heapAllocator (fun _ => 0) (fun _ => 0) fun _ => 0)) _).of_eq hrun
  obtain ⟨hbase, hfresh⟩ := hfresh
  have hw := hI.window hb htaken
  have hclearRun := hI.pages.booted.clearIdentMap_eq
  rw [← hI.heap] at hw
  unfold heapBoot
  rw [hrun, andThen_some]
  unfold onVm
  rw [hclearRun]
  refine .intro ⟨hbase, _, hfresh, ⟨_, _, hfresh.inv hbase,
    ⟨rfl, fun k => by cases k <;> rfl, fun k => by cases k <;> rfl, _,
      ⟨hw.clear, fun _ _ => rfl, fun _ _ => rfl⟩, fun a ha => ?_, fun _ _ _ => rfl⟩, rfl,
    fun _ _ _ hv => absurd hv nofun⟩⟩
  -- the one header is read as it was before the identity mapping was cleared
  have hmem := (node_iff rfl (hfresh.list hbase)).mp ha
  obtain rfl := List.mem_singleton.mp hmem
  obtain ⟨hal, _, _⟩ := hbase.bounds
  have hin : ∀ d < 64, InHeap s'.heap (s'.heap + d) := fun d hd => ⟨by omega, by omega⟩
  have h0 := hw.wordAt (hin 0 (by decide))
  have h4 := hw.wordAt (hin 4 (by decide))
  have h8 := hw.wordAt (hin 8 (by decide))
  have hblock : (s'.heapAllocator (fun _ => 0) (fun _ => 0) fun _ => 0).blocks s'.heap =
      ⟨s'.wordAt s'.heap, s'.wordAt (s'.heap + 4),
        decide (s'.wordAt (s'.heap + 8) % 256 ≠ 0)⟩ := rfl
  refine Eq.trans ?_ hblock.symm
  rw [Nat.add_zero] at h0
  rw [h0, h4, h8]
  exact headerOf_words (show s'.heap % 4 = 0 by omega)

/-- Every run keeps the invariant. -/
theorem progInv_run {m₀ : Ram} {s₀ : HeapAllocator} {h : Trace} {p p₀ : Program}
    (hb : HeapBase base) (hs₀ : HeapInv base s₀) (hI : ProgInv I chunks m₀ base s₀ [] p₀)
    (hr : Run heapStep OwnBytes p₀ h p) : ProgInv I chunks m₀ base s₀ h p :=
  hr.inv (ProgInv I chunks m₀ base s₀) hI fun h p op p' out hI hown hstep => by
    obtain ⟨q, out', hstep', hnext⟩ := progInv_step hb hs₀ hI hown
    cases hstep.symm.trans hstep'
    exact hnext

/-- The state `init_page_dir` leaves is one to build the heap from. -/
theorem booted_of_setup {m : Ram} (hm : LeftBySetup I m) (hvm : s.vm = bootVm I m)
    (hblock : LeavesBlock I) :
    Booted I s.vm ∧ ∃ k, 769 ≤ k ∧ k < 1024 ∧ I.dirAt s.vm.ram k = 0 := by
  rw [hvm]
  exact ⟨(bootVm_booted hm).1, exists_clear hm hblock⟩

/-- **Objects do not disturb each other.** In every run of a program that uses its own bytes only,
    a byte of an object reads back what was last written to that byte of that object, whatever
    was allocated and whatever was written to other objects since. -/
theorem heap_objects (I : KernelImage) (m : Ram) (s : Managers) (hm : LeftBySetup I m)
    (hvm : s.vm = bootVm I m) (hblock : LeavesBlock I) (hhint : HintOk s.phys)
    (hfree : 33 ≤ (freeBlocks s.phys).card) (htaken : TablesTaken I s.phys) :
    Post (fun s₁ _ => ∀ h p, Run heapStep OwnBytes (bootHeap s₁, []) h p →
      ∀ r i v, written r i h = some v → heapStep p (.load r i) = (p, some v)) (heapBoot s) := by
  obtain ⟨hbooted, hclear⟩ := booted_of_setup hm hvm hblock
  refine (progInv_boot hbooted hclear hhint hfree htaken).imp fun s₁ _ hboot => ?_
  obtain ⟨hb, s₀, hfresh, hstart⟩ := hboot
  intro h p hr r i v hv
  have hI := progInv_run hb (hfresh.inv hb) hstart hr
  have hown : Owned p.2 r i 1 := by
    obtain ⟨_, _, _, _, _, hwritten⟩ := hI.simulates
    obtain ⟨reg, hr', h0, hi, _⟩ := hwritten r i v hv
    exact ⟨reg, hr', h0, by omega⟩
  obtain ⟨b, hstep, hb'⟩ := hI.load hb (hfresh.inv hb) hown
  rw [hstep, hb' v hv]

/-- The same heap. -/
theorem heap_objects_tablesBitmap : ∃ m, LeftBySetup realImage m ∧
    Post (fun s₁ _ => ∀ h p, Run heapStep OwnBytes (bootHeap s₁, []) h p →
      ∀ r i v, written r i h = some v → heapStep p (.load r i) = (p, some v))
      (heapBoot ⟨bootVm realImage m, tablesBitmap, fun _ => 0, 0, 0, 0, 0⟩) := by
  obtain ⟨m, hm⟩ := exists_leftBySetup realImage
  have hhint : HintOk tablesBitmap := hintOk_iff.mpr (by decide)
  exact ⟨m, hm, heap_objects realImage m _ hm rfl leavesBlock_realImage hhint (freeBlocks_of_zero fun i hi => if_neg (by omega))
    tablesTaken_tablesBitmap⟩

end Boot

end OsPlayground.Heap
