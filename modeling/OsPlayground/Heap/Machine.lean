/-
  File:      OsPlayground/Heap/Machine.lean
  Subject:   `malloc` ON THE MACHINE (heap_allocator.cpp): the block headers are read and written
             word by word through the page tables, in the memory the blocks are handed out of.

  The pointers and the bitmaps are fields of the allocator's object, which is part of the kernel
  image. What `block_malloc` does on the machine is compared with what it does on the headers
  alone (`blockMalloc`), pass by pass:

  * `headerOf`, `Heads` -- the header at an address of a flat memory; the memory holds the headers
    of an allocator's block list, and elsewhere bytes of its own;
  * `fitsAt_eq`, `takeBlockAt_whole`, `takeBlockAt_cut` -- the test and the two ways to take a
    block;
  * `blockMallocAt_refines`, **`mallocAt_refines`** -- the calls answer the same, and every byte
    that is in no header keeps its value.
-/
import OsPlayground.Heap.Safety
import OsPlayground.Heap.Window

namespace OsPlayground.Heap

open Linked Paging Halting VirtMem PhysMem

/-! ## 1. The calls on the machine -/

/-- The machine, and `HeapAllocator` without its headers. -/
structure HeapMachine where
  vm : Vm
  heap : Nat
  slab : SlabKind → Nat
  bitmap : SlabKind → Nat → BitVec 8

/-- `!node->allocated && node->size - sizeof(HeapBlock) >= size`. -/
def fitsAt (node size : Nat) (vm : Vm) : Answer Bool :=
  andThen (loadByte (node + 8) vm) fun vm allocated =>
    if allocated ≠ 0 then (vm, some false)
    else andThen (loadWord (node + 4) vm) fun vm blockSize =>
      (vm, some (decide (size ≤ usub blockSize sizeofHeapBlock)))

/-- What is left of a block becomes a block of its own. -/
def splitAt (node left : Nat) (vm : Vm) : Answer Unit :=
  andThen (loadWord (node + 4) vm) fun vm blockSize =>
    andThen (storeWord (node + 4) (usub blockSize left) vm) fun vm _ =>
      andThen (loadWord (node + 4) vm) fun vm blockSize =>
        let next := (node + blockSize) % 0x100000000
        andThen (loadWord node vm) fun vm nodeNext =>
          andThen (storeWord next nodeNext vm) fun vm _ =>
            andThen (storeWord (next + 4) left vm) fun vm _ =>
              andThen (storeByteAt (next + 8) 0 vm) fun vm _ => storeWord node next vm

/-- The body of the loop's `if`. -/
def takeBlockAt (node size : Nat) (vm : Vm) : Answer Nat :=
  andThen (storeByteAt (node + 8) 1 vm) fun vm _ =>
    andThen (loadWord (node + 4) vm) fun vm blockSize =>
      let left := usub (usub blockSize sizeofHeapBlock) size
      let left := left - left % heapBlockAlign
      andThen (if 0 < left then splitAt node left vm else (vm, some ())) fun vm _ =>
        (vm, some ((node + sizeofHeapBlock) % 0x100000000))

/-- One pass of `block_malloc`. -/
def blockStepAt (size : Nat) : Nat × Vm → (Nat × Vm) ⊕ Answer Nat
  | (node, vm) =>
    if node ≠ 0 then
      match fitsAt node size vm with
      | (vm, none) => .inr (vm, none)
      | (vm, some true) => .inr (takeBlockAt node size vm)
      | (vm, some false) =>
        match loadWord node vm with
        | (vm, none) => .inr (vm, none)
        | (vm, some next) => .inl (next, vm)
    else .inr (vm, some 0)

/-- `block_malloc`, with fuel for the headers the heap has room for. -/
def blockMallocAt (size : Nat) (h : HeapMachine) : HeapMachine × Option Nat :=
  match FuelLoop.run (blockStepAt size) (heapPages * pageSize / heapBlockAlign + 1)
      (h.heap, h.vm) with
  | none => (h, none)
  | some (vm, out) => ({ h with vm := vm }, out)

/-- `slab8_malloc`, `slab16_malloc` and `slab32_malloc`. -/
def slabMallocAt (k : SlabKind) (h : HeapMachine) : HeapMachine × Option Nat :=
  match slabMalloc k.slot (h.slab k) (h.bitmap k) with
  | none => (h, none)
  | some (bm, out) => ({ h with bitmap := Function.update h.bitmap k bm }, some out)

/-- `if (c) { out = f(); if (out) return out; }`, followed by `rest`. -/
def tryFirstAt (c : Prop) [Decidable c] (f rest : HeapMachine → HeapMachine × Option Nat)
    (h : HeapMachine) : HeapMachine × Option Nat :=
  if c then andThen (f h) fun h out => if out ≠ 0 then (h, some out) else rest h
  else rest h

/-- `malloc`. -/
def mallocAt (size : Nat) (h : HeapMachine) : HeapMachine × Option Nat :=
  if heapPages * pageSize < size then (h, some 0)
  else
    tryFirstAt (size ≤ 8) (slabMallocAt .slab8)
      (tryFirstAt (size ≤ 16) (slabMallocAt .slab16)
        (tryFirstAt (size ≤ 32) (slabMallocAt .slab32) (blockMallocAt size))) h

/-! ## 2. Headers in a flat memory -/

/-- The header at address `a`. -/
def headerOf (W : Nat → Nat) (a : Nat) : HeapBlock :=
  ⟨W a, W (a + 4), decide (Bytes.byteAt W (a + 8) ≠ 0)⟩

/-- The header at an aligned address, from its three words. -/
theorem headerOf_words {W : Nat → Nat} {a : Nat} (ha : a % 4 = 0) :
    headerOf W a = ⟨W a, W (a + 4), decide (W (a + 8) % 256 ≠ 0)⟩ := by
  have hlane : (a + 8) % 4 = 0 := by omega
  unfold headerOf Bytes.byteAt
  rw [Bytes.wordOf_aligned hlane, hlane]
  simp [Bytes.lane, Bytes.weight]

/-- Byte `x` is in the header at `a`: its two words and its byte, with the padding. -/
def InHeader (a x : Nat) : Prop := a ≤ x ∧ x < a + 12

/-- Only the words of the header at `a` differ. -/
def OnlyHeader (a : Nat) (W W' : Nat → Nat) : Prop :=
  ∀ x, x % 4 = 0 → ¬ InHeader a x → W' x = W x

variable {a x n size k left base : Nat} {W W' : Nat → Nat}

theorem OnlyHeader.byteAt (h : OnlyHeader a W W') (ha : a % 4 = 0) (hx : ¬ InHeader a x) :
    Bytes.byteAt W' x = Bytes.byteAt W x := by
  refine Bytes.byteAt_congr (h _ (Bytes.wordOf_mod x) ?_)
  unfold InHeader Bytes.wordOf at *
  omega

/-- A header at another place, 64 bytes off or more, stays. -/
theorem OnlyHeader.headerOf (h : OnlyHeader a W W') (ha : a % 64 = 0) (hx : x % 64 = 0)
    (hne : x ≠ a) : headerOf W' x = headerOf W x := by
  have h0 : W' x = W x := h x (by omega) (by unfold InHeader; omega)
  have h4 : W' (x + 4) = W (x + 4) := h _ (by omega) (by unfold InHeader; omega)
  have h8 : Bytes.byteAt W' (x + 8) = Bytes.byteAt W (x + 8) :=
    h.byteAt (by omega) (by unfold InHeader; omega)
  unfold Heap.headerOf
  rw [h0, h4, h8]

/-- The flag of a header set. -/
def setFlag (W : Nat → Nat) (a b : Nat) : Nat → Nat := Bytes.setByte W (a + 8) b

theorem onlyHeader_setFlag (W : Nat → Nat) (ha : a % 4 = 0) (b : Nat) :
    OnlyHeader a W (setFlag W a b) := by
  intro x hx hout
  refine Bytes.setByte_word ?_ hx
  unfold InHeader at hout
  omega

/-- **A block taken whole.** -/
theorem headerOf_setFlag (W : Nat → Nat) (ha : a % 4 = 0) :
    headerOf (setFlag W a 1) a = { headerOf W a with allocated := true } := by
  unfold headerOf setFlag
  rw [Bytes.setByte_word (by omega) ha, Bytes.setByte_word (by omega) (by omega),
    Bytes.byteAt_setByte_self _ _ (by decide)]
  rfl

/-- The new header behind the part taken. -/
def newHeader (W : Nat → Nat) (a next left : Nat) : Nat → Nat :=
  setFlag (Function.update (Function.update W a next) (a + 4) left) a 0

theorem headerOf_newHeader (W : Nat → Nat) (ha : a % 4 = 0) (next left : Nat) :
    headerOf (newHeader W a next left) a = ⟨next, left, false⟩ := by
  unfold headerOf newHeader setFlag
  rw [Bytes.setByte_word (by omega) ha, Bytes.setByte_word (by omega) (by omega),
    Bytes.byteAt_setByte_self _ _ (by decide), Function.update_of_ne (by omega),
    Function.update_self, Function.update_self]
  rfl

theorem onlyHeader_newHeader (W : Nat → Nat) (ha : a % 4 = 0) (next left : Nat) :
    OnlyHeader a W (newHeader W a next left) := by
  intro x hx hout
  unfold newHeader
  rw [onlyHeader_setFlag _ ha 0 x hx hout]
  unfold InHeader at hout
  rw [Function.update_of_ne (by omega), Function.update_of_ne (by omega)]

/-- **A block cut**: the memory after the flag, the size and the pointer of `a` and the header at
    `a + k` are written, in the order of the code. -/
def cutWords (W : Nat → Nat) (a k left : Nat) : Nat → Nat :=
  let W₁ := Function.update (setFlag W a 1) (a + 4) k
  Function.update (newHeader W₁ (a + k) (W₁ a) left) a (a + k)

/-- A word of the header written. -/
theorem onlyHeader_update (W : Nat → Nat) (hx : InHeader a x) (w : Nat) :
    OnlyHeader a W (Function.update W x w) := by
  intro y _ hout
  refine Function.update_of_ne ?_ _ _
  rintro rfl
  exact hout hx

/-- **The two headers after the cut.** -/
theorem headerOf_cutWords (W : Nat → Nat) (ha : a % 64 = 0) (hk : 64 ≤ k) (hk64 : k % 64 = 0)
    (left : Nat) :
    headerOf (cutWords W a k left) a = ⟨a + k, k, true⟩ ∧
      headerOf (cutWords W a k left) (a + k) = ⟨(headerOf W a).next, left, false⟩ := by
  unfold cutWords
  dsimp only
  generalize hW₁ : Function.update (setFlag W a 1) (a + 4) k = W₁
  have hnext : W₁ a = W a := by
    rw [← hW₁, Function.update_of_ne (by omega)]
    exact Bytes.setByte_word (by omega) (by omega)
  have hsize : W₁ (a + 4) = k := by
    rw [← hW₁, Function.update_self]
  have hflag : Bytes.byteAt W₁ (a + 8) = 1 := by
    rw [← hW₁, Bytes.byteAt_update (by omega) (by omega)]
    exact Bytes.byteAt_setByte_self _ _ (by decide)
  have hnew := onlyHeader_newHeader W₁ (show (a + k) % 4 = 0 by omega) (W₁ a) left
  constructor
  · have h4 : newHeader W₁ (a + k) (W₁ a) left (a + 4) = W₁ (a + 4) :=
      hnew _ (by omega) (by unfold InHeader; omega)
    have h8 : Bytes.byteAt (newHeader W₁ (a + k) (W₁ a) left) (a + 8) = Bytes.byteAt W₁ (a + 8) :=
      hnew.byteAt (by omega) (by unfold InHeader; omega)
    unfold headerOf
    rw [Function.update_self, Function.update_of_ne (by omega),
      Bytes.byteAt_update (by omega) (by omega), h4, h8, hsize, hflag]
    rfl
  · have hin : InHeader a a := ⟨Nat.le_refl a, by omega⟩
    rw [(onlyHeader_update _ hin (a + k)).headerOf ha (by omega) (by omega),
      headerOf_newHeader _ (by omega), hnext]
    rfl

/-- **What the cut leaves alone.** -/
theorem cutWords_frame (W : Nat → Nat) (ha : a % 4 = 0) (hk : k % 4 = 0) (left : Nat)
    (hx : x % 4 = 0) (hout : ¬ InHeader a x) (hout' : ¬ InHeader (a + k) x) :
    cutWords W a k left x = W x := by
  have h0 : InHeader a a := ⟨Nat.le_refl a, by omega⟩
  have h4 : InHeader a (a + 4) := ⟨by omega, by omega⟩
  unfold cutWords
  rw [onlyHeader_update _ h0 _ x hx hout, onlyHeader_newHeader _ (by omega) _ _ x hx hout',
    onlyHeader_update _ h4 _ x hx hout, onlyHeader_setFlag _ ha _ x hx hout]

/-- The memory after the block at `a` is taken for `size` bytes. -/
def takeWords (W : Nat → Nat) (a size : Nat) : Nat → Nat :=
  let left := leftover (headerOf W a) size
  if 0 < left then cutWords W a (usub (W (a + 4)) left) left else setFlag W a 1

/-! ## 3. Taking a block -/

section Access

variable {I : KernelImage} {chunks : Nat → Nat} {m₀ : Ram} {vm : Vm}

/-- The header at `a` lies in the block list's part of the heap. -/
def HeaderIn (base a : Nat) : Prop := a % 64 = 0 ∧ base ≤ a ∧ a + 64 ≤ base + 118784

theorem HeaderIn.word (h : HeaderIn base a) {d : Nat} (hd : d < 64) : InHeap base (a + d) := by
  obtain ⟨_, hlow, hhigh⟩ := h
  exact ⟨by omega, by omega⟩

/-- **The test of a header.** -/
theorem fitsAt_eq (h : Holds I base chunks m₀ W vm) (ha : HeaderIn base a) (size : Nat) :
    fitsAt a size vm = (vm, some (decide (Fits (headerOf W a) size))) := by
  unfold fitsAt
  rw [h.loadByte (ha.word (by decide)), andThen_some]
  by_cases hfree : Bytes.byteAt W (a + 8) = 0
  · rw [if_neg (not_not.mpr hfree), h.load (ha.word (by decide)), andThen_some]
    simp [Fits, headerOf, hfree]
  · rw [if_pos hfree]
    simp [Fits, headerOf, hfree]

/-- **A block split on the machine.** -/
theorem splitAt_spec (h : Holds I base chunks m₀ (setFlag W a 1) vm) (ha : HeaderIn base a)
    (hnext : HeaderIn base (a + k)) (hk : 64 ≤ k) (hsize : usub (W (a + 4)) left = k) :
    Post (fun vm' _ => Holds I base chunks m₀ (cutWords W a k left) vm') (splitAt a left vm) := by
  obtain ⟨hal, hlow, hhigh⟩ := ha
  obtain ⟨hal', hlow', hhigh'⟩ := hnext
  obtain ⟨_, _, hle⟩ := h.window.heapBase.bounds
  have hin : ∀ d < 64, InHeap base (a + d) := fun d hd => ⟨by omega, by omega⟩
  have hin' : ∀ d < 64, InHeap base (a + k + d) := fun d hd => ⟨by omega, by omega⟩
  have hnode : InHeap base a := ⟨hlow, by omega⟩
  have hword : setFlag W a 1 (a + 4) = W (a + 4) := Bytes.setByte_word (by omega) (by omega)
  unfold splitAt
  rw [h.load (hin 4 (by decide)), andThen_some, hword, hsize]
  refine (h.store (hin 4 (by decide)) k).andThen fun vm₁ _ h₁ => ?_
  rw [h₁.load (hin 4 (by decide)), andThen_some, Function.update_self]
  dsimp only
  rw [Nat.mod_eq_of_lt (show a + k < 0x100000000 by omega)]
  rw [h₁.load hnode, andThen_some]
  refine (h₁.store (hin' 0 (by decide)) _).andThen fun vm₂ _ h₂ => ?_
  refine (h₂.store (hin' 4 (by decide)) left).andThen fun vm₃ _ h₃ => ?_
  refine (h₃.storeByteAt (hin' 8 (by decide)) 0).andThen fun vm₄ _ h₄ => ?_
  exact h₄.store hnode (a + k)

/-- **A block taken on the machine**: whole when nothing is left over, else cut. -/
theorem takeBlockAt_spec (h : Holds I base chunks m₀ W vm) (ha : HeaderIn base a) (size : Nat)
    (hcut : 0 < leftover (headerOf W a) size →
      64 ≤ usub (W (a + 4)) (leftover (headerOf W a) size) ∧
        HeaderIn base (a + usub (W (a + 4)) (leftover (headerOf W a) size))) :
    Post (fun vm' out => Holds I base chunks m₀ (takeWords W a size) vm' ∧ out = a + 64)
      (takeBlockAt a size vm) := by
  obtain ⟨_, _, hle⟩ := h.window.heapBase.bounds
  have hword : setFlag W a 1 (a + 4) = W (a + 4) :=
    Bytes.setByte_word (by omega) (by have := ha.1; omega)
  have hout : (a + sizeofHeapBlock) % 0x100000000 = a + 64 := by
    have hsize : sizeofHeapBlock = 64 := rfl
    obtain ⟨_, _, hhigh⟩ := ha
    rw [hsize]
    omega
  unfold takeBlockAt
  refine (h.storeByteAt (ha.word (by decide)) 1).andThen fun vm₁ _ h₁ => ?_
  have h₁ : Holds I base chunks m₀ (setFlag W a 1) vm₁ := h₁
  rw [h₁.load (ha.word (by decide)), andThen_some, hword, hout]
  have hleft : leftover (headerOf W a) size =
    usub (usub (W (a + 4)) sizeofHeapBlock) size -
      usub (usub (W (a + 4)) sizeofHeapBlock) size % heapBlockAlign := rfl
  dsimp only
  rw [← hleft]
  unfold takeWords
  by_cases hpos : 0 < leftover (headerOf W a) size
  · obtain ⟨hk, hnext⟩ := hcut hpos
    rw [if_pos hpos, if_pos hpos]
    refine (splitAt_spec h₁ ha hnext hk rfl).andThen fun vm₂ _ h₂ => ?_
    exact .intro ⟨h₂, rfl⟩
  · rw [if_neg hpos, if_neg hpos]
    exact .intro ⟨h₁, rfl⟩

end Access

/-! ## 4. The block list in memory -/

/-- A header whose words are the same is the same. -/
theorem headerOf_congr (hx : x % 4 = 0) (h : ∀ y, y % 4 = 0 → InHeader x y → W' y = W y) :
    headerOf W' x = headerOf W x := by
  have h0 : W' x = W x := h x hx ⟨Nat.le_refl x, by omega⟩
  have h4 : W' (x + 4) = W (x + 4) := h _ (by omega) ⟨by omega, by omega⟩
  have h8 : Bytes.byteAt W' (x + 8) = Bytes.byteAt W (x + 8) := by
    refine Bytes.byteAt_congr ?_
    rw [Bytes.wordOf_aligned (by omega)]
    exact h _ (by omega) ⟨by omega, by omega⟩
  unfold headerOf
  rw [h0, h4, h8]

/-- **The memory holds the headers of the list**; the bytes of no header are those of `mem`. -/
structure Heads (base : Nat) (mem : Nat → Nat) (s : HeapAllocator) (W : Nat → Nat) : Prop where
  head : ∀ a, s.Node a → headerOf W a = s.blocks a
  data : ∀ x, InHeap base x → (∀ a, s.Node a → ¬ InHeader a x) → Bytes.byteAt W x = mem x

variable {s s' : HeapAllocator} {as : List Nat} {mem : Nat → Nat}

/-- The nodes are in the block list's part. -/
theorem HeapInv.headerIn (h : HeapInv base s) (ha : s.Node a) : HeaderIn base a := by
  obtain ⟨as, hl⟩ := h.list
  have hmem := (node_iff h.heap hl).mp ha
  have hr := hl.range hmem
  have hge := hl.size_ge hmem
  exact ⟨(hl.units a hmem).1, hr.1, by omega⟩

/-- How a fitting block is cut, without the wraps. -/
structure Cut (s : HeapAllocator) (a n k : Nat) : Prop where
  pos : 0 < leftover (s.blocks a) n
  eq : usub (s.blocks a).size (leftover (s.blocks a) n) = k
  room : 64 + n ≤ k
  unit : k % 64 = 0
  sum : k + leftover (s.blocks a) n = (s.blocks a).size
  unitLeft : leftover (s.blocks a) n % 64 = 0

theorem cut_of_pos (hb : HeapBase base) (hl : BlockList s.blocks base (base + 118784) as)
    (ha : a ∈ as) (hfit : 64 + n ≤ (s.blocks a).size) (hpos : 0 < leftover (s.blocks a) n) :
    ∃ k, Cut s a n k := by
  obtain ⟨_, _, hle⟩ := hb.bounds
  have hr := hl.range ha
  have hunits := (hl.units a ha).2
  have hleft := leftover_eq (b := s.blocks a) (by omega) hfit
  refine ⟨(s.blocks a).size - leftover (s.blocks a) n, hpos, ?_, by omega, by omega, by omega,
    by omega⟩
  unfold usub
  omega

/-- The headers of a new list are in the memory, and the other bytes as before. -/
theorem Heads.of_taken {m' : Nat → HeapBlock} {as' : List Nat} (h : HeapInv base s)
    (hW : Heads base mem s W) (hl : BlockList s.blocks base (base + 118784) as)
    (ht : Taken s.blocks m' base (base + 118784) a n as as')
    (hhead : ∀ b ∈ as', headerOf W' b = m' b)
    (hdata : ∀ x, (∀ b ∈ as', ¬ InHeader b x) → Bytes.byteAt W' x = Bytes.byteAt W x) :
    Heads base mem { s with blocks := m' } W' := by
  have hnode : ∀ {b}, s.Node b ↔ b ∈ as := node_iff h.heap hl
  have hnode' : ∀ {b}, HeapAllocator.Node { s with blocks := m' } b ↔ b ∈ as' :=
    node_iff (s := { s with blocks := m' }) h.heap ht.list
  refine ⟨fun b hb => hhead b (hnode'.mp hb), fun x hx hout => ?_⟩
  rw [hdata x fun b hb => hout b (hnode'.mpr hb)]
  exact hW.data x hx fun b hb => hout b (hnode'.mpr (ht.kept b (hnode.mp hb)))

/-- **A block taken in the list is taken in the memory.** -/
theorem Heads.take (hb : HeapBase base) (h : HeapInv base s) (hW : Heads base mem s W)
    (hl : BlockList s.blocks base (base + 118784) as) (ha : a ∈ as)
    (hfit : 64 + n ≤ (s.blocks a).size) :
    Heads base mem { s with blocks := takeBlock s.blocks a n } (takeWords W a n) := by
  obtain ⟨_, _, hle⟩ := hb.bounds
  have hr := hl.range ha
  have hu := hl.units a ha
  have hold : ∀ b ∈ as, headerOf W b = s.blocks b := fun b hb' =>
    hW.head b ((node_iff h.heap hl).mpr hb')
  have hsize : W (a + 4) = (s.blocks a).size := congrArg HeapBlock.size (hold a ha)
  unfold takeWords
  rw [hold a ha, hsize]
  dsimp only
  by_cases hpos : 0 < leftover (s.blocks a) n
  · obtain ⟨k, _, hkeq, hroom, hunit, hsum, _⟩ := cut_of_pos hb hl ha hfit hpos
    rw [if_pos hpos, hkeq, takeBlock_cut (by omega) hpos hsum (by omega)]
    obtain ⟨xs, ys, hxs, ht⟩ := hl.cut ha hroom hunit hpos hsum
    obtain ⟨hfirst, hsecond⟩ := headerOf_cutWords W hu.1 (show 64 ≤ k by omega) hunit
      (leftover (s.blocks a) n)
    refine hW.of_taken h hl ht (fun b hb' => ?_) fun x hout => ?_
    · have hbu := (ht.list.units b hb').1
      by_cases hba : b = a
      · rw [hba, hfirst, Function.update_self]
      by_cases hbk : b = a + k
      · rw [hbk, hsecond, Function.update_of_ne (by omega), Function.update_self, hold a ha]
      · rw [Function.update_of_ne hba, Function.update_of_ne hbk,
          headerOf_congr (W := W) (by omega) fun y hy hin => ?_]
        · refine hold b ?_
          rw [hxs]
          exact (mem_cut.mp hb').resolve_right hbk
        · unfold InHeader at hin
          exact cutWords_frame W (by omega) (by omega) _ hy (by unfold InHeader; omega)
            (by unfold InHeader; omega)
    · have h1 := hout a (mem_cut.mpr (Or.inl (hxs ▸ ha)))
      have h2 := hout (a + k) (mem_cut.mpr (Or.inr rfl))
      refine Bytes.byteAt_congr (cutWords_frame W (by omega) (by omega) _ (Bytes.wordOf_mod x) ?_ ?_)
      · unfold InHeader Bytes.wordOf at *
        omega
      · unfold InHeader Bytes.wordOf at *
        omega
  · have hwhole : takeBlock s.blocks a n =
        Function.update s.blocks a { s.blocks a with allocated := true } := by
      simp only [takeBlock, setBlock, if_neg hpos]
    rw [if_neg hpos, hwhole]
    have hflag := onlyHeader_setFlag W (show a % 4 = 0 by omega) 1
    refine hW.of_taken h hl (hl.whole hfit) (fun b hb' => ?_) fun x hout => ?_
    · have hbu := (hl.units b hb').1
      by_cases hba : b = a
      · rw [hba, Function.update_self, headerOf_setFlag W (by omega), hold a ha]
      · rw [Function.update_of_ne hba, hflag.headerOf hu.1 hbu hba]
        exact hold b hb'
    · exact hflag.byteAt (by omega) (hout a ha)

/-! ## 5. The calls refined -/

variable (I : KernelImage) (chunks : Nat → Nat) (m₀ : Ram)

/-- **The machine simulates the allocator `s`**, with the bytes `mem` between its headers. -/
structure Simulates (base : Nat) (mem : Nat → Nat) (s : HeapAllocator) (h : HeapMachine) :
    Prop where
  heap : h.heap = s.heap
  slab : ∀ k, h.slab k = s.slabOf k
  bitmap : ∀ k, h.bitmap k = s.bitmapOf k
  memory : ∃ W, Holds I base chunks m₀ W h.vm ∧ Heads base mem s W

/-- **A call on the machine refines a call on the allocator**: where this answers, that answers
    the same, and the two states correspond again with no byte of `mem` changed. -/
def Refines (base : Nat) (mem : Nat → Nat) (f : HeapAllocator → Option (HeapAllocator × Nat))
    (fAt : HeapMachine → HeapMachine × Option Nat) : Prop :=
  ∀ s h s' out, HeapInv base s → Simulates I chunks m₀ base mem s h → f s = some (s', out) →
    HeapInv base s' ∧ ∃ h', fAt h = (h', some out) ∧ Simulates I chunks m₀ base mem s' h'

variable {I chunks m₀}

/-- **A slab.** -/
theorem slabMallocAt_refines (k : SlabKind) :
    Refines I chunks m₀ base mem (slabMallocOf k) (slabMallocAt k) := by
  intro s h s' out hs hsim hrun
  obtain ⟨hheap, hslab, hbitmap, W, hW, hheads⟩ := hsim
  obtain ⟨⟨bm, o⟩, hr, he⟩ := Option.map_eq_some_iff.mp hrun
  cases he
  refine ⟨hs.setBitmap k bm, { h with bitmap := Function.update h.bitmap k bm }, ?_, ?_, ?_, ?_,
    W, hW, ?_⟩
  · unfold slabMallocAt
    rw [hslab, hbitmap, hr]
  · rw [heap_setBitmap]
    exact hheap
  · intro j
    rw [slabOf_setBitmap]
    exact hslab j
  · intro j
    rw [bitmapOf_setBitmap]
    dsimp only
    rw [Function.update_apply]
    exact if_congr Iff.rfl rfl (hbitmap j)
  · have hnode : ∀ {b}, (s.setBitmap k bm).Node b ↔ s.Node b := by
      intro b
      unfold HeapAllocator.Node
      rw [blocks_setBitmap, heap_setBitmap]
    refine ⟨fun b hb => ?_, fun x hx hout => ?_⟩
    · rw [blocks_setBitmap]
      exact hheads.head b (hnode.mp hb)
    · exact hheads.data x hx fun b hb => hout b (hnode.mpr hb)

/-- What the loop on the machine leaves, where the loop on the headers leaves `r`. -/
def Leaves (I : KernelImage) (chunks : Nat → Nat) (m₀ : Ram) (base : Nat) (mem : Nat → Nat)
    (s : HeapAllocator) (r : (Nat → HeapBlock) × Nat) (r' : Answer Nat) : Prop :=
  r'.2 = some r.2 ∧
    ∃ W, Holds I base chunks m₀ W r'.1 ∧ Heads base mem { s with blocks := r.1 } W

/-- **The last pass**: the block found is taken. -/
theorem takeBlockAt_refines (hb : HeapBase base) (hs : HeapInv base s)
    (hl : BlockList s.blocks base (base + 118784) as) (ha : a ∈ as) (hfits : Fits (s.blocks a) n)
    {vm : Vm} (hW : Holds I base chunks m₀ W vm) (hheads : Heads base mem s W) :
    Leaves I chunks m₀ base mem s
      (takeBlock s.blocks a n, (a + sizeofHeapBlock) % 0x100000000) (takeBlockAt a n vm) := by
  obtain ⟨_, _, hle⟩ := hb.bounds
  have hnode : s.Node a := (node_iff hs.heap hl).mpr ha
  have hheader := hheads.head a hnode
  have hsize : W (a + 4) = (s.blocks a).size := congrArg HeapBlock.size hheader
  obtain ⟨_, hfit⟩ := (hl.fits_iff (by omega) ha).mp hfits
  have hin := hs.headerIn hnode
  obtain ⟨hal, hlow, hhigh⟩ := hin
  have hr := hl.range ha
  have hpost := takeBlockAt_spec hW ⟨hal, hlow, hhigh⟩ n (fun hpos => ?_)
  · obtain ⟨vm', out, hrun, hW', rfl⟩ := hpost
    have hout : (a + sizeofHeapBlock) % 0x100000000 = a + 64 := by
      have h64 : sizeofHeapBlock = 64 := rfl
      rw [h64]
      omega
    rw [hrun, hout]
    exact ⟨rfl, _, hW', hheads.take hb hs hl ha hfit⟩
  · rw [hheader] at hpos
    obtain ⟨k, hcut⟩ := cut_of_pos hb hl ha hfit hpos
    have hroom := hcut.room
    have hunit := hcut.unit
    have hsum := hcut.sum
    have hleft := hcut.unitLeft
    rw [hheader, hsize, hcut.eq]
    exact ⟨by omega, by omega, by omega, by omega⟩

/-- A block that does not fit is passed. -/
theorem blockStepAt_next (hs : HeapInv base s) (ha : s.Node a) (h0 : a ≠ 0)
    (hfits : ¬ Fits (s.blocks a) n) {vm : Vm} (hW : Holds I base chunks m₀ W vm)
    (hheads : Heads base mem s W) :
    blockStepAt n (a, vm) = .inl ((s.blocks a).next, vm) := by
  have hheader := hheads.head a ha
  have hin := hs.headerIn ha
  have hword : W a = (s.blocks a).next := congrArg HeapBlock.next hheader
  have hload := hW.load (hin.word (show 0 < 64 by decide))
  rw [Nat.add_zero, hword] at hload
  unfold blockStepAt
  dsimp only
  rw [if_pos h0, fitsAt_eq hW hin, hheader, decide_eq_false hfits]
  dsimp only
  rw [hload]

/-- A block that fits is taken. -/
theorem blockStepAt_take (hs : HeapInv base s) (ha : s.Node a) (h0 : a ≠ 0)
    (hfits : Fits (s.blocks a) n) {vm : Vm} (hW : Holds I base chunks m₀ W vm)
    (hheads : Heads base mem s W) : blockStepAt n (a, vm) = .inr (takeBlockAt a n vm) := by
  unfold blockStepAt
  dsimp only
  rw [if_pos h0, fitsAt_eq hW (hs.headerIn ha), hheads.head a ha, decide_eq_true hfits]

/-- **The block list.** -/
theorem blockMallocAt_refines (hb : HeapBase base) (n : Nat) :
    Refines I chunks m₀ base mem (fun s => blockMalloc s n) (blockMallocAt n) := by
  intro s h s' out hs hsim hrun
  obtain ⟨hheap, hslab, hbitmap, W, hW, hheads⟩ := hsim
  have hinv : HeapInv base s' := by
    obtain ⟨t, out', hrun', hserves, _⟩ := blockMalloc_serves hb hs n
    cases hrun.symm.trans hrun'
    exact hserves.inv
  obtain ⟨as, hl⟩ := hs.list
  have hnode : ∀ {b}, s.Node b ↔ b ∈ as := node_iff hs.heap hl
  obtain ⟨⟨m', o⟩, hloop, he⟩ := Option.map_eq_some_iff.mp hrun
  cases he
  -- the two loops visit the same nodes, in the same memory until a block is taken
  have hsim : ∃ r', FuelLoop.run (blockStepAt n) (heapPages * pageSize / heapBlockAlign + 1)
      (s.heap, h.vm) = some r' ∧ Leaves I chunks m₀ base mem s (m', o) r' := by
    refine FuelLoop.run_sim (fun node x => x = (node, h.vm) ∧ (node = 0 ∨ node ∈ as))
      (Leaves I chunks m₀ base mem s) (fun node x node' hR hgo => ?_)
      (fun node x r hR hstop => ?_) ⟨rfl, ?_⟩ hloop
    · obtain ⟨rfl, hmem⟩ := hR
      by_cases h0 : node = 0
      · rw [h0, blockStep_nil] at hgo
        cases hgo
      · have hin := hmem.resolve_left h0
        obtain rfl := blockStep_next h0 hgo
        have hfits : ¬ Fits (s.blocks node) n := by
          intro hfits
          rw [blockStep_node n h0, if_pos hfits] at hgo
          cases hgo
        exact ⟨_, blockStepAt_next hs (hnode.mpr hin) h0 hfits hW hheads, rfl,
          hl.path.next_mem hin⟩
    · obtain ⟨rfl, hmem⟩ := hR
      by_cases h0 : node = 0
      · rw [h0, blockStep_nil] at hstop
        cases hstop
        exact ⟨(h.vm, some 0), by rw [h0]; rfl, rfl, W, hW, hheads⟩
      · have hin := hmem.resolve_left h0
        rw [blockStep_node n h0] at hstop
        split at hstop
        · rename_i hfits
          cases hstop
          exact ⟨_, blockStepAt_take hs (hnode.mpr hin) h0 hfits hW hheads,
            takeBlockAt_refines hb hs hl hin hfits hW hheads⟩
        · cases hstop
    · rw [hs.heap]
      exact hl.path.start
  obtain ⟨⟨vm', r⟩, hloop', hr, W', hW', hheads'⟩ := hsim
  dsimp only at hr hW'
  refine ⟨hinv, { h with vm := vm' }, ?_, hheap, hslab, hbitmap, W', hW', hheads'⟩
  unfold blockMallocAt
  rw [hheap, hloop']
  dsimp only
  rw [hr]

/-- **Falling through.** -/
theorem tryFirstAt_refines {c : Prop} [Decidable c]
    {f rest : HeapAllocator → Option (HeapAllocator × Nat)}
    {fAt restAt : HeapMachine → HeapMachine × Option Nat}
    (hf : Refines I chunks m₀ base mem f fAt) (hrest : Refines I chunks m₀ base mem rest restAt) :
    Refines I chunks m₀ base mem (tryFirst c f rest) (tryFirstAt c fAt restAt) := by
  intro s h s' out hs hsim hrun
  unfold tryFirst at hrun
  unfold tryFirstAt
  by_cases hc : c
  · rw [if_pos hc] at hrun ⊢
    cases hfs : f s with
    | none =>
        rw [hfs] at hrun
        cases hrun
    | some r =>
        obtain ⟨t, o⟩ := r
        obtain ⟨ht, h', hrun', hsim'⟩ := hf s h t o hs hsim hfs
        rw [hfs] at hrun
        rw [hrun', andThen_some]
        dsimp only at hrun
        by_cases h0 : o ≠ 0
        · rw [if_pos h0] at hrun ⊢
          cases hrun
          exact ⟨ht, h', rfl, hsim'⟩
        · rw [if_neg h0] at hrun ⊢
          exact hrest t h' s' out ht hsim' hrun
  · rw [if_neg hc] at hrun ⊢
    exact hrest s h s' out hs hsim hrun

/-- **`malloc` on the machine refines `malloc`.** -/
theorem mallocAt_refines (hb : HeapBase base) (n : Nat) :
    Refines I chunks m₀ base mem (fun s => malloc s n) (mallocAt n) := by
  intro s h s' out hs hsim hrun
  dsimp only at hrun
  unfold malloc at hrun
  unfold mallocAt
  by_cases hlarge : heapPages * pageSize < n
  · rw [if_pos hlarge] at hrun ⊢
    cases hrun
    exact ⟨hs, h, rfl, hsim⟩
  · rw [if_neg hlarge] at hrun ⊢
    rw [slab8Malloc_eq, slab16Malloc_eq, slab32Malloc_eq] at hrun
    exact tryFirstAt_refines (slabMallocAt_refines .slab8)
      (tryFirstAt_refines (slabMallocAt_refines .slab16)
        (tryFirstAt_refines (slabMallocAt_refines .slab32) (blockMallocAt_refines hb n)))
      s h s' out hs hsim hrun

end OsPlayground.Heap
