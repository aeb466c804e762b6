/-
  File:      OsPlayground/Heap/Parts.lean
  Subject:   WHAT ONE SUB-ALLOCATOR DOES.

  * `slabMalloc_scan` -- a slab hands out its first clear slot and sets its bit, or every slot is
    taken;
  * `BlockList` -- the headers reachable from the heap pointer tile a range in units of the block
    alignment;
  * `BlockList.cut`, `BlockList.whole`, `takeBlock_cases` -- allocating a fitting block, with or
    without a split, keeps the list: the other blocks are untouched and the new one is free;
  * `blockMalloc_spec` -- `block_malloc` takes the first block that fits, or none fits.
-/
import Mathlib.Order.Bounds.Basic
import OsPlayground.Heap.Alloc
import OsPlayground.Library.Linked

namespace OsPlayground.Heap

open Linked

/-! ## 1. A slab -/

/-- The slots of a slab: eight for each byte of its bitmap. -/
def slots (slot : Nat) : Nat := 8 * slabBitmapBytes slot

/-- Every slot of a full byte is taken. -/
theorem bit_of_full {bm : Nat → BitVec 8} {i q : Nat} (hfull : bm i = 0xff#8) (hq : q / 8 = i) :
    Bits.bit bm q = true := by
  unfold Bits.bit
  rw [hq, hfull]
  exact Bits.getLsbD_full (Nat.mod_lt _ (by decide))

/-- The clear slots of a slab. -/
def clearSlots (slot : Nat) (bm : Nat → BitVec 8) : Set Nat :=
  {q | q < slots slot ∧ Bits.bit bm q = false}

/-- The lowest clear bit of a byte that is not full, as a slot: the slots of the byte before it
    are taken. -/
theorem lowestClear_slot {bm : Nat → BitVec 8} {i : Nat} (hne : bm i ≠ 0xff#8) :
    Bits.bit bm (8 * i + Bits.lowestClear (bm i)) = false ∧
      ∀ p, 8 * i ≤ p → p < 8 * i + Bits.lowestClear (bm i) → Bits.bit bm p = true := by
  obtain ⟨hj, hclear, hbelow⟩ := Bits.lowestClear_spec _ hne
  unfold Bits.bit
  constructor
  · rw [show (8 * i + Bits.lowestClear (bm i)) / 8 = i by omega,
      show (8 * i + Bits.lowestClear (bm i)) % 8 = Bits.lowestClear (bm i) by omega]
    exact hclear
  · intro p hge hlt
    rw [show p / 8 = i by omega]
    exact hbelow _ (by omega)

/-- A byte that is not full, after full ones, gives the first clear slot of the slab. -/
theorem slabStep_gives {slot slab i : Nat} {bm : Nat → BitVec 8}
    (hroom : slab + slot * slots slot ≤ 2 ^ 32) (hslot : 0 < slot)
    (hlt : i < slabBitmapBytes slot) (hne : bm i ≠ 0xff#8)
    (htaken : ∀ q < 8 * i, Bits.bit bm q = true) :
    ∃ q, IsLeast (clearSlots slot bm) q ∧
      slabStep slot slab bm i = .inr (Bits.setBit bm q, slab + slot * q) := by
  unfold slots at hroom
  obtain ⟨hj, _, _⟩ := Bits.lowestClear_spec _ hne
  obtain ⟨hclear, hbelow⟩ := lowestClear_slot hne
  have hq : 8 * i + Bits.lowestClear (bm i) < 8 * slabBitmapBytes slot := by omega
  have hmul := Nat.mul_lt_mul_of_pos_left hq hslot
  refine ⟨8 * i + Bits.lowestClear (bm i), ⟨⟨hq, hclear⟩, fun p hp => ?_⟩, ?_⟩
  · by_contra hlt'
    obtain ⟨_, hclear'⟩ := hp
    -- a slot before it is in a byte passed or lower in this one
    have hset : Bits.bit bm p = true := by
      by_cases hp' : p < 8 * i
      · exact htaken p hp'
      · exact hbelow p (by omega) (by omega)
    rw [hset] at hclear'
    cases hclear'
  · unfold slabStep
    dsimp only
    rw [if_pos hlt, if_pos hne, Bits.setBit_byte bm i hj, Nat.mod_eq_of_lt (by omega)]

/-- **What a slab answers**: the first clear slot, now set, or null when none is clear. -/
theorem slabMalloc_scan {slot slab : Nat} (bm : Nat → BitVec 8)
    (hroom : slab + slot * slots slot ≤ 2 ^ 32) (hslot : 0 < slot) :
    ∃ r, slabMalloc slot slab bm = some r ∧
      ((∃ q, IsLeast (clearSlots slot bm) q ∧ r = (Bits.setBit bm q, slab + slot * q)) ∨
        (r = (bm, 0) ∧ ∀ q < slots slot, Bits.bit bm q = true)) := by
  -- the invariant: every slot of the bytes passed is taken
  refine FuelLoop.run_passes
    (fun i => i ≤ slabBitmapBytes slot ∧ ∀ q < 8 * i, Bits.bit bm q = true) _
    (fun i => slabBitmapBytes slot - i) (fun i hI => ?_) ?_ ?_
  · obtain ⟨hle, htaken⟩ := hI
    by_cases hlt : i < slabBitmapBytes slot
    · by_cases hfull : bm i = 0xff#8
      · have hgo : slabStep slot slab bm i = .inl (i + 1) := by
          unfold slabStep
          dsimp only
          rw [if_pos hlt, if_neg (not_not.mpr hfull)]
        refine Or.inl ⟨i + 1, hgo, ⟨hlt, fun q hq => ?_⟩, by omega⟩
        by_cases hq' : q < 8 * i
        · exact htaken q hq'
        · exact bit_of_full hfull (by omega)
      · obtain ⟨q, hleast, hstop⟩ := slabStep_gives hroom hslot hlt hfull htaken
        exact Or.inr ⟨_, hstop, Or.inl ⟨q, hleast, rfl⟩⟩
    · have hend : slabStep slot slab bm i = .inr (bm, 0) := if_neg hlt
      refine Or.inr ⟨_, hend, Or.inr ⟨rfl, fun q hq => htaken q ?_⟩⟩
      unfold slots at hq
      omega
  · exact ⟨Nat.zero_le _, fun q hq => absurd hq (Nat.not_lt_zero q)⟩
  · omega

/-! ## 2. The block list -/

/-- **The list from `base` is well formed**: it tiles `[base, stop)`, in units of 64 bytes. -/
structure BlockList (m : Nat → HeapBlock) (base stop : Nat) (as : List Nat) : Prop where
  path : Path (fun a => (m a).next) 0 base as
  tiles : Tiles (fun a => (m a).size) base stop as
  units : ∀ a ∈ as, a % 64 = 0 ∧ (m a).size % 64 = 0

variable {m : Nat → HeapBlock} {base stop : Nat} {as : List Nat}

theorem BlockList.range (h : BlockList m base stop as) {a : Nat} (ha : a ∈ as) :
    base ≤ a ∧ a + (m a).size ≤ stop := h.tiles.range ha

theorem BlockList.apart (h : BlockList m base stop as) {a b : Nat} (ha : a ∈ as) (hb : b ∈ as)
    (hne : a ≠ b) : a + (m a).size ≤ b ∨ b + (m b).size ≤ a := h.tiles.apart ha hb hne

/-- Every block has room for its header. -/
theorem BlockList.size_ge (h : BlockList m base stop as) {a : Nat} (ha : a ∈ as) :
    64 ≤ (m a).size := by
  have h1 := h.tiles.pos ha
  have h2 := (h.units a ha).2
  omega

/-- The test of `block_malloc` on a block of the list, without the wrap. -/
theorem BlockList.fits_iff (h : BlockList m base stop as) (hstop : stop ≤ 2 ^ 32) {a size : Nat}
    (ha : a ∈ as) : Fits (m a) size ↔ (m a).allocated = false ∧ 64 + size ≤ (m a).size := by
  have h1 := h.size_ge ha
  have h2 := (h.range ha).2
  have e : usub (m a).size sizeofHeapBlock = (m a).size - 64 := by
    simp only [usub, sizeofHeapBlock, heapBlockAlign]
    omega
  unfold Fits
  rw [e]
  refine and_congr Iff.rfl ?_
  omega

/-- What a taken block leaves behind of a list. -/
structure Taken (m m' : Nat → HeapBlock) (base stop a size : Nat) (as as' : List Nat) :
    Prop where
  list : BlockList m' base stop as'
  kept : ∀ b ∈ as, b ∈ as'
  here : (m' a).allocated = true ∧ 64 + size ≤ (m' a).size
  others : ∀ b ∈ as, b ≠ a → m' b = m b
  new : ∀ b ∈ as', b ∉ as → (m' b).allocated = false

/-- What is left of a block that fits, without the wraps. -/
theorem leftover_eq {b : HeapBlock} {size : Nat} (hlt : b.size ≤ 2 ^ 32) (hfit : 64 + size ≤ b.size) :
    leftover b size = b.size - 64 - size - (b.size - 64 - size) % 64 := by
  have e : usub (usub b.size sizeofHeapBlock) size = b.size - 64 - size := by
    simp only [usub, sizeofHeapBlock, heapBlockAlign]
    omega
  simp only [leftover, e, heapBlockAlign]

/-- A block with something left over is cut `k` bytes after its start. -/
theorem takeBlock_cut {a size k : Nat} (hk : 0 < k) (hpos : 0 < leftover (m a) size)
    (hsum : k + leftover (m a) size = (m a).size) (hlt : a + (m a).size ≤ 2 ^ 32) :
    takeBlock m a size =
      Function.update (Function.update m (a + k) ⟨(m a).next, leftover (m a) size, false⟩) a
        ⟨a + k, k, true⟩ := by
  have hnext : (a + k) % 2 ^ 32 = a + k := Nat.mod_eq_of_lt (by omega)
  have hne : a ≠ a + k := by omega
  have hsub : usub (m a).size (leftover (m a) size) = k := by
    simp only [usub]
    omega
  funext x
  simp only [takeBlock, setBlock, if_pos hpos, Function.update_self, hsub, hnext,
    Function.update_of_ne hne]
  by_cases hxa : x = a
  · rw [hxa, Function.update_self, Function.update_self]
  · rw [Function.update_of_ne hxa, Function.update_of_ne hxa]
    by_cases hxk : x = a + k
    · rw [hxk, Function.update_self, Function.update_self]
    · rw [Function.update_of_ne hxk, Function.update_of_ne hxk, Function.update_of_ne hxa,
        Function.update_of_ne hxa]

/-- A block cut in two adds one node to the list. -/
theorem mem_cut {xs ys : List Nat} {a b c : Nat} :
    c ∈ xs ++ a :: b :: ys ↔ c ∈ xs ++ a :: ys ∨ c = b := by
  simp only [List.mem_append, List.mem_cons]
  tauto

/-- No node of the list is inside another block. -/
theorem BlockList.not_inside (h : BlockList m base stop as) {a b k : Nat} (ha : a ∈ as)
    (hb : b ∈ as) (hk : 0 < k) (hlt : k < (m a).size) : b ≠ a + k := by
  intro heq
  subst heq
  rcases h.apart ha hb (by omega) with h1 | h1
  · omega
  · omega

/-- A node is not among those before it, nor among those after. -/
theorem BlockList.parts_ne {xs ys : List Nat} {a : Nat}
    (h : BlockList m base stop (xs ++ a :: ys)) : (∀ c ∈ xs, c ≠ a) ∧ ∀ c ∈ ys, c ≠ a := by
  have hnd := h.tiles.nodup
  rw [List.perm_middle.nodup_iff, List.nodup_cons, List.mem_append, not_or] at hnd
  obtain ⟨⟨hxs, hys⟩, _⟩ := hnd
  exact ⟨fun c hc e => hxs (e ▸ hc), fun c hc e => hys (e ▸ hc)⟩

/-- **A block of the list cut in two**, the first part taken and the rest free. -/
theorem BlockList.cut (h : BlockList m base stop as) {a size k left : Nat} (ha : a ∈ as)
    (hk : 64 + size ≤ k) (hk64 : k % 64 = 0) (hpos : 0 < left) (hsum : k + left = (m a).size) :
    ∃ xs ys, as = xs ++ a :: ys ∧
      Taken m (Function.update (Function.update m (a + k) ⟨(m a).next, left, false⟩) a
        ⟨a + k, k, true⟩) base stop a size as (xs ++ a :: (a + k) :: ys) := by
  obtain ⟨hmod, hmods⟩ := h.units a ha
  have hne : a + k ≠ a := by omega
  generalize hm' : Function.update (Function.update m (a + k) ⟨(m a).next, left, false⟩) a
    ⟨a + k, k, true⟩ = m'
  have hat : m' a = ⟨a + k, k, true⟩ := by
    rw [← hm', Function.update_self]
  have hatk : m' (a + k) = ⟨(m a).next, left, false⟩ := by
    rw [← hm', Function.update_of_ne hne, Function.update_self]
  have hothers : ∀ b ∈ as, b ≠ a → m' b = m b := by
    intro b hb hba
    have hbk : b ≠ a + k := h.not_inside ha hb (by omega) (by omega)
    rw [← hm', Function.update_of_ne hba, Function.update_of_ne hbk]
  obtain ⟨xs, ys, rfl⟩ := List.append_of_mem ha
  obtain ⟨hxs, hys⟩ := h.parts_ne
  have hx : ∀ c ∈ xs, m' c = m c := fun c hc =>
    hothers c (List.mem_append_left _ hc) (hxs c hc)
  have hy : ∀ c ∈ ys, m' c = m c := fun c hc =>
    hothers c (List.mem_append_right _ (List.mem_cons_of_mem _ hc)) (hys c hc)
  refine ⟨xs, ys, rfl, ⟨⟨?_, ?_, fun b hb => ?_⟩, fun b hb => mem_cut.mpr (Or.inl hb),
    ?_, hothers, fun b hb hnew => ?_⟩⟩
  · exact h.path.insert (by omega) (by rw [hat]) (by rw [hatk])
      (fun c hc => by rw [hx c hc]) fun c hc => by rw [hy c hc]
  · exact h.tiles.split (by rw [hat]) (by omega) (by rw [hatk]; exact hpos)
      (by rw [hatk]; exact hsum) (fun c hc => by rw [hx c hc]) fun c hc => by rw [hy c hc]
  · by_cases hba : b = a
    · rw [hba, hat]
      exact ⟨hmod, hk64⟩
    · rcases mem_cut.mp hb with hb' | rfl
      · rw [hothers b hb' hba]
        exact h.units b hb'
      · rw [hatk]
        refine ⟨by omega, ?_⟩
        dsimp only
        omega
  · rw [hat]
    exact ⟨rfl, hk⟩
  · obtain rfl := (mem_cut.mp hb).resolve_left hnew
    rw [hatk]

/-- **A block of the list taken whole.** -/
theorem BlockList.whole (h : BlockList m base stop as) {a size : Nat}
    (hfit : 64 + size ≤ (m a).size) :
    Taken m (Function.update m a { m a with allocated := true }) base stop a size as as := by
  generalize hm' : Function.update m a { m a with allocated := true } = m'
  have hat : m' a = { m a with allocated := true } := by
    rw [← hm', Function.update_self]
  have hothers : ∀ b, b ≠ a → m' b = m b := fun b hba => by
    rw [← hm', Function.update_of_ne hba]
  have hsize : ∀ b, (m' b).size = (m b).size := by
    intro b
    by_cases hba : b = a
    · rw [hba, hat]
    · rw [hothers b hba]
  have hnext : ∀ b, (m' b).next = (m b).next := by
    intro b
    by_cases hba : b = a
    · rw [hba, hat]
    · rw [hothers b hba]
  refine ⟨⟨h.path.frame fun b _ => hnext b, h.tiles.frame fun b _ => hsize b, fun b hb => ?_⟩,
    fun b hb => hb, ?_, fun b _ hba => hothers b hba, fun b hb hnew => absurd hb hnew⟩
  · rw [hsize b]
    exact h.units b hb
  · rw [hat]
    exact ⟨rfl, hfit⟩

/-- **A fitting block is taken**: with nothing left over it stays whole, otherwise it is cut and
    the rest is a free block after it. -/
theorem takeBlock_cases (h : BlockList m base stop as) (hstop : stop ≤ 2 ^ 32) {a size : Nat}
    (ha : a ∈ as) (hfit : 64 + size ≤ (m a).size) :
    (takeBlock m a size = Function.update m a { m a with allocated := true } ∧
      Taken m (takeBlock m a size) base stop a size as as) ∨
    ∃ xs ys k left, as = xs ++ a :: ys ∧ 0 < left ∧ k + left = (m a).size ∧
      takeBlock m a size =
        Function.update (Function.update m (a + k) ⟨(m a).next, left, false⟩) a ⟨a + k, k, true⟩ ∧
      Taken m (takeBlock m a size) base stop a size as (xs ++ a :: (a + k) :: ys) := by
  obtain ⟨_, hmods⟩ := h.units a ha
  have hr := h.range ha
  have hleft := leftover_eq (b := m a) (by omega) hfit
  by_cases hpos : 0 < leftover (m a) size
  · obtain ⟨k, hk⟩ : ∃ k, k = (m a).size - leftover (m a) size := ⟨_, rfl⟩
    have hsum : k + leftover (m a) size = (m a).size := by omega
    have hcut := takeBlock_cut (by omega) hpos hsum (by omega)
    have hroom : 64 + size ≤ k := by omega
    obtain ⟨xs, ys, hxs, ht⟩ := h.cut ha hroom (by omega) hpos hsum
    exact Or.inr ⟨xs, ys, k, _, hxs, hpos, hsum, hcut, by rw [hcut]; exact ht⟩
  · have hwhole : takeBlock m a size = Function.update m a { m a with allocated := true } := by
      simp only [takeBlock, setBlock, if_neg hpos]
    exact Or.inl ⟨hwhole, by rw [hwhole]; exact h.whole hfit⟩

/-- Either way the list stays well formed. -/
theorem takeBlock_spec (h : BlockList m base stop as) (hstop : stop ≤ 2 ^ 32) {a size : Nat}
    (ha : a ∈ as) (hfit : 64 + size ≤ (m a).size) :
    ∃ as', Taken m (takeBlock m a size) base stop a size as as' := by
  rcases takeBlock_cases h hstop ha hfit with ⟨_, ht⟩ | ⟨xs, ys, k, left, _, _, _, _, ht⟩
  · exact ⟨as, ht⟩
  · exact ⟨_, ht⟩

theorem blockStep_nil (m : Nat → HeapBlock) (size : Nat) : blockStep m size 0 = .inr (m, 0) := rfl

/-- At a block the traversal takes it, or goes on to the next. -/
theorem blockStep_node {m : Nat → HeapBlock} {a : Nat} (size : Nat) (hne : a ≠ 0) :
    blockStep m size a = if Fits (m a) size then
      .inr (takeBlock m a size, (a + sizeofHeapBlock) % 2 ^ 32) else .inl (m a).next := if_pos hne

theorem blockStep_next {m : Nat → HeapBlock} {size a a' : Nat} (hne : a ≠ 0)
    (h : blockStep m size a = .inl a') : a' = (m a).next := by
  rw [blockStep_node size hne] at h
  split at h
  · cases h
  · cases h
    rfl

/-- **What `block_malloc` answers**: the first block that fits, taken, or null when none fits. -/
theorem blockMalloc_spec {s : HeapAllocator} (size : Nat)
    (h : BlockList s.blocks s.heap stop as) (hstop : stop < 2 ^ 32)
    (hlen : stop - s.heap ≤ heapPages * pageSize) :
    ∃ s' out, blockMalloc s size = some (s', out) ∧
      ((∃ a ∈ as, (s.blocks a).allocated = false ∧ 64 + size ≤ (s.blocks a).size ∧
          s' = { s with blocks := takeBlock s.blocks a size } ∧ out = a + 64) ∨
        (out = 0 ∧ s' = s ∧ ∀ a ∈ as, (s.blocks a).allocated = false →
          (s.blocks a).size < 64 + size)) := by
  have hfuel : as.length < heapPages * pageSize / heapBlockAlign + 1 := by
    have h1 := h.tiles.length_le fun a ha => h.size_ge ha
    simp only [heapPages, pageSize, heapBlockAlign] at hlen ⊢
    omega
  rcases h.path.walk (blockStep_nil s.blocks size) (fun _ _ => blockStep_next) hfuel with
    ⟨xs, a, ys, r, rfl, hstep, hrun⟩ | ⟨hall, hrun⟩
  · have ha : a ∈ xs ++ a :: ys := List.mem_append_right _ List.mem_cons_self
    have hne := h.path.ne_nil ha
    rw [blockStep_node size hne] at hstep
    split at hstep
    · rename_i hfits
      cases hstep
      obtain ⟨hfree, hfit⟩ := (h.fits_iff hstop.le ha).mp hfits
      refine ⟨_, _, by rw [blockMalloc, hrun]; rfl, Or.inl ⟨a, ha, hfree, hfit, rfl, ?_⟩⟩
      have hr := h.range ha
      exact Nat.mod_eq_of_lt (show a + 64 < 2 ^ 32 by omega)
    · cases hstep
  · refine ⟨_, _, by rw [blockMalloc, hrun]; rfl, Or.inr ⟨rfl, rfl, fun a ha hfree => ?_⟩⟩
    have hne := h.path.ne_nil ha
    have hgo := hall a ha
    rw [blockStep_node size hne] at hgo
    split at hgo
    · cases hgo
    · rename_i hfits
      rw [h.fits_iff hstop.le ha] at hfits
      by_contra hge
      exact hfits ⟨hfree, by omega⟩

end OsPlayground.Heap
