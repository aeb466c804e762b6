/-
  File:      OsPlayground/Heap/Chunks.lean
  Subject:   THE FRAMES OF THE HEAP: what 32 calls of `alloc32` hand out.

  `ChunksInv u₀ u chunks c` says that `c` calls led from the bitmap `u₀` to `u`: the chunks are
  distinct blocks, free before and taken now, and every call used up one free block other than
  block 0 (a call may take block 0 on its way, whose address is null).

  * `alloc32_blocks` -- one call, for any bitmap;
  * `ChunksInv.zero`, **`ChunksInv.alloc`** -- before the first call, and one call;
  * `ahead`, `alloc32_ahead` -- the blocks from the hint on are handed out in order, so the chunks
    stay between the hint and the 32nd of them;
  * `alloc32_here` -- the call whose hint points at a free block.
-/
import OsPlayground.Heap.Pages
import OsPlayground.PhysMem.Frames

namespace OsPlayground.Heap

open PhysMem

/-! ## 1. Free blocks -/

/-- The aligned block `b` of 32 frames is free. -/
def FreeBlock (u : PhysMemAllocator) (b : Nat) : Prop := ∀ j < 32, frameBit u (32 * b + j) = false

instance (u : PhysMemAllocator) (b : Nat) : Decidable (FreeBlock u b) :=
  inferInstanceAs (Decidable (∀ j < 32, _))

/-- The free aligned blocks of 32 frames, by number. -/
def freeBlocks (u : PhysMemAllocator) : Finset Nat :=
  (Finset.range (numPages / 32)).filter (FreeBlock u)

/-- Those `alloc32` can hand out: block 0 has the null address. -/
def otherBlocks (u : PhysMemAllocator) : Finset Nat := (freeBlocks u).erase 0

theorem mem_freeBlocks {u : PhysMemAllocator} {b : Nat} :
    b ∈ freeBlocks u ↔ b < 32768 ∧ ∀ p, 32 * b ≤ p → p < 32 * b + 32 → frameBit u p = false := by
  have hsize : numPages / 32 = 32768 := by decide
  unfold freeBlocks
  rw [Finset.mem_filter, Finset.mem_range, hsize]
  refine ⟨fun h => ⟨h.1, fun p h1 h2 => ?_⟩, fun h => ⟨h.1, fun j hj => h.2 _ (by omega) (by omega)⟩⟩
  have hp : 32 * b + (p - 32 * b) = p := by omega
  have hbit := h.2 (p - 32 * b) (by omega)
  rwa [hp] at hbit

theorem not_occupied_of_mem {u : PhysMemAllocator} {b : Nat} (h : b ∈ freeBlocks u) :
    ¬ Occupied 32 u (32 * b) := by
  intro hocc
  obtain ⟨p, h1, h2, hp⟩ := hocc
  rw [(mem_freeBlocks.mp h).2 p h1 h2] at hp
  cases hp

/-- A free frame before a leak was free. -/
theorem free_of_mono {u u' : PhysMemAllocator} {p : Nat}
    (hmono : frameBit u p = true → frameBit u' p = true) (h : frameBit u' p = false) :
    frameBit u p = false := by
  rw [← Bool.not_eq_true]
  intro ht
  rw [hmono ht] at h
  cases h

theorem mem_otherBlocks {u : PhysMemAllocator} {b : Nat} :
    b ∈ otherBlocks u ↔ b ≠ 0 ∧ b ∈ freeBlocks u := Finset.mem_erase

/-- The other blocks stay as they were. -/
theorem mem_otherBlocks_left {u s₁ u' : PhysMemAllocator} {f b : Nat} (hl : Leak 32 u s₁)
    (ht : TakesBlock 32 s₁ u' f) (hb : b ∈ otherBlocks u) (hbf : b ≠ f / 32) :
    b ∈ otherBlocks u' := by
  have hal := ht.aligned
  obtain ⟨hb0, hfree⟩ := mem_otherBlocks.mp hb
  obtain ⟨hlt, hfree⟩ := mem_freeBlocks.mp hfree
  refine mem_otherBlocks.mpr ⟨hb0, mem_freeBlocks.mpr ⟨hlt, fun p h1 h2 => ?_⟩⟩
  have hmid : frameBit s₁ p = false := by
    rcases hl with rfl | hl
    · exact hfree p h1 h2
    · rw [hl.bits, hfree p h1 h2, decide_eq_false (by omega), Bool.or_false]
  rw [ht.bits, hmid, decide_eq_false (by omega), Bool.or_false]

/-- **A call uses up one block**, and block 0 at most. -/
theorem otherBlocks_granted {u s₁ u' : PhysMemAllocator} {f : Nat} (hl : Leak 32 u s₁)
    (ht : TakesBlock 32 s₁ u' f) (h0 : f ≠ 0) :
    (otherBlocks u).card = (otherBlocks u').card + 1 := by
  have hal := ht.aligned
  have hin := ht.inRange
  have hinsert : otherBlocks u = insert (f / 32) (otherBlocks u') := by
    ext b
    rw [Finset.mem_insert]
    refine ⟨fun h => ?_, fun h => ?_⟩
    · obtain ⟨hb0, hfree⟩ := mem_otherBlocks.mp h
      by_cases hbf : b = f / 32
      · exact Or.inl hbf
      · exact Or.inr (mem_otherBlocks_left hl ht (mem_otherBlocks.mpr ⟨hb0, hfree⟩) hbf)
    · rw [mem_otherBlocks, mem_freeBlocks]
      rcases h with rfl | h
      · exact ⟨by omega, by omega, fun p h1 h2 =>
          free_of_mono hl.mono (ht.free p (by omega) (by omega))⟩
      · obtain ⟨hb0, hfree⟩ := mem_otherBlocks.mp h
        obtain ⟨hlt, hfree⟩ := mem_freeBlocks.mp hfree
        exact ⟨hb0, hlt, fun p h1 h2 =>
          free_of_mono (fun hp => ht.mono (hl.mono hp)) (hfree p h1 h2)⟩
  have hnot : f / 32 ∉ otherBlocks u' := by
    intro h
    have hfree := (mem_freeBlocks.mp (mem_otherBlocks.mp h).2).2 f (by omega) (by omega)
    rw [ht.taken (Nat.le_refl f) (by omega)] at hfree
    cases hfree
  rw [hinsert, Finset.card_insert_of_notMem hnot]

/-! ## 2. The chunks -/

/-- A chunk at address `a`: a block of 32 frames, free in `u` and taken in `u'`. -/
structure Chunk (u u' : PhysMemAllocator) (a : Nat) : Prop where
  aligned : a % 131072 = 0
  ne : a ≠ 0
  lt : a + 131072 ≤ 0x100000000
  free : ∀ p, a / 4096 ≤ p → p < a / 4096 + 32 → frameBit u p = false
  taken : ∀ p, a / 4096 ≤ p → p < a / 4096 + 32 → frameBit u' p = true

/-- A block handed out is a chunk. -/
theorem chunk_of_granted {u s₁ u' : PhysMemAllocator} {f : Nat} (hl : Leak 32 u s₁)
    (ht : TakesBlock 32 s₁ u' f) (h0 : f ≠ 0) : Chunk u u' (4096 * f) := by
  have hal := ht.aligned
  have hin := ht.inRange
  have hdiv : 4096 * f / 4096 = f := Nat.mul_div_cancel_left f (by omega)
  refine ⟨by omega, by omega, by omega, fun p h1 h2 => ?_, fun p h1 h2 => ?_⟩
  · rw [hdiv] at h1 h2
    exact free_of_mono hl.mono (ht.free p h1 h2)
  · rw [hdiv] at h1 h2
    exact ht.taken h1 h2

/-- A chunk was free earlier and stays taken later. -/
theorem Chunk.widen {u₀ u u' u'' : PhysMemAllocator} {a : Nat} (h : Chunk u u' a)
    (h₀ : ∀ p, frameBit u₀ p = true → frameBit u p = true)
    (h₁ : ∀ p, frameBit u' p = true → frameBit u'' p = true) : Chunk u₀ u'' a :=
  ⟨h.aligned, h.ne, h.lt, fun p h1 h2 => free_of_mono (h₀ p) (h.free p h1 h2),
    fun p h1 h2 => h₁ p (h.taken p h1 h2)⟩

/-- Two chunks handed out one after the other are not the same. -/
theorem Chunk.apart {u u' u'' : PhysMemAllocator} {a a' : Nat} (h : Chunk u u' a)
    (h' : Chunk u' u'' a') : a ≠ a' := by
  intro heq
  subst heq
  have htaken := h.taken (a / 4096) (Nat.le_refl _) (by omega)
  rw [h'.free (a / 4096) (Nat.le_refl _) (by omega)] at htaken
  cases htaken

/-- **One call of `alloc32`**: null where no block is left to hand out, else a chunk. -/
theorem alloc32_blocks {u : PhysMemAllocator} (hhint : HintOk u) :
    ∃ u' out, alloc32 u = some (u', out) ∧ HintOk u' ∧
      ((out = 0 ∧ otherBlocks u = ∅) ∨
        (Chunk u u' out ∧ (∀ p, frameBit u p = true → frameBit u' p = true) ∧
          (otherBlocks u).card = (otherBlocks u').card + 1)) := by
  obtain ⟨u', out, hrun, hresult, hhint', hnull⟩ := alloc32_spec (hintOk_iff.mp hhint)
  refine ⟨u', out, hrun, hintOk_iff.mpr hhint', ?_⟩
  rcases hresult with ⟨_, s₁, f, hl, ht, hf, rfl⟩ | ⟨h0, _⟩
  · exact Or.inr ⟨chunk_of_granted hl ht hf, fun p hp => ht.mono (hl.mono hp),
      otherBlocks_granted hl ht hf⟩
  · refine Or.inl ⟨h0, Finset.eq_empty_iff_forall_notMem.mpr fun b hb => ?_⟩
    obtain ⟨hb0, hb⟩ := mem_otherBlocks.mp hb
    have hlt := (mem_freeBlocks.mp hb).1
    exact not_occupied_of_mem hb (hnull h0 (32 * b) (by omega) (by omega) (by omega))

/-! ## 3. The order of the calls -/

/-- The place of block `b` in the order `alloc32` looks at them: from the hint's block on, then from
    the start. -/
def turn (u : PhysMemAllocator) (b : Nat) : Nat := (b + 32768 - u.lastAlloc / 32) % 32768

/-- **Block `b` is the first in that order that can be handed out.** -/
structure FirstBlock (u : PhysMemAllocator) (b : Nat) : Prop where
  mem : b ∈ otherBlocks u
  first : ∀ b' ∈ otherBlocks u, turn u b ≤ turn u b'

theorem FirstBlock.unique {u : PhysMemAllocator} {b b' : Nat} (hhint : HintOk u)
    (h : FirstBlock u b) (h' : FirstBlock u b') : b = b' := by
  have hlt := (mem_freeBlocks.mp (mem_otherBlocks.mp h.mem).2).1
  have hlt' := (mem_freeBlocks.mp (mem_otherBlocks.mp h'.mem).2).1
  have h1 := h.first b' h'.mem
  have h2 := h'.first b h.mem
  have hlast := hintOk_iff.mp hhint
  unfold turn at h1 h2
  omega

/-- **`alloc32` hands out the first block it can.** -/
theorem alloc32_first {u u' : PhysMemAllocator} {out : Nat} (hhint : HintOk u)
    (hrun : alloc32 u = some (u', out)) (hne : out ≠ 0) :
    ∃ b, FirstBlock u b ∧ out = 131072 * b := by
  have hlast := hintOk_iff.mp hhint
  obtain ⟨v, out', hrun', _, hcases⟩ := alloc32_blocks hhint
  rw [hrun] at hrun'
  cases hrun'
  obtain ⟨hchunk, _⟩ := hcases.resolve_left fun h => hne h.1
  have hal := hchunk.aligned
  have hend := hchunk.lt
  have hmem : out / 131072 ∈ otherBlocks u :=
    mem_otherBlocks.mpr ⟨by omega, mem_freeBlocks.mpr ⟨by omega,
      fun p h1 h2 => hchunk.free p (by omega) (by omega)⟩⟩
  refine ⟨out / 131072, ⟨hmem, fun b' hb' => ?_⟩, by omega⟩
  obtain ⟨hb0, hfree'⟩ := mem_otherBlocks.mp hb'
  have hb'lt := (mem_freeBlocks.mp hfree').1
  have hstart : (u.lastAlloc / 8 - u.lastAlloc / 8 % b32) % b32 = 0 := by
    simp only [b32]
    omega
  have hbytes : bitmapBytes = 131072 := by decide
  have hbase : u.lastAlloc / 8 - u.lastAlloc / 8 % b32 = 4 * (u.lastAlloc / 32) := by
    simp only [b32]
    omega
  unfold alloc32 allocWith at hrun
  dsimp only at hrun
  obtain ⟨s₁, out₁, hscan, hr⟩ := scan_spec (fun _ => bitmapBytes) granular32
    (fun _ _ => by simp only [bitmapBytes, numPages]; omega) hstart hlast
  rw [hscan] at hrun
  dsimp only at hrun
  unfold turn
  rcases hr with ⟨hne₁, _⟩ | ⟨rfl, hleak, hhint₁, hocc⟩
  · -- found by the first scan
    rw [if_pos hne₁] at hrun
    cases hrun
    obtain ⟨f, hf, hle, hpassed⟩ := scan_first granular32 (by decide)
      (fun _ _ => by simp only [bitmapBytes, numPages]; omega) hstart hlast hscan hne
    by_cases hbefore : u.lastAlloc / 32 ≤ b'
    · have hnot : ¬ 32 * b' / 8 < f / 8 := fun hlt => not_occupied_of_mem hfree'
        (hpassed (32 * b') (by omega) (by omega) (by omega) hlt)
      omega
    · omega
  · -- by the second: from the hint's block on all are occupied
    rw [if_neg (not_not.mpr rfl)] at hrun
    have hahead : ∀ b ∈ otherBlocks u, b < u.lastAlloc / 32 := by
      intro b hb
      obtain ⟨hb0, hfree⟩ := mem_otherBlocks.mp hb
      have hlt := (mem_freeBlocks.mp hfree).1
      by_contra hge
      exact not_occupied_of_mem hfree (hleak.occupied_before (by omega)
        (hocc (32 * b) (Or.inl (by decide)) (by omega) (by omega) (by dsimp only; omega)))
    obtain ⟨f, hf, _, hpassed⟩ := scan_first granular32 (by decide)
      (fun _ _ => by simp only [b32]; omega) (Nat.zero_mod _) hhint₁ hrun hne
    have hb := hahead _ hmem
    have hb' := hahead b' hb'
    have hnot : ¬ 32 * b' / 8 < f / 8 := fun hlt => not_occupied_of_mem hfree'
      (hleak.occupied_before (by omega)
        (hpassed (32 * b') (by omega) (by omega) (Nat.zero_le _) hlt))
    omega

/-- The blocks from the hint on that can be handed out, below block `top`. -/
def ahead (u : PhysMemAllocator) (top : Nat) : Finset Nat :=
  (otherBlocks u).filter fun b => u.lastAlloc / 32 ≤ b ∧ b < top

theorem mem_ahead {u : PhysMemAllocator} {top b : Nat} :
    b ∈ ahead u top ↔ b ∈ otherBlocks u ∧ u.lastAlloc / 32 ≤ b ∧ b < top := Finset.mem_filter

/-- What a call that hands out `f` leaves: the hint points there, and the other blocks are as they
    were. -/
theorem alloc32_leaves {u u' : PhysMemAllocator} {out : Nat} (hhint : HintOk u)
    (hrun : alloc32 u = some (u', out)) (hne : out ≠ 0) :
    131072 * (u'.lastAlloc / 32) = out ∧
      ∀ b ∈ otherBlocks u, 131072 * b ≠ out → b ∈ otherBlocks u' := by
  obtain ⟨v, out', hrun', hresult, _, _⟩ := alloc32_spec (hintOk_iff.mp hhint)
  rw [hrun] at hrun'
  cases hrun'
  rcases hresult with ⟨_, s₁, f, hl, ht, hf, rfl⟩ | ⟨h0, _⟩
  · have hal := ht.aligned
    have hin := ht.inRange
    refine ⟨by rw [ht.hint]; omega, fun b hb hbf => ?_⟩
    exact mem_otherBlocks_left hl ht hb (by omega)
  · exact absurd h0 hne

/-- **The blocks ahead are handed out first**, the lowest one before the others. -/
theorem alloc32_ahead {u u' : PhysMemAllocator} {out top : Nat} (hhint : HintOk u)
    (hrun : alloc32 u = some (u', out)) (hne : out ≠ 0) (hsome : (ahead u top).Nonempty) :
    (u.lastAlloc / 32 ≤ out / 131072 ∧ out < 131072 * top) ∧
      u.lastAlloc / 32 ≤ u'.lastAlloc / 32 ∧
        (ahead u top).card ≤ (ahead u' top).card + 1 := by
  obtain ⟨a, ha⟩ := hsome
  obtain ⟨hmem, hle, hlt⟩ := mem_ahead.mp ha
  obtain ⟨b, hfirst, rfl⟩ := alloc32_first hhint hrun hne
  obtain ⟨hhintAt, hleft⟩ := alloc32_leaves hhint hrun hne
  have hlast := hintOk_iff.mp hhint
  have hb := (mem_freeBlocks.mp (mem_otherBlocks.mp hfirst.mem).2).1
  -- what is ahead comes before what is behind the hint
  have hbefore : ∀ c ∈ ahead u top, b ≤ c := by
    intro c hc
    obtain ⟨hc, hc1, _⟩ := mem_ahead.mp hc
    have hcb := (mem_freeBlocks.mp (mem_otherBlocks.mp hc).2).1
    have hturn := hfirst.first c hc
    unfold turn at hturn
    omega
  have hba := hbefore a ha
  have hfrom : u.lastAlloc / 32 ≤ b := by
    have hturn := hfirst.first a hmem
    have hab := (mem_freeBlocks.mp (mem_otherBlocks.mp hmem).2).1
    unfold turn at hturn
    omega
  refine ⟨⟨by omega, by omega⟩, by omega, ?_⟩
  have hsub : ahead u top ⊆ insert b (ahead u' top) := by
    intro c hc
    have hbc := hbefore c hc
    obtain ⟨hc, _, hc2⟩ := mem_ahead.mp hc
    rw [Finset.mem_insert]
    by_cases hcb : c = b
    · exact Or.inl hcb
    · exact Or.inr (mem_ahead.mpr ⟨hleft c hc (by omega), by omega, hc2⟩)
  exact (Finset.card_le_card hsub).trans (Finset.card_insert_le _ _)

/-! ## 4. The calls -/

/-- **`c` calls of `alloc32`** led from `u₀` to `u`, and `chunks` are their results. -/
structure ChunksInv (u₀ u : PhysMemAllocator) (chunks : Nat → Nat) (c : Nat) : Prop where
  hint : HintOk u
  start : c = 0 → u = u₀
  first : 0 < c → ∃ u', alloc32 u₀ = some (u', chunks 0)
  chunk : ∀ i < c, Chunk u₀ u (chunks i)
  distinct : ∀ i < c, ∀ i' < c, chunks i = chunks i' → i = i'
  grows : ∀ p, frameBit u₀ p = true → frameBit u p = true
  blocks : 32 ≤ (otherBlocks u).card + c
  below : ∀ top, 32 ≤ (ahead u₀ top).card →
    32 ≤ (ahead u top).card + c ∧ u₀.lastAlloc / 32 ≤ u.lastAlloc / 32 ∧
      ∀ i < c, u₀.lastAlloc / 32 ≤ chunks i / 131072 ∧ chunks i < 131072 * top

theorem ChunksInv.zero {u : PhysMemAllocator} {chunks : Nat → Nat} (hhint : HintOk u)
    (hfree : 33 ≤ (freeBlocks u).card) : ChunksInv u u chunks 0 := by
  refine ⟨hhint, fun _ => rfl, fun h => absurd h (by omega), fun i hi => absurd hi (by omega),
    fun i hi => absurd hi (by omega), fun p hp => hp, ?_,
    fun top htop => ⟨htop.trans (Nat.le_add_right _ _), Nat.le_refl _, fun i hi => absurd hi (by omega)⟩⟩
  have hcard := Finset.pred_card_le_card_erase (s := freeBlocks u) (a := 0)
  unfold otherBlocks
  omega

/-- **One call**: it answers a new chunk. -/
theorem ChunksInv.alloc {u₀ u : PhysMemAllocator} {chunks : Nat → Nat} {c : Nat}
    (hI : ChunksInv u₀ u chunks c) (hc : c < 32) :
    ∃ u' out, alloc32 u = some (u', out) ∧
      ChunksInv u₀ u' (Function.update chunks c out) (c + 1) := by
  have hblocks := hI.blocks
  obtain ⟨u', out, hrun, hhint, hcases⟩ := alloc32_blocks hI.hint
  obtain ⟨hnew, hmono, hcard⟩ := hcases.resolve_left fun h => by
    rw [h.2, Finset.card_empty] at hblocks
    omega
  have hself : Function.update chunks c out c = out := Function.update_self _ _ _
  have hold : ∀ i < c, Function.update chunks c out i = chunks i :=
    fun i hi => Function.update_of_ne (by omega) _ _
  refine ⟨u', out, hrun, hhint, fun h => absurd h (by omega), fun _ => ?_,
    fun i hi => ?_, fun i hi i' hi' heq => ?_, fun p hp => hmono p (hI.grows p hp), by omega,
    fun top htop => ?_⟩
  · rcases Nat.eq_zero_or_pos c with rfl | hpos
    · rw [hself, ← hI.start rfl]
      exact ⟨u', hrun⟩
    · rw [hold 0 hpos]
      exact hI.first hpos
  · rcases Nat.lt_succ_iff_lt_or_eq.mp hi with hlt | rfl
    · rw [hold i hlt]
      exact (hI.chunk i hlt).widen (fun _ hp => hp) hmono
    · rw [hself]
      exact hnew.widen hI.grows fun _ hp => hp
  · rcases Nat.lt_succ_iff_lt_or_eq.mp hi with hlt | rfl
    · rcases Nat.lt_succ_iff_lt_or_eq.mp hi' with hlt' | rfl
      · rw [hold i hlt, hold i' hlt'] at heq
        exact hI.distinct i hlt i' hlt' heq
      · rw [hold i hlt, hself] at heq
        exact absurd heq ((hI.chunk i hlt).apart hnew)
    · rcases Nat.lt_succ_iff_lt_or_eq.mp hi' with hlt' | rfl
      · rw [hold i' hlt', hself] at heq
        exact absurd heq.symm ((hI.chunk i' hlt').apart hnew)
      · rfl
  · obtain ⟨hleft, hfrom, hbelow⟩ := hI.below top htop
    obtain ⟨hlow, hforward, hcount⟩ := alloc32_ahead hI.hint hrun hnew.ne
      (Finset.card_pos.mp (show 0 < (ahead u top).card by omega))
    refine ⟨by omega, hfrom.trans hforward, fun i hi => ?_⟩
    rcases Nat.lt_succ_iff_lt_or_eq.mp hi with hlt | rfl
    · rw [hold i hlt]
      exact hbelow i hlt
    · rw [hself]
      exact ⟨hfrom.trans hlow.1, hlow.2⟩

/-- A frame of two chunks is at one place of one chunk. -/
theorem ChunksInv.frame_inj {u₀ u : PhysMemAllocator} {chunks : Nat → Nat} {c i i' j j' : Nat}
    (hI : ChunksInv u₀ u chunks c) (hi : i < c) (hi' : i' < c) (hj : j < 32) (hj' : j' < 32)
    (heq : chunks i + 4096 * j = chunks i' + 4096 * j') : i = i' ∧ j = j' := by
  have h1 := (hI.chunk i hi).aligned
  have h2 := (hI.chunk i' hi').aligned
  have hchunks : chunks i = chunks i' := by omega
  exact ⟨hI.distinct i hi i' hi' hchunks, by omega⟩

/-! ## 5. The block of the hint -/

/-- **The block of the hint** is handed out when it is free. -/
theorem alloc32_here {u : PhysMemAllocator} {b : Nat} (hb : u.lastAlloc / 32 = b) (h0 : b ≠ 0)
    (hfree : b ∈ freeBlocks u) : ∃ u', alloc32 u = some (u', 131072 * b) := by
  have hlt := (mem_freeBlocks.mp hfree).1
  have hbytes : bitmapBytes = 131072 := by decide
  have hstart : u.lastAlloc / 8 - u.lastAlloc / 8 % b32 = 4 * b := by
    have hb32 : b32 = 4 := rfl
    rw [hb32]
    omega
  rcases attempt_tryAlloc32 u (4 * b) (by omega) (by omega) with h1 | h1
  · obtain ⟨f, hf, ht, hout⟩ := h1
    have hal := ht.aligned
    have hfb : 4096 * f = 131072 * b := by omega
    rw [hfb] at hout
    have hstop : scanStep (fun _ => bitmapBytes) b32 tryAlloc32 (4 * b, u) =
        .inr (tryAlloc32 u (4 * b)) := by
      have hin : 4 * b < bitmapBytes := by omega
      have hne : (tryAlloc32 u (4 * b)).2 ≠ 0 := by
        rw [hout]
        omega
      simp only [scanStep, if_pos hin, if_pos hne]
    have hscan : scan (fun _ => bitmapBytes) b32 tryAlloc32 (4 * b) u =
        some ((tryAlloc32 u (4 * b)).1, 131072 * b) := by
      unfold scan
      rw [FuelLoop.run_stop hstop]
      exact congrArg some (Prod.ext rfl hout)
    refine ⟨(tryAlloc32 u (4 * b)).1, ?_⟩
    unfold alloc32 allocWith
    dsimp only
    rw [hstart, hscan]
    exact if_pos (by omega)
  · exact absurd (h1.2 (32 * b) (by omega) (by omega)) (not_occupied_of_mem hfree)

end OsPlayground.Heap
