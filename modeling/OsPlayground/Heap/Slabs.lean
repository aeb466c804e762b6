/-
  File:      OsPlayground/Heap/Slabs.lean
  Subject:   THE SCAN LAW OF THE SLABS (heap_allocator.cpp, `slab8_malloc`, `slab16_malloc`,
             `slab32_malloc`).

  * `Scans` -- what one call does: the first clear slot, its bit set, inside the chunk, or null;
  * `slabMallocOf_scans` -- every slab function does it, for every bitmap;
  * `slabRun_answers` -- from a bitmap of zeros the calls hand out the slots in order, then null;
  * `slab_scan` -- both for the three functions, with the number of slots of each.
-/
import OsPlayground.Heap.Safety

namespace OsPlayground.Heap

/-! ## 1. One call -/

/-- **What a call of the slab does** in state `s`: it answers the first slot whose bit is clear,
    sets that bit and no other, and stays inside the chunk; it answers null when every bit is set,
    and then only, and changes nothing. -/
structure Scans (k : SlabKind) (s s' : HeapAllocator) (out : Nat) : Prop where
  least : ∀ q, IsLeast {p | p < slots k.slot ∧ Bits.bit (s.bitmapOf k) p = false} q →
    out = s.slabOf k + q * k.slot ∧
      s.slabOf k ≤ out ∧ out + k.slot ≤ s.slabOf k + pageSize * chunkPages ∧
      ∀ p, Bits.bit (s'.bitmapOf k) p = (Bits.bit (s.bitmapOf k) p || decide (p = q))
  null : out = 0 ↔ ∀ p < slots k.slot, Bits.bit (s.bitmapOf k) p = true
  unchanged : (∀ p < slots k.slot, Bits.bit (s.bitmapOf k) p = true) → s' = s
  frame : s' = s.setBitmap k (s'.bitmapOf k)

variable {s : HeapAllocator}

/-- **Every slab function scans**, whatever its bitmap holds. -/
theorem slabMallocOf_scans (k : SlabKind) (h : ChunkAt (s.slabOf k)) :
    ∃ s' out, slabMallocOf k s = some (s', out) ∧ Scans k s s' out := by
  obtain ⟨s', out, hrun, ⟨q, hq, rfl, rfl⟩ | ⟨rfl, rfl, hfull⟩⟩ := slabMallocOf_scan k h
  · refine ⟨_, _, hrun, fun p hp => ?_, ?_, fun hfull => ?_, ?_⟩
    · obtain rfl : p = q := hp.unique hq
      have hin : k.slot * p + k.slot ≤ pageSize * chunkPages := slot_inside hq.1.1
      refine ⟨by rw [Nat.mul_comm], Nat.le_add_right _ _, by omega, fun i => ?_⟩
      rw [bitmapOf_setBitmap, if_pos rfl, Bits.bit_setBit]
    · refine iff_of_false (fun h0 => ?_) fun hfull => ?_
      · have hpos := h.pos
        omega
      · have hset := hfull q hq.1.1
        rw [hq.1.2] at hset
        cases hset
    · have hset := hfull q hq.1.1
      rw [hq.1.2] at hset
      cases hset
    · rw [bitmapOf_setBitmap, if_pos rfl]
  · refine ⟨_, _, hrun, fun q hq => ?_, iff_of_true rfl hfull, fun _ => rfl,
      (setBitmap_self k).symm⟩
    have hset := hfull q hq.1.1
    rw [hq.1.2] at hset
    cases hset

/-! ## 2. Calls from a bitmap of zeros -/

/-- `n` calls of a slab function; the answers in order. -/
def slabRun (f : HeapAllocator → Option (HeapAllocator × Nat)) (s : HeapAllocator) (n : Nat) :
    Option (HeapAllocator × List Nat) :=
  Exec.run (fun s (_ : Unit) => f s) s (List.replicate n ())

/-- The first `n` slots of the slab are taken, and no others. -/
structure TakenBelow (k : SlabKind) (s : HeapAllocator) (n : Nat) (s' : HeapAllocator) : Prop where
  slab : s'.slabOf k = s.slabOf k
  bits : ∀ p < slots k.slot, Bits.bit (s'.bitmapOf k) p = decide (p < n)

/-- The answer of call `n` from a bitmap of zeros. -/
def answerAt (k : SlabKind) (slab n : Nat) : Nat := if n < slots k.slot then slab + n * k.slot else 0

/-- One more call takes the next slot, or finds none. -/
theorem TakenBelow.call {k : SlabKind} {n : Nat} {s' : HeapAllocator} (h : TakenBelow k s n s')
    (hc : ChunkAt (s.slabOf k)) :
    ∃ s'', slabMallocOf k s' = some (s'', answerAt k (s.slabOf k) n) ∧
      TakenBelow k s (n + 1) s'' := by
  obtain ⟨s'', out, hrun, hcase⟩ := slabMallocOf_scan (s := s') k (by rw [h.slab]; exact hc)
  rw [h.slab] at hcase
  unfold answerAt
  by_cases hn : n < slots k.slot
  · -- slot `n` is the first one clear
    have hleast : IsLeast (clearSlots k.slot (s'.bitmapOf k)) n := by
      refine ⟨⟨hn, ?_⟩, fun p hp => ?_⟩
      · rw [h.bits n hn]
        exact decide_eq_false (lt_irrefl n)
      · obtain ⟨hp1, hp2⟩ := hp
        rw [h.bits p hp1] at hp2
        exact not_lt.mp (of_decide_eq_false hp2)
    rcases hcase with ⟨q, hq, rfl, rfl⟩ | ⟨_, _, hfull⟩
    · obtain rfl : q = n := hq.unique hleast
      rw [Nat.mul_comm] at hrun
      rw [if_pos hn]
      refine ⟨_, hrun, by rw [slabOf_setBitmap, h.slab], fun p hp => ?_⟩
      rw [bitmapOf_setBitmap, if_pos rfl, Bits.bit_setBit, h.bits p hp, ← Bool.decide_or]
      exact decide_eq_decide.mpr (by omega)
    · have hset := hfull n hn
      rw [hleast.1.2] at hset
      cases hset
  · rw [if_neg hn]
    rcases hcase with ⟨q, hq, _, _⟩ | ⟨rfl, rfl, _⟩
    · obtain ⟨hq1, hq2⟩ := hq.1
      rw [h.bits q hq1] at hq2
      have := of_decide_eq_false hq2
      omega
    · refine ⟨_, hrun, h.slab, fun p hp => ?_⟩
      rw [h.bits p hp]
      exact decide_eq_decide.mpr (by omega)

/-- **From a bitmap of zeros** the calls answer the slots in order, and null once all are
    given. -/
theorem slabRun_answers (k : SlabKind) (hc : ChunkAt (s.slabOf k))
    (hzero : ∀ i < slabBitmapBytes k.slot, s.bitmapOf k i = 0) (n : Nat) :
    ∃ s', slabRun (slabMallocOf k) s n =
        some (s', (List.range n).map (answerAt k (s.slabOf k))) ∧ TakenBelow k s n s' := by
  induction n with
  | zero =>
      refine ⟨s, rfl, rfl, fun p hp => ?_⟩
      unfold slots at hp
      unfold Bits.bit
      rw [hzero _ (by omega)]
      exact BitVec.getLsbD_zero
  | succ n ih =>
      obtain ⟨s', hrun, htaken⟩ := ih
      obtain ⟨s'', hcall, htaken'⟩ := htaken.call hc
      refine ⟨s'', ?_, htaken'⟩
      unfold slabRun
      rw [List.replicate_succ', List.range_succ, List.map_append]
      exact Exec.run_append.mpr ⟨s', _, _, hrun, Exec.run_cons.mpr ⟨s'', _, [], hcall, rfl, rfl⟩, rfl⟩

/-! ## 3. The three functions -/

/-- **The scan law** of slab function `f` with `count` slots: every call does what `Scans` says,
    and from a bitmap of zeros exactly the first `count` of any number of calls succeed, with the
    slots 0, 1, 2, ... in order. -/
structure ScanLaw (k : SlabKind) (f : HeapAllocator → Option (HeapAllocator × Nat)) (count : Nat)
    (s : HeapAllocator) : Prop where
  call : ∃ s' out, f s = some (s', out) ∧ Scans k s s' out
  calls : (∀ i < slabBitmapBytes k.slot, s.bitmapOf k i = 0) → ∀ n, ∃ s',
    slabRun f s n =
      some (s', (List.range n).map fun i => if i < count then s.slabOf k + i * k.slot else 0)

theorem slabMallocOf_law (k : SlabKind) (h : ChunkAt (s.slabOf k)) :
    ScanLaw k (slabMallocOf k) (slots k.slot) s := by
  refine ⟨slabMallocOf_scans k h, fun hzero n => ?_⟩
  obtain ⟨s', hrun, _⟩ := slabRun_answers k h hzero n
  exact ⟨s', hrun⟩

/-- **The slab scan law**: the three hand-written functions, over every bitmap. -/
theorem slab_scan (h8 : ChunkAt s.slab8) (h16 : ChunkAt s.slab16) (h32 : ChunkAt s.slab32) :
    ScanLaw .slab8 slab8Malloc 16384 s ∧ ScanLaw .slab16 slab16Malloc 8192 s ∧
      ScanLaw .slab32 slab32Malloc 4096 s :=
  ⟨slabMallocOf_law .slab8 h8, slabMallocOf_law .slab16 h16, slabMallocOf_law .slab32 h32⟩

/-- The heap at 4 MiB. -/
theorem slab_scan_fresh : ScanLaw .slab8 slab8Malloc 16384 (freshHeap 0x400000) ∧
    ScanLaw .slab16 slab16Malloc 8192 (freshHeap 0x400000) ∧
    ScanLaw .slab32 slab32Malloc 4096 (freshHeap 0x400000) :=
  slab_scan ⟨by decide, by decide⟩ ⟨by decide, by decide⟩ ⟨by decide, by decide⟩

end OsPlayground.Heap
