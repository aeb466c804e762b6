/-
  File:      OsPlayground/PhysMem/Reflects.lean
  Subject:   THE BITMAP AFTER THE INTAKE against the memory map.

  The marking loop rounds the first address of an entry down to its page and ends before the first
  page past the entry. For an entry of at least one byte that ends by 4 GiB these are the pages
  that meet it, whatever byte it begins or ends at.

  * `page_meets`, `marks_iff_meets` -- the pages the loop visits are those that meet the entry;
  * `bit_iff_meets` -- the bits set are those of the pages that meet an unavailable entry, the
    kernel image or the text page;
  * `bitmap_reflects` -- the intake ends, the bitmap says so, and it depends on the entries as a
    set only.
-/
import OsPlayground.PhysMem.RealRam

namespace OsPlayground.PhysMem

/-! ## 1. Entries below 4 GiB -/

/-- An entry with at least one byte that ends at or below 4 GiB. -/
structure MmapEntry.Low (e : MmapEntry) : Prop where
  nonempty : 1 ≤ e.len.toNat
  below : e.addr.toNat + e.len.toNat ≤ 0x100000000

/-- A kernel image: it has at least one byte. -/
structure LoadedImage extends KernelExtent where
  nonempty : kernelStart < kernelEnd

/-- **Page `p` meets memory that is not to be handed out**: an entry of a type other than
    AVAILABLE and ACPI_RECLAIMABLE, the kernel image or the text page. -/
def MeetsUnavailable (es : List MmapEntry) (K : KernelExtent) (p : Nat) : Prop :=
  ∃ a, a / pageSize = p ∧ (Reserved es a ∨ InImage K a ∨ InTermBuffer a)

/-- The pages from the one an address lies in to the end of a region are those that meet it. -/
theorem page_meets {base len : Nat} (hlen : 1 ≤ len) (p : Nat) :
    (base - base % 4096 ≤ 4096 * p ∧ 4096 * p < base + len) ↔
      ∃ a, a / 4096 = p ∧ base ≤ a ∧ a < base + len := by
  constructor
  · intro h
    obtain ⟨hfirst, hlast⟩ := h
    by_cases hle : base ≤ 4096 * p
    · exact ⟨4096 * p, Nat.mul_div_cancel_left p (by decide), hle, hlast⟩
    · exact ⟨base, by omega, Nat.le_refl _, by omega⟩
  · intro h
    obtain ⟨a, hp, hfirst, hlast⟩ := h
    omega

/-- **An unavailable entry marks the pages that meet it.** -/
theorem marks_iff_meets {e : MmapEntry} {base len : Nat} (hlen : 1 ≤ len)
    (hbelow : base + len ≤ 0x100000000) (hav : ¬ e.Available)
    (hvisits : ∀ a, e.Visits a ↔ a % 4096 = 0 ∧ base - base % 4096 ≤ a ∧ a < base + len)
    (p : Nat) : Marks e p ↔ ∃ a, a / pageSize = p ∧ base ≤ a ∧ a < base + len := by
  have hsize : pageSize = 4096 := rfl
  rw [hsize, ← page_meets hlen]
  constructor
  · intro h
    obtain ⟨_, a, ha, hp⟩ := h
    obtain ⟨hmod, hfirst, hlast⟩ := (hvisits a).mp ha
    have hpage : a = 4096 * p := by omega
    rw [← hpage]
    exact ⟨hfirst, hlast⟩
  · intro h
    refine ⟨hav, 4096 * p, (hvisits _).mpr ⟨Nat.mul_mod_right 4096 p, h.1, h.2⟩, ?_⟩
    omega

theorem MmapEntry.Low.visits {e : MmapEntry} (h : e.Low) (a : Nat) : e.Visits a ↔
    a % 4096 = 0 ∧ e.addr.toNat - e.addr.toNat % 4096 ≤ a ∧
      a < e.addr.toNat + e.len.toNat := by
  refine visits_ofNat (by simp) (by simp) ?_ a
  exact lt_of_le_of_lt h.below (by decide)

theorem MmapEntry.Low.safe {e : MmapEntry} (h : e.Low) : EntrySafe e :=
  entrySafe_of_visits fun a ha => lt_of_lt_of_le ((h.visits a).mp ha).2.2 h.below

theorem MmapEntry.Low.marks {e : MmapEntry} (h : e.Low) (p : Nat) :
    Marks e p ↔ ¬ e.Available ∧ ∃ a, a / pageSize = p ∧ e.Covers a := by
  by_cases hav : e.Available
  · exact iff_of_false (fun hm => hm.1 hav) fun hm => hm.1 hav
  · rw [marks_iff_meets h.nonempty h.below hav h.visits p]
    exact (and_iff_right hav).symm

/-! ## 2. The bitmap -/

theorem reserved_unavailable {e : MmapEntry} (h : e.type = memoryReserved) : ¬ e.Available := by
  unfold MmapEntry.Available
  rw [h]
  decide

theorem image_marks (K : LoadedImage) (p : Nat) :
    Marks (kernelMmap K.toKernelExtent) p ↔ ∃ a, a / pageSize = p ∧ InImage K.toKernelExtent a :=
  marks_iff_meets (Nat.sub_pos_of_lt K.nonempty) K.below (reserved_unavailable rfl)
    (kernelMmap_visits K.toKernelExtent) p

theorem termBuffer_marks (p : Nat) : Marks vgaMmap p ↔ ∃ a, a / pageSize = p ∧ InTermBuffer a := by
  refine marks_iff_meets (by decide) (by decide) (reserved_unavailable rfl) (fun a => ?_) p
  rw [vgaMmap_visits]
  simp only [termBuffer, termBufferLen]
  omega

/-- **The marked pages are those that meet unavailable memory.** -/
theorem marked_iff_meets {es : List MmapEntry} (hlow : ∀ e ∈ es, e.Low) (K : LoadedImage)
    (p : Nat) : Marked es K.toKernelExtent p ↔ MeetsUnavailable es K.toKernelExtent p := by
  have hentries : (∃ e ∈ es, Marks e p) ↔ ∃ a, a / pageSize = p ∧ Reserved es a := by
    constructor
    · intro h
      obtain ⟨e, he, hm⟩ := h
      obtain ⟨hav, a, hp, ha⟩ := ((hlow e he).marks p).mp hm
      exact ⟨a, hp, e, he, hav, ha⟩
    · intro h
      obtain ⟨a, hp, e, he, hav, ha⟩ := h
      exact ⟨e, he, ((hlow e he).marks p).mpr ⟨hav, a, hp, ha⟩⟩
  unfold Marked MeetsUnavailable
  rw [hentries, image_marks K, termBuffer_marks]
  simp only [and_or_left, exists_or]

section Intake

variable {mem : Nat → BitVec 8} {K : LoadedImage} {mmapLength mmapAddr : Nat}
  {es : List MmapEntry} {s : PhysMemAllocator}

/-- **The bits set after the intake** are those of the pages that meet unavailable memory. -/
theorem bit_iff_meets (hw : WellFormedMap mem mmapLength mmapAddr es) (hlow : ∀ e ∈ es, e.Low)
    {fuel : Nat} {s' : PhysMemAllocator}
    (h : initMmap fuel mem K.toKernelExtent mmapLength mmapAddr s = some (.ok s')) {p : Nat}
    (hp : p < numPages) : frameBit s' p = true ↔ MeetsUnavailable es K.toKernelExtent p := by
  obtain ⟨_, _, hbits⟩ := intake_free hw h
  rw [hbits p hp, marked_iff_meets hlow K]

end Intake

/-- What pages meet depends on the entries as a set. -/
theorem meets_congr {es es' : List MmapEntry} (h : ∀ e, e ∈ es' ↔ e ∈ es) (K : KernelExtent)
    (p : Nat) : MeetsUnavailable es' K p ↔ MeetsUnavailable es K p := by
  unfold MeetsUnavailable Reserved
  simp only [h]

/-- **The bitmap reflects the map**, for every well-formed map of low entries, every kernel image
    and whatever the bitmap held before: the intake ends, a page has its bit set when it meets
    unavailable memory, clear when it is real RAM, and any other map with the same entries, in
    whatever order and however often, leaves the same bits. -/
theorem bitmap_reflects (mem : Nat → BitVec 8) (K : LoadedImage) (mmapLength mmapAddr : Nat)
    (es : List MmapEntry) (s : PhysMemAllocator)
    (hw : WellFormedMap mem mmapLength mmapAddr es) (hlow : ∀ e ∈ es, e.Low) :
    ∃ fuel s', initMmap fuel mem K.toKernelExtent mmapLength mmapAddr s = some (.ok s') ∧
      (∀ p < numPages, MeetsUnavailable es K.toKernelExtent p → frameBit s' p = true) ∧
      (∀ p < numPages, RealRam es K.toKernelExtent p → frameBit s' p = false) ∧
      ∀ (mem' : Nat → BitVec 8) (mmapLength' mmapAddr' : Nat) (es' : List MmapEntry)
        (s₀ : PhysMemAllocator), WellFormedMap mem' mmapLength' mmapAddr' es' →
        (∀ e, e ∈ es' ↔ e ∈ es) →
        ∃ fuel' s'', initMmap fuel' mem' K.toKernelExtent mmapLength' mmapAddr' s₀ =
            some (.ok s'') ∧ ∀ p < numPages, frameBit s'' p = frameBit s' p := by
  obtain ⟨fuel, s', hok⟩ := hw.intake (K := K.toKernelExtent) (s := s) fun e he => (hlow e he).safe
  refine ⟨fuel, s', hok, fun p hp => (bit_iff_meets hw hlow hok hp).mpr, fun p hp hreal => ?_, ?_⟩
  · rw [← Bool.not_eq_true, bit_iff_meets hw hlow hok hp]
    intro hmeets
    obtain ⟨a, ha, hmeets⟩ := hmeets
    obtain ⟨_, hres, himage, hterm⟩ := hreal a ha
    rcases hmeets with h | h | h
    · exact hres h
    · exact himage h
    · exact hterm h
  · intro mem' mmapLength' mmapAddr' es' s₀ hw' hsame
    have hlow' : ∀ e ∈ es', e.Low := fun e he => hlow e ((hsame e).mp he)
    obtain ⟨fuel', s'', hok'⟩ :=
      hw'.intake (K := K.toKernelExtent) (s := s₀) fun e he => (hlow' e he).safe
    refine ⟨fuel', s'', hok', fun p hp => ?_⟩
    rw [Bool.eq_iff_iff, bit_iff_meets hw' hlow' hok' hp, bit_iff_meets hw hlow hok hp,
      meets_congr hsame]

/-- The image of 4.1 MiB. -/
def loadedImage : LoadedImage := { smallImage with nonempty := by decide }

/-- A map of five entries: the RAM below and above 1 MiB, and reserved regions, of which one begins
    inside a page, and one inside a page of the RAM it overlaps and is there twice. -/
def pcMap : Nat → BitVec 8 :=
  bytesAt 0xc0009000
    [0x14, 0, 0, 0, 0, 0, 0, 0, 0, 0, 0, 0, 0x00, 0xfc, 0x09, 0, 0, 0, 0, 0, 0x01, 0, 0, 0,
      0x14, 0, 0, 0, 0x00, 0xfc, 0x09, 0, 0, 0, 0, 0, 0x00, 0x04, 0, 0, 0, 0, 0, 0, 0x02, 0, 0, 0,
      0x14, 0, 0, 0, 0x00, 0xf8, 0xfd, 0x07, 0, 0, 0, 0, 0x00, 0x08, 0x02, 0, 0, 0, 0, 0,
      0x02, 0, 0, 0,
      0x14, 0, 0, 0, 0, 0, 0x10, 0, 0, 0, 0, 0, 0, 0, 0xee, 0x07, 0, 0, 0, 0, 0x01, 0, 0, 0,
      0x14, 0, 0, 0, 0x00, 0xf8, 0xfd, 0x07, 0, 0, 0, 0, 0x00, 0x08, 0x02, 0, 0, 0, 0, 0,
      0x02, 0, 0, 0]

/-- The RAM below 640 KiB. -/
def lowRam : MmapEntry := ⟨20, 0, 0x9fc00, 1⟩

/-- The 1 KiB above it. -/
def bootArea : MmapEntry := ⟨20, 0x9fc00, 0x400, 2⟩

/-- The RAM from 1 MiB on. -/
def highRam : MmapEntry := ⟨20, 0x100000, 0x7ee0000, 1⟩

/-- The last 130 KiB of the first 128 MiB, of which 2 KiB lie in that RAM. -/
def topArea : MmapEntry := ⟨20, 0x7fdf800, 0x20800, 2⟩

/-- The same entries in another order, each once. -/
def pcMapSorted : Nat → BitVec 8 :=
  bytesAt 0x9000
    [0x14, 0, 0, 0, 0x00, 0xf8, 0xfd, 0x07, 0, 0, 0, 0, 0x00, 0x08, 0x02, 0, 0, 0, 0, 0,
      0x02, 0, 0, 0,
      0x14, 0, 0, 0, 0, 0, 0x10, 0, 0, 0, 0, 0, 0, 0, 0xee, 0x07, 0, 0, 0, 0, 0x01, 0, 0, 0,
      0x14, 0, 0, 0, 0x00, 0xfc, 0x09, 0, 0, 0, 0, 0, 0x00, 0x04, 0, 0, 0, 0, 0, 0, 0x02, 0, 0, 0,
      0x14, 0, 0, 0, 0, 0, 0, 0, 0, 0, 0, 0, 0x00, 0xfc, 0x09, 0, 0, 0, 0, 0, 0x01, 0, 0, 0]

theorem wellFormed_pcMap :
    WellFormedMap pcMap 120 0xc0009000 [lowRam, bootArea, topArea, highRam, topArea] := by
  refine ⟨by decide, .read (by decide) (by decide) (by decide) ?_⟩
  refine .read (by decide) (by decide) (by decide) ?_
  refine .read (by decide) (by decide) (by decide) ?_
  refine .read (by decide) (by decide) (by decide) ?_
  exact .read (by decide) (by decide) (by decide) .done

theorem wellFormed_pcMapSorted :
    WellFormedMap pcMapSorted 96 0x9000 [topArea, highRam, bootArea, lowRam] := by
  refine ⟨by decide, .read (by decide) (by decide) (by decide) ?_⟩
  refine .read (by decide) (by decide) (by decide) ?_
  refine .read (by decide) (by decide) (by decide) ?_
  exact .read (by decide) (by decide) (by decide) .done

/-- The theorem at that map: the pages that the reserved regions begin in are taken, also the one
    that is half RAM, a page of RAM is free, and the other map leaves the same bits. -/
theorem bitmap_reflects_pcMap :
    ∃ fuel s' fuel' s'',
      initMmap fuel pcMap loadedImage.toKernelExtent 120 0xc0009000 ⟨fun _ => 0, 0⟩ =
        some (.ok s') ∧
      initMmap fuel' pcMapSorted loadedImage.toKernelExtent 96 0x9000 ⟨fun _ => 0xff, 7⟩ =
        some (.ok s'') ∧
      frameBit s' 0x9f = true ∧ frameBit s' 0x7fdf = true ∧ frameBit s' 0x7fff = true ∧
      frameBit s' 0x7fde = false ∧ ∀ p < numPages, frameBit s'' p = frameBit s' p := by
  have hlow : ∀ e ∈ [lowRam, bootArea, topArea, highRam, topArea], e.Low := by
    intro e he
    simp only [List.mem_cons, List.not_mem_nil, or_false] at he
    rcases he with rfl | rfl | rfl | rfl | rfl <;> exact ⟨by decide, by decide⟩
  obtain ⟨fuel, s', hok, hmeets, hreal, hsame⟩ := bitmap_reflects pcMap loadedImage 120 0xc0009000
    [lowRam, bootArea, topArea, highRam, topArea] ⟨fun _ => 0, 0⟩ wellFormed_pcMap hlow
  obtain ⟨fuel', s'', hok', hbits⟩ := hsame pcMapSorted 96 0x9000
    [topArea, highRam, bootArea, lowRam] ⟨fun _ => 0xff, 7⟩ wellFormed_pcMapSorted (by
      intro e
      simp only [List.mem_cons, List.not_mem_nil, or_false]
      tauto)
  have hboot : bootArea ∈ [lowRam, bootArea, topArea, highRam, topArea] := by simp
  have htop : topArea ∈ [lowRam, bootArea, topArea, highRam, topArea] := by simp
  refine ⟨fuel, s', fuel', s'', hok, hok', hmeets _ (by decide) ?_, hmeets _ (by decide) ?_,
    hmeets _ (by decide) ?_, hreal _ (by decide) fun a ha => ?_, hbits⟩
  · exact ⟨0x9fc00, by decide, Or.inl ⟨bootArea, hboot, by decide, by decide, by decide⟩⟩
  · exact ⟨0x7fdf800, by decide, Or.inl ⟨topArea, htop, by decide, by decide, by decide⟩⟩
  · exact ⟨0x7fff000, by decide, Or.inl ⟨topArea, htop, by decide, by decide, by decide⟩⟩
  · have hpage : a / 4096 = 0x7fde := ha
    have hbase : highRam.addr.toNat = 0x100000 := by decide
    have hlen : highRam.len.toNat = 0x7ee0000 := by decide
    refine ⟨⟨highRam, by simp, by decide, ?_⟩, fun hres => ?_, fun himage => ?_, fun hterm => ?_⟩
    · unfold MmapEntry.Covers
      omega
    · obtain ⟨e, he, hav, hlo, hhi⟩ := hres
      simp only [List.mem_cons, List.not_mem_nil, or_false] at he
      have hboot : bootArea.addr.toNat + bootArea.len.toNat = 0xa0000 := by decide
      have htop : topArea.addr.toNat = 0x7fdf800 := by decide
      rcases he with rfl | rfl | rfl | rfl | rfl
      · exact hav (by decide)
      · omega
      · omega
      · exact hav (by decide)
      · omega
    · have hin := ((smallImage_pages 0x7fde).2 a ha).mp himage
      omega
    · have hin := ((termBuffer_page 0x7fde).2 a ha).mp hterm
      omega

end OsPlayground.PhysMem
