/-
  File:      OsPlayground/VirtMem/Reserved.lean
  Subject:   DO RESERVED BLOCKS STAY RESERVED? `reserve_block` records a reservation by loading the
             block's table. The search of `map_page(nullptr, phys)` takes any unmapped page, and a
             reserved block whose pages are not yet mapped is full of them.

  * `Room` -- below every unmapped page of a reserved block there is an unmapped page that is not
    reserved;
  * `anonymous_reserved_iff` -- the page returned is a reserved one exactly where there is no room;
  * **`reserved_stay`** -- over runs with room reserved blocks stay reserved;
  * `reserved_stay_boot` -- the start of a boot is such a run;
  * `not_reserved_stay` -- the image that fills its blocks, where the first call takes a reserved
    page.
-/
import OsPlayground.VirtMem.Stable

namespace OsPlayground.VirtMem

open Paging Halting

/-- The block a call of `reserve_block` returned. -/
def reservedBlock : VirtCall → Nat → Option Nat
  | .reserveBlock, b => if b = 0 then none else some b
  | _, _ => none

/-- The blocks that `reserve_block` returned. -/
def reservedBlocks (h : History) : List Nat := h.filterMap fun x => reservedBlock x.1 x.2

/-- **Reserved blocks stay reserved**: no page of a block that some `reserve_block` returned is
    returned by `map_page(nullptr, _)`, and no block is returned twice. -/
def StaysReserved (h : History) : Prop :=
  (∀ q ∈ anonymousPages h, ¬ InReserved h q) ∧ (reservedBlocks h).Nodup

variable (I : KernelImage)

/-- **Room outside the reserved blocks**: below every unmapped page of a reserved block there is
    an unmapped page from `_kernel_start` on that is not reserved. -/
def Room (h : History) (m : Ram) : Prop :=
  ∀ v, v % 4096 = 0 → InReserved h v → walk m I.pageDir v = none →
    ∃ u, u % 4096 = 0 ∧ kernelStart ≤ u ∧ u < v ∧ walk m I.pageDir u = none ∧ ¬ InReserved h u

/-- A start-up call that finds room when it looks for a page. -/
def Roomy (h : History) (vm : Vm) (c : VirtCall) : Prop :=
  Startup h vm c ∧ ∀ phys, c = .mapPage 0 phys → Room I h vm.ram

variable {I} {m m' : Ram} {vm vm' : Vm} {h : History}

/-! ## 1. The page returned -/

theorem RunInv.inReserved (hI : RunInv I h vm) {v : Nat} (hv : InReserved h v) :
    kernelStart ≤ v ∧ v < 0x100000000 := by
  obtain ⟨b, hb, hin⟩ := hv
  have hblock := hI.reserved b hb
  obtain ⟨hslot, hlt, _⟩ := hblock.slot_of hin
  have habove := hblock.above
  have hpos := I.blocks_pos
  have hstart : kernelStart = 0xc0100000 := rfl
  exact ⟨by omega, hlt⟩

/-- **The page returned is reserved exactly where there is no room.** -/
theorem anonymous_reserved_iff (hI : RunInv I h vm) {phys q : Nat}
    (hrun : virtStep vm (.mapPage 0 phys) = (vm', some q)) (hq : q ≠ 0) :
    InReserved h q ↔ ¬ Room I h vm.ram := by
  have hphys := (mapPage_aligned hrun).2.1
  obtain ⟨_, m₁, hfound, _⟩ := (mapPage_anonymous hI.booted hI.ident hphys).of_eq hrun
  obtain ⟨hlt, hfree, _⟩ := hfound.resolve_left fun h0 => hq h0.1
  constructor
  · intro hres hroom
    obtain ⟨u, hu, hlow, huq, hnone, _⟩ := hroom q hfree.page hres hfree.free
    exact hfree.least u hu hlow huq hnone
  · intro hroom
    by_contra hres
    refine hroom fun v hv hvres hvnone => ?_
    obtain ⟨hvlow, hvlt⟩ := hI.inReserved hvres
    have hqv : q < v := by
      by_cases hlt : v < q
      · exact absurd hvnone (hfree.least v hv hvlow hlt)
      · have hne : q ≠ v := fun heq => hres (heq ▸ hvres)
        omega
    exact ⟨q, hfree.page, hfree.low, hqv, hfree.free, hres⟩

/-! ## 2. Runs -/

/-- A call returned a block, or none. -/
theorem reservedBlock_cases (c : VirtCall) (b : Nat) :
    (c = .reserveBlock ∧ b ≠ 0 ∧ reservedBlock c b = some b) ∨ reservedBlock c b = none := by
  cases c with
  | loadPageTable k => exact Or.inr rfl
  | clearIdentMap => exact Or.inr rfl
  | mapPage v phys => exact Or.inr rfl
  | reserveBlock =>
      by_cases hb : b = 0
      · exact Or.inr (if_pos hb)
      · exact Or.inl ⟨rfl, hb, if_neg hb⟩

theorem reservedBlocks_cons (c : VirtCall) (b : Nat) :
    (c = .reserveBlock ∧ b ≠ 0 ∧ reservedBlocks ((c, b) :: h) = b :: reservedBlocks h) ∨
      reservedBlocks ((c, b) :: h) = reservedBlocks h := by
  rcases reservedBlock_cases c b with h1 | h1
  · obtain ⟨hc, hb, hr⟩ := h1
    exact Or.inl ⟨hc, hb, List.filterMap_cons_some hr⟩
  · exact Or.inr (List.filterMap_cons_none h1)

theorem isReserved_of_mem {b : Nat} (hb : b ∈ reservedBlocks h) : IsReserved h b := by
  obtain ⟨⟨c, q⟩, hmem, hsome⟩ := List.mem_filterMap.mp hb
  rcases reservedBlock_cases c q with h1 | h1
  · obtain ⟨rfl, hq, heq⟩ := h1
    obtain rfl : q = b := Option.some.inj (heq.symm.trans hsome)
    exact ⟨hmem, hq⟩
  · rw [show reservedBlock c q = some b from hsome] at h1
    cases h1

/-- A page stays unreserved over a call that returns no block of it. -/
theorem not_inReserved_cons {c : VirtCall} {q v : Nat} (hold : ¬ InReserved h v)
    (hnew : c = .reserveBlock → q ≠ 0 → ¬ InBlock q v) : ¬ InReserved ((c, q) :: h) v := by
  intro hres
  obtain ⟨b, hb, hin⟩ := hres
  rcases isReserved_cons hb with hb | hb
  · obtain ⟨hc, rfl, hne⟩ := hb
    exact hnew hc hne hin
  · exact hold ⟨b, hb, hin⟩

/-- **One call with room keeps reserved blocks reserved.** -/
theorem staysReserved_step {c : VirtCall} {q : Nat} (hI : RunInv I h vm) (hS : StaysReserved h)
    (hc : Roomy I h vm c) (hrun : virtStep vm c = (vm', some q)) : StaysReserved ((c, q) :: h) := by
  obtain ⟨hstart, hroom⟩ := hc
  obtain ⟨_, heff⟩ := startup_effect hI.booted hI.ident hI.reserved hstart hrun
  have hs := hI.booted.shape
  -- a block returned now had a clear slot
  have hclear : c = .reserveBlock → q ≠ 0 → I.dirAt vm.ram (q / 4194304) = 0 ∧
      Block I vm'.ram q := by
    intro hc hq
    subst hc
    cases heff with
    | reserve hr => exact ⟨(hr.block hs hq).2, (hr.block hs hq).1⟩
  have hold : ∀ v ∈ anonymousPages h, ¬ InReserved ((c, q) :: h) v := by
    intro v hv
    refine not_inReserved_cons (hS.1 v hv) fun hc hq hin => ?_
    obtain ⟨h0, hblock⟩ := hclear hc hq
    obtain ⟨hslot, _⟩ := hblock.slot_of hin
    rw [← hslot] at h0
    exact (hI.pages v hv).2.2.2.2 h0
  refine ⟨?_, ?_⟩
  · rcases anonymousPages_cons (h := h) c q with hcons | hcons
    · obtain ⟨⟨phys, rfl⟩, hq, heq⟩ := hcons
      rw [heq]
      intro v hv
      rcases List.mem_cons.mp hv with rfl | hv
      · refine not_inReserved_cons (fun hres => ?_) fun hc => VirtCall.noConfusion hc
        exact (anonymous_reserved_iff hI hrun hq).mp hres (hroom phys rfl)
      · exact hold v hv
    · rw [hcons]
      exact hold
  · rcases reservedBlocks_cons (h := h) c q with hcons | hcons
    · obtain ⟨hc, hq, heq⟩ := hcons
      rw [heq]
      refine List.nodup_cons.mpr ⟨fun hmem => ?_, hS.2⟩
      exact (hI.reserved q (isReserved_of_mem hmem)).slot (hclear hc hq).1
    · rw [hcons]
      exact hS.2

theorem InReserved.cons {x : VirtCall × Nat} {v : Nat} (hv : InReserved h v) :
    InReserved (x :: h) v := by
  obtain ⟨b, hb, hin⟩ := hv
  exact ⟨b, ⟨List.mem_cons_of_mem x hb.1, hb.2⟩, hin⟩

/-- **A call without room takes a reserved page.** -/
theorem not_staysReserved {phys q : Nat} (hI : RunInv I h vm) (hroom : ¬ Room I h vm.ram)
    (hrun : virtStep vm (.mapPage 0 phys) = (vm', some q)) :
    ¬ StaysReserved ((.mapPage 0 phys, q) :: h) := by
  have hphys := (mapPage_aligned hrun).2.1
  obtain ⟨_, m₁, hfound, _⟩ := (mapPage_anonymous hI.booted hI.ident hphys).of_eq hrun
  have hq : q ≠ 0 := by
    intro h0
    refine hroom fun v hv hres hnone => ?_
    rcases hfound with h1 | h1
    · obtain ⟨hlow, hlt⟩ := hI.inReserved hres
      exact absurd hnone (h1.2.2 v hv hlow hlt)
    · have hlow := h1.2.1.low
      have hstart : kernelStart = 0xc0100000 := rfl
      omega
  have hres := (anonymous_reserved_iff hI hrun hq).mpr hroom
  have hpage : anonymousPage (.mapPage 0 phys) q = some q := if_neg hq
  have hmem : q ∈ anonymousPages ((.mapPage 0 phys, q) :: h) :=
    List.mem_filterMap.mpr ⟨_, List.mem_cons_self, hpage⟩
  exact fun hS => hS.1 q hmem hres.cons

/-- **Reserved blocks stay reserved over every run with room**; and in every start-up run a call
    of `map_page(nullptr, phys)` keeps them reserved exactly where there is room. -/
theorem reserved_stay (I : KernelImage) (m : Ram) (hm : LeftBySetup I m) :
    (∀ h vm, Run virtStep (Roomy I) (bootVm I m) h vm → StaysReserved h) ∧
      ∀ h vm, Run virtStep Startup (bootVm I m) h vm → StaysReserved h → ∀ phys vm' q,
        virtStep vm (.mapPage 0 phys) = (vm', some q) →
          (StaysReserved ((.mapPage 0 phys, q) :: h) ↔ Room I h vm.ram) := by
  refine ⟨fun h vm hr => ?_, fun h vm hr hS phys vm' q hrun => ⟨fun hS' => ?_, fun hroom => ?_⟩⟩
  · have hboth : RunInv I h vm ∧ StaysReserved h := by
      refine hr.inv (fun h vm => RunInv I h vm ∧ StaysReserved h) ⟨runInv_start hm, ?_⟩ ?_
      · exact ⟨fun q hq => absurd hq List.not_mem_nil, List.nodup_nil⟩
      · intro h s a s' b hI hc hrun
        exact ⟨runInv_step hI.1 hc.1 hrun, staysReserved_step hI.1 hI.2 hc hrun⟩
    exact hboth.2
  · by_contra hroom
    exact not_staysReserved (runInv_of_run hm hr) hroom hrun hS'
  · exact staysReserved_step (runInv_of_run hm hr) hS ⟨Or.inl rfl, fun _ _ => hroom⟩ hrun

/-- A page below the reserved block is not in it. -/
theorem not_inReserved_below {h : History} (hblocks : ∀ b, IsReserved h b → b = 0xc0800000) {v : Nat}
    (hlt : v < 0xc0800000) : ¬ InReserved h v := by
  intro hres
  obtain ⟨b, hb, hin⟩ := hres
  have hlow := hin.1
  rw [hblocks b hb] at hlow
  omega

/-- With one block reserved there is room while a page below it is the first unmapped one. -/
theorem room_of_first {I : KernelImage} {h : History} {m : Ram} {u : Nat}
    (hblocks : ∀ b, IsReserved h b → b = 0xc0800000) (hu : LeastFree I m kernelStart u)
    (hlt : u < 0xc0800000) : Room I h m := by
  intro v _ hres _
  have hbelow : u < v := by
    by_contra hge
    exact not_inReserved_below hblocks (by omega) hres
  exact ⟨u, hu.page, hu.low, hbelow, hu.free, not_inReserved_below hblocks hlt⟩

/-- The block that start reserves is the only one. -/
theorem isReserved_startup {b : Nat} (hb : IsReserved startupHistory b) : b = 0xc0800000 := by
  obtain ⟨hmem, _⟩ := hb
  unfold startupHistory at hmem
  simpa using hmem

/-- The start of a boot: `map_page(nullptr, _)` finds room behind the image twice, though the block
    reserved first has unmapped pages. -/
theorem reserved_stay_boot : ∃ m vm₁ vm₂ vm₃ vm₄, StartupRun m vm₁ vm₂ vm₃ vm₄ ∧
    InReserved startupHistory 0xc0801000 ∧ walk vm₃.ram realImage.pageDir 0xc0801000 = none ∧
    Room realImage startupHistory vm₃.ram ∧
    StaysReserved ((.mapPage 0 0x902000, 0xc0521000) :: startupHistory) := by
  obtain ⟨m, vm₁, vm₂, vm₃, vm₄, h⟩ := exists_startupRun
  have hlater : ∀ b, IsReserved startupHistory.tail b → b = 0xc0800000 := fun b hb =>
    isReserved_startup ⟨List.mem_of_mem_tail hb.1, hb.2⟩
  have hroom₂ : Room realImage startupHistory.tail vm₂.ram :=
    room_of_first hlater h.first (by decide)
  have hroom₃ : Room realImage startupHistory vm₃.ram :=
    room_of_first (fun _ => isReserved_startup) h.second (by decide)
  have hc₀ : Roomy realImage [] (bootVm realImage m) .reserveBlock :=
    ⟨trivial, fun phys hc => VirtCall.noConfusion hc⟩
  have hc₁ : Roomy realImage [(.reserveBlock, 0xc0800000)] vm₁ (.mapPage 0xc0800000 0x900000) := by
    refine ⟨startup_explicit vm₁, fun phys hc => ?_⟩
    injection hc with hv
    exact absurd hv (by decide)
  have hc₂ : Roomy realImage startupHistory.tail vm₂ (.mapPage 0 0x901000) :=
    ⟨Or.inl rfl, fun _ _ => hroom₂⟩
  have hc₃ : Roomy realImage startupHistory vm₃ (.mapPage 0 0x902000) :=
    ⟨Or.inl rfl, fun _ _ => hroom₃⟩
  have hr₂ := Run.call (.call .start hc₀ h.reserve) hc₁ h.explicit
  have hr₄ := Run.call (.call hr₂ hc₂ h.page₁) hc₃ h.page₂
  refine ⟨m, vm₁, vm₂, vm₃, vm₄, h, ?_, h.unmapped, hroom₃,
    (reserved_stay realImage m h.setup).1 _ vm₄ hr₄⟩
  exact inReserved_startup (by unfold startupHistory; simp) (by decide) (by decide)

/-! ## 3. An image that fills its blocks -/

/-- An image that ends at 8 MiB. -/
def fullImage : KernelImage where
  pageDir := 0x120000
  stop := 0x800000
  aligned := by decide
  start_le := by decide
  tables_le := by decide
  stop_lt := by decide

/-- Every page from `_kernel_start` up to 0xc0800000 is one of the image. -/
theorem fullImage_mapped (hs : Shape fullImage m) {v : Nat} (hv : v % 4096 = 0)
    (hlow : kernelStart ≤ v) (hlt : v < 0xc0800000) : walk m fullImage.pageDir v ≠ none := by
  have hstart : kernelStart = 0xc0100000 := rfl
  have hbase : kernelBase = 0xc0000000 := rfl
  have hpage : fullImage.Page (v - kernelBase) := by
    have hstop : fullImage.stop = 0x800000 := rfl
    refine ⟨?_, ?_, ?_⟩
    · omega
    · omega
    · omega
  have hw := hs.walk_high hpage
  have hsum : kernelBase + (v - kernelBase) = v := by omega
  rw [hsum] at hw
  rw [hw]
  exact Option.some_ne_none _

/-- **The reserved block is given away**: with that image `reserve_block` returns 0xc0800000, and
    the first page that `map_page(nullptr, phys)` finds unmapped is in it. -/
theorem not_reserved_stay : ¬ ∀ (I : KernelImage) (m : Ram), LeftBySetup I m → ∀ h vm,
    Run virtStep Startup (bootVm I m) h vm → StaysReserved h := by
  intro hall
  obtain ⟨m, hsetup, hdir, _⟩ := setupPaging_tables (blank_bootRam fullImage)
    (placed_bootRam fullImage) (show 0x40000 < 0x40001 by decide)
  have hm : LeftBySetup fullImage m :=
    ⟨0x40001, bootRam, 0x9000, blank_bootRam _, placed_bootRam _, hsetup⟩
  have hblocks : fullImage.blocks = 2 := by decide
  rw [hblocks] at hdir
  have hb₀ := (bootVm_booted hm).1
  obtain ⟨vm₁, b, hrun₁, _, hres⟩ := reserveBlock_spec hb₀
  -- slot 769 is the image's second one, slot 770 is clear
  have hclear : fullImage.dirAt m 770 = 0 := by
    rw [hdir 770 (by omega), if_neg (by omega), if_neg (by omega)]
  have hb : b = 0xc0800000 ∧ fullImage.dirAt m (b / 4194304) = 0 := by
    rcases hres with h1 | h1
    · exact absurd hclear (h1.2.2 770 (by omega) (by omega))
    · obtain ⟨k, hk, hlow, hlt, hc, hleast, _⟩ := h1
      have h770 : ¬ 770 < k := fun hgt => hleast 770 (by omega) hgt hclear
      have h769 : k ≠ 769 := by
        intro heq
        rw [heq] at hc
        exact hb₀.shape.kernel_ne_zero (by omega) (by omega) hc
      have hdiv : b / 4194304 = k := by omega
      rw [hdiv]
      exact ⟨by omega, hc⟩
  obtain ⟨hb, hcb⟩ := hb
  have hrun₁' : Run virtStep Startup (bootVm fullImage m) [(.reserveBlock, b)] vm₁ :=
    .call .start trivial hrun₁
  have hI := runInv_of_run hm hrun₁'
  have hreserved : InReserved [(VirtCall.reserveBlock, b)] b :=
    ⟨b, ⟨List.mem_singleton_self _, by omega⟩, Nat.le_refl b, by rw [hb]; decide⟩
  have hnoRoom : ¬ Room fullImage [(.reserveBlock, b)] vm₁.ram := by
    intro hroom
    have hext := extends_reserves (P := fun _ => False) hb₀.shape hres
    have hstart : kernelStart = 0xc0100000 := rfl
    have hunmapped : walk vm₁.ram fullImage.pageDir b = none := by
      rw [hext.walk b (by omega) (by omega) (by omega) id]
      exact fullImage.walk_absent hcb
    obtain ⟨u, hu, hlow, hlt, hnone, _⟩ := hroom b (by omega) hreserved hunmapped
    exact fullImage_mapped hI.booted.shape hu hlow (by omega) hnone
  obtain ⟨vm₂, q, hrun₂⟩ := startup_completes (c := .mapPage 0 0x900000) hI.booted hI.ident
    hI.reserved (Or.inl rfl) ⟨by decide, by decide⟩
  exact not_staysReserved hI hnoRoom hrun₂ (hall fullImage m hm _ vm₂
    (.call hrun₁' (Or.inl rfl) hrun₂))

end OsPlayground.VirtMem
