/-
  File:      OsPlayground/VirtMem/Stable.lean
  Subject:   MAPPINGS ARE STABLE AND DISTINCT, over runs of `reserve_block` and `map_page` before
             `clear_ident_map`.

  `Extends m m' P` is what a call does to the memory: pages from `_kernel_start` on that are not
  in `P` are translated as before, and a slot that is not clear stays. One lemma for each call
  gives its `P`; the run lemma carries `RunInv`.

  * `extends_reserves`, `extends_write`, `extends_null` -- the calls;
  * `runInv_step` -- one call;
  * **`mappings_stable`** -- the run.
-/
import OsPlayground.VirtMem.Search

namespace OsPlayground.VirtMem

open Paging Halting

/-! ## 1. Runs of calls -/

/-- The calls made and their results, newest first. -/
abbrev History := List (VirtCall × Nat)

/-- A block that `reserve_block` returned. -/
def IsReserved (h : History) (b : Nat) : Prop := (VirtCall.reserveBlock, b) ∈ h ∧ b ≠ 0

/-- A page of the 4 MiB block at `b`. -/
def InBlock (b v : Nat) : Prop := b ≤ v ∧ v < b + pageBlockSize

/-- A page of a block reserved earlier. -/
def InReserved (h : History) (v : Nat) : Prop := ∃ b, IsReserved h b ∧ InBlock b v

/-- **The calls of kernel start-up**: `reserve_block`, and `map_page` with no page or with one of a
    block reserved earlier. -/
def Startup (h : History) (_ : Vm) : VirtCall → Prop
  | .reserveBlock => True
  | .mapPage v _ => v = 0 ∨ InReserved h v
  | .loadPageTable _ => False
  | .clearIdentMap => False

/-- The page a call of `map_page(nullptr, _)` returned. -/
def anonymousPage : VirtCall → Nat → Option Nat
  | .mapPage 0 _, q => if q = 0 then none else some q
  | _, _ => none

/-- The pages that `map_page(nullptr, _)` returned. -/
def anonymousPages (h : History) : List Nat := h.filterMap fun x => anonymousPage x.1 x.2

variable (I : KernelImage)

/-- The memory `setup_paging` leaves, for some boot structures. -/
def LeftBySetup (m : Ram) : Prop :=
  ∃ fuel m₀ info, Blank I m₀ ∧ Placed I m₀ info ∧ setupPaging I fuel info m₀ = some m

/-- **What a call leaves alone**, from memory `m` to `m'`: the pages from `_kernel_start` on that
    are not in `P`, and the slots that are not clear. -/
structure Extends (m m' : Ram) (P : Nat → Prop) : Prop where
  walk : ∀ v, v % 4096 = 0 → kernelStart ≤ v → v < 0x100000000 → ¬ P v →
    walk m' I.pageDir v = walk m I.pageDir v
  dir : ∀ k < 1024, I.dirAt m k ≠ 0 → I.dirAt m' k = I.dirAt m k

variable {I} {m m' m'' : Ram} {P : Nat → Prop} {vm vm' : Vm} {h : History}

theorem bootVm_booted (hm : LeftBySetup I m) : Booted I (bootVm I m) ∧ Ident I m := by
  obtain ⟨fuel, m₀, info, hb, hp, hrun⟩ := hm
  obtain ⟨hshape, hid⟩ := shape_setupPaging hb hp hrun
  exact ⟨⟨I.phys_initPageDir, rfl, rfl, hshape, fun d hd => absurd hd List.not_mem_nil⟩, hid⟩

/-! ## 2. What each call leaves alone -/

theorem Extends.refl : Extends I m m P := ⟨fun _ _ _ _ _ => rfl, fun _ _ _ => rfl⟩

theorem Extends.trans (h₁ : Extends I m m' P) (h₂ : Extends I m' m'' P) : Extends I m m'' P := by
  refine ⟨fun v hv hlow hlt hP => ?_, fun k hk hne => ?_⟩
  · rw [h₂.walk v hv hlow hlt hP, h₁.walk v hv hlow hlt hP]
  · have heq := h₁.dir k hk hne
    rw [h₂.dir k hk (by rwa [heq]), heq]

theorem Extends.mono {P' : Nat → Prop} (h : Extends I m m' P) (hP : ∀ v, P v → P' v) :
    Extends I m m' P' :=
  ⟨fun v hv hlow hlt hv' => h.walk v hv hlow hlt fun hPv => hv' (hP v hPv), h.dir⟩

theorem extends_loaded (hs : Shape I m) {k : Nat} (hk : k < 1024) (h0 : 0 < k) :
    Extends I m (loaded I m k) P := by
  refine ⟨fun v _ _ hlt _ => hs.walk_loaded hk h0 hlt, fun i _ hne => ?_⟩
  by_cases hik : i = k
  · subst hik
    rw [loaded_of_ne hne]
  · exact dirAt_loaded_ne hik

/-- **`reserve_block` leaves every page alone.** -/
theorem extends_reserves (hs : Shape I m) {b : Nat} (hr : Reserves I m m' b) :
    Extends I m m' P := by
  rcases hr with h1 | h1
  · rw [h1.2.1]
    exact Extends.refl
  · obtain ⟨k, _, hk, hk', hc, _, rfl⟩ := h1
    have hl := extends_loaded (P := P) hs hk' (by omega)
    rw [loaded_of_clear hc] at hl
    exact hl

/-- **A page written** is the one page that changes. -/
theorem extends_write (hs : Shape I m) {q w : Nat} (hq : q % 4096 = 0)
    (hlow : 768 ≤ q / 4194304) :
    Extends I m (I.setEntry m (I.slotTable (q / 4194304)) (q / 4096 % 1024) w) (· = q) := by
  have hstart : kernelStart = 0xc0100000 := rfl
  refine ⟨fun v hv hlowv hlt hne => ?_, fun k hk _ => I.dirAt_setEntry _ hk⟩
  exact hs.walk_write_high hlow (by omega) hlt (by omega)

/-- The page at 0 shares its entry with `KERNEL_BASE`, below `_kernel_start`. -/
theorem not_null_entry {v : Nat} (hv : v % 4096 = 0) (hlow : kernelStart ≤ v) :
    I.slotTable (v / 4194304) ≠ 0 ∨ v / 4096 % 1024 ≠ 0 := by
  have hstart : kernelStart = 0xc0100000 := rfl
  have hpos := I.blocks_pos
  by_cases hslot : v / 4194304 = 768
  · exact Or.inr (by omega)
  · refine Or.inl fun hzero => hslot ?_
    have hfirst : I.slotTable 768 = 0 := I.slotTable_kernel (Nat.le_refl _) (by omega)
    exact I.slotTable_inj (by omega) (Nat.le_refl _) (hzero.trans hfirst.symm)

/-- Writing the entry of the page at 0. -/
theorem extends_null (hs : Shape I m) {w : Nat} : Extends I m (I.setEntry m 0 0 w) P :=
  ⟨fun _ hv hlow hlt _ => hs.walk_write_ne (by omega) hlt (not_null_entry hv hlow),
    fun _ hk _ => I.dirAt_setEntry _ hk⟩

variable (I) in
/-- **A page returned by `map_page(nullptr, phys)`** was not mapped, is mapped to `phys`, and its
    slot is not clear. -/
structure Fresh (m m' : Ram) (phys q : Nat) : Prop where
  low : kernelStart ≤ q
  lt : q < 0x100000000
  page : q % 4096 = 0
  free : walk m I.pageDir q = none
  mapped : walk m' I.pageDir q = some phys
  slot : I.dirAt m' (q / 4194304) ≠ 0

/-- The entry of a page written with its frame. -/
theorem walk_write_page {q phys : Nat} (hs : Shape I m) (hq : q % 4096 = 0)
    (hlt : q < 0x100000000) (hne : I.dirAt m (q / 4194304) ≠ 0) (hphys : phys % 4096 = 0) :
    walk (I.setEntry m (I.slotTable (q / 4194304)) (q / 4096 % 1024) (phys + 1)) I.pageDir q =
      some phys := by
  have hk : q / 4194304 < 1024 := by omega
  rw [walk_write_self hk (present_of_ne_zero hs hk hne) hphys rfl, hq, Nat.add_zero]

/-- **`map_page(nullptr, phys)`** changes the page it returns and no other. -/
theorem anonymous_effect (hs : Shape I m) {phys q : Nat} (hphys : phys % 4096 = 0)
    (ha : MapsAnonymous I m m' phys q) :
    (q ≠ 0 → Fresh I m m' phys q) ∧ Extends I m m' (· = q) := by
  have hpos := I.blocks_pos
  have hstart : kernelStart = 0xc0100000 := rfl
  obtain ⟨m₁, hfound, rfl⟩ := ha
  rcases hfound with h1 | h1
  · obtain ⟨rfl, rfl, _⟩ := h1
    have hzero : I.slotTable (0 / 4194304) = 0 := I.slotTable_own (by omega)
    rw [hzero]
    exact ⟨fun hne => absurd rfl hne, extends_null hs⟩
  · obtain ⟨hlt, hfree, rfl⟩ := h1
    have hlow := hfree.low
    have hk : q / 4194304 < 1024 := by omega
    have hs₁ := shape_loaded hs hk
    have hl := extends_loaded (P := (· = q)) hs hk (by omega)
    refine ⟨fun _ => ⟨hlow, hlt, hfree.page, hfree.free, ?_, ?_⟩, ?_⟩
    · exact walk_write_page hs₁ hfree.page hlt loaded_ne_zero hphys
    · rw [I.dirAt_setEntry _ hk]
      exact loaded_ne_zero
    · exact hl.trans (extends_write hs₁ hfree.page (by omega))

/-! ## 3. One call -/

variable (I) in
/-- A reserved block, as the tables have it. -/
structure Block (m : Ram) (b : Nat) : Prop where
  aligned : b % 4194304 = 0
  above : 768 + I.blocks ≤ b / 4194304
  lt : b < 0x100000000
  slot : I.dirAt m (b / 4194304) ≠ 0

variable (I) in
/-- **What a completed call of start-up does**, from memory `m` to `m'`. -/
inductive Effect (m m' : Ram) : VirtCall → Nat → Prop
  | reserve {b : Nat} (reserves : Reserves I m m' b) : Effect m m' .reserveBlock b
  | anonymous {phys q : Nat} (aligned : phys % 4096 = 0) (maps : MapsAnonymous I m m' phys q) :
      Effect m m' (.mapPage 0 phys) q
  | explicit {v phys : Nat} (aligned : phys % 4096 = 0) (page : v % 4096 = 0) (ne : v ≠ 0)
      (above : 768 + I.blocks ≤ v / 4194304) (lt : v < 0x100000000)
      (slot : I.dirAt m (v / 4194304) ≠ 0)
      (ram : m' = I.setEntry m (I.slotTable (v / 4194304)) (v / 4096 % 1024) (phys + 1)) :
      Effect m m' (.mapPage v phys) v

theorem Block.slot_of {b v : Nat} (hb : Block I m b) (hv : InBlock b v) :
    v / 4194304 = b / 4194304 ∧ v < 0x100000000 ∧ v ≠ 0 := by
  obtain ⟨h1, h2⟩ := hv
  have hsize : pageBlockSize = 4194304 := by decide
  have hal := hb.aligned
  have habove := hb.above
  have hlt := hb.lt
  rw [hsize] at h2
  refine ⟨?_, ?_, ?_⟩
  · omega
  · omega
  · omega

/-- **The inversion of a start-up call**: what a completed one did. -/
theorem startup_effect (hb : Booted I vm) (hid : Ident I vm.ram)
    (hres : ∀ b, IsReserved h b → Block I vm.ram b) {c : VirtCall} {q : Nat}
    (hc : Startup h vm c) (hrun : virtStep vm c = (vm', some q)) :
    Booted I vm' ∧ Effect I vm.ram vm'.ram c q := by
  cases c with
  | reserveBlock =>
      obtain ⟨hb', hr⟩ := (reserveBlock_spec hb).of_eq hrun
      exact ⟨hb', .reserve hr⟩
  | loadPageTable k => exact absurd hc id
  | clearIdentMap => exact absurd hc id
  | mapPage v phys =>
      obtain ⟨hq, hphys, hsame⟩ := mapPage_aligned hrun
      by_cases h0 : v = 0
      · subst h0
        obtain ⟨hb', ha⟩ := (mapPage_anonymous hb hid hphys).of_eq hrun
        exact ⟨hb', .anonymous hphys ha⟩
      · obtain rfl := hsame h0
        obtain ⟨b, hb₁, hin⟩ := hc.resolve_left h0
        have hblock := hres b hb₁
        obtain ⟨hslot, hlt, _⟩ := hblock.slot_of hin
        have habove : 768 + I.blocks ≤ q / 4194304 := hslot ▸ hblock.above
        have hne : I.dirAt vm.ram (q / 4194304) ≠ 0 := hslot ▸ hblock.slot
        obtain ⟨hb', _, hram⟩ := (mapPage_explicit hb hlt hq hphys habove hne).of_eq hrun
        exact ⟨hb', .explicit hphys hq h0 habove hlt hne hram⟩

/-- A page of a call's arguments is aligned. -/
def VirtCall.Aligned : VirtCall → Prop
  | .mapPage v phys => v % 4096 = 0 ∧ phys % 4096 = 0
  | _ => True

/-- **Every start-up call with aligned arguments completes.** -/
theorem startup_completes (hb : Booted I vm) (hid : Ident I vm.ram)
    (hres : ∀ b, IsReserved h b → Block I vm.ram b) {c : VirtCall} (hc : Startup h vm c)
    (hal : c.Aligned) : ∃ vm' q, virtStep vm c = (vm', some q) := by
  cases c with
  | reserveBlock =>
      obtain ⟨vm', q, hrun, _⟩ := reserveBlock_spec hb
      exact ⟨vm', q, hrun⟩
  | loadPageTable k => exact absurd hc id
  | clearIdentMap => exact absurd hc id
  | mapPage v phys =>
      by_cases h0 : v = 0
      · subst h0
        obtain ⟨vm', q, hrun, _⟩ := mapPage_anonymous hb hid hal.2
        exact ⟨vm', q, hrun⟩
      · obtain ⟨b, hb₁, hin⟩ := hc.resolve_left h0
        have hblock := hres b hb₁
        obtain ⟨hslot, hlt, _⟩ := hblock.slot_of hin
        obtain ⟨vm', q, hrun, _⟩ := mapPage_explicit hb hlt hal.1 hal.2 (hslot ▸ hblock.above)
          (hslot ▸ hblock.slot)
        exact ⟨vm', q, hrun⟩

/-- The page a call maps: what a `map_page` returns. -/
def MapsPage : VirtCall → Nat → Nat → Prop
  | .mapPage _ _, q, v => v = q
  | _, _, _ => False

theorem Effect.extends {c : VirtCall} {q : Nat} (hs : Shape I m) (he : Effect I m m' c q) :
    Extends I m m' (MapsPage c q) := by
  cases he with
  | reserve hr => exact extends_reserves hs hr
  | anonymous hal ha => exact (anonymous_effect hs hal ha).2
  | explicit hal hp hne habove hlt hslot hram =>
      rw [hram]
      exact extends_write hs hp (by omega)

/-- **The page a `map_page` returns is mapped to the frame it was given.** -/
theorem Effect.mapped {v phys q : Nat} (hs : Shape I m) (he : Effect I m m' (.mapPage v phys) q)
    (hq : q ≠ 0) : walk m' I.pageDir q = some phys := by
  cases he with
  | anonymous hal ha => exact ((anonymous_effect hs hal ha).1 hq).mapped
  | explicit hal hp hne habove hlt hslot hram =>
      rw [hram]
      exact walk_write_page hs hp hlt hslot hal

/-! ## 4. Runs -/

variable (I) in
/-- **The invariant over runs**: reserved blocks keep their slots, and the pages returned so far
    are distinct and mapped. -/
structure RunInv (h : History) (vm : Vm) : Prop where
  booted : Booted I vm
  ident : Ident I vm.ram
  reserved : ∀ b, IsReserved h b → Block I vm.ram b
  pages : ∀ q ∈ anonymousPages h, kernelStart ≤ q ∧ q < 0x100000000 ∧ q % 4096 = 0 ∧
    walk vm.ram I.pageDir q ≠ none ∧ I.dirAt vm.ram (q / 4194304) ≠ 0
  nodup : (anonymousPages h).Nodup

/-- A reserved block keeps its slot where a call leaves the slots above 0 that are not clear. -/
theorem Block.keep {b : Nat} (hb : Block I m b)
    (hkeep : ∀ k < 1024, 0 < k → I.dirAt m k ≠ 0 → I.dirAt m' k = I.dirAt m k) : Block I m' b := by
  have hlt := hb.lt
  have habove := hb.above
  refine ⟨hb.aligned, habove, hlt, ?_⟩
  rw [hkeep _ (by omega) (by omega) hb.slot]
  exact hb.slot

theorem Extends.block {b : Nat} (he : Extends I m m' P) (hb : Block I m b) : Block I m' b :=
  hb.keep fun k hk _ hne => he.dir k hk hne

theorem Extends.ident (he : Extends I m m' P) (hid : Ident I m) : Ident I m' := by
  unfold Ident at hid ⊢
  rw [he.dir 0 (by omega) (by rw [hid]; exact tableEntry_ne_zero 0), hid]

/-- A block that `reserve_block` returned just now. -/
theorem Reserves.block {b : Nat} (hs : Shape I m) (hr : Reserves I m m' b) (hb : b ≠ 0) :
    Block I m' b ∧ I.dirAt m (b / 4194304) = 0 := by
  obtain ⟨k, rfl, hk, hk', hc, _, rfl⟩ := hr.resolve_left fun h0 => hb h0.1
  have hdiv : 4194304 * k / 4194304 = k := by omega
  have habove : 768 + I.blocks ≤ k := by
    by_cases hin : k < 768 + I.blocks
    · exact absurd hc (hs.kernel_ne_zero (by omega) hin)
    · omega
  rw [hdiv]
  refine ⟨⟨by omega, by rw [hdiv]; exact habove, by omega, ?_⟩, hc⟩
  rw [hdiv, I.dirAt_setDir_self]
  exact tableEntry_ne_zero k

theorem isReserved_cons {c : VirtCall} {q b : Nat} (hb : IsReserved ((c, q) :: h) b) :
    (c = .reserveBlock ∧ q = b ∧ b ≠ 0) ∨ IsReserved h b := by
  obtain ⟨hmem, hne⟩ := hb
  rcases List.mem_cons.mp hmem with heq | hmem
  · cases heq
    exact Or.inl ⟨rfl, rfl, hne⟩
  · exact Or.inr ⟨hmem, hne⟩

/-- A call returned a page it had found, or none. -/
theorem anonymousPage_cases (c : VirtCall) (q : Nat) :
    ((∃ phys, c = .mapPage 0 phys) ∧ q ≠ 0 ∧ anonymousPage c q = some q) ∨
      anonymousPage c q = none := by
  cases c with
  | reserveBlock => exact Or.inr rfl
  | loadPageTable k => exact Or.inr rfl
  | clearIdentMap => exact Or.inr rfl
  | mapPage v phys =>
      cases v with
      | succ v => exact Or.inr rfl
      | zero =>
          by_cases hq : q = 0
          · exact Or.inr (if_pos hq)
          · exact Or.inl ⟨⟨phys, rfl⟩, hq, if_neg hq⟩

/-- The pages returned after one more call. -/
theorem anonymousPages_cons (c : VirtCall) (q : Nat) :
    ((∃ phys, c = .mapPage 0 phys) ∧ q ≠ 0 ∧ anonymousPages ((c, q) :: h) = q :: anonymousPages h) ∨
      anonymousPages ((c, q) :: h) = anonymousPages h := by
  rcases anonymousPage_cases c q with h1 | h1
  · obtain ⟨hc, hq, hp⟩ := h1
    exact Or.inl ⟨hc, hq, List.filterMap_cons_some hp⟩
  · exact Or.inr (List.filterMap_cons_none h1)

/-- A page mapped from `_kernel_start` on stays mapped. -/
theorem Effect.keeps_mapped {c : VirtCall} {q v : Nat} (hs : Shape I m) (he : Effect I m m' c q)
    (hlow : kernelStart ≤ v) (hlt : v < 0x100000000) (hv : v % 4096 = 0)
    (hmap : walk m I.pageDir v ≠ none) : walk m' I.pageDir v ≠ none := by
  by_cases hq : MapsPage c q v
  · cases c with
    | mapPage u phys =>
        have hqv : v = q := hq
        have hstart : kernelStart = 0xc0100000 := rfl
        rw [hqv, he.mapped hs (by omega)]
        exact Option.some_ne_none phys
    | reserveBlock => exact absurd hq id
    | loadPageTable k => exact absurd hq id
    | clearIdentMap => exact absurd hq id
  · rw [(he.extends hs).walk v hv hlow hlt hq]
    exact hmap

/-- **One call keeps the invariant over runs.** -/
theorem runInv_step {c : VirtCall} {q : Nat} (hI : RunInv I h vm) (hc : Startup h vm c)
    (hrun : virtStep vm c = (vm', some q)) : RunInv I ((c, q) :: h) vm' := by
  obtain ⟨hb', heff⟩ := startup_effect hI.booted hI.ident hI.reserved hc hrun
  have hs := hI.booted.shape
  have hext := heff.extends hs
  have hold : ∀ v ∈ anonymousPages h, kernelStart ≤ v ∧ v < 0x100000000 ∧ v % 4096 = 0 ∧
      walk vm'.ram I.pageDir v ≠ none ∧ I.dirAt vm'.ram (v / 4194304) ≠ 0 := by
    intro v hv
    obtain ⟨hlow, hlt, hpage, hmap, hslot⟩ := hI.pages v hv
    refine ⟨hlow, hlt, hpage, heff.keeps_mapped hs hlow hlt hpage hmap, ?_⟩
    rw [hext.dir _ (by omega) hslot]
    exact hslot
  refine ⟨hb', hext.ident hI.ident, fun b hb => ?_, ?_, ?_⟩
  · rcases isReserved_cons hb with hb | hb
    · obtain ⟨rfl, rfl, hne⟩ := hb
      cases heff with
      | reserve hr => exact (hr.block hs hne).1
    · exact hext.block (hI.reserved b hb)
  · rcases anonymousPages_cons (h := h) c q with hcons | hcons
    · obtain ⟨⟨phys, rfl⟩, hq, heq⟩ := hcons
      rw [heq]
      intro v hv
      rcases List.mem_cons.mp hv with rfl | hv
      · cases heff with
        | anonymous hal ha =>
            have hfresh := (anonymous_effect hs hal ha).1 hq
            refine ⟨hfresh.low, hfresh.lt, hfresh.page, ?_, hfresh.slot⟩
            rw [hfresh.mapped]
            exact Option.some_ne_none phys
        | explicit _ _ hne => exact absurd rfl hne
      · exact hold v hv
    · rw [hcons]
      exact hold
  · rcases anonymousPages_cons (h := h) c q with hcons | hcons
    · obtain ⟨⟨phys, rfl⟩, hq, heq⟩ := hcons
      rw [heq]
      refine List.nodup_cons.mpr ⟨fun hmem => ?_, hI.nodup⟩
      -- a page returned before is still mapped
      have hmap := (hI.pages q hmem).2.2.2.1
      cases heff with
      | anonymous hal ha => exact hmap ((anonymous_effect hs hal ha).1 hq).free
      | explicit _ _ hne => exact absurd rfl hne
    · rw [hcons]
      exact hI.nodup

theorem runInv_start (hm : LeftBySetup I m) : RunInv I [] (bootVm I m) := by
  obtain ⟨hb, hid⟩ := bootVm_booted hm
  exact ⟨hb, hid, fun b hb => absurd hb.1 List.not_mem_nil, fun q hq => absurd hq List.not_mem_nil,
    List.nodup_nil⟩

/-- Every start-up run keeps the invariant. -/
theorem runInv_of_run (hm : LeftBySetup I m) (hr : Run virtStep Startup (bootVm I m) h vm) :
    RunInv I h vm :=
  hr.inv (RunInv I) (runInv_start hm) fun _ _ _ _ _ hI hc hrun => runInv_step hI hc hrun

/-- **Mappings are stable and distinct**: after every start-up run each aligned call completes; a
    page returned by `map_page(nullptr, phys)` was not mapped, lies at or above `_kernel_start`
    and is mapped to `phys`; every other page from `_kernel_start` on is translated as before, as
    is every page of the image through its identity mapping; and the pages so returned are
    distinct. -/
theorem mappings_stable (I : KernelImage) (m : Ram) (hm : LeftBySetup I m) (h : History) (vm : Vm)
    (hr : Run virtStep Startup (bootVm I m) h vm) :
    (anonymousPages h).Nodup ∧ ∀ c, Startup h vm c →
      (c.Aligned → ∃ vm' q, virtStep vm c = (vm', some q)) ∧
      ∀ vm' q, virtStep vm c = (vm', some q) →
        (∀ phys, c = .mapPage 0 phys → q ≠ 0 → kernelStart ≤ q ∧
          walk vm.ram I.pageDir q = none ∧ walk vm'.ram I.pageDir q = some phys) ∧
        (∀ v, v % 4096 = 0 → kernelStart ≤ v → v < 0x100000000 → ¬ MapsPage c q v →
          walk vm'.ram I.pageDir v = walk vm.ram I.pageDir v) ∧
        ∀ p, I.Page p →
          walk vm.ram I.pageDir p = some p ∧ walk vm'.ram I.pageDir p = some p := by
  have hI := runInv_of_run hm hr
  have hs := hI.booted.shape
  refine ⟨hI.nodup, fun c hc => ⟨startup_completes hI.booted hI.ident hI.reserved hc, ?_⟩⟩
  intro vm' q hrun
  obtain ⟨hb', heff⟩ := startup_effect hI.booted hI.ident hI.reserved hc hrun
  have hext := heff.extends hs
  refine ⟨fun phys hcall hq => ?_, hext.walk, fun p hp => ⟨?_, ?_⟩⟩
  · subst hcall
    cases heff with
    | anonymous hal ha =>
        have hfresh := (anonymous_effect hs hal ha).1 hq
        exact ⟨hfresh.low, hfresh.free, hfresh.mapped⟩
    | explicit _ _ hne => exact absurd rfl hne
  · exact hs.walk_low hp (Or.inl hI.ident)
  · exact hb'.shape.walk_low hp (Or.inl (hext.ident hI.ident))

/-- Every image has a memory that `setup_paging` leaves. -/
theorem exists_leftBySetup (I : KernelImage) : ∃ m, LeftBySetup I m := by
  obtain ⟨m, hrun, _⟩ := setupPaging_tables (blank_bootRam I) (placed_bootRam I)
    (show 0x40000 < 0x40001 by decide)
  exact ⟨m, 0x40001, bootRam, 0x9000, blank_bootRam I, placed_bootRam I, hrun⟩

/-- `map_page(nullptr, _)` returns the first unmapped page. -/
theorem anonymous_eq_first {phys q u : Nat} (ha : MapsAnonymous I m m' phys q)
    (hu : LeastFree I m kernelStart u) (hlt : u < 0x100000000) : q = u := by
  obtain ⟨_, hfound, _⟩ := ha
  rcases hfound with h1 | h1
  · exact absurd hu.free (h1.2.2 u hu.page hu.low hlt)
  · have hfree := h1.2.1
    rcases Nat.lt_trichotomy q u with hqu | heq | huq
    · exact absurd hfree.free (hu.least q hfree.page hfree.low hqu)
    · exact heq
    · exact absurd hu.free (hfree.least u hu.page hu.low huq)

/-! ## 5. The start of a boot -/

/-- A boot of the real image: the rest of its last block is unmapped, and the next block is free. -/
theorem exists_realBoot : ∃ m, LeftBySetup realImage m ∧ realImage.dirAt m 770 = 0 ∧
    ∀ v, v % 4096 = 0 → 0xc0520000 ≤ v → v < 0xc0800000 →
      walk m realImage.pageDir v = none := by
  obtain ⟨m, hrun, hdir, hfill⟩ := setupPaging_tables (blank_bootRam realImage)
    (placed_bootRam realImage) (show 0x40000 < 0x40001 by decide)
  have hblocks : realImage.blocks = 2 := by decide
  rw [hblocks] at hdir
  refine ⟨m, ⟨0x40001, bootRam, 0x9000, blank_bootRam _, placed_bootRam _, hrun⟩, ?_,
    fun v hv hlow hlt => ?_⟩
  · rw [hdir 770 (by omega), if_neg (by omega), if_neg (by omega)]
  · have hslot : v / 4194304 = 769 := by omega
    have hd : realImage.dirAt m (v / 4194304) =
        realImage.tableEntry ((v - 0xc0000000) / 4194304) := by
      have hindex : (v - 0xc0000000) / 4194304 = 769 - 768 := by omega
      rw [hslot, hindex, hdir 769 (by omega), if_neg (by omega), if_pos (by omega)]
    refine (hfill.walk (q := v - 0xc0000000) (by omega) (by omega) hv hd (by omega)).2 ?_
    have hmmap : mmapAddr bootRam 0x9000 = 0x9100 := by decide
    have hlen : mmapLength bootRam 0x9000 = 24 := by decide
    have hstop : realImage.stop = 0x520000 := rfl
    have hsize : sizeofMultibootInfo = 120 := rfl
    have hterm : PhysMem.termBuffer = 0xb8000 := rfl
    intro hloop
    unfold Looping Looped KernelImage.Page at hloop
    rw [hmmap, hlen, hstop, hsize, hterm] at hloop
    omega

/-- The first page behind the image is the first unmapped one when those before it are mapped. -/
theorem leastFree_real {v : Nat} (hs : Shape realImage m) (hv : v % 4096 = 0)
    (hlow : 0xc0520000 ≤ v) (hnone : walk m realImage.pageDir v = none)
    (hmapped : ∀ u, u % 4096 = 0 → 0xc0520000 ≤ u → u < v → walk m realImage.pageDir u ≠ none) :
    LeastFree realImage m kernelStart v := by
  have hstart : kernelStart = 0xc0100000 := rfl
  have hbase : kernelBase = 0xc0000000 := rfl
  refine ⟨by omega, hv, hnone, fun u hu hlowu hlt => ?_⟩
  by_cases himage : u < 0xc0520000
  · have hstop : realImage.stop = 0x520000 := rfl
    have hpage : realImage.Page (u - kernelBase) := ⟨by omega, by omega, by omega⟩
    have hw := hs.walk_high hpage
    have hsum : kernelBase + (u - kernelBase) = u := by omega
    rw [hsum] at hw
    rw [hw]
    exact Option.some_ne_none _
  · exact hmapped u hu (by omega) hlt

/-- **The start of a boot**: a block reserved, its first page mapped, and two pages taken. -/
structure StartupRun (m : Ram) (vm₁ vm₂ vm₃ vm₄ : Vm) : Prop where
  setup : LeftBySetup realImage m
  reserve : virtStep (bootVm realImage m) .reserveBlock = (vm₁, some 0xc0800000)
  explicit : virtStep vm₁ (.mapPage 0xc0800000 0x900000) = (vm₂, some 0xc0800000)
  first : LeastFree realImage vm₂.ram kernelStart 0xc0520000
  page₁ : virtStep vm₂ (.mapPage 0 0x901000) = (vm₃, some 0xc0520000)
  second : LeastFree realImage vm₃.ram kernelStart 0xc0521000
  unmapped : walk vm₃.ram realImage.pageDir 0xc0801000 = none
  page₂ : virtStep vm₃ (.mapPage 0 0x902000) = (vm₄, some 0xc0521000)

/-- The calls of that start, the latest first. -/
def startupHistory : History :=
  [(.mapPage 0 0x901000, 0xc0520000), (.mapPage 0xc0800000 0x900000, 0xc0800000),
    (.reserveBlock, 0xc0800000)]

theorem inReserved_startup {h : History} (hmem : (.reserveBlock, 0xc0800000) ∈ h) {v : Nat}
    (hlow : 0xc0800000 ≤ v) (hlt : v < 0xc0c00000) : InReserved h v := by
  have hsize : pageBlockSize = 4194304 := by decide
  exact ⟨0xc0800000, ⟨hmem, by decide⟩, hlow, by omega⟩

/-- The first page of the block just reserved can be mapped. -/
theorem startup_explicit (vm : Vm) :
    Startup [(.reserveBlock, 0xc0800000)] vm (.mapPage 0xc0800000 0x900000) :=
  Or.inr (inReserved_startup List.mem_cons_self (by decide) (by decide))

/-- The run before the last call. -/
theorem StartupRun.run {vm₁ vm₂ vm₃ vm₄ : Vm} (h : StartupRun m vm₁ vm₂ vm₃ vm₄) :
    Run virtStep Startup (bootVm realImage m) startupHistory vm₃ := by
  have hfirst : Startup [] (bootVm realImage m) .reserveBlock := trivial
  have hr₁ := Run.call .start hfirst h.reserve
  have hr₂ := Run.call hr₁ (startup_explicit vm₁) h.explicit
  exact .call hr₂ (Or.inl rfl) h.page₁

/-- **There is such a start.** -/
theorem exists_startupRun : ∃ m vm₁ vm₂ vm₃ vm₄, StartupRun m vm₁ vm₂ vm₃ vm₄ := by
  have hstart : kernelStart = 0xc0100000 := rfl
  obtain ⟨m, hm, hclear, hfree⟩ := exists_realBoot
  have hI₀ := runInv_start hm
  obtain ⟨vm₁, b, hrun₁, hb₁, hres⟩ := reserveBlock_spec hI₀.booted
  have hb : b = 0xc0800000 := by
    rcases hres with h1 | h1
    · exact absurd hclear (h1.2.2 770 (by omega) (by omega))
    · obtain ⟨k, hk, hlow, hlt, hc, hleast, _⟩ := h1
      have h770 : ¬ 770 < k := fun hgt => hleast 770 (by omega) hgt hclear
      have hblocks : realImage.blocks = 2 := by decide
      have h769 : k ≠ 769 := by
        intro heq
        rw [heq] at hc
        exact hI₀.booted.shape.kernel_ne_zero (by omega) (by omega) hc
      omega
  rw [hb] at hrun₁
  have hI₁ := runInv_step (c := .reserveBlock) hI₀ trivial hrun₁
  have hs₁ := startup_explicit vm₁
  obtain ⟨vm₂, q₂, hrun₂⟩ := startup_completes hI₁.booted hI₁.ident hI₁.reserved hs₁
    ⟨by decide, by decide⟩
  have hq₂ : q₂ = 0xc0800000 := (mapPage_aligned hrun₂).2.2 (by decide)
  rw [hq₂] at hrun₂
  have hI₂ := runInv_step hI₁ hs₁ hrun₂
  have hext₁ := extends_reserves (P := fun _ => False) hI₀.booted.shape hres
  have hext₂ := (startup_effect hI₁.booted hI₁.ident hI₁.reserved hs₁ hrun₂).2.extends
    hI₁.booted.shape
  have hfree₂ : ∀ v, v % 4096 = 0 → 0xc0520000 ≤ v → v < 0xc0800000 →
      walk vm₂.ram realImage.pageDir v = none := by
    intro v hv hlow hlt
    have hne : ¬ MapsPage (.mapPage 0xc0800000 0x900000) 0xc0800000 v := by
      intro heq
      have heq : v = 0xc0800000 := heq
      omega
    rw [hext₂.walk v hv (by omega) (by omega) hne,
      hext₁.walk v hv (by omega) (by omega) id]
    exact hfree v hv hlow hlt
  have hfirst : LeastFree realImage vm₂.ram kernelStart 0xc0520000 :=
    leastFree_real hI₂.booted.shape (by decide) (by decide)
      (hfree₂ _ (by decide) (by decide) (by decide)) fun u _ hlow hlt => absurd hlt (by omega)
  have hs₂ : Startup [(.mapPage 0xc0800000 0x900000, 0xc0800000), (.reserveBlock, 0xc0800000)] vm₂
      (.mapPage 0 0x901000) := Or.inl rfl
  obtain ⟨vm₃, q₃, hrun₃⟩ := startup_completes hI₂.booted hI₂.ident hI₂.reserved hs₂
    ⟨by decide, by decide⟩
  obtain ⟨_, ha₃⟩ := (mapPage_anonymous hI₂.booted hI₂.ident (by decide)).of_eq hrun₃
  have hq₃ : q₃ = 0xc0520000 := anonymous_eq_first ha₃ hfirst (by decide)
  rw [hq₃] at hrun₃ ha₃
  have hI₃ := runInv_step hI₂ hs₂ hrun₃
  obtain ⟨hfresh, hext₃⟩ := anonymous_effect hI₂.booted.shape (by decide) ha₃
  have hsecond : LeastFree realImage vm₃.ram kernelStart 0xc0521000 := by
    refine leastFree_real hI₃.booted.shape (by decide) (by decide) ?_ fun u hu hlow hlt => ?_
    · rw [hext₃.walk _ (by decide) (by decide) (by decide) (by decide)]
      exact hfree₂ _ (by decide) (by decide) (by decide)
    · obtain rfl : u = 0xc0520000 := by omega
      rw [(hfresh (by decide)).mapped]
      exact Option.some_ne_none _
  have hs₃ : Startup startupHistory vm₃ (.mapPage 0 0x902000) := Or.inl rfl
  have hunmapped : walk vm₃.ram realImage.pageDir 0xc0801000 = none := by
    rw [hext₃.walk _ (by decide) (by decide) (by decide) (by decide),
      hext₂.walk _ (by decide) (by decide) (by decide) (by unfold MapsPage; decide),
      hext₁.walk _ (by decide) (by decide) (by decide) id]
    exact realImage.walk_absent hclear
  obtain ⟨vm₄, q₄, hrun₄⟩ := startup_completes hI₃.booted hI₃.ident hI₃.reserved hs₃
    ⟨by decide, by decide⟩
  obtain ⟨_, ha₄⟩ := (mapPage_anonymous hI₃.booted hI₃.ident (by decide)).of_eq hrun₄
  have hq₄ : q₄ = 0xc0521000 := anonymous_eq_first ha₄ hsecond (by decide)
  rw [hq₄] at hrun₄
  exact ⟨m, vm₁, vm₂, vm₃, vm₄, hm, hrun₁, hrun₂, hfirst, hrun₃, hsecond, hunmapped,
    hrun₄⟩

/-- The last call of that start: it maps the second page behind the image, and the pages mapped
    before stay mapped, as does the image at its physical addresses. -/
theorem mappings_stable_boot : ∃ m vm₁ vm₂ vm₃ vm₄, StartupRun m vm₁ vm₂ vm₃ vm₄ ∧
    walk vm₃.ram realImage.pageDir 0xc0521000 = none ∧
    walk vm₄.ram realImage.pageDir 0xc0521000 = some 0x902000 ∧
    walk vm₄.ram realImage.pageDir 0xc0520000 = walk vm₃.ram realImage.pageDir 0xc0520000 ∧
    walk vm₄.ram realImage.pageDir 0xc0800000 = walk vm₃.ram realImage.pageDir 0xc0800000 ∧
    walk vm₄.ram realImage.pageDir 0x100000 = some 0x100000 := by
  obtain ⟨m, vm₁, vm₂, vm₃, vm₄, h⟩ := exists_startupRun
  obtain ⟨hfresh, hother, himage⟩ := ((mappings_stable realImage m h.setup startupHistory vm₃
    h.run).2 (.mapPage 0 0x902000) (Or.inl rfl)).2 vm₄ 0xc0521000 h.page₂
  obtain ⟨_, hnone, hmapped⟩ := hfresh 0x902000 rfl (by decide)
  refine ⟨m, vm₁, vm₂, vm₃, vm₄, h, hnone, hmapped, ?_, ?_, ?_⟩
  · exact hother _ (by decide) (by decide) (by decide) (by unfold MapsPage; decide)
  · exact hother _ (by decide) (by decide) (by decide) (by unfold MapsPage; decide)
  · exact (himage 0x100000 ⟨by decide, by decide, by decide⟩).2

end OsPlayground.VirtMem
