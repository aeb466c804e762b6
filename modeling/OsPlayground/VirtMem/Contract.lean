/-
  File:      OsPlayground/VirtMem/Contract.lean
  Subject:   DOES map_page KEEP ITS CONTRACT? virt_mem_allocator.h: "If `virt_page` is unavailable,
             returns `nullptr`. If `virt_page` is `nullptr`, finds an arbitrary free page above
             `_kernel_start` and maps there."

  The code looks neither at the directory entry nor at the page's entry before it writes, and takes
  the null answer of a search that failed for the page at 0.

  * `KeepsContract`, `KeptWhen` -- the contract of a call, and when it is kept;
  * `explicit_contract_iff`, `null_contract_iff` -- the two ways to call it;
  * **`mapPage_contract_iff`** -- for every directory and all tables.
-/
import OsPlayground.VirtMem.Stable

namespace OsPlayground.VirtMem

open Paging Halting

variable (I : KernelImage)

/-! ## 1. The contract -/

/-- **A page is unavailable**: its directory entry is not present, or its own entry is. -/
def Unavailable (m : Ram) (v : Nat) : Prop :=
  ¬ Present (I.dirAt m (v / 4194304)) ∨ Present (pageEntry I m v)

/-- Every page from `_kernel_start` on is mapped. -/
def NoFreePage (m : Ram) : Prop :=
  ∀ v, v % 4096 = 0 → kernelStart ≤ v → v < 0x100000000 → walk m I.pageDir v ≠ none

/-- The calls that are to return null. -/
def Refused (m : Ram) (virtPage : Nat) : Prop :=
  if virtPage = 0 then NoFreePage I m else Unavailable I m virtPage

/-- The present entries of the directory stay. -/
def KeepsDir (m m' : Ram) : Prop :=
  ∀ k < 1024, Present (I.dirAt m k) → I.dirAt m' k = I.dirAt m k

/-- **A call that declines**: it returns null, and every table is as before. -/
def Declines (m : Ram) (r : Answer Nat) : Prop :=
  ∃ vm', r = (vm', some 0) ∧ KeepsDir I m vm'.ram ∧
    ∀ t < 1024, ∀ j < 1024, I.entryAt vm'.ram t j = I.entryAt m t j

/-- The entry of page `q` is the only one of all tables that changes. -/
def WritesEntry (m m' : Ram) (q : Nat) : Prop :=
  ∃ t < 1024, tableOf I m' (q / 4194304) = I.pageTables + 4096 * t ∧
    ∀ t' < 1024, ∀ j < 1024, t' ≠ t ∨ j ≠ q / 4096 % 1024 → I.entryAt m' t' j = I.entryAt m t' j

/-- **A call that maps**: it returns the page it was given, or a free one from `_kernel_start` on;
    that page's entry is written, and translates it to the frame. -/
def Maps (m : Ram) (virtPage physPage : Nat) (r : Answer Nat) : Prop :=
  ∃ vm' q, r = (vm', some q) ∧ q ≠ 0 ∧ (virtPage ≠ 0 → q = virtPage) ∧
    (virtPage = 0 → kernelStart ≤ q ∧ walk m I.pageDir q = none) ∧
    KeepsDir I m vm'.ram ∧ WritesEntry I m vm'.ram q ∧ walk vm'.ram I.pageDir q = some physPage

/-- **The contract of `map_page(virt_page, phys_page)`** in a state of the machine. -/
def KeepsContract (virtPage physPage : Nat) (vm : Vm) : Prop :=
  (Refused I vm.ram virtPage → Declines I vm.ram (mapPage virtPage physPage vm)) ∧
    (¬ Refused I vm.ram virtPage → Maps I vm.ram virtPage physPage (mapPage virtPage physPage vm))

/-- A page the search can find: its entry is not present in the table of its slot, which a clear
    slot is given, and the tables from the kernel's first one up to this one are reached. -/
def Findable (m : Ram) (q : Nat) : Prop :=
  q % 4096 = 0 ∧ kernelStart ≤ q ∧ q < 0x100000000 ∧ ¬ Present (pageEntry I m q) ∧
    ∀ k, 768 ≤ k → k ≤ q / 4194304 → Reached I m k

/-- Nothing is free and all tables are reached, and the entry of the page at 0 is the one a call
    writes there. -/
def NullAlready (m : Ram) (physPage : Nat) : Prop :=
  NoFreePage I m ∧ (∀ k, 768 ≤ k → k < 1024 → Reached I m k) ∧ I.dirAt m 0 ≠ 0 ∧ Reached I m 0 ∧
    pageEntry I m 0 = physPage ||| ptFlags

/-- **When the contract is kept.** -/
def KeptWhen (m : Ram) (virtPage physPage : Nat) : Prop :=
  if virtPage = 0 then (∃ q, Findable I m q) ∨ NullAlready I m physPage
  else ¬ Unavailable I m virtPage ∧ Reached I m (virtPage / 4194304)

variable {I} {vm vm' : Vm} {m m' : Ram} {v q t phys : Nat}

/-! ## 2. What a written entry changes -/

theorem keepsDir_of_loads (h : Loads I m m') (ht : Tables I m) : KeepsDir I m m' :=
  fun _ hk hp => h.dirAt ((ht.present_iff hk).mp hp)

theorem keepsDir_setEntry (h : KeepsDir I m m') (w j : Nat) :
    KeepsDir I m (I.setEntry m' t j w) := by
  intro k hk hp
  rw [I.dirAt_setEntry _ hk]
  exact h k hk hp

/-- The entry of page `q` written after a search. -/
theorem writesEntry_of_loads (h : Loads I m m') (hq : q < 0x100000000)
    (htab : tableOf I m' (q / 4194304) = I.pageTables + 4096 * t) (ht : t < 1024) (w : Nat) :
    WritesEntry I m (I.setEntry m' t (q / 4096 % 1024) w) q := by
  refine ⟨t, ht, ?_, fun t' _ j hj hne => ?_⟩
  · unfold tableOf at htab ⊢
    rw [I.dirAt_setEntry _ (by omega)]
    exact htab
  · rw [I.entryAt_setEntry_ne _ (by omega) hj hne]
    exact h.entryAt t' j

/-- **Mapping a page of a slot in use**, after a search or none. -/
theorem InUse.maps (hu : InUse I m (q / 4194304) vm) (ht : Tables I m) (hq : q < 0x100000000)
    (hqp : q % 4096 = 0) (hphys : phys % 4096 = 0) :
    ∃ vm', writePage q phys vm = (vm', some q) ∧ KeepsDir I m vm'.ram ∧
      WritesEntry I m vm'.ram q ∧ walk vm'.ram I.pageDir q = some phys := by
  obtain ⟨⟨hp, hl⟩, hne, hr⟩ := hu
  have hk : q / 4194304 < 1024 := by omega
  obtain ⟨t, ht', htab⟩ := hp.tables.tableOf_eq hk
  refine ⟨_, hp.writePage_eq hq hne ((hl.reached ht hk).mpr hr) hphys htab, ?_, ?_, ?_⟩
  · exact keepsDir_setEntry (keepsDir_of_loads hl ht) _ _
  · exact writesEntry_of_loads hl hq htab ht' _
  · exact hp.tables.walk_written hq hqp hne hphys htab

/-- A call that stops keeps no contract. -/
theorem not_keeps_of_stopped (hrun : mapPage v phys vm = (vm', none)) :
    ¬ KeepsContract I v phys vm := by
  intro hc
  by_cases href : Refused I vm.ram v
  · obtain ⟨_, hcon, _⟩ := hc.1 href
    rw [hrun] at hcon
    cases hcon
  · obtain ⟨_, _, hcon, _⟩ := hc.2 href
    rw [hrun] at hcon
    cases hcon

/-! ## 3. A page given -/

/-- A call with a page never answers null. -/
theorem not_declines (hv : v ≠ 0) : ¬ Declines I m (mapPage v phys vm) := by
  intro h
  obtain ⟨vm', hrun, _⟩ := h
  obtain ⟨_, _, hsame⟩ := mapPage_aligned hrun
  exact hv (hsame hv).symm

/-- **An explicit page**: the contract is kept exactly where the page is available and its table
    reached. -/
theorem explicit_contract_iff (h : Paged I vm) (hv : v < 0x100000000) (hvp : v % 4096 = 0)
    (hne : v ≠ 0) (hphys : phys % 4096 = 0) :
    KeepsContract I v phys vm ↔
      ¬ Unavailable I vm.ram v ∧ Reached I vm.ram (v / 4194304) := by
  have hrefused : Refused I vm.ram v ↔ Unavailable I vm.ram v := by
    unfold Refused
    rw [if_neg hne]
  have hk : v / 4194304 < 1024 := by omega
  constructor
  · intro hc
    have hav : ¬ Unavailable I vm.ram v := fun hun => not_declines hne (hc.1 (hrefused.mpr hun))
    refine ⟨hav, ?_⟩
    by_contra hr
    have hslot : I.dirAt vm.ram (v / 4194304) ≠ 0 :=
      (h.tables.present_iff hk).mp (not_not.mp (not_or.mp hav).1)
    have hstop := (mapPage_of_ne hne hvp hphys).trans (h.writePage_fault hv hslot hr)
    exact not_keeps_of_stopped hstop hc
  · intro hc
    obtain ⟨hav, hr⟩ := hc
    refine ⟨fun href => absurd (hrefused.mp href) hav, fun _ => ?_⟩
    have hslot : I.dirAt vm.ram (v / 4194304) ≠ 0 :=
      (h.tables.present_iff hk).mp (not_not.mp (not_or.mp hav).1)
    have huse : InUse I vm.ram (v / 4194304) vm := ⟨⟨h, Loads.refl⟩, hslot, hr⟩
    obtain ⟨vm', hrun, hdir, hentry, hwalk⟩ := huse.maps h.tables hv hvp hphys
    rw [mapPage_of_ne hne hvp hphys]
    exact ⟨vm', v, hrun, hne, fun _ => rfl, fun h0 => absurd h0 hne, hdir, hentry, hwalk⟩

/-! ## 4. No page given -/

/-- What `map_page(nullptr, _)` does with the answer of the search. -/
theorem mapPage_null_of_found {o : Option Nat} (hrun : findFreeVirtPage vm = (vm', o))
    (hphys : phys % 4096 = 0) (hal : ∀ q ∈ o, q % 4096 = 0) :
    mapPage 0 phys vm = andThen (vm', o) fun vm q => writePage q phys vm := by
  have hsize : pageSize = 4096 := rfl
  unfold mapPage
  rw [if_pos rfl, hrun, hsize]
  cases o with
  | none => rfl
  | some q =>
      rw [andThen_some, andThen_some, if_pos ⟨hal q rfl, hphys⟩]

/-- **The page found is mapped**, and was free. -/
theorem null_maps (h : Paged I vm) (hphys : phys % 4096 = 0) (hu : InUse I vm.ram (q / 4194304) vm')
    (hq : q % 4096 = 0) (hlow : kernelStart ≤ q) (hlt : q < 0x100000000)
    (hfree : ¬ Present (pageEntry I vm.ram q))
    (hrun : findFreeVirtPage vm = (vm', some q)) :
    Maps I vm.ram 0 phys (mapPage 0 phys vm) := by
  have hstart : kernelStart = 0xc0100000 := rfl
  obtain ⟨vm₂, hwrite, hdir, hentry, hwalk⟩ := hu.maps h.tables hlt hq hphys
  have hal : ∀ q' ∈ some q, q' % 4096 = 0 := by
    intro q' hq'
    rw [← Option.some.inj hq']
    exact hq
  rw [mapPage_null_of_found hrun hphys hal, andThen_some]
  exact ⟨vm₂, q, hwrite, by omega, fun h0 => absurd rfl h0,
    fun _ => ⟨hlow, h.tables.unmapped hlt hfree⟩, hdir, hentry, hwalk⟩

/-- Where the search stops in a lost table nothing can be found, and the contract is not kept. -/
theorem null_lost {page : Nat} (hlost : ¬ Reached I vm.ram (page / 4194304))
    (hlow : kernelStart ≤ page) (hlt : page < 0x100000000)
    (htaken : TakenUpTo (Taken I vm.ram) page) (hrun : findFreeVirtPage vm = (vm', none))
    (hphys : phys % 4096 = 0) : ¬ KeepsContract I 0 phys vm ∧
      ¬ ((∃ q, Findable I vm.ram q) ∨ NullAlready I vm.ram phys) := by
  have hstart : kernelStart = 0xc0100000 := rfl
  have hmap : mapPage 0 phys vm = (vm', none) := by
    rw [mapPage_null_of_found hrun hphys (fun q hq => by cases hq), andThen_none]
  refine ⟨not_keeps_of_stopped hmap, fun hw => ?_⟩
  rcases hw with ⟨q, hq, hqlow, hqlt, hfree, hreached⟩ | halready
  · by_cases hqp : q < page
    · exact hfree (htaken q hq hqlow hqp).2
    · exact hlost (hreached _ (by omega) (by omega))
  · exact hlost (halready.2.1 _ (by omega) (by omega))

/-- The page at 0, in the table of slot 0. -/
theorem writePage_zero_cases (h : Paged I vm) (hphys : phys % 4096 = 0) :
    (∃ vm', writePage 0 phys vm = (vm', none) ∧ ¬ (I.dirAt vm.ram 0 ≠ 0 ∧ Reached I vm.ram 0)) ∨
    (∃ vm' t, t < 1024 ∧ writePage 0 phys vm = (vm', some 0) ∧
      vm'.ram = I.setEntry vm.ram t 0 (phys + 1) ∧ tableOf I vm.ram 0 = I.pageTables + 4096 * t ∧
      I.dirAt vm.ram 0 ≠ 0 ∧ Reached I vm.ram 0) := by
  by_cases hc : I.dirAt vm.ram 0 = 0
  · exact Or.inl ⟨_, h.writePage_null_fault hc, fun hcon => hcon.1 hc⟩
  · by_cases hr : Reached I vm.ram 0
    · obtain ⟨t, ht, htab⟩ := h.tables.tableOf_eq (k := 0) (by omega)
      exact Or.inr ⟨_, t, ht, h.writePage_eq (v := 0) (by omega) hc hr hphys htab, rfl, htab, hc, hr⟩
    · exact Or.inl ⟨_, h.writePage_fault (v := 0) (by omega) hc hr, fun hcon => hr hcon.2⟩

/-- The tables of a search are reached up to the page where it ended. -/
theorem reached_of_taken {k : Nat} (h : TakenUpTo (Taken I m) q) (hk : 768 ≤ k)
    (hlt : k < q / 4194304) : Reached I m k := by
  have hstart : kernelStart = 0xc0100000 := rfl
  have hpage := (h (4194304 * k + 4190208) (by omega) (by omega) (by omega)).1
  rw [show (4194304 * k + 4190208) / 4194304 = k by omega] at hpage
  exact hpage

/-- **The page at 0 written** with null returned: the contract is kept where nothing is free and
    the entry was there. -/
theorem null_written (h : Tables I vm.ram) (hl : Loads I vm.ram vm'.ram) (ht : t < 1024) {vm₂ : Vm}
    (hmap : mapPage 0 phys vm = (vm₂, some 0))
    (hram : vm₂.ram = I.setEntry vm'.ram t 0 (phys + 1)) :
    KeepsContract I 0 phys vm ↔ NoFreePage I vm.ram ∧ I.entryAt vm.ram t 0 = phys + 1 := by
  constructor
  · intro hc
    have hfree : NoFreePage I vm.ram := by
      by_contra hno
      obtain ⟨_, q, hcon, hq, _⟩ := hc.2 hno
      rw [hmap] at hcon
      exact hq (Option.some.inj (congrArg Prod.snd hcon)).symm
    obtain ⟨vm₃, hcon, _, hkeep⟩ := hc.1 hfree
    rw [hmap] at hcon
    obtain rfl : vm₂ = vm₃ := congrArg Prod.fst hcon
    have hsame := hkeep t ht 0 (by omega)
    rw [hram, I.entryAt_setEntry_self] at hsame
    exact ⟨hfree, hsame.symm⟩
  · intro hw
    obtain ⟨hfree, hword⟩ := hw
    refine ⟨fun _ => ⟨vm₂, hmap, ?_, fun t' _ j hj => ?_⟩, fun hno => absurd hfree hno⟩
    · rw [hram]
      exact keepsDir_setEntry (keepsDir_of_loads hl h) _ _
    · rw [hram]
      by_cases hplace : t' = t ∧ j = 0
      · rw [hplace.1, hplace.2, I.entryAt_setEntry_self, hword]
      · rw [I.entryAt_setEntry_ne _ (by omega) hj (by omega)]
        exact hl.entryAt t' j

/-- **Where the search fails** the page at 0 is written: the contract is kept only where that
    changes nothing. -/
theorem null_exhausted (h : Paged I vm) (hphys : phys % 4096 = 0) (hs : Searching I vm.ram vm')
    (htaken : TakenUpTo (Taken I vm.ram) 0x100000000)
    (hrun : findFreeVirtPage vm = (vm', some 0)) :
    KeepsContract I 0 phys vm ↔ (∃ q, Findable I vm.ram q) ∨ NullAlready I vm.ram phys := by
  obtain ⟨hp, hl⟩ := hs
  have hnot : ¬ ∃ q, Findable I vm.ram q := by
    intro hf
    obtain ⟨q, hq, hqlow, hqlt, hfree, _⟩ := hf
    exact hfree (htaken q hq hqlow hqlt).2
  have hdir0 : I.dirAt vm'.ram 0 = I.dirAt vm.ram 0 := hl.dirAt_low (by omega)
  have hreached0 := hl.reached h.tables (k := 0) (by omega)
  have hal : ∀ q ∈ some 0, q % 4096 = 0 := by
    intro q hq
    rw [← Option.some.inj hq]
  rw [or_iff_right hnot]
  rcases writePage_zero_cases hp hphys with h1 | h1
  · -- the write faults
    obtain ⟨vm₂, hwrite, hno⟩ := h1
    rw [hdir0, hreached0] at hno
    have hmap : mapPage 0 phys vm = (vm₂, none) := by
      rw [mapPage_null_of_found hrun hphys hal, andThen_some, hwrite]
    exact ⟨fun hc => absurd hc (not_keeps_of_stopped hmap),
      fun hw => absurd ⟨hw.2.2.1, hw.2.2.2.1⟩ hno⟩
  · -- the entry of the page at 0 is written, and null returned
    obtain ⟨vm₂, t, ht, hwrite, hram, htab, hslot, hr⟩ := h1
    rw [hdir0] at hslot
    rw [hl.tableOf_eq] at htab
    have hmap : mapPage 0 phys vm = (vm₂, some 0) := by
      rw [mapPage_null_of_found hrun hphys hal, andThen_some, hwrite]
    have hentry : pageEntry I vm.ram 0 = I.entryAt vm.ram t 0 := by
      show vm.ram (tableOf I vm.ram 0 + 4 * 0) = _
      rw [htab]
      rfl
    have hflags : phys ||| ptFlags = phys + 1 := frame_or_one hphys
    rw [null_written h.tables hl ht hmap hram, ← hentry, ← hflags]
    exact ⟨fun hc => ⟨hc.1, fun k hk hk' => reached_of_taken htaken hk hk', hslot,
      hreached0.mp hr, hc.2⟩, fun hw => ⟨hw.1, hw.2.2.2.2⟩⟩

/-- **No page given**: the contract is kept exactly where a page is found, or where nothing is free
    and the page at 0 has its entry already. -/
theorem null_contract_iff (h : Paged I vm) (hphys : phys % 4096 = 0) :
    KeepsContract I 0 phys vm ↔ (∃ q, Findable I vm.ram q) ∨ NullAlready I vm.ram phys := by
  have hstart : kernelStart = 0xc0100000 := rfl
  have hout := h.findFreeVirtPage_spec
  obtain ⟨vm', a, hrun⟩ : ∃ vm' a, findFreeVirtPage vm = (vm', a) := ⟨_, _, rfl⟩
  rw [hrun] at hout
  match a, hout with
  | none, hlost =>
      obtain ⟨page, hlow, hlt, hl, htaken⟩ := hlost
      obtain ⟨h1, h2⟩ := null_lost hl hlow hlt htaken hrun hphys
      exact ⟨fun hc => absurd hc h1, fun hw => absurd hw h2⟩
  | some q, Or.inl hnone =>
      obtain ⟨rfl, hs, htaken⟩ := hnone
      exact null_exhausted h hphys hs htaken hrun
  | some q, Or.inr hfound =>
      obtain ⟨hu, hq, hlow, hlt, hnot, htaken⟩ := hfound
      have hfree : ¬ Present (pageEntry I vm.ram q) := fun hp => hnot ⟨hu.reached, hp⟩
      have hmaps := null_maps h hphys hu hq hlow hlt hfree hrun
      refine ⟨fun _ => Or.inl ⟨q, hq, hlow, hlt, hfree, fun k hk hkq => ?_⟩,
        fun _ => ⟨fun href => ?_, fun _ => hmaps⟩⟩
      · by_cases heq : k = q / 4194304
        · rw [heq]
          exact hu.reached
        · exact reached_of_taken htaken hk (by omega)
      · exact absurd (h.tables.unmapped hlt hfree) (href q hq hlow hlt)

/-! ## 5. Every call -/

/-- **When `map_page` keeps its contract**, for every directory and all tables, every page and
    every frame. -/
theorem mapPage_contract_iff (I : KernelImage) (vm : Vm) (h : Paged I vm)
    (virtPage physPage : Nat) (hlt : virtPage < 0x100000000) (hvirt : virtPage % 4096 = 0)
    (hphys : physPage % 4096 = 0) :
    KeepsContract I virtPage physPage vm ↔ KeptWhen I vm.ram virtPage physPage := by
  unfold KeptWhen
  by_cases h0 : virtPage = 0
  · subst h0
    rw [if_pos rfl]
    exact null_contract_iff h hphys
  · rw [if_neg h0]
    exact explicit_contract_iff h hlt hvirt h0 hphys

/-- A page of the kernel image is unavailable. -/
theorem Booted.unavailable {p : Nat} (h : Booted I vm) (hp : I.Page p) :
    Unavailable I vm.ram (kernelBase + p) := by
  have hbase : kernelBase = 0xc0000000 := rfl
  have hstop := I.stop_lt
  have hend := hp.2.2
  have hwalk := h.shape.walk_high hp
  have hne : I.dirAt vm.ram ((kernelBase + p) / 4194304) ≠ 0 := by
    intro h0
    rw [I.walk_absent h0] at hwalk
    cases hwalk
  refine Or.inr (not_not.mp fun hno => ?_)
  rw [(h.paged.tables.walk_iff (by omega) hne).mpr hno] at hwalk
  cases hwalk

/-- A boot of the real image in which the page after its end is available. -/
theorem boot_available : ∃ m, LeftBySetup realImage m ∧
    KeptWhen realImage m 0xc0520000 0x900000 := by
  obtain ⟨m, hrun, _, hfill⟩ := setupPaging_tables (blank_bootRam realImage)
    (placed_bootRam realImage) (show 0x40000 < 0x40001 by decide)
  have hm : LeftBySetup realImage m :=
    ⟨0x40001, bootRam, 0x9000, blank_bootRam realImage, placed_bootRam realImage, hrun⟩
  obtain ⟨hb, hid⟩ := bootVm_booted hm
  have hentry : realImage.entryAt m (0x520000 / 4194304) (0x520000 / 4096 % 1024) = 0 := by
    refine (hfill 0x520000 (by decide) (by decide)).2 ?_
    unfold Looping Looped KernelImage.Page
    decide
  have hs : Shape realImage m := hb.shape
  have ht : Tables realImage m := hb.paged.tables
  have hslot : realImage.dirAt m (0xc0520000 / 4194304) ≠ 0 :=
    hs.kernel_ne_zero (by decide) (by decide)
  have htab := hs.tableOf_eq (by decide) hslot
  refine ⟨m, hm, ?_⟩
  unfold KeptWhen
  rw [if_neg (by decide)]
  refine ⟨fun hun => ?_, ?_⟩
  · rcases hun with hno | hpresent
    · exact hno ((ht.present_iff (by decide)).mpr hslot)
    · unfold pageEntry at hpresent
      rw [htab] at hpresent
      have hzero : m (realImage.pageTables + 4096 * realImage.slotTable (0xc0520000 / 4194304) +
          4 * (0xc0520000 / 4096 % 1024)) = 0 := hentry
      rw [hzero] at hpresent
      exact not_present_zero hpresent
  · unfold Reached
    rw [htab]
    exact hs.walk_table (by decide) (Or.inl hid)

/-- The theorem in the boot of an image of 4.1 MiB: the page after the image is mapped as it should,
    the first page of the image is not refused. -/
theorem mapPage_contract_iff_boot : ∃ m, LeftBySetup realImage m ∧
    KeepsContract realImage 0xc0520000 0x900000 (bootVm realImage m) ∧
    ¬ KeepsContract realImage 0xc0100000 0x900000 (bootVm realImage m) := by
  obtain ⟨m, hm, hav⟩ := boot_available
  have hb := (bootVm_booted hm).1
  refine ⟨m, hm, ?_, fun hc => ?_⟩
  · exact (mapPage_contract_iff realImage _ hb.paged 0xc0520000 0x900000 (by decide) (by decide)
      (by decide)).mpr hav
  · have hkept := (mapPage_contract_iff realImage _ hb.paged 0xc0100000 0x900000 (by decide)
      (by decide) (by decide)).mp hc
    have hun := hb.unavailable (p := 0x100000) ⟨by decide, by decide, by decide⟩
    unfold KeptWhen at hkept
    rw [if_neg (by decide)] at hkept
    exact hkept.1 hun

/-- **The contract is not kept**: `map_page` on the first page of the kernel, which is mapped, returns
    that page. -/
theorem not_mapPage_contract : ¬ ∀ (I : KernelImage) (vm : Vm), Paged I vm →
    ∀ virtPage physPage, virtPage < 0x100000000 → virtPage % 4096 = 0 → physPage % 4096 = 0 →
      KeepsContract I virtPage physPage vm := by
  intro hall
  obtain ⟨m, hm⟩ := exists_leftBySetup realImage
  have hb := (bootVm_booted hm).1
  have hun := hb.unavailable (p := 0x100000) ⟨by decide, by decide, by decide⟩
  have hc := hall realImage _ hb.paged 0xc0100000 0x900000 (by decide) (by decide) (by decide)
  refine not_declines (by decide) (hc.1 ?_)
  unfold Refused
  rw [if_neg (by decide)]
  exact hun

end OsPlayground.VirtMem
