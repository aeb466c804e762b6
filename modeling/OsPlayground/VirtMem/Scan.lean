/-
  File:      OsPlayground/VirtMem/Scan.lean
  Subject:   THE LOOPS OF THE SEARCH FOR A FREE PAGE, for any description of the machine: `J` holds of
             it between the passes, `Taken` of the pages whose entry is present.

  * `scanTable_answer` -- the inner loop answers the least page of the block that is not taken;
  * `scanTable_fault` -- a table that is not reached stops it;
  * **`findFreeVirtPage_answer`** -- the outer loop, over any lemma about one block.
-/
import OsPlayground.VirtMem.Alloc

namespace OsPlayground.VirtMem

open Paging Halting

/-! ## 1. Accesses -/

/-- The machine with another memory. -/
def Vm.withRam (vm : Vm) (m : Ram) : Vm := { vm with ram := m }

@[simp] theorem Vm.withRam_ram (vm : Vm) (m : Ram) : (vm.withRam m).ram = m := rfl

@[simp] theorem record_ram (k t : Nat) (vm : Vm) : (record k t vm).ram = vm.ram := rfl

section Access

variable {vm : Vm} {va pa w : Nat}

/-- A load where the walk is known. -/
theorem loadWord_of_walk (h : walk vm.ram vm.cr3 va = some pa) :
    loadWord va vm = (vm, some (vm.ram pa)) := by
  unfold loadWord
  rw [load_of_walk h]

/-- A store where the walk is known. -/
theorem storeWord_of_walk (h : walk vm.ram vm.cr3 va = some pa) :
    storeWord va w vm = (vm.withRam (Function.update vm.ram pa w), some ()) := by
  unfold storeWord
  rw [store_of_walk h]
  rfl

theorem loadWord_fault (h : walk vm.ram vm.cr3 va = none) : loadWord va vm = (vm, none) := by
  unfold loadWord
  rw [load_fault h]

theorem storeWord_fault (h : walk vm.ram vm.cr3 va = none) : storeWord va w vm = (vm, none) := by
  unfold storeWord
  rw [store_fault h]

end Access

/-! ## 2. Addresses that wrap -/

/-- An address as the end of a range: the wrapped one is 4 GiB. -/
def top (a : Nat) : Nat := if a = 0 then 0x100000000 else a

theorem top_of_pos {a : Nat} (h : a ≠ 0) : top a = a := by
  unfold top
  rw [if_neg h]

theorem top_zero : top 0 = 0x100000000 := by decide

theorem top_mod {a : Nat} (h : 0 < a) (h' : a ≤ 0x100000000) : top (a % 2 ^ 32) = a := by
  by_cases heq : a = 0x100000000
  · subst heq
    decide
  · rw [top_of_pos (by omega)]
    omega

theorem nextBlock_eq (page : Nat) :
    nextBlock page = (page / 4194304 + 1) * 4194304 % 2 ^ 32 := by
  have hsize : pageBlockSize = 4194304 := by decide
  unfold nextBlock
  rw [hsize]
  omega

theorem top_nextBlock {page : Nat} (h : page < 0x100000000) :
    top (nextBlock page) = (page / 4194304 + 1) * 4194304 := by
  rw [nextBlock_eq]
  exact top_mod (by omega) (by omega)

theorem top_nextPage {page : Nat} (h : page < 0x100000000) (hp : page % 4096 = 0) :
    top ((page + pageSize) % 2 ^ 32) = page + 4096 := by
  have hsize : pageSize = 4096 := rfl
  rw [hsize]
  exact top_mod (by omega) (by omega)

theorem ne_nextBlock (page : Nat) : page ≠ nextBlock page := by
  rw [nextBlock_eq]
  omega

/-! ## 3. One block -/

section Loops

variable {J : Vm → Prop} {K : Nat → Vm → Prop} {Taken : Nat → Prop} {Lost : Nat → Prop} {vm : Vm}

variable (Taken) in
/-- **The answer of a search from `page` on in its block**: the least page that is not taken, or
    `none` where the rest of the block is taken. -/
def BlockAnswer (page : Nat) : Option Nat → Prop
  | some q => q % 4096 = 0 ∧ page ≤ q ∧ q / 4194304 = page / 4194304 ∧ ¬ Taken q ∧
      ∀ v, v % 4096 = 0 → page ≤ v → v < q → Taken v
  | none => ∀ v, v % 4096 = 0 → page ≤ v → v / 4194304 = page / 4194304 → Taken v

variable (J Taken) in
/-- **The table of slot `k` is read** at the pages of the block from `page` on. -/
def Reads (k pageTable page : Nat) : Prop :=
  ∀ u, J u → ∀ cur, cur % 4096 = 0 → page ≤ cur → cur / 4194304 = k →
    ∃ u' entry, readTable k pageTable (virtToPtIndex cur) u = (u', some entry) ∧ J u' ∧
      (Present entry ↔ Taken cur)

variable (J Taken) in
/-- The invariant of the inner loop from `page` on. -/
structure TableInv (page : Nat) (x : Nat × Vm) : Prop where
  machine : J x.2
  lt : x.1 < 0x100000000
  aligned : x.1 % 4096 = 0
  low : page ≤ top x.1
  high : top x.1 ≤ (page / 4194304 + 1) * 4194304
  taken : ∀ v, v % 4096 = 0 → page ≤ v → v < top x.1 → Taken v

/-- Where the inner loop is before the end of its block. -/
theorem TableInv.inside {page cur : Nat} {u : Vm} (hpage : page < 0x100000000)
    (hI : TableInv J Taken page (cur, u)) (hend : cur ≠ nextBlock page) :
    cur ≠ 0 ∧ top cur = cur ∧ page ≤ cur ∧ cur / 4194304 = page / 4194304 := by
  have hlow : page ≤ top cur := hI.low
  have hhigh : top cur ≤ (page / 4194304 + 1) * 4194304 := hI.high
  have hlt : cur < 0x100000000 := hI.lt
  have hcur : cur ≠ 0 := by
    intro h0
    rw [h0, top_zero] at hhigh
    refine hend ?_
    rw [h0, nextBlock_eq]
    omega
  have htop := top_of_pos hcur
  refine ⟨hcur, htop, by omega, ?_⟩
  by_cases heq : cur = (page / 4194304 + 1) * 4194304
  · refine absurd ?_ hend
    rw [nextBlock_eq]
    omega
  · omega

/-- The invariant after a page that is taken. -/
theorem TableInv.next {page cur : Nat} {u u' : Vm} (hpage : page < 0x100000000)
    (hI : TableInv J Taken page (cur, u)) (hend : cur ≠ nextBlock page) (hJ : J u')
    (ht : Taken cur) :
    TableInv J Taken page ((cur + pageSize) % 2 ^ 32, u') ∧
      top ((cur + pageSize) % 2 ^ 32) = cur + 4096 := by
  obtain ⟨_, htop, hlow, hin⟩ := hI.inside hpage hend
  have hlt : cur < 0x100000000 := hI.lt
  have hal : cur % 4096 = 0 := hI.aligned
  have hnext := top_nextPage hlt hal
  have hsize : pageSize = 4096 := rfl
  refine ⟨⟨hJ, ?_, ?_, ?_, ?_, fun v hv hpv hvlt => ?_⟩, hnext⟩
  · show (cur + pageSize) % 2 ^ 32 < 0x100000000
    omega
  · show (cur + pageSize) % 2 ^ 32 % 4096 = 0
    omega
  · show page ≤ top ((cur + pageSize) % 2 ^ 32)
    rw [hnext]
    omega
  · show top ((cur + pageSize) % 2 ^ 32) ≤ _
    rw [hnext]
    omega
  · have hvlt : v < cur + 4096 := by
      rw [← hnext]
      exact hvlt
    by_cases heq : v = cur
    · rw [heq]
      exact ht
    · refine hI.taken v hv hpv ?_
      show v < top cur
      omega

/-- **One pass of the inner loop.** -/
theorem tableStep_spec {k pageTable page : Nat} {x : Nat × Vm} (hslot : page / 4194304 = k)
    (hlt : page < 0x100000000) (hread : Reads J Taken k pageTable page)
    (hI : TableInv J Taken page x) :
    (∃ x', tableStep k pageTable (nextBlock page) x = .inl x' ∧ TableInv J Taken page x' ∧
        top x'.1 = top x.1 + 4096 ∧ top x.1 < (k + 1) * 4194304) ∨
      ∃ r, tableStep k pageTable (nextBlock page) x = .inr r ∧
        Post (fun vm' a => J vm' ∧ BlockAnswer Taken page a) r := by
  obtain ⟨cur, u⟩ := x
  have hal : cur % 4096 = 0 := hI.aligned
  have htaken : ∀ v, v % 4096 = 0 → page ≤ v → v < top cur → Taken v := hI.taken
  unfold tableStep
  dsimp only
  by_cases hend : cur = nextBlock page
  · -- the end of the block
    rw [if_neg (fun hc => hc hend)]
    refine Or.inr ⟨_, rfl, .intro ⟨hI.machine, fun v hv hpv hvk => htaken v hv hpv ?_⟩⟩
    rw [hend, top_nextBlock hlt]
    omega
  · rw [if_pos hend]
    obtain ⟨_, htop, hlow, hin⟩ := hI.inside hlt hend
    obtain ⟨u', entry, hrun, hJ, hentry⟩ := hread u hI.machine cur hal hlow (hin.trans hslot)
    rw [hrun]
    dsimp only
    by_cases hp : Present entry
    · rw [if_pos hp]
      obtain ⟨hI', hnext⟩ := hI.next hlt hend hJ (hentry.mp hp)
      refine Or.inl ⟨_, rfl, hI', ?_, ?_⟩
      · show top ((cur + pageSize) % 2 ^ 32) = top cur + 4096
        rw [hnext, htop]
      · show top cur < (k + 1) * 4194304
        omega
    · rw [if_neg hp]
      rw [htop] at htaken
      exact Or.inr ⟨_, rfl, .intro ⟨hJ, hal, hlow, hin, fun ht => hp (hentry.mpr ht), htaken⟩⟩

/-- **The inner loop** answers the least page of the block from `page` on that is not taken. -/
theorem scanTable_answer {k pageTable page : Nat} (hslot : page / 4194304 = k)
    (hlt : page < 0x100000000) (hpos : 0 < page) (hp : page % 4096 = 0)
    (hread : Reads J Taken k pageTable page) (h : J vm) :
    Post (fun vm' a => J vm' ∧ BlockAnswer Taken page a)
      (scanTable k pageTable (nextBlock page) page vm) := by
  have htop : top page = page := top_of_pos (by omega)
  have hrun : ∃ r, FuelLoop.run (tableStep k pageTable (nextBlock page)) 1025 (page, vm) = some r ∧
      Post (fun vm' a => J vm' ∧ BlockAnswer Taken page a) r := by
    refine FuelLoop.run_passes (TableInv J Taken page) _
      (fun x => ((k + 1) * 4194304 + 4095 - top x.1) / 4096) (fun x hI => ?_) ?_ ?_
    · rcases tableStep_spec hslot hlt hread hI with h1 | h1
      · obtain ⟨x', hx', hI', hstep, hltx⟩ := h1
        exact Or.inl ⟨x', hx', hI', by omega⟩
      · exact Or.inr h1
    · refine ⟨h, hlt, hp, Nat.le_of_eq htop.symm, ?_, fun v _ hpv hvlt => ?_⟩
      · show top page ≤ _
        omega
      · have hvlt : v < top page := hvlt
        omega
    · show ((k + 1) * 4194304 + 4095 - top page) / 4096 < 1025
      omega
  obtain ⟨r, hr, hpost⟩ := hrun
  unfold scanTable
  rw [hr]
  exact hpost

/-- **A table that is not reached** stops the inner loop at its first read. -/
theorem scanTable_fault {k pageTable page : Nat} {u : Vm}
    (hread : readTable k pageTable (virtToPtIndex page) vm = (u, none)) :
    scanTable k pageTable (nextBlock page) page vm = (u, none) := by
  have hstep : tableStep k pageTable (nextBlock page) (page, vm) = .inr (u, none) := by
    unfold tableStep
    dsimp only
    rw [if_pos (ne_nextBlock page), hread]
  unfold scanTable
  rw [FuelLoop.run_stop hstep]

/-! ## 4. All blocks -/

variable (J K Taken Lost) in
/-- **What is known of one block**: its rest is taken; or a page was found, and `K` holds; or the
    machine stopped, for the block is lost. -/
def BlockOutcome (page : Nat) : Answer (Option Nat) → Prop
  | (_, none) => Lost page
  | (u, some none) => J u ∧ BlockAnswer Taken page none
  | (u, some (some q)) => K q u ∧ BlockAnswer Taken page (some q)

variable (Taken) in
/-- Every page from `_kernel_start` up to `stop` is taken. -/
def TakenUpTo (stop : Nat) : Prop := ∀ v, v % 4096 = 0 → kernelStart ≤ v → v < stop → Taken v

variable (J K Taken Lost) in
/-- **What is known of the search**: every page is taken; or the least that is not was found; or
    the machine stopped in a lost block, with all before it taken. -/
def SearchOutcome : Answer Nat → Prop
  | (_, none) => ∃ page, kernelStart ≤ page ∧ page < 0x100000000 ∧ Lost page ∧ TakenUpTo Taken page
  | (u, some q) => (q = 0 ∧ J u ∧ TakenUpTo Taken 0x100000000) ∨
      (K q u ∧ q % 4096 = 0 ∧ kernelStart ≤ q ∧ q < 0x100000000 ∧ ¬ Taken q ∧ TakenUpTo Taken q)

variable (J Taken) in
/-- The invariant of the outer loop. -/
structure SearchInv (x : Nat × Vm) : Prop where
  machine : J x.2
  lt : x.1 < 0x100000000
  aligned : x.1 % 4096 = 0
  low : kernelStart ≤ top x.1
  taken : TakenUpTo Taken (top x.1)

/-- The invariant after a block whose rest is taken. -/
theorem SearchInv.next {cur : Nat} {u u' : Vm} (hI : SearchInv J Taken (cur, u)) (h0 : cur ≠ 0)
    (hJ : J u') (hall : BlockAnswer Taken cur none) : SearchInv J Taken (nextBlock cur, u') := by
  have hlt : cur < 0x100000000 := hI.lt
  have hal : cur % 4096 = 0 := hI.aligned
  have hlow : kernelStart ≤ top cur := hI.low
  have hstart : kernelStart = 0xc0100000 := rfl
  have htop := top_of_pos h0
  have hnext := top_nextBlock hlt
  refine ⟨hJ, ?_, ?_, ?_, fun v hv hsv hvlt => ?_⟩
  · show nextBlock cur < 0x100000000
    rw [nextBlock_eq]
    omega
  · show nextBlock cur % 4096 = 0
    rw [nextBlock_eq]
    omega
  · show kernelStart ≤ top (nextBlock cur)
    rw [hnext]
    omega
  · have hvlt : v < (cur / 4194304 + 1) * 4194304 := by
      rw [← hnext]
      exact hvlt
    by_cases hvc : v < cur
    · refine hI.taken v hv hsv ?_
      show v < top cur
      omega
    · exact hall v hv (by omega) (by omega)

/-- **One pass of the outer loop.** -/
theorem searchStep_spec {x : Nat × Vm}
    (hblock : ∀ u page, J u → kernelStart ≤ page → page < 0x100000000 → page % 4096 = 0 →
      BlockOutcome J K Taken Lost page (scanBlock page u)) (hI : SearchInv J Taken x) :
    (∃ x', searchStep x = .inl x' ∧ SearchInv J Taken x' ∧ x.1 ≠ 0 ∧
        top x'.1 = (x.1 / 4194304 + 1) * 4194304) ∨
      ∃ r, searchStep x = .inr r ∧ SearchOutcome J K Taken Lost r := by
  obtain ⟨cur, u⟩ := x
  have hlt : cur < 0x100000000 := hI.lt
  have hal : cur % 4096 = 0 := hI.aligned
  have hlow : kernelStart ≤ top cur := hI.low
  have htaken : TakenUpTo Taken (top cur) := hI.taken
  have hstart : kernelStart = 0xc0100000 := rfl
  unfold searchStep
  dsimp only
  by_cases h0 : cur = 0
  · -- the end of the address space
    rw [if_neg (fun hc => hc h0)]
    rw [h0, top_zero] at htaken
    exact Or.inr ⟨_, rfl, Or.inl ⟨rfl, hI.machine, htaken⟩⟩
  · rw [if_pos h0]
    have htop := top_of_pos h0
    rw [htop] at hlow htaken
    have hout := hblock u cur hI.machine hlow hlt hal
    obtain ⟨u', a, hrun⟩ : ∃ u' a, scanBlock cur u = (u', a) := ⟨_, _, rfl⟩
    rw [hrun] at hout
    rw [hrun]
    match a, hout with
    | none, hlost => exact Or.inr ⟨_, rfl, cur, hlow, hlt, hlost, htaken⟩
    | some (some q), hfound =>
        obtain ⟨hK, hq, hcq, hslot, hfree, hleast⟩ := hfound
        refine Or.inr ⟨_, rfl, Or.inr ⟨hK, hq, by omega, by omega, hfree, fun v hv hsv hvq => ?_⟩⟩
        by_cases hvc : v < cur
        · exact htaken v hv hsv hvc
        · exact hleast v hv (by omega) hvq
    | some none, hrest =>
        obtain ⟨hJ, hall⟩ := hrest
        exact Or.inl ⟨_, rfl, hI.next h0 hJ hall, h0, top_nextBlock hlt⟩

/-- **The search**, from what is known of one block. -/
theorem findFreeVirtPage_answer
    (hblock : ∀ u page, J u → kernelStart ≤ page → page < 0x100000000 → page % 4096 = 0 →
      BlockOutcome J K Taken Lost page (scanBlock page u)) (h : J vm) :
    SearchOutcome J K Taken Lost (findFreeVirtPage vm) := by
  have hstart : pageMask kernelStart = 0xc0100000 := by decide
  have htop : top (pageMask kernelStart) = 0xc0100000 := by decide
  have hks : kernelStart = 0xc0100000 := rfl
  have hrun : ∃ r, FuelLoop.run searchStep 1025 (pageMask kernelStart, vm) = some r ∧
      SearchOutcome J K Taken Lost r := by
    refine FuelLoop.run_passes (SearchInv J Taken) _ (fun x => 1024 - top x.1 / 4194304)
      (fun x hI => ?_) ?_ ?_
    · rcases searchStep_spec hblock hI with h1 | h1
      · obtain ⟨x', hx', hI', h0, hnext⟩ := h1
        have hcur := top_of_pos h0
        have hlt := hI.lt
        exact Or.inl ⟨x', hx', hI', by omega⟩
      · exact Or.inr h1
    · refine ⟨h, by dsimp only; omega, by dsimp only; omega, ?_, fun v _ hsv hvlt => ?_⟩
      · show kernelStart ≤ top (pageMask kernelStart)
        omega
      · have hvlt : v < top (pageMask kernelStart) := hvlt
        omega
    · show 1024 - top (pageMask kernelStart) / 4194304 < 1025
      omega
  obtain ⟨r, hr, hout⟩ := hrun
  unfold findFreeVirtPage
  rw [hr]
  exact hout

end Loops

end OsPlayground.VirtMem
