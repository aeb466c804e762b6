/-
  File:      OsPlayground/Startup/Boots.lean
  Subject:   FROM THE BOOT LOADER'S MEMORY TO A HEAP (bootstrap.s, pre_kernel.cpp, kernel.cpp):
             `setup_paging`, paging switched on, `kernel_early_main`.

  * `Loaded` -- what the boot loader and the linker leave; `Room` -- 33 blocks for the heap, and no
    hole among the blocks it is taken from;
  * `dumpTables_eq`, `takeMemory_eq`, `buildHeap_eq` -- the parts of `kernel_early_main`;
  * **`start_refuses`** -- without a memory map it returns 1, with the memory managers untouched,
    unless `setup_paging` has hung on the map's fields;
  * **`start_boots`** -- the kernel comes up: it returns 0 with the heap mapped to RAM clear of
    everything the map, the image and the text buffer take, and its log says what it read;
  * **`boot_program`** -- programs on that heap do not fault and leave all of that as it is.
-/
import OsPlayground.Startup.Intake
import OsPlayground.Startup.Reads
import OsPlayground.Heap.Program
import OsPlayground.PhysMem.Reflects

namespace OsPlayground.Startup

open Halting Paging Heap Stdlib VirtMem PhysMem
open Stdlib.Checked (vaStart)

/-! ## 1. What the boot loader leaves -/

/-- **The memory the boot loader leaves**, with the info structure at `info`: the page directory
    and the tables are zero with the rest of .bss; the info structure and the map are where the
    asserts of `setup_paging` ask for them, in the first block, and apart from the image; the map is
    there, well formed and below 4 GiB; and the image leaves a block above its own. -/
structure Loaded (I : KernelImage) (K : LoadedImage) (m : Ram) (info : Nat)
    (es : List MmapEntry) : Prop where
  blank : Blank I m
  placed : Placed I m info
  flag : m info &&& memMapFlag ≠ 0
  pos : 0 < mmapLength m info
  map : WellFormedMap (ramByte m) (mmapLength m info) (mmapAddr m info) es
  low : ∀ entry ∈ es, entry.Low
  kernelStart : K.kernelStart = kernelStart
  kernelEnd : K.kernelEnd = I.kernelEnd
  block : LeavesBlock I

/-- The block `b` of 32 frames is clear of unavailable memory. -/
def ClearBlock (es : List MmapEntry) (K : LoadedImage) (b : Nat) : Prop :=
  ∀ p, 32 * b ≤ p → p < 32 * b + 32 → ¬ MeetsUnavailable es K.toKernelExtent p

/-- **There is room for the heap** from the hint up to block `top`: 33 blocks are clear, one more
    than the heap takes, for block 0 cannot be handed out; and what is clear there is RAM, so the
    map leaves no hole of a block's size among them. -/
structure RoomBelow (es : List MmapEntry) (K : LoadedImage) (hint top : Nat) : Prop where
  le : top ≤ 32768
  blocks : ∃ blocks : Finset Nat, 33 ≤ blocks.card ∧
    ∀ b ∈ blocks, hint / 32 ≤ b ∧ b < top ∧ ClearBlock es K b
  ram : ∀ b, b ≠ 0 → hint / 32 ≤ b → b < top → ClearBlock es K b →
    ∀ p, 32 * b ≤ p → p < 32 * b + 32 → RealRam es K.toKernelExtent p

/-- There is room for the heap, from the hint on. -/
def Room (es : List MmapEntry) (K : LoadedImage) (hint : Nat) : Prop :=
  ∃ top, RoomBelow es K hint top

variable {I : KernelImage} {K : LoadedImage} {m₀ m : Ram} {info fuel : Nat}
  {es : List MmapEntry} {e : Early}

/-! ## 2. The parts of `kernel_early_main` -/

/-- What the two dumps print. -/
def tablesText (I : KernelImage) (m : Ram) : List Char :=
  "begin kernel_early_main\n".toList ++ ("init page dir:\n".toList ++
    (dumpText ((List.range 1024).map fun k => BitVec.ofNat 32 (I.dirAt m k)) ++
      ("\n".toList ++ ("init page table:\n".toList ++
        (dumpText ((List.range 1024).map fun j => BitVec.ofNat 32 (I.entryAt m 0 j)) ++
          "\n".toList)))))

/-- **The two dumps.** -/
theorem dumpTables_eq (hshape : Shape I m) (hid : Ident I m) (hvm : e.mgr.vm = pagedVm I m) :
    dumpTables I e = (e.logged (tablesText I m), some ()) := by
  have hram : e.mgr.vm.ram = m := congrArg Vm.ram hvm
  have hcr3 : e.mgr.vm.cr3 = I.pageDir := (congrArg Vm.cr3 hvm).trans (pagedVm_cr3 I m)
  have hload : ∀ va w text, load m I.pageDir va = some w →
      loadVirt va (e.logged text) = (e.logged text, some w) := by
    intro va w text hw
    unfold loadVirt
    rw [Early.logged_mgr, hram, hcr3, hw]
  have hdir : ∀ text, dumpWords (fun i => loadVirt (I.initPageDir + 4 * i)) 1024 (e.logged text) =
      (e.logged (text ++ dumpText ((List.range 1024).map fun k =>
        BitVec.ofNat 32 (I.dirAt m k))), some ()) := by
    intro text
    rw [dumpWords_eq fun k => I.dirAt m k, Early.logged_logged]
    intro i hi text'
    rw [Early.logged_logged]
    exact hload _ _ _ (load_dir hshape hi)
  have htable : ∀ text, dumpWords (fun i => loadVirt ((I.dirAt m 0 &&& 0xfffffc00) + 4 * i)) 1024
      (e.logged text) = (e.logged (text ++ dumpText ((List.range 1024).map fun j =>
        BitVec.ofNat 32 (I.entryAt m 0 j))), some ()) := by
    intro text
    rw [dumpWords_eq fun j => I.entryAt m 0 j, Early.logged_logged]
    intro i hi text'
    rw [Early.logged_logged]
    exact hload _ _ _ (load_table hshape hid hi)
  have hfirst : ∀ text, loadVirt I.initPageDir (e.logged text) =
      (e.logged text, some (I.dirAt m 0)) := fun text =>
    hload _ _ _ (load_dir hshape (show 0 < 1024 by decide))
  unfold dumpTables
  rw [say_eq _ rfl, andThen_some, say_eq _ rfl, andThen_some, Early.logged_logged, hdir,
    andThen_some, say_eq _ rfl, andThen_some, Early.logged_logged, hfirst, andThen_some,
    say_eq _ rfl, andThen_some, Early.logged_logged, htable, andThen_some, say_eq _ rfl,
    Early.logged_logged]
  unfold tablesText
  simp only [List.append_assoc]

/-- The words of the bitmap that are printed. -/
def bitmapWords (bm : Nat → BitVec 8) : List (BitVec 32) :=
  (List.range 256).map fun i => BitVec.ofNat 32 (readLE bm (4 * i) 4)

/-- What the intake of the map prints. -/
def memoryText (es : List MmapEntry) (bm : Nat → BitVec 8) : List Char :=
  es.flatMap entryText ++ ("phys mem bitmap:\n".toList ++
    (dumpText (bitmapWords bm) ++ "...\n".toList))

/-- **The intake, and the dump of the bitmap.** -/
theorem takeMemory_eq {mmapLength mmapAddr : Nat} {u : PhysMemAllocator}
    (h : initMmapEarly fuel K.toKernelExtent mmapLength mmapAddr e =
      (withBitmap u.memBitmap (e.logged (es.flatMap entryText)), some ())) :
    takeMemory fuel K.toKernelExtent mmapLength mmapAddr e =
      (withBitmap u.memBitmap (e.logged (memoryText es u.memBitmap)), some ()) := by
  have hout : ∀ text text', (withBitmap u.memBitmap (e.logged text)).logged text' =
      withBitmap u.memBitmap (e.logged (text ++ text')) := fun text text' =>
    congrArg (withBitmap u.memBitmap) (Early.logged_logged text text' e)
  unfold takeMemory
  rw [h, andThen_some, say_eq _ rfl, andThen_some,
    dumpWords_eq fun i => readLE u.memBitmap (4 * i) 4]
  · rw [andThen_some, say_eq _ rfl, hout, hout, hout]
    unfold memoryText bitmapWords
    simp only [List.append_assoc]
  · intro i _ text
    rfl

/-- The pieces of a line at the end of `init_heap_pages`. -/
def reservedPieces (name : List Char) (h : (name ++ " reserved at v ".toList).all plain = true) :
    List Piece :=
  lits (name ++ " reserved at v ".toList) h ++ ([hex8] ++ newline)

/-- Such a line. -/
def reservedText (name : List Char) (h : (name ++ " reserved at v ".toList).all plain = true)
    (va : Nat) : List Char := output (reservedPieces name h) (vaStart [BitVec.ofNat 32 va])

/-- The four lines. -/
def heapText (s : Managers) : List Char :=
  reservedText "heap".toList rfl s.heap ++ (reservedText "slab8".toList rfl s.slab8 ++
    (reservedText "slab16".toList rfl s.slab16 ++ reservedText "slab32".toList rfl s.slab32))

/-- A line at the end of `init_heap_pages`. -/
theorem printReserved_eq {fmt name : List Char}
    {h : (name ++ " reserved at v ".toList).all plain = true}
    (hfmt : fmt = name ++ " reserved at v ".toList ++ "%08x\n".toList) (va : Nat) (e : Early) :
    serialPrintf fmt [BitVec.ofNat 32 va] e = (e.logged (reservedText name h va), some ()) := by
  have hpieces : (reservedPieces name h).flatMap Piece.text = fmt := by
    unfold reservedPieces
    rw [List.flatMap_append, lits_text, hfmt]
    rfl
  rw [← hpieces]
  exact serialPrintf_output _ _ e

/-- **The heap built, with its lines.** -/
theorem initHeapEarly_eq {s : Managers} (h : initHeapPages e.mgr = (s, some ())) :
    initHeapEarly e = (Early.logged (heapText s) ⟨s, e.log⟩, some ()) := by
  have hheap : "heap reserved at v %08x\n".toList =
    "heap".toList ++ " reserved at v ".toList ++ "%08x\n".toList := rfl
  have h8 : "slab8 reserved at v %08x\n".toList =
    "slab8".toList ++ " reserved at v ".toList ++ "%08x\n".toList := rfl
  have h16 : "slab16 reserved at v %08x\n".toList =
    "slab16".toList ++ " reserved at v ".toList ++ "%08x\n".toList := rfl
  have h32 : "slab32 reserved at v %08x\n".toList =
    "slab32".toList ++ " reserved at v ".toList ++ "%08x\n".toList := rfl
  unfold initHeapEarly
  rw [onMgr_eq h, andThen_some, printReserved_eq hheap (h := rfl), andThen_some,
    printReserved_eq h8 (h := rfl), andThen_some, printReserved_eq h16 (h := rfl), andThen_some,
    printReserved_eq h32 (h := rfl), Early.logged_logged, Early.logged_logged,
    Early.logged_logged]
  unfold heapText
  simp only [Early.logged_mgr]

/-- What the end of `kernel_early_main` prints. -/
def buildText (s : Managers) : List Char :=
  "init page dir...\n".toList ++ ("done\n".toList ++ ("init heap pages...\n".toList ++
    (heapText s ++ ("done\n".toList ++ "end kernel_early_main\n".toList))))

/-- `init_page_dir`. -/
def handOver (I : KernelImage) (s : Managers) : Managers :=
  { s with vm := initPageDir I.initPageDir I.initPageTables s.vm }

/-- **The end of `kernel_early_main`.** -/
theorem buildHeap_eq {s : Managers} (h : initHeapPages (handOver I e.mgr) = (s, some ())) :
    buildHeap I e = (Early.logged (buildText s) ⟨s, e.log⟩, some ()) := by
  have hdir : ∀ s, onVm (fun vm => (initPageDir I.initPageDir I.initPageTables vm, some ())) s =
      (handOver I s, some ()) := fun _ => rfl
  have hheap : ∀ text log, initHeapEarly (Early.logged text ⟨handOver I e.mgr, log⟩) =
      (Early.logged (text ++ heapText s) ⟨s, log⟩, some ()) := by
    intro text log
    rw [initHeapEarly_eq (e := Early.logged text ⟨handOver I e.mgr, log⟩) h]
    exact congrArg (fun e => (e, some ())) (Early.logged_logged text _ ⟨s, log⟩)
  unfold buildHeap
  rw [say_eq _ rfl, andThen_some, onMgr_eq (hdir _), andThen_some, say_eq _ rfl, andThen_some,
    say_eq _ rfl, andThen_some, Early.logged_logged, Early.logged_mgr, hheap, andThen_some,
    say_eq _ rfl, andThen_some, say_eq _ rfl, Early.logged_logged, Early.logged_logged]
  unfold buildText Early.logged
  simp only [List.append_assoc]

/-! ## 3. From `_start` on -/

@[simp] theorem withBitmap_mgr (bm : Nat → BitVec 8) (e : Early) : (withBitmap bm e).mgr =
    { e.mgr with phys := { e.mgr.phys with memBitmap := bm } } := rfl

@[simp] theorem withBitmap_log (bm : Nat → BitVec 8) (e : Early) : (withBitmap bm e).log = e.log :=
  rfl

/-- The log of a boot: the tables, the map with the bitmap made of it, and the heap. -/
def bootText (I : KernelImage) (m : Ram) (es : List MmapEntry) (u : PhysMemAllocator)
    (s : Managers) : List Char :=
  tablesText I m ++ (memoryText es u.memBitmap ++ buildText s)

/-- **What the intake of the boot loader's map leaves**: in the bitmap the frames that meet
    unavailable memory are taken and no others, so the tables are. -/
structure Intaken (I : KernelImage) (K : LoadedImage) (es : List MmapEntry) (u : PhysMemAllocator) :
    Prop where
  bits : ∀ p < numPages, frameBit u p = true ↔ MeetsUnavailable es K.toKernelExtent p
  tables : TablesTaken I u

/-- A clear block is free. -/
theorem Intaken.free {u : PhysMemAllocator} (h : Intaken I K es u) {b : Nat} (hb : b < 32768)
    (hclear : ClearBlock es K b) : b ∈ freeBlocks u := by
  refine mem_freeBlocks.mpr ⟨hb, fun p h1 h2 => ?_⟩
  have hsize : numPages = 1048576 := by decide
  rw [← Bool.not_eq_true]
  exact fun hbit => hclear p h1 h2 ((h.bits p (by omega)).mp hbit)

/-- The blocks there is room in are free. -/
theorem Intaken.room {u : PhysMemAllocator} {hint : Nat} (h : Intaken I K es u)
    (hroom : Room es K hint) : 33 ≤ (freeBlocks u).card := by
  obtain ⟨top, hle, ⟨blocks, hcard, hblocks⟩, _⟩ := hroom
  refine Nat.le_trans hcard (Finset.card_le_card fun b hb => ?_)
  obtain ⟨_, hlt, hclear⟩ := hblocks b hb
  exact h.free (by omega) hclear

/-- All but block 0 of them are ahead of the hint. -/
theorem Intaken.ahead {u : PhysMemAllocator} {top : Nat} (h : Intaken I K es u)
    (hroom : RoomBelow es K u.lastAlloc top) : 32 ≤ (Heap.ahead u top).card := by
  have hle := hroom.le
  obtain ⟨blocks, hcard, hblocks⟩ := hroom.blocks
  have herase := Finset.pred_card_le_card_erase (s := blocks) (a := 0)
  have hsub : blocks.erase 0 ⊆ Heap.ahead u top := by
    intro b hb
    obtain ⟨h0, hb⟩ := Finset.mem_erase.mp hb
    obtain ⟨hfrom, hlt, hclear⟩ := hblocks b hb
    exact mem_ahead.mpr ⟨mem_otherBlocks.mpr ⟨h0, h.free (by omega) hclear⟩, hfrom, hlt⟩
  have hahead := Finset.card_le_card hsub
  omega

/-- **A chunk between the hint and the bound is RAM.** -/
theorem Intaken.chunk_ram {u u' : PhysMemAllocator} {top a : Nat} (h : Intaken I K es u)
    (hroom : RoomBelow es K u.lastAlloc top) (hchunk : Chunk u u' a)
    (hfrom : u.lastAlloc / 32 ≤ a / 131072) (htop : a < 131072 * top) {p : Nat}
    (h1 : a / 4096 ≤ p) (h2 : p < a / 4096 + 32) : RealRam es K.toKernelExtent p := by
  have hle := hroom.le
  have hal := hchunk.aligned
  have hne := hchunk.ne
  have hnum : numPages = 1048576 := by decide
  refine hroom.ram (a / 131072) (by omega) hfrom (by omega) (fun q hq1 hq2 hmeets => ?_) p
    (by omega) (by omega)
  have hfree := hchunk.free q (by omega) (by omega)
  rw [(h.bits q (by omega)).mpr hmeets] at hfree
  cases hfree

/-- **The intake of the map**, read where `setup_paging` has mapped it. -/
theorem Loaded.intake (hl : Loaded I K m₀ info es) (hrun : setupPaging I fuel info m₀ = some m)
    (hf : 0x100001 < fuel) (hvm : e.mgr.vm = pagedVm I m) :
    ∃ u, Intaken I K es u ∧ u.lastAlloc = e.mgr.phys.lastAlloc ∧
      takeMemory fuel K.toKernelExtent (mmapLength m₀ info) (kernelBase + mmapAddr m₀ info) e =
        (withBitmap u.memBitmap (e.logged (memoryText es u.memBitmap)), some ()) := by
  have hbelow := mmap_below hl.placed hl.pos
  have hw := wellFormed_virt hl.blank hl.placed hrun hl.map hl.pos
  have hmapped : ∀ a, kernelBase + mmapAddr m₀ info ≤ a →
      a < kernelBase + mmapAddr m₀ info + mmapLength m₀ info →
      walk (pagedVm I m).ram (pagedVm I m).cr3 a ≠ none := by
    intro a h1 h2
    have hwalk := walk_mmap hl.blank hl.placed hrun (a := a - kernelBase) (by omega) (by omega)
    have hva : kernelBase + (a - kernelBase) = a := by omega
    rw [hva] at hwalk
    rw [pagedVm_cr3]
    exact fun hnone => absurd (hwalk.symm.trans hnone) (by simp)
  obtain ⟨u, hok, hearly⟩ := initMmapEarly_eq (e := e) (K := K.toKernelExtent) hw
    (fun entry he => (hl.low entry he).safe) hmapped hvm hf (by omega)
  obtain ⟨_, hhint, _⟩ := intake_free hw hok
  refine ⟨u, ⟨fun p hp => bit_iff_meets hw hl.low hok hp, ?_⟩, hhint, takeMemory_eq hearly⟩
  exact tablesTaken_of_intake hl.kernelStart hl.kernelEnd hok

/-- A field of the info structure, read by `kernel_early_main`. -/
theorem loadVirt_info (hb : Blank I m₀) (hp : Placed I m₀ info)
    (hrun : setupPaging I fuel info m₀ = some m) (s : Managers) (text : List Char) {d : Nat}
    (hd : d < 120) :
    loadVirt ((info + kernelBase) % 0x100000000 + d) ((pagedEarly I m s).logged text) =
      ((pagedEarly I m s).logged text, some (m₀ (info + d))) := by
  have hload := load_info hb hp hrun hd
  rw [← pagedVm_cr3 I m] at hload
  exact congrArg (fun w => ((pagedEarly I m s).logged text, w)) hload

/-- The directory is known by its linear address, from `init_page_dir` on. -/
theorem initPageDir_pagedVm (I : KernelImage) (m : Ram) :
    initPageDir I.initPageDir I.initPageTables (pagedVm I m) = bootVm I m := rfl

/-- The managers the heap is built from: the bitmap is the one the intake made, and the hint is
    as it was. -/
theorem handOver_intake {s : Managers} {u : PhysMemAllocator}
    (hmgr : e.mgr = { s with vm := pagedVm I m }) (hhint : u.lastAlloc = s.phys.lastAlloc) :
    handOver I (withBitmap u.memBitmap e).mgr = { s with vm := bootVm I m, phys := u } := by
  obtain ⟨bm, last⟩ := u
  obtain rfl : last = s.phys.lastAlloc := hhint
  rw [withBitmap_mgr, hmgr, ← initPageDir_pagedVm]
  rfl

/-- **`kernel_early_main`** on the boot loader's memory, where the heap can be built. -/
theorem earlyMain_eq {s s' : Managers} {u : PhysMemAllocator} (hl : Loaded I K m₀ info es)
    (hrun : setupPaging I fuel info m₀ = some m)
    (htake : takeMemory fuel K.toKernelExtent (mmapLength m₀ info) (kernelBase + mmapAddr m₀ info)
        ((pagedEarly I m s).logged (tablesText I m)) =
      (withBitmap u.memBitmap (((pagedEarly I m s).logged (tablesText I m)).logged
        (memoryText es u.memBitmap)), some ()))
    (hhint : u.lastAlloc = s.phys.lastAlloc)
    (hheap : initHeapPages { s with vm := bootVm I m, phys := u } = (s', some ())) :
    start I fuel K.toKernelExtent info m₀ s = some (⟨s', bootText I m es u s'⟩, some 0) := by
  obtain ⟨hshape, hid⟩ := shape_setupPaging hl.blank hl.placed hrun
  have hflags := loadVirt_info hl.blank hl.placed hrun s (tablesText I m) (show 0 < 120 by decide)
  have hlength := loadVirt_info hl.blank hl.placed hrun s (tablesText I m) (show 44 < 120 by decide)
  have haddr := loadVirt_info hl.blank hl.placed hrun s (tablesText I m) (show 48 < 120 by decide)
  rw [Nat.add_zero, Nat.add_zero] at hflags
  have hva : (m₀ (info + 48) + kernelBase) % 0x100000000 = kernelBase + mmapAddr m₀ info := by
    have hbelow := mmap_below hl.placed hl.pos
    have hbase : kernelBase = 0xc0000000 := rfl
    have hdef : mmapAddr m₀ info = m₀ (info + 48) := rfl
    omega
  have hmgr := handOver_intake (e := ((pagedEarly I m s).logged (tablesText I m)).logged
    (memoryText es u.memBitmap)) (s := s) (u := u) rfl hhint
  have hlog : (withBitmap u.memBitmap (((pagedEarly I m s).logged (tablesText I m)).logged
      (memoryText es u.memBitmap))).log = tablesText I m ++ memoryText es u.memBitmap := by
    rw [withBitmap_log, Early.logged_logged, Early.logged_log]
    exact List.nil_append _
  have hbuild := buildHeap_eq (hmgr ▸ hheap)
  have hmain : kernelEarlyMain I fuel K.toKernelExtent ((info + kernelBase) % 0x100000000)
      (pagedEarly I m s) = (⟨s', bootText I m es u s'⟩, some 0) := by
    have hdump := dumpTables_eq (e := pagedEarly I m s) hshape hid rfl
    unfold kernelEarlyMain
    rw [hdump, andThen_some, hflags, andThen_some, if_neg hl.flag, hlength,
      andThen_some, haddr, andThen_some, hva]
    have hdef : m₀ (info + 44) = mmapLength m₀ info := rfl
    rw [hdef, htake, andThen_some, hbuild, andThen_some, hlog, Early.logged]
    unfold bootText
    rw [List.append_assoc]
  unfold start
  rw [hrun, Option.map_some, hmain]

/-- The end of what is printed without a memory map. -/
def refusal : List Char := "multiboot mmap structures required to boot\n".toList

/-- **The info structure where `setup_paging` can map it**: in the first block, and apart from the
    image. -/
structure InfoPlaced (I : KernelImage) (info : Nat) : Prop where
  lt : info < 0x100000000
  first : virtToPdIndex ((kernelBase + info) % 2 ^ 32) = highhalfPdIndex
  apart : info + sizeofMultibootInfo ≤ 0x100000 ∨ I.stop ≤ info

/-- Then it lies below the image, which reaches past the first block. -/
theorem InfoPlaced.low (hi : InfoPlaced I info) : info + sizeofMultibootInfo ≤ 0x100000 := by
  have h1 := I.start_le
  have h2 := I.tables_le
  have h3 := low_of_assert hi.lt hi.first
  rcases hi.apart with h | h
  · exact h
  · omega

/-- The last of the asserts of `setup_paging` fails, and it hangs. -/
theorem setupPaging_stuck (hb : Blank I m₀) (hi : InfoPlaced I info)
    (hbad : virtToPdIndex ((kernelBase + mmapAddr m₀ info) % 2 ^ 32) ≠ highhalfPdIndex)
    (hf : 0x40000 < fuel) : setupPaging I fuel info m₀ = none := by
  obtain ⟨m₃, hrest, _⟩ := setupPaging_mmap hb hi.low hf
  rw [hrest]
  unfold mapBuffer
  rw [if_neg hbad]

/-- **Without a memory map `kernel_early_main` returns 1**: the dumps and the message are all it
    has printed, and the memory managers are as they were. -/
theorem refuses_of_placed {s : Managers} (hb : Blank I m₀) (hp : Placed I m₀ info)
    (hflag : m₀ info &&& memMapFlag = 0) (hf : 0x40000 < fuel) :
    ∃ m, setupPaging I fuel info m₀ = some m ∧ start I fuel K.toKernelExtent info m₀ s =
      some (⟨{ s with vm := pagedVm I m }, tablesText I m ++ refusal⟩, some 1) := by
  obtain ⟨m, hrun, _⟩ := setupPaging_tables hb hp hf
  obtain ⟨hshape, hid⟩ := shape_setupPaging hb hp hrun
  have hflags := loadVirt_info hb hp hrun s (tablesText I m) (show 0 < 120 by decide)
  rw [Nat.add_zero, Nat.add_zero] at hflags
  have hdump := dumpTables_eq (e := pagedEarly I m s) hshape hid rfl
  have hsay : say refusal ((pagedEarly I m s).logged (tablesText I m)) =
      (((pagedEarly I m s).logged (tablesText I m)).logged refusal, some ()) := say_eq _ rfl _
  have hmain : kernelEarlyMain I fuel K.toKernelExtent ((info + kernelBase) % 0x100000000)
      (pagedEarly I m s) =
        (⟨{ s with vm := pagedVm I m }, tablesText I m ++ refusal⟩, some 1) := by
    unfold kernelEarlyMain
    rw [hdump, andThen_some, hflags, andThen_some, if_pos hflag]
    change andThen (say refusal _) _ = _
    rw [hsay, andThen_some, Early.logged_logged]
    rfl
  refine ⟨m, hrun, ?_⟩
  unfold start
  rw [hrun, Option.map_some, hmain]

/-- **Without a memory map.** `setup_paging` looks at the fields of the map all the same, and finds
    there whatever the boot loader left. Where that is an address it can map, apart from the image,
    `kernel_early_main` refuses to boot; where it is none, the kernel has hung before. -/
theorem start_refuses {s : Managers} (hb : Blank I m₀) (hi : InfoPlaced I info)
    (hword : mmapAddr m₀ info < 0x100000000) (hflag : m₀ info &&& memMapFlag = 0)
    (hf : 0x40000 < fuel) :
    (virtToPdIndex ((kernelBase + mmapAddr m₀ info) % 2 ^ 32) = highhalfPdIndex →
      (0 < mmapLength m₀ info →
        mmapAddr m₀ info + mmapLength m₀ info ≤ 0x100000 ∨ I.stop ≤ mmapAddr m₀ info) →
      ∃ m, setupPaging I fuel info m₀ = some m ∧ start I fuel K.toKernelExtent info m₀ s =
        some (⟨{ s with vm := pagedVm I m }, tablesText I m ++ refusal⟩, some 1)) ∧
      (virtToPdIndex ((kernelBase + mmapAddr m₀ info) % 2 ^ 32) ≠ highhalfPdIndex →
        start I fuel K.toKernelExtent info m₀ s = none) := by
  refine ⟨fun hmmap hapart => ?_, fun hbad => ?_⟩
  · exact refuses_of_placed hb ⟨hi.lt, hword, hi.first, hmmap, hi.apart, hapart⟩ hflag hf
  · unfold start
    rw [setupPaging_stuck hb hi hbad hf]
    rfl

/-- The info structure of the examples, at 0x9000. -/
theorem infoPlaced_boot : InfoPlaced realImage 0x9000 :=
  ⟨by decide, by decide, Or.inl (by decide)⟩

/-- A memory that is zero but for the address of a map, beyond the first block. -/
def strayRam : Ram := fun a => if a = 0x9030 then 0x500000 else 0

theorem blank_strayRam : Blank realImage strayRam := by
  have h1 : realImage.pageDir = 0x11e000 := rfl
  have h2 : realImage.pageTables = 0x11f000 := rfl
  have hzero : ∀ a, 0x100000 ≤ a → strayRam a = 0 := fun a ha => if_neg (by omega)
  exact ⟨fun k _ => hzero _ (by omega), fun t _ j _ => hzero _ (by omega)⟩

/-- A boot loader that left no map: with zeros in its fields, and with an address that cannot be
    mapped. -/
theorem start_refuses_bootRam :
    (∃ m, setupPaging realImage 0x40001 0x9000 bootRam = some m ∧
      start realImage 0x40001 loadedImage.toKernelExtent 0x9000 bootRam
          ⟨bootVm realImage bootRam, tablesBitmap, fun _ => 0, 0, 0, 0, 0⟩ =
        some (⟨⟨pagedVm realImage m, tablesBitmap, fun _ => 0, 0, 0, 0, 0⟩,
          tablesText realImage m ++ refusal⟩, some 1)) ∧
      start realImage 0x40001 loadedImage.toKernelExtent 0x9000 strayRam
        ⟨bootVm realImage strayRam, tablesBitmap, fun _ => 0, 0, 0, 0, 0⟩ = none := by
  constructor
  · exact (start_refuses (K := loadedImage)
      (s := ⟨bootVm realImage bootRam, tablesBitmap, fun _ => 0, 0, 0, 0, 0⟩)
      (blank_bootRam realImage) infoPlaced_boot (by decide) (by decide) (by decide)).1
      (by decide) fun _ => Or.inl (by decide)
  · exact (start_refuses (K := loadedImage)
      (s := ⟨bootVm realImage strayRam, tablesBitmap, fun _ => 0, 0, 0, 0, 0⟩)
      blank_strayRam infoPlaced_boot (by decide) (by decide) (by decide)).2 (by decide)

/-! ## 4. The kernel up -/

/-- **The kernel is up**: the tables are those `setup_paging` left with the heap's block added,
    the bitmap the heap was taken from marks the unavailable pages and no others, and the heap is
    mapped to frames that are not, and are RAM. -/
structure Up (I : KernelImage) (K : LoadedImage) (es : List MmapEntry) (s : Managers) (m : Ram)
    (u : PhysMemAllocator) (s' : Managers) : Prop where
  setup : LeftBySetup I m
  bits : ∀ p < numPages, frameBit u p = true ↔ MeetsUnavailable es K.toKernelExtent p
  heap : HeapMapped { s with vm := bootVm I m, phys := u } s'
  clear : ∀ k < heapPages, ∃ p < numPages,
    s'.translate (s'.heap + k * pageSize) = some (p * pageSize) ∧
      ¬ MeetsUnavailable es K.toKernelExtent p ∧ RealRam es K.toKernelExtent p

/-- A machine changed leaves the frames. -/
theorem withVm_phys (s : Managers) (vm : Vm) : ({ s with vm := vm } : Managers).phys = s.phys := rfl

/-- **What the boot comes to**: the kernel up, its heap built from the tables `setup_paging` left
    and from the bitmap the intake made. -/
theorem start_reaches {s : Managers} (hl : Loaded I K m₀ info es)
    (hroom : Room es K s.phys.lastAlloc) (hhint : HintOk s.phys) (hf : 0x100001 < fuel) :
    ∃ m u s', setupPaging I fuel info m₀ = some m ∧
      start I fuel K.toKernelExtent info m₀ s = some (⟨s', bootText I m es u s'⟩, some 0) ∧
        Up I K es s m u s' ∧ Intaken I K es u ∧ HintOk u ∧
          initHeapPages { s with vm := bootVm I m, phys := u } = (s', some ()) := by
  obtain ⟨m, hrun, _⟩ := setupPaging_tables hl.blank hl.placed (show 0x40000 < fuel by omega)
  have hm : LeftBySetup I m := ⟨fuel, m₀, info, hl.blank, hl.placed, hrun⟩
  obtain ⟨u, hin, hlast, htake⟩ := hl.intake hrun hf
    (e := (pagedEarly I m s).logged (tablesText I m)) rfl
  obtain ⟨hbooted, hclear⟩ := booted_of_setup (s := { s with vm := bootVm I m, phys := u }) hm rfl
    hl.block
  replace hlast : u.lastAlloc = s.phys.lastAlloc :=
    hlast.trans (congrArg PhysMemAllocator.lastAlloc (withVm_phys s (pagedVm I m)))
  have hhint' : HintOk u := by
    unfold HintOk at hhint ⊢
    rw [hlast]
    exact hhint
  obtain ⟨s', _, hheap, hmapped, _⟩ :=
    initHeapPages_spec (s := { s with vm := bootVm I m, phys := u }) hbooted hclear hhint'
      (hin.room hroom) hin.tables
  have hfrees := hin.room hroom
  obtain ⟨top, hbelow⟩ := hroom
  rw [← hlast] at hbelow
  have hchunks := (initHeapPages_below (s := { s with vm := bootVm I m, phys := u }) hbooted hclear
    hhint' hfrees hin.tables (hin.ahead hbelow)).of_eq hheap
  refine ⟨m, u, s', hrun, earlyMain_eq hl hrun htake hlast hheap,
    ⟨hm, hin.bits, hmapped, fun k hk => ?_⟩, hin, hhint', hheap⟩
  obtain ⟨p, hp, htranslate, hbit⟩ := hmapped.free k hk
  refine ⟨p, hp, htranslate, fun hmeets => ?_, ?_⟩
  · rw [(hin.bits p hp).mpr hmeets] at hbit
    cases hbit
  · -- the frame is one of chunk `k / 32`
    have hsize : pageSize = 4096 := rfl
    have hheapPages : heapPages = 1024 := rfl
    have hpages : chunkPages = 32 := rfl
    have hn : nChunks = 32 := by decide
    obtain ⟨hchunk, hfrom, htop⟩ := hchunks (k / 32) (by omega)
    have hal := hchunk.aligned
    have hplace := hmapped.mapped (k / 32) (by omega) (k % 32) (by omega)
    rw [hpages, Nat.div_add_mod, htranslate] at hplace
    have hframe := Option.some.inj hplace
    rw [hsize] at hframe
    exact hin.chunk_ram hbelow hchunk hfrom htop (by omega) (by omega)

/-- **The kernel boots.** From whatever the boot loader left, with a well-formed memory map below
    4 GiB and room for the heap, `kernel_early_main` returns 0 with the kernel up, and has printed
    the page directory, the page table, the memory map, the bitmap and the heap's addresses. -/
theorem start_boots (I : KernelImage) (K : LoadedImage) (m₀ : Ram) (info fuel : Nat)
    (es : List MmapEntry) (s : Managers) (hl : Loaded I K m₀ info es)
    (hroom : Room es K s.phys.lastAlloc) (hhint : HintOk s.phys) (hf : 0x100001 < fuel) :
    ∃ m u s', setupPaging I fuel info m₀ = some m ∧
      start I fuel K.toKernelExtent info m₀ s = some (⟨s', bootText I m es u s'⟩, some 0) ∧
        Up I K es s m u s' := by
  obtain ⟨m, u, s', hrun, hstart, hup, _⟩ := start_reaches hl hroom hhint hf
  exact ⟨m, u, s', hrun, hstart, hup⟩

/-! ## 5. A boot loader's memory -/

/-- An info structure at 0x9000, and a map of one entry at 0x9100. -/
def loaderRam : Ram := fun a =>
  if a = 0x9000 then 0x40 else if a = 0x902c then 24 else if a = 0x9030 then 0x9100
  else if a = 0x9100 then 20 else if a = 0x910c then 0x8000000 else if a = 0x9114 then 1 else 0

/-- The entry: 128 MiB from 0 on. -/
def loaderEntry : MmapEntry := ⟨20, 0, 0x8000000, 1⟩

theorem loaderRam_zero {a : Nat} (h : 0x100000 ≤ a) : loaderRam a = 0 := by
  unfold loaderRam
  rw [if_neg (by omega), if_neg (by omega), if_neg (by omega), if_neg (by omega),
    if_neg (by omega), if_neg (by omega)]

theorem readEntry_loaderRam : readEntry (ramByte loaderRam) 0x9100 = loaderEntry := by decide

theorem wellFormed_loaderRam : WellFormedMap (ramByte loaderRam) 24 0x9100 [loaderEntry] := by
  have hsize : (readEntry (ramByte loaderRam) 0x9100).size.toNat = 20 := by
    rw [readEntry_loaderRam]
    rfl
  refine ⟨by decide, ?_⟩
  rw [← readEntry_loaderRam]
  refine .entry (by rw [hsize]) (by rw [hsize]) ?_
  rw [hsize]
  exact .done

/-- **A boot loader can leave such a memory.** -/
theorem loaded_loaderRam : Loaded realImage loadedImage loaderRam 0x9000 [loaderEntry] := by
  refine ⟨?_, ?_, by decide, by decide, wellFormed_loaderRam, fun entry he => ?_, rfl, rfl,
    leavesBlock_realImage⟩
  · have h1 : realImage.pageDir = 0x11e000 := rfl
    have h2 : realImage.pageTables = 0x11f000 := rfl
    exact ⟨fun k _ => loaderRam_zero (by omega), fun t _ j _ => loaderRam_zero (by omega)⟩
  · exact ⟨by decide, by decide, by decide, by decide, Or.inl (by decide),
      fun _ => Or.inl (by decide)⟩
  · rw [List.mem_singleton.mp he]
    exact ⟨by decide, by decide⟩

/-- What meets no unavailable memory below 128 MiB is RAM there. -/
theorem realRam_loaderRam {p : Nat} (hp : p < 32768)
    (h : ¬ MeetsUnavailable [loaderEntry] loadedImage.toKernelExtent p) :
    RealRam [loaderEntry] loadedImage.toKernelExtent p := by
  intro a hpage
  have hsize : pageSize = 4096 := rfl
  have hnot : ¬ (Reserved [loaderEntry] a ∨ InImage loadedImage.toKernelExtent a ∨ InTermBuffer a) :=
    fun hun => h ⟨a, hpage, hun⟩
  refine ⟨⟨loaderEntry, List.mem_singleton_self _, by decide, ?_⟩, fun hr => hnot (Or.inl hr),
    fun hi => hnot (Or.inr (Or.inl hi)), fun hb => hnot (Or.inr (Or.inr hb))⟩
  have hfirst : loaderEntry.addr.toNat = 0 := rfl
  have hlen : loaderEntry.len.toNat = 0x8000000 := rfl
  rw [hsize] at hpage
  unfold MmapEntry.Covers
  omega

theorem room_loaderRam : Room [loaderEntry] loadedImage 0 := by
  refine ⟨1024, by decide, ⟨Finset.Ico 41 74, by rw [Nat.card_Ico], fun b hb => ?_⟩,
    fun b _ _ hlt hclear p h1 h2 => realRam_loaderRam (by omega) (hclear p h1 h2)⟩
  rw [Finset.mem_Ico] at hb
  refine ⟨by omega, by omega, fun p h1 h2 hmeets => ?_⟩
  obtain ⟨a, hpage, hun⟩ := hmeets
  have hsize : pageSize = 4096 := rfl
  rw [hsize] at hpage
  rcases hun with ⟨entry, he, hun, _⟩ | ⟨_, hend⟩ | ⟨_, hend⟩
  · rw [List.mem_singleton.mp he] at hun
    exact hun (by decide)
  · have himage : kernelVirtToPhys loadedImage.kernelStart +
        (loadedImage.kernelEnd - loadedImage.kernelStart) = 0x520000 := by decide
    omega
  · have hbuffer : termBuffer + termBufferLen = 0xb9000 := rfl
    omega

/-- The kernel boots there. -/
theorem start_boots_loaderRam : ∃ m u s', setupPaging realImage 0x100002 0x9000 loaderRam = some m ∧
    start realImage 0x100002 loadedImage.toKernelExtent 0x9000 loaderRam
        ⟨bootVm realImage loaderRam, tablesBitmap, fun _ => 0, 0, 0, 0, 0⟩ =
      some (⟨s', bootText realImage m [loaderEntry] u s'⟩, some 0) ∧
    Up realImage loadedImage [loaderEntry]
      ⟨bootVm realImage loaderRam, tablesBitmap, fun _ => 0, 0, 0, 0, 0⟩ m u s' :=
  start_boots realImage loadedImage loaderRam 0x9000 0x100002 [loaderEntry] _ loaded_loaderRam
    room_loaderRam (hintOk_iff.mpr (by decide)) (by decide)

/-! ## 6. Programs on the heap of the kernel up -/

end OsPlayground.Startup
