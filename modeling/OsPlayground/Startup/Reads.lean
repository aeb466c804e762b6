/-
  File:      OsPlayground/Startup/Reads.lean
  Subject:   WHAT `kernel_early_main` READS, through the tables `setup_paging` left: the directory,
             the first table, and the boot loader's structures in the higher half.

  * `setupPaging_outside` -- `setup_paging` changes nothing but its tables;
  * `walk_touched` -- the pages of the boot structures are mapped where they are read;
  * `load_dir`, `load_table` -- the words of the two dumps;
  * `wellFormed_virt` -- the map read in the higher half is the boot loader's map.
-/
import OsPlayground.Startup.EarlyMain
import OsPlayground.PhysMem.RealRam
import OsPlayground.VirtMem.Stable

namespace OsPlayground.Startup

open Halting Paging Heap VirtMem PhysMem

variable {I : KernelImage} {m₀ m : Ram} {info fuel : Nat}

/-! ## 1. The memory after `setup_paging` -/

/-- **`setup_paging` writes its tables only.** -/
theorem setupPaging_outside (hb : Blank I m₀) (hp : Placed I m₀ info)
    (hrun : setupPaging I fuel info m₀ = some m) {a : Nat} (ha : I.Outside a) : m a = m₀ a := by
  obtain ⟨m₁, hrun₁, _, _, hrest⟩ := setupPaging_ends hb hp
    (show 0x40000 < fuel + 0x40001 by omega)
  rw [setupPaging_mono (Nat.le_add_right fuel 0x40001) hrun] at hrun₁
  obtain rfl := Option.some.inj hrun₁
  exact hrest a ha

/-- **A byte of a boot structure is mapped in the higher half.** -/
theorem walk_touched (hb : Blank I m₀) (hp : Placed I m₀ info)
    (hrun : setupPaging I fuel info m₀ = some m) {a : Nat}
    (h : Looping I m₀ info (a - a % 4096)) : walk m I.pageDir (kernelBase + a) = some a := by
  obtain ⟨hd, hfill⟩ := setupPaging_left hb hp hrun
  have hblock := h.block hp
  have hblocks := I.blocks_le
  have hbase : kernelBase = 768 * 4194304 := rfl
  have hslot : (kernelBase + (a - a % 4096)) / 4194304 = 768 + (a - a % 4096) / 4194304 := by omega
  have hpage := (hfill.walk (v := kernelBase + (a - a % 4096)) (by omega) (by omega) (by omega) (by
    rw [hslot, hd _ (by omega), if_neg (by omega), if_pos (by omega), Nat.add_sub_cancel_left])
    (by omega)).1 h
  have hbyte := walk_page (d := a % 4096) (by omega) (Nat.mod_lt a (by decide)) hpage
  have h1 : kernelBase + (a - a % 4096) + a % 4096 = kernelBase + a := by omega
  have h2 : a - a % 4096 + a % 4096 = a := by omega
  rw [h1, h2] at hbyte
  exact hbyte

/-! ## 2. The dumps -/

/-- Bits 10 and up of a word: `init_page_dir[0] & 0xfffffc00`. -/
theorem tableMask {x : Nat} (h : x < 0x100000000) : x &&& 0xfffffc00 = x - x % 1024 := by
  have hhigh : (x &&& 0xfffffc00) / 2 ^ 10 = x / 2 ^ 10 := by
    have hmask : 0xfffffc00 / 2 ^ 10 = 2 ^ 22 - 1 := by decide
    rw [Nat.and_div_two_pow, hmask, Nat.and_two_pow_sub_one_eq_mod]
    omega
  have hlow : (x &&& 0xfffffc00) % 2 ^ 10 = 0 := by
    have hmask : 0xfffffc00 % 2 ^ 10 = 0 := by decide
    rw [Nat.and_mod_two_pow, hmask, Nat.and_zero]
  omega

/-- The machine when paging is on. -/
theorem pagedVm_cr3 (I : KernelImage) (m : Ram) : (pagedVm I m).cr3 = I.pageDir :=
  I.phys_initPageDir

/-- **A word of the directory.** -/
theorem load_dir (hshape : Shape I m) {k : Nat} (hk : k < 1024) :
    load m I.pageDir (I.initPageDir + 4 * k) = some (I.dirAt m k) := by
  have hpage := hshape.walk_high I.page_pageDir
  have hal := I.aligned
  have hbase : kernelBase = 768 * 4194304 := rfl
  have hword := walk_page (d := 4 * k) (by omega) (by omega) hpage
  exact load_of_walk hword

/-- **A word of the table slot 0 names**, through the identity mapping. -/
theorem load_table (hshape : Shape I m) (hid : Ident I m) {j : Nat} (hj : j < 1024) :
    load m I.pageDir ((I.dirAt m 0 &&& 0xfffffc00) + 4 * j) = some (I.entryAt m 0 j) := by
  have hal := I.pageTables_aligned
  have hlt := I.pageDir_lt
  have htable : I.dirAt m 0 &&& 0xfffffc00 = I.pageTables := by
    have hent : I.tableEntry 0 = I.pageTables + 1 := rfl
    have hdef : I.pageTables = I.pageDir + 4096 := rfl
    rw [hid, hent, tableMask (by omega)]
    omega
  have hpage := hshape.walk_table (t := 0) (by decide) (Or.inl hid)
  rw [Nat.mul_zero, Nat.add_zero] at hpage
  rw [htable]
  exact load_of_walk (walk_page (d := 4 * j) hal (by omega) hpage)

/-! ## 3. The boot loader's structures -/

/-- The byte at a physical address. -/
def ramByte (m : Ram) (a : Nat) : BitVec 8 := BitVec.ofNat 8 (Bytes.byteAt m a)

/-- **A field of the info structure**, read in the higher half. -/
theorem load_info (hb : Blank I m₀) (hp : Placed I m₀ info)
    (hrun : setupPaging I fuel info m₀ = some m) {d : Nat} (hd : d < 120) :
    load m I.pageDir ((info + kernelBase) % 0x100000000 + d) = some (m₀ (info + d)) := by
  have hlow := hp.info_low
  have hstart := I.start_le
  have hsize : sizeofMultibootInfo = 120 := rfl
  have hbase : kernelBase = 0xc0000000 := rfl
  have hmask := pageMask_eq info
  have hwalk := walk_touched hb hp hrun (a := info + d) (Or.inr (Or.inr (Or.inl
    ⟨by omega, by omega, by omega⟩)))
  have hva : (info + kernelBase) % 0x100000000 + d = kernelBase + (info + d) := by omega
  rw [hva, load_of_walk hwalk, setupPaging_outside hb hp hrun (Or.inl (by omega))]

/-- The map's buffer lies below the image. -/
theorem mmap_below (hp : Placed I m₀ info) (hpos : 0 < mmapLength m₀ info) :
    mmapAddr m₀ info + mmapLength m₀ info ≤ 0x100000 := by
  have h1 := I.start_le
  have h2 := I.tables_le
  have h3 := low_of_assert hp.mmap_lt hp.mmap_assert
  rcases hp.mmap_apart hpos with h | h
  · exact h
  · omega

/-- The address of a byte of the map is translated in the higher half. -/
theorem walk_mmap (hb : Blank I m₀) (hp : Placed I m₀ info)
    (hrun : setupPaging I fuel info m₀ = some m) {a : Nat} (h1 : mmapAddr m₀ info ≤ a)
    (h2 : a < mmapAddr m₀ info + mmapLength m₀ info) :
    walk m I.pageDir (kernelBase + a) = some a := by
  have hmask := pageMask_eq (mmapAddr m₀ info)
  exact walk_touched hb hp hrun (Or.inr (Or.inr (Or.inr ⟨by omega, by omega, by omega⟩)))

/-- **A byte of the map**, read in the higher half. -/
theorem virtByte_mmap (hb : Blank I m₀) (hp : Placed I m₀ info)
    (hrun : setupPaging I fuel info m₀ = some m) {a : Nat} (h1 : mmapAddr m₀ info ≤ a)
    (h2 : a < mmapAddr m₀ info + mmapLength m₀ info) :
    virtByte (pagedVm I m) (kernelBase + a) = ramByte m₀ a := by
  have hbelow := mmap_below hp (by omega)
  have hstart := I.start_le
  have hcr3 := pagedVm_cr3 I m
  have hword : Bytes.byteAt m a = Bytes.byteAt m₀ a :=
    Bytes.byteAt_congr (setupPaging_outside hb hp hrun (Or.inl (by unfold Bytes.wordOf; omega)))
  unfold virtByte
  rw [hcr3]
  have hwalk : walk (pagedVm I m).ram I.pageDir (kernelBase + a) = some a :=
    walk_mmap hb hp hrun h1 h2
  rw [hwalk]
  exact congrArg (BitVec.ofNat 8) hword

/-- A number read from bytes that are the same elsewhere. -/
theorem readLE_shift {mem mem' : Nat → BitVec 8} {p p' n : Nat}
    (h : ∀ k < n, mem' ((p' + k) % 2 ^ 32) = mem ((p + k) % 2 ^ 32)) :
    readLE mem' p' n = readLE mem p n := by
  induction n with
  | zero => rfl
  | succ n ih =>
      unfold readLE
      rw [ih fun k hk => h k (by omega), h n (by omega)]

/-- An entry read from bytes that are the same elsewhere. -/
theorem readEntry_shift {mem mem' : Nat → BitVec 8} {p p' : Nat}
    (h : ∀ k < 24, mem' ((p' + k) % 2 ^ 32) = mem ((p + k) % 2 ^ 32)) :
    readEntry mem' p' = readEntry mem p := by
  have hpart : ∀ d n, d + n ≤ 24 → readLE mem' (p' + d) n = readLE mem (p + d) n := by
    intro d n hdn
    refine readLE_shift fun k hk => ?_
    rw [Nat.add_assoc, Nat.add_assoc]
    exact h (d + k) (by omega)
  have hsize := hpart 0 4 (by decide)
  have haddr := hpart 4 8 (by decide)
  have hlen := hpart 12 8 (by decide)
  have htype := hpart 20 4 (by decide)
  rw [Nat.add_zero, Nat.add_zero] at hsize
  unfold readEntry
  rw [hsize, haddr, hlen, htype]

/-- **A map is laid out where its bytes are read.** -/
theorem laidOut_shift {mem mem' : Nat → BitVec 8} {d stop p : Nat} {es : List MmapEntry}
    (h : LaidOut mem stop p es) (hsame : ∀ a, p ≤ a → a < stop → mem' (d + a) = mem a)
    (hlt : d + stop < 0x100000000) : LaidOut mem' (d + stop) (d + p) es := by
  induction h with
  | done => exact .done
  | @entry p es hsize hfits _ ih =>
      have hentry : readEntry mem' (d + p) = readEntry mem p := by
        refine readEntry_shift fun k hk => ?_
        rw [Nat.mod_eq_of_lt (by omega), Nat.mod_eq_of_lt (by omega), Nat.add_assoc]
        exact hsame _ (by omega) (by omega)
      have hrest := ih fun a h1 h2 => hsame a (by omega) h2
      have hnext : d + (p + (readEntry mem p).size.toNat + 4) =
          d + p + (readEntry mem' (d + p)).size.toNat + 4 := by
        rw [hentry]
        omega
      rw [hnext] at hrest
      have hlaid := LaidOut.entry (by rw [hentry]; exact hsize) (by rw [hentry]; omega) hrest
      rw [hentry] at hlaid
      exact hlaid

/-- **The boot loader's map, read in the higher half.** -/
theorem wellFormed_virt (hb : Blank I m₀) (hp : Placed I m₀ info)
    (hrun : setupPaging I fuel info m₀ = some m) {es : List MmapEntry}
    (hw : WellFormedMap (ramByte m₀) (mmapLength m₀ info) (mmapAddr m₀ info) es)
    (hpos : 0 < mmapLength m₀ info) :
    WellFormedMap (virtByte (pagedVm I m)) (mmapLength m₀ info) (kernelBase + mmapAddr m₀ info)
      es := by
  have hbelow := mmap_below hp hpos
  have hbase : kernelBase = 0xc0000000 := rfl
  have hlaid := laidOut_shift hw.entries (fun a h1 h2 => virtByte_mmap hb hp hrun h1 h2)
    (show kernelBase + _ < 0x100000000 by omega)
  have hstop : kernelBase + mmapAddr m₀ info + mmapLength m₀ info =
      kernelBase + (mmapAddr m₀ info + mmapLength m₀ info) := Nat.add_assoc _ _ _
  exact ⟨show _ < 0x100000000 by omega, hstop ▸ hlaid⟩

end OsPlayground.Startup
