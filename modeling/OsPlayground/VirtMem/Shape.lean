/-
  File:      OsPlayground/VirtMem/Shape.lean
  Subject:   THE SHAPE OF THE PAGE TABLES, which every operation of the allocator keeps.

  A slot of the directory is clear or names one table (`slotTable`): the kernel's slots 768, 769,
  ... the tables 0, 1, ..., every other slot its own. Two slots from 768 on never name one table
  (`slotTable_inj`). The pages of the image are mapped to themselves in the tables of its blocks,
  and the table of a clear slot is blank.

  * `Shape.walk_low`, `Shape.walk_high` -- the image is mapped in both halves;
  * `Shape.load`, `Shape.clear`, `Shape.write` -- the three writes keep the shape;
  * `Shape.walk_load`, `Shape.walk_write_ne`, `walk_write_self` -- and what they do to the
    translation;
  * `shape_setupPaging` -- `setup_paging` leaves it.
-/
import OsPlayground.VirtMem.AddressSpace

namespace OsPlayground.VirtMem

open Paging

namespace KernelImage

variable (I : KernelImage)

/-- The table that slot `k` names when it is not clear. -/
def slotTable (k : Nat) : Nat := if 768 ≤ k ∧ k < 768 + I.blocks then k - 768 else k

theorem slotTable_kernel {k : Nat} (h : 768 ≤ k) (h' : k < 768 + I.blocks) :
    I.slotTable k = k - 768 := by
  unfold slotTable
  rw [if_pos ⟨h, h'⟩]

theorem slotTable_own {k : Nat} (h : ¬ (768 ≤ k ∧ k < 768 + I.blocks)) : I.slotTable k = k := by
  unfold slotTable
  rw [if_neg h]

theorem slotTable_lt {k : Nat} (h : k < 1024) : I.slotTable k < 1024 := by
  unfold slotTable
  split
  · omega
  · exact h

/-- **Two slots of the upper half never name one table.** -/
theorem slotTable_inj {k k' : Nat} (hk : 768 ≤ k) (hk' : 768 ≤ k')
    (h : I.slotTable k = I.slotTable k') : k = k' := by
  have hb := I.blocks_le
  unfold slotTable at h
  split at h
  · split at h
    · omega
    · omega
  · split at h
    · omega
    · exact h

end KernelImage

variable (I : KernelImage)

/-- **The shape of the directory and the tables.** Slot 0, which `clear_ident_map` clears, is the
    one slot of the image's blocks that may be clear. -/
structure Shape (m : Ram) : Prop where
  slot : ∀ k < 1024, I.dirAt m k = 0 ∨ I.dirAt m k = I.tableEntry (I.slotTable k)
  low : ∀ k, 0 < k → k < I.blocks → I.dirAt m k = I.tableEntry k
  high : ∀ k < I.blocks, I.dirAt m (768 + k) = I.tableEntry k
  image : ∀ p, I.Page p → I.entryAt m (p / 4194304) (p / 4096 % 1024) = p + 1
  blank : ∀ k < 1024, 0 < k → I.dirAt m k = 0 → ∀ j < 1024, I.entryAt m k j = 0

/-- The identity mapping of the first 4 MiB is there. -/
def Ident (m : Ram) : Prop := I.dirAt m 0 = I.tableEntry 0

/-- The pointer to table `t` lies in a block whose identity mapping is there. -/
def Open (m : Ram) (t : Nat) : Prop := Ident I m ∨ 0x400000 ≤ I.pageTables + 4096 * t

variable {I} {m : Ram}

theorem tableEntry_ne_zero (t : Nat) : I.tableEntry t ≠ 0 := Nat.succ_ne_zero _

theorem present_of_ne_zero (h : Shape I m) {k : Nat} (hk : k < 1024) (hne : I.dirAt m k ≠ 0) :
    I.dirAt m k = I.tableEntry (I.slotTable k) := (h.slot k hk).resolve_left hne

/-- The present bit of a slot tells whether it is clear. -/
theorem present_iff (h : Shape I m) {k : Nat} (hk : k < 1024) :
    Present (I.dirAt m k) ↔ I.dirAt m k ≠ 0 := by
  rcases h.slot k hk with h0 | h0
  · rw [h0]
    exact ⟨fun hp => absurd hp not_present_zero, fun hne => absurd rfl hne⟩
  · rw [h0]
    exact ⟨fun _ => tableEntry_ne_zero _, fun _ => I.present_tableEntry _⟩

/-- The kernel's own slots are never clear. -/
theorem Shape.kernel_ne_zero (h : Shape I m) {k : Nat} (hk : 768 ≤ k) (hk' : k < 768 + I.blocks) :
    I.dirAt m k ≠ 0 := by
  have hslot := h.high (k - 768) (by omega)
  have hsum : 768 + (k - 768) = k := by omega
  rw [hsum] at hslot
  rw [hslot]
  exact tableEntry_ne_zero _

/-- A clear slot has its own table. -/
theorem Shape.own_of_clear (h : Shape I m) {k : Nat} (hc : I.dirAt m k = 0) :
    I.slotTable k = k := by
  refine I.slotTable_own fun hk => ?_
  exact h.kernel_ne_zero hk.1 hk.2 hc

/-! ## 1. The image in both halves -/

theorem Shape.walk_low (h : Shape I m) {p : Nat} (hp : I.Page p)
    (hid : Ident I m ∨ 0x400000 ≤ p) : walk m I.pageDir p = some p := by
  have hslot : I.dirAt m (p / 4194304) = I.tableEntry (p / 4194304) := by
    by_cases h0 : p / 4194304 = 0
    · rw [h0]
      rcases hid with hid | hid
      · exact hid
      · omega
    · exact h.low _ (by omega) hp.block
  rw [I.walk_slot hslot hp.1 (h.image p hp), hp.1, Nat.add_zero]

theorem Shape.walk_high (h : Shape I m) {p : Nat} (hp : I.Page p) :
    walk m I.pageDir (kernelBase + p) = some p := by
  have hbase : kernelBase = 768 * 4194304 := rfl
  have hslot : I.dirAt m ((kernelBase + p) / 4194304) = I.tableEntry (p / 4194304) := by
    have hk : (kernelBase + p) / 4194304 = 768 + p / 4194304 := by omega
    rw [hk]
    exact h.high _ hp.block
  have hidx : (kernelBase + p) / 4096 % 1024 = p / 4096 % 1024 := by omega
  have hoff : (kernelBase + p) % 4096 = 0 := by
    have h1 := hp.1
    omega
  rw [I.walk_slot hslot hp.1 (by rw [hidx]; exact h.image p hp), hoff, Nat.add_zero]

/-- **A table is reached through its physical address** while its block is open. -/
theorem Shape.walk_table (h : Shape I m) {t : Nat} (ht : t < 1024) (ho : Open I m t) :
    walk m I.pageDir (I.pageTables + 4096 * t) = some (I.pageTables + 4096 * t) :=
  h.walk_low (I.page_table ht) ho

/-! ## 2. The three writes -/

/-- **A clear slot loaded** with its own table. -/
theorem Shape.load (h : Shape I m) {k : Nat} (hk : k < 1024) (hc : I.dirAt m k = 0) :
    Shape I (I.setDir m k (I.tableEntry k)) := by
  have hb := I.blocks_le
  have hown := h.own_of_clear hc
  refine ⟨fun i hi => ?_, fun i h0 hi => ?_, fun i hi => ?_, fun p hp => ?_,
    fun i hi h0 hci j hj => ?_⟩
  · by_cases hik : i = k
    · subst hik
      rw [I.dirAt_setDir_self, hown]
      exact Or.inr rfl
    · rw [I.dirAt_setDir_ne _ hik]
      exact h.slot i hi
  · by_cases hik : i = k
    · subst hik
      exact I.dirAt_setDir_self m
    · rw [I.dirAt_setDir_ne _ hik]
      exact h.low i h0 hi
  · have hik : 768 + i ≠ k := by
      intro heq
      exact h.kernel_ne_zero (by omega) (by omega) hc
    rw [I.dirAt_setDir_ne _ hik]
    exact h.high i hi
  · rw [I.entryAt_setDir _ hk]
    exact h.image p hp
  · rw [I.entryAt_setDir _ hk]
    by_cases hik : i = k
    · subst hik
      rw [I.dirAt_setDir_self] at hci
      exact absurd hci (tableEntry_ne_zero _)
    · rw [I.dirAt_setDir_ne _ hik] at hci
      exact h.blank i hi h0 hci j hj

/-- **Slot 0 cleared.** -/
theorem Shape.clear (h : Shape I m) : Shape I (I.setDir m 0 0) := by
  refine ⟨fun i hi => ?_, fun i h0 hi => ?_, fun i hi => ?_, fun p hp => ?_,
    fun i hi h0 hci j hj => ?_⟩
  · by_cases hi0 : i = 0
    · subst hi0
      exact Or.inl (I.dirAt_setDir_self m)
    · rw [I.dirAt_setDir_ne _ hi0]
      exact h.slot i hi
  · rw [I.dirAt_setDir_ne _ (by omega)]
    exact h.low i h0 hi
  · rw [I.dirAt_setDir_ne _ (by omega)]
    exact h.high i hi
  · rw [I.entryAt_setDir _ (by omega)]
    exact h.image p hp
  · rw [I.entryAt_setDir _ (by omega)]
    rw [I.dirAt_setDir_ne _ (by omega)] at hci
    exact h.blank i hi h0 hci j hj

/-- **An entry written** in a table that a slot names, at a place where no page of the image
    is. -/
theorem Shape.write (h : Shape I m) {t j w : Nat} (hj : j < 1024)
    (himg : ¬ I.Page (4194304 * t + 4096 * j)) (hused : ∀ k < 1024, 0 < k → I.dirAt m k = 0 → k ≠ t) :
    Shape I (I.setEntry m t j w) := by
  have hb := I.blocks_le
  refine ⟨fun i hi => ?_, fun i h0 hi => ?_, fun i hi => ?_, fun p hp => ?_,
    fun i hi h0 hci j' hj' => ?_⟩
  · rw [I.dirAt_setEntry _ hi]
    exact h.slot i hi
  · rw [I.dirAt_setEntry _ (by omega)]
    exact h.low i h0 hi
  · rw [I.dirAt_setEntry _ (by omega)]
    exact h.high i hi
  · have hne : p / 4194304 ≠ t ∨ p / 4096 % 1024 ≠ j := by
      by_cases heq : p / 4194304 = t
      · refine Or.inr fun hidx => himg ?_
        have hplace : 4194304 * t + 4096 * j = p := by
          have h1 := hp.1
          omega
        rw [hplace]
        exact hp
      · exact Or.inl heq
    rw [I.entryAt_setEntry_ne _ hj (by omega) hne]
    exact h.image p hp
  · rw [I.dirAt_setEntry _ hi] at hci
    rw [I.entryAt_setEntry_ne _ hj hj' (Or.inl (hused i hi h0 hci))]
    exact h.blank i hi h0 hci j' hj'

/-- A word outside the directory and the tables written. -/
theorem Shape.outside (h : Shape I m) {a w : Nat} (ha : I.Outside a) :
    Shape I (Function.update m a w) := by
  have hdir : ∀ k < 1024, I.dirAt (Function.update m a w) k = I.dirAt m k :=
    fun k hk => I.dirAt_outside m hk ha
  have hentry : ∀ t < 1024, ∀ j < 1024,
      I.entryAt (Function.update m a w) t j = I.entryAt m t j :=
    fun t ht j hj => I.entryAt_outside m ht hj ha
  have hb := I.blocks_le
  refine ⟨fun k hk => ?_, fun k h0 hk => ?_, fun k hk => ?_, fun p hp => ?_,
    fun k hk h0 hc j hj => ?_⟩
  · rw [hdir k hk]
    exact h.slot k hk
  · rw [hdir k (by omega)]
    exact h.low k h0 hk
  · rw [hdir _ (by omega)]
    exact h.high k hk
  · have hblock := hp.block
    rw [hentry _ (by omega) _ (by omega)]
    exact h.image p hp
  · rw [hdir k hk] at hc
    rw [hentry k hk j hj]
    exact h.blank k hk h0 hc j hj

/-! ## 3. The translation after a write -/

section Walk

variable {va : Nat}

/-- What keeps a slot and the word there that a page uses keeps the page's translation. -/
theorem Shape.walk_same (h : Shape I m) {m' : Ram} (hva : va < 0x100000000)
    (hd : I.dirAt m' (va / 4194304) = I.dirAt m (va / 4194304))
    (he : I.dirAt m (va / 4194304) ≠ 0 →
      I.entryAt m' (I.slotTable (va / 4194304)) (va / 4096 % 1024) =
        I.entryAt m (I.slotTable (va / 4194304)) (va / 4096 % 1024)) :
    walk m' I.pageDir va = walk m I.pageDir va := by
  refine walk_congr hd fun hp => ?_
  have hk : va / 4194304 < 1024 := by omega
  have hne := (present_iff h hk).mp hp
  have hentry : m (dirCell I.pageDir va) = I.tableEntry (I.slotTable (va / 4194304)) :=
    present_of_ne_zero h hk hne
  rw [hentry, I.tableCell_tableEntry]
  exact he hne

/-- **Loading a table changes no translation**: the table is blank. -/
theorem Shape.walk_load (h : Shape I m) {k : Nat} (hk : k < 1024) (h0 : 0 < k)
    (hc : I.dirAt m k = 0) (hva : va < 0x100000000) :
    walk (I.setDir m k (I.tableEntry k)) I.pageDir va = walk m I.pageDir va := by
  by_cases hslot : va / 4194304 = k
  · have habsent : walk m I.pageDir va = none := I.walk_absent (by rw [hslot]; exact hc)
    have hd : I.dirAt (I.setDir m k (I.tableEntry k)) (va / 4194304) = I.tableEntry k := by
      rw [hslot]
      exact I.dirAt_setDir_self m
    rw [habsent, I.walk_slot_none_iff hd, I.entryAt_setDir _ hk, h.blank k hk h0 hc _ (by omega)]
    exact not_present_zero
  · exact h.walk_same hva (I.dirAt_setDir_ne _ hslot) fun _ => I.entryAt_setDir _ hk

/-- An entry written changes no page that uses another word. -/
theorem Shape.walk_write_ne (h : Shape I m) {t j w : Nat} (hj : j < 1024)
    (hva : va < 0x100000000) (hne : I.slotTable (va / 4194304) ≠ t ∨ va / 4096 % 1024 ≠ j) :
    walk (I.setEntry m t j w) I.pageDir va = walk m I.pageDir va :=
  h.walk_same hva (I.dirAt_setEntry _ (by omega)) fun _ =>
    I.entryAt_setEntry_ne _ hj (by omega) hne

/-- **The page whose entry is written** is mapped to the frame. -/
theorem walk_write_self {k f : Nat} (hk : k < 1024)
    (hd : I.dirAt m k = I.tableEntry (I.slotTable k)) (hf : f % 4096 = 0)
    (hslot : va / 4194304 = k) :
    walk (I.setEntry m (I.slotTable k) (va / 4096 % 1024) (f + 1)) I.pageDir va =
      some (f + va % 4096) := by
  refine I.walk_slot (t := I.slotTable k) ?_ hf (I.entryAt_setEntry_self m)
  rw [I.dirAt_setEntry _ (by omega), hslot]
  exact hd

/-- **A page of the upper half mapped** leaves every other page there as it was. -/
theorem Shape.walk_write_high (h : Shape I m) {v w : Nat} (hv : 768 ≤ v / 4194304)
    (hhigh : 768 ≤ va / 4194304) (hva : va < 0x100000000) (hne : va / 4096 ≠ v / 4096) :
    walk (I.setEntry m (I.slotTable (v / 4194304)) (v / 4096 % 1024) w) I.pageDir va =
      walk m I.pageDir va := by
  refine h.walk_write_ne (by omega) hva ?_
  by_cases hslot : va / 4194304 = v / 4194304
  · exact Or.inr (by omega)
  · exact Or.inl fun htab => hslot (I.slotTable_inj hhigh hv htab)

/-- **A word outside the directory and the tables** changes no translation. -/
theorem Shape.walk_outside (h : Shape I m) {a w : Nat} (ha : I.Outside a)
    (hva : va < 0x100000000) : walk (Function.update m a w) I.pageDir va = walk m I.pageDir va :=
  h.walk_same hva (I.dirAt_outside m (by omega) ha) fun _ =>
    I.entryAt_outside m (I.slotTable_lt (by omega)) (by omega) ha

end Walk

/-! ## 4. The start -/

/-- The directory and the tables after `setup_paging`, for any fuel it ended with. -/
theorem setupPaging_left {fuel info : Nat} {m' : Ram} (hb : Blank I m) (hp : Placed I m info)
    (hrun : setupPaging I fuel info m = some m') :
    DirUpTo I (I.blocks - 1) m' ∧ Filled I (Looping I m info) m' := by
  obtain ⟨m₁, hrun₁, hleft⟩ := setupPaging_tables hb hp
    (show 0x40000 < fuel + 0x40001 by omega)
  rw [setupPaging_mono (Nat.le_add_right fuel 0x40001) hrun] at hrun₁
  obtain rfl := Option.some.inj hrun₁
  exact hleft

/-- **`setup_paging` leaves the shape**, with the identity mapping in place. -/
theorem shape_setupPaging {fuel info : Nat} {m' : Ram} (hb : Blank I m) (hp : Placed I m info)
    (hrun : setupPaging I fuel info m = some m') : Shape I m' ∧ Ident I m' := by
  obtain ⟨hd, hfill⟩ := setupPaging_left hb hp hrun
  have hblocks := I.blocks_le
  have hpos := I.blocks_pos
  have hid : Ident I m' := by
    unfold Ident
    rw [hd 0 (by omega), if_pos (by omega)]
  refine ⟨⟨fun k hk => ?_, fun k _ hk => ?_, fun k hk => ?_, fun p hpage => ?_,
    fun k hk _ hc j hj => ?_⟩, hid⟩
  · rw [hd k hk]
    by_cases h1 : k ≤ I.blocks - 1
    · rw [if_pos h1, I.slotTable_own (by omega)]
      exact Or.inr rfl
    · rw [if_neg h1]
      by_cases h2 : 768 ≤ k ∧ k ≤ 768 + (I.blocks - 1)
      · rw [if_pos h2, I.slotTable_kernel h2.1 (by omega)]
        exact Or.inr rfl
      · rw [if_neg h2]
        exact Or.inl rfl
  · rw [hd k (by omega), if_pos (by omega)]
  · have hsub : 768 + k - 768 = k := by omega
    rw [hd _ (by omega), if_neg (by omega), if_pos (by omega), hsub]
  · have hlt := I.stop_lt
    have h3 := hpage.2.2
    exact (hfill p hpage.1 (by omega)).1 (Or.inl hpage)
  · have hout : I.blocks ≤ k := by
      rw [hd k hk] at hc
      by_cases h1 : k ≤ I.blocks - 1
      · rw [if_pos h1] at hc
        exact absurd hc (tableEntry_ne_zero _)
      · omega
    have hplace := (hfill (4194304 * k + 4096 * j) (by omega) (by omega)).2 fun hint => by
      have hblock := hint.block hp
      omega
    have h1 : (4194304 * k + 4096 * j) / 4194304 = k := by omega
    have h2 : (4194304 * k + 4096 * j) / 4096 % 1024 = j := by omega
    rw [h1, h2] at hplace
    exact hplace

end OsPlayground.VirtMem
