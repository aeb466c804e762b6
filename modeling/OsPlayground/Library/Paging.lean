/-
  File:      OsPlayground/Library/Paging.lean
  Subject:   TWO-LEVEL PAGE TRANSLATION. Memory is a word for every byte address; a directory of
             1024 words names tables of 1024 words, a table's words name frames of 4 KiB.

  `walk` is the translation of a virtual address, `load` and `store` are accesses through it;
  `none` is a page fault. The rules:

  * `walk_of_entries`, `walk_none_dir`, `walk_none_table` -- the walk from its two entries;
  * `walk_congr` -- the walk sees its two words only;
  * `walk_page`, `walk_page_none` -- all of a page is translated as its first byte is;
  * `load_of_walk`, `store_of_walk` -- an access where the walk is known.
-/
import Mathlib.Data.Nat.Bitwise
import Mathlib.Logic.Function.Basic

namespace Paging

/-- Physical memory: the word at each byte address. -/
abbrev Ram := Nat → Nat

/-- The present bit of an entry. -/
def Present (e : Nat) : Prop := e % 2 = 1

instance (e : Nat) : Decidable (Present e) := inferInstanceAs (Decidable (_ = _))

/-- The frame an entry names: its low twelve bits cleared. -/
def frame (e : Nat) : Nat := e - e % 4096

/-- The word of the directory that translates `va`. -/
def dirCell (cr3 va : Nat) : Nat := cr3 + 4 * (va / 4194304)

/-- The word that translates `va` in the table that the directory entry `e` names. -/
def tableCell (e va : Nat) : Nat := frame e + 4 * (va / 4096 % 1024)

/-- **The translation of `va`** under the directory at `cr3`. -/
def walk (m : Ram) (cr3 va : Nat) : Option Nat :=
  let pde := m (dirCell cr3 va)
  if Present pde then
    let pte := m (tableCell pde va)
    if Present pte then some (frame pte + va % 4096) else none
  else none

/-- A load through the translation. -/
def load (m : Ram) (cr3 va : Nat) : Option Nat := (walk m cr3 va).map m

/-- A store through the translation. -/
def store (m : Ram) (cr3 va w : Nat) : Option Ram := (walk m cr3 va).map fun a => Function.update m a w

/-! ## 1. Entries -/

/-- `a | 1` on an even number. -/
theorem or_one {a : Nat} (h : a % 2 = 0) : a ||| 1 = a + 1 := by
  have h1 : a ||| 1 = 2 ^ 1 * (a / 2) + 1 := by
    rw [Nat.two_pow_add_eq_or_of_lt (by decide) (a / 2)]
    congr 1
    omega
  rw [h1]
  omega

/-- `a | 1` is present. -/
theorem present_or_one (a : Nat) : Present (a ||| 1) := by
  unfold Present
  rcases Nat.mod_two_eq_zero_or_one a with h | h
  · rw [or_one h]
    omega
  · have hodd := or_one (a := a - 1) (by omega)
    have hsame : a ||| 1 = a := by
      have hpred : a - 1 + 1 = a := by omega
      rw [← hpred, ← hodd, Nat.or_assoc, Nat.or_self]
    rw [hsame]
    exact h

variable {a : Nat}

theorem present_succ (h : a % 4096 = 0) : Present (a + 1) := by
  unfold Present
  omega

@[simp] theorem not_present_zero : ¬ Present 0 := by decide

theorem frame_succ (h : a % 4096 = 0) : frame (a + 1) = a := by
  unfold frame
  omega

/-- The entry of a page: its address with the present bit. -/
theorem frame_or_one (h : a % 4096 = 0) : a ||| 1 = a + 1 := or_one (by omega)

/-! ## 2. The walk -/

variable {m m' : Ram} {cr3 va pa : Nat}

/-- **The walk from its entries.** -/
theorem walk_of_entries {e f : Nat} (he : m (dirCell cr3 va) = e) (hp : Present e)
    (hf : m (tableCell e va) = f) (hq : Present f) :
    walk m cr3 va = some (frame f + va % 4096) := by
  subst he hf
  unfold walk
  rw [if_pos hp, if_pos hq]

theorem walk_none_dir (h : ¬ Present (m (dirCell cr3 va))) : walk m cr3 va = none := by
  unfold walk
  rw [if_neg h]

theorem walk_none_table {e : Nat} (he : m (dirCell cr3 va) = e) (h : ¬ Present (m (tableCell e va))) :
    walk m cr3 va = none := by
  subst he
  unfold walk
  dsimp only
  rw [if_neg h, ite_self]

/-- A walk that ends passed two present entries. -/
theorem walk_eq_some (h : walk m cr3 va = some pa) :
    Present (m (dirCell cr3 va)) ∧ Present (m (tableCell (m (dirCell cr3 va)) va)) ∧
      pa = frame (m (tableCell (m (dirCell cr3 va)) va)) + va % 4096 := by
  unfold walk at h
  dsimp only at h
  split at h
  · rename_i h1
    split at h
    · rename_i h2
      exact ⟨h1, h2, (Option.some.inj h).symm⟩
    · cases h
  · cases h

/-- Where the walk is known to end or not from the table's word alone. -/
theorem walk_eq_none_iff {e : Nat} (he : m (dirCell cr3 va) = e) (hp : Present e) :
    walk m cr3 va = none ↔ ¬ Present (m (tableCell e va)) := by
  refine ⟨fun h hq => ?_, walk_none_table he⟩
  rw [walk_of_entries he hp rfl hq] at h
  cases h

/-- **The walk sees its two words only.** -/
theorem walk_congr (hd : m' (dirCell cr3 va) = m (dirCell cr3 va))
    (ht : Present (m (dirCell cr3 va)) →
      m' (tableCell (m (dirCell cr3 va)) va) = m (tableCell (m (dirCell cr3 va)) va)) :
    walk m' cr3 va = walk m cr3 va := by
  by_cases hp : Present (m (dirCell cr3 va))
  · unfold walk
    dsimp only
    rw [hd, ht hp]
  · rw [walk_none_dir hp, walk_none_dir (by rwa [hd])]

/-- The bytes of a page use the same two words. -/
theorem cells_of_page {d : Nat} (hva : va % 4096 = 0) (hd : d < 4096) (cr3 e : Nat) :
    dirCell cr3 (va + d) = dirCell cr3 va ∧ tableCell e (va + d) = tableCell e va := by
  unfold dirCell tableCell
  omega

/-- **All of a page is translated as its first byte is.** -/
theorem walk_page {d : Nat} (hva : va % 4096 = 0) (hd : d < 4096) (h : walk m cr3 va = some pa) :
    walk m cr3 (va + d) = some (pa + d) := by
  obtain ⟨h1, h2, rfl⟩ := walk_eq_some h
  obtain ⟨hdir, htab⟩ := cells_of_page hva hd cr3 (m (dirCell cr3 va))
  rw [walk_of_entries (congrArg m hdir) h1 (congrArg m htab) h2]
  congr 1
  omega

/-- A page is unmapped as a whole. -/
theorem walk_page_none {d : Nat} (hva : va % 4096 = 0) (hd : d < 4096) (h : walk m cr3 va = none) :
    walk m cr3 (va + d) = none := by
  obtain ⟨hdir, htab⟩ := cells_of_page hva hd cr3 (m (dirCell cr3 va))
  by_cases hp : Present (m (dirCell cr3 va))
  · refine walk_none_table (congrArg m hdir) ?_
    rw [htab]
    exact (walk_eq_none_iff rfl hp).mp h
  · refine walk_none_dir ?_
    rw [hdir]
    exact hp

/-! ## 3. Accesses -/

theorem load_of_walk (h : walk m cr3 va = some pa) : load m cr3 va = some (m pa) := by
  rw [load, h]
  rfl

theorem store_of_walk {w : Nat} (h : walk m cr3 va = some pa) :
    store m cr3 va w = some (Function.update m pa w) := by
  rw [store, h]
  rfl

theorem load_fault (h : walk m cr3 va = none) : load m cr3 va = none := by
  rw [load, h]
  rfl

theorem store_fault {w : Nat} (h : walk m cr3 va = none) : store m cr3 va w = none := by
  rw [store, h]
  rfl

end Paging
