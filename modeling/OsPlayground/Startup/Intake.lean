/-
  File:      OsPlayground/Startup/Intake.lean
  Subject:   `init_mmap` THROUGH THE PAGE TABLES: where every byte of the map is mapped, the walk
             is the walk over the bytes the translation shows, with a line printed for each entry.

  * `walkMmap_eq` -- the walk;
  * `initMmapEarly_eq` -- the whole operation, from a successful one on the bytes.
-/
import OsPlayground.Startup.EarlyMain
import OsPlayground.PhysMem.RealRam

namespace OsPlayground.Startup

open Halting Paging Heap Stdlib VirtMem PhysMem
open Stdlib.Checked (vaStart)

/-! ## 1. One entry -/

/-- The pieces of the line printed for an entry. -/
def mmapPieces : List Piece :=
  lits "mmap ".toList rfl ++ ([hex8] ++ (lits " (len ".toList rfl ++ ([hex8] ++
    (lits ") type = ".toList rfl ++ ([.directive [] none .u] ++ newline)))))

/-- The arguments of that line. -/
def mmapArgs (entry : MmapEntry) : List (BitVec 32) :=
  [entry.addr.setWidth 32, entry.len.setWidth 32, entry.type]

/-- The line printed for an entry. -/
def entryText (entry : MmapEntry) : List Char := output mmapPieces (vaStart (mmapArgs entry))

theorem mmapFormat_eq : mmapFormat = mmapPieces.flatMap Piece.text := by decide

variable {fuel stop : Nat} {e : Early} {bm bm' : Nat → BitVec 8}

/-- An entry marked. -/
theorem markEntry_eq {entry : MmapEntry}
    (h : markUnavailPages fuel entry e.mgr.phys.memBitmap = some (.ok bm)) :
    markEntry fuel entry e = (withBitmap bm e, some ()) := by
  unfold markEntry
  rw [h]

/-- An entry that is marked outside the bitmap. -/
theorem markEntry_stuck {entry : MmapEntry}
    (h : ∀ bm, markUnavailPages fuel entry e.mgr.phys.memBitmap ≠ some (.ok bm)) :
    markEntry fuel entry e = (e, none) := by
  unfold markEntry
  cases hmark : markUnavailPages fuel entry e.mgr.phys.memBitmap with
  | none => rfl
  | some r =>
      cases r with
      | error k => rfl
      | ok bm => exact absurd hmark (h bm)

theorem takeEntry_eq (fuel : Nat) (entry : MmapEntry) (e : Early) :
    takeEntry fuel entry e = markEntry fuel entry (e.logged (entryText entry)) := by
  unfold takeEntry
  rw [mmapFormat_eq]
  exact congrArg (fun r => andThen r fun e _ => markEntry fuel entry e)
    (serialPrintf_output mmapPieces (mmapArgs entry) e)

/-! ## 2. The walk -/

/-- An entry of a map laid out in mapped bytes can be read. -/
theorem readable_of_fits {vm : Vm} {p n : Nat} (hsize : 20 ≤ n) (hfits : p + n + 4 ≤ stop)
    (hstop : stop < 0x100000000)
    (hmapped : ∀ a, p ≤ a → a < stop → walk vm.ram vm.cr3 a ≠ none) : Readable vm p := by
  intro k hk
  rw [Nat.mod_eq_of_lt (by omega)]
  exact hmapped _ (by omega) (by omega)

/-- **One pass**: an entry that can be read and marked. -/
theorem mmapStep_go {vm : Vm} {p : Nat} (hlt : p < stop) (hread : Readable vm p)
    (hvm : e.mgr.vm = vm)
    (hmark : markUnavailPages fuel (readEntry (virtByte vm) p) e.mgr.phys.memBitmap =
      some (.ok bm)) :
    mmapStep fuel stop (p, e) = .inl (nextEntry (virtByte vm) p,
      withBitmap bm (e.logged (entryText (readEntry (virtByte vm) p)))) := by
  subst hvm
  have hmarked : markEntry fuel (readEntry (virtByte e.mgr.vm) p)
      (e.logged (entryText (readEntry (virtByte e.mgr.vm) p))) =
        (withBitmap bm (e.logged (entryText (readEntry (virtByte e.mgr.vm) p))), some ()) :=
    markEntry_eq hmark
  unfold mmapStep
  dsimp only
  rw [if_pos hlt, if_pos hread, takeEntry_eq, hmarked]

/-- An entry that is marked outside the bitmap stops the walk. -/
theorem mmapStep_stuck {vm : Vm} {p : Nat} (hlt : p < stop) (hread : Readable vm p)
    (hvm : e.mgr.vm = vm)
    (hmark : ∀ bm, markUnavailPages fuel (readEntry (virtByte vm) p) e.mgr.phys.memBitmap ≠
      some (.ok bm)) : ∃ e', mmapStep fuel stop (p, e) = .inr (e', none) := by
  subst hvm
  generalize hentry : readEntry (virtByte e.mgr.vm) p = entry at hmark
  refine ⟨e.logged (entryText entry), ?_⟩
  have hmarked : markEntry fuel entry (e.logged (entryText entry)) =
      (e.logged (entryText entry), none) := by
    generalize entryText entry = text
    refine markEntry_stuck ?_
    rw [Early.logged_mgr]
    exact hmark
  unfold mmapStep
  dsimp only
  rw [if_pos hlt, if_pos hread, hentry, takeEntry_eq, hmarked]

/-- **The two walks side by side**: they are at one entry, the entries from there on are laid out,
    and those before it are printed. -/
structure Beside (vm : Vm) (stop first : Nat) (e : Early) (es : List MmapEntry)
    (x : Nat × (Nat → BitVec 8)) (y : Nat × Early) : Prop where
  ptr : y.1 = x.1
  le : first ≤ x.1
  printed : ∃ met rest, es = met ++ rest ∧ LaidOut (virtByte vm) stop x.1 rest ∧
    y.2 = withBitmap x.2 (e.logged (met.flatMap entryText))

/-- Where the walk over the bytes ends well, the walk with its lines ends with all entries
    printed. -/
def EndsBeside (e : Early) (es : List MmapEntry) (b : Option (Except Nat (Nat → BitVec 8)))
    (y : Early × Option Unit) : Prop :=
  ∀ bm', b = some (.ok bm') → y = (withBitmap bm' (e.logged (es.flatMap entryText)), some ())

section Walk

variable {vm : Vm} {first : Nat} {es : List MmapEntry} {x t : Nat × (Nat → BitVec 8)}
  {y : Nat × Early} {b : Option (Except Nat (Nat → BitVec 8))}

theorem Beside.start (hlaid : LaidOut (virtByte vm) stop first es) :
    Beside vm stop first e es (first, bm) (first, withBitmap bm e) := by
  refine ⟨rfl, Nat.le_refl first, [], es, rfl, hlaid, ?_⟩
  unfold Early.logged
  rw [List.flatMap_nil, List.append_nil]

/-- **One pass of both.** -/
theorem Beside.go (h : Beside vm stop first e es x y) (hstop : stop < 0x100000000)
    (hmapped : ∀ a, first ≤ a → a < stop → walk vm.ram vm.cr3 a ≠ none) (hvm : e.mgr.vm = vm)
    (hgo : walkStep fuel (virtByte vm) stop x = .inl t) :
    ∃ t', mmapStep fuel stop y = .inl t' ∧ Beside vm stop first e es t t' := by
  obtain ⟨mmap, b⟩ := x
  obtain ⟨mmap', e'⟩ := y
  obtain ⟨hptr, hle, met, rest, hes, hrest, he'⟩ := h
  dsimp only at hptr hle hrest he'
  subst hptr he'
  unfold walkStep at hgo
  dsimp only at hgo
  by_cases hlt : mmap' < stop
  · rw [if_pos hlt] at hgo
    split at hgo
    · rename_i b' hmark
      cases hgo
      cases hrest with
      | done => exact absurd hlt (Nat.lt_irrefl _)
      | @entry _ tail hsize hfits hrest =>
          have hread := readable_of_fits hsize hfits hstop fun a h1 h2 =>
            hmapped a (Nat.le_trans hle h1) h2
          refine ⟨_, mmapStep_go hlt hread hvm hmark, nextEntry_eq hfits hstop ▸ rfl, ?_,
            met ++ [readEntry (virtByte vm) mmap'], tail, ?_, ?_, ?_⟩
          · dsimp only
            rw [nextEntry_eq hfits hstop]
            omega
          · rw [hes, List.append_assoc, List.singleton_append]
          · dsimp only
            rw [nextEntry_eq hfits hstop]
            exact hrest
          · unfold Early.logged withBitmap
            dsimp only
            rw [List.flatMap_append, List.flatMap_singleton, List.append_assoc]
    · cases hgo
  · rw [if_neg hlt] at hgo
    cases hgo

/-- **The end of both**: past the last entry, or at one that is marked outside the bitmap. -/
theorem Beside.ends (h : Beside vm stop first e es x y) (hstop : stop < 0x100000000)
    (hmapped : ∀ a, first ≤ a → a < stop → walk vm.ram vm.cr3 a ≠ none) (hvm : e.mgr.vm = vm)
    (hend : walkStep fuel (virtByte vm) stop x = .inr b) :
    ∃ b', mmapStep fuel stop y = .inr b' ∧ EndsBeside e es b b' := by
  obtain ⟨mmap, b₁⟩ := x
  obtain ⟨mmap', e'⟩ := y
  obtain ⟨hptr, hle, met, rest, hes, hrest, he'⟩ := h
  dsimp only at hptr hle hrest he'
  subst hptr he'
  unfold walkStep at hend
  dsimp only at hend
  by_cases hlt : mmap' < stop
  · rw [if_pos hlt] at hend
    split at hend
    · cases hend
    · rename_i hmark
      cases hend
      cases hrest with
      | done => exact absurd hlt (Nat.lt_irrefl _)
      | @entry _ tail hsize hfits hrest =>
          have hread := readable_of_fits hsize hfits hstop fun a h1 h2 =>
            hmapped a (Nat.le_trans hle h1) h2
          obtain ⟨e₁, he₁⟩ := mmapStep_stuck
            (e := withBitmap b₁ (e.logged (met.flatMap entryText))) hlt hread hvm
              fun bm hok => hmark bm hok
          exact ⟨_, he₁, fun bm' hb => absurd hb (hmark bm')⟩
  · rw [if_neg hlt] at hend
    cases hend
    refine ⟨(withBitmap b₁ (e.logged (met.flatMap entryText)), some ()), ?_, fun bm' hb => ?_⟩
    · unfold mmapStep
      dsimp only
      rw [if_neg hlt]
    · cases hb
      cases hrest with
      | done => rw [hes, List.append_nil]
      | @entry _ tail hsize hfits hrest => omega

/-- **The walk with its lines**, pass by pass beside the walk over the bytes. -/
theorem walkMmap_eq {n : Nat} (hlaid : LaidOut (virtByte vm) stop first es)
    (hstop : stop < 0x100000000)
    (hmapped : ∀ a, first ≤ a → a < stop → walk vm.ram vm.cr3 a ≠ none) (hvm : e.mgr.vm = vm)
    (h : FuelLoop.run (walkStep fuel (virtByte vm) stop) n (first, bm) = some (some (.ok bm'))) :
    FuelLoop.run (mmapStep fuel stop) n (first, withBitmap bm e) =
      some (withBitmap bm' (e.logged (es.flatMap entryText)), some ()) := by
  obtain ⟨r, hr, hends⟩ := FuelLoop.run_sim (Beside vm stop first e es) (EndsBeside e es)
    (fun _ _ _ hR hgo => hR.go hstop hmapped hvm hgo)
    (fun _ _ _ hR hend => hR.ends hstop hmapped hvm hend) (Beside.start hlaid) h
  rw [hr, hends bm' rfl]

end Walk

/-! ## 3. The whole operation -/

/-- Entries of 24 bytes or more in a buffer. -/
theorem laidOut_length {mem : Nat → BitVec 8} {p : Nat} {es : List MmapEntry}
    (h : LaidOut mem stop p es) : p + 24 * es.length ≤ stop := by
  induction h with
  | done => exact Nat.le_refl _
  | entry hsize _ _ ih =>
      rw [List.length_cons]
      omega

/-- **`init_mmap`** on a well-formed map of safe entries in mapped bytes. -/
theorem initMmapEarly_eq {vm : Vm} {K : KernelExtent} {mmapLength mmapAddr : Nat}
    {es : List MmapEntry} (hw : WellFormedMap (virtByte vm) mmapLength mmapAddr es)
    (hsafe : ∀ entry ∈ es, EntrySafe entry)
    (hmapped : ∀ a, mmapAddr ≤ a → a < mmapAddr + mmapLength → walk vm.ram vm.cr3 a ≠ none)
    (hvm : e.mgr.vm = vm) (hf : 0x100001 < fuel) (hlen : mmapLength < fuel) :
    ∃ u, initMmap fuel (virtByte vm) K mmapLength mmapAddr e.mgr.phys = some (.ok u) ∧
      initMmapEarly fuel K mmapLength mmapAddr e =
        (withBitmap u.memBitmap (e.logged (es.flatMap entryText)), some ()) := by
  have hstop : mmapAddr + mmapLength < 0x100000000 := hw.stop_lt
  have hmod : (mmapAddr + mmapLength) % 2 ^ 32 = mmapAddr + mmapLength := Nat.mod_eq_of_lt hstop
  have hcount := laidOut_length hw.entries
  have hfuel : 2 ^ 20 + 1 < fuel := by omega
  -- the walk over the bytes, then the two entries of the kernel
  obtain ⟨bm₁, h₁⟩ := walk_safe hfuel (hw.entries.chainSafe hstop hsafe)
    (memsetBitmap e.mgr.phys.memBitmap)
  obtain ⟨bm₂, h₂, _⟩ := mark_safe (kernelMmap_safe K) hfuel bm₁
  obtain ⟨bm₃, h₃, _⟩ := mark_safe vgaMmap_safe hfuel bm₂
  have hrun := FuelLoop.run_mono (show es.length + 1 ≤ fuel by omega) h₁
  refine ⟨{ e.mgr.phys with memBitmap := bm₃ }, initMmap_ok_iff.mpr ⟨bm₃, ?_, rfl⟩, ?_⟩
  · unfold initBitmap
    rw [hmod, hrun]
    simp only [Option.join_some, PhysMem.andThen, h₂, h₃]
  · have hwalk := walkMmap_eq (e := e) hw.entries hstop hmapped hvm hrun
    unfold initMmapEarly walkMmap
    rw [hmod, hwalk]
    dsimp only
    rw [andThen_some, markEntry_eq h₂, andThen_some, markEntry_eq h₃]
    rfl

end OsPlayground.Startup
