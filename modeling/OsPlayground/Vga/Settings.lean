/-
  File:      OsPlayground/Vga/Settings.lean
  Subject:   THE TERMINAL'S SETTINGS over whole runs.

  What a terminal should write with is read off the operations so far: the colour of the latest
  `set_color` and the column of the latest `set_indent` (`latestColor`, `latestIndent`). What it
  writes with are its fields, and no operation changes them: both setters assign their parameter
  to itself.

  * `apply_lines` -- which operations begin a line, from the column before the operation;
  * `honours_iff` -- so a run honours its settings exactly when every `set_color` asks for light
    grey on black and every line is begun while the indent asked for is 0.
-/
import OsPlayground.Vga.Terminal

namespace OsPlayground.Vga

open Logged

/-! ## 1. What the settings ask for -/

/-- The colour an operation asks for. -/
def Op.colorSet : Op → Option (BitVec 8)
  | .setColor color => some color
  | .setColors fg bg => some (vgaEntryColor fg bg)
  | _ => none

/-- The column an operation asks lines to begin at. -/
def Op.indentSet : Op → Option Nat
  | .setIndent indent => some indent
  | _ => none

/-- The latest value set, or the one before any. -/
def latest {α : Type} (f : Op → Option α) (a : α) (ops : List Op) : α :=
  (ops.filterMap f).getLast?.getD a

/-- The colour of the latest `set_color`; light grey on black before any. -/
def latestColor : List Op → BitVec 8 := latest Op.colorSet 0x07#8

/-- The column of the latest `set_indent`; 0 before any. -/
def latestIndent : List Op → Nat := latest Op.indentSet 0

/-- **A run honours its settings**: after every operation `get_color` is the latest colour, and
    every cell an operation writes and every line it begins carries the latest setting before
    it. -/
def Honours (buffer : Nat → BitVec 16) (ops : List Op) : Prop :=
  (∀ pre t evss, pre <+: ops → termRun (fresh buffer) pre = some (t, evss) →
    getColor t = latestColor pre) ∧
  ∀ pre op t evss r, pre ++ [op] <+: ops → termRun (fresh buffer) pre = some (t, evss) →
    apply t op = .ok r →
    (∀ index entry, Event.cell index entry ∈ r.2 → cellColor entry = latestColor pre) ∧
      ∀ column, Event.line column ∈ r.2 → column = latestIndent pre

/-! ## 2. Which operations begin a line -/

/-- Writing these bytes from this column begins a line: one of them does, or the column
    reaches the width. -/
def WritesLine (column : Nat) (data : List (BitVec 8)) : Prop :=
  0x0a#8 ∈ data ∨ 0x0d#8 ∈ data ∨ width ≤ column + data.length

/-- **The operation begins a line** in this state. -/
def BeginsLine (t : VGATerminal) : Op → Prop
  | .putc c => WritesLine t.column [c]
  | .putcWith c advance => if advance then WritesLine t.column [c] else c = 0x0a#8 ∨ c = 0x0d#8
  | .write data => WritesLine t.column data
  | .writeString data => WritesLine t.column (data.takeWhile (· != 0#8))
  | .advanceChar => width ≤ t.column + 1
  | .cr => True
  | .crlf => True
  | _ => False

/-- Some event begins a line. -/
def HasLine (evs : List Event) : Prop := ∃ column, Event.line column ∈ evs

theorem hasLine_append {evs evs' : List Event} :
    HasLine (evs ++ evs') ↔ HasLine evs ∨ HasLine evs' := by
  simp only [HasLine, List.mem_append, exists_or]

theorem hasLine_crlf (t : VGATerminal) : HasLine (crlf t).2 :=
  ⟨t.indent, List.mem_append_left _ (List.mem_singleton_self _)⟩

theorem hasLine_cr (t : VGATerminal) : HasLine (cr t).2 := ⟨t.indent, List.mem_singleton_self _⟩

theorem not_hasLine_cell (index : Nat) (entry : BitVec 16) : ¬ HasLine [.cell index entry] := by
  intro h
  obtain ⟨column, h⟩ := h
  cases List.mem_singleton.mp h

theorem not_hasLine_nil : ¬ HasLine [] := fun h => h.elim fun _ hm => absurd hm List.not_mem_nil

/-- `advance_char` begins a line exactly in the last column. -/
theorem advanceChar_line {t : VGATerminal} (h : OnScreen t) :
    (HasLine (advanceChar t).2 ↔ width ≤ t.column + 1) ∧
      (¬ width ≤ t.column + 1 → (advanceChar t).1.column = t.column + 1) := by
  have hcol := h.column
  rw [advanceChar_eq h]
  by_cases hc : t.column + 1 = width
  · rw [if_pos hc]
    exact ⟨iff_of_true (hasLine_crlf _) (le_of_eq hc.symm), fun hn => absurd (le_of_eq hc.symm) hn⟩
  · rw [if_neg hc]
    exact ⟨iff_of_false not_hasLine_nil (by omega), fun _ => rfl⟩

/-- `putc` of a byte that is neither '\n' nor '\r' writes a cell and advances. -/
theorem putc_plain {c : BitVec 8} (hn : c ≠ 0x0a#8) (hr : c ≠ 0x0d#8) (t : VGATerminal) :
    putc t c = andThen (putcAt t c t.color t.column t.row) advanceChar :=
  putcWith_char hn hr t true

theorem putcAt_events (t : VGATerminal) (c color : BitVec 8) (x y : Nat) :
    ¬ HasLine (putcAt t c color x y).2 := not_hasLine_cell _ _

/-- **Which writes begin a line.** -/
theorem write_line {t : VGATerminal} (h : OnScreen t) (data : List (BitVec 8)) :
    HasLine (write t data).2 ↔ WritesLine t.column data := by
  induction data generalizing t with
  | nil =>
      refine iff_of_false not_hasLine_nil ?_
      have hcol := h.column
      simp only [WritesLine, List.not_mem_nil, List.length_nil, false_or]
      omega
  | cons c data ih =>
      show HasLine ((putc t c).2 ++ (write (putc t c).1 data).2) ↔ _
      rw [hasLine_append]
      have hk : OnScreen (putc t c).1 := (putcWith_keeps h c true).inv
      by_cases hn : c = 0x0a#8
      · subst hn
        exact iff_of_true (Or.inl (hasLine_crlf t)) (Or.inl List.mem_cons_self)
      by_cases hr : c = 0x0d#8
      · subst hr
        exact iff_of_true (Or.inl (hasLine_cr t)) (Or.inr (Or.inl List.mem_cons_self))
      -- a plain byte: a line is begun at the width or by the rest of the bytes
      have hadv := advanceChar_line (writeCell_keeps h h.column h.row c).inv
      rw [ih hk]
      rw [putc_plain hn hr] at *
      have hev : HasLine (andThen (putcAt t c t.color t.column t.row) advanceChar).2 ↔
          width ≤ t.column + 1 :=
        hasLine_append.trans ((or_iff_right (putcAt_events _ _ _ _ _)).trans hadv.1)
      rw [hev]
      by_cases hw : width ≤ t.column + 1
      · refine iff_of_true (Or.inl hw) (Or.inr (Or.inr ?_))
        rw [List.length_cons]
        omega
      · have hcol : (andThen (putcAt t c t.color t.column t.row) advanceChar).1.column =
            t.column + 1 := hadv.2 hw
        rw [hcol, or_iff_right hw]
        unfold WritesLine
        rw [List.mem_cons, List.mem_cons, or_iff_right (Ne.symm hn), or_iff_right (Ne.symm hr),
          List.length_cons, Nat.add_assoc, Nat.add_comm 1]

/-- `clear` begins no line. -/
theorem clear_line (t : VGATerminal) : ¬ HasLine (clear t).2 := by
  have hrow : ∀ (t : VGATerminal) (y : Nat) (xs : List Nat),
      ¬ HasLine (each (fun t x => writeCell t (sizeT (y * width + x)) (vgaEntry 0x20#8 t.color))
        t xs).2 := by
    intro t y xs
    induction xs generalizing t with
    | nil => exact not_hasLine_nil
    | cons x xs ih => exact fun h => (hasLine_append.mp h).elim (not_hasLine_cell _ _) (ih _)
  unfold clear
  generalize List.range height = ys
  induction ys generalizing t with
  | nil => exact not_hasLine_nil
  | cons y ys ih => exact fun h => (hasLine_append.mp h).elim (hrow t y _) (ih _)

/-- The bytes to the cursor's ports begin no line. -/
theorem setCursor_line {r c : Nat} {evs : List Event} (h : setCursor r c = .ok evs) :
    ¬ HasLine evs := by
  intro hl
  obtain ⟨column, hmem⟩ := hl
  unfold setCursor at h
  split_ifs at h
  cases h
  simp at hmem

/-- `putc` with or without the advance: without it only the two control bytes begin a line. -/
theorem putcWith_line {t : VGATerminal} (h : OnScreen t) (c : BitVec 8) (advance : Bool) :
    HasLine (putcWith t c advance).2 ↔ BeginsLine t (.putcWith c advance) := by
  cases advance with
  | true =>
      have hw := write_line h [c]
      rwa [show (write t [c]).2 = (putc t c).2 from List.append_nil _] at hw
  | false =>
      show _ ↔ c = 0x0a#8 ∨ c = 0x0d#8
      by_cases hn : c = 0x0a#8
      · rw [hn]
        exact iff_of_true (hasLine_crlf t) (Or.inl rfl)
      by_cases hr : c = 0x0d#8
      · rw [hr]
        exact iff_of_true (hasLine_cr t) (Or.inr rfl)
      · rw [putcWith_char hn hr]
        refine iff_of_false (fun hl => ?_) (not_or.mpr ⟨hn, hr⟩)
        exact (hasLine_append.mp hl).elim (putcAt_events _ _ _ _ _) not_hasLine_nil

/-- **Which operations begin a line**, from the state before them. -/
theorem apply_lines {t : VGATerminal} (h : OnScreen t) {op : Op} {r : Answer}
    (hr : apply t op = .ok r) : HasLine r.2 ↔ BeginsLine t op := by
  cases op with
  | clear =>
      have he : clear t = r := Except.ok.inj hr
      rw [← he]
      exact iff_of_false (clear_line t) id
  | putc c =>
      cases hr
      exact putcWith_line h c true
  | putcWith c advance =>
      cases hr
      exact putcWith_line h c advance
  | write data =>
      cases hr
      exact write_line h data
  | writeString data =>
      cases hr
      exact write_line h _
  | advanceChar =>
      cases hr
      exact (advanceChar_line h).1
  | cr =>
      cases hr
      exact iff_of_true (hasLine_cr t) trivial
  | crlf =>
      cases hr
      exact iff_of_true (hasLine_crlf t) trivial
  | setPos row column =>
      obtain ⟨t', _, rfl⟩ := Exec.map_eq_ok hr
      exact iff_of_false not_hasLine_nil id
  | setCursor row column =>
      obtain ⟨evs, he, rfl⟩ := Exec.map_eq_ok hr
      exact iff_of_false (setCursor_line he) id
  | setCursorToPos =>
      obtain ⟨evs, he, rfl⟩ := Exec.map_eq_ok hr
      exact iff_of_false (setCursor_line he) id
  | setColor color | setColors fg bg | setIndent indent | advanceRow =>
      cases hr
      exact iff_of_false not_hasLine_nil id
  | retreatChar =>
      have he : r.2 = [] := congrArg Prod.snd (Except.ok.inj hr).symm
      rw [he]
      exact iff_of_false not_hasLine_nil id

/-! ## 3. Runs -/

section Runs

variable {buffer : Nat → BitVec 16}

@[simp] theorem latest_nil {α : Type} (f : Op → Option α) (a : α) : latest f a [] = a := rfl

/-- The latest setting after one more operation. -/
theorem latest_snoc {α : Type} (f : Op → Option α) (a : α) (ops : List Op) (op : Op) :
    latest f a (ops ++ [op]) = (f op).getD (latest f a ops) := by
  unfold latest
  rw [List.filterMap_append]
  cases h : f op with
  | none => simp [h]
  | some b => simp [h]

/-- **The operation asks for nothing the terminal does not do**: a colour set is light grey on
    black, and a line is begun only while the indent asked for is 0. -/
def Heeded (t : VGATerminal) (indent : Nat) (op : Op) : Prop :=
  (∀ color, op.colorSet = some color → color = 0x07#8) ∧ (BeginsLine t op → indent = 0)

/-- Every operation of the run is heeded. -/
def AllHeeded (buffer : Nat → BitVec 16) (ops : List Op) : Prop :=
  ∀ pre op t evss, pre ++ [op] <+: ops → termRun (fresh buffer) pre = some (t, evss) →
    Heeded t (latestIndent pre) op

/-- The part of a run before one of its operations is in bounds, and so is the operation. -/
theorem inBounds_before {ops pre : List Op} {op : Op} (hb : ∀ op ∈ ops, op.InBounds)
    (hpre : pre ++ [op] <+: ops) : (∀ op' ∈ pre, op'.InBounds) ∧ op.InBounds := by
  refine ⟨fun op' h => hb op' (hpre.subset (List.mem_append_left _ h)), hb op ?_⟩
  exact hpre.subset (List.mem_append_right _ (List.mem_singleton_self op))

/-- A run that honours its settings asks for nothing else. -/
theorem heeded_of_honours {ops : List Op} (hb : ∀ op ∈ ops, op.InBounds)
    (h : Honours buffer ops) : AllHeeded buffer ops := by
  intro pre op t evss hpre ht
  obtain ⟨hget, hev⟩ := h
  obtain ⟨hbpre, hbop⟩ := inBounds_before hb hpre
  obtain ⟨hon, hset, _⟩ := termRun_settings hbpre ht
  obtain ⟨r, hr, hk⟩ := apply_keeps hon hbop
  refine ⟨fun color hc => ?_, fun hl => ?_⟩
  · -- the colour read after the operation is the one it asked for, and it is 0x07
    have hrun : termRun (fresh buffer) (pre ++ [op]) = some (r.1, evss ++ [r.2]) :=
      Exec.run_append.mpr ⟨t, evss, [r.2], ht, Exec.run_cons.mpr
        ⟨r.1, r.2, [], Exec.toOption_eq_some.mpr hr, rfl, rfl⟩, rfl⟩
    have hg := hget (pre ++ [op]) r.1 _ hpre hrun
    have hcol : getColor r.1 = 0x07#8 := getColor_of_settings (hk.same.trans hset)
    rw [hcol, latestColor, latest_snoc, hc] at hg
    exact hg.symm
  · obtain ⟨column, hmem⟩ := (apply_lines hon hr).mpr hl
    have hcol : column = (settings t).2 := hk.events _ hmem
    rw [hset] at hcol
    rw [← (hev pre op t evss r hpre ht hr).2 column hmem, hcol]

/-- A run whose operations are all heeded asks for no colour but light grey on black. -/
theorem latestColor_of_heeded {ops : List Op} (hb : ∀ op ∈ ops, op.InBounds)
    (hall : AllHeeded buffer ops) {pre : List Op} (hpre : pre <+: ops) :
    latestColor pre = 0x07#8 := by
  induction pre using List.reverseRecOn with
  | nil => rfl
  | append_singleton pre op ih =>
      have hpre' : pre <+: ops := (List.prefix_append pre [op]).trans hpre
      obtain ⟨t, evss, ht, _⟩ := termRun_total (inBounds_before hb hpre).1
      rw [latestColor, latest_snoc]
      cases hc : op.colorSet with
      | none => exact ih hpre'
      | some color => exact (hall pre op t evss hpre ht).1 color hc

/-- A run whose operations are all heeded honours its settings. -/
theorem honours_of_heeded {ops : List Op} (hb : ∀ op ∈ ops, op.InBounds)
    (hall : AllHeeded buffer ops) : Honours buffer ops := by
  refine ⟨fun pre t evss hpre ht => ?_, fun pre op t evss r hpre ht hr => ?_⟩
  · obtain ⟨_, hset, _⟩ := termRun_settings (fun op h => hb op (hpre.subset h)) ht
    rw [latestColor_of_heeded hb hall hpre]
    exact getColor_of_settings hset
  · have hpre' : pre <+: ops := (List.prefix_append pre [op]).trans hpre
    obtain ⟨hbpre, hbop⟩ := inBounds_before hb hpre
    obtain ⟨hon, hset, _⟩ := termRun_settings hbpre ht
    obtain ⟨r', hr', hk⟩ := apply_keeps hon hbop
    rw [hr] at hr'
    cases hr'
    have hevents := hk.events
    rw [hset] at hevents
    refine ⟨fun index entry hmem => ?_, fun column hmem => ?_⟩
    · rw [latestColor_of_heeded hb hall hpre']
      exact (hevents _ hmem).2
    · rw [(hall pre op t evss hpre ht).2 ((apply_lines hon hr).mp ⟨column, hmem⟩)]
      exact hevents _ hmem

/-- **A run honours its settings exactly when every `set_color` asks for light grey on black and
    every line is begun while the indent asked for is 0.** -/
theorem honours_iff (buffer : Nat → BitVec 16) (ops : List Op) (hb : ∀ op ∈ ops, op.InBounds) :
    Honours buffer ops ↔ AllHeeded buffer ops :=
  ⟨heeded_of_honours hb, honours_of_heeded hb⟩

end Runs

/-- A run that sets only the values the terminal has is heeded. -/
theorem allHeeded_of_default {buffer : Nat → BitVec 16} {ops : List Op}
    (hcolor : ∀ op ∈ ops, ∀ color, op.colorSet = some color → color = 0x07#8)
    (hindent : ∀ op ∈ ops, ∀ indent, op.indentSet = some indent → indent = 0) :
    AllHeeded buffer ops := by
  intro pre op t evss hpre _
  have hop : op ∈ ops := hpre.subset (List.mem_append_right _ (List.mem_singleton_self op))
  refine ⟨hcolor op hop, fun _ => ?_⟩
  unfold latestIndent latest
  cases hlast : (pre.filterMap Op.indentSet).getLast? with
  | none => rfl
  | some indent =>
      obtain ⟨op', hop', hset⟩ := List.mem_filterMap.mp (List.mem_of_getLast? hlast)
      exact hindent op' (hpre.subset (List.mem_append_left _ hop')) indent hset

/-- A run of light grey text over two lines honours its settings; for one of green text both sides
    fail. -/
theorem honours_iff_grey :
    Honours (fun _ => 0)
        [.setColors .lightGrey .black, .setIndent 0, .writeString [0x4f#8], .crlf, .putc 0x4b#8] ∧
      (Honours (fun _ => 0) [.setColors .green .black, .writeString [0x4f#8]] ↔
        AllHeeded (fun _ => 0) [.setColors .green .black, .writeString [0x4f#8]]) := by
  constructor
  · refine (honours_iff _ _ ?_).mpr (allHeeded_of_default ?_ ?_)
    · intro op h
      simp only [List.mem_cons, List.not_mem_nil, or_false] at h
      rcases h with rfl | rfl | rfl | rfl | rfl <;> exact trivial
    · intro op h color hset
      simp only [List.mem_cons, List.not_mem_nil, or_false] at h
      rcases h with rfl | rfl | rfl | rfl | rfl
      · exact (Option.some.inj hset).symm
      all_goals cases hset
    · intro op h indent hset
      simp only [List.mem_cons, List.not_mem_nil, or_false] at h
      rcases h with rfl | rfl | rfl | rfl | rfl
      case inr.inl => exact (Option.some.inj hset).symm
      all_goals cases hset
  · refine honours_iff _ _ fun op h => ?_
    simp only [List.mem_cons, List.not_mem_nil, or_false] at h
    rcases h with rfl | rfl <;> exact trivial

/-- After `set_color(green, black)` the colour is still light grey. -/
theorem not_honours_green :
    ¬ Honours (fun _ => 0) [.setColors .green .black, .writeString [0x4f#8]] := by
  intro h
  obtain ⟨hget, _⟩ := h
  have hrun : ∀ t, termRun t [.setColors .green .black] = some (t, [[]]) := fun _ => rfl
  have hg := hget [.setColors .green .black] _ _ ⟨[.writeString [0x4f#8]], rfl⟩ (hrun _)
  rw [getColor_of_settings (new_keeps fun _ => 0).2.1] at hg
  exact absurd hg (by decide)

end OsPlayground.Vga
