/-
  File:      OsPlayground/Vga/Ring.lean
  Subject:   THE SCREEN AS A RING OF CELLS (vga.cpp, `advance_char`, `retreat_char`, `putc`,
             `write`).

  A row and a column with a wrap each are one position on a ring of `WIDTH * HEIGHT` cells
  (`tape`).

  * `advanceChar_position`, `retreatChar_position` -- one step forward or back on the ring;
  * `putc_tape`, `erase_tape` -- a plain byte writes and steps forward, an erased one steps back
    and writes: the terminal refines the ring;
  * `write_ring` -- a text without line breaks lies on the ring, the last writer of each cell
    visible.
-/
import OsPlayground.Library.Ring
import OsPlayground.Vga.Terminal

namespace OsPlayground.Vga

open Logged

/-! ## 1. The position -/

/-- The index of the cell at the position. -/
def position (t : VGATerminal) : Nat := t.row * width + t.column

/-- The cells of the screen. -/
def cellCount : Nat := width * height

theorem position_lt {t : VGATerminal} (h : OnScreen t) : position t < cellCount :=
  (index_lt h.column h.row).2

/-- **The terminal as a tape** bent to a ring. -/
def tape (t : VGATerminal) (h : OnScreen t) : RingTape cellCount (BitVec 16) where
  pos := position t
  inside := position_lt h
  cells := t.buffer

/-- A byte that `putc` writes to a cell. -/
def Plain (c : BitVec 8) : Prop := c ≠ 0x0a#8 ∧ c ≠ 0x0d#8

/-- The blank an erased cell is left with. -/
def blank (t : VGATerminal) : BitVec 16 := vgaEntry 0x20#8 t.color

/-- What the moves of the position leave alone. -/
structure Moved (t t' : VGATerminal) : Prop where
  onScreen : OnScreen t'
  color : t'.color = t.color
  buffer : t'.buffer = t.buffer

/-- **A step forward on the ring**, over the end of a line and of the screen. -/
theorem advanceChar_position {t : VGATerminal} (h : OnScreen t) :
    position (advanceChar t).1 = (position t + 1) % cellCount ∧ Moved t (advanceChar t).1 := by
  have hkeep := advanceChar_keeps h
  have hrow := h.row
  have hcol := h.column
  rw [advanceChar_eq h] at hkeep ⊢
  by_cases hc : t.column + 1 = width
  · -- the line is full: column 0 of the next row
    rw [if_pos hc] at hkeep ⊢
    have hcrlf : (crlf { t with column := t.column + 1 }).1 =
        { t with column := 0, row := if t.row + 1 = height then 0 else t.row + 1 } := by
      have hrow' : ({ t with column := t.indent } : VGATerminal).row < height := hrow
      refine (advanceRow_eq hrow').trans ?_
      rw [h.indent]
    refine ⟨?_, hkeep.inv, by rw [hcrlf], by rw [hcrlf]⟩
    rw [hcrlf]
    show (if t.row + 1 = height then 0 else t.row + 1) * width + 0 =
      (t.row * width + t.column + 1) % cellCount
    unfold cellCount width height at *
    split
    · omega
    · omega
  · rw [if_neg hc] at hkeep ⊢
    refine ⟨?_, hkeep.inv, rfl, rfl⟩
    show t.row * width + (t.column + 1) = (t.row * width + t.column + 1) % cellCount
    unfold cellCount width height at *
    omega

/-- **A step back on the ring**, over the start of a line and of the screen. -/
theorem retreatChar_position {t : VGATerminal} (h : OnScreen t) :
    position (retreatChar t) = (position t + (cellCount - 1)) % cellCount ∧
      Moved t (retreatChar t) := by
  have hkeep := retreatChar_keeps h
  have hrow := h.row
  have hcol := h.column
  rw [retreatChar_eq h] at hkeep ⊢
  by_cases hc : t.column = 0
  · -- at the start of a line: the last column of the row above
    rw [if_pos hc] at hkeep ⊢
    refine ⟨?_, hkeep.inv, rfl, rfl⟩
    show (if t.row = 0 then height - 1 else t.row - 1) * width + (width - 1) =
      (t.row * width + t.column + (cellCount - 1)) % cellCount
    rw [hc]
    unfold cellCount width height at *
    split
    · omega
    · omega
  · rw [if_neg hc] at hkeep ⊢
    refine ⟨?_, hkeep.inv, rfl, rfl⟩
    show t.row * width + (t.column - 1) =
      (t.row * width + t.column + (cellCount - 1)) % cellCount
    unfold cellCount width height at *
    omega

/-! ## 2. The terminal refines the ring -/

/-- The cell `putc` writes is the one at the position. -/
theorem putcAt_cell {t : VGATerminal} (h : OnScreen t) (c : BitVec 8) :
    putcAt t c t.color t.column t.row =
      ({ t with buffer := Function.update t.buffer (position t) (vgaEntry c t.color) },
        [.cell (position t) (vgaEntry c t.color)]) := by
  unfold putcAt
  rw [(index_lt h.column h.row).1]
  rfl

/-- `putc` of a plain byte: the cell at the position, then the step or none. -/
theorem putcWith_plain {c : BitVec 8} (hc : Plain c) {t : VGATerminal} (h : OnScreen t)
    (advance : Bool) :
    putcWith t c advance =
      andThen ({ t with buffer := Function.update t.buffer (position t) (vgaEntry c t.color) },
          [.cell (position t) (vgaEntry c t.color)])
        fun t => if advance then advanceChar t else (t, []) := by
  rw [putcWith_char hc.1 hc.2, putcAt_cell h]

/-- **A plain byte on the ring**: it is written at the position, and the position steps on. -/
theorem putc_tape {c : BitVec 8} (hc : Plain c) {t : VGATerminal} (h : OnScreen t) :
    ∃ h' : OnScreen (putc t c).1,
      tape (putc t c).1 h' = (tape t h).put (vgaEntry c t.color) ∧
        (putc t c).1.color = t.color := by
  have hk : TermKeeps t (putc t c) := putcWith_keeps h c true
  generalize hu : ({ t with buffer := Function.update t.buffer (position t) (vgaEntry c t.color) } :
    VGATerminal) = u
  have hon : OnScreen u := by
    rw [← hu]
    exact ⟨h.row, h.column, h.indent⟩
  have hfst : (putc t c).1 = (advanceChar u).1 := by
    unfold putc
    rw [putcWith_plain hc h, hu]
    rfl
  obtain ⟨hpos, hmoved⟩ := advanceChar_position hon
  refine ⟨hk.inv, ?_, congrArg Prod.fst hk.same⟩
  refine RingTape.ext ?_ ?_
  · show position (putc t c).1 = (position t + 1) % cellCount
    rw [hfst, hpos, ← hu]
    rfl
  · rw [RingTape.put_cells]
    show (putc t c).1.buffer = Function.update t.buffer (position t) (vgaEntry c t.color)
    rw [hfst, hmoved.buffer, ← hu]

/-- **An erased byte on the ring**: the position steps back, and the cell there is blank. -/
theorem erase_tape {t : VGATerminal} (h : OnScreen t) :
    ∃ h' : OnScreen (putcWith (retreatChar t) 0x20#8 false).1,
      tape (putcWith (retreatChar t) 0x20#8 false).1 h' = (tape t h).rub (blank t) ∧
        (putcWith (retreatChar t) 0x20#8 false).1.color = t.color := by
  obtain ⟨hpos, hmoved⟩ := retreatChar_position h
  generalize retreatChar t = u at hpos hmoved ⊢
  have hk := putcWith_keeps hmoved.onScreen 0x20#8 false
  have hplain : Plain 0x20#8 := by
    unfold Plain
    decide
  have hw := putcWith_plain hplain hmoved.onScreen false
  refine ⟨hk.inv, ?_, (congrArg Prod.fst hk.same).trans hmoved.color⟩
  refine RingTape.ext ?_ ?_
  · rw [RingTape.rub_pos]
    show position (putcWith u 0x20#8 false).1 = (position t + (cellCount - 1)) % cellCount
    rw [← hpos, hw]
    rfl
  · have hrub : ((tape t h).rub (blank t)).pos = position u := hpos.symm
    rw [RingTape.rub_cells, hrub]
    show (putcWith u 0x20#8 false).1.buffer = Function.update t.buffer (position u)
      (vgaEntry 0x20#8 t.color)
    rw [hw, ← hmoved.buffer, ← hmoved.color]
    rfl

/-! ## 3. A text on the ring -/

/-- **`write` is a list written on the ring.** -/
theorem write_tape {data : List (BitVec 8)} (hd : ∀ c ∈ data, Plain c) {t : VGATerminal}
    (h : OnScreen t) :
    ∃ h' : OnScreen (write t data).1,
      tape (write t data).1 h' = (tape t h).puts (data.map fun c => vgaEntry c t.color) := by
  induction data generalizing t with
  | nil => exact ⟨h, rfl⟩
  | cons c data ih =>
      obtain ⟨h1, htape, hcolor⟩ := putc_tape (hd c List.mem_cons_self) h
      obtain ⟨h2, hrest⟩ := ih (fun c' hc' => hd c' (List.mem_cons_of_mem c hc')) h1
      rw [htape, hcolor] at hrest
      exact ⟨h2, hrest⟩

/-- **A text laid out on the ring** from the position of `t` over the cells `old`: the position is
    the text's length further on, and each cell holds the last byte of the text that falls on it,
    in the current colour, or what it held before when there is none. -/
structure LaidOut (t : VGATerminal) (old : Nat → BitVec 16) (data : List (BitVec 8))
    (t' : VGATerminal) : Prop where
  inside : t'.row < height ∧ t'.column < width
  position : t'.row * width + t'.column =
    (t.row * width + t.column + data.length) % (width * height)
  cells : ∀ q,
    (∃ i, ∃ h : i < data.length,
        IsGreatest {i | i < data.length ∧
          (t.row * width + t.column + i) % (width * height) = q} i ∧
        t'.buffer q = vgaEntry data[i] t.color) ∨
      ((¬ ∃ i < data.length, (t.row * width + t.column + i) % (width * height) = q) ∧
        t'.buffer q = old q)

section Reached

variable {buffer : Nat → BitVec 16} {ops : List Op} {t : VGATerminal} {evss : List (List Event)}

/-- A terminal reached by operations is on the screen, whatever the buffer holds. -/
theorem reached_onScreen (hb : ∀ op ∈ ops, op.InBounds)
    (ht : termRun (fresh buffer) ops = some (t, evss)) (cells : Nat → BitVec 16) :
    OnScreen { t with buffer := cells } := by
  obtain ⟨hon, _⟩ := termRun_settings hb ht
  exact ⟨hon.row, hon.column, hon.indent⟩

/-- **`write` lays text out as a ring of cells**: from every terminal reached by public
    operations, over every contents of the buffer, for a text of any length without line
    breaks. -/
theorem write_ring (hb : ∀ op ∈ ops, op.InBounds)
    (ht : termRun (fresh buffer) ops = some (t, evss)) (cells : Nat → BitVec 16)
    {data : List (BitVec 8)} (hd : ∀ c ∈ data, Plain c) :
    LaidOut t cells data (write { t with buffer := cells } data).1 := by
  have h0 := reached_onScreen hb ht cells
  obtain ⟨h', htape⟩ := write_tape hd h0
  have hlen : (data.map fun c => vgaEntry c t.color).length = data.length := List.length_map _
  refine ⟨⟨h'.row, h'.column⟩, ?_, fun q => ?_⟩
  · have hpos := RingTape.puts_pos (tape _ h0) (data.map fun c => vgaEntry c t.color)
    rw [hlen, ← htape] at hpos
    exact hpos
  · have hlast := RingTape.puts_last (tape _ h0) (data.map fun c => vgaEntry c t.color) q
    rw [← htape] at hlast
    rcases hlast with ⟨i, hi, hgreatest, hcell⟩ | ⟨hnone, hcell⟩
    · rw [hlen] at hgreatest
      rw [List.getElem_map] at hcell
      exact Or.inl ⟨i, hgreatest.1.1, hgreatest, hcell⟩
    · rw [hlen] at hnone
      exact Or.inr ⟨hnone, hcell⟩

end Reached

/-- A new terminal moved to the last but one cell. -/
def corner : VGATerminal := { fresh (fun _ => 0) with row := 24, column := 78 }

theorem corner_run : termRun (fresh fun _ => 0) [.setPos 24 78] = some (corner, [[]]) := by
  have hrun : ∀ t, termRun t [.setPos 24 78] = some ({ t with row := 24, column := 78 }, [[]]) :=
    fun _ => rfl
  exact hrun _

theorem corner_inBounds : ∀ op ∈ [Op.setPos 24 78], op.InBounds := by
  intro op h
  rw [List.mem_singleton.mp h]
  show 24 < height ∧ 78 < width
  decide

/-- Three bytes from there: over the end of the line and of the screen. -/
theorem write_ring_corner :
    LaidOut corner (fun _ => 0x0758#16) [0x61#8, 0x62#8, 0x63#8]
      (write { corner with buffer := fun _ => 0x0758#16 } [0x61#8, 0x62#8, 0x63#8]).1 :=
  write_ring corner_inBounds corner_run _ (by unfold Plain; decide)

end OsPlayground.Vga
