/-
  File:      OsPlayground/Vga/Terminal.lean
  Subject:   THE VGA TERMINAL (vga.h, vga.cpp).

  `size_t` is 32 bits wide. Every operation answers the new terminal and the events it caused in
  order: the cells it wrote to the buffer, the lines it began and the bytes it sent to ports.

  * `OnScreen` -- the position is inside the screen and the indent is 0;
  * `advanceRow_eq`, `advanceChar_eq`, `retreatChar_eq` -- the moves there, where no `size_t`
    wraps;
  * `apply_keeps` -- every public operation keeps it, keeps colour and indent, writes cells of the
    screen in the terminal's colour and begins lines at the terminal's indent.
-/
import OsPlayground.Library.Exec
import OsPlayground.Library.Logged

namespace OsPlayground.Vga

open Logged

/-! ## 1. Data -/

def width : Nat := 80
def height : Nat := 25

inductive Color where
  | black | blue | green | cyan | red | magenta | brown | lightGrey
  | darkGrey | lightBlue | lightGreen | lightCyan | lightRed | lightMagenta | lightBrown | white
  deriving DecidableEq, Repr

/-- The number of a colour: its place in the enumeration. -/
def Color.val : Color → BitVec 8
  | black => 0 | blue => 1 | green => 2 | cyan => 3 | red => 4 | magenta => 5 | brown => 6
  | lightGrey => 7 | darkGrey => 8 | lightBlue => 9 | lightGreen => 10 | lightCyan => 11
  | lightRed => 12 | lightMagenta => 13 | lightBrown => 14 | white => 15

/-- `VGATerminal`. `buffer` is the page of cells at `VIRT_TERM_BUFFER`. -/
structure VGATerminal where
  row : Nat
  column : Nat
  indent : Nat
  color : BitVec 8
  buffer : Nat → BitVec 16

/-- What an operation does outside the object's own fields, and the start of a line. -/
inductive Event where
  | cell (index : Nat) (entry : BitVec 16)
  | line (column : Nat)
  | port (port : Nat) (val : BitVec 8)
  deriving DecidableEq, Repr

/-- The answer of an operation. -/
abbrev Answer := VGATerminal × List Event

/-- A sum of two `size_t`. -/
def sizeT (n : Nat) : Nat := n % 2 ^ 32

/-- `vga_entry_color`. -/
def vgaEntryColor (fg bg : Color) : BitVec 8 := fg.val ||| (bg.val <<< 4)

/-- `vga_entry`. -/
def vgaEntry (uc color : BitVec 8) : BitVec 16 := uc.setWidth 16 ||| (color.setWidth 16 <<< 8)

/-- The attribute byte of a cell. -/
def cellColor (entry : BitVec 16) : BitVec 8 := (entry >>> 8).setWidth 8

/-! ## 2. Operations -/

/-- `buffer[index] = entry`. -/
def writeCell (t : VGATerminal) (index : Nat) (entry : BitVec 16) : Answer :=
  ({ t with buffer := Function.update t.buffer index entry }, [.cell index entry])

def getColor (t : VGATerminal) : BitVec 8 := t.color

/-- `set_color(uint8_t color) { color = color; }`: the parameter hides the field and is assigned
    to itself. -/
def setColor (t : VGATerminal) (color : BitVec 8) : VGATerminal :=
  let _color := color
  t

/-- `set_color(Color, Color)`. -/
def setColors (t : VGATerminal) (fg bg : Color) : VGATerminal := setColor t (vgaEntryColor fg bg)

/-- `set_indent(size_t indent) { indent = indent; }`: the parameter again. -/
def setIndent (t : VGATerminal) (indent : Nat) : VGATerminal :=
  let _indent := indent
  t

/-- `clear`: a loop over the rows around a loop over the columns. -/
def clear (t : VGATerminal) : Answer :=
  each (fun t y =>
    each (fun t x => writeCell t (sizeT (y * width + x)) (vgaEntry 0x20#8 t.color)) t
      (List.range width)) t (List.range height)

/-- The constructor. -/
def new (buffer : Nat → BitVec 16) : Answer :=
  clear ⟨0, 0, 0, vgaEntryColor .lightGrey .black, buffer⟩

/-- The private `putc`: one cell. -/
def putcAt (t : VGATerminal) (c color : BitVec 8) (x y : Nat) : Answer :=
  writeCell t (sizeT (y * width + x)) (vgaEntry c color)

def advanceRow (t : VGATerminal) : VGATerminal :=
  let row := sizeT (t.row + 1)
  if row = height then { t with row := 0 } else { t with row := row }

def cr (t : VGATerminal) : Answer := ({ t with column := t.indent }, [.line t.indent])

def crlf (t : VGATerminal) : Answer := andThen (cr t) fun t => (advanceRow t, [])

def advanceChar (t : VGATerminal) : Answer :=
  let column := sizeT (t.column + 1)
  if column = width then crlf { t with column := column } else ({ t with column := column }, [])

def retreatChar (t : VGATerminal) : VGATerminal :=
  if t.column = t.indent then
    if t.row = 0 then { t with column := width - 1, row := height - 1 }
    else { t with column := width - 1, row := sizeT (t.row + (2 ^ 32 - 1)) }
  else { t with column := sizeT (t.column + (2 ^ 32 - 1)) }

/-- `set_pos`: its two asserts, or the position. -/
def setPos (t : VGATerminal) (r c : Nat) : Except String VGATerminal :=
  if ¬ r < height then .error "bad pos row coord"
  else if ¬ c < width then .error "bad pos col coord"
  else .ok { t with row := r, column := c }

/-- `set_cursor`: its two asserts, or four bytes to the cursor's ports. -/
def setCursor (r c : Nat) : Except String (List Event) :=
  if ¬ r < height then .error "bad cursor row coord"
  else if ¬ c < width then .error "bad cursor col coord"
  else
    let index := sizeT (r * width + c)
    .ok [.port 0x3d4 0x0f#8, .port 0x3d5 (BitVec.ofNat 8 (index % 256)),
      .port 0x3d4 0x0e#8, .port 0x3d5 (BitVec.ofNat 8 (index / 256 % 256))]

/-- `set_cursor_to_pos`. -/
def setCursorToPos (t : VGATerminal) : Except String (List Event) := setCursor t.row t.column

/-- `putc(char, bool)`. -/
def putcWith (t : VGATerminal) (c : BitVec 8) (advance : Bool) : Answer :=
  if c = 0x0a#8 then crlf t
  else if c = 0x0d#8 then cr t
  else andThen (putcAt t c t.color t.column t.row) fun t => if advance then advanceChar t else (t, [])

/-- `putc(char)`. -/
def putc (t : VGATerminal) (c : BitVec 8) : Answer := putcWith t c true

/-- `write`: `data` is the first `size` bytes. -/
def write (t : VGATerminal) (data : List (BitVec 8)) : Answer := each putc t data

/-- `write_string`: the bytes before the first NUL. -/
def writeString (t : VGATerminal) (data : List (BitVec 8)) : Answer :=
  write t (data.takeWhile (· != 0#8))

/-! ## 3. Runs of public operations -/

/-- The public operations. -/
inductive Op where
  | clear
  | setColor (color : BitVec 8)
  | setColors (fg bg : Color)
  | setIndent (indent : Nat)
  | putc (c : BitVec 8)
  | putcWith (c : BitVec 8) (advance : Bool)
  | write (data : List (BitVec 8))
  | writeString (data : List (BitVec 8))
  | advanceRow
  | advanceChar
  | retreatChar
  | setPos (r c : Nat)
  | setCursor (r c : Nat)
  | setCursorToPos
  | cr
  | crlf

/-- The arguments an operation asserts. -/
def Op.InBounds : Op → Prop
  | .setPos r c => r < height ∧ c < width
  | .setCursor r c => r < height ∧ c < width
  | _ => True

/-- One operation: the answer, or the panic of an assert. -/
def apply (t : VGATerminal) : Op → Except String Answer
  | .clear => .ok (clear t)
  | .setColor color => .ok (setColor t color, [])
  | .setColors fg bg => .ok (setColors t fg bg, [])
  | .setIndent indent => .ok (setIndent t indent, [])
  | .putc c => .ok (putc t c)
  | .putcWith c advance => .ok (putcWith t c advance)
  | .write data => .ok (write t data)
  | .writeString data => .ok (writeString t data)
  | .advanceRow => .ok (advanceRow t, [])
  | .advanceChar => .ok (advanceChar t)
  | .retreatChar => .ok (retreatChar t, [])
  | .setPos r c => (setPos t r c).map fun t => (t, [])
  | .setCursor r c => (setCursor r c).map fun evs => (t, evs)
  | .setCursorToPos => (setCursorToPos t).map fun evs => (t, evs)
  | .cr => .ok (cr t)
  | .crlf => .ok (crlf t)

/-- A run of operations; one list of events an operation. -/
def termRun (t : VGATerminal) (ops : List Op) : Option (VGATerminal × List (List Event)) :=
  Exec.run (fun t op => (apply t op).toOption) t ops

/-- The terminal a constructor leaves. -/
def fresh (buffer : Nat → BitVec 16) : VGATerminal := (new buffer).1

/-! ## 4. What every operation keeps -/

/-- **The position is on the screen.** The indent is 0: no operation sets it. -/
structure OnScreen (t : VGATerminal) : Prop where
  row : t.row < height
  column : t.column < width
  indent : t.indent = 0

/-- The settings a terminal writes with. -/
def settings (t : VGATerminal) : BitVec 8 × Nat := (t.color, t.indent)

theorem getColor_of_settings {t : VGATerminal} {set : BitVec 8 × Nat} (h : settings t = set) :
    getColor t = set.1 := congrArg Prod.fst h

/-- The events of a terminal with these settings: cells of the screen in its colour, lines at
    its indent, bytes to the cursor's ports. -/
def Allowed (set : BitVec 8 × Nat) : Event → Prop
  | .cell index entry => index < width * height ∧ cellColor entry = set.1
  | .line column => column = set.2
  | .port p _ => p = 0x3d4 ∨ p = 0x3d5

/-- The contract of a terminal operation. -/
abbrev TermKeeps : VGATerminal → Answer → Prop := Keeps OnScreen settings Allowed

theorem cellColor_vgaEntry (uc color : BitVec 8) : cellColor (vgaEntry uc color) = color := by
  unfold cellColor vgaEntry
  ext i hi
  simp only [BitVec.getElem_setWidth, BitVec.getLsbD_ushiftRight, BitVec.getLsbD_or,
    BitVec.getLsbD_setWidth, BitVec.getLsbD_shiftLeft]
  -- bit `8 + i` of the cell lies above the character
  simp [show ¬ 8 + i < 8 by omega, show 8 + i < 16 by omega, show i < 16 by omega,
    BitVec.getLsbD_eq_getElem hi]

/-- A cell inside the screen. -/
theorem index_lt {x y : Nat} (hx : x < width) (hy : y < height) :
    sizeT (y * width + x) = y * width + x ∧ y * width + x < width * height := by
  unfold width height sizeT at *
  omega

theorem writeCell_keeps {t : VGATerminal} (h : OnScreen t) {x y : Nat} (hx : x < width)
    (hy : y < height) (uc : BitVec 8) :
    TermKeeps t (writeCell t (sizeT (y * width + x)) (vgaEntry uc t.color)) := by
  obtain ⟨he, hlt⟩ := index_lt hx hy
  refine ⟨⟨h.row, h.column, h.indent⟩, rfl, fun e hmem => ?_⟩
  rw [List.mem_singleton.mp hmem, he]
  exact ⟨hlt, cellColor_vgaEntry uc t.color⟩

/-- An operation that moves the position inside the screen and does nothing else. -/
theorem move_keeps {t : VGATerminal} (h : OnScreen t) {r c : Nat} (hr : r < height)
    (hc : c < width) : TermKeeps t ({ t with row := r, column := c }, []) :=
  ⟨⟨hr, hc, h.indent⟩, rfl, fun _ he => absurd he List.not_mem_nil⟩

theorem height_pos : 0 < height ∧ height - 1 < height := by decide

theorem width_pos : 0 < width ∧ width - 1 < width := by decide

/-- `cr` does not read the column it overwrites. -/
theorem cr_keeps {t : VGATerminal} (h : OnScreen t) (c : Nat) :
    TermKeeps t (cr { t with column := c }) := by
  refine ⟨⟨h.row, ?_, h.indent⟩, rfl, fun e hmem => ?_⟩
  · show t.indent < width
    rw [h.indent]
    exact width_pos.1
  · rw [List.mem_singleton.mp hmem]
    exact Eq.refl t.indent

/-- `advance_row` on the screen, where no sum of `size_t` wraps. -/
theorem advanceRow_eq {t : VGATerminal} (h : t.row < height) :
    advanceRow t = { t with row := if t.row + 1 = height then 0 else t.row + 1 } := by
  have hs : sizeT (t.row + 1) = t.row + 1 := by
    unfold sizeT height at *
    omega
  unfold advanceRow
  rw [hs]
  by_cases hr : t.row + 1 = height
  · rw [if_pos hr, if_pos hr]
  · rw [if_neg hr, if_neg hr]

/-- `advance_char` on the screen. -/
theorem advanceChar_eq {t : VGATerminal} (h : OnScreen t) :
    advanceChar t = if t.column + 1 = width then crlf { t with column := t.column + 1 }
      else ({ t with column := t.column + 1 }, []) := by
  have hcol := h.column
  have hs : sizeT (t.column + 1) = t.column + 1 := by
    unfold sizeT width at *
    omega
  unfold advanceChar
  rw [hs]

/-- `retreat_char` on the screen: no difference wraps, since nothing is taken from 0. -/
theorem retreatChar_eq {t : VGATerminal} (h : OnScreen t) :
    retreatChar t =
      if t.column = 0 then
        { t with column := width - 1, row := if t.row = 0 then height - 1 else t.row - 1 }
      else { t with column := t.column - 1 } := by
  have hrow := h.row
  have hcol := h.column
  unfold retreatChar
  rw [h.indent]
  by_cases hc : t.column = 0
  · rw [if_pos hc, if_pos hc]
    by_cases hr : t.row = 0
    · rw [if_pos hr, if_pos hr]
    · have hs : sizeT (t.row + (2 ^ 32 - 1)) = t.row - 1 := by
        unfold sizeT height at *
        omega
      rw [if_neg hr, if_neg hr, hs]
  · have hs : sizeT (t.column + (2 ^ 32 - 1)) = t.column - 1 := by
      unfold sizeT width at *
      omega
    rw [if_neg hc, if_neg hc, hs]

theorem advanceRow_keeps {t : VGATerminal} (h : OnScreen t) : TermKeeps t (advanceRow t, []) := by
  have hrow := h.row
  rw [advanceRow_eq hrow]
  refine move_keeps h ?_ h.column
  split
  · exact height_pos.1
  · omega

theorem crlf_keeps {t : VGATerminal} (h : OnScreen t) (c : Nat) :
    TermKeeps t (crlf { t with column := c }) :=
  (cr_keeps h c).andThen (advanceRow_keeps (cr_keeps h c).inv)

/-- **Automatic wrap**: the column is tested by equality after the increment. -/
theorem advanceChar_keeps {t : VGATerminal} (h : OnScreen t) : TermKeeps t (advanceChar t) := by
  have hcol := h.column
  rw [advanceChar_eq h]
  by_cases hc : t.column + 1 = width
  · rw [if_pos hc]
    exact crlf_keeps h _
  · rw [if_neg hc]
    exact move_keeps h h.row (by omega)

/-- **Stepping back**: the column is decremented only where it is not 0, since the indent
    is 0. -/
theorem retreatChar_keeps {t : VGATerminal} (h : OnScreen t) :
    TermKeeps t (retreatChar t, []) := by
  have hrow := h.row
  have hcol := h.column
  rw [retreatChar_eq h]
  by_cases hc : t.column = 0
  · rw [if_pos hc]
    refine move_keeps h ?_ width_pos.2
    split
    · exact height_pos.2
    · omega
  · rw [if_neg hc]
    exact move_keeps h h.row (by omega)

/-- `putc` of a byte that is neither '\n' nor '\r': its cell, then the step or none. -/
theorem putcWith_char {c : BitVec 8} (hn : c ≠ 0x0a#8) (hr : c ≠ 0x0d#8) (t : VGATerminal)
    (advance : Bool) :
    putcWith t c advance = andThen (putcAt t c t.color t.column t.row) fun t =>
      if advance then advanceChar t else (t, []) := by
  unfold putcWith
  rw [if_neg hn, if_neg hr]

theorem putcWith_keeps {t : VGATerminal} (h : OnScreen t) (c : BitVec 8) (advance : Bool) :
    TermKeeps t (putcWith t c advance) := by
  by_cases hn : c = 0x0a#8
  · rw [hn]
    exact crlf_keeps h t.column
  by_cases hr : c = 0x0d#8
  · rw [hr]
    exact cr_keeps h t.column
  · rw [putcWith_char hn hr]
    have hw : TermKeeps t (putcAt t c t.color t.column t.row) :=
      writeCell_keeps h h.column h.row c
    refine hw.andThen ?_
    cases advance with
    | true => exact advanceChar_keeps hw.inv
    | false => exact Keeps.refl hw.inv

theorem write_keeps {t : VGATerminal} (h : OnScreen t) (data : List (BitVec 8)) :
    TermKeeps t (write t data) :=
  Keeps.each (fun _ c _ hs => putcWith_keeps hs c true) h

theorem clear_keeps {t : VGATerminal} (h : OnScreen t) : TermKeeps t (clear t) :=
  Keeps.each (fun _ _ hy hs => Keeps.each (fun _ _ hx hs' =>
    writeCell_keeps hs' (List.mem_range.mp hx) (List.mem_range.mp hy) 0x20#8) hs) h

/-! ## 5. The asserted operations -/

theorem setPos_ok (t : VGATerminal) {r c : Nat} (hr : r < height) (hc : c < width) :
    setPos t r c = .ok { t with row := r, column := c } := by
  unfold setPos
  rw [if_neg (not_not.mpr hr), if_neg (not_not.mpr hc)]

/-- The bytes that send an index to the cursor: register 0x0f takes the low byte, 0x0e the
    high one. -/
def cursorBytes (lo hi : BitVec 8) : List Event :=
  [.port 0x3d4 0x0f#8, .port 0x3d5 lo, .port 0x3d4 0x0e#8, .port 0x3d5 hi]

/-- The events end with an index sent to the cursor's ports. -/
def Sends (evs : List Event) (index : Nat) : Prop :=
  ∃ before lo hi, evs = before ++ cursorBytes lo hi ∧ index = hi.toNat * 256 + lo.toNat

/-- Inside the screen the cursor is sent `r * width + c`. -/
theorem setCursor_ok {r c : Nat} (hr : r < height) (hc : c < width) :
    ∃ lo hi, setCursor r c = .ok (cursorBytes lo hi) ∧
      r * width + c = hi.toNat * 256 + lo.toNat := by
  obtain ⟨he, hlt⟩ := index_lt hc hr
  unfold setCursor
  rw [if_neg (not_not.mpr hr), if_neg (not_not.mpr hc)]
  dsimp only
  rw [he]
  refine ⟨_, _, rfl, ?_⟩
  simp only [BitVec.toNat_ofNat]
  unfold width height at *
  omega

theorem setCursor_keeps {t : VGATerminal} (h : OnScreen t) (lo hi : BitVec 8) :
    TermKeeps t (t, cursorBytes lo hi) := by
  refine ⟨h, rfl, fun e he => ?_⟩
  simp only [cursorBytes, List.mem_cons, List.not_mem_nil, or_false] at he
  rcases he with rfl | rfl | rfl | rfl
  · exact Or.inl rfl
  · exact Or.inr rfl
  · exact Or.inl rfl
  · exact Or.inr rfl

/-! ## 6. Runs -/

/-- **Every public operation within its asserts** answers and keeps the contract. -/
theorem apply_keeps {t : VGATerminal} (h : OnScreen t) {op : Op} (hop : op.InBounds) :
    ∃ r, apply t op = .ok r ∧ TermKeeps t r := by
  cases op with
  | clear => exact ⟨_, rfl, clear_keeps h⟩
  | setColor color => exact ⟨_, rfl, Keeps.refl h⟩
  | setColors fg bg => exact ⟨_, rfl, Keeps.refl h⟩
  | setIndent indent => exact ⟨_, rfl, Keeps.refl h⟩
  | putc c => exact ⟨_, rfl, putcWith_keeps h c true⟩
  | putcWith c advance => exact ⟨_, rfl, putcWith_keeps h c advance⟩
  | write data => exact ⟨_, rfl, write_keeps h data⟩
  | writeString data => exact ⟨_, rfl, write_keeps h _⟩
  | advanceRow => exact ⟨_, rfl, advanceRow_keeps h⟩
  | advanceChar => exact ⟨_, rfl, advanceChar_keeps h⟩
  | retreatChar => exact ⟨_, rfl, retreatChar_keeps h⟩
  | setPos r c =>
      refine ⟨_, ?_, move_keeps h hop.1 hop.2⟩
      show (setPos t r c).map _ = _
      rw [setPos_ok t hop.1 hop.2]
      rfl
  | setCursor r c =>
      obtain ⟨lo, hi, he, _⟩ := setCursor_ok hop.1 hop.2
      refine ⟨_, ?_, setCursor_keeps h lo hi⟩
      show (setCursor r c).map _ = _
      rw [he]
      rfl
  | setCursorToPos =>
      obtain ⟨lo, hi, he, _⟩ := setCursor_ok h.row h.column
      refine ⟨_, ?_, setCursor_keeps h lo hi⟩
      show (setCursor t.row t.column).map _ = _
      rw [he]
      rfl
  | cr => exact ⟨_, rfl, cr_keeps h t.column⟩
  | crlf => exact ⟨_, rfl, crlf_keeps h t.column⟩

/-- The constructor leaves a terminal on the screen, light grey on black with indent 0, and its
    events are those of such a terminal. -/
theorem new_keeps (buffer : Nat → BitVec 16) :
    OnScreen (fresh buffer) ∧ settings (fresh buffer) = (0x07#8, 0) ∧
      ∀ e ∈ (new buffer).2, Allowed (0x07#8, 0) e := by
  have h0 : OnScreen ⟨0, 0, 0, vgaEntryColor .lightGrey .black, buffer⟩ :=
    ⟨height_pos.1, width_pos.1, rfl⟩
  have h := clear_keeps h0
  exact ⟨h.inv, h.same, h.events⟩

variable {buffer : Nat → BitVec 16}

/-- **The settings never change**: a run from a new terminal stays on the screen, light grey on
    black and with indent 0, and its events are those of such a terminal. -/
theorem termRun_settings {ops : List Op} {t : VGATerminal} {evss : List (List Event)}
    (hb : ∀ op ∈ ops, op.InBounds) (h : termRun (fresh buffer) ops = some (t, evss)) :
    OnScreen t ∧ settings t = (0x07#8, 0) ∧ ∀ e ∈ evss.flatten, Allowed (0x07#8, 0) e := by
  obtain ⟨h0, hs0, _⟩ := new_keeps buffer
  revert hb
  refine Exec.run_history (fun t ops evss => (∀ op ∈ ops, op.InBounds) → OnScreen t ∧
    settings t = (0x07#8, 0) ∧ ∀ e ∈ evss.flatten, Allowed (0x07#8, 0) e) ?_
    (fun _ => ⟨h0, hs0, fun _ he => absurd he List.not_mem_nil⟩) h
  intro u as evss op u' evs _ ih hstep hb
  obtain ⟨hu, hset, hevs⟩ := ih fun op' h' => hb op' (List.mem_append_left _ h')
  obtain ⟨r, hr, hk⟩ := apply_keeps hu (hb op (List.mem_append_right as (List.mem_singleton_self op)))
  rw [Exec.toOption_eq_some.mp hstep] at hr
  cases hr
  refine ⟨hk.inv, hk.same.trans hset, fun e he => ?_⟩
  rw [List.flatten_append, List.flatten_singleton] at he
  rcases List.mem_append.mp he with he | he
  · exact hevs e he
  · exact hset ▸ hk.events e he

/-- Runs of operations within their asserts are answered. -/
theorem termRun_total {ops : List Op} (hb : ∀ op ∈ ops, op.InBounds) :
    ∃ t evss, termRun (fresh buffer) ops = some (t, evss) ∧ OnScreen t := by
  refine Exec.run_total OnScreen Op.InBounds (fun t op ht hop => ?_) (new_keeps buffer).1 hb
  obtain ⟨⟨t', evs⟩, hr, hk⟩ := apply_keeps ht hop
  exact ⟨t', evs, Exec.toOption_eq_some.mpr hr, hk.inv⟩

end OsPlayground.Vga
