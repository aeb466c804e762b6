/-
  File:      OsPlayground/Vga/Display.lean
  Subject:   THE DISPLAY BEHIND THE TERMINAL: the text buffer and the two cursor registers of the
             CRT controller, driven by what the shell writes.

  The cursor's place is in registers 0x0e and 0x0f of the controller, reached through an index
  port and a data port; what a data byte does depends on the index sent before it.

  * `replays_putcWith`, `replays_write` -- the cells an operation writes are all it changes in
    the buffer;
  * `takes_cursor` -- the four bytes of `set_cursor` put the cursor at the index sent, whatever
    register was selected before;
  * `shellNew_shows` -- the shell starts with the display showing its terminal;
  * `consoleStep_shows` -- so after every byte from the keyboard the display shows the shell's
    terminal, with the cursor at its position.
-/
import OsPlayground.Vga.Ring
import OsPlayground.Vga.Shell

namespace OsPlayground.Vga

open Logged Keyboard

/-! ## 1. The display -/

/-- The text buffer, the register selected and the two cursor registers. -/
structure Display where
  cells : Nat → BitVec 16
  selected : BitVec 8
  cursorHigh : BitVec 8
  cursorLow : BitVec 8

namespace Display

/-- What the display makes of an event. -/
def take (d : Display) : Event → Display
  | .cell index entry => { d with cells := Function.update d.cells index entry }
  | .line _ => d
  | .port p val =>
    if p = 0x3d4 then { d with selected := val }
    else if p = 0x3d5 then
      if d.selected = 0x0e#8 then { d with cursorHigh := val }
      else if d.selected = 0x0f#8 then { d with cursorLow := val }
      else d
    else d

/-- The events in order. -/
def takes (d : Display) (evs : List Event) : Display := evs.foldl take d

/-- The cell the cursor is on. -/
def cursor (d : Display) : Nat := d.cursorHigh.toNat * 256 + d.cursorLow.toNat

@[simp] theorem takes_nil (d : Display) : d.takes [] = d := rfl

@[simp] theorem takes_append (d : Display) (evs evs' : List Event) :
    d.takes (evs ++ evs') = (d.takes evs).takes evs' := List.foldl_append

/-- The bytes for the cursor write no cell. -/
@[simp] theorem takes_cursorBytes (d : Display) (lo hi : BitVec 8) :
    d.takes (cursorBytes lo hi) =
      { d with selected := 0x0e#8, cursorHigh := hi, cursorLow := lo } := by
  simp [takes, cursorBytes, take]

/-- **The cursor is where it was sent**, whatever was selected before. -/
theorem takes_cursor (d : Display) {evs : List Event} {index : Nat} (h : Sends evs index) :
    (d.takes evs).cursor = index := by
  obtain ⟨before, lo, hi, rfl, rfl⟩ := h
  rw [takes_append, takes_cursorBytes]
  rfl

end Display

/-- **The display shows the terminal**: its cells, and the cursor at its position. -/
structure Shows (d : Display) (t : VGATerminal) : Prop where
  cells : d.cells = t.buffer
  cursor : d.cursor = position t

/-! ## 2. Cells -/

/-- **The cells written are all that changes in the buffer.** -/
def Replays (t : VGATerminal) (r : Answer) : Prop :=
  ∀ d : Display, d.cells = t.buffer → (d.takes r.2).cells = r.1.buffer

theorem Replays.andThen {t : VGATerminal} {r : Answer} {f : VGATerminal → Answer}
    (hr : Replays t r) (hf : Replays r.1 (f r.1)) : Replays t (andThen r f) := by
  intro d hd
  rw [andThen_snd, Display.takes_append, andThen_fst]
  exact hf _ (hr d hd)

theorem Replays.each {α : Type} {f : VGATerminal → α → Answer} (hf : ∀ t a, Replays t (f t a))
    (t : VGATerminal) (as : List α) : Replays t (each f t as) := by
  induction as generalizing t with
  | nil => exact fun d hd => hd
  | cons a as ih => exact (hf t a).andThen (ih _)

/-- An operation that writes no cell and keeps the buffer. -/
theorem replays_move {t t' : VGATerminal} (h : t'.buffer = t.buffer) : Replays t (t', []) :=
  fun _ hd => hd.trans h.symm

theorem replays_writeCell (t : VGATerminal) (index : Nat) (entry : BitVec 16) :
    Replays t (writeCell t index entry) := by
  intro d hd
  show Function.update d.cells index entry = Function.update t.buffer index entry
  rw [hd]

theorem advanceRow_buffer (t : VGATerminal) : (advanceRow t).buffer = t.buffer := by
  unfold advanceRow
  dsimp only
  split <;> rfl

theorem retreatChar_buffer (t : VGATerminal) : (retreatChar t).buffer = t.buffer := by
  unfold retreatChar
  split_ifs <;> rfl

theorem replays_cr (t : VGATerminal) : Replays t (cr t) := fun _ hd => hd

theorem replays_crlf (t : VGATerminal) : Replays t (crlf t) :=
  (replays_cr t).andThen (replays_move (advanceRow_buffer _))

theorem replays_advanceChar (t : VGATerminal) : Replays t (advanceChar t) := by
  unfold advanceChar
  dsimp only
  split
  · exact replays_crlf _
  · exact replays_move rfl

theorem replays_putcWith (t : VGATerminal) (c : BitVec 8) (advance : Bool) :
    Replays t (putcWith t c advance) := by
  unfold putcWith
  split
  · exact replays_crlf t
  split
  · exact replays_cr t
  · refine (replays_writeCell t _ _).andThen ?_
    cases advance with
    | true => exact replays_advanceChar _
    | false => exact replays_move rfl

theorem replays_write (t : VGATerminal) (data : List (BitVec 8)) : Replays t (write t data) :=
  Replays.each (fun t c => replays_putcWith t c true) t data

theorem replays_clear (t : VGATerminal) : Replays t (clear t) :=
  Replays.each (fun t _ => Replays.each (fun t _ => replays_writeCell t _ _) t _) t _

/-! ## 3. The shell -/

/-- The bytes for the cursor write no cell. -/
theorem replays_cursor {u : VGATerminal} {evs : List Event} (h : setCursorToPos u = .ok evs)
    (t : VGATerminal) : Replays t (t, evs) := by
  intro d hd
  unfold setCursorToPos setCursor at h
  split_ifs at h
  cases h
  exact hd

/-- **A key**: the cells it writes are those the terminal's buffer changes in. -/
theorem replays_keyDown {t : VGATerminal} {code : Nat} {modState : BitVec 8} {r : Answer}
    (h : keyDown t code modState = .ok r) : Replays t r := by
  unfold keyDown at h
  split at h
  · cases h
  · dsimp only at h
    obtain ⟨evs, hevs, rfl⟩ := Exec.map_eq_ok h
    refine Replays.andThen (f := fun t' => (t', evs)) ?_ (replays_cursor hevs _)
    split_ifs
    · exact (replays_move (retreatChar_buffer t)).andThen
        (f := fun t => putcWith t 0x20#8 false) (replays_putcWith _ _ _)
    · exact replays_move rfl
    · exact replays_move rfl
    · exact replays_putcWith t _ true
    · exact replays_move rfl

/-- A text written in two parts. -/
theorem write_append (t : VGATerminal) (data data' : List (BitVec 8)) :
    write t (data ++ data') = andThen (write t data) fun t => write t data' := by
  unfold write
  induction data generalizing t with
  | nil =>
      rw [List.nil_append, each_nil]
      unfold andThen
      rw [List.nil_append]
  | cons c data ih =>
      rw [List.cons_append, each_cons, each_cons, andThen_assoc]
      exact congrArg (andThen (putc t c)) (funext fun t' => ih t')

/-- A loop of operations that do not move the position. -/
theorem each_position {α : Type} {f : VGATerminal → α → Answer}
    (hf : ∀ t a, position (f t a).1 = position t) (t : VGATerminal) (as : List α) :
    position (each f t as).1 = position t := by
  induction as generalizing t with
  | nil => rfl
  | cons a as ih =>
      rw [each_cons, andThen_fst, ih, hf]

theorem writeCell_position (t : VGATerminal) (index : Nat) (entry : BitVec 16) :
    position (writeCell t index entry).1 = position t := rfl

/-- `clear` does not move the position. -/
theorem clear_position (t : VGATerminal) : position (clear t).1 = position t := by
  unfold clear
  refine each_position (fun t y => ?_) t _
  exact each_position (fun t x => writeCell_position t _ _) t _

/-- The line the shell starts with. -/
def welcomeLine : List (BitVec 8) := welcome.dropLast

theorem welcome_eq : welcome.takeWhile (· != 0#8) = welcomeLine ++ [0x0a#8] := by decide

theorem welcomeLine_plain : ∀ c ∈ welcomeLine, Plain c := by
  unfold Plain
  decide

/-- **The shell's first line** ends on the second row. -/
theorem shellScreen_position {t : VGATerminal} (h : OnScreen t) (h0 : position t = 0) :
    position (shellScreen t).1 = 80 := by
  have hclear := clear_keeps h
  have hpos : position (clear t).1 = 0 := (clear_position t).trans h0
  have hrun : (shellScreen t).1 = (putc (write (clear t).1 welcomeLine).1 0x0a#8).1 := by
    unfold shellScreen writeString setColors setColor
    rw [andThen_fst, welcome_eq, write_append, andThen_fst]
    generalize (write (clear t).1 welcomeLine).1 = u
    unfold write
    rw [each_cons, andThen_fst, each_nil]
  obtain ⟨hon, htape⟩ := write_tape welcomeLine_plain hclear.inv
  have hend : position (write (clear t).1 welcomeLine).1 = 40 := by
    have hputs := RingTape.puts_pos (tape (clear t).1 hclear.inv)
      (welcomeLine.map fun c => vgaEntry c (clear t).1.color)
    rw [← htape] at hputs
    have hlen : welcomeLine.length = 40 := by decide
    rw [List.length_map, hlen] at hputs
    have hstart : (tape (clear t).1 hclear.inv).pos = 0 := hpos
    rw [hstart] at hputs
    exact hputs
  rw [hrun]
  generalize (write (clear t).1 welcomeLine).1 = u at hon hend ⊢
  have hrow := hon.row
  have hcol := hon.column
  have hrow0 : u.row = 0 := by
    unfold position width at *
    omega
  -- the line break: column 0 of the next row
  have hcrlf : (putc u 0x0a#8).1 = { u with column := 0, row := 1 } := by
    have hr : ({ u with column := u.indent } : VGATerminal).row < height := hrow
    refine (advanceRow_eq hr).trans ?_
    dsimp only
    rw [hon.indent, hrow0]
    rfl
  rw [hcrlf]
  rfl

/-- **The shell's constructor** leaves a terminal on the screen that the display shows, from every
    terminal the display's cells are those of. -/
theorem shellNew_shows {t sh : VGATerminal} {evs : List Event} (h : OnScreen t)
    (hnew : shellNew t = .ok (sh, evs)) {d : Display} (hd : d.cells = t.buffer) :
    OnScreen sh ∧ Shows (d.takes evs) sh := by
  have hon : OnScreen { t with row := 0, column := 0 } := ⟨height_pos.1, width_pos.1, h.indent⟩
  obtain ⟨lo, hi, hcur, hindex⟩ := setCursor_ok (r := 1) (c := 0) (by decide) width_pos.1
  have hset : setPos t 0 0 = .ok { t with row := 0, column := 0 } :=
    setPos_ok t height_pos.1 width_pos.1
  have hkeeps := shellScreen_keeps hon
  have hpos := shellScreen_position hon rfl
  have hreplays : Replays { t with row := 0, column := 0 }
      (shellScreen { t with row := 0, column := 0 }) :=
    (replays_clear _).andThen (replays_write _ _)
  unfold shellNew at hnew
  rw [hset, hcur] at hnew
  dsimp only at hnew
  generalize shellScreen { t with row := 0, column := 0 } = q at hkeeps hpos hreplays hnew
  cases hnew
  refine ⟨hkeeps.inv, ?_, ?_⟩
  · rw [Display.takes_append, Display.takes_cursorBytes]
    exact hreplays d hd
  · rw [d.takes_cursor ⟨_, lo, hi, rfl, hindex⟩, hpos]
    rfl

/-- The events of a list of answers. -/
def answerEvents (rs : List Answer) : List Event := rs.flatMap fun r => r.2

/-- **The calls of one byte**: the display goes on showing the terminal. -/
theorem deliver_shows {t t' : VGATerminal} {evs : List KeyEvent} {rs : List Answer}
    (hd : deliver t evs = .ok (t', rs)) (hdone : ∀ r ∈ rs, KeyDone r) {d : Display}
    (h : Shows d t) : Shows (d.takes (answerEvents rs)) t' := by
  induction evs generalizing t rs d with
  | nil =>
      cases hd
      exact h
  | cons ev evs ih =>
      unfold deliver at hd
      by_cases hmake : ev.make = true
      · rw [if_pos hmake] at hd
        cases hkey : keyDown t ev.code ev.modState with
        | error e =>
            rw [hkey] at hd
            cases hd
        | ok r =>
            rw [hkey] at hd
            dsimp only at hd
            obtain ⟨q, hq, he⟩ := Exec.map_eq_ok hd
            cases he
            have hr := hdone r List.mem_cons_self
            have hshow : Shows (d.takes r.2) r.1 :=
              ⟨replays_keyDown hkey d h.cells, d.takes_cursor hr.cursor⟩
            show Shows (d.takes (r.2 ++ answerEvents q.2)) q.1
            rw [Display.takes_append]
            exact ih hq (fun r' hr' => hdone r' (List.mem_cons_of_mem _ hr')) hshow
      · rw [if_neg hmake] at hd
        exact ih hd hdone h

/-- **One byte from the keyboard**: it is decoded without a panic, and the display shows the
    terminal it leaves. -/
theorem consoleStep_shows {s : Console} (h : ConsoleOk s) (c : BitVec 8) {d : Display}
    (hd : Shows d s.term) :
    ∃ s' rs, consoleStep s c = .ok (s', rs) ∧ ConsoleOk s' ∧
      Shows (d.takes (answerEvents rs)) s'.term := by
  obtain ⟨s', rs, hstep, hok, hdone⟩ := consoleStep_done h c
  refine ⟨s', rs, hstep, hok, ?_⟩
  unfold consoleStep at hstep
  cases hk : handleScanCode s.keyboard c with
  | error e =>
      rw [hk] at hstep
      cases hstep
  | ok r =>
      rw [hk] at hstep
      dsimp only at hstep
      obtain ⟨q, hq, he⟩ := Exec.map_eq_ok hstep
      cases he
      exact deliver_shows hq hdone hd

end OsPlayground.Vga
