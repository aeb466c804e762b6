/-
  File:      OsPlayground/Vga/Shell.lean
  Subject:   THE SHELL (shell.h, shell.cpp) and its key map, chained to the keyboard: bytes from
             the keyboard to cells on the screen.

  * `toAscii_some` -- the tables have an entry for every code the decoder reports;
  * `keyDown_done` -- a key keeps the shell's terminal on the screen and ends by sending its
    position to the cursor;
  * `screen_safe` -- every run of terminal operations, then of keyboard bytes, stays on the
    screen and never panics.
-/
import OsPlayground.Keyboard.Tracking
import OsPlayground.Vga.Terminal

namespace OsPlayground.Vga

open Logged Keyboard

/-! ## 1. The key map -/

/-- The bytes of a text. -/
def ascii (cs : List Char) : List (BitVec 8) := cs.map fun c => BitVec.ofNat 8 c.toNat

/-- An array of `_last + 1` characters: the ones written out, the others 0. -/
def asciiTable (cs : List Char) : List (BitVec 8) :=
  ascii cs ++ List.replicate (KeyCode.last + 1 - cs.length) 0#8

/-- No character. -/
def nul : Char := '\x00'

/-- `us_lower_ascii_table`. -/
def usLowerAsciiTable : List (BitVec 8) := asciiTable
  [nul, nul, '1', '2', '3', '4', '5', '6', '7', '8', '9', '0', '-', '=', nul, '\t',
    'q', 'w', 'e', 'r', 't', 'y', 'u', 'i', 'o', 'p', '[', ']', '\n', nul,
    'a', 's', 'd', 'f', 'g', 'h', 'j', 'k', 'l', ';', '\x27', '\x60', nul, '\x5c',
    'z', 'x', 'c', 'v', 'b', 'n', 'm', ',', '.', '/',
    nul, '*', nul, ' ', nul, nul, nul, nul, nul, nul, nul, nul, nul, nul, nul, nul, nul,
    '7', '8', '9', '-', '4', '5', '6', '+', '1', '2', '3', '0', '.',
    nul, nul, nul]

/-- `us_upper_ascii_table`. -/
def usUpperAsciiTable : List (BitVec 8) := asciiTable
  [nul, nul, '!', '@', '#', '$', '%', '^', '&', '*', '(', ')', '_', '+', nul, '\t',
    'Q', 'W', 'E', 'R', 'T', 'Y', 'U', 'I', 'O', 'P', '\x7b', '\x7d', '\n', nul,
    'A', 'S', 'D', 'F', 'G', 'H', 'J', 'K', 'L', ':', '\x22', '~', nul, '|',
    'Z', 'X', 'C', 'V', 'B', 'N', 'M', '<', '>', '?',
    nul, '*', nul, ' ', nul, nul, nul, nul, nul, nul, nul, nul, nul, nul, nul, nul, nul,
    '7', '8', '9', '-', '4', '5', '6', '+', '1', '2', '3', '0', '.',
    nul, nul, nul]

/-- A bit of `mod_state` as the key map and the shell test it. -/
def modSet (modState : BitVec 8) (bit : Nat) : Bool := ((modState >>> bit) &&& 1#8) != 0#8

/-- `USKeyMap::to_ascii`; `none` for a code past the table. -/
def toAscii (code : Nat) (modState : BitVec 8) : Option (BitVec 8) :=
  if modSet modState ModifierBit.shift then usUpperAsciiTable[code]? else usLowerAsciiTable[code]?

/-! ## 2. The shell -/

/-- What is written when the shell starts. -/
def welcome : List (BitVec 8) := ascii
  ['~', '~', ' ', 'W', 'e', 'l', 'c', 'o', 'm', 'e', ' ', 't', 'o', ' ', 's', 'h', 'e', 'l', 'l',
    ' ', '(', 't', 'y', 'p', 'e', ' ', 's', 'o', 'm', 'e', ' ', 's', 't', 'u', 'f', 'f', ')', ' ',
    '~', '~', '\n']

/-- What the constructor draws. -/
def shellScreen (t : VGATerminal) : Answer :=
  andThen (clear t) fun t => writeString (setColors t .lightGrey .black) welcome

/-- `Shell::Shell`: works on a copy of the terminal given. -/
def shellNew (term : VGATerminal) : Except String Answer :=
  match setPos term 0 0 with
  | .error e => .error e
  | .ok t => (setCursor 1 0).map fun evs => ((shellScreen t).1, (shellScreen t).2 ++ evs)

/-- `Shell::key_down` on the shell's terminal. A read past the key map's table has no value in
    the language and ends the model's run. -/
def keyDown (t : VGATerminal) (code : Nat) (modState : BitVec 8) : Except String Answer :=
  match toAscii code modState with
  | none => .error "read past the key map's table"
  | some c =>
    let r :=
      if code = KeyCode.backspace then putcWith (retreatChar t) 0x20#8 false
      else if modSet modState ModifierBit.ctrl then (t, [])
      else if modSet modState ModifierBit.alt then (t, [])
      else if c ≠ 0#8 then putc t c
      else (t, [])
    (setCursorToPos r.1).map fun evs => (r.1, r.2 ++ evs)

/-! ## 3. The keyboard and the shell together -/

/-- A keyboard and the terminal of the shell subscribed to it. -/
structure Console where
  keyboard : KeyboardState
  term : VGATerminal

/-- The calls on the shell, in order: `key_up` does nothing. The answers of the `key_down`. -/
def deliver (t : VGATerminal) : List KeyEvent → Except String (VGATerminal × List Answer)
  | [] => .ok (t, [])
  | ev :: evs =>
    if ev.make then
      match keyDown t ev.code ev.modState with
      | .error e => .error e
      | .ok r => (deliver r.1 evs).map fun q => (q.1, r :: q.2)
    else deliver t evs

/-- `handle_scan_code` with the shell subscribed. -/
def consoleStep (s : Console) (c : BitVec 8) : Except String (Console × List Answer) :=
  match handleScanCode s.keyboard c with
  | .error e => .error e
  | .ok (k, evs) => (deliver s.term (calls k evs)).map fun q => (⟨k, q.1⟩, q.2)

/-- A stream of bytes; the answers of the `key_down` calls, one list a byte. -/
def consoleRun (s : Console) (cs : List (BitVec 8)) : Option (Console × List (List Answer)) :=
  Exec.run (fun s c => (consoleStep s c).toOption) s cs

/-! ## 4. One key -/

theorem asciiTable_length {cs : List Char} (h : cs.length ≤ KeyCode.last + 1) :
    (asciiTable cs).length = KeyCode.last + 1 := by
  unfold asciiTable ascii
  rw [List.length_append, List.length_map, List.length_replicate]
  omega

/-- **Every code up to the last one has an entry.** -/
theorem toAscii_some {code : Nat} (h : code ≤ KeyCode.last) (modState : BitVec 8) :
    ∃ c, toAscii code modState = some c := by
  have hl : code < usLowerAsciiTable.length := by
    unfold usLowerAsciiTable
    rw [asciiTable_length (by decide)]
    exact Nat.lt_succ_of_le h
  have hu : code < usUpperAsciiTable.length := by
    unfold usUpperAsciiTable
    rw [asciiTable_length (by decide)]
    exact Nat.lt_succ_of_le h
  unfold toAscii
  cases modSet modState ModifierBit.shift with
  | true => exact ⟨_, List.getElem?_eq_getElem hu⟩
  | false => exact ⟨_, List.getElem?_eq_getElem hl⟩

/-- What a call of the shell leaves: a terminal on the screen, cells of the screen written, and
    the terminal's position sent to the cursor. -/
structure KeyDone (r : Answer) : Prop where
  onScreen : OnScreen r.1
  cells : ∀ index entry, Event.cell index entry ∈ r.2 → index < width * height
  cursor : Sends r.2 (r.1.row * width + r.1.column)

/-- An operation followed by the move of the cursor to its terminal's position. -/
theorem cursor_done {t : VGATerminal} {r : Answer} (h : TermKeeps t r) :
    ∃ q, ((setCursorToPos r.1).map fun evs => (r.1, r.2 ++ evs)) = .ok q ∧ KeyDone q := by
  obtain ⟨lo, hi, he, hindex⟩ := setCursor_ok h.inv.row h.inv.column
  refine ⟨(r.1, r.2 ++ cursorBytes lo hi), ?_, h.inv, fun index entry hmem => ?_,
    r.2, lo, hi, rfl, hindex⟩
  · unfold setCursorToPos
    rw [he]
    rfl
  · rcases List.mem_append.mp hmem with hmem | hmem
    · exact (h.events _ hmem).1
    · exact absurd hmem (by simp [cursorBytes])

/-- **A key**: the asserts of `set_cursor` hold, and the terminal's position is sent. -/
theorem keyDown_done {t : VGATerminal} (h : OnScreen t) {code : Nat} (hc : code ≤ KeyCode.last)
    (modState : BitVec 8) : ∃ r, keyDown t code modState = .ok r ∧ KeyDone r := by
  obtain ⟨c, hascii⟩ := toAscii_some hc modState
  unfold keyDown
  rw [hascii]
  dsimp only
  refine cursor_done (t := t) ?_
  by_cases hb : code = KeyCode.backspace
  · rw [if_pos hb]
    have hr := retreatChar_keeps h
    exact hr.andThen (f := fun t => putcWith t 0x20#8 false) (putcWith_keeps hr.inv 0x20#8 false)
  by_cases hctrl : modSet modState ModifierBit.ctrl = true
  · rw [if_neg hb, if_pos hctrl]
    exact Keeps.refl h
  by_cases halt : modSet modState ModifierBit.alt = true
  · rw [if_neg hb, if_neg hctrl, if_pos halt]
    exact Keeps.refl h
  by_cases hz : c ≠ 0#8
  · rw [if_neg hb, if_neg hctrl, if_neg halt, if_pos hz]
    exact putcWith_keeps h c true
  · rw [if_neg hb, if_neg hctrl, if_neg halt, if_neg hz]
    exact Keeps.refl h

theorem shellScreen_keeps {t : VGATerminal} (h : OnScreen t) : TermKeeps t (shellScreen t) := by
  have hclear := clear_keeps h
  exact hclear.andThen (f := fun t => writeString (setColors t .lightGrey .black) welcome)
    (write_keeps hclear.inv _)

/-- **The shell starts** on every terminal on the screen, and stays on it. -/
theorem shellNew_keeps {t : VGATerminal} (h : OnScreen t) :
    ∃ r, shellNew t = .ok r ∧ TermKeeps t r := by
  obtain ⟨u, hu⟩ : ∃ u, setPos t 0 0 = .ok u ∧ TermKeeps t (u, []) :=
    ⟨_, setPos_ok t height_pos.1 width_pos.1, move_keeps h height_pos.1 width_pos.1⟩
  obtain ⟨lo, hi, he, _⟩ := setCursor_ok (r := 1) (c := 0) (by decide) width_pos.1
  have hscreen := shellScreen_keeps hu.2.inv
  unfold shellNew
  rw [hu.1, he]
  dsimp only at hscreen ⊢
  generalize shellScreen u = q at hscreen
  have hboth := hscreen.andThen (f := fun t => (t, cursorBytes lo hi))
    (setCursor_keeps hscreen.inv lo hi)
  exact ⟨_, rfl, hboth.of_same hu.2.same⟩

/-! ## 5. Streams of bytes -/

/-- A live keyboard and a terminal on the screen. -/
def ConsoleOk (s : Console) : Prop := Live s.keyboard ∧ OnScreen s.term

/-- The events of one byte carry accepted codes. -/
theorem handleScanCode_codes {s : KeyboardState} (hs : Live s) (c : BitVec 8) :
    ∃ k evs, handleScanCode s c = .ok (k, evs) ∧ Live k ∧ ∀ ev ∈ evs, ev.code ≤ KeyCode.last := by
  rcases handleScanCode_cases hs c with ⟨st, hst, _, _, h⟩ | ⟨code, make, _, _, hc, _, h⟩
  · exact ⟨_, _, h, hst, fun _ he => absurd he List.not_mem_nil⟩
  · refine ⟨_, _, h, Or.inl rfl, fun ev he => ?_⟩
    rw [List.mem_singleton.mp he, (keyUpdateState_event s code make).1]
    exact hc

/-- The calls for events with accepted codes are all answered. -/
theorem deliver_done {t : VGATerminal} (h : OnScreen t) {evs : List KeyEvent}
    (hc : ∀ ev ∈ evs, ev.code ≤ KeyCode.last) :
    ∃ t' rs, deliver t evs = .ok (t', rs) ∧ OnScreen t' ∧ ∀ r ∈ rs, KeyDone r := by
  induction evs generalizing t with
  | nil => exact ⟨t, [], rfl, h, fun _ hr => absurd hr List.not_mem_nil⟩
  | cons ev evs ih =>
      have hc' : ∀ ev' ∈ evs, ev'.code ≤ KeyCode.last := fun ev' h' =>
        hc ev' (List.mem_cons_of_mem _ h')
      unfold deliver
      cases ev.make with
      | false => exact ih h hc'
      | true =>
          obtain ⟨r, hr, hdone⟩ := keyDown_done h (hc ev List.mem_cons_self) ev.modState
          obtain ⟨t', rs, hd, ht', hrs⟩ := ih hdone.onScreen hc'
          refine ⟨t', r :: rs, ?_, ht', fun q hq => ?_⟩
          · rw [if_pos rfl, hr]
            dsimp only
            rw [hd]
            rfl
          · rcases List.mem_cons.mp hq with rfl | hq
            · exact hdone
            · exact hrs q hq

/-- **One byte**: no panic, and every `key_down` it makes is done. -/
theorem consoleStep_done {s : Console} (h : ConsoleOk s) (c : BitVec 8) :
    ∃ s' rs, consoleStep s c = .ok (s', rs) ∧ ConsoleOk s' ∧ ∀ r ∈ rs, KeyDone r := by
  obtain ⟨k, evs, hk, hlive, hcodes⟩ := handleScanCode_codes h.1 c
  have hcalls : ∀ ev ∈ calls k evs, ev.code ≤ KeyCode.last := by
    intro ev hev
    unfold calls at hev
    split at hev
    · exact hcodes ev hev
    · exact absurd hev List.not_mem_nil
  obtain ⟨t, rs, hd, ht, hrs⟩ := deliver_done h.2 hcalls
  refine ⟨⟨k, t⟩, rs, ?_, ⟨hlive, ht⟩, hrs⟩
  unfold consoleStep
  rw [hk]
  dsimp only
  rw [hd]
  rfl

/-- **Every stream is answered**: no byte panics, and every `key_down` of the stream is done. -/
theorem consoleRun_done {s : Console} (h : ConsoleOk s) (cs : List (BitVec 8)) :
    ∃ s' rss, consoleRun s cs = some (s', rss) ∧ ConsoleOk s' ∧ ∀ r ∈ rss.flatten, KeyDone r := by
  have htotal : ∃ s' rss, consoleRun s cs = some (s', rss) ∧ ConsoleOk s' :=
    Exec.run_total ConsoleOk (fun _ => True) (fun s c hs _ => by
      obtain ⟨s', rs, hstep, hs', _⟩ := consoleStep_done hs c
      exact ⟨s', rs, Exec.toOption_eq_some.mpr hstep, hs'⟩) h fun _ _ => trivial
  obtain ⟨s', rss, hrun, hs'⟩ := htotal
  refine ⟨s', rss, hrun, hs', fun r hr => ?_⟩
  have hall := Exec.run_forall₂ ConsoleOk (fun _ rs => ∀ r ∈ rs, KeyDone r)
    (fun s c s' rs hs hstep => by
      obtain ⟨u, us, hu, hok, hdone⟩ := consoleStep_done hs c
      rw [Exec.toOption_eq_some.mp hstep] at hu
      cases hu
      exact ⟨hok, hdone⟩) h hrun
  obtain ⟨rs, hrs, hmem⟩ := List.mem_flatten.mp hr
  obtain ⟨_, _, hdone⟩ := Exec.exists_call hall hrs
  exact hdone r hmem

/-! ## 6. From the boot to the stream -/

/-- **No terminal write leaves the screen.** A run of operations on a new terminal answers, on
    the screen and with cells of the screen only; so does the shell started on the terminal it
    leaves; and every stream of bytes fed with that shell subscribed is decoded without a panic,
    each `key_down` reading inside the tables, staying on the screen and sending its position to
    the cursor. The keyboard may have decoded other bytes before the shell subscribes. -/
theorem screen_safe (buffer : Nat → BitVec 16) (ops : List Op) (hb : ∀ op ∈ ops, op.InBounds)
    (early cs : List (BitVec 8)) :
    ∃ t evss, termRun (fresh buffer) ops = some (t, evss) ∧ t.row < height ∧ t.column < width ∧
      (∀ index entry, Event.cell index entry ∈ (new buffer).2 ++ evss.flatten →
        index < width * height) ∧
      ∃ sh evs, shellNew t = .ok (sh, evs) ∧ OnScreen sh ∧
        (∀ index entry, Event.cell index entry ∈ evs → index < width * height) ∧
        ∃ k bss, feed (init false) early = some (k, bss) ∧
          ∃ s rss, consoleRun ⟨{ k with subscriber := true }, sh⟩ cs = some (s, rss) ∧
            ∀ r ∈ rss.flatten, KeyDone r := by
  obtain ⟨t, evss, ht, hon⟩ := termRun_total hb
  obtain ⟨_, _, hevs⟩ := termRun_settings hb ht
  obtain ⟨⟨sh, evs⟩, hsh, hk⟩ := shellNew_keeps hon
  obtain ⟨k, bss, hfeed, hlive⟩ := feed_total false early
  obtain ⟨s, rss, hrun, _, hdone⟩ :=
    consoleRun_done (s := ⟨{ k with subscriber := true }, sh⟩) ⟨hlive, hk.inv⟩ cs
  refine ⟨t, evss, ht, hon.row, hon.column, fun index entry hmem => ?_, sh, evs, hsh, hk.inv,
    fun index entry hmem => (hk.events _ hmem).1, k, bss, hfeed, s, rss, hrun, hdone⟩
  rcases List.mem_append.mp hmem with hmem | hmem
  · exact ((new_keeps buffer).2.2 _ hmem).1
  · exact (hevs _ hmem).1

/-- The kernel's own terminal, and the keys h, i, backspace and enter. -/
theorem screen_safe_boot :
    ∃ t evss, termRun (fresh fun _ => 0) [.setColors .white .black, .writeString (ascii ['H', 'i'])] =
        some (t, evss) ∧ t.row < height ∧ t.column < width ∧
      (∀ index entry, Event.cell index entry ∈ (new fun _ => 0).2 ++ evss.flatten →
        index < width * height) ∧
      ∃ sh evs, shellNew t = .ok (sh, evs) ∧ OnScreen sh ∧
        (∀ index entry, Event.cell index entry ∈ evs → index < width * height) ∧
        ∃ k bss, feed (init false) [] = some (k, bss) ∧
          ∃ s rss, consoleRun ⟨{ k with subscriber := true }, sh⟩ [0x23#8, 0x17#8, 0x0e#8, 0x1c#8] =
              some (s, rss) ∧ ∀ r ∈ rss.flatten, KeyDone r :=
  screen_safe _ _ (fun op h => by
    rcases List.mem_cons.mp h with rfl | h
    · exact trivial
    · rw [List.mem_singleton.mp h]
      exact trivial) _ _

end OsPlayground.Vga
