/-
  File:      OsPlayground/Vga/Typing.lean
  Subject:   TYPING AND ERASING (shell.cpp, `key_down`).

  A key that types a character is a step forward on the ring of cells, a backspace a step back.

  * `keyDown_types`, `keyDown_erases` -- one key;
  * `keysDown_types`, `keysDown_erases` -- a list of them;
  * `backspace_undoes` -- as many backspaces as typed keys leave the position where it was, the
    cells typed on blank and the others as before.
-/
import OsPlayground.Vga.Ring
import OsPlayground.Vga.Shell

namespace OsPlayground.Vga

open Logged Keyboard

/-! ## 1. Keys -/

/-- The arguments of a `key_down` that it reads. -/
structure Key where
  code : Nat
  modState : BitVec 8

/-- **The key types a character**: the key map has one that is neither 0 nor a line break, and
    neither ctrl nor alt is held. -/
structure Typed (k : Key) : Prop where
  char : ∃ c, toAscii k.code k.modState = some c ∧ c ≠ 0#8 ∧ Plain c
  ctrl : modSet k.modState ModifierBit.ctrl = false
  alt : modSet k.modState ModifierBit.alt = false

/-- A backspace with these modifiers. -/
def backspaceKey (modState : BitVec 8) : Key := ⟨KeyCode.backspace, modState⟩

/-- A list of `key_down` events; the events of each. -/
def keysDown (t : VGATerminal) (keys : List Key) : Option (VGATerminal × List (List Event)) :=
  Exec.run (fun t k => (keyDown t k.code k.modState).toOption) t keys

/-- A cell was written. -/
def Visited (evs : List Event) (q : Nat) : Prop := ∃ entry, Event.cell q entry ∈ evs

theorem visited_append {evs evs' : List Event} {q : Nat} :
    Visited (evs ++ evs') q ↔ Visited evs q ∨ Visited evs' q := by
  simp only [Visited, List.mem_append, exists_or]

theorem visited_cell {i q : Nat} {entry : BitVec 16} : Visited [.cell i entry] q ↔ q = i := by
  constructor
  · intro h
    obtain ⟨e, he⟩ := h
    exact (Event.cell.inj (List.mem_singleton.mp he)).1
  · rintro rfl
    exact ⟨entry, List.mem_singleton_self _⟩

theorem not_visited_nil (q : Nat) : ¬ Visited [] q := fun h => h.elim fun _ he => nomatch he

theorem not_visited_cursor (lo hi : BitVec 8) (q : Nat) : ¬ Visited (cursorBytes lo hi) q := by
  intro h
  obtain ⟨e, he⟩ := h
  simp [cursorBytes] at he

/-- A step forward writes no cell. -/
theorem advanceChar_unvisited (t : VGATerminal) (q : Nat) : ¬ Visited (advanceChar t).2 q := by
  intro h
  obtain ⟨e, he⟩ := h
  unfold advanceChar at he
  dsimp only at he
  split at he
  · cases List.mem_singleton.mp he
  · cases he

/-- The backspace key has no character, so it types none. -/
theorem Typed.not_backspace {k : Key} (h : Typed k) : k.code ≠ KeyCode.backspace := by
  intro hb
  obtain ⟨c, hc, hne, _⟩ := h.char
  rw [hb] at hc
  have hzero : ∀ m, toAscii KeyCode.backspace m = some 0#8 := by
    intro m
    unfold toAscii
    cases modSet m ModifierBit.shift with
    | true => rfl
    | false => rfl
  rw [hzero] at hc
  exact hne (Option.some.inj hc).symm

/-! ## 2. One key -/

/-- A key whose operation is known ends with the position sent to the cursor. -/
theorem keyDown_eq {t : VGATerminal} {k : Key} {c : BitVec 8} {r : Answer}
    (hc : toAscii k.code k.modState = some c) (hon : OnScreen r.1)
    (hr : (if k.code = KeyCode.backspace then putcWith (retreatChar t) 0x20#8 false
      else if modSet k.modState ModifierBit.ctrl then (t, [])
      else if modSet k.modState ModifierBit.alt then (t, [])
      else if c ≠ 0#8 then putc t c
      else (t, [])) = r) :
    ∃ lo hi, keyDown t k.code k.modState = .ok (r.1, r.2 ++ cursorBytes lo hi) := by
  obtain ⟨lo, hi, hcur, _⟩ := setCursor_ok hon.row hon.column
  refine ⟨lo, hi, ?_⟩
  unfold keyDown
  rw [hc]
  dsimp only
  rw [hr]
  unfold setCursorToPos
  rw [hcur]
  rfl

/-- **A typed key** writes its character at the position and steps forward. -/
theorem keyDown_types {t : VGATerminal} (h : OnScreen t) {k : Key} (hk : Typed k) :
    ∃ t' evs a, ∃ h' : OnScreen t',
      keyDown t k.code k.modState = .ok (t', evs) ∧ tape t' h' = (tape t h).put a ∧
        t'.color = t.color ∧ ∀ q, Visited evs q ↔ q = position t := by
  obtain ⟨c, hc, hne, hplain⟩ := hk.char
  obtain ⟨h', htape, hcolor⟩ := putc_tape hplain h
  obtain ⟨lo, hi, hkey⟩ := keyDown_eq (t := t) (r := putc t c) hc h' (by
    rw [if_neg hk.not_backspace, if_neg (by simp [hk.ctrl]), if_neg (by simp [hk.alt]),
      if_pos hne])
  refine ⟨_, _, _, h', hkey, htape, hcolor, fun q => ?_⟩
  rw [visited_append, or_iff_left (not_visited_cursor lo hi q)]
  unfold putc
  rw [putcWith_plain hplain h, andThen_snd, visited_append, visited_cell]
  exact or_iff_left (advanceChar_unvisited _ q)

/-- **A backspace** steps back and blanks the cell, whatever the modifiers. -/
theorem keyDown_erases {t : VGATerminal} (h : OnScreen t) (modState : BitVec 8) :
    ∃ t' evs, ∃ h' : OnScreen t',
      keyDown t KeyCode.backspace modState = .ok (t', evs) ∧
        tape t' h' = (tape t h).rub (blank t) ∧ t'.color = t.color := by
  obtain ⟨c, hc⟩ := toAscii_some (show KeyCode.backspace ≤ KeyCode.last by decide) modState
  obtain ⟨h', htape, hcolor⟩ := erase_tape h
  obtain ⟨lo, hi, hkey⟩ := keyDown_eq (t := t) (k := backspaceKey modState)
    (r := putcWith (retreatChar t) 0x20#8 false) hc h' (if_pos rfl)
  exact ⟨_, _, h', hkey, htape, hcolor⟩

/-! ## 3. Lists of keys -/

/-- **Typed keys**: their characters are written along the ring, and the cells visited are the
    ones covered. -/
theorem keysDown_types {keys : List Key} (hk : ∀ k ∈ keys, Typed k) {t : VGATerminal}
    (h : OnScreen t) :
    ∃ t' evss as, ∃ h' : OnScreen t',
      keysDown t keys = some (t', evss) ∧ as.length = keys.length ∧
        tape t' h' = (tape t h).puts as ∧ t'.color = t.color ∧
        ∀ q, Visited evss.flatten q ↔ (tape t h).Covers keys.length q := by
  induction keys generalizing t with
  | nil =>
      refine ⟨t, [], [], h, rfl, rfl, rfl, rfl, fun q => iff_of_false (not_visited_nil q) ?_⟩
      intro hcov
      obtain ⟨i, hi, _⟩ := hcov
      exact absurd hi (Nat.not_lt_zero i)
  | cons k keys ih =>
      obtain ⟨u, evs, a, hu, hkey, htape, hcolor, hvisit⟩ :=
        keyDown_types h (hk k List.mem_cons_self)
      obtain ⟨t', evss, as, h', hrun, hlen, htape', hcolor', hvisit'⟩ :=
        ih (fun k' hk' => hk k' (List.mem_cons_of_mem k hk')) hu
      refine ⟨t', evs :: evss, a :: as, h', ?_, congrArg (· + 1) hlen, ?_, hcolor'.trans hcolor,
        fun q => ?_⟩
      · exact Exec.run_cons.mpr ⟨u, evs, evss, Exec.toOption_eq_some.mpr hkey, hrun, rfl⟩
      · rw [htape', htape, RingTape.puts_cons]
      · rw [List.flatten_cons, visited_append, hvisit, hvisit', htape, List.length_cons,
          RingTape.covers_succ (tape t h) a]
        rfl

/-- **Backspaces** blank the ring backwards. -/
theorem keysDown_erases (mods : List (BitVec 8)) {t : VGATerminal} (h : OnScreen t) :
    ∃ t' evss, ∃ h' : OnScreen t',
      keysDown t (mods.map backspaceKey) = some (t', evss) ∧
        tape t' h' = (tape t h).rubs (List.replicate mods.length (blank t)) := by
  induction mods generalizing t with
  | nil => exact ⟨t, [], h, rfl, rfl⟩
  | cons m mods ih =>
      obtain ⟨u, evs, hu, hkey, htape, hcolor⟩ := keyDown_erases h m
      obtain ⟨t', evss, h', hrun, htape'⟩ := ih hu
      have hblank : blank u = blank t := congrArg (vgaEntry 0x20#8) hcolor
      refine ⟨t', evs :: evss, h', ?_, ?_⟩
      · exact Exec.run_cons.mpr ⟨u, evs, evss, Exec.toOption_eq_some.mpr hkey, hrun, rfl⟩
      · rw [htape', htape, hblank, List.length_cons, List.replicate_succ, RingTape.rubs_cons]

/-- A position on the screen gives its row and its column. -/
theorem position_inj {t t' : VGATerminal} (h : OnScreen t) (h' : OnScreen t')
    (he : position t' = position t) : t'.row = t.row ∧ t'.column = t.column := by
  have hcol := h.column
  have hcol' := h'.column
  unfold position width at *
  omega

/-! ## 4. Typing undone -/

/-- **What typing and erasing leave** of a terminal `t` over the cells `old`, when the typed keys
    alone caused `evs`: the position as at the start, a blank in the current colour in each cell
    they visited, and every other cell as before. -/
structure Undone (t : VGATerminal) (old : Nat → BitVec 16) (evs : List Event)
    (t' : VGATerminal) : Prop where
  row : t'.row = t.row
  column : t'.column = t.column
  visited : ∀ q, Visited evs q → t'.buffer q = vgaEntry 0x20#8 t.color
  others : ∀ q, ¬ Visited evs q → t'.buffer q = old q

variable {buffer : Nat → BitVec 16} {ops : List Op} {t : VGATerminal} {evss : List (List Event)}

/-- **Backspace undoes typing.** From every terminal reached by public operations, over every
    contents of the buffer: any list of typed keys and as many backspaces, with any modifiers,
    are answered; the cells the typed keys visit are the ones from the position on, round the
    ring; and the backspaces leave the typing undone. -/
theorem backspace_undoes (hb : ∀ op ∈ ops, op.InBounds)
    (ht : termRun (fresh buffer) ops = some (t, evss)) (cells : Nat → BitVec 16)
    {keys : List Key} (hk : ∀ k ∈ keys, Typed k) {mods : List (BitVec 8)}
    (hlen : mods.length = keys.length) :
    ∃ u typed t' erased,
      keysDown { t with buffer := cells } keys = some (u, typed) ∧
        keysDown u (mods.map backspaceKey) = some (t', erased) ∧
        (∀ q, Visited typed.flatten q ↔
          ∃ i < keys.length, (t.row * width + t.column + i) % (width * height) = q) ∧
        Undone t cells typed.flatten t' := by
  have h0 := reached_onScreen hb ht cells
  obtain ⟨u, typed, as, hu, hrun, haslen, htape, hcolor, hvisit⟩ := keysDown_types hk h0
  obtain ⟨t', erased, h', hrun', htape'⟩ := keysDown_erases mods hu
  have hblank : blank u = vgaEntry 0x20#8 t.color := congrArg (vgaEntry 0x20#8) hcolor
  obtain ⟨hpos, hcells⟩ := RingTape.rubs_puts (tape _ h0) as (vgaEntry 0x20#8 t.color)
  rw [htape, hblank, hlen, ← haslen] at htape'
  rw [← htape', haslen] at hcells
  rw [← htape'] at hpos
  obtain ⟨hrow, hcol⟩ := position_inj h0 h' hpos
  refine ⟨u, typed, t', erased, hrun, hrun', hvisit, hrow, hcol, fun q hq => ?_, fun q hq => ?_⟩
  · exact (hcells q).1 ((hvisit q).mp hq)
  · exact (hcells q).2 fun hcov => hq ((hvisit q).mpr hcov)

/-- The keys a, b, c with shift held for the last, typed over the last corner of the screen, and
    three backspaces, one of them with ctrl held. -/
theorem backspace_undoes_corner :
    ∃ u typed t' erased,
      keysDown { corner with buffer := fun _ => 0x0758#16 }
          [⟨0x1e, 0#8⟩, ⟨0x30, 0#8⟩, ⟨0x2e, 1#8⟩] = some (u, typed) ∧
        keysDown u ([0#8, 2#8, 1#8].map backspaceKey) = some (t', erased) ∧
        (∀ q, Visited typed.flatten q ↔
          ∃ i < 3, (corner.row * width + corner.column + i) % (width * height) = q) ∧
        Undone corner (fun _ => 0x0758#16) typed.flatten t' :=
  backspace_undoes corner_inBounds corner_run _
    (fun (k : Key) (hk : k ∈ [⟨0x1e, 0#8⟩, ⟨0x30, 0#8⟩, ⟨0x2e, 1#8⟩]) => by
      simp only [List.mem_cons, List.not_mem_nil, or_false] at hk
      rcases hk with rfl | rfl | rfl
      · exact ⟨⟨0x61#8, rfl, by decide, by unfold Plain; decide⟩, rfl, rfl⟩
      · exact ⟨⟨0x62#8, rfl, by decide, by unfold Plain; decide⟩, rfl, rfl⟩
      · exact ⟨⟨0x43#8, rfl, by decide, by unfold Plain; decide⟩, rfl, rfl⟩) rfl

end OsPlayground.Vga
