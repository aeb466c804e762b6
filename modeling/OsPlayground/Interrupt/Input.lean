/-
  File:      OsPlayground/Interrupt/Input.lean
  Subject:   KEYBOARD INPUT AS A SYSTEM: the keyboard, the mouse, the two interrupt controllers,
             `handle_keyboard` (interrupt_impl.cpp), the decoder, the shell and the display.

  Keyboard and mouse share the port 0x60, which holds one byte: a byte is handed over when the one
  before was read, and raises line 1 or line 12 with it. `handle_keyboard` reads the port, decodes
  the byte and ends the interrupt, in three steps between which devices may raise lines and send.
  `handle_ps2_mouse` does not read the port. The main program only halts (`Shell::main`). The mask
  registers are those `reprogram_pics` wrote back.

  * `tracks_step` -- one step of the system, whichever it is, keeps what the console has made of
    the bytes: it is what the bytes handled so far make of it one after the other;
  * **`input_refines`** -- so every interleaving refines the console fed byte by byte: no byte is
    lost, doubled or out of turn, none panics, and the display shows the console's terminal.
-/
import OsPlayground.Interrupt.Blocking
import OsPlayground.Vga.Display

namespace OsPlayground.Input

open Keyboard Vga

/-! ## 1. The system -/

theorem keyboardLine_lt : 1 < 16 := by decide

theorem keyboardLine_ne : 1 ≠ 2 := by decide

/-- The keyboard's line. -/
def keyboardLine : Interrupt.Line := ⟨1, keyboardLine_lt, keyboardLine_ne⟩

/-- Where `handle_keyboard` is: not running, before the port is read, before the byte is decoded,
    or at its end of interrupt. -/
inductive Stage where
  | outside | entered | got (c : BitVec 8) | done

/-- The controllers with the running handler, and their masks; the port with its byte, whether it is
    unread and whether it is the mouse's; the bytes the keyboard has not handed over; the handler's
    place; decoder, shell and display. -/
structure System where
  lines : Interrupt.Machine
  masks : Pic8259.Masks
  data : BitVec 8
  full : Bool
  mouse : Bool
  queue : List (BitVec 8)
  stage : Stage
  console : Console
  display : Display

/-- What can happen next. -/
inductive Happening where
  | press (b : BitVec 8)
  | move (b : BitVec 8)
  | transfer
  | raise (line : Interrupt.Line)
  | deliver (line : Interrupt.Line)
  | read
  | decode
  | write
  | iret

/-- The mouse's line. -/
def mouseLine : Interrupt.Line := ⟨12, by decide, by decide⟩

/-- A step of the controllers and the running handler, with the rest changed by `f`. -/
def onLines (s : System) (e : Interrupt.Event) (f : System → System) : Option System :=
  (Interrupt.maskedStep s.masks s.lines e).map fun m => f { s with lines := m }

/-- One step; `none` where it cannot happen. -/
def step (s : System) : Happening → Option System
  | .press b => some { s with queue := s.queue ++ [b] }
  | .transfer =>
    match s.full, s.queue with
    | false, b :: queue =>
      onLines s (.raise keyboardLine) fun s =>
        { s with data := b, full := true, mouse := false, queue := queue }
    | _, _ => none
  | .move b =>
    if s.full then none
    else onLines s (.raise mouseLine) fun s => { s with data := b, full := true, mouse := true }
  | .raise line => if line.val = 1 then none else onLines s (.raise line) id
  | .deliver line =>
    onLines s (.deliver line) fun s =>
      { s with stage := if line.val = 1 then .entered else .outside }
  | .read =>
    match s.stage with
    | .entered => some { s with stage := .got s.data, full := false }
    | _ => none
  | .decode =>
    match s.stage with
    | .got c =>
      match consoleStep s.console c with
      | .ok (console, rs) =>
        some { s with
          stage := .done, console := console, display := s.display.takes (answerEvents rs) }
      | .error _ => none
    | _ => none
  | .write =>
    match s.stage with
    | .entered => none
    | .got _ => none
    | _ => onLines s .write id
  | .iret => onLines s .iret fun s => { s with stage := .outside }

/-- A run of steps. -/
def run (s : System) (hs : List Happening) : Option (System × List Unit) :=
  Exec.run (fun s h => (step s h).map fun s' => (s', ())) s hs

/-- The bytes the keyboard has sent. -/
def pressed : Happening → List (BitVec 8)
  | .press b => [b]
  | _ => []

def presses (hs : List Happening) : List (BitVec 8) := hs.flatMap pressed

/-- The port holds a byte of the keyboard's. -/
def Typed (s : System) : Prop := s.full = true ∧ s.mouse = false

instance (s : System) : Decidable (Typed s) := inferInstanceAs (Decidable (_ ∧ _))

/-- The keyboard's bytes not yet read by the handler. -/
def pending (s : System) : List (BitVec 8) := (if Typed s then [s.data] else []) ++ s.queue

/-- The byte read and not yet decoded. -/
def inHand (s : System) : List (BitVec 8) :=
  match s.stage with
  | .got c => [c]
  | _ => []

/-- **What `set_subscriber` leaves**: no handler runs, line 1 is raised only for a byte of the
    keyboard's in the port, the decoder has taken any bytes without a subscriber, and the shell was
    made on a terminal the display shows. -/
structure Subscribed (s : System) : Prop where
  reached : ∃ es us, Interrupt.run Interrupt.start es = some (s.lines, us)
  between : s.lines.running = none
  stage : s.stage = .outside
  raised : s.lines.pics.raised 1 = true → Typed s
  keyboard : ∃ early k bss, feed (init false) early = some (k, bss) ∧
    s.console.keyboard = { k with subscriber := true }
  shell : ∃ (t : VGATerminal) (d : Display) (evs : List Vga.Event), OnScreen t ∧ d.cells = t.buffer ∧
    shellNew t = .ok (s.console.term, evs) ∧ s.display = d.takes evs

/-! ## 2. What a step does to the lines -/

section Lines

open Interrupt (Machine Event Line)

variable {m m' : Machine} {line : Line}

theorem lines_raise (m : Machine) (line : Line) :
    Interrupt.step m (.raise line) = some { m with pics := m.pics.raise line.val } := rfl

theorem lines_deliver {masks : Pic8259.Masks}
    (h : Interrupt.maskedStep masks m (.deliver line) = some m') :
    masks.Passes line.val ∧ m.running = none ∧ m.pics.CanDeliver line.val ∧
      m' = ⟨m.pics.deliver line.val, some (line, line.handler.writes)⟩ := by
  have hpass : masks.Passes line.val := by
    unfold Interrupt.maskedStep at h
    dsimp only at h
    split_ifs at h with hpass
    exact hpass
  have h := Interrupt.step_of_masked h
  unfold Interrupt.step at h
  cases hr : m.running with
  | some r =>
      rw [hr] at h
      cases h
  | none =>
      rw [hr] at h
      dsimp only at h
      split_ifs at h with hcan
      cases h
      exact ⟨hpass, rfl, hcan, rfl⟩

theorem lines_write (h : Interrupt.step m .write = some m') :
    ∃ l w ws, m.running = some (l, w :: ws) ∧
      m' = ⟨Interrupt.out8 m.pics w, some (l, ws)⟩ := by
  obtain ⟨p, r⟩ := m
  cases r with
  | none => cases h
  | some r =>
      obtain ⟨l, ws⟩ := r
      cases ws with
      | nil => cases h
      | cons w ws =>
          cases h
          exact ⟨l, w, ws, rfl, rfl⟩

theorem lines_iret (h : Interrupt.step m .iret = some m') :
    ∃ l, m.running = some (l, []) ∧ m' = { m with running := none } := by
  obtain ⟨p, r⟩ := m
  cases r with
  | none => cases h
  | some r =>
      obtain ⟨l, ws⟩ := r
      cases ws with
      | cons w ws => cases h
      | nil =>
          cases h
          exact ⟨l, rfl, rfl⟩

theorem deliver_raised (p : Pic8259.Pair) (n k : Nat) :
    (p.deliver n).raised k = if k = n then false else p.raised k := by
  unfold Pic8259.Pair.deliver
  split <;> exact Function.update_apply _ _ _ _

theorem raise_raised (p : Pic8259.Pair) (n k : Nat) :
    (p.raise n).raised k = if k = n then true else p.raised k := Function.update_apply _ _ _ _

@[simp] theorem out8_raised (p : Pic8259.Pair) (w : Nat × BitVec 8) :
    (Interrupt.out8 p w).raised = p.raised := by
  unfold Interrupt.out8
  split_ifs <;> rfl

theorem eq_keyboardLine (h : line.val = 1) : line = keyboardLine := by
  obtain ⟨n, h1, h2⟩ := line
  cases h
  rfl

/-- Reached by a run of the lines. -/
def Reached (m : Machine) : Prop := ∃ es us, Interrupt.run Interrupt.start es = some (m, us)

theorem Reached.step {e : Interrupt.Event} (h : Reached m) (hs : Interrupt.step m e = some m') :
    Reached m' := by
  obtain ⟨es, us, hrun⟩ := h
  refine ⟨es ++ [e], us ++ [()], Exec.run_append.mpr ⟨m, us, [()], hrun, ?_, rfl⟩⟩
  refine Exec.run_cons.mpr ⟨m', (), [], ?_, rfl, rfl⟩
  rw [hs]
  rfl

/-- **Nothing blocks the keyboard**: between handlers its line can be delivered when raised. -/
theorem Reached.canDeliver (h : Reached m) (hbetween : m.running = none)
    (hraised : m.pics.raised 1 = true) : m.pics.CanDeliver 1 := by
  obtain ⟨es, us, hrun⟩ := h
  have hs := Interrupt.serving_between hrun hbetween
  have hgt : ∀ l ∈ Interrupt.unanswered es, 2 < l.val := fun l hl =>
    Interrupt.unacknowledged_gt (Interrupt.of_mem_unanswered hl)
  refine (hs.canDeliver_iff hgt keyboardLine).mpr ⟨hraised, fun l hl hblocks => ?_⟩
  have hl2 := hgt l hl
  rcases hblocks with ⟨h1, _⟩ | ⟨_, h2⟩
  · exact absurd hl2 (Nat.not_lt.mpr (h1.trans (by decide)))
  · exact absurd h2 (by decide)

end Lines

/-! ## 3. The invariant -/

/-- Line 1 is raised only for a byte of the keyboard's in the port. -/
def RaisedTyped (s : System) : Prop := s.lines.pics.raised 1 = true → Typed s

/-- **Where the handler is, and line 1.** The line is raised only while the port holds an unread byte
    of the keyboard's and no delivery of the line has yet been made for it. -/
def StageOk (s : System) : Prop :=
  match s.stage with
  | .outside => RaisedTyped s ∧ ∀ l ws, s.lines.running = some (l, ws) → l.val ≠ 1
  | .entered => Typed s ∧ s.lines.pics.raised 1 = false ∧ s.masks.Passes 1 ∧
      s.lines.running = some (keyboardLine, keyboardLine.handler.writes)
  | .got _ => RaisedTyped s ∧
      s.lines.running = some (keyboardLine, keyboardLine.handler.writes)
  | .done => RaisedTyped s ∧ ∃ ws, s.lines.running = some (keyboardLine, ws)

/-- The console is what `bytes` make of `con`, and the bytes sent are those, the one in hand and
    the ones pending. -/
structure Handled (con : Console) (sent bytes : List (BitVec 8)) (s : System) : Prop where
  made : ∃ rss, consoleRun con bytes = some (s.console, rss)
  all : sent = bytes ++ (inHand s ++ pending s)

/-- **The invariant of the system**, from console `con` on, when `sent` are the bytes sent. -/
structure Tracks (con : Console) (sent : List (BitVec 8)) (s : System) : Prop where
  reached : Reached s.lines
  ok : ConsoleOk s.console
  shows : Shows s.display s.console.term
  handled : ∃ bytes, Handled con sent bytes s
  stage : StageOk s

variable {con : Console} {sent : List (BitVec 8)} {s s' : System}

/-- A step that leaves the console and the display alone, and moves no byte. -/
theorem Tracks.lines (h : Tracks con sent s) (hreached : Reached s'.lines)
    (hconsole : s'.console = s.console) (hdisplay : s'.display = s.display)
    (hbytes : inHand s' ++ pending s' = inHand s ++ pending s) (hstage : StageOk s') :
    Tracks con sent s' := by
  obtain ⟨bytes, hmade, hall⟩ := h.handled
  refine ⟨hreached, hconsole ▸ h.ok, ?_, ⟨bytes, hconsole ▸ hmade, ?_⟩, hstage⟩
  · rw [hconsole, hdisplay]
    exact h.shows
  · rw [hbytes]
    exact hall

/-! ## 4. One step -/

theorem tracks_press (h : Tracks con sent s) (b : BitVec 8) :
    Tracks con (sent ++ [b]) { s with queue := s.queue ++ [b] } := by
  obtain ⟨bytes, hmade, hall⟩ := h.handled
  refine ⟨h.reached, h.ok, h.shows, ⟨bytes, hmade, ?_⟩, h.stage⟩
  have hpend : pending { s with queue := s.queue ++ [b] } = pending s ++ [b] :=
    (List.append_assoc _ _ _).symm
  rw [hall, hpend]
  simp only [inHand, List.append_assoc]

theorem tracks_transfer (h : Tracks con sent s) (hs : step s .transfer = some s') :
    Tracks con sent s' := by
  obtain ⟨m, masks, data, full, mouse, queue, stage, console, display⟩ := s
  cases full with
  | true => cases queue <;> cases hs
  | false =>
      cases queue with
      | nil => cases hs
      | cons b queue =>
          cases hs
          refine h.lines (h.reached.step (lines_raise m keyboardLine)) rfl rfl rfl ?_
          have hst := h.stage
          cases stage with
          | outside => exact ⟨fun _ => ⟨rfl, rfl⟩, hst.2⟩
          | entered => cases hst.1.1
          | got c => exact ⟨fun _ => ⟨rfl, rfl⟩, hst.2⟩
          | done => exact ⟨fun _ => ⟨rfl, rfl⟩, hst.2⟩

/-- A line other than line 1 raised leaves line 1. -/
theorem raised_other (p : Pic8259.Pair) {line : Interrupt.Line} (h : line.val ≠ 1) :
    (p.raise line.val).raised 1 = p.raised 1 := by
  rw [raise_raised, if_neg (Ne.symm h)]

theorem tracks_move (h : Tracks con sent s) {b : BitVec 8} (hs : step s (.move b) = some s') :
    Tracks con sent s' := by
  obtain ⟨m, masks, data, full, mouse, queue, stage, console, display⟩ := s
  cases full with
  | true => cases hs
  | false =>
      cases hs
      refine h.lines (h.reached.step (lines_raise m mouseLine)) rfl rfl rfl ?_
      -- with the port empty line 1 is not raised
      have hst := h.stage
      have hraised : (m.pics.raise mouseLine.val).raised 1 = m.pics.raised 1 :=
        raised_other _ (by decide)
      have hnot : ∀ t : System, RaisedTyped ⟨m, masks, data, false, mouse, queue, stage, console,
          display⟩ → t.lines.pics = m.pics.raise mouseLine.val → RaisedTyped t := by
        intro t ht hpics h1
        rw [hpics, hraised] at h1
        exact absurd (ht h1).1 nofun
      cases stage with
      | outside => exact ⟨hnot _ hst.1 rfl, hst.2⟩
      | entered => cases hst.1.1
      | got c => exact ⟨hnot _ hst.1 rfl, hst.2⟩
      | done => exact ⟨hnot _ hst.1 rfl, hst.2⟩

theorem tracks_raise {line : Interrupt.Line} (h : Tracks con sent s)
    (hs : step s (.raise line) = some s') : Tracks con sent s' := by
  obtain ⟨m, masks, data, full, mouse, queue, stage, console, display⟩ := s
  unfold step at hs
  dsimp only at hs
  split_ifs at hs with hline
  cases hs
  refine h.lines (h.reached.step (lines_raise m line)) rfl rfl rfl ?_
  have hraised : (m.pics.raise line.val).raised 1 = m.pics.raised 1 := raised_other _ hline
  have hst := h.stage
  cases stage with
  | outside => exact ⟨fun h1 => hst.1 (hraised.symm.trans h1), hst.2⟩
  | entered => exact ⟨hst.1, hraised.trans hst.2.1, hst.2.2⟩
  | got c => exact ⟨fun h1 => hst.1 (hraised.symm.trans h1), hst.2⟩
  | done => exact ⟨fun h1 => hst.1 (hraised.symm.trans h1), hst.2⟩

theorem tracks_deliver {line : Interrupt.Line} (h : Tracks con sent s)
    (hs : step s (.deliver line) = some s') : Tracks con sent s' := by
  obtain ⟨m, masks, data, full, mouse, queue, stage, console, display⟩ := s
  obtain ⟨m', hm', rfl⟩ := Option.map_eq_some_iff.mp hs
  obtain ⟨hpass, hnone, hcan, rfl⟩ := lines_deliver hm'
  have hreached := h.reached.step (Interrupt.step_of_masked hm')
  dsimp only at hpass hnone hcan
  have hst := h.stage
  cases stage with
  | entered => exact absurd (hnone.symm.trans hst.2.2.2) nofun
  | got c => exact absurd (hnone.symm.trans hst.2) nofun
  | done =>
      obtain ⟨_, ws, hws⟩ := hst
      exact absurd (hnone.symm.trans hws) nofun
  | outside =>
      by_cases hline : line.val = 1
      · have htyped := hst.1 (hline ▸ hcan.1)
        refine h.lines hreached rfl rfl ?_ ?_
        · simp only [inHand, hline, if_true]
          rfl
        · unfold StageOk
          dsimp only
          rw [if_pos hline]
          refine ⟨htyped, ?_, hline ▸ hpass, by rw [eq_keyboardLine hline]⟩
          rw [deliver_raised, if_pos hline.symm]
      · refine h.lines hreached rfl rfl ?_ ?_
        · simp only [inHand, hline, if_false]
          rfl
        · unfold StageOk
          dsimp only
          rw [if_neg hline]
          refine ⟨fun h1 => hst.1 ?_, fun l ws he => ?_⟩
          · dsimp only at h1
            rw [deliver_raised, if_neg (Ne.symm hline)] at h1
            exact h1
          · cases he
            exact hline

theorem tracks_read (h : Tracks con sent s) (hs : step s .read = some s') : Tracks con sent s' := by
  obtain ⟨m, masks, data, full, mouse, queue, stage, console, display⟩ := s
  have hst := h.stage
  cases stage with
  | outside | got c | done => cases hs
  | entered =>
      cases hs
      obtain ⟨⟨hfull, hmouse⟩, hraised, _, hrunning⟩ := hst
      dsimp only at hfull hmouse hraised
      refine h.lines h.reached rfl rfl ?_ ⟨fun h1 => ?_, hrunning⟩
      · subst hfull hmouse
        rfl
      · dsimp only at h1
        rw [hraised] at h1
        cases h1

theorem tracks_decode (h : Tracks con sent s) (hs : step s .decode = some s') :
    Tracks con sent s' := by
  obtain ⟨m, masks, data, full, mouse, queue, stage, console, display⟩ := s
  have hst := h.stage
  cases stage with
  | outside | entered | done => cases hs
  | got c =>
      obtain ⟨con', rs, hstep, hok, hshows⟩ := consoleStep_shows h.ok c h.shows
      unfold step at hs
      dsimp only at hs hstep
      rw [hstep] at hs
      cases hs
      obtain ⟨bytes, ⟨rss, hmade⟩, hall⟩ := h.handled
      -- the byte in hand is the next one handled
      refine ⟨h.reached, hok, hshows, ⟨bytes ++ [c], ⟨rss ++ [rs], ?_⟩, ?_⟩, hst.1, _, hst.2⟩
      · refine Exec.run_append.mpr ⟨console, rss, [rs], hmade, ?_, rfl⟩
        exact Exec.run_cons.mpr ⟨con', rs, [], Exec.toOption_eq_some.mpr hstep, rfl, rfl⟩
      · rw [hall, List.append_assoc]
        rfl

theorem tracks_write (h : Tracks con sent s) (hs : step s .write = some s') :
    Tracks con sent s' := by
  obtain ⟨m, masks, data, full, mouse, queue, stage, console, display⟩ := s
  have hst := h.stage
  have hraised : ∀ w, (Interrupt.out8 m.pics w).raised 1 = true → m.pics.raised 1 = true :=
    fun w h1 => (congrFun (out8_raised _ _) 1).symm.trans h1
  cases stage with
  | entered | got c => cases hs
  | outside =>
      obtain ⟨m', hm', rfl⟩ := Option.map_eq_some_iff.mp hs
      refine h.lines (h.reached.step (Interrupt.step_of_masked hm')) rfl rfl rfl ?_
      obtain ⟨l, w, ws, hrun, rfl⟩ := lines_write (Interrupt.step_of_masked hm')
      refine ⟨fun h1 => hst.1 (hraised w h1), fun l' ws' he => ?_⟩
      cases he
      exact hst.2 l (w :: ws) hrun
  | done =>
      obtain ⟨m', hm', rfl⟩ := Option.map_eq_some_iff.mp hs
      refine h.lines (h.reached.step (Interrupt.step_of_masked hm')) rfl rfl rfl ?_
      obtain ⟨l, w, ws, hrun, rfl⟩ := lines_write (Interrupt.step_of_masked hm')
      obtain ⟨htyped, ws', hws'⟩ := hst
      cases hrun.symm.trans hws'
      exact ⟨fun h1 => htyped (hraised w h1), ws, rfl⟩

theorem tracks_iret (h : Tracks con sent s) (hs : step s .iret = some s') : Tracks con sent s' := by
  obtain ⟨m, masks, data, full, mouse, queue, stage, console, display⟩ := s
  obtain ⟨m', hm', rfl⟩ := Option.map_eq_some_iff.mp hs
  obtain ⟨l, hrun, rfl⟩ := lines_iret (Interrupt.step_of_masked hm')
  dsimp only at hrun hm'
  have hwrites : keyboardLine.handler.writes ≠ [] := by decide
  have hst := h.stage
  have hgone : ∀ l' ws, (none : Option (Interrupt.Line × List (Nat × BitVec 8))) = some (l', ws) →
      l'.val ≠ 1 := nofun
  cases stage with
  | entered =>
      cases hrun.symm.trans hst.2.2.2
  | got c =>
      cases hrun.symm.trans hst.2
  | outside => exact h.lines (h.reached.step (Interrupt.step_of_masked hm')) rfl rfl rfl ⟨hst.1, hgone⟩
  | done => exact h.lines (h.reached.step (Interrupt.step_of_masked hm')) rfl rfl rfl ⟨hst.1, hgone⟩

/-- **One step keeps the invariant**, whichever it is. -/
theorem tracks_step {e : Happening} (h : Tracks con sent s) (hs : step s e = some s') :
    Tracks con (sent ++ pressed e) s' := by
  cases e with
  | press b =>
      cases hs
      exact tracks_press h b
  | transfer => simpa [pressed] using tracks_transfer h hs
  | move b => simpa [pressed] using tracks_move h hs
  | raise line => simpa [pressed] using tracks_raise h hs
  | deliver line => simpa [pressed] using tracks_deliver h hs
  | read => simpa [pressed] using tracks_read h hs
  | decode => simpa [pressed] using tracks_decode h hs
  | write => simpa [pressed] using tracks_write h hs
  | iret => simpa [pressed] using tracks_iret h hs

/-! ## 5. Runs -/

/-- The state after `set_subscriber` tracks its own console. -/
theorem tracks_subscribed (h : Subscribed s) : Tracks s.console (pending s) s := by
  obtain ⟨early, k, bss, hfeed, hk⟩ := h.keyboard
  obtain ⟨t, d, evs, hon, hd, hnew, hdisplay⟩ := h.shell
  obtain ⟨k', bss', hfeed', hlive⟩ := feed_total false early
  rw [hfeed] at hfeed'
  cases hfeed'
  obtain ⟨honsh, hshows⟩ := shellNew_shows hon hnew hd
  have hstage := h.stage
  have hlive' : Live s.console.keyboard := by
    rw [hk]
    exact hlive
  refine ⟨h.reached, ⟨hlive', honsh⟩, hdisplay ▸ hshows, ⟨[], ⟨[], rfl⟩, ?_⟩, ?_⟩
  · simp only [inHand, hstage, List.nil_append]
  · unfold StageOk
    rw [hstage]
    refine ⟨h.raised, fun l ws he => ?_⟩
    rw [h.between] at he
    cases he

/-- **A run keeps the invariant.** -/
theorem tracks_run {hs : List Happening} {us : List Unit} (h : Tracks con sent s)
    (hrun : run s hs = some (s', us)) : Tracks con (sent ++ presses hs) s' := by
  refine Exec.run_history (fun u es _ => Tracks con (sent ++ presses es) u)
    (fun u es us e u' _ _ hI hs => ?_) (by simpa [presses] using h) hrun
  obtain ⟨u₁, hu₁, he⟩ := Option.map_eq_some_iff.mp hs
  cases he
  have hnext := tracks_step hI hu₁
  rw [List.append_assoc] at hnext
  simpa [presses] using hnext

/-- A byte in hand is always decoded: no panic ends the run. -/
theorem Tracks.decodes (h : Tracks con sent s) {c : BitVec 8} (hc : s.stage = .got c) :
    ∃ s', step s .decode = some s' ∧ s'.stage = .done ∧ s'.lines = s.lines ∧
      pending s' = pending s := by
  obtain ⟨con', rs, hstep, _⟩ := consoleStep_shows h.ok c h.shows
  refine ⟨{ s with stage := .done, console := con', display := s.display.takes (answerEvents rs) },
    ?_, rfl, rfl, rfl⟩
  unfold step
  rw [hc]
  dsimp only
  rw [hstep]

/-- **Every interleaving refines the console fed byte by byte.** From the state `set_subscriber`
    leaves, in every state reached: the console is what the bytes handled so far make of it one
    after the other; the bytes sent are these, then the one in the handler's hand, then the ones
    not yet read, in the order sent; the display shows the console's terminal; and a byte in hand
    is decoded without a panic. -/
theorem input_refines (s₀ : System) (h₀ : Subscribed s₀) (hs : List Happening) (s : System)
    (us : List Unit) (hrun : run s₀ hs = some (s, us)) :
    ∃ bytes rss, consoleRun s₀.console bytes = some (s.console, rss) ∧
      pending s₀ ++ presses hs = bytes ++ (inHand s ++ pending s) ∧
      Shows s.display s.console.term ∧
      ∀ c, s.stage = .got c → ∃ s', step s .decode = some s' := by
  have h := tracks_run (tracks_subscribed h₀) hrun
  obtain ⟨bytes, ⟨rss, hmade⟩, hall⟩ := h.handled
  refine ⟨bytes, rss, hmade, hall, h.shows, fun c hc => ?_⟩
  obtain ⟨s', hs', _⟩ := h.decodes hc
  exact ⟨s', hs'⟩

/-- The shell subscribed before any key: `r` is what its constructor answered. -/
def subscribed (r : Answer) (d : Display) : System where
  lines := Interrupt.start
  masks := ⟨0#8, 0#8⟩
  data := 0#8
  full := false
  mouse := false
  queue := []
  stage := .outside
  console := ⟨init true, r.1⟩
  display := d.takes r.2

theorem subscribed_ok {t : VGATerminal} {r : Answer} {d : Display} (h : OnScreen t)
    (hnew : shellNew t = .ok r) (hd : d.cells = t.buffer) : Subscribed (subscribed r d) where
  reached := ⟨[], [], rfl⟩
  between := rfl
  stage := rfl
  raised := nofun
  keyboard := ⟨[], init false, [], rfl, rfl⟩
  shell := ⟨t, d, r.2, h, hd, hnew, rfl⟩

/-- What the constructor answers on a cleared screen. -/
def bootAnswer : Answer :=
  ((shellScreen { fresh (fun _ => 0) with row := 0, column := 0 }).1,
    (shellScreen { fresh (fun _ => 0) with row := 0, column := 0 }).2 ++ cursorBytes 0x50#8 0#8)

theorem shellNew_boot : shellNew (fresh fun _ => 0) = .ok bootAnswer := by
  unfold shellNew bootAnswer
  rw [setPos_ok _ height_pos.1 width_pos.1]
  rfl

/-- The shell on a cleared screen. -/
def booted : System := subscribed bootAnswer ⟨(fresh fun _ => 0).buffer, 0#8, 0#8, 0#8⟩

theorem booted_subscribed : Subscribed booted :=
  subscribed_ok (new_keeps _).1 shellNew_boot rfl

/-- A key is pressed, its interrupt comes and the handler reads its byte. -/
def firstKey : List Happening := [.press 0x1e#8, .transfer, .deliver keyboardLine, .read]

/-- The key a, its byte in the handler's hand. -/
theorem input_refines_first :
    ∃ s us, run booted firstKey = some (s, us) ∧
      ∃ bytes rss, consoleRun booted.console bytes = some (s.console, rss) ∧
        pending booted ++ presses firstKey = bytes ++ (inHand s ++ pending s) ∧
        Shows s.display s.console.term ∧
        ∀ c, s.stage = .got c → ∃ s', step s .decode = some s' :=
  ⟨_, _, rfl, input_refines booted booted_subscribed firstKey _ _ rfl⟩

end OsPlayground.Input
