/-
  File:      OsPlayground/Interrupt/Lines.lean
  Subject:   HARDWARE INTERRUPTS (interrupt_manager.cpp, interrupt_impl.cpp): the handlers
             `load_idt` installs for the lines of the two interrupt controllers, and what they
             leave in service.

  Interrupts are off while a handler runs, since every gate is an interrupt gate; devices may
  raise their lines at any time.

  * `step_sound` -- with both controllers idle whenever no handler runs, one step keeps it so
    unless it is the return of a handler that acknowledges nothing;
  * `idle_iff` -- so the controllers are idle between handlers over a whole run exactly when no
    handler of the run returns without an acknowledgement. Only the lines of the timer, the
    keyboard and the mouse have one: `id_handler` sends no end of interrupt.
-/
import OsPlayground.Library.Exec
import OsPlayground.Library.Pic

namespace OsPlayground.Interrupt

open Pic8259

/-! ## 1. Handlers -/

/-- `pic1_cmd` and `pic2_cmd`. -/
def pic1Cmd : Nat := 0x20
def pic2Cmd : Nat := 0xa0

/-- The end-of-interrupt command. -/
def eoiSignal : BitVec 8 := 0x20

/-- The writes of `pic_send_eoi` to the controllers' command ports. -/
def picSendEoi (irq : Nat) : List (Nat × BitVec 8) :=
  (if irq ≥ 8 then [(pic2Cmd, eoiSignal)] else []) ++ [(pic1Cmd, eoiSignal)]

/-- The functions in the table. Those of the processor's own exceptions are one here: no line
    leads to them. -/
inductive Handler where
  | exception | timer | keyboard | ps2Mouse | idHandler | assertNoHandler
  deriving DecidableEq, Repr

/-- What a handler writes to the controllers. `handle_keyboard` and `handle_ps2_mouse` also read
    the scan code and print to the serial port; `id_handler` is empty. -/
def Handler.writes : Handler → List (Nat × BitVec 8)
  | timer => picSendEoi 0x0
  | keyboard => picSendEoi 0x1
  | ps2Mouse => picSendEoi 0xc
  | _ => []

/-- `load_idt`: the handler at a vector. -/
def loadIdt (vector : Nat) : Handler :=
  if vector < 0x16 then if vector = 0x0f then .assertNoHandler else .exception
  else if vector < 0x20 then .assertNoHandler
  else if vector = 0x20 then .timer
  else if vector = 0x21 then .keyboard
  else if vector < 0x2c then .idHandler
  else if vector = 0x2c then .ps2Mouse
  else if vector < 0x30 then .idHandler
  else .assertNoHandler

/-- `irq_offset`: `reprogram_pics` puts line `n` at vector `irq_offset + n`. -/
def irqOffset : Nat := 0x20

/-- A line a device is on: all but the one of the second controller. -/
structure Line where
  val : Nat
  lt : val < 16
  ne : val ≠ 2

/-- The handler of a line. -/
def Line.handler (line : Line) : Handler := loadIdt (irqOffset + line.val)

/-! ## 2. The machine -/

/-- A write to a port, seen by the controllers. -/
def out8 (p : Pair) (w : Nat × BitVec 8) : Pair :=
  if w = (pic1Cmd, eoiSignal) then p.command .first
  else if w = (pic2Cmd, eoiSignal) then p.command .second
  else p

/-- The controllers, and the line whose handler runs with the writes it still has to do. -/
structure Machine where
  pics : Pair
  running : Option (Line × List (Nat × BitVec 8))

/-- What can happen next: a device raises its line, the processor takes an interrupt, the handler
    does its next write, or it returns. -/
inductive Event where
  | raise (line : Line)
  | deliver (line : Line)
  | write
  | iret

/-- One step; `none` where the event cannot happen. -/
def step (m : Machine) : Event → Option Machine
  | .raise line => some { m with pics := m.pics.raise line.val }
  | .deliver line =>
    match m.running with
    | some _ => none
    | none =>
      if m.pics.CanDeliver line.val then
        some ⟨m.pics.deliver line.val, some (line, line.handler.writes)⟩
      else none
  | .write =>
    match m.running with
    | some (line, w :: ws) => some ⟨out8 m.pics w, some (line, ws)⟩
    | _ => none
  | .iret =>
    match m.running with
    | some (_, []) => some { m with running := none }
    | _ => none

/-- A run of events. -/
def run (m : Machine) (es : List Event) : Option (Machine × List Unit) :=
  Exec.run (fun m e => (step m e).map fun m' => (m', ())) m es

/-- After `init_interrupts`: nothing is in service and no handler runs. -/
def start : Machine := ⟨⟨0#8, 0#8, fun _ => false⟩, none⟩

/-- **No line is left in service**: whenever no handler runs, both controllers are idle. -/
def IdleBetween (m : Machine) : Prop := m.running = none → m.pics.Idle

/-- The line's handler acknowledges its interrupt. -/
def Acknowledged (line : Line) : Prop := line.val = 0 ∨ line.val = 1 ∨ line.val = 12

instance (line : Line) : Decidable (Acknowledged line) :=
  inferInstanceAs (Decidable (_ ∨ _ ∨ _))

/-- **The step that leaves a line in service**: the return of a handler that acknowledges
    nothing. -/
def LeavesInService (m : Machine) : Event → Prop
  | .iret => ∃ line, m.running = some (line, []) ∧ ¬ Acknowledged line
  | _ => False

/-! ## 3. Steps -/

/-- The handler of each line, by cases on the sixteen vectors. -/
theorem handler_cases : ∀ n < 16, n ≠ 2 → loadIdt (irqOffset + n) =
    if n = 0 then .timer else if n = 1 then .keyboard else if n = 12 then .ps2Mouse
    else .idHandler := by decide

/-- **The handlers**: those of the acknowledged lines send an end of interrupt to each controller
    of the line's path, the others send none. -/
theorem handler_writes (line : Line) :
    (Acknowledged line → ∀ p : Pair, line.handler.writes.foldl out8 p =
      (Pair.path line.val).foldl Pair.command p) ∧
      (¬ Acknowledged line → line.handler.writes = []) := by
  obtain ⟨n, hn, hne⟩ := line
  have hcases := handler_cases n hn hne
  unfold Line.handler Acknowledged
  dsimp only at *
  rw [hcases]
  refine ⟨fun h p => ?_, fun h => ?_⟩
  · rcases h with rfl | rfl | rfl
    · rfl
    · rfl
    · rfl
  · rw [not_or, not_or] at h
    rw [if_neg h.1, if_neg h.2.1, if_neg h.2.2]
    rfl

/-- **What holds at every moment**: no handler runs and both controllers are idle; or the running
    handler acknowledges its line and its remaining writes will leave them idle; or it writes
    nothing and they are not. -/
def Sound (m : Machine) : Prop :=
  match m.running with
  | none => m.pics.Idle
  | some (line, ws) =>
    if Acknowledged line then (ws.foldl out8 m.pics).Idle else ws = [] ∧ ¬ m.pics.Idle

/-- Two pairs with the same bits in service. -/
def SameService (p q : Pair) : Prop := p.first = q.first ∧ p.second = q.second

theorem out8_same {p q : Pair} (h : SameService p q) (w : Nat × BitVec 8) :
    SameService (out8 p w) (out8 q w) := by
  obtain ⟨h1, h2⟩ := h
  unfold out8 Pair.command SameService
  split_ifs
  · exact ⟨congrArg eoi h1, h2⟩
  · exact ⟨h1, congrArg eoi h2⟩
  · exact ⟨h1, h2⟩

/-- Writes do not look at the lines raised. -/
theorem writes_same (ws : List (Nat × BitVec 8)) {p q : Pair} (h : SameService p q) :
    (ws.foldl out8 p).Idle ↔ (ws.foldl out8 q).Idle := by
  induction ws generalizing p q with
  | nil =>
      show p.Idle ↔ q.Idle
      unfold Pair.Idle
      rw [h.1, h.2]
  | cons w ws ih => exact ih (out8_same h w)

theorem sound_raise {m : Machine} (h : Sound m) (line : Line) :
    Sound { m with pics := m.pics.raise line.val } := by
  obtain ⟨p, r⟩ := m
  cases r with
  | none => exact h
  | some r =>
      obtain ⟨l, ws⟩ := r
      unfold Sound at h ⊢
      dsimp only at h ⊢
      by_cases ha : Acknowledged l
      · rw [if_pos ha] at h ⊢
        have hsame : SameService (p.raise line.val) p := ⟨rfl, rfl⟩
        exact (writes_same ws hsame).mpr h
      · rw [if_neg ha] at h ⊢
        exact h

/-- A delivery to an idle pair is sound: the handler's writes take it back, or there are none. -/
theorem sound_deliver {p : Pair} (h : p.Idle) (line : Line) :
    Sound ⟨p.deliver line.val, some (line, line.handler.writes)⟩ := by
  obtain ⟨hack, hnone⟩ := handler_writes line
  unfold Sound
  dsimp only
  by_cases ha : Acknowledged line
  · rw [if_pos ha, hack ha]
    exact Pair.deliver_eoi h line.lt
  · rw [if_neg ha]
    exact ⟨hnone ha, Pair.deliver_not_idle p line.val⟩

/-- A write of the running handler is one its acknowledgement counts on. -/
theorem sound_write {p : Pair} {line : Line} {w : Nat × BitVec 8} {ws : List (Nat × BitVec 8)}
    (h : Sound ⟨p, some (line, w :: ws)⟩) : Sound ⟨out8 p w, some (line, ws)⟩ := by
  unfold Sound at h ⊢
  dsimp only at h ⊢
  by_cases ha : Acknowledged line
  · rw [if_pos ha] at h ⊢
    exact h
  · rw [if_neg ha] at h
    exact absurd h.1 (List.cons_ne_nil w ws)

/-- A handler that has made its writes leaves the controllers idle exactly when its line is
    acknowledged. -/
theorem sound_iret {p : Pair} {line : Line} (h : Sound ⟨p, some (line, [])⟩) :
    p.Idle ↔ Acknowledged line := by
  unfold Sound at h
  dsimp only at h
  by_cases ha : Acknowledged line
  · rw [if_pos ha] at h
    exact iff_of_true h ha
  · rw [if_neg ha] at h
    exact iff_of_false h.2 ha

/-- The return of a handler leaves its line in service when it is not acknowledged. -/
theorem leavesInService_iret {p : Pair} {line : Line} :
    LeavesInService ⟨p, some (line, [])⟩ .iret ↔ ¬ Acknowledged line := by
  constructor
  · intro h
    obtain ⟨line', he, hn⟩ := h
    cases he
    exact hn
  · exact fun hn => ⟨line, rfl, hn⟩

/-- **One step keeps `Sound`**, unless it leaves a line in service; then it does not. -/
theorem step_sound {m m' : Machine} {e : Event} (h : Sound m) (hs : step m e = some m') :
    Sound m' ↔ ¬ LeavesInService m e := by
  obtain ⟨p, r⟩ := m
  cases e with
  | raise line =>
      cases hs
      exact iff_of_true (sound_raise h line) id
  | deliver line =>
      cases r with
      | some r => cases hs
      | none =>
          simp only [step] at hs
          split_ifs at hs
          cases hs
          exact iff_of_true (sound_deliver h line) id
  | write =>
      cases r with
      | none => cases hs
      | some r =>
          obtain ⟨line, ws⟩ := r
          cases ws with
          | nil => cases hs
          | cons w ws =>
              cases hs
              exact iff_of_true (sound_write h) id
  | iret =>
      cases r with
      | none => cases hs
      | some r =>
          obtain ⟨line, ws⟩ := r
          cases ws with
          | cons w ws => cases hs
          | nil =>
              cases hs
              rw [leavesInService_iret, not_not]
              exact sound_iret h

/-- What is sound is idle between handlers. -/
theorem Sound.idleBetween {m : Machine} (h : Sound m) : IdleBetween m := by
  intro hr
  unfold Sound at h
  rw [hr] at h
  exact h

/-! ## 4. Runs -/

/-- No step of the run leaves a line in service. -/
def NeverLeaves (es : List Event) : Prop :=
  ∀ pre e m us, pre ++ [e] <+: es → run start pre = some (m, us) → ¬ LeavesInService m e

/-- Every moment of the run has idle controllers between handlers. -/
def AlwaysIdleBetween (es : List Event) : Prop :=
  ∀ pre m us, pre <+: es → run start pre = some (m, us) → IdleBetween m

theorem run_snoc {pre : List Event} {e : Event} {m' : Machine} {us : List Unit} :
    run start (pre ++ [e]) = some (m', us) →
      ∃ m us', run start pre = some (m, us') ∧ step m e = some m' := by
  intro h
  obtain ⟨m, us', us'', h1, h2, _⟩ := Exec.run_append.mp h
  obtain ⟨m'', b, bs, hs, hnil, _⟩ := Exec.run_cons.mp h2
  cases hnil
  obtain ⟨m₁, hm₁, he⟩ := Option.map_eq_some_iff.mp hs
  cases he
  exact ⟨m, us', h1, hm₁⟩

/-- While no step leaves a line in service the run is sound. -/
theorem run_sound {es : List Event} (hno : NeverLeaves es) {m : Machine} {us : List Unit}
    (h : run start es = some (m, us)) : Sound m := by
  induction es using List.reverseRecOn generalizing m us with
  | nil =>
      cases h
      exact ⟨rfl, rfl⟩
  | append_singleton es e ih =>
      obtain ⟨m₀, us₀, h0, hs⟩ := run_snoc h
      have hno' : NeverLeaves es := fun pre e' m' us' hp =>
        hno pre e' m' us' (hp.trans (List.prefix_append es [e]))
      exact (step_sound (ih hno' h0) hs).mpr (hno es e m₀ us₀ List.prefix_rfl h0)

/-- A run idle between handlers at every moment is sound at every moment. -/
theorem sound_of_idle {es : List Event} (hidle : AlwaysIdleBetween es) {m : Machine}
    {us : List Unit} (h : run start es = some (m, us)) : Sound m := by
  induction es using List.reverseRecOn generalizing m us with
  | nil =>
      cases h
      exact ⟨rfl, rfl⟩
  | append_singleton es e ih =>
      obtain ⟨m₀, us₀, h0, hs⟩ := run_snoc h
      have hm₀ : Sound m₀ := ih (fun pre m' us' hp =>
        hidle pre m' us' (hp.trans (List.prefix_append es [e]))) h0
      by_contra hno
      -- only the return of a handler can end it, and after a return the pair would be idle
      have hleaves : LeavesInService m₀ e := by
        by_contra hn
        exact hno ((step_sound hm₀ hs).mpr hn)
      cases e with
      | raise line => exact hleaves
      | deliver line => exact hleaves
      | write => exact hleaves
      | iret =>
          obtain ⟨line, hr, _⟩ := hleaves
          have hm : m.running = none := by
            unfold step at hs
            rw [hr] at hs
            cases hs
            rfl
          have hi := hidle _ m us List.prefix_rfl h hm
          refine hno ?_
          unfold Sound
          rw [hm]
          exact hi

/-- **Both controllers are idle between handlers over a run exactly when no handler of the run
    returns without an acknowledgement.** -/
theorem idle_iff (es : List Event) : AlwaysIdleBetween es ↔ NeverLeaves es := by
  constructor
  · intro hidle pre e m us hpre hrun hleaves
    -- the step can be taken, so the run goes on to a sound state
    obtain ⟨m', hs⟩ : ∃ m', step m e = some m' := by
      cases e with
      | raise line => exact absurd hleaves id
      | deliver line => exact absurd hleaves id
      | write => exact absurd hleaves id
      | iret =>
          obtain ⟨line, hr, _⟩ := hleaves
          unfold step
          rw [hr]
          exact ⟨_, rfl⟩
    have hrun' : run start (pre ++ [e]) = some (m', us ++ [()]) := by
      refine Exec.run_append.mpr ⟨m, us, [()], hrun, Exec.run_cons.mpr ⟨m', (), [], ?_, rfl, rfl⟩, rfl⟩
      rw [hs]
      rfl
    have hsub : ∀ es', es' <+: es → AlwaysIdleBetween es' := fun es' hes pre' m₁ us₁ hp =>
      hidle pre' m₁ us₁ (hp.trans hes)
    have hm := sound_of_idle (hsub pre ((List.prefix_append pre [e]).trans hpre)) hrun
    have hm' := sound_of_idle (hsub _ hpre) hrun'
    exact (step_sound hm hs).mp hm' hleaves
  · intro hno pre m us hpre hrun
    have hno' : NeverLeaves pre := fun pre' e' m' us' hp => hno pre' e' m' us' (hp.trans hpre)
    exact (run_sound hno' hrun).idleBetween

/-- The first serial port's line: its handler returns and line 4 stays in service. -/
theorem not_idle_serial : ¬ AlwaysIdleBetween
    [.raise ⟨4, by decide, by decide⟩, .deliver ⟨4, by decide, by decide⟩, .iret] := by
  intro h
  have hrun : ∃ m us, run start [.raise ⟨4, by decide, by decide⟩,
      .deliver ⟨4, by decide, by decide⟩, .iret] = some (m, us) ∧ m.running = none ∧
      m.pics.first = 0x10#8 := ⟨_, _, rfl, rfl, rfl⟩
  obtain ⟨m, us, hm, hr, hfirst⟩ := hrun
  have hi := (h _ m us List.prefix_rfl hm hr).1
  rw [hfirst] at hi
  exact absurd hi (by decide)

end OsPlayground.Interrupt
