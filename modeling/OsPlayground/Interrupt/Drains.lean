/-
  File:      OsPlayground/Interrupt/Drains.lean
  Subject:   WHEN KEYBOARD INPUT GETS THROUGH. Keyboard and mouse share a port that holds one byte,
             and `handle_ps2_mouse` does not read it.

  * `portStep` -- what a step does to the port and to line 1;
  * `served_step`, `unserved_step` -- what the keyboard's service depends on: line 1 not masked, and
    raised for the byte in the port. The mouse's byte ends it, and so for good;
  * `finish_entered`, `take_full` -- a handler is run to its end, and the next byte is handled;
  * **`input_drains`** -- so from every state reached the bytes sent so far can all be handled
    exactly when the input is served, whatever lines `id_handler` left in service.
-/
import OsPlayground.Interrupt.Input

namespace OsPlayground.Input

open Keyboard Vga

variable {con : Console} {sent : List (BitVec 8)} {s s' : System}

/-! ## 1. The port -/

/-- **The input is served**: line 1 is not masked, and it is raised for the byte in the port or its
    handler is about to read it. -/
def Served (s : System) : Prop :=
  s.masks.Passes 1 ∧ (s.full = true → s.stage = .entered ∨ s.lines.pics.raised 1 = true)

/-- The port, line 1 and whether its handler is about to read are as before. -/
structure SamePort (s s' : System) : Prop where
  full : s'.full = s.full
  raised : s'.lines.pics.raised 1 = s.lines.pics.raised 1
  entered : s'.stage = .entered ↔ s.stage = .entered

/-- **What a step does to the port**, from state `s` to `s'`. -/
inductive PortStep (s s' : System) : Happening → Prop
  | kept {e : Happening} (same : SamePort s s') (bytes : pending s' = pending s ++ pressed e) :
      PortStep s s' e
  | filled (empty : s.full = false) (raised : s'.lines.pics.raised 1 = true)
      (bytes : pending s' = pending s) : PortStep s s' .transfer
  | moved {b : BitVec 8} (empty : s.full = false) (bytes : pending s' = pending s) :
      PortStep s s' (.move b)
  | taken {line : Interrupt.Line} (raised : s.lines.pics.raised 1 = true)
      (passes : s.masks.Passes 1) (entered : s'.stage = .entered) : PortStep s s' (.deliver line)
  | read (entered : s.stage = .entered) (empty : s'.full = false) : PortStep s s' .read

/-- A delivery of another line keeps the port. -/
theorem portStep_other {line : Interrupt.Line} (h : Tracks con sent s) (hline : line.val ≠ 1)
    (hs : step s (.deliver line) = some s') : PortStep s s' (.deliver line) := by
  obtain ⟨m, hm, rfl⟩ := Option.map_eq_some_iff.mp hs
  obtain ⟨_, hnone, _, rfl⟩ := lines_deliver hm
  refine .kept ⟨rfl, ?_, ?_⟩ (List.append_nil _).symm
  · exact (deliver_raised _ _ _).trans (if_neg (Ne.symm hline))
  · dsimp only
    rw [if_neg hline]
    refine iff_of_false nofun fun hc => ?_
    have hst := h.stage
    unfold StageOk at hst
    rw [hc] at hst
    exact absurd (hnone.symm.trans hst.2.2.2) nofun

/-- **The inversion of a step**, as far as the port goes. -/
theorem portStep {e : Happening} (h : Tracks con sent s) (hs : step s e = some s') :
    s'.masks = s.masks ∧ PortStep s s' e := by
  have hentered : s.stage = .entered →
      s.lines.running = some (keyboardLine, keyboardLine.handler.writes) := by
    intro hc
    have hst := h.stage
    unfold StageOk at hst
    rw [hc] at hst
    exact hst.2.2.2
  cases e with
  | press b =>
      cases hs
      exact ⟨rfl, .kept ⟨rfl, rfl, Iff.rfl⟩ (List.append_assoc _ _ _).symm⟩
  | transfer =>
      obtain ⟨m, masks, data, full, mouse, queue, stage, console, display⟩ := s
      cases full with
      | true => cases queue <;> cases hs
      | false =>
          cases queue with
          | nil => cases hs
          | cons b queue =>
              cases hs
              exact ⟨rfl, .filled rfl (raise_raised _ _ _) rfl⟩
  | move b =>
      obtain ⟨m, masks, data, full, mouse, queue, stage, console, display⟩ := s
      cases full with
      | true => cases hs
      | false =>
          cases hs
          exact ⟨rfl, .moved rfl rfl⟩
  | raise line =>
      unfold step at hs
      dsimp only at hs
      split_ifs at hs with hline
      cases hs
      exact ⟨rfl, .kept ⟨rfl, raised_other _ hline, Iff.rfl⟩ (List.append_nil _).symm⟩
  | deliver line =>
      by_cases hline : line.val = 1
      · obtain ⟨m, hm, rfl⟩ := Option.map_eq_some_iff.mp hs
        obtain ⟨hpass, _, hcan, _⟩ := lines_deliver hm
        exact ⟨rfl, .taken (hline ▸ hcan.1) (hline ▸ hpass) (if_pos hline)⟩
      · have hmasks : s'.masks = s.masks := by
          obtain ⟨m, _, rfl⟩ := Option.map_eq_some_iff.mp hs
          rfl
        exact ⟨hmasks, portStep_other h hline hs⟩
  | read =>
      unfold step at hs
      cases hc : s.stage with
      | entered =>
          rw [hc] at hs
          cases hs
          exact ⟨rfl, .read hc rfl⟩
      | outside | got c | done =>
          rw [hc] at hs
          cases hs
  | decode =>
      unfold step at hs
      cases hc : s.stage with
      | got c =>
          rw [hc] at hs
          dsimp only at hs
          split at hs
          · cases hs
            refine ⟨rfl, .kept ⟨rfl, rfl, iff_of_false nofun ?_⟩ (List.append_nil _).symm⟩
            rw [hc]
            exact nofun
          · cases hs
      | outside | entered | done =>
          rw [hc] at hs
          cases hs
  | write =>
      unfold step at hs
      cases hc : s.stage with
      | entered | got c =>
          rw [hc] at hs
          cases hs
      | outside | done =>
          rw [hc] at hs
          obtain ⟨m, hm, rfl⟩ := Option.map_eq_some_iff.mp hs
          obtain ⟨l, w, ws, _, rfl⟩ := lines_write (Interrupt.step_of_masked hm)
          exact ⟨rfl, .kept ⟨rfl, congrFun (out8_raised _ _) 1, Iff.rfl⟩ (List.append_nil _).symm⟩
  | iret =>
      obtain ⟨m, hm, rfl⟩ := Option.map_eq_some_iff.mp hs
      obtain ⟨l, hrun, rfl⟩ := lines_iret (Interrupt.step_of_masked hm)
      refine ⟨rfl, .kept ⟨rfl, rfl, iff_of_false nofun fun hc => ?_⟩ (List.append_nil _).symm⟩
      -- the keyboard's handler has its writes to make
      have hwrites := hrun.symm.trans (hentered hc)
      cases hwrites

/-- **Served input stays served** while the mouse is not moved. -/
theorem served_step {e : Happening} (h : Tracks con sent s) (hs : step s e = some s')
    (he : ∀ b, e ≠ .move b) (hserved : Served s) : Served s' := by
  obtain ⟨hmasks, hport⟩ := portStep h hs
  refine ⟨hmasks ▸ hserved.1, fun hfull => ?_⟩
  cases hport with
  | kept same _ =>
      rw [same.full] at hfull
      rw [same.entered, same.raised]
      exact hserved.2 hfull
  | filled _ raised _ => exact Or.inr raised
  | moved _ _ => exact absurd rfl (he _)
  | taken _ _ entered => exact Or.inl entered
  | read _ empty =>
      rw [empty] at hfull
      cases hfull

/-- **Input that is not served stays so**, and no byte of it is read any more. -/
theorem unserved_step {e : Happening} (h : Tracks con sent s) (hs : step s e = some s')
    (hnot : ¬ Served s) : ¬ Served s' ∧ pending s' = pending s ++ pressed e := by
  obtain ⟨hmasks, hport⟩ := portStep h hs
  -- where line 1 passes the masks the port is full
  have hfull : s.masks.Passes 1 → s.full = true := by
    intro hpass
    by_contra hempty
    exact hnot ⟨hpass, fun hf => absurd hf hempty⟩
  cases hport with
  | kept same bytes =>
      refine ⟨fun hserved => hnot ⟨hmasks ▸ hserved.1, fun hf => ?_⟩, bytes⟩
      have hnext := hserved.2 (same.full.trans hf)
      rw [same.entered, same.raised] at hnext
      exact hnext
  | filled empty _ bytes =>
      refine ⟨fun hserved => ?_, bytes.trans (List.append_nil _).symm⟩
      have hf := hfull (hmasks ▸ hserved.1)
      rw [empty] at hf
      cases hf
  | moved empty bytes =>
      refine ⟨fun hserved => ?_, bytes.trans (List.append_nil _).symm⟩
      have hf := hfull (hmasks ▸ hserved.1)
      rw [empty] at hf
      cases hf
  | taken raised passes _ => exact absurd ⟨passes, fun _ => Or.inr raised⟩ hnot
  | read entered _ =>
      have hst := h.stage
      unfold StageOk at hst
      rw [entered] at hst
      exact absurd ⟨hst.2.2.1, fun _ => Or.inl entered⟩ hnot

/-- **A byte of the mouse's in the port** is never served. -/
theorem unserved_of_mouse (h : Tracks con sent s) (hfull : s.full = true) (hmouse : s.mouse = true) :
    ¬ Served s := by
  intro hserved
  have hnot : ¬ Typed s := fun ht => absurd (hmouse.symm.trans ht.2) nofun
  have hst := h.stage
  unfold StageOk at hst
  rcases hserved.2 hfull with hc | hraised
  · rw [hc] at hst
    exact hnot hst.1
  · cases hc : s.stage with
    | outside =>
        rw [hc] at hst
        exact hnot (hst.1 hraised)
    | entered =>
        rw [hc] at hst
        exact hnot hst.1
    | got c =>
        rw [hc] at hst
        exact hnot (hst.1 hraised)
    | done =>
        rw [hc] at hst
        exact hnot (hst.1 hraised)

/-- Served input stays served over a run in which the mouse is not moved. -/
theorem served_run {hs : List Happening} {us : List Unit} (h : Tracks con sent s)
    (hrun : run s hs = some (s', us)) (hstill : ∀ e ∈ hs, ∀ b, e ≠ .move b) (hserved : Served s) :
    Served s' := by
  induction hs generalizing s sent us with
  | nil =>
      cases hrun
      exact hserved
  | cons e hs ih =>
      obtain ⟨u, _, us', hu, hrest, _⟩ := Exec.run_cons.mp hrun
      obtain ⟨u', hu', he⟩ := Option.map_eq_some_iff.mp hu
      cases he
      exact ih (tracks_step h hu') hrest (fun e' he' => hstill e' (List.mem_cons_of_mem e he'))
        (served_step h hu' (hstill e List.mem_cons_self) hserved)

/-- Input that is not served waits over every run. -/
theorem unserved_run {hs : List Happening} {us : List Unit} (h : Tracks con sent s)
    (hrun : run s hs = some (s', us)) (hnot : ¬ Served s) : pending s' = pending s ++ presses hs := by
  induction hs generalizing s sent us with
  | nil =>
      cases hrun
      exact (List.append_nil _).symm
  | cons e hs ih =>
      obtain ⟨u, _, us', hu, hrest, _⟩ := Exec.run_cons.mp hrun
      obtain ⟨u', hu', he⟩ := Option.map_eq_some_iff.mp hu
      cases he
      obtain ⟨hnext, hpend⟩ := unserved_step h hu' hnot
      rw [ih (tracks_step h hu') hrest hnext, hpend, List.append_assoc]
      rfl

/-! ## 2. Progress -/

/-- A step of the user's: a key or the mouse. -/
def Happening.ByUser : Happening → Prop
  | .press _ => True
  | .move _ => True
  | _ => False

/-- No handler runs. -/
def Between (s : System) : Prop := s.lines.running = none ∧ s.stage = .outside

/-- The steps of the run are none of the user's. -/
def Quiet (s s' : System) : Prop := ∃ hs us, run s hs = some (s', us) ∧ ∀ e ∈ hs, ¬ e.ByUser

theorem Quiet.refl (s : System) : Quiet s s := ⟨[], [], rfl, fun _ he => absurd he List.not_mem_nil⟩

theorem Quiet.trans {s s' s'' : System} (h : Quiet s s') (h' : Quiet s' s'') : Quiet s s'' := by
  obtain ⟨hs, us, hrun, hp⟩ := h
  obtain ⟨hs', us', hrun', hp'⟩ := h'
  refine ⟨hs ++ hs', us ++ us', Exec.run_append.mpr ⟨s', us, us', hrun, hrun', rfl⟩, fun e he => ?_⟩
  rcases List.mem_append.mp he with he | he
  · exact hp e he
  · exact hp' e he

theorem quiet_step {e : Happening} (h : step s e = some s') (he : ¬ e.ByUser) : Quiet s s' := by
  refine ⟨[e], [()], Exec.run_cons.mpr ⟨s', (), [], ?_, rfl, rfl⟩, fun e' he' => ?_⟩
  · rw [h]
    rfl
  · rw [List.mem_singleton.mp he']
    exact he

/-- Steps that are not the user's send no byte. -/
theorem presses_quiet {hs : List Happening} (h : ∀ e ∈ hs, ¬ e.ByUser) : presses hs = [] := by
  refine List.flatMap_eq_nil_iff.mpr fun e he => ?_
  have hno := h e he
  cases e with
  | press b => exact absurd trivial hno
  | move b | transfer | raise line | deliver line | read | decode | write | iret => rfl

theorem Tracks.quiet (h : Tracks con sent s) (hq : Quiet s s') : Tracks con sent s' := by
  obtain ⟨hs, us, hrun, hp⟩ := hq
  have hnext := tracks_run h hrun
  rwa [presses_quiet hp, List.append_nil] at hnext

theorem Quiet.served (hq : Quiet s s') (h : Tracks con sent s) (hserved : Served s) : Served s' := by
  obtain ⟨hs, us, hrun, hp⟩ := hq
  refine served_run h hrun (fun e he b heq => ?_) hserved
  rw [heq] at he
  exact hp _ he trivial

/-- A handler at its writes makes them and returns. -/
theorem finish_writes {l : Interrupt.Line} {ws : List (Nat × BitVec 8)}
    (hrun : s.lines.running = some (l, ws)) (hst : s.stage = .outside ∨ s.stage = .done) :
    ∃ s', Quiet s s' ∧ Between s' ∧ pending s' = pending s := by
  induction ws generalizing s with
  | nil =>
      refine ⟨{ s with lines := { s.lines with running := none }, stage := .outside }, ?_,
        ⟨rfl, rfl⟩, rfl⟩
      refine quiet_step (e := .iret) ?_ id
      unfold step onLines Interrupt.maskedStep Interrupt.step
      dsimp only
      rw [hrun]
      rfl
  | cons w ws ih =>
      have hstep : step s .write =
          some { s with lines := ⟨Interrupt.out8 s.lines.pics w, some (l, ws)⟩ } := by
        unfold step onLines Interrupt.maskedStep Interrupt.step
        dsimp only
        rcases hst with hst | hst
        · rw [hst, hrun]
          rfl
        · rw [hst, hrun]
          rfl
      obtain ⟨s', hq, hb, hp⟩ :=
        ih (s := { s with lines := ⟨Interrupt.out8 s.lines.pics w, some (l, ws)⟩ }) rfl hst
      exact ⟨s', (quiet_step hstep id).trans hq, hb, hp⟩

/-- A handler with a byte in hand decodes it and returns. -/
theorem finish_got (h : Tracks con sent s) {c : BitVec 8} (hc : s.stage = .got c) :
    ∃ s', Quiet s s' ∧ Between s' ∧ pending s' = pending s := by
  obtain ⟨u, hu, hdone, hlines, hpend⟩ := h.decodes hc
  have hst := h.stage
  unfold StageOk at hst
  rw [hc] at hst
  obtain ⟨s', hq, hb, hp⟩ := finish_writes (hlines ▸ hst.2) (Or.inr hdone)
  exact ⟨s', (quiet_step hu id).trans hq, hb, hp.trans hpend⟩

/-- A handler that has been entered reads the byte of the port, decodes it and returns. -/
theorem finish_entered (h : Tracks con sent s) (hc : s.stage = .entered) :
    ∃ s' b, Quiet s s' ∧ Between s' ∧ pending s = b :: pending s' := by
  have hst := h.stage
  unfold StageOk at hst
  rw [hc] at hst
  have hread : step s .read = some { s with stage := .got s.data, full := false } := by
    unfold step
    rw [hc]
  have hq := quiet_step hread id
  obtain ⟨s', hq', hb, hp⟩ := finish_got (h.quiet hq) rfl
  refine ⟨s', s.data, hq.trans hq', hb, ?_⟩
  rw [hp]
  unfold pending
  rw [if_pos hst.1, if_neg fun ht => absurd ht.1 nofun]
  rfl

/-- **The running handler can be finished.** -/
theorem finish (h : Tracks con sent s) :
    ∃ s', Quiet s s' ∧ Between s' ∧ (pending s').length ≤ (pending s).length := by
  cases hc : s.stage with
  | outside =>
      cases hr : s.lines.running with
      | none => exact ⟨s, .refl s, ⟨hr, hc⟩, Nat.le_refl _⟩
      | some r =>
          obtain ⟨l, ws⟩ := r
          obtain ⟨s', hq, hb, hp⟩ := finish_writes hr (Or.inl hc)
          exact ⟨s', hq, hb, le_of_eq (congrArg List.length hp)⟩
  | entered =>
      obtain ⟨s', b, hq, hb, hp⟩ := finish_entered h hc
      refine ⟨s', hq, hb, ?_⟩
      rw [hp, List.length_cons]
      exact Nat.le_succ _
  | got c =>
      obtain ⟨s', hq, hb, hp⟩ := finish_got h hc
      exact ⟨s', hq, hb, le_of_eq (congrArg List.length hp)⟩
  | done =>
      have hst := h.stage
      unfold StageOk at hst
      rw [hc] at hst
      obtain ⟨_, ws, hws⟩ := hst
      obtain ⟨s', hq, hb, hp⟩ := finish_writes hws (Or.inr hc)
      exact ⟨s', hq, hb, le_of_eq (congrArg List.length hp)⟩

/-- Between handlers a served byte in the port is taken by the keyboard's handler. -/
theorem take_full (h : Tracks con sent s) (hb : Between s) (hserved : Served s)
    (hfull : s.full = true) : ∃ s' b, Quiet s s' ∧ Between s' ∧ pending s = b :: pending s' := by
  obtain ⟨hbetween, hout⟩ := hb
  have hraised : s.lines.pics.raised 1 = true :=
    (hserved.2 hfull).resolve_left (by rw [hout]; exact nofun)
  have hcan : s.lines.pics.CanDeliver keyboardLine.val := h.reached.canDeliver hbetween hraised
  have hpass : s.masks.Passes keyboardLine.val := hserved.1
  have hdeliver : step s (.deliver keyboardLine) =
      some { s with
        lines := ⟨s.lines.pics.deliver keyboardLine.val,
          some (keyboardLine, keyboardLine.handler.writes)⟩
        stage := .entered } := by
    unfold step onLines Interrupt.maskedStep Interrupt.step
    dsimp only
    rw [hbetween]
    dsimp only
    rw [if_pos hpass, if_pos hcan]
    rfl
  have hq := quiet_step hdeliver id
  obtain ⟨s', b, hq', hb', hp⟩ := finish_entered (h.quiet hq) rfl
  exact ⟨s', b, hq.trans hq', hb', hp⟩

/-- **Between handlers the next byte can be handled** when the input is served. -/
theorem take_next (h : Tracks con sent s) (hb : Between s) (hserved : Served s)
    (hne : pending s ≠ []) : ∃ s' b, Quiet s s' ∧ Between s' ∧ pending s = b :: pending s' := by
  cases hfull : s.full with
  | true => exact take_full h hb hserved hfull
  | false =>
      -- the keyboard hands the next byte over first
      have hempty : pending s = s.queue := by
        unfold pending
        rw [if_neg fun ht => Bool.false_ne_true (hfull.symm.trans ht.1)]
        rfl
      cases hqueue : s.queue with
      | nil => exact absurd (hempty.trans hqueue) hne
      | cons b queue =>
          obtain ⟨u, hu⟩ : ∃ u, u = { s with
              lines := { s.lines with pics := s.lines.pics.raise keyboardLine.val }
              data := b, full := true, mouse := false, queue := queue } := ⟨_, rfl⟩
          have htransfer : step s .transfer = some u := by
            unfold step onLines Interrupt.maskedStep
            dsimp only
            rw [hfull, hqueue, lines_raise, hu]
            rfl
          have hq := quiet_step htransfer id
          have hbu : Between u := by
            rw [hu]
            exact hb
          obtain ⟨s', b', hq', hb', hp⟩ :=
            take_full (h.quiet hq) hbu (hq.served h hserved) (by rw [hu])
          refine ⟨s', b', hq.trans hq', hb', ?_⟩
          rw [← hp, hempty, hqueue, hu]
          rfl

/-- Between handlers all pending bytes can be handled. -/
theorem take_all {n : Nat} (h : Tracks con sent s) (hb : Between s) (hserved : Served s)
    (hn : (pending s).length = n) : ∃ s', Quiet s s' ∧ Between s' ∧ pending s' = [] := by
  induction n generalizing s with
  | zero => exact ⟨s, .refl s, hb, List.length_eq_zero_iff.mp hn⟩
  | succ n ih =>
      have hne : pending s ≠ [] := by
        intro h0
        rw [h0] at hn
        cases hn
      obtain ⟨u, b, hq, hbu, hp⟩ := take_next h hb hserved hne
      have hlen : (pending u).length = n := by
        rw [hp, List.length_cons] at hn
        exact Nat.succ.inj hn
      obtain ⟨s', hq', hb', hp'⟩ := ih (h.quiet hq) hbu (hq.served h hserved) hlen
      exact ⟨s', hq.trans hq', hb', hp'⟩

/-- All pending bytes can be handled where none is pending or the input is served. -/
theorem drain (h : Tracks con sent s) (hgo : pending s = [] ∨ Served s) :
    ∃ s', Quiet s s' ∧ Between s' ∧ pending s' = [] := by
  obtain ⟨u, hq, hbu, hle⟩ := finish h
  rcases hgo with hempty | hserved
  · rw [hempty, List.length_nil] at hle
    exact ⟨u, hq, hbu, List.length_eq_zero_iff.mp (Nat.le_zero.mp hle)⟩
  · obtain ⟨s', hq', hb', hp'⟩ := take_all (h.quiet hq) hbu (hq.served h hserved) rfl
    exact ⟨s', hq.trans hq', hb', hp'⟩

/-- The bytes sent so far can be handled to the last one without the user's help; the console is
    then what all of them make of it in order, and the display shows it. -/
def Drains (con : Console) (sent : List (BitVec 8)) (s : System) : Prop :=
  ∃ hs s' us, run s hs = some (s', us) ∧ (∀ e ∈ hs, ¬ e.ByUser) ∧ s'.lines.running = none ∧
    pending s' = [] ∧ ∃ rss, consoleRun con sent = some (s'.console, rss) ∧
      Shows s'.display s'.console.term

/-- **When the input drains.** In every state reached the bytes sent so far can be handled to the
    last one exactly when none of them is unread or the input is served, whichever lines
    `id_handler` left in service. A byte of the mouse's in the port ends the service; as long as
    there is none, input that was served at the start is. -/
theorem input_drains (s₀ : System) (h₀ : Subscribed s₀) (hs : List Happening) (s : System)
    (us : List Unit) (hrun : run s₀ hs = some (s, us)) :
    (Drains s₀.console (pending s₀ ++ presses hs) s ↔ pending s = [] ∨ Served s) ∧
      (s.full = true → s.mouse = true → ¬ Served s) ∧
      (Served s₀ → (∀ e ∈ hs, ∀ b, e ≠ .move b) → Served s) := by
  have h₀' := tracks_subscribed h₀
  have h := tracks_run h₀' hrun
  refine ⟨⟨fun hd => ?_, fun hgo => ?_⟩, unserved_of_mouse h,
    fun hserved hstill => served_run h₀' hrun hstill hserved⟩
  · obtain ⟨hs', s', us', hrun', hquiet, _, hempty, _⟩ := hd
    refine or_iff_not_imp_right.mpr fun hnot => ?_
    have hpend := unserved_run h hrun' hnot
    rw [hempty, presses_quiet hquiet, List.append_nil] at hpend
    exact hpend.symm
  · obtain ⟨s', ⟨hs', us', hrun', hquiet⟩, ⟨hnone, hout⟩, hempty⟩ := drain h hgo
    have h' := h.quiet ⟨hs', us', hrun', hquiet⟩
    obtain ⟨bytes, ⟨rss, hmade⟩, hall⟩ := h'.handled
    have hbytes : pending s₀ ++ presses hs = bytes := by
      rw [hall, hempty]
      simp [inHand, hout]
    exact ⟨hs', s', us', hrun', hquiet, hnone, hempty, rss, hbytes ▸ hmade, h'.shows⟩

/-- A key pressed while the port holds a byte of the mouse's. -/
def movedKey : List Happening := [.move 0x08#8, .press 0x1e#8]

/-- The key a, its byte in the handler's hand when the machine is left to itself: it is handled to
    the end. Behind a byte of the mouse's it is not. -/
theorem input_drains_first :
    (∃ s us, run booted firstKey = some (s, us) ∧
      Drains booted.console (pending booted ++ presses firstKey) s) ∧
    ∃ s us, run booted movedKey = some (s, us) ∧
      ¬ Drains booted.console (pending booted ++ presses movedKey) s := by
  constructor
  · obtain ⟨s, us, hrun⟩ : ∃ s us, run booted firstKey = some (s, us) := ⟨_, _, rfl⟩
    obtain ⟨hiff, _, hserved⟩ := input_drains booted booted_subscribed firstKey s us hrun
    refine ⟨s, us, hrun, hiff.mpr (Or.inr (hserved ⟨by decide, fun hf => ?_⟩ fun e he b => ?_))⟩
    · cases hf
    · simp only [firstKey, List.mem_cons, List.not_mem_nil, or_false] at he
      rcases he with rfl | rfl | rfl | rfl <;> exact nofun
  · obtain ⟨s, us, hrun, hfull, hmouse, hpend⟩ : ∃ s us, run booted movedKey = some (s, us) ∧
        s.full = true ∧ s.mouse = true ∧ pending s = [0x1e#8] := ⟨_, _, rfl, rfl, rfl, rfl⟩
    obtain ⟨hiff, hnot, _⟩ := input_drains booted booted_subscribed movedKey s us hrun
    refine ⟨s, us, hrun, fun hd => ?_⟩
    rcases hiff.mp hd with hempty | hserved
    · rw [hpend] at hempty
      cases hempty
    · exact hnot hfull hmouse hserved

end OsPlayground.Input
