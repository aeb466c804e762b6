/-
  File:      OsPlayground/Keyboard/Codes.lean
  Subject:   COMPLETE SCAN CODES: whether the decoder stays in step with a stream of them.

  A keyboard sends codes of one byte, or of two bytes with the prefix 0xe0. The decoder is in
  step with a stream when it is ready after every complete code and makes the calls the codes
  make one by one (`InStep`).

  * `feed_code` -- one code from the ready state: the decoder is ready again, or the code is an
    extended one the switch does not list;
  * `inStep_iff` -- so a stream is decoded in step exactly when every extended code in it is
    listed (`KeepsStep`). The switch has no `default`: an unlisted extended code leaves the
    state at `e0_b1`, and the next code is read as a second byte.
-/
import OsPlayground.Keyboard.Tracking

namespace OsPlayground.Keyboard

/-! ## 1. Codes -/

/-- A byte that is no prefix. -/
structure PlainByte where
  val : BitVec 8
  plain : val ≠ 0xe0#8 ∧ val ≠ 0xe1#8

/-- A complete code: one byte, or 0xe0 and one byte. -/
inductive ScanCode where
  | single (b : PlainByte)
  | extended (b : PlainByte)

namespace ScanCode

/-- The bytes the keyboard sends for a code. -/
def bytes : ScanCode → List (BitVec 8)
  | single b => [b.val]
  | extended b => [0xe0#8, b.val]

/-- The codes `handle_scan_code` knows: up to `_last`, or listed by the extended switch. -/
def Supported : ScanCode → Prop
  | single b => b.val.toNat % 128 ≤ KeyCode.last
  | extended b => b.val.toNat % 128 ∈ extendedCodes

/-- The codes after which the decoder is ready: all but the extended ones it does not know. -/
def KeepsStep : ScanCode → Prop
  | single _ => True
  | extended b => b.val.toNat % 128 ∈ extendedCodes

end ScanCode

open ScanCode

/-- The bytes of a stream of codes. -/
def stream (ws : List ScanCode) : List (BitVec 8) := ws.flatMap bytes

/-- What a code does on its own: decoded by a ready decoder, which is ready for the next. -/
def own (s : KeyboardState) (w : ScanCode) : Option (KeyboardState × List KeyEvent) :=
  (feed { s with scanState := .ready } w.bytes).map fun r =>
    ({ r.1 with scanState := .ready }, events r.2)

/-- **The decoder is in step** with a stream of codes: it is ready after each of them, the calls
    it makes are those of the codes on their own in order, and an unsupported code makes
    none. -/
def InStep (sub : Bool) (ws : List ScanCode) : Prop :=
  (∀ pre, pre <+: ws → ∃ s evss, feed (init sub) (stream pre) = some (s, evss) ∧
    s.scanState = .ready) ∧
  ∃ s evss t evss', feed (init sub) (stream ws) = some (s, evss) ∧
    Exec.run own (init sub) ws = some (t, evss') ∧
    calls s (events evss) = calls t evss'.flatten ∧
    List.Forall₂ (fun w evs => ¬ w.Supported → evs = []) ws evss'

/-! ## 2. One code -/

/-- A ready decoder is ready after a byte that is no prefix, and calls nobody for a code past
    `_last`. -/
theorem handle_single {s : KeyboardState} (hs : s.scanState = .ready) (b : PlainByte) :
    ∃ s' evs, handleScanCode s b.val = .ok (s', evs) ∧ s'.scanState = .ready ∧
      (¬ b.val.toNat % 128 ≤ KeyCode.last → evs = []) := by
  obtain ⟨c, h0, h1⟩ := b
  show ∃ s' evs, handleScanCode s c = .ok (s', evs) ∧ _ ∧ (¬ c.toNat % 128 ≤ _ → _)
  have hcode := code_toNat c
  unfold handleScanCode
  rw [hs]
  simp only [h0, h1, if_false]
  by_cases hb : breakBitSet c = true
  · rw [if_pos hb] at hcode ⊢
    by_cases hl : (unsetBreakBit c).toNat ≤ KeyCode.last
    · rw [if_pos hl]
      refine ⟨_, _, rfl, ?_, fun h => absurd (hcode ▸ hl) h⟩
      exact (keyUpdateState_scanState s _ false).trans hs
    · rw [if_neg hl]
      exact ⟨_, _, rfl, hs, fun _ => rfl⟩
  · rw [if_neg hb] at hcode ⊢
    by_cases hl : c.toNat ≤ KeyCode.last
    · rw [if_pos hl]
      refine ⟨_, _, rfl, ?_, fun h => absurd (hcode ▸ hl) h⟩
      exact (keyUpdateState_scanState s _ true).trans hs
    · rw [if_neg hl]
      exact ⟨_, _, rfl, hs, fun _ => rfl⟩

/-- After the prefix the decoder is ready again on a listed code only; on any other byte it
    stays as it is. -/
theorem handle_extended {s : KeyboardState} (hs : s.scanState = .e0b1) (c : BitVec 8) :
    ∃ s' evs, handleScanCode s c = .ok (s', evs) ∧
      (s'.scanState = .ready ↔ c.toNat % 128 ∈ extendedCodes) ∧
      (c.toNat % 128 ∉ extendedCodes → evs = []) := by
  have hcode := code_toNat c
  unfold handleScanCode
  rw [hs]
  simp only [hcode]
  by_cases hm : c.toNat % 128 ∈ extendedCodes
  · rw [if_pos hm]
    exact ⟨_, _, rfl, iff_of_true rfl hm, fun h => absurd hm h⟩
  · rw [if_neg hm]
    refine ⟨s, [], rfl, iff_of_false ?_ hm, fun _ => rfl⟩
    rw [hs]
    exact nofun

/-- **One code from the ready state**: the decoder is ready again exactly when the code keeps
    it in step, and an unsupported code makes no call. -/
theorem feed_code {s : KeyboardState} (hs : s.scanState = .ready) (w : ScanCode) :
    ∃ s' evss, feed s w.bytes = some (s', evss) ∧ (s'.scanState = .ready ↔ w.KeepsStep) ∧
      (¬ w.Supported → events evss = []) := by
  cases w with
  | single b =>
      obtain ⟨s', evs, h, hr, hev⟩ := handle_single hs b
      refine ⟨s', [evs], ?_, iff_of_true hr trivial, fun hn => ?_⟩
      · exact Exec.run_cons.mpr ⟨s', evs, [], Exec.toOption_eq_some.mpr h, rfl, rfl⟩
      · rw [hev hn]
        rfl
  | extended b =>
      have hpre : handleScanCode s 0xe0#8 = .ok ({ s with scanState := .e0b1 }, []) := by
        unfold handleScanCode
        rw [hs]
        rfl
      obtain ⟨s', evs, h, hr, hev⟩ :=
        handle_extended (s := { s with scanState := .e0b1 }) rfl b.val
      refine ⟨s', [[], evs], ?_, hr, fun hn => ?_⟩
      · exact Exec.run_cons.mpr ⟨_, _, _, Exec.toOption_eq_some.mpr hpre,
          Exec.run_cons.mpr ⟨s', evs, [], Exec.toOption_eq_some.mpr h, rfl, rfl⟩, rfl⟩
      · rw [hev hn]
        rfl

/-- On its own every code is decoded, and an unsupported one makes no call. -/
theorem own_spec (s : KeyboardState) (w : ScanCode) :
    ∃ s' evs, own s w = some (s', evs) ∧ (¬ w.Supported → evs = []) := by
  obtain ⟨s', evss, h, _, hev⟩ := feed_code (s := { s with scanState := .ready }) rfl w
  refine ⟨{ s' with scanState := .ready }, events evss, ?_, hev⟩
  unfold own
  rw [h]
  rfl

/-- A ready decoder does with a code that keeps it in step what the code does on its own. -/
theorem feed_own {s : KeyboardState} (hs : s.scanState = .ready) {w : ScanCode}
    (hw : w.KeepsStep) :
    ∃ s' evss, feed s w.bytes = some (s', evss) ∧ s'.scanState = .ready ∧
      own s w = some (s', events evss) := by
  obtain ⟨s', evss, h, hr, _⟩ := feed_code hs w
  have hready : s'.scanState = .ready := hr.mpr hw
  have hself : { s with scanState := .ready } = s := by rw [← hs]
  have hself' : { s' with scanState := .ready } = s' := by rw [← hready]
  refine ⟨s', evss, h, hready, ?_⟩
  unfold own
  rw [hself, h, Option.map_some, hself']

/-! ## 3. Streams of codes -/

theorem stream_append (ws ws' : List ScanCode) : stream (ws ++ ws') = stream ws ++ stream ws' :=
  List.flatMap_append

/-- Codes that keep the decoder in step, fed to a ready decoder, do what they do on their own. -/
theorem feed_stream {s : KeyboardState} {ws : List ScanCode} (hs : s.scanState = .ready)
    (hw : ∀ w ∈ ws, w.KeepsStep) :
    ∃ t evss evss', feed s (stream ws) = some (t, evss) ∧ t.scanState = .ready ∧
      Exec.run own s ws = some (t, evss') ∧ events evss = evss'.flatten := by
  induction ws generalizing s with
  | nil => exact ⟨s, [], [], rfl, hs, rfl, rfl⟩
  | cons w ws ih =>
      obtain ⟨s', evss, h, hs', hown⟩ := feed_own hs (hw w List.mem_cons_self)
      obtain ⟨t, bss, bss', hf, ht, hr, heq⟩ :=
        ih hs' fun w' hw' => hw w' (List.mem_cons_of_mem _ hw')
      refine ⟨t, evss ++ bss, events evss :: bss', ?_, ht, ?_, ?_⟩
      · exact Exec.run_append.mpr ⟨s', evss, bss, h, hf, rfl⟩
      · exact Exec.run_cons.mpr ⟨s', events evss, bss', hown, hr, rfl⟩
      · rw [List.flatten_cons, ← heq]
        exact List.flatten_append

/-- **The decoder is in step exactly with the streams whose extended codes are all listed.** -/
theorem inStep_iff (sub : Bool) (ws : List ScanCode) :
    InStep sub ws ↔ ∀ w ∈ ws, w.KeepsStep := by
  constructor
  · intro h w hw
    obtain ⟨hready, _⟩ := h
    obtain ⟨pre, post, rfl⟩ := List.append_of_mem hw
    obtain ⟨s, evss, hf, hs⟩ := hready pre ⟨w :: post, rfl⟩
    obtain ⟨t, evss', hf', ht⟩ := hready (pre ++ [w]) ⟨post, by simp⟩
    rw [stream_append] at hf'
    obtain ⟨u, bs, bs', h1, h2, _⟩ := Exec.run_append.mp hf'
    rw [feed, h1] at hf
    cases hf
    -- the last code alone takes the ready decoder to a ready one
    obtain ⟨s', cs, hc, hr, _⟩ := feed_code hs w
    have hone : stream [w] = w.bytes := List.flatMap_singleton ..
    rw [hone, ← feed, hc] at h2
    cases h2
    exact hr.mp ht
  · intro hw
    refine ⟨fun pre hpre => ?_, ?_⟩
    · obtain ⟨post, hpre⟩ := hpre
      have hsub : ∀ w ∈ pre, w.KeepsStep := fun w h =>
        hw w (hpre ▸ List.mem_append_left post h)
      obtain ⟨t, evss, _, hf, ht, _, _⟩ := feed_stream (s := init sub) rfl hsub
      exact ⟨t, evss, hf, ht⟩
    · obtain ⟨t, evss, evss', hf, _, hr, heq⟩ := feed_stream (s := init sub) rfl hw
      refine ⟨t, evss, t, evss', hf, hr, by rw [heq], ?_⟩
      refine Exec.run_forall₂ (fun _ => True) _ (fun s w s' evs _ h => ⟨trivial, ?_⟩) trivial hr
      obtain ⟨_, _, h', hev⟩ := own_spec s w
      rw [h] at h'
      cases h'
      exact hev

/-- The left Windows key, not listed, and then the key A: the decoder reads the make code of A
    as a second byte and is not ready after it. -/
theorem not_inStep_windows : ¬ InStep true
    [.extended ⟨0x5b#8, by decide⟩, .single ⟨0x1e#8, by decide⟩] := by
  intro h
  obtain ⟨hready, _⟩ := h
  obtain ⟨s, evss, hf, hs⟩ := hready _ List.prefix_rfl
  have e : (feed (init true) [0xe0#8, 0x5b#8, 0x1e#8]).map (fun r => r.1.scanState) =
      some .e0b1 := by decide
  have hb : stream [.extended ⟨0x5b#8, by decide⟩, .single ⟨0x1e#8, by decide⟩] =
      [0xe0#8, 0x5b#8, 0x1e#8] := rfl
  rw [hb] at hf
  rw [hf] at e
  simp only [Option.map_some, Option.some.injEq] at e
  rw [hs] at e
  exact absurd e (by decide)

end OsPlayground.Keyboard
