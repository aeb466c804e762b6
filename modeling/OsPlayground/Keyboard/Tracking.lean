/-
  File:      OsPlayground/Keyboard/Tracking.lean
  Subject:   KEY TRACKING over a whole stream of scan-code bytes.

  * `handleScanCode_cases` -- all a byte can do: change the decoder's state only, or run one key
    update for an accepted code;
  * `keyBit_update` -- a key update changes the bit of its own code only;
  * `feed_keyBit` -- so after every stream the bit of a code says whether its last update was a
    make;
  * `Overruns` -- the one step that leaves the array: the decoder is ready and the byte is the
    make or break code of F12 or of code 0x59, whose index is 11, the length of `key_states`.
    The byte written there is `lock_state`.
-/
import OsPlayground.Keyboard.State

namespace OsPlayground.Keyboard

/-! ## 1. What one byte does -/

/-- The decoder is in one of its two states. -/
def Live (s : KeyboardState) : Prop := s.scanState = .ready ∨ s.scanState = .e0b1

/-- **The step that leaves the array**: a ready decoder reads F12 or 0x59, pressed or
    released. -/
def Overruns (s : KeyboardState) (c : BitVec 8) : Prop :=
  s.scanState = .ready ∧ (c.toNat % 128 = KeyCode.f12 ∨ c.toNat % 128 = KeyCode.del)

/-- The accepted extended codes index the array. -/
theorem extendedCodes_lt : ∀ code ∈ extendedCodes, code ≤ KeyCode.last ∧ code / 8 < keyStatesLen := by
  decide

/-- The codes past the array, of those the decoder accepts. -/
theorem keyStatesLen_le_iff {code : Nat} (h : code ≤ KeyCode.last) :
    keyStatesLen ≤ code / 8 ↔ code = KeyCode.f12 ∨ code = KeyCode.del := by
  simp only [KeyCode.last, KeyCode.del, KeyCode.f12, keyStatesLen] at *
  omega

@[simp] theorem setStateByte_scanState (s : KeyboardState) (i : Nat) (v : BitVec 8) :
    (setStateByte s i v).scanState = s.scanState := by
  unfold setStateByte
  split <;> rfl

@[simp] theorem keyUpdateState_scanState (s : KeyboardState) (code : Nat) (make : Bool) :
    (keyUpdateState s code make).1.scanState = s.scanState := by
  unfold keyUpdateState keySetState keyUnsetState
  split <;> dsimp only <;> split_ifs <;> simp

/-- The code in a byte: what is left without the break bit. -/
theorem code_toNat (c : BitVec 8) :
    (if breakBitSet c then unsetBreakBit c else c).toNat = c.toNat % 128 := by
  revert c
  decide

/-- A byte that is no prefix, in the ready state: the code in it is updated up to the last one. -/
theorem handleScanCode_ready {s : KeyboardState} (hs : s.scanState = .ready) {c : BitVec 8}
    (h0 : c ≠ 0xe0#8) (h1 : c ≠ 0xe1#8) :
    handleScanCode s c = if c.toNat % 128 ≤ KeyCode.last then
      .ok ((keyUpdateState s (c.toNat % 128) (!breakBitSet c)).1,
        [(keyUpdateState s (c.toNat % 128) (!breakBitSet c)).2])
      else .ok (s, []) := by
  have hcode := code_toNat c
  generalize c.toNat % 128 = code at hcode ⊢
  unfold handleScanCode
  rw [hs]
  dsimp only
  rw [if_neg h0, if_neg h1]
  cases hb : breakBitSet c with
  | true =>
      rw [hb, if_pos rfl] at hcode
      rw [if_pos rfl, hcode]
      rfl
  | false =>
      rw [hb, if_neg Bool.false_ne_true] at hcode
      rw [if_neg Bool.false_ne_true, hcode]
      rfl

/-- A byte after the prefix: the code in it is updated where the switch has it. -/
theorem handleScanCode_e0b1 {s : KeyboardState} (hs : s.scanState = .e0b1) (c : BitVec 8) :
    handleScanCode s c = if c.toNat % 128 ∈ extendedCodes then
      .ok ({ (keyUpdateState s (c.toNat % 128) (!breakBitSet c)).1 with scanState := .ready },
        [(keyUpdateState s (c.toNat % 128) (!breakBitSet c)).2])
      else .ok (s, []) := by
  unfold handleScanCode
  rw [hs]
  dsimp only
  rw [code_toNat c]

/-- **All a byte can do**: the decoder's state changes and nothing else, or the accepted code in
    the byte is updated and the decoder is ready. The code is past the array on an overrun
    only; a code of the extended switch is always updated. -/
theorem handleScanCode_cases {s : KeyboardState} (hs : Live s) (c : BitVec 8) :
    (∃ st, (st = .ready ∨ st = .e0b1) ∧ ¬ Overruns s c ∧ c.toNat % 128 ∉ extendedCodes ∧
      handleScanCode s c = .ok ({ s with scanState := st }, [])) ∨
    (∃ code make, code = c.toNat % 128 ∧ make = !breakBitSet c ∧
      code ≤ KeyCode.last ∧ (keyStatesLen ≤ code / 8 ↔ Overruns s c) ∧
      handleScanCode s c = .ok ({ (keyUpdateState s code make).1 with scanState := .ready },
        [(keyUpdateState s code make).2])) := by
  rcases hs with hs | hs
  · -- ready: the byte is a prefix, a code above the last one, or an accepted code
    have hself : { s with scanState := .ready } = s := by rw [← hs]
    have hupd : ∀ code make, { (keyUpdateState s code make).1 with scanState := .ready } =
        (keyUpdateState s code make).1 := by
      intro code make
      rw [← hs, ← keyUpdateState_scanState s code make]
    have hover : Overruns s c ↔ c.toNat % 128 = KeyCode.f12 ∨ c.toNat % 128 = KeyCode.del := by
      simp only [Overruns, hs, true_and]
    by_cases h0 : c = 0xe0#8
    · refine Or.inl ⟨.e0b1, Or.inr rfl, ?_, ?_, by simp [handleScanCode, hs, h0]⟩
      · rw [hover, h0]
        decide
      · rw [h0]
        decide
    by_cases h1 : c = 0xe1#8
    · refine Or.inl ⟨.ready, Or.inl rfl, ?_, ?_, by simp [handleScanCode, hs, h1]⟩
      · rw [hover, h1]
        decide
      · rw [h1]
        decide
    rw [handleScanCode_ready hs h0 h1]
    by_cases hl : c.toNat % 128 ≤ KeyCode.last
    · refine Or.inr ⟨c.toNat % 128, !breakBitSet c, rfl, rfl, hl, ?_, ?_⟩
      · rw [hover, keyStatesLen_le_iff hl]
      · rw [if_pos hl, hupd]
    · refine Or.inl ⟨.ready, Or.inl rfl, ?_, fun h => hl (extendedCodes_lt _ h).1, ?_⟩
      · rw [hover]
        simp only [KeyCode.last, KeyCode.del, KeyCode.f12] at *
        omega
      · rw [if_neg hl, hself]
  · -- after the prefix: an accepted extended code, or the state is kept
    have hno : ¬ Overruns s c := by
      intro ⟨h, _⟩
      rw [hs] at h
      cases h
    have hself : { s with scanState := .e0b1 } = s := by rw [← hs]
    rw [handleScanCode_e0b1 hs]
    by_cases hm : c.toNat % 128 ∈ extendedCodes
    · obtain ⟨hl, hi⟩ := extendedCodes_lt _ hm
      exact Or.inr ⟨_, _, rfl, rfl, hl, ⟨fun h => absurd hi (Nat.not_lt.mpr h),
        fun h => absurd h hno⟩, if_pos hm⟩
    · exact Or.inl ⟨.e0b1, Or.inr rfl, hno, hm, by rw [if_neg hm, hself]⟩

/-! ## 2. What one key update does -/

/-- The bit `key_set_state` and `key_unset_state` keep for a code. -/
def keyBit (s : KeyboardState) (k : Nat) : Bool := Bits.bit (stateByte s) k

/-- Up to the byte behind the array a write is read back, and nothing else changes. -/
theorem stateByte_set (s : KeyboardState) (v : BitVec 8) {i j : Nat} (hi : i ≤ keyStatesLen)
    (hj : j ≤ keyStatesLen) :
    stateByte (setStateByte s i v) j = Function.update (stateByte s) i v j := by
  by_cases hij : j = i
  · subst hij
    rw [Function.update_self]
    unfold stateByte setStateByte
    by_cases h : j < keyStatesLen <;> simp [h]
  · rw [Function.update_of_ne hij]
    unfold stateByte setStateByte
    by_cases h : i < keyStatesLen
    · by_cases h' : j < keyStatesLen <;> simp [h, h', hij]
    · have h' : j < keyStatesLen := by omega
      simp [h, h']

theorem index_le {code : Nat} (h : code ≤ KeyCode.last) : code / 8 ≤ keyStatesLen := by
  simp only [KeyCode.last, KeyCode.del, keyStatesLen] at *
  omega

/-- The modifier update leaves the bytes of the array and `lock_state` alone. -/
theorem keyUpdateState_bytes (s : KeyboardState) (code : Nat) (make : Bool) :
    ∃ v, v = (if make then stateByte s (code / 8) ||| (1#8 <<< (code % 8))
        else stateByte s (code / 8) &&& ~~~(1#8 <<< (code % 8))) ∧
      (keyUpdateState s code make).1.keyStates = (setStateByte s (code / 8) v).keyStates ∧
      (keyUpdateState s code make).1.lockState = (setStateByte s (code / 8) v).lockState := by
  refine ⟨_, rfl, ?_⟩
  cases make <;> simp only [keyUpdateState, keySetState, keyUnsetState] <;> split_ifs <;> simp

/-- The event of a key update names its code, its direction and the lock state it leaves. -/
theorem keyUpdateState_event (s : KeyboardState) (code : Nat) (make : Bool) :
    (keyUpdateState s code make).2.code = code ∧ (keyUpdateState s code make).2.make = make ∧
      (keyUpdateState s code make).2.lockState = (keyUpdateState s code make).1.lockState := by
  cases make <;> exact ⟨rfl, rfl, rfl⟩

/-- **A key update changes the bit of its own code only.** -/
theorem keyBit_update (s : KeyboardState) (make : Bool) {code k : Nat} (hc : code ≤ KeyCode.last)
    (hk : k ≤ KeyCode.last) :
    keyBit (keyUpdateState s code make).1 k = if k = code then make else keyBit s k := by
  obtain ⟨v, hv, h1, h2⟩ := keyUpdateState_bytes s code make
  have hbyte : stateByte (keyUpdateState s code make).1 (k / 8) =
      Function.update (stateByte s) (code / 8) v (k / 8) := by
    rw [← stateByte_set s v (index_le hc) (index_le hk)]
    simp only [stateByte, h1, h2]
  have hbit : keyBit (keyUpdateState s code make).1 k =
      Bits.bit (Function.update (stateByte s) (code / 8) v) k := by
    simp only [keyBit, Bits.bit, hbyte]
  rw [hbit, hv]
  cases make with
  | true =>
      have h := Bits.bit_setBit (stateByte s) code k
      simp only [Bits.setBit] at h
      rw [if_pos rfl, h]
      by_cases hkc : k = code <;> simp [keyBit, hkc]
  | false =>
      have h := Bits.bit_clearBit (stateByte s) code k
      simp only [Bits.clearBit] at h
      rw [if_neg Bool.false_ne_true, h]
      by_cases hkc : k = code <;> simp [keyBit, hkc]

/-- Inside the array a key update leaves `lock_state` alone. -/
theorem keyUpdateState_lockState (s : KeyboardState) (make : Bool) {code : Nat}
    (h : code / 8 < keyStatesLen) : (keyUpdateState s code make).1.lockState = s.lockState := by
  obtain ⟨v, _, _, h2⟩ := keyUpdateState_bytes s code make
  rw [h2]
  simp [setStateByte, h]

/-! ## 3. Streams -/

/-- The last update of code `k` among the events was a make. -/
def lastMake (evs : List KeyEvent) (k : Nat) : Bool :=
  match evs.reverse.find? (fun e => e.code == k) with
  | some e => e.make
  | none => false

@[simp] theorem lastMake_nil (k : Nat) : lastMake [] k = false := rfl

theorem lastMake_snoc (evs : List KeyEvent) (e : KeyEvent) (k : Nat) :
    lastMake (evs ++ [e]) k = if k = e.code then e.make else lastMake evs k := by
  by_cases h : k = e.code
  · subst h
    simp [lastMake]
  · have h' : (e.code == k) = false := by simpa using fun e' => h e'.symm
    simp [lastMake, h, h']

/-- The events of a stream, in order. -/
def events (evss : List (List KeyEvent)) : List KeyEvent := evss.flatten

/-- A live decoder answers every byte and stays live. -/
theorem handleScanCode_live {s : KeyboardState} (hs : Live s) (c : BitVec 8) :
    ∃ s' evs, (handleScanCode s c).toOption = some (s', evs) ∧ Live s' := by
  rcases handleScanCode_cases hs c with ⟨st, hst, _, _, h⟩ | ⟨code, make, _, _, _, _, h⟩
  · exact ⟨_, _, Exec.toOption_eq_some.mpr h, hst⟩
  · exact ⟨_, _, Exec.toOption_eq_some.mpr h, Or.inl rfl⟩

theorem live_init (sub : Bool) : Live (init sub) := Or.inl rfl

/-- **Every stream is decoded**: the `default` of the switch is never reached. -/
theorem feed_total (sub : Bool) (cs : List (BitVec 8)) :
    ∃ s evss, feed (init sub) cs = some (s, evss) ∧ Live s :=
  Exec.run_total Live (fun _ => True)
    (fun _ c hs _ => handleScanCode_live hs c) (live_init sub) fun _ _ => trivial

theorem feed_live {sub : Bool} {cs : List (BitVec 8)} {s : KeyboardState}
    {evss : List (List KeyEvent)} (h : feed (init sub) cs = some (s, evss)) : Live s := by
  obtain ⟨s', evss', h', hs⟩ := feed_total sub cs
  rw [h] at h'
  cases h'
  exact hs

/-- **The bits over a stream**: the bit of a code says whether its last update was a make. -/
theorem feed_keyBit {sub : Bool} {cs : List (BitVec 8)} {s : KeyboardState}
    {evss : List (List KeyEvent)} (h : feed (init sub) cs = some (s, evss)) :
    ∀ k ≤ KeyCode.last, keyBit s k = lastMake (events evss) k := by
  refine Exec.run_history
    (fun s _ evss => ∀ k ≤ KeyCode.last, keyBit s k = lastMake (events evss) k) ?_ ?_ h
  · intro u cs evss c u' evs hrun hI hstep k hk
    have hu : Live u := feed_live hrun
    rw [Exec.toOption_eq_some] at hstep
    rcases handleScanCode_cases hu c with ⟨st, _, _, _, h⟩ | ⟨code, make, _, _, hc, _, h⟩
    · rw [hstep] at h
      cases h
      have he : events (evss ++ [[]]) = events evss := by simp [events]
      rw [he, ← hI k hk]
      rfl
    · rw [hstep] at h
      cases h
      obtain ⟨e1, e2, _⟩ := keyUpdateState_event u code make
      have hb := keyBit_update u make hc hk
      simp only [events, List.flatten_append, List.flatten_singleton]
      rw [lastMake_snoc, e1, e2, ← events, ← hI k hk, ← hb]
      rfl
  · intro k _
    simp [events, keyBit, Bits.bit, stateByte, init]

/-- Every step of the stream keeps inside the array. -/
def NoOverrun (sub : Bool) (cs : List (BitVec 8)) : Prop :=
  ∀ pre c post s evss, cs = pre ++ c :: post → feed (init sub) pre = some (s, evss) →
    ¬ Overruns s c

theorem NoOverrun.prefix {sub : Bool} {cs cs' : List (BitVec 8)} (h : NoOverrun sub (cs ++ cs')) :
    NoOverrun sub cs := by
  intro pre c post s evss hsplit hf
  subst hsplit
  exact h pre c (post ++ cs') s evss (by simp) hf

/-- **Tracking is confined** on a stream: every update indexes the array, `lock_state` keeps its
    value, and the bit of every code up to the last one tells its last update. -/
def Confined (sub : Bool) (cs : List (BitVec 8)) : Prop :=
  ∃ s evss, feed (init sub) cs = some (s, evss) ∧
    (∀ e ∈ events evss, e.code / 8 < keyStatesLen ∧ e.lockState = (init sub).lockState) ∧
    s.lockState = (init sub).lockState ∧
    ∀ k ≤ KeyCode.last, keyBit s k = lastMake (events evss) k

/-- Without an overrun every update indexes the array and leaves `lock_state` alone. -/
theorem feed_lockState {sub : Bool} {cs : List (BitVec 8)} {s : KeyboardState}
    {evss : List (List KeyEvent)} (hno : NoOverrun sub cs)
    (h : feed (init sub) cs = some (s, evss)) :
    s.lockState = (init sub).lockState ∧
      ∀ e ∈ events evss, e.code / 8 < keyStatesLen ∧ e.lockState = (init sub).lockState := by
  revert hno
  refine Exec.run_history
    (fun s cs evss => NoOverrun sub cs → s.lockState = (init sub).lockState ∧
      ∀ e ∈ events evss, e.code / 8 < keyStatesLen ∧ e.lockState = (init sub).lockState) ?_ ?_ h
  · intro u cs evss c u' evs hrun hI hstep hno
    obtain ⟨hlock, hev⟩ := hI hno.prefix
    have hc : ¬ Overruns u c := hno cs c [] u evss rfl hrun
    rw [Exec.toOption_eq_some] at hstep
    rcases handleScanCode_cases (feed_live hrun) c with ⟨st, _, _, _, h⟩ | ⟨code, make, _, _, _, hover, h⟩
    · rw [hstep] at h
      cases h
      exact ⟨hlock, by simpa [events] using hev⟩
    · rw [hstep] at h
      cases h
      have hi : code / 8 < keyStatesLen := Nat.lt_of_not_le fun hle => hc (hover.mp hle)
      obtain ⟨e1, _, e3⟩ := keyUpdateState_event u code make
      have hl := keyUpdateState_lockState u make hi
      refine ⟨hl.trans hlock, fun e he => ?_⟩
      simp only [events, List.flatten_append, List.flatten_singleton, List.mem_append,
        List.mem_singleton] at he
      rcases he with he | rfl
      · exact hev e he
      · rw [e1, e3, hl]
        exact ⟨hi, hlock⟩
  · intro _
    exact ⟨rfl, by simp [events]⟩

/-- **Tracking is confined exactly on the streams without an overrun.** -/
theorem confined_iff (sub : Bool) (cs : List (BitVec 8)) :
    Confined sub cs ↔ NoOverrun sub cs := by
  constructor
  · intro hconf pre c post s evs hsplit hpre hover
    obtain ⟨t, evss, hf, hev, _, _⟩ := hconf
    subst hsplit
    obtain ⟨u, bs, bs', h1, h2, rfl⟩ := Exec.run_append.mp hf
    rw [feed, h1] at hpre
    cases hpre
    obtain ⟨u', b, bs', hs, _, rfl⟩ := Exec.run_cons.mp h2
    have hs' : handleScanCode s c = .ok (u', b) := Exec.toOption_eq_some.mp hs
    rcases handleScanCode_cases (feed_live h1) c with ⟨_, _, hno, _, _⟩ | ⟨code, make, _, _, _, hi, h⟩
    · exact hno hover
    · rw [hs'] at h
      cases h
      have hmem := hev (keyUpdateState s code make).2 (by simp [events])
      rw [(keyUpdateState_event s code make).1] at hmem
      exact absurd (hi.mpr hover) (Nat.not_le.mpr hmem.1)
  · intro hno
    obtain ⟨s, evss, hf, _⟩ := feed_total sub cs
    obtain ⟨hl, hev⟩ := feed_lockState hno hf
    exact ⟨s, evss, hf, hev, hl, feed_keyBit hf⟩

/-- Pressing F12 on a fresh keyboard writes index 11: bit 0 of `lock_state` is set. -/
theorem not_confined_f12 : ¬ Confined true [0x58#8] := by
  intro hconf
  obtain ⟨s, evss, hf, _, hl, _⟩ := hconf
  have e : ((feed (init true) [0x58#8]).map fun r => r.1.lockState) = some 1#8 := by decide
  rw [hf] at e
  simp only [Option.map_some, Option.some.injEq] at e
  rw [hl] at e
  exact absurd e (by decide)

end OsPlayground.Keyboard
