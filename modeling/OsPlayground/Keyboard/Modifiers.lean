/-
  File:      OsPlayground/Keyboard/Modifiers.lean
  Subject:   THE MODIFIER BYTE and the keys held.

  `mod_state` is a summary of `key_states`, kept by the same two functions. Two keys feed its
  shift bit.

  * `modBit_update` -- a key update sets a modifier bit to its direction when the code is one of
    the keys of that bit, and keeps the others;
  * `LosesShift` -- the one step that breaks the agreement: a shift key is released while the
    other one is held. `key_unset_state` clears the bit without looking at the other key;
  * `agrees_iff` -- the summary is right in every state of a run exactly when no step is such a
    release.
-/
import OsPlayground.Keyboard.Tracking

namespace OsPlayground.Keyboard

/-! ## 1. The summary -/

/-- A bit of `mod_state`. -/
def modBit (s : KeyboardState) (b : Nat) : Bool := s.modState.getLsbD b

/-- The modifier bit a key feeds. -/
def modifierOf (code : Nat) : Option (Fin 3) :=
  if code = KeyCode.leftShift ∨ code = KeyCode.rightShift then some 0
  else if code = KeyCode.leftCtrl then some 1
  else if code = KeyCode.leftAlt then some 2
  else none

/-- **The modifier byte agrees with the keys held.** -/
structure Agrees (s : KeyboardState) : Prop where
  shift : modBit s ModifierBit.shift = true ↔
    keyBit s KeyCode.leftShift = true ∨ keyBit s KeyCode.rightShift = true
  ctrl : modBit s ModifierBit.ctrl = true ↔ keyBit s KeyCode.leftCtrl = true
  alt : modBit s ModifierBit.alt = true ↔ keyBit s KeyCode.leftAlt = true

/-- **The step that loses shift**: one shift key is released while the other is held. -/
def LosesShift (s : KeyboardState) (c : BitVec 8) : Prop :=
  (c = 0xaa#8 ∧ keyBit s KeyCode.rightShift = true) ∨
    (c = 0xb6#8 ∧ keyBit s KeyCode.leftShift = true)

/-! ## 2. One key update -/

@[simp] theorem setStateByte_modState (s : KeyboardState) (i : Nat) (v : BitVec 8) :
    (setStateByte s i v).modState = s.modState := by
  unfold setStateByte
  split <;> rfl

/-- Setting or clearing bit `b` of a byte, seen at bit `j` of the three modifier bits. -/
theorem getLsbD_orBit (m : BitVec 8) (b j : Fin 3) :
    (m ||| (1#8 <<< b.val)).getLsbD j.val = if j = b then true else m.getLsbD j.val := by
  revert m b j
  decide

theorem getLsbD_clearBit (m : BitVec 8) (b j : Fin 3) :
    (m &&& ~~~(1#8 <<< b.val)).getLsbD j.val = if j = b then false else m.getLsbD j.val := by
  revert m b j
  decide

/-- `mod_state` after a key update. -/
theorem keyUpdateState_modState (s : KeyboardState) (code : Nat) (make : Bool) :
    (keyUpdateState s code make).1.modState =
      match modifierOf code with
      | none => s.modState
      | some b => if make then s.modState ||| (1#8 <<< b.val)
          else s.modState &&& ~~~(1#8 <<< b.val) := by
  unfold keyUpdateState keySetState keyUnsetState modifierOf
  cases make <;> dsimp only <;> split_ifs <;> simp <;> rfl

/-- **A key update and the modifier bits**: the bit the code feeds takes the direction of the
    update, the others are kept. -/
theorem modBit_update (s : KeyboardState) (code : Nat) (make : Bool) (b : Fin 3) :
    modBit (keyUpdateState s code make).1 b.val =
      if modifierOf code = some b then make else modBit s b.val := by
  unfold modBit
  rw [keyUpdateState_modState]
  cases hm : modifierOf code with
  | none => rw [if_neg nofun]
  | some d =>
      have hiff : (some d = some b) = (b = d) := by simp [eq_comm]
      simp only [hiff]
      cases make with
      | true => exact getLsbD_orBit s.modState d b
      | false => exact getLsbD_clearBit s.modState d b

/-- The keys of the shift, ctrl and alt bits. -/
theorem modifierOf_iff (code : Nat) :
    (modifierOf code = some 0 ↔ code = KeyCode.leftShift ∨ code = KeyCode.rightShift) ∧
      (modifierOf code = some 1 ↔ code = KeyCode.leftCtrl) ∧
      (modifierOf code = some 2 ↔ code = KeyCode.leftAlt) := by
  unfold modifierOf KeyCode.leftShift KeyCode.rightShift KeyCode.leftCtrl KeyCode.leftAlt
  split_ifs with h1 h2 h3 <;> simp <;> omega

/-- A bit with one key keeps agreeing with it. -/
theorem agrees_update_single {s : KeyboardState} {b : Fin 3} {k code : Nat} {make : Bool}
    (hm : modifierOf code = some b ↔ code = k) (hc : code ≤ KeyCode.last) (hk : k ≤ KeyCode.last)
    (h : modBit s b.val = true ↔ keyBit s k = true) :
    modBit (keyUpdateState s code make).1 b.val = true ↔
      keyBit (keyUpdateState s code make).1 k = true := by
  rw [modBit_update, keyBit_update s make hc hk]
  by_cases hck : code = k
  · rw [if_pos (hm.mpr hck), if_pos hck.symm]
  · rw [if_neg fun hb => hck (hm.mp hb), if_neg fun hkc => hck hkc.symm]
    exact h

/-- **The shift bit after a key update** agrees with its two keys exactly when the update does
    not release one of them while the other is held. -/
theorem agrees_update_shift {s : KeyboardState} (h : Agrees s) {code : Nat}
    (hc : code ≤ KeyCode.last) (make : Bool) :
    (modBit (keyUpdateState s code make).1 ModifierBit.shift = true ↔
      keyBit (keyUpdateState s code make).1 KeyCode.leftShift = true ∨
        keyBit (keyUpdateState s code make).1 KeyCode.rightShift = true) ↔
      ¬ (make = false ∧ ((code = KeyCode.leftShift ∧ keyBit s KeyCode.rightShift = true) ∨
        (code = KeyCode.rightShift ∧ keyBit s KeyCode.leftShift = true))) := by
  have hmod := (modifierOf_iff code).1
  have hb : modBit (keyUpdateState s code make).1 ModifierBit.shift = _ :=
    modBit_update s code make 0
  have hne : KeyCode.leftShift ≠ KeyCode.rightShift := by decide
  rw [hb, keyBit_update s make hc (by decide), keyBit_update s make hc (by decide)]
  by_cases hl : code = KeyCode.leftShift
  · rw [if_pos (hmod.mpr (Or.inl hl)), if_pos hl.symm, if_neg (hl ▸ hne.symm)]
    cases make <;> simp [hl, hne]
  by_cases hr : code = KeyCode.rightShift
  · rw [if_pos (hmod.mpr (Or.inr hr)), if_pos hr.symm, if_neg (hr ▸ hne)]
    cases make <;> simp [hr, hne.symm]
  · rw [if_neg fun hb => (hmod.mp hb).elim hl hr, if_neg (Ne.symm hl), if_neg (Ne.symm hr)]
    exact iff_of_true h.shift fun hn => hn.2.elim (fun x => hl x.1) fun x => hr x.1

theorem agrees_update {s : KeyboardState} (h : Agrees s) {code : Nat} (hc : code ≤ KeyCode.last)
    (make : Bool) :
    Agrees (keyUpdateState s code make).1 ↔
      ¬ (make = false ∧ ((code = KeyCode.leftShift ∧ keyBit s KeyCode.rightShift = true) ∨
        (code = KeyCode.rightShift ∧ keyBit s KeyCode.leftShift = true))) := by
  obtain ⟨_, hctrl, halt⟩ := modifierOf_iff code
  rw [← agrees_update_shift h hc make]
  exact ⟨fun h' => h'.shift, fun hshift => ⟨hshift,
    agrees_update_single hctrl hc (by decide) h.ctrl,
    agrees_update_single halt hc (by decide) h.alt⟩⟩

/-! ## 3. Runs -/

/-- The two bytes that release a shift key. -/
theorem losesShift_iff (s : KeyboardState) (c : BitVec 8) :
    LosesShift s c ↔ (!breakBitSet c) = false ∧
      ((c.toNat % 128 = KeyCode.leftShift ∧ keyBit s KeyCode.rightShift = true) ∨
        (c.toNat % 128 = KeyCode.rightShift ∧ keyBit s KeyCode.leftShift = true)) := by
  have hl : ∀ c : BitVec 8, c = 0xaa#8 ↔
      (!breakBitSet c) = false ∧ c.toNat % 128 = KeyCode.leftShift := by decide
  have hr : ∀ c : BitVec 8, c = 0xb6#8 ↔
      (!breakBitSet c) = false ∧ c.toNat % 128 = KeyCode.rightShift := by decide
  unfold LosesShift
  rw [hl, hr]
  tauto

/-- **One byte keeps the agreement exactly when it does not lose shift.** -/
theorem agrees_step {s s' : KeyboardState} {c : BitVec 8} {evs : List KeyEvent} (hlive : Live s)
    (h : Agrees s) (hstep : handleScanCode s c = .ok (s', evs)) :
    Agrees s' ↔ ¬ LosesShift s c := by
  rcases handleScanCode_cases hlive c with ⟨st, _, _, hno, hs⟩ | ⟨code, make, hc, hm, hl, _, hs⟩
  · rw [hs] at hstep
    cases hstep
    refine iff_of_true ⟨h.shift, h.ctrl, h.alt⟩ fun hlose => ?_
    rcases ((losesShift_iff s c).mp hlose).2 with ⟨hc, _⟩ | ⟨hc, _⟩
    · exact hno (hc ▸ by decide)
    · exact hno (hc ▸ by decide)
  · rw [hs] at hstep
    cases hstep
    rw [losesShift_iff, ← hc, ← hm, ← agrees_update h hl make]
    exact ⟨fun h' => ⟨h'.shift, h'.ctrl, h'.alt⟩, fun h' => ⟨h'.shift, h'.ctrl, h'.alt⟩⟩

theorem agrees_init (sub : Bool) : Agrees (init sub) := by
  refine ⟨?_, ?_, ?_⟩ <;> cases sub <;> decide

/-- No step of the stream loses shift. -/
def NeverLosesShift (sub : Bool) (cs : List (BitVec 8)) : Prop :=
  ∀ pre c post s evss, cs = pre ++ c :: post → feed (init sub) pre = some (s, evss) →
    ¬ LosesShift s c

/-- **The modifier byte agrees with the keys held in every state of a run exactly when no step
    releases a shift key while the other one is held.** -/
theorem agrees_iff (sub : Bool) (cs : List (BitVec 8)) :
    (∀ pre, pre <+: cs → ∃ s evss, feed (init sub) pre = some (s, evss) ∧ Agrees s) ↔
      NeverLosesShift sub cs := by
  constructor
  · intro hall pre c post s evss hcs hf
    subst hcs
    obtain ⟨u, bs, hu, hag⟩ := hall pre ⟨c :: post, rfl⟩
    obtain ⟨v, bs', hv, hag'⟩ := hall (pre ++ [c]) ⟨post, by simp⟩
    rw [hf] at hu
    cases hu
    obtain ⟨w, cs1, cs2, h1, h2, _⟩ := Exec.run_append.mp hv
    rw [← feed, hf] at h1
    cases h1
    obtain ⟨v', b, bs2, hstep, hnil, _⟩ := Exec.run_cons.mp h2
    cases hnil
    exact (agrees_step (feed_live hf) hag (Exec.toOption_eq_some.mp hstep)).mp hag'
  · intro hno pre hpre
    obtain ⟨post, hpre⟩ := hpre
    obtain ⟨s, evss, hf, _⟩ := feed_total sub pre
    refine ⟨s, evss, hf, ?_⟩
    have hno' : NeverLosesShift sub pre := fun p c q u us hp hu =>
      hno p c (q ++ post) u us (by rw [← hpre, hp, List.append_assoc, List.cons_append]) hu
    revert hno'
    refine Exec.run_history (fun s cs _ => NeverLosesShift sub cs → Agrees s) ?_ ?_ hf
    · intro u as us c u' evs hrun ih hstep hno'
      have hag := ih fun p c' q v vs hp hv =>
        hno' p c' (q ++ [c]) v vs (by rw [hp, List.append_assoc, List.cons_append]) hv
      exact (agrees_step (feed_live hrun) hag (Exec.toOption_eq_some.mp hstep)).mpr
        (hno' as c [] u us rfl hrun)
    · exact fun _ => agrees_init sub

/-- Both shift keys are pressed and the left one is released: the right one is held and the
    shift bit is clear. -/
theorem not_agrees_bothShifts : ¬ ∃ s evss,
    feed (init true) [0x2a#8, 0x36#8, 0xaa#8] = some (s, evss) ∧ Agrees s := by
  intro h
  obtain ⟨s, evss, hf, hag⟩ := h
  have e : (feed (init true) [0x2a#8, 0x36#8, 0xaa#8]).map
      (fun r => (modBit r.1 ModifierBit.shift, keyBit r.1 KeyCode.rightShift)) =
      some (false, true) := by decide
  rw [hf] at e
  simp only [Option.map_some, Option.some.injEq, Prod.mk.injEq] at e
  have hshift := hag.shift.mpr (Or.inr e.2)
  rw [e.1] at hshift
  cases hshift

end OsPlayground.Keyboard
