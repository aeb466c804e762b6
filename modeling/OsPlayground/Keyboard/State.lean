/-
  File:      OsPlayground/Keyboard/State.lean
  Subject:   KEYBOARD STATE (keyboard_state.h, keyboard_state.cpp): the scan-code decoder and the
             tracking of the keys held.

  The object's bytes lie in the order they are declared: the `key_states` array, then
  `lock_state`, then `mod_state`. An index past the array therefore names `lock_state`
  (`stateByte`, `setStateByte`); no code the decoder accepts reaches further.
-/
import OsPlayground.Library.Bits
import OsPlayground.Library.Exec

namespace OsPlayground.Keyboard

/-! ## 1. Codes -/

namespace KeyCode

/-- The codes of `KeyCode` the decoder, the modifiers and the shell name. A code is a number: the
    decoder casts every byte up to `last` to one, named or not. -/
def backspace : Nat := 0x0e
def enter : Nat := 0x1c
def leftCtrl : Nat := 0x1d
def leftShift : Nat := 0x2a
def fwdSlash : Nat := 0x35
def rightShift : Nat := 0x36
def keypadAsterisk : Nat := 0x37
def leftAlt : Nat := 0x38
def scrollLock : Nat := 0x46
def keypad7 : Nat := 0x47
def keypad8 : Nat := 0x48
def keypad9 : Nat := 0x49
def keypad4 : Nat := 0x4b
def keypad6 : Nat := 0x4d
def keypad1 : Nat := 0x4f
def keypad2 : Nat := 0x50
def keypad3 : Nat := 0x51
def keypad0 : Nat := 0x52
def keypadPeriod : Nat := 0x53
def f12 : Nat := 0x58
def del : Nat := 0x59

/-- `_last`. -/
def last : Nat := del

end KeyCode

/-- `sizeof(key_states)`. -/
def keyStatesLen : Nat := (KeyCode.last + 1) / 8

namespace ModifierBit

def shift : Nat := 0
def ctrl : Nat := 1
def alt : Nat := 2

end ModifierBit

/-- `scan_state`. `invalid` is any other bit pattern of the enumeration's storage, the `default`
    of the decoder's switch. -/
inductive ScanState where
  | ready | e0b1 | invalid (raw : Nat)
  deriving DecidableEq, Repr

/-- `KeyboardState`. `scan_buf` is never read or written and left out. -/
structure KeyboardState where
  subscriber : Bool
  keyStates : Nat → BitVec 8
  lockState : BitVec 8
  modState : BitVec 8
  scanState : ScanState

/-- The state a new `KeyboardState` starts in. -/
def init (subscriber : Bool) : KeyboardState :=
  ⟨subscriber, fun _ => 0, 0, 0, .ready⟩

/-- One run of `key_set_state` (`make`) or `key_unset_state` for a code, with the modifier and
    lock state at its end: the arguments of the subscriber's `key_down` or `key_up`. -/
structure KeyEvent where
  code : Nat
  make : Bool
  modState : BitVec 8
  lockState : BitVec 8
  deriving DecidableEq, Repr

/-! ## 2. Key state -/

/-- `key_states[i]`, read at the address it names. -/
def stateByte (s : KeyboardState) (i : Nat) : BitVec 8 :=
  if i < keyStatesLen then s.keyStates i else s.lockState

/-- `key_states[i] = v`, written at the address it names. -/
def setStateByte (s : KeyboardState) (i : Nat) (v : BitVec 8) : KeyboardState :=
  if i < keyStatesLen then { s with keyStates := Function.update s.keyStates i v }
  else { s with lockState := v }

/-- `key_set_state`. -/
def keySetState (s : KeyboardState) (code : Nat) : KeyboardState × KeyEvent :=
  let s := setStateByte s (code / 8) (stateByte s (code / 8) ||| (1#8 <<< (code % 8)))
  let s :=
    if code = KeyCode.leftShift ∨ code = KeyCode.rightShift then
      { s with modState := s.modState ||| (1#8 <<< ModifierBit.shift) }
    else if code = KeyCode.leftCtrl then
      { s with modState := s.modState ||| (1#8 <<< ModifierBit.ctrl) }
    else if code = KeyCode.leftAlt then
      { s with modState := s.modState ||| (1#8 <<< ModifierBit.alt) }
    else s
  (s, ⟨code, true, s.modState, s.lockState⟩)

/-- `key_unset_state`. -/
def keyUnsetState (s : KeyboardState) (code : Nat) : KeyboardState × KeyEvent :=
  let s := setStateByte s (code / 8) (stateByte s (code / 8) &&& ~~~(1#8 <<< (code % 8)))
  let s :=
    if code = KeyCode.leftShift ∨ code = KeyCode.rightShift then
      { s with modState := s.modState &&& ~~~(1#8 <<< ModifierBit.shift) }
    else if code = KeyCode.leftCtrl then
      { s with modState := s.modState &&& ~~~(1#8 <<< ModifierBit.ctrl) }
    else if code = KeyCode.leftAlt then
      { s with modState := s.modState &&& ~~~(1#8 <<< ModifierBit.alt) }
    else s
  (s, ⟨code, false, s.modState, s.lockState⟩)

/-- `key_update_state`. -/
def keyUpdateState (s : KeyboardState) (code : Nat) (make : Bool) : KeyboardState × KeyEvent :=
  if make then keySetState s code else keyUnsetState s code

/-- The calls made on the subscriber for the events: none where there is no subscriber. -/
def calls (s : KeyboardState) (evs : List KeyEvent) : List KeyEvent :=
  if s.subscriber then evs else []

/-! ## 3. The decoder -/

/-- `break_bit_set`. -/
def breakBitSet (c : BitVec 8) : Bool := ((c >>> 7) &&& 1#8) != 0#8

/-- `unset_break_bit`. -/
def unsetBreakBit (c : BitVec 8) : BitVec 8 := c &&& ~~~(1#8 <<< 7)

/-- The codes the extended switch accepts, in the order of its cases. -/
def extendedCodes : List Nat :=
  [KeyCode.enter, KeyCode.leftCtrl, KeyCode.leftShift, KeyCode.fwdSlash, KeyCode.rightShift,
    KeyCode.leftAlt, KeyCode.scrollLock, KeyCode.keypadAsterisk, KeyCode.keypad7, KeyCode.keypad8,
    KeyCode.keypad9, KeyCode.keypad4, KeyCode.keypad6, KeyCode.keypad1, KeyCode.keypad2,
    KeyCode.keypad3, KeyCode.keypad0, KeyCode.keypadPeriod]

/-- `handle_scan_code`: the new state and the key events of this byte, or the panic of the
    switch's `default`. -/
def handleScanCode (s : KeyboardState) (c : BitVec 8) :
    Except String (KeyboardState × List KeyEvent) :=
  match s.scanState with
  | .ready =>
    if c = 0xe0#8 then
      .ok ({ s with scanState := .e0b1 }, [])
    else if c = 0xe1#8 then
      .ok ({ s with scanState := .ready }, [])
    else if breakBitSet c then
      let code := (unsetBreakBit c).toNat
      if code ≤ KeyCode.last then
        let (s, ev) := keyUnsetState s code
        .ok (s, [ev])
      else .ok (s, [])
    else
      let code := c.toNat
      if code ≤ KeyCode.last then
        let (s, ev) := keySetState s code
        .ok (s, [ev])
      else .ok (s, [])
  | .e0b1 =>
    let breakBit := breakBitSet c
    let code := (if breakBit then unsetBreakBit c else c).toNat
    if code ∈ extendedCodes then
      let (s, ev) := keyUpdateState s code (!breakBit)
      .ok ({ s with scanState := .ready }, [ev])
    else .ok (s, [])
  | .invalid _ => .error "bad keyboard scan state\n"

/-- A stream of bytes fed to `handle_scan_code`; one list of events a byte. -/
def feed (s : KeyboardState) (cs : List (BitVec 8)) :
    Option (KeyboardState × List (List KeyEvent)) :=
  Exec.run (fun s c => (handleScanCode s c).toOption) s cs

end OsPlayground.Keyboard
