/-
  File:      OsPlayground/Library/Icw.lean
  Subject:   PROGRAMMING A PAIR OF 8259A CONTROLLERS through their ports.

  A controller has two ports. A byte with bit 4 set on the first port is ICW1: it starts the
  initialisation over, whatever the controller was doing, and clears the mask and the lines in
  service. The bytes that follow on the second port are ICW2 (the vector of line 0), ICW3 (the
  cascade, unless ICW1 asks for a single controller) and ICW4 (the mode, if ICW1 asks for it).
  A byte on the second port of a controller that is not being initialised is its mask.

  * `initialised` -- from every state the four words leave the controller ready, and a mask
    written afterwards is its mask;
  * `Chips.vector` -- the vector of a line: the first controller gives it, or hands over to the
    second one where both know of the cascade.
-/
import OsPlayground.Library.Pic

namespace Pic8259

/-! ## 1. One controller -/

/-- What the next byte on the second port is. -/
inductive Stage where
  | ready | icw2 | icw3 | icw4
  deriving DecidableEq, Repr

/-- The registers of a controller. -/
structure Controller where
  stage : Stage
  single : Bool
  wantsIcw4 : Bool
  base : BitVec 8
  cascade : BitVec 8
  mode : BitVec 8
  mask : BitVec 8
  inService : BitVec 8
  requests : BitVec 8
  deriving DecidableEq

namespace Controller

/-- A byte on the first port: ICW1, a command that ends the interrupt of the highest priority, or
    one that changes none of the registers here. -/
def command (c : Controller) (v : BitVec 8) : Controller :=
  if v.getLsbD 4 then
    { c with
      stage := .icw2
      single := v.getLsbD 1
      wantsIcw4 := v.getLsbD 0
      mode := if v.getLsbD 0 then c.mode else 0
      mask := 0
      inService := 0
      requests := 0 }
  else if v &&& 0xf8#8 = 0x20#8 then { c with inService := eoi c.inService }
  else c

/-- A byte on the second port. -/
def data (c : Controller) (v : BitVec 8) : Controller :=
  match c.stage with
  | .ready => { c with mask := v }
  | .icw2 =>
    { c with
      base := v &&& 0xf8#8
      stage := if c.single then (if c.wantsIcw4 then .icw4 else .ready) else .icw3 }
  | .icw3 => { c with cascade := v, stage := if c.wantsIcw4 then .icw4 else .ready }
  | .icw4 => { c with mode := v, stage := .ready }

/-- The second port read: the mask. -/
def read (c : Controller) : BitVec 8 := c.mask

/-- A ready controller in a cascade, in the mode of the processor, with nothing in service. -/
structure Initialised (c : Controller) (base cascade mode mask : BitVec 8) : Prop where
  stage : c.stage = .ready
  single : c.single = false
  base : c.base = base
  cascade : c.cascade = cascade
  mode : c.mode = mode
  mask : c.mask = mask
  inService : c.inService = 0
  requests : c.requests = 0

/-- **The four words and a mask**, from every state: ICW1 for a cascade with ICW4, a vector that
    is a multiple of eight, the cascade and the mode. -/
theorem initialised (c : Controller) (icw1 icw2 icw3 icw4 mask : BitVec 8)
    (h4 : icw1.getLsbD 4 = true) (h1 : icw1.getLsbD 1 = false) (h0 : icw1.getLsbD 0 = true)
    (hbase : icw2 &&& 0xf8#8 = icw2) :
    Initialised (((((c.command icw1).data icw2).data icw3).data icw4).data mask)
      icw2 icw3 icw4 mask := by
  have hcommand : c.command icw1 =
      { c with
        stage := .icw2, single := false, wantsIcw4 := true, mask := 0, inService := 0,
        requests := 0 } := by
    unfold command
    rw [if_pos h4, h1, h0]
    rfl
  have hdata : (c.command icw1).data icw2 =
      { c with
        stage := .icw3, single := false, wantsIcw4 := true, base := icw2, mask := 0,
        inService := 0, requests := 0 } := by
    rw [hcommand]
    unfold data
    dsimp only
    rw [hbase]
    rfl
  rw [hdata]
  exact ⟨rfl, rfl, rfl, rfl, rfl, rfl, rfl, rfl⟩

end Controller

/-! ## 2. The pair -/

/-- The registers of both controllers. -/
structure Chips where
  first : Controller
  second : Controller

namespace Chips

/-- **The vector of a line.** The first controller gives it for its own lines. For a line of the
    second it must know that line 2 is a cascade, and the second that it is on line 2. -/
def vector (c : Chips) (line : Nat) : Option (BitVec 8) :=
  if c.first.stage = .ready then
    if line < 8 then some (c.first.base ||| BitVec.ofNat 8 line)
    else if c.second.stage = .ready ∧ c.first.cascade.getLsbD 2 = true ∧
        c.second.cascade &&& 7#8 = 2#8 then
      some (c.second.base ||| BitVec.ofNat 8 (line - 8))
    else none
  else none

end Chips

end Pic8259
