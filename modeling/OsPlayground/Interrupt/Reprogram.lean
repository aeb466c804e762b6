/-
  File:      OsPlayground/Interrupt/Reprogram.lean
  Subject:   `reprogram_pics` (interrupt_manager.cpp, io.h): the sixteen lines moved to the vectors
             from `irq_offset` on.

  The firmware leaves the controllers in a state the kernel does not know. The code reads both
  masks, sends both controllers through their initialisation in turns, and writes the masks
  back.

  * `reprogramPics_spec` -- from every state of the two controllers, an initialisation begun and
    never finished included: both are ready, nothing is in service, the masks are those of
    before, and line `n` has vector `irq_offset + n`.
-/
import OsPlayground.Interrupt.Lines
import OsPlayground.Library.Icw

namespace OsPlayground.Interrupt

open Pic8259

/-! ## 1. The code -/

/-- `pic1_data` and `pic2_data`. -/
def pic1Data : Nat := pic1Cmd + 1
def pic2Data : Nat := pic2Cmd + 1

/-- The bits of the initialisation words. -/
def icw1UseIcw4 : BitVec 8 := 1#8 <<< 0
def icw1Init : BitVec 8 := 1#8 <<< 4
def icw4Mode8086 : BitVec 8 := 1#8 <<< 0

/-- `out8` to a port, as the two controllers see it. -/
def out8Chips (c : Chips) (port : Nat) (val : BitVec 8) : Chips :=
  if port = pic1Cmd then { c with first := c.first.command val }
  else if port = pic1Data then { c with first := c.first.data val }
  else if port = pic2Cmd then { c with second := c.second.command val }
  else if port = pic2Data then { c with second := c.second.data val }
  else c

/-- `in8` of one of the controllers' second ports. -/
def in8Chips (c : Chips) (port : Nat) : BitVec 8 :=
  if port = pic1Data then c.first.read else c.second.read

/-- `io_wait`: a write to a port nothing listens on. -/
def ioWait (c : Chips) : Chips := out8Chips c 0x80 0

/-- The initialisation words of `reprogram_pics`, to both controllers in turns. -/
def reprogramWords (c : Chips) : Chips :=
  let c := out8Chips c pic1Cmd (icw1Init ||| icw1UseIcw4)
  let c := ioWait (out8Chips c pic2Cmd (icw1Init ||| icw1UseIcw4))
  let c := out8Chips c pic1Data (BitVec.ofNat 8 irqOffset)
  let c := ioWait (out8Chips c pic2Data (BitVec.ofNat 8 (irqOffset + 8)))
  let c := out8Chips c pic1Data 4
  let c := ioWait (out8Chips c pic2Data 2)
  let c := out8Chips c pic1Data icw4Mode8086
  ioWait (out8Chips c pic2Data icw4Mode8086)

/-- `reprogram_pics`. The masks it reads are also printed to the serial port. -/
def reprogramPics (c : Chips) : Chips :=
  let mask1 := in8Chips c pic1Data
  let mask2 := in8Chips c pic2Data
  out8Chips (out8Chips (reprogramWords c) pic1Data mask1) pic2Data mask2

/-! ## 2. What the ports do -/

variable (c : Chips) (val : BitVec 8)

@[simp] theorem out8_pic1Cmd :
    out8Chips c pic1Cmd val = { c with first := c.first.command val } := rfl

@[simp] theorem out8_pic1Data :
    out8Chips c pic1Data val = { c with first := c.first.data val } := rfl

@[simp] theorem out8_pic2Cmd :
    out8Chips c pic2Cmd val = { c with second := c.second.command val } := rfl

@[simp] theorem out8_pic2Data :
    out8Chips c pic2Data val = { c with second := c.second.data val } := rfl

@[simp] theorem ioWait_eq : ioWait c = c := rfl

/-- **The two sequences do not disturb each other**: each controller sees its own words and its
    own mask. -/
theorem reprogramPics_eq :
    reprogramPics c =
      ⟨((((c.first.command 0x11#8).data 0x20#8).data 4#8).data 1#8).data c.first.mask,
        ((((c.second.command 0x11#8).data 0x28#8).data 2#8).data 1#8).data c.second.mask⟩ := by
  have h1 : icw1Init ||| icw1UseIcw4 = 0x11#8 := by decide
  have h2 : BitVec.ofNat 8 irqOffset = 0x20#8 := by decide
  have h3 : BitVec.ofNat 8 (irqOffset + 8) = 0x28#8 := by decide
  have h4 : icw4Mode8086 = 1#8 := by decide
  have hm1 : in8Chips c pic1Data = c.first.mask := rfl
  have hm2 : in8Chips c pic2Data = c.second.mask := rfl
  unfold reprogramPics reprogramWords
  simp only [h1, h2, h3, h4, hm1, hm2, out8_pic1Cmd, out8_pic1Data, out8_pic2Cmd, out8_pic2Data,
    ioWait_eq]
  rfl

/-- A vector is the base of eight lines with the number of the line in its low bits. -/
theorem or_line : ∀ n < 8, (0x20#8 ||| BitVec.ofNat 8 n).toNat = 0x20 + n ∧
    (0x28#8 ||| BitVec.ofNat 8 n).toNat = 0x28 + n := by decide

/-- Controllers so initialised give line `n` the vector `irq_offset + n`. -/
theorem vector_of_initialised {c : Chips} {mode mask1 mask2 : BitVec 8}
    (h1 : c.first.Initialised 0x20#8 4#8 mode mask1)
    (h2 : c.second.Initialised 0x28#8 2#8 mode mask2) (line : Line) :
    ∃ v, c.vector line.val = some v ∧ v.toNat = irqOffset + line.val := by
  have hlt := line.lt
  unfold Chips.vector
  rw [if_pos h1.stage]
  by_cases h8 : line.val < 8
  · rw [if_pos h8, h1.base]
    exact ⟨_, rfl, (or_line line.val h8).1⟩
  · have hcascade : c.second.stage = .ready ∧ c.first.cascade.getLsbD 2 = true ∧
        c.second.cascade &&& 7#8 = 2#8 := by
      rw [h1.cascade, h2.cascade]
      exact ⟨h2.stage, by decide, by decide⟩
    rw [if_neg h8, if_pos hcascade, h2.base]
    refine ⟨_, rfl, ((or_line (line.val - 8) (by omega)).2).trans ?_⟩
    unfold irqOffset
    omega

/-- Both controllers after the words and the masks. -/
theorem reprogramPics_initialised (c : Chips) :
    (reprogramPics c).first.Initialised 0x20#8 4#8 1#8 c.first.mask ∧
      (reprogramPics c).second.Initialised 0x28#8 2#8 1#8 c.second.mask := by
  rw [reprogramPics_eq]
  exact ⟨c.first.initialised 0x11#8 0x20#8 4#8 1#8 c.first.mask (by decide) (by decide) (by decide)
      (by decide),
    c.second.initialised 0x11#8 0x28#8 2#8 1#8 c.second.mask (by decide) (by decide) (by decide)
      (by decide)⟩

theorem reprogramPics_vector (c : Chips) (line : Line) :
    ∃ v, (reprogramPics c).vector line.val = some v ∧ v.toNat = irqOffset + line.val := by
  obtain ⟨h1, h2⟩ := reprogramPics_initialised c
  exact vector_of_initialised h1 h2 line

/-- **The lines are moved, from every state of the controllers**: both are ready in the mode of
    the processor, with nothing in service or requested and the masks they had before; line 2 of
    the first is the second's; and line `n` has vector `irq_offset + n`. -/
theorem reprogramPics_spec (c : Chips) :
    (reprogramPics c).first.Initialised (BitVec.ofNat 8 irqOffset) 4#8 icw4Mode8086
        c.first.mask ∧
      (reprogramPics c).second.Initialised (BitVec.ofNat 8 (irqOffset + 8)) 2#8 icw4Mode8086
        c.second.mask ∧
      ∀ line : Line, ∃ v, (reprogramPics c).vector line.val = some v ∧
        v.toNat = irqOffset + line.val := by
  obtain ⟨h1, h2⟩ := reprogramPics_initialised c
  exact ⟨h1, h2, reprogramPics_vector c⟩

end OsPlayground.Interrupt
