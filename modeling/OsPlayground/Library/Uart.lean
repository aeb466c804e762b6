/-
  File:      OsPlayground/Library/Uart.lean
  Subject:   A 16550 SERIAL CONTROLLER, its transmitting half, through its registers.

  The divisor of the baud rate shares two register numbers with the data and the interrupt
  enable register; bit 7 of the line control register says which is meant. Bytes wait in a queue
  (one place, or sixteen with the queue enabled) and leave for the line one at a time, in the
  format the line control register asks for when they leave. While its bit 6 is set, the line is
  held in a break, and what leaves is lost.

  * `Uart.write`, `Uart.status` -- the registers; `Uart.send` -- a byte leaves;
  * `Uart.heard` -- what gets on the line of what leaves;
  * `Uart.Ready`, `transmit_of_empty`, `Ready.write`, `Ready.send` -- the data register of a
    controller whose divisor is not selected takes a byte where the queue is empty;
  * `Uart.registers`, `registers_write`, `registers_send` -- the registers without the bytes: what
    a write leaves in them does not depend on what is waiting;
  * `write_queue` -- what a write that is not data does to the bytes.
-/
import Mathlib.Tactic.Common

namespace Serial

/-! ## 1. The controller -/

/-- A byte on the line: what it carries, the divisor of its baud rate, and its format. -/
structure Frame where
  value : BitVec 8
  divisor : Nat
  format : BitVec 8
  deriving DecidableEq, Repr

/-- The registers, the bytes waiting and the bytes sent. `other` is the part of the line status
    that says nothing of the queue. -/
structure Uart where
  interrupts : BitVec 8
  lineControl : BitVec 8
  modemControl : BitVec 8
  fifoControl : BitVec 8
  divisorLow : BitVec 8
  divisorHigh : BitVec 8
  other : BitVec 8
  queue : List (BitVec 8)
  wire : List Frame

namespace Uart

variable (u : Uart) (v : BitVec 8)

/-- The divisor is selected. -/
def selected : Bool := u.lineControl.getLsbD 7

/-- The line is held in a break. -/
def breaks : Bool := u.lineControl.getLsbD 6

/-- **What gets on the line** of the frames sent: nothing during a break. -/
def heard (frames : List Frame) : List Frame := if u.breaks then [] else frames

/-- The divisor. -/
def divisor : Nat := u.divisorHigh.toNat * 256 + u.divisorLow.toNat

/-- The queue is enabled. -/
def queued : Bool := u.fifoControl.getLsbD 0

/-- A byte for the line: where there is no place for it, the queue drops it, and the single
    holding register is overwritten. -/
def transmit : Uart :=
  if u.queue.length < (if u.queued then 16 else 1) then { u with queue := u.queue ++ [v] }
  else if u.queued then u
  else { u with queue := [v] }

/-- The queue's control register: switching the queue empties it, and so does bit 2. -/
def controlQueue : Uart :=
  if v.getLsbD 0 ≠ u.queued ∨ v.getLsbD 2 = true then { u with fifoControl := v, queue := [] }
  else { u with fifoControl := v }

/-- A byte written to a register. -/
def write (reg : Nat) : Uart :=
  if reg = 0 then if u.selected then { u with divisorLow := v } else u.transmit v
  else if reg = 1 then
    if u.selected then { u with divisorHigh := v } else { u with interrupts := v &&& 0x0f#8 }
  else if reg = 2 then u.controlQueue v
  else if reg = 3 then { u with lineControl := v }
  else if reg = 4 then { u with modemControl := v &&& 0x1f#8 }
  else u

/-- The line status: bit 5 says that the queue is empty. -/
def status : BitVec 8 :=
  if u.queue = [] then u.other ||| 0x20#8 else u.other &&& 0xdf#8

/-- A register read: line control and line status; the others belong to the receiving half. -/
def read (reg : Nat) : BitVec 8 :=
  if reg = 3 then u.lineControl else if reg = 5 then u.status else 0

/-- The next byte leaves for the line. -/
def send : Option Uart :=
  match u.queue with
  | [] => none
  | b :: queue =>
    some { u with
      queue := queue, wire := u.wire ++ u.heard [⟨b, u.divisor, u.lineControl &&& 0x7f#8⟩] }

@[simp] theorem heard_nil : u.heard [] = [] := by
  unfold heard
  split <;> rfl

theorem heard_append (frames more : List Frame) :
    u.heard (frames ++ more) = u.heard frames ++ u.heard more := by
  unfold heard
  split
  · rfl
  · rfl

theorem heard_congr {w : Uart} (h : w.breaks = u.breaks) (frames : List Frame) :
    w.heard frames = u.heard frames := by
  unfold heard
  rw [h]

@[simp] theorem write_line : u.write v 3 = { u with lineControl := v } := rfl

@[simp] theorem read_line : u.read 3 = u.lineControl := rfl

/-- The line control register has a number of its own. -/
theorem write_lineControl (reg : Nat) :
    (u.write v reg).lineControl = if reg = 3 then v else u.lineControl := by
  unfold write transmit controlQueue
  split_ifs <;> first | rfl | omega

theorem write_low (h : u.selected = true) : u.write v 0 = { u with divisorLow := v } := by
  unfold write
  rw [if_pos rfl, if_pos h]

theorem write_high (h : u.selected = true) : u.write v 1 = { u with divisorHigh := v } := by
  unfold write
  rw [if_neg (by decide), if_pos rfl, if_pos h]

/-- The queue emptied. -/
theorem write_clear (h : v.getLsbD 2 = true) :
    u.write v 2 = { u with fifoControl := v, queue := [] } := by
  unfold write controlQueue
  rw [if_neg (by decide), if_neg (by decide), if_pos rfl, if_pos (Or.inr h)]

/-! ## 2. A controller that transmits -/

/-- **A controller that transmits**: its data register takes bytes, in the format and at the
    divisor given. -/
structure Ready (divisor : Nat) (format : BitVec 8) (u : Uart) : Prop where
  selected : u.selected = false
  divisor : u.divisor = divisor
  format : u.lineControl &&& 0x7f#8 = format

variable {u} {divisor : Nat} {format : BitVec 8}

/-- Bit 5 of the status. -/
theorem status_bit (u : Uart) : (u.status &&& 0x20#8 ≠ 0#8) ↔ u.queue = [] := by
  unfold status
  split
  · rename_i h
    refine ⟨fun _ => h, fun _ => ?_⟩
    generalize u.other = w
    revert w
    decide +kernel
  · rename_i h
    refine ⟨fun hbit => absurd ?_ hbit, fun he => absurd he h⟩
    generalize u.other = w
    revert w
    decide +kernel

/-- **An empty queue takes a byte.** -/
theorem transmit_of_empty (h : u.queue = []) (v : BitVec 8) :
    u.transmit v = { u with queue := [v] } := by
  unfold transmit
  rw [h, List.nil_append]
  refine if_pos ?_
  split <;> decide

/-- The data register of a ready controller with an empty queue. -/
theorem Ready.write (hr : Ready divisor format u) (h : u.queue = []) (v : BitVec 8) :
    u.write v 0 = { u with queue := [v] } := by
  have hselected := hr.selected
  unfold Uart.write
  rw [if_pos rfl, hselected]
  exact transmit_of_empty h v

/-- **A byte sent** carries what was written, in the format of the line. -/
theorem Ready.send (hr : Ready divisor format u) {b : BitVec 8} {queue : List (BitVec 8)}
    (h : u.queue = b :: queue) :
    u.send = some { u with queue := queue, wire := u.wire ++ u.heard [⟨b, divisor, format⟩] } := by
  unfold Uart.send
  rw [h]
  dsimp only
  rw [hr.divisor, hr.format]

/-- Nothing that leaves the registers alone spoils it. -/
theorem Ready.of_same {u' : Uart} (hr : Ready divisor format u)
    (hline : u'.lineControl = u.lineControl) (hlow : u'.divisorLow = u.divisorLow)
    (hhigh : u'.divisorHigh = u.divisorHigh) : Ready divisor format u' := by
  obtain ⟨h1, h2, h3⟩ := hr
  unfold Uart.selected at h1
  unfold Uart.divisor at h2
  refine ⟨?_, ?_, ?_⟩
  · unfold Uart.selected
    rw [hline]
    exact h1
  · unfold Uart.divisor
    rw [hlow, hhigh]
    exact h2
  · rw [hline]
    exact h3

/-! ## 3. The registers alone -/

/-- The registers, without the bytes waiting and sent. -/
def registers (u : Uart) : Uart := { u with queue := [], wire := [] }

@[simp] theorem registers_registers (u : Uart) : u.registers.registers = u.registers := rfl

theorem registers_transmit (u : Uart) (v : BitVec 8) :
    (u.transmit v).registers = u.registers := by
  unfold transmit
  split_ifs <;> rfl

theorem registers_controlQueue (u : Uart) (v : BitVec 8) :
    (u.controlQueue v).registers = { u.registers with fifoControl := v } := by
  unfold controlQueue
  split <;> rfl

/-- **What a write leaves in the registers** does not depend on the bytes. -/
theorem registers_write (u : Uart) (v : BitVec 8) (reg : Nat) :
    (u.write v reg).registers = (u.registers.write v reg).registers := by
  have hselected : u.registers.selected = u.selected := rfl
  unfold write
  rw [hselected]
  split_ifs
  · rfl
  · rw [registers_transmit, registers_transmit, registers_registers]
  · rfl
  · rfl
  · rw [registers_controlQueue, registers_controlQueue, registers_registers]
  · rfl
  · rfl
  · rfl

/-- What a byte sent leaves: the registers, and one byte less waiting. -/
theorem registers_send {u u' : Uart} (h : u.send = some u') :
    u'.registers = u.registers ∧ ∃ b frame, u.queue = b :: u'.queue ∧
      u'.wire = u.wire ++ u.heard [frame] ∧ frame.value = b := by
  unfold send at h
  split at h
  · cases h
  · rename_i b queue hqueue
    cases h
    exact ⟨rfl, b, _, hqueue, rfl, rfl⟩

/-- **A write that is not data** sends nothing, and keeps the bytes waiting or drops them all. -/
theorem write_queue {u : Uart} {reg : Nat} (h : reg = 0 → u.selected = true) (v : BitVec 8) :
    (u.write v reg).wire = u.wire ∧
      ((u.write v reg).queue = u.queue ∨ (u.write v reg).queue = []) := by
  unfold write
  split_ifs with h0 hs
  · exact ⟨rfl, Or.inl rfl⟩
  · exact absurd (h h0) hs
  · exact ⟨rfl, Or.inl rfl⟩
  · exact ⟨rfl, Or.inl rfl⟩
  · unfold controlQueue
    split
    · exact ⟨rfl, Or.inr rfl⟩
    · exact ⟨rfl, Or.inl rfl⟩
  · exact ⟨rfl, Or.inl rfl⟩
  · exact ⟨rfl, Or.inl rfl⟩
  · exact ⟨rfl, Or.inl rfl⟩

/-- A write queues one byte at most. -/
theorem write_length (u : Uart) (v : BitVec 8) (reg : Nat) :
    (u.write v reg).queue.length ≤ u.queue.length + 1 := by
  by_cases h : reg = 0 → u.selected = true
  · rcases (write_queue h v).2 with heq | heq
    · rw [heq]
      exact Nat.le_succ _
    · rw [heq]
      exact Nat.zero_le _
  · obtain ⟨rfl, hs⟩ := Classical.not_imp.mp h
    have hdata : u.write v 0 = u.transmit v := by
      unfold write
      rw [if_pos rfl, if_neg hs]
    rw [hdata]
    unfold transmit
    split_ifs <;> simp

end Uart

end Serial
