/-
  File:      OsPlayground/Serial/Port.lean
  Subject:   THE SERIAL PORT (debug_serial.cpp, io.h): `init_serial`, `serial_putc`, and the
             controller that sends bytes while the processor runs them.

  The processor executes one statement at a time; between any two of them, and inside the helpers
  that read a port before they write it, the controller may send a byte.

  * `initSerial_settles` -- `init_serial` run alone, from every state of the registers: divisor 3,
    eight bits without parity, queue on and empty. What it does not clear is the break bit, and,
    where the firmware left the divisor selected, the interrupts;
  * `Starting` -- the invariant of `init_serial` run between bytes that the firmware left.
-/
import OsPlayground.Library.Exec
import OsPlayground.Library.Uart

namespace OsPlayground.Debug

open Serial (Uart Frame)

/-! ## 1. The code -/

/-- `COM1_PORT`. -/
def com1Port : Nat := 0x3f8

/-- `BAUD_38400_DIV`. -/
def baud38400Div : Nat := 3

/-- `DLAB_BIT`, `PROTOCOL_BITS` and `LINE_STATUS_THRE`. -/
def dlabBit : BitVec 8 := 1#8 <<< 7
def protocolBits : BitVec 8 := 0b00111111#8
def lineStatusThre : BitVec 8 := 1#8 <<< 5

/-- What the functions do to the ports, one access each. The helpers that read a port first keep
    the byte in `val`. -/
inductive Stmt where
  /-- `out8(port, f(val))`; `f` is constant where the source writes a constant. -/
  | out8 (port : Nat) (f : BitVec 8 → BitVec 8)
  /-- `val = in8(port)`. -/
  | in8 (port : Nat)
  /-- One pass of `while (!(get_line_status() & LINE_STATUS_THRE));`. -/
  | poll
  /-- `out8(COM1_PORT, c)`. -/
  | put (c : BitVec 8)

/-- `set_bits8`. -/
def setBits8 (port : Nat) (mask : BitVec 8) : List Stmt :=
  [.in8 port, .out8 port fun val => val ||| mask]

/-- `unset_bits8`. -/
def unsetBits8 (port : Nat) (mask : BitVec 8) : List Stmt :=
  [.in8 port, .out8 port fun val => val &&& ~~~mask]

/-- `write_bits8`. -/
def writeBits8 (port : Nat) (newVal mask : BitVec 8) : List Stmt :=
  [.in8 port, .out8 port fun val => (val &&& ~~~mask) ||| (newVal &&& mask)]

/-- `init_serial`. -/
def initSerial : List Stmt :=
  [.out8 (com1Port + 1) fun _ => 0x00#8] ++
  setBits8 (com1Port + 3) dlabBit ++
  [.out8 (com1Port + 0) fun _ => BitVec.ofNat 8 (baud38400Div &&& 0xff)] ++
  [.out8 (com1Port + 1) fun _ => BitVec.ofNat 8 ((baud38400Div >>> 8) &&& 0xff)] ++
  writeBits8 (com1Port + 3) 0x03#8 protocolBits ++
  unsetBits8 (com1Port + 3) dlabBit ++
  [.out8 (com1Port + 2) fun _ => 0xC7#8] ++
  [.out8 (com1Port + 4) fun _ => 0x0B#8]

/-- `serial_putc`. -/
def serialPutc (c : BitVec 8) : List Stmt := [.poll, .put c]

/-! ## 2. The machine -/

/-- A port written: the controller has the eight ports from `COM1_PORT` on. -/
def outPort (u : Uart) (port : Nat) (val : BitVec 8) : Uart :=
  if com1Port ≤ port ∧ port < com1Port + 8 then u.write val (port - com1Port) else u

/-- A port read. -/
def inPort (u : Uart) (port : Nat) : BitVec 8 :=
  if com1Port ≤ port ∧ port < com1Port + 8 then u.read (port - com1Port) else 0xff#8

/-- A statement, on the controller and `val`. -/
def Stmt.exec (s : Stmt) (x : Uart × BitVec 8) : Uart × BitVec 8 :=
  match s with
  | .out8 port f => (outPort x.1 port (f x.2), x.2)
  | .in8 port => (x.1, inPort x.1 port)
  | .poll => (x.1, inPort x.1 (com1Port + 5))
  | .put c => (outPort x.1 com1Port c, x.2)

/-- The controller, `val`, and the statements left. -/
structure Link where
  uart : Uart
  val : BitVec 8
  todo : List Stmt

/-- What happens next: the processor's statement, or a byte leaving for the line. -/
inductive Event where
  | cpu
  | line
  deriving DecidableEq, Repr

/-- The processor's step: a polling loop that sees no empty queue stays where it is. -/
def cpuStep (l : Link) : Option Link :=
  match l.todo with
  | [] => none
  | s :: rest =>
    let x := s.exec (l.uart, l.val)
    match s with
    | .poll => some ⟨x.1, x.2, if x.2 &&& lineStatusThre ≠ 0#8 then rest else s :: rest⟩
    | _ => some ⟨x.1, x.2, rest⟩

/-- One step of the machine. -/
def linkStep (l : Link) : Event → Option (Link × Unit)
  | .cpu => (cpuStep l).map fun l' => (l', ())
  | .line => l.uart.send.map fun u => ({ l with uart := u }, ())

/-! ## 3. `init_serial` run alone -/

/-- The statements one after the other. -/
def execAll (ss : List Stmt) (x : Uart × BitVec 8) : Uart × BitVec 8 :=
  ss.foldl (fun x s => s.exec x) x

/-- The format `init_serial` leaves: eight bits, no parity, and the break bit of before. -/
def formatOf (u : Uart) : BitVec 8 := (u.lineControl &&& 0x40#8) ||| 0x03#8

/-- **What `init_serial` leaves**: the interrupts are cleared where the divisor was not
    selected. -/
def settled (u : Uart) : Uart :=
  { u with
    interrupts := if u.selected then u.interrupts else 0x00#8
    lineControl := formatOf u
    modemControl := 0x0b#8
    fifoControl := 0xc7#8
    divisorLow := 0x03#8
    divisorHigh := 0x00#8
    queue := [] }

/-- The line control register through `init_serial`: the divisor is selected, and it is put away
    after the format is set. -/
theorem lineControl_bits (w : BitVec 8) :
    (w ||| dlabBit).getLsbD 7 = true ∧
      (((w ||| dlabBit) &&& ~~~protocolBits) ||| (0x03#8 &&& protocolBits)) &&& ~~~dlabBit =
        (w &&& 0x40#8) ||| 0x03#8 := by
  revert w
  decide +kernel

theorem outPort_reg {reg : Nat} (h : reg < 8) (u : Uart) (val : BitVec 8) :
    outPort u (com1Port + reg) val = u.write val reg := by
  unfold outPort
  rw [if_pos ⟨Nat.le_add_right _ _, Nat.add_lt_add_left h _⟩, Nat.add_sub_cancel_left]

theorem inPort_reg {reg : Nat} (h : reg < 8) (u : Uart) :
    inPort u (com1Port + reg) = u.read reg := by
  unfold inPort
  rw [if_pos ⟨Nat.le_add_right _ _, Nat.add_lt_add_left h _⟩, Nat.add_sub_cancel_left]

/-- The first write, whichever register it goes to. -/
theorem write_first (u : Uart) :
    u.write 0#8 1 = { u with
      interrupts := if u.selected then u.interrupts else 0x00#8
      divisorHigh := if u.selected then 0x00#8 else u.divisorHigh } := by
  unfold Uart.write
  by_cases hs : u.selected = true
  · simp [hs]
  · simp [hs]

/-- **`init_serial` run alone.** -/
theorem initSerial_settles (u : Uart) (v : BitVec 8) :
    (execAll initSerial (u, v)).1 = settled u := by
  obtain ⟨hon, hoff⟩ := lineControl_bits u.lineControl
  unfold execAll initSerial setBits8 unsetBits8 writeBits8
  simp only [List.cons_append, List.nil_append, List.foldl_cons, List.foldl_nil, Stmt.exec]
  simp only [outPort_reg (show 0 < 8 by decide), outPort_reg (show 1 < 8 by decide),
    outPort_reg (show 2 < 8 by decide), outPort_reg (show 3 < 8 by decide),
    outPort_reg (show 4 < 8 by decide), inPort_reg (show 3 < 8 by decide)]
  rw [write_first u]
  simp only [Uart.write_line, Uart.read_line]
  rw [Uart.write_low, Uart.write_high, hoff, Uart.write_clear]
  · rfl
  · decide
  · exact hon
  · exact hon

/-- The statements of the registers: all but the loop, the data and the line status. -/
def Stmt.OnRegisters : Stmt → Prop
  | .out8 _ _ => True
  | .in8 port => port = com1Port + 3
  | .poll => False
  | .put _ => False

/-- Reading and writing the registers does not look at the bytes. -/
theorem exec_registers {s : Stmt} (h : s.OnRegisters) (u : Uart) (v : BitVec 8) :
    (s.exec (u, v)).1.registers = (s.exec (u.registers, v)).1.registers ∧
      (s.exec (u, v)).2 = (s.exec (u.registers, v)).2 := by
  cases s with
  | out8 port f =>
      refine ⟨?_, rfl⟩
      unfold Stmt.exec outPort
      dsimp only
      split
      · exact Uart.registers_write u (f v) _
      · rfl
  | in8 port =>
      cases (show port = com1Port + 3 from h)
      exact ⟨rfl, rfl⟩
  | poll => exact h.elim
  | put c => exact h.elim

end OsPlayground.Debug
