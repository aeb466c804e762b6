/-
  File:      OsPlayground/Interrupt/Gates.lean
  Subject:   FROM A VECTOR TO A FUNCTION (interrupt_manager.h, interrupt_manager.cpp, bootstrap.s):
             the gates `load_idt` writes, as the processor reads them.

  A gate is a packed record of eight bytes with the address of the handler in two halves. The
  processor finds it through the register `lidt` loads and goes to the offset in it, in the
  segment its selector names. The segment's descriptor is not read here: `lgdt` left its table at
  a physical address, which `clear_ident_map` takes out of the page tables.

  * `entry_gateByte` -- a gate taken apart is the address it was made of;
  * `loadIdt_gate` -- the stores of `load_idt`, in order, leave at each vector the gate of the
    function that serves it;
  * `fetchGate_serves` -- so every vector leads to its function, with interrupts off;
  * `interrupts_reach` -- and so does every line, from every state the firmware left the
    controllers in.
-/
import OsPlayground.Interrupt.Reprogram

namespace OsPlayground.Interrupt

open Pic8259

/-! ## 1. The functions -/

/-- The interrupt service routines of interrupt_impl.h. -/
inductive Isr where
  | assertNoHandler | idHandler
  | handleDiv0 | handleDebug | handleNmi | handleBreakpoint | handleOverflow | handleBound
  | handleUndefOpcode | handleFpuUnavail | handleDoubleFault | handleFpuOverrun
  | handleInvalidTss | handleSegfault | handleStackSegfault | handleGpFault | handlePageFault
  | handleFpuFault | handleAlignCheck | handleMachineCheck | handleSseFault | handleVirtFault
  | handleCpFault
  | handleTimer | handleKeyboard | handlePs2Mouse
  deriving DecidableEq, Repr

/-- What a routine does to the controllers. -/
def Isr.handler : Isr → Handler
  | .assertNoHandler => .assertNoHandler
  | .idHandler => .idHandler
  | .handleTimer => .timer
  | .handleKeyboard => .keyboard
  | .handlePs2Mouse => .ps2Mouse
  | _ => .exception

/-- The routines of the processor's exceptions by vector; 15 is reserved. -/
def exceptionIsrs : List Isr :=
  [.handleDiv0, .handleDebug, .handleNmi, .handleBreakpoint, .handleOverflow, .handleBound,
    .handleUndefOpcode, .handleFpuUnavail, .handleDoubleFault, .handleFpuOverrun,
    .handleInvalidTss, .handleSegfault, .handleStackSegfault, .handleGpFault, .handlePageFault,
    .assertNoHandler, .handleFpuFault, .handleAlignCheck, .handleMachineCheck, .handleSseFault,
    .handleVirtFault, .handleCpFault]

/-- **The routine that serves a vector**: the processor's exceptions by their numbers, then the
    lines from `irq_offset` on; the other vectors are not expected. -/
def serves (vector : Nat) : Isr :=
  if vector < irqOffset then exceptionIsrs.getD vector .assertNoHandler
  else if vector < irqOffset + 16 then
    if vector = irqOffset then .handleTimer
    else if vector = irqOffset + 1 then .handleKeyboard
    else if vector = irqOffset + 12 then .handlePs2Mouse
    else .idHandler
  else .assertNoHandler

/-! ## 2. The gates -/

/-- `InterruptGate`. -/
structure InterruptGate where
  offsetLow : BitVec 16
  segmentSelector : BitVec 16
  ist : BitVec 8
  flags : BitVec 8
  offsetHigh : BitVec 16
  deriving DecidableEq

/-- `make_interrupt_gate`. -/
def makeInterruptGate (f : BitVec 32) : InterruptGate :=
  let type : BitVec 8 := 0b1110
  let p : BitVec 8 := 1
  let dpl : BitVec 8 := 0
  { offsetLow := (f &&& 0xffff).setWidth 16
    segmentSelector := 0x8
    ist := 0
    flags := (p <<< 7) ||| (dpl <<< 5) ||| type
    offsetHigh := ((f >>> 16) &&& 0xffff).setWidth 16 }

/-- The gate `memset` leaves. -/
def zeroGate : InterruptGate := ⟨0, 0, 0, 0, 0⟩

/-- The stores of `load_idt` for the exceptions. -/
def exceptionStores : List (Nat × Isr) :=
  [(0x00, .handleDiv0), (0x01, .handleDebug), (0x02, .handleNmi), (0x03, .handleBreakpoint),
    (0x04, .handleOverflow), (0x05, .handleBound), (0x06, .handleUndefOpcode),
    (0x07, .handleFpuUnavail), (0x08, .handleDoubleFault), (0x09, .handleFpuOverrun),
    (0x0a, .handleInvalidTss), (0x0b, .handleSegfault), (0x0c, .handleStackSegfault),
    (0x0d, .handleGpFault), (0x0e, .handlePageFault), (0x0f, .assertNoHandler),
    (0x10, .handleFpuFault), (0x11, .handleAlignCheck), (0x12, .handleMachineCheck),
    (0x13, .handleSseFault), (0x14, .handleVirtFault), (0x15, .handleCpFault)]

/-- A loop of `load_idt`: the same routine from `lo` up to `hi`. -/
def loopStores (lo hi : Nat) (f : Isr) : List (Nat × Isr) :=
  (List.range' lo (hi - lo)).map fun i => (i, f)

/-- The stores of `load_idt` to the table, in order. -/
def idtStores : List (Nat × Isr) :=
  List.flatten
    [exceptionStores,
      loopStores 0x16 0x20 .assertNoHandler,
      [(0x20, .handleTimer), (0x21, .handleKeyboard)],
      loopStores 0x22 0x2c .idHandler,
      [(0x2c, .handlePs2Mouse), (0x2d, .idHandler), (0x2e, .idHandler), (0x2f, .idHandler)],
      loopStores 0x30 0x100 .assertNoHandler]

/-- `load_idt` with the routines at the addresses the linker gave them. -/
def loadIdtTable (addr : Isr → BitVec 32) (table : Nat → InterruptGate) : Nat → InterruptGate :=
  idtStores.foldl (fun t s => Function.update t s.1 (makeInterruptGate (addr s.2)))
    fun i => if i < 256 then zeroGate else table i

/-! ## 3. The processor -/

/-- The bytes of a gate in memory. -/
def gateByte (g : InterruptGate) : Nat → BitVec 8
  | 0 => g.offsetLow.extractLsb' 0 8
  | 1 => g.offsetLow.extractLsb' 8 8
  | 2 => g.segmentSelector.extractLsb' 0 8
  | 3 => g.segmentSelector.extractLsb' 8 8
  | 4 => g.ist
  | 5 => g.flags
  | 6 => g.offsetHigh.extractLsb' 0 8
  | _ => g.offsetHigh.extractLsb' 8 8

/-- Memory with the table at `base`. -/
def tableMemory (table : Nat → InterruptGate) (base : Nat) (m : Nat → BitVec 8) : Nat → BitVec 8 :=
  fun a => if base ≤ a ∧ a < base + 256 * 8 then gateByte (table ((a - base) / 8)) ((a - base) % 8)
    else m a

/-- `IDTRegister`: what `lidt` loads. -/
structure IDTRegister where
  limit : Nat
  addr : Nat

/-- The register of `init_interrupts`. -/
def idtRegister (base : Nat) : IDTRegister := ⟨256 * 8 - 1, base⟩

/-- Where an interrupt goes, and whether interrupts are off there. -/
structure Entry where
  selector : BitVec 16
  offset : BitVec 32
  interruptsOff : Bool
  deriving DecidableEq

/-- The entry in the eight bytes of a gate: none where it is not present, or of a type other than
    an interrupt gate or a trap gate. -/
def entryOf (b : Nat → BitVec 8) : Option Entry :=
  if (b 5).getLsbD 7 then
    if b 5 &&& 0x1f#8 = 0x0e#8 then some ⟨b 3 ++ b 2, b 7 ++ b 6 ++ b 1 ++ b 0, true⟩
    else if b 5 &&& 0x1f#8 = 0x0f#8 then some ⟨b 3 ++ b 2, b 7 ++ b 6 ++ b 1 ++ b 0, false⟩
    else none
  else none

/-- The gate of a vector, where the register's limit allows it. -/
def fetchGate (m : Nat → BitVec 8) (idtr : IDTRegister) (vector : Nat) : Option Entry :=
  if 8 * vector + 7 ≤ idtr.limit then entryOf fun k => m (idtr.addr + 8 * vector + k) else none

/-! ## 4. One gate -/

/-- Two words put together. -/
theorem toNat_append {w v : Nat} (hi : BitVec w) (lo : BitVec v) :
    (hi ++ lo).toNat = hi.toNat * 2 ^ v + lo.toNat := by
  rw [BitVec.toNat_append, Nat.shiftLeft_eq, Nat.mul_comm, Nat.two_pow_add_eq_or_of_lt lo.isLt]

/-- The two halves of the address. -/
theorem offset_halves (f : BitVec 32) : (makeInterruptGate f).offsetLow.toNat = f.toNat % 65536 ∧
    (makeInterruptGate f).offsetHigh.toNat = f.toNat / 65536 := by
  have hlt := f.isLt
  have hmask : ∀ n : Nat, n &&& 65535 = n % 65536 := fun n => Nat.and_two_pow_sub_one_eq_mod n 16
  constructor
  · show ((f &&& 0xffff).setWidth 16).toNat = _
    rw [BitVec.toNat_setWidth, BitVec.toNat_and]
    show (f.toNat &&& 65535) % 65536 = _
    rw [hmask, Nat.mod_mod]
  · show (((f >>> 16) &&& 0xffff).setWidth 16).toNat = _
    rw [BitVec.toNat_setWidth, BitVec.toNat_and, BitVec.toNat_ushiftRight, Nat.shiftRight_eq_div_pow]
    show (f.toNat / 65536 &&& 65535) % 65536 = _
    rw [hmask]
    omega

/-- **The address in two halves, each in two bytes**, put together again. -/
theorem offset_bytes (f : BitVec 32) :
    gateByte (makeInterruptGate f) 7 ++ gateByte (makeInterruptGate f) 6 ++
      gateByte (makeInterruptGate f) 1 ++ gateByte (makeInterruptGate f) 0 = f := by
  obtain ⟨hlow, hhigh⟩ := offset_halves f
  have hlt := f.isLt
  refine BitVec.eq_of_toNat_eq ?_
  rw [toNat_append, toNat_append, toNat_append]
  simp only [gateByte, BitVec.extractLsb'_toNat, hlow, hhigh, Nat.shiftRight_eq_div_pow]
  omega

theorem flags_eq : ((1#8 <<< 7) ||| (0#8 <<< 5) ||| 0b1110#8) = 0x8e#8 := by decide

/-- **A gate taken apart**: the kernel's code segment, the address it was made of, interrupts
    off. -/
theorem entry_gateByte (f : BitVec 32) :
    entryOf (gateByte (makeInterruptGate f)) = some ⟨0x8, f, true⟩ := by
  have hflags : gateByte (makeInterruptGate f) 5 = 0x8e#8 := flags_eq
  have hsel : gateByte (makeInterruptGate f) 3 ++ gateByte (makeInterruptGate f) 2 = 0x8#16 := by
    show (0x8#16).extractLsb' 8 8 ++ (0x8#16).extractLsb' 0 8 = 0x8#16
    decide
  unfold entryOf
  rw [hflags, if_pos (by decide), if_pos (by decide), hsel, offset_bytes]
  rfl

/-! ## 5. The table -/

/-- The stores go through the vectors in order, each to the routine that serves it. -/
theorem idtStores_eq : idtStores = (List.range 256).map fun v => (v, serves v) := by decide +kernel

/-- Stores to the first `n` indices in order. -/
theorem foldl_stores (addr : Isr → BitVec 32) (table : Nat → InterruptGate) (n i : Nat) :
    ((List.range n).map fun v => (v, serves v)).foldl
        (fun t s => Function.update t s.1 (makeInterruptGate (addr s.2))) table i =
      if i < n then makeInterruptGate (addr (serves i)) else table i := by
  induction n with
  | zero => rfl
  | succ n ih =>
      rw [List.range_succ, List.map_append, List.foldl_append, List.map_singleton, List.foldl_cons,
        List.foldl_nil, Function.update_apply]
      by_cases hi : i = n
      · rw [if_pos hi, if_pos (by omega), hi]
      · rw [if_neg hi, ih]
        by_cases hlt : i < n
        · rw [if_pos hlt, if_pos (by omega)]
        · rw [if_neg hlt, if_neg (by omega)]

/-- **The table `load_idt` leaves**: at each vector the gate of the routine that serves it. -/
theorem loadIdt_gate (addr : Isr → BitVec 32) (table : Nat → InterruptGate) {v : Nat}
    (hv : v < 256) : loadIdtTable addr table v = makeInterruptGate (addr (serves v)) := by
  unfold loadIdtTable
  rw [idtStores_eq, foldl_stores, if_pos hv]

/-- The routines are those whose writes to the controllers the machine of the lines makes. -/
theorem serves_handler : ∀ v < 256, (serves v).handler = loadIdt v := by
  decide +kernel

/-- The eight bytes of a gate of the table. -/
theorem tableMemory_gate (table : Nat → InterruptGate) (base : Nat) (m : Nat → BitVec 8)
    {v k : Nat} (hv : v < 256) (hk : k < 8) :
    tableMemory table base m (base + 8 * v + k) = gateByte (table v) k := by
  have hdiv : (base + 8 * v + k - base) / 8 = v := by omega
  have hmod : (base + 8 * v + k - base) % 8 = k := by omega
  unfold tableMemory
  rw [if_pos ⟨by omega, by omega⟩, hdiv, hmod]

/-- The entry is read off the first eight bytes. -/
theorem entryOf_congr {b b' : Nat → BitVec 8} (h : ∀ k < 8, b k = b' k) : entryOf b = entryOf b' := by
  unfold entryOf
  rw [h 0 (by omega), h 1 (by omega), h 2 (by omega), h 3 (by omega), h 5 (by omega),
    h 6 (by omega), h 7 (by omega)]

/-- **Every vector leads to its routine**, in the kernel's code segment and with interrupts off. -/
theorem fetchGate_serves (addr : Isr → BitVec 32) (table : Nat → InterruptGate) (base : Nat)
    (m : Nat → BitVec 8) (vector : BitVec 8) :
    fetchGate (tableMemory (loadIdtTable addr table) base m) (idtRegister base) vector.toNat =
      some ⟨0x8, addr (serves vector.toNat), true⟩ := by
  have hv : vector.toNat < 256 := vector.isLt
  have hbytes : ∀ k < 8, tableMemory (loadIdtTable addr table) base m (base + 8 * vector.toNat + k) =
      gateByte (makeInterruptGate (addr (serves vector.toNat))) k := fun k hk => by
    rw [tableMemory_gate _ base m hv hk, loadIdt_gate addr table hv]
  unfold fetchGate idtRegister
  rw [if_pos (by dsimp only; omega)]
  exact (entryOf_congr hbytes).trans (entry_gateByte _)

/-- **Interrupts find their routines.** Whatever state the firmware left the controllers in,
    whatever addresses the linker gave the routines and whatever the table and the memory held
    before: the gate of a vector names the address of the routine that serves it, in the kernel's
    code segment and with interrupts off; and the vector of a line, once the controllers are
    reprogrammed, leads to the routine that does to the controllers what the machine of the lines
    says. -/
theorem interrupts_reach (c : Chips) (addr : Isr → BitVec 32) (table : Nat → InterruptGate)
    (base : Nat) (m : Nat → BitVec 8) :
    (∀ vector : BitVec 8,
      fetchGate (tableMemory (loadIdtTable addr table) base m) (idtRegister base) vector.toNat =
        some ⟨0x8, addr (serves vector.toNat), true⟩) ∧
      ∀ line : Line, ∃ v, (reprogramPics c).vector line.val = some v ∧
        (serves v.toNat).handler = line.handler ∧
        fetchGate (tableMemory (loadIdtTable addr table) base m) (idtRegister base) v.toNat =
          some ⟨0x8, addr (serves v.toNat), true⟩ := by
  refine ⟨fetchGate_serves addr table base m, fun line => ?_⟩
  obtain ⟨v, hv, hval⟩ := reprogramPics_vector c line
  refine ⟨v, hv, ?_, fetchGate_serves addr table base m v⟩
  rw [serves_handler v.toNat v.isLt, hval]
  rfl

end OsPlayground.Interrupt
