/-
  File:      OsPlayground/Boot/Print.lean
  Subject:   THE BOOT LOADER'S TEXT OUTPUT (video_print.s).

  `es` is the video segment, so `es:di` is a byte of it by its 16-bit offset; `xpos` and `ypos`
  are single bytes. A print answers the machine and the words it stored, in order.

  * `cprint_eq` -- a character stores one word, at `160 * ypos + 2 * xpos`, and moves `xpos` on;
  * `sprint_line` -- a text printed from column 0 stores the bytes of one stretch from the start
    of its row, and ends in column 0 of the next row, the row counted in a byte.
-/
import Mathlib.Order.Interval.Set.LinearOrder
import Mathlib.Logic.Function.Basic
import OsPlayground.Library.Logged

namespace OsPlayground.Boot

open Logged

/-! ## 1. Data -/

/-- `.ascii`. -/
def ascii (cs : List Char) : List (BitVec 8) := cs.map fun c => BitVec.ofNat 8 c.toNat

/-- The bytes from an address on where a text lies: one of them is NUL. -/
abbrev Text := { si : List (BitVec 8) // 0#8 ∈ si }

/-- `.ascii` with a NUL at its end. -/
def asciz (bytes : List (BitVec 8)) : Text :=
  ⟨bytes ++ [0#8], List.mem_append_right bytes (List.mem_singleton_self 0#8)⟩

/-- A word stored to the video segment. -/
structure Store where
  offset : BitVec 16
  word : BitVec 16
  deriving DecidableEq, Repr

/-- The variables of the loader and the bytes of the video segment. `port60` is the low byte of
    its word, the only one read and written. -/
structure Machine where
  xpos : BitVec 8
  ypos : BitVec 8
  attrib : BitVec 8
  reg16 : BitVec 16
  outstr16val : List (BitVec 8)
  port60 : BitVec 8
  video : BitVec 16 → BitVec 8

/-- The answer of a print. -/
abbrev Answer := Machine × List Store

/-- `hexstr`. -/
def hexstr : List (BitVec 8) :=
  ascii ['0', '1', '2', '3', '4', '5', '6', '7', '8', '9', 'a', 'b', 'c', 'd', 'e', 'f']

/-! ## 2. Operations -/

/-- `stosw` with `ax` at `es:di`. -/
def stosw (m : Machine) (di ax : BitVec 16) : Answer :=
  let low := Function.update m.video di (ax.setWidth 8)
  let high := Function.update low (di + 1#16) ((ax >>> 8).setWidth 8)
  ({ m with video := high }, [⟨di, ax⟩])

/-- `video_clear`: `di` goes over the even offsets below 0x1000. -/
def videoClear (m : Machine) : Answer :=
  each (fun m i => stosw m (BitVec.ofNat 16 (2 * i)) 0#16) m (List.range 0x800)

/-- The offset `cprint` computes: `mul dx` leaves the low half of the product in `ax`. -/
def cellOffset (ypos xpos : BitVec 8) : BitVec 16 :=
  let ax := ypos.setWidth 16 * 160#16
  let bx := xpos.setWidth 16 <<< 1
  0#16 + ax + bx

/-- `cprint`: the word is the attribute over the character. -/
def cprint (m : Machine) (al : BitVec 8) : Answer :=
  let ax := m.attrib ++ al
  andThen (stosw m (cellOffset m.ypos m.xpos) ax) fun m => ({ m with xpos := m.xpos + 1#8 }, [])

/-- The end of a line. -/
def endLine (m : Machine) : Answer := ({ m with ypos := m.ypos + 1#8, xpos := 0#8 }, [])

/-- `sprint`: `lodsb` until a NUL. -/
def sprint (m : Machine) : (si : List (BitVec 8)) → 0#8 ∈ si → Answer
  | [], h => absurd h List.not_mem_nil
  | al :: si, h =>
    if hz : al = 0#8 then endLine m
    else andThen (cprint m al) fun m => sprint m si ((List.mem_cons.mp h).resolve_left (Ne.symm hz))

/-- `hexloop`: `cx` digits from the highest nibble of `ax` down. -/
def hexloop : Nat → BitVec 16 → List (BitVec 8)
  | 0, _ => []
  | cx + 1, ax =>
    let ax := ax.rotateLeft 4
    hexstr.getD (ax &&& 0x0f#16).toNat 0#8 :: hexloop cx ax

/-- The text at `outstr16`, `outstr16val` inside it. -/
def outstr16 (m : Machine) : Text :=
  asciz (ascii ['r', 'e', 'g', '1', '6', ' ', '=', ' ', '0', 'x'] ++ m.outstr16val)

/-- `printreg16`. -/
def printreg16 (m : Machine) : Answer :=
  let m := { m with outstr16val := hexloop 4 m.reg16 }
  sprint m (outstr16 m).1 (outstr16 m).2

/-! ## 3. One character -/

/-- The bytes of the video segment that some words are stored to. -/
def touched (stores : List Store) : Set Nat :=
  {b | ∃ s ∈ stores, b = s.offset.toNat ∨ b = s.offset.toNat + 1}

@[simp] theorem touched_nil : touched [] = ∅ := by
  ext b
  simp [touched]

theorem touched_append (xs ys : List Store) : touched (xs ++ ys) = touched xs ∪ touched ys := by
  ext b
  simp only [touched, Set.mem_ofPred_eq, Set.mem_union, List.mem_append, or_and_right, exists_or]

theorem touched_singleton (s : Store) :
    touched [s] = Set.Ico s.offset.toNat (s.offset.toNat + 2) := by
  ext b
  simp only [touched, Set.mem_ofPred_eq, List.mem_singleton, exists_eq_left, Set.mem_Ico]
  omega

/-- **The offset does not wrap**: the last cell of row 255 is below 2^16. -/
theorem cellOffset_toNat (ypos xpos : BitVec 8) :
    (cellOffset ypos xpos).toNat = 160 * ypos.toNat + 2 * xpos.toNat := by
  have hy := ypos.isLt
  have hx := xpos.isLt
  unfold cellOffset
  simp only [BitVec.toNat_add, BitVec.toNat_mul, BitVec.toNat_setWidth, BitVec.toNat_shiftLeft,
    BitVec.toNat_ofNat, Nat.shiftLeft_eq]
  omega

/-- What a print leaves alone. -/
structure SameData (m m' : Machine) : Prop where
  attrib : m'.attrib = m.attrib
  reg16 : m'.reg16 = m.reg16
  outstr16val : m'.outstr16val = m.outstr16val
  port60 : m'.port60 = m.port60

theorem SameData.trans {m m' m'' : Machine} (h : SameData m m') (h' : SameData m' m'') :
    SameData m m'' :=
  ⟨h'.attrib.trans h.attrib, h'.reg16.trans h.reg16, h'.outstr16val.trans h.outstr16val,
    h'.port60.trans h.port60⟩

/-- **One character**: its word at the position, and the column moves on. -/
theorem cprint_eq (m : Machine) (al : BitVec 8) :
    (cprint m al).2 = [⟨cellOffset m.ypos m.xpos, m.attrib ++ al⟩] ∧
      (cprint m al).1.ypos = m.ypos ∧ (cprint m al).1.xpos = m.xpos + 1#8 ∧
      SameData m (cprint m al).1 :=
  ⟨rfl, rfl, rfl, ⟨rfl, rfl, rfl, rfl⟩⟩

/-! ## 4. One line -/

/-- The stretch of `len` cells from the start of a row. -/
def line (row len : Nat) : Set Nat := Set.Ico (160 * row) (160 * row + 2 * len)

/-- Characters stay in their row's count of 256 columns: they store the stretch of their cells. -/
theorem cprints_stretch {m : Machine} {text : List (BitVec 8)}
    (h : m.xpos.toNat + text.length < 256) :
    touched (each cprint m text).2 =
        Set.Ico (160 * m.ypos.toNat + 2 * m.xpos.toNat)
          (160 * m.ypos.toNat + 2 * (m.xpos.toNat + text.length)) ∧
      (each cprint m text).1.ypos = m.ypos ∧ SameData m (each cprint m text).1 := by
  induction text generalizing m with
  | nil =>
      refine ⟨?_, rfl, rfl, rfl, rfl, rfl⟩
      rw [each_nil, touched_nil, List.length_nil, Nat.add_zero, Set.Ico_self]
  | cons al text ih =>
      obtain ⟨hstores, hy, hx, hsame⟩ := cprint_eq m al
      rw [List.length_cons] at h
      have hx' : (cprint m al).1.xpos.toNat = m.xpos.toNat + 1 := by
        rw [hx, BitVec.toNat_add, BitVec.toNat_ofNat]
        omega
      obtain ⟨hrest, hy', hsame'⟩ := ih (m := (cprint m al).1) (by omega)
      rw [each_cons, andThen_fst, andThen_snd, touched_append, hrest, hstores, touched_singleton,
        cellOffset_toNat, hy, hx', List.length_cons]
      refine ⟨?_, hy'.trans hy, hsame.trans hsame'⟩
      -- the first cell and the stretch after it
      rw [show 160 * m.ypos.toNat + 2 * m.xpos.toNat + 2 =
          160 * m.ypos.toNat + 2 * (m.xpos.toNat + 1) by omega,
        Set.Ico_union_Ico_eq_Ico (by omega) (by omega)]
      congr 1
      omega

/-- A text whose first byte is not NUL prints it and goes on. -/
theorem sprint_cons {al : BitVec 8} (hal : al ≠ 0#8) (m : Machine) (si : List (BitVec 8))
    (h : 0#8 ∈ al :: si) (h' : 0#8 ∈ si) :
    sprint m (al :: si) h = andThen (cprint m al) fun m => sprint m si h' := dif_neg hal

/-- A text is its characters before the NUL, printed one by one, and the end of the line. -/
theorem sprint_asciz {text : List (BitVec 8)} (h : ∀ c ∈ text, c ≠ 0#8) (m : Machine) :
    sprint m (asciz text).1 (asciz text).2 = andThen (each cprint m text) endLine := by
  induction text generalizing m with
  | nil => exact dif_pos rfl
  | cons al text ih =>
      have hrest : (fun m => sprint m (asciz text).1 (asciz text).2) =
          fun m => andThen (each cprint m text) endLine :=
        funext fun m => ih (fun c hc => h c (List.mem_cons_of_mem al hc)) m
      have hfirst := sprint_cons (h al List.mem_cons_self) m (asciz text).1 (asciz (al :: text)).2
        (asciz text).2
      rw [each_cons, andThen_assoc, ← hrest]
      exact hfirst

/-- **One line**: a text printed from column 0 stores the stretch of its cells, over the end of
    the row if it is longer than that, and ends in column 0 of the next row. -/
theorem sprint_line {text : List (BitVec 8)} (h : ∀ c ∈ text, c ≠ 0#8) (hlen : text.length < 256)
    {m : Machine} (hx : m.xpos = 0#8) :
    touched (sprint m (asciz text).1 (asciz text).2).2 = line m.ypos.toNat text.length ∧
      (sprint m (asciz text).1 (asciz text).2).1.ypos = m.ypos + 1#8 ∧
      (sprint m (asciz text).1 (asciz text).2).1.xpos = 0#8 ∧
      SameData m (sprint m (asciz text).1 (asciz text).2).1 := by
  have hzero : m.xpos.toNat = 0 := by
    rw [hx]
    rfl
  obtain ⟨hstores, hy, hsame⟩ :=
    cprints_stretch (show m.xpos.toNat + text.length < 256 by omega)
  rw [sprint_asciz h]
  refine ⟨?_, ?_, rfl, hsame.attrib, hsame.reg16, hsame.outstr16val, hsame.port60⟩
  · have hend : (andThen (each cprint m text) endLine).2 = (each cprint m text).2 :=
      List.append_nil _
    rw [hend, hstores, hzero, Nat.mul_zero, Nat.add_zero, Nat.zero_add]
    rfl
  · show (each cprint m text).1.ypos + 1#8 = m.ypos + 1#8
    rw [hy]

/-! ## 5. The register's line -/

/-- No digit is NUL. -/
theorem hexloop_ne_nul (cx : Nat) (ax : BitVec 16) : ∀ c ∈ hexloop cx ax, c ≠ 0#8 := by
  have hdigit : ∀ i < 16, hexstr.getD i 0#8 ≠ 0#8 := by decide
  induction cx generalizing ax with
  | zero => exact fun c hc => absurd hc List.not_mem_nil
  | succ cx ih =>
      intro c hc
      rcases List.mem_cons.mp hc with rfl | hc
      · refine hdigit _ ?_
        rw [BitVec.toNat_and]
        exact Nat.lt_of_le_of_lt Nat.and_le_right (by decide)
      · exact ih _ c hc

theorem hexloop_length (cx : Nat) (ax : BitVec 16) : (hexloop cx ax).length = cx := by
  induction cx generalizing ax with
  | zero => rfl
  | succ cx ih => exact congrArg (· + 1) (ih _)

theorem label_ne_nul :
    ∀ c ∈ ascii ['r', 'e', 'g', '1', '6', ' ', '=', ' ', '0', 'x'], c ≠ 0#8 := by
  decide

/-- The characters of the register's line. -/
def regText (ax : BitVec 16) : List (BitVec 8) :=
  ascii ['r', 'e', 'g', '1', '6', ' ', '=', ' ', '0', 'x'] ++ hexloop 4 ax

theorem regText_ne_nul (ax : BitVec 16) : ∀ c ∈ regText ax, c ≠ 0#8 := by
  intro c hc
  rcases List.mem_append.mp hc with hc | hc
  · exact label_ne_nul c hc
  · exact hexloop_ne_nul 4 ax c hc

theorem regText_length (ax : BitVec 16) : (regText ax).length = 14 := by
  unfold regText
  rw [List.length_append, hexloop_length]
  rfl

/-- `printreg16` prints that text from the machine with its digits. -/
theorem printreg16_eq (m : Machine) :
    printreg16 m = sprint { m with outstr16val := hexloop 4 m.reg16 } (asciz (regText m.reg16)).1
      (asciz (regText m.reg16)).2 := rfl

/-- **The register's line** is 14 characters long, whatever the register holds. -/
theorem printreg16_line {m : Machine} (hx : m.xpos = 0#8) :
    touched (printreg16 m).2 = line m.ypos.toNat 14 ∧ (printreg16 m).1.ypos = m.ypos + 1#8 ∧
      (printreg16 m).1.xpos = 0#8 := by
  have hlen := regText_length m.reg16
  obtain ⟨hstores, hy, hx', _⟩ := sprint_line (regText_ne_nul m.reg16) (by omega)
    (m := { m with outstr16val := hexloop 4 m.reg16 }) hx
  rw [hlen] at hstores
  rw [printreg16_eq]
  exact ⟨hstores, hy, hx'⟩

end OsPlayground.Boot
