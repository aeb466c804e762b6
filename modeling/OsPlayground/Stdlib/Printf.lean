/-
  File:      OsPlayground/Stdlib/Printf.lean
  Subject:   FORMATTED OUTPUT (stdlib.cpp): `parse_format_spec`, the three number formats,
             `format_arg` and `vfprintf`.

  A format string is the list of its characters; `'\0'` ends it, as does the end of the list. The
  arguments are the 32-bit words on the stack, read one after the other (`VaList`). `vfprintf`
  loops over the string; every pass of the loop answers where it stood and what it printed.
-/
import Mathlib

namespace OsPlayground.Stdlib

/-! ## 1. The specification of a directive -/

/-- `format_spec::flag`. -/
def leftJustify : BitVec 8 := 1#8 <<< 0
def forceSign : BitVec 8 := 1#8 <<< 1
def forceSpace : BitVec 8 := 1#8 <<< 2
def forcePoint : BitVec 8 := 1#8 <<< 3
def zeroPad : BitVec 8 := 1#8 <<< 4

/-- `format_spec`, with the values of its constructor. The two numbers are 16-bit signed. -/
structure FormatSpec where
  flags : BitVec 8 := 0
  minWidth : Int := -1
  precision : Int := -1
  specifier : Char := '\x00'
  deriving DecidableEq, Repr

/-- A value stored in an `int16_t`. -/
def int16 (n : Int) : Int := Int.bmod n (2 ^ 16)

/-- The flag a character sets. -/
def flagOf (c : Char) : Option (BitVec 8) :=
  if c = '-' then some leftJustify
  else if c = '+' then some forceSign
  else if c = ' ' then some forceSpace
  else if c = '#' then some forcePoint
  else if c = '0' then some zeroPad
  else none

/-- The first loop: flags up to the first other character. -/
def parseFlags (flags : BitVec 8) : List Char → BitVec 8 × List Char
  | [] => (flags, [])
  | c :: fmt =>
    match flagOf c with
    | some flag => parseFlags (flags ||| flag) fmt
    | none => (flags, c :: fmt)

/-- The loop for the width and again for the precision: digits up to the first other character;
    a star is eaten and ends it. -/
def parseNumber (n : Int) : List Char → Int × List Char
  | [] => (n, [])
  | c :: fmt =>
    if c = '*' then (n, fmt)
    else if '0' ≤ c ∧ c ≤ '9' then
      parseNumber (int16 (if n < 0 then (c.toNat : Int) - 48 else n * 10 + c.toNat - 48)) fmt
    else (n, c :: fmt)

/-- The conversions `parse_format_spec` knows. -/
def specifiers : List Char := ['d', 'i', 'u', 'x', 'c', 's', 'p', '%']

/-- The precision, where a point announces it. -/
def parsePrecision : List Char → Int × List Char
  | '.' :: fmt => parseNumber (-1) fmt
  | fmt => (-1, fmt)

/-- The conversion: a known one is eaten. -/
def parseSpecifier : List Char → Char × List Char
  | [] => ('\x00', [])
  | c :: fmt => if c ∈ specifiers then (c, fmt) else ('\x00', c :: fmt)

/-- `parse_format_spec`: the specification and the rest of the string. -/
def parseFormatSpec (fmt : List Char) : FormatSpec × List Char :=
  let flags := parseFlags 0 fmt
  let width := parseNumber (-1) flags.2
  let precision := parsePrecision width.2
  let specifier := parseSpecifier precision.2
  (⟨flags.1, if width.1 > 1024 then 1024 else width.1, precision.1, specifier.1⟩, specifier.2)

/-! ## 2. Numbers -/

/-- The loop of `unsigned_to_buf` and `hex_to_buf`, the last digit first. The buffer has 32
    bytes. -/
def toBuf (base : Nat) (digit : Nat → Char) : Nat → Nat → List Char
  | 0, _ => []
  | n + 1, arg => if arg > 0 then digit (arg % base) :: toBuf base digit n (arg / base) else []

/-- `unsigned_to_buf`. -/
def unsignedToBuf (arg : BitVec 32) : List Char := toBuf 10 (fun d => Char.ofNat (48 + d)) 32 arg.toNat

/-- `hex_to_buf`. -/
def hexToBuf (arg : BitVec 32) : List Char :=
  toBuf 16 (fun d => if d < 10 then Char.ofNat (48 + d) else Char.ofNat (97 + d - 10)) 32 arg.toNat

/-- `write_fill`. -/
def writeFill (spec : FormatSpec) (printLen : Nat) : List Char :=
  let fill := if spec.flags &&& zeroPad ≠ 0 then '0' else ' '
  List.replicate (spec.minWidth - (printLen % 2 ^ 16 : Nat)).toNat fill

/-- The end of the three formats: the extra character, the fill, the buffer backwards. -/
def writeNumber (spec : FormatSpec) (extra : Option Char) (buf : List Char) : List Char :=
  extra.toList ++ writeFill spec (if extra.isSome then buf.length + 1 else buf.length) ++ buf.reverse

/-- `format_unsigned`. -/
def formatUnsigned (spec : FormatSpec) (arg : BitVec 32) : List Char :=
  writeNumber spec (if arg = 0 then some '0' else none) (unsignedToBuf arg)

/-- `format_int`. The negation is the machine's: the least number stays as it is. -/
def formatInt (spec : FormatSpec) (arg : BitVec 32) : List Char :=
  if arg = 0 then writeNumber spec (some '0') (unsignedToBuf arg)
  else if arg.toInt < 0 then writeNumber spec (some '-') (unsignedToBuf (-arg))
  else writeNumber spec none (unsignedToBuf arg)

/-- `format_hex`. -/
def formatHex (spec : FormatSpec) (arg : BitVec 32) : List Char :=
  writeNumber spec (if arg = 0 then some '0' else none) (hexToBuf arg)

/-! ## 3. The loop over the string -/

/-- `va_list`: the words of the argument area and the index of the next one. -/
structure VaList where
  word : Nat → BitVec 32
  next : Nat

/-- The argument `va_arg` reads. -/
def VaList.arg (args : VaList) : BitVec 32 := args.word args.next

/-- The arguments after `va_arg`. -/
def VaList.advance (args : VaList) : VaList := { args with next := args.next + 1 }

/-- `format_arg` on a string that begins with '%', of which `fmtSpec` is the rest: what it
    prints, where it leaves the string, and the arguments left. -/
def formatArg (fmtSpec : List Char) (args : VaList) : List Char × List Char × VaList :=
  let r := parseFormatSpec fmtSpec
  if r.1.specifier = 'd' ∨ r.1.specifier = 'i' then (formatInt r.1 args.arg, r.2, args.advance)
  else if r.1.specifier = 'u' then (formatUnsigned r.1 args.arg, r.2, args.advance)
  else if r.1.specifier = 'x' then (formatHex r.1 args.arg, r.2, args.advance)
  else (['%'], fmtSpec, args)

/-- The body of the loop of `vfprintf` at the character `next`: as `format_arg` answers. -/
def putNext (next : Char) (s : List Char) (args : VaList) : List Char × List Char × VaList :=
  if next ≠ '%' then ([next], s, args) else formatArg s args

/-- One pass of the loop: where it stood, the next argument there, and what it printed. -/
structure Pass where
  fmt : List Char
  next : Nat
  out : List Char
  deriving DecidableEq, Repr

/-- The passes of the loop of `vfprintf`; `none` is fuel that ran out. -/
def passes : Nat → List Char → VaList → Option (List Pass)
  | 0, _, _ => none
  | _ + 1, [], _ => some []
  | n + 1, next :: s, args =>
    if next = '\x00' then some []
    else
      let r := putNext next s args
      (passes n r.2.1 r.2.2).map (⟨next :: s, args.next, r.1⟩ :: ·)

/-- `vfprintf`: the characters printed and their number. -/
def vfprintf (fmt : List Char) (args : VaList) : Option (List Char × Nat) :=
  (passes (fmt.length + 1) fmt args).map fun ps =>
    (ps.flatMap Pass.out, (ps.flatMap Pass.out).length % 2 ^ 32)

/-! ## 4. Every string is printed -/

theorem parseFlags_length (flags : BitVec 8) (fmt : List Char) :
    (parseFlags flags fmt).2.length ≤ fmt.length := by
  induction fmt generalizing flags with
  | nil => exact Nat.le_refl _
  | cons c fmt ih =>
      unfold parseFlags
      split
      · exact Nat.le_succ_of_le (ih _)
      · exact Nat.le_refl _

theorem parseNumber_length (n : Int) (fmt : List Char) :
    (parseNumber n fmt).2.length ≤ fmt.length := by
  induction fmt generalizing n with
  | nil => exact Nat.le_refl _
  | cons c fmt ih =>
      unfold parseNumber
      split_ifs
      · exact Nat.le_succ _
      · exact Nat.le_succ_of_le (ih _)
      · exact Nat.le_succ_of_le (ih _)
      · exact Nat.le_refl _

theorem parsePrecision_length (fmt : List Char) :
    (parsePrecision fmt).2.length ≤ fmt.length := by
  unfold parsePrecision
  split
  · exact Nat.le_succ_of_le (parseNumber_length _ _)
  · exact Nat.le_refl _

/-- A known conversion is eaten, any other rest is kept. -/
theorem parseSpecifier_cases (fmt : List Char) :
    (∃ c rest, fmt = c :: rest ∧ c ∈ specifiers ∧ parseSpecifier fmt = (c, rest)) ∨
      parseSpecifier fmt = ('\x00', fmt) := by
  cases fmt with
  | nil => exact Or.inr rfl
  | cons c fmt =>
      unfold parseSpecifier
      by_cases hc : c ∈ specifiers
      · exact Or.inl ⟨c, fmt, rfl, hc, if_pos hc⟩
      · exact Or.inr (if_neg hc)

/-- **The directive's text**: parsing never goes back, and a known conversion is part of the
    text parsed. -/
theorem parseFormatSpec_length (fmt : List Char) :
    (parseFormatSpec fmt).2.length ≤ fmt.length ∧
      ((parseFormatSpec fmt).1.specifier ∈ specifiers →
        (parseFormatSpec fmt).2.length < fmt.length) := by
  have h1 := parseFlags_length 0 fmt
  have h2 := parseNumber_length (-1) (parseFlags 0 fmt).2
  have h3 := parsePrecision_length (parseNumber (-1) (parseFlags 0 fmt).2).2
  unfold parseFormatSpec
  dsimp only
  generalize (parsePrecision (parseNumber (-1) (parseFlags 0 fmt).2).2).2 = rest at h3
  rcases parseSpecifier_cases rest with ⟨c, rest', he, _, hs⟩ | hs
  · have hlen : rest.length = rest'.length + 1 := by rw [he, List.length_cons]
    rw [hs]
    dsimp only
    exact ⟨by omega, fun _ => by omega⟩
  · rw [hs]
    dsimp only
    exact ⟨by omega, fun hm => absurd hm (by decide)⟩

/-- `format_arg` leaves no more of the string than it was given after the '%'. -/
theorem formatArg_length (s : List Char) (args : VaList) :
    (formatArg s args).2.1.length ≤ s.length := by
  have h := (parseFormatSpec_length s).1
  unfold formatArg
  dsimp only
  split_ifs
  · exact h
  · exact h
  · exact h
  · exact Nat.le_refl _

/-- Every pass shortens the string. -/
theorem putNext_length (next : Char) (s : List Char) (args : VaList) :
    (putNext next s args).2.1.length ≤ s.length := by
  unfold putNext
  split
  · exact Nat.le_refl _
  · exact formatArg_length s args

theorem passes_nil {n : Nat} (hn : 0 < n) (args : VaList) : passes n [] args = some [] := by
  obtain ⟨n, rfl⟩ := Nat.exists_eq_succ_of_ne_zero hn.ne'
  rfl

/-- One pass and the passes after it. -/
theorem passes_cons {n : Nat} {next : Char} (h0 : next ≠ '\x00') {s : List Char} {args : VaList}
    {ps : List Pass} (h : passes n (putNext next s args).2.1 (putNext next s args).2.2 = some ps) :
    passes (n + 1) (next :: s) args =
      some (⟨next :: s, args.next, (putNext next s args).1⟩ :: ps) := by
  unfold passes
  rw [if_neg h0]
  dsimp only
  rw [h]
  rfl

/-- **The loop ends** within the length of the string. -/
theorem passes_total (n : Nat) (s : List Char) (args : VaList) (hn : s.length < n) :
    ∃ ps, passes n s args = some ps := by
  induction n generalizing s args with
  | zero => exact absurd hn (Nat.not_lt_zero _)
  | succ n ih =>
      cases s with
      | nil => exact ⟨[], rfl⟩
      | cons next s =>
          by_cases h0 : next = '\x00'
          · exact ⟨[], if_pos h0⟩
          · have hlen := putNext_length next s args
            rw [List.length_cons] at hn
            obtain ⟨ps, hps⟩ := ih (putNext next s args).2.1 (putNext next s args).2.2 (by omega)
            exact ⟨_, passes_cons h0 hps⟩

end OsPlayground.Stdlib
