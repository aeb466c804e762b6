/-
  File:      OsPlayground/Stdlib/Numbers.lean
  Subject:   FORMATTED NUMBERS against the text the C standard asks for.

  A format string here is a list of pieces: characters printed as they are and directives of a
  number, with flags out of '0' and '-', a width and one of the conversions d, i, u, x.

  * `parse_directive` -- the text of such a directive is parsed to its parts;
  * `formatConv_eq` -- what the three formats print: a leading character, the fill, the rest;
  * `written_iff` -- when that is the text of C (`PadsLikeC`). The leading '-' or the lone
    '0' is printed before the fill, and the '-' flag is never looked at;
  * `formatsLikeC_iff` -- so a string prints C's text exactly when every directive of it does.
-/
import OsPlayground.Stdlib.Printf

namespace OsPlayground.Stdlib

/-! ## 1. Pieces of a format string -/

inductive Flag where
  | zero | left
  deriving DecidableEq, Repr

def Flag.char : Flag → Char
  | zero => '0'
  | left => '-'

/-- A width as it may be written: not 0, which would be a flag, and at most 1024. -/
structure Width where
  val : Nat
  pos : 0 < val
  le : val ≤ 1024

/-- The conversions of numbers. -/
inductive Conv where
  | d | i | u | x
  deriving DecidableEq, Repr

def Conv.char : Conv → Char
  | d => 'd' | i => 'i' | u => 'u' | x => 'x'

/-- A character printed as it is. -/
structure Literal where
  val : Char
  plain : val ≠ '%' ∧ val ≠ '\x00'

inductive Piece where
  | literal (c : Literal)
  | directive (flags : List Flag) (width : Option Width) (conv : Conv)

/-- The digits of a width, nothing where there is none. -/
def widthText (width : Option Width) : List Char := width.elim [] fun w => Nat.toDigits 10 w.val

/-- The width asked for; 0 asks for nothing. -/
def widthVal (width : Option Width) : Nat := width.elim 0 Width.val

/-- The text of a piece. -/
def Piece.text : Piece → List Char
  | literal c => [c.val]
  | directive flags width conv =>
    '%' :: (flags.map Flag.char ++ (widthText width ++ [conv.char]))

/-! ## 2. The text of C -/

/-- The argument is printed with a sign. -/
def Negative (conv : Conv) (arg : BitVec 32) : Prop := (conv = .d ∨ conv = .i) ∧ arg.toInt < 0

instance (conv : Conv) (arg : BitVec 32) : Decidable (Negative conv arg) :=
  inferInstanceAs (Decidable (_ ∧ _))

def sign (conv : Conv) (arg : BitVec 32) : List Char := if Negative conv arg then ['-'] else []

/-- The canonical digits. -/
def digits (conv : Conv) (arg : BitVec 32) : List Char :=
  match conv with
  | .d | .i => Nat.toDigits 10 arg.toInt.natAbs
  | .u => Nat.toDigits 10 arg.toNat
  | .x => Nat.toDigits 16 arg.toNat

/-- **The text of C** for a directive: on the right of the number spaces where '-' is given, else
    between sign and digits zeros where '0' is given, else on the left spaces. -/
def cText (flags : List Flag) (width : Option Width) (conv : Conv) (arg : BitVec 32) : List Char :=
  let body := sign conv arg ++ digits conv arg
  let pad := widthVal width - body.length
  if Flag.left ∈ flags then body ++ List.replicate pad ' '
  else if Flag.zero ∈ flags then sign conv arg ++ List.replicate pad '0' ++ digits conv arg
  else List.replicate pad ' ' ++ body

/-- The text of C for a format string; the arguments go to the directives in order. -/
def cOutput : List Piece → VaList → List Char
  | [], _ => []
  | .literal c :: ps, args => c.val :: cOutput ps args
  | .directive flags width conv :: ps, args =>
    cText flags width conv args.arg ++ cOutput ps args.advance

/-- **The format string prints the text of C.** -/
def FormatsLikeC (ps : List Piece) (args : VaList) : Prop :=
  (vfprintf (ps.flatMap Piece.text) args).map Prod.fst = some (cOutput ps args)

/-- **The directive is padded as in C**: nothing to fill, zeros without '-', spaces before a
    number that is positive and unsigned in print, or spaces after the lone zero. -/
def PadsLikeC (flags : List Flag) (width : Option Width) (conv : Conv) (arg : BitVec 32) : Prop :=
  widthVal width ≤ (sign conv arg ++ digits conv arg).length ∨
    (Flag.zero ∈ flags ∧ Flag.left ∉ flags) ∨
    (Flag.zero ∉ flags ∧ Flag.left ∉ flags ∧ arg ≠ 0 ∧ ¬ Negative conv arg) ∨
    (Flag.zero ∉ flags ∧ Flag.left ∈ flags ∧ arg = 0)

/-- Every directive of the string is padded as in C on the argument it takes. -/
def AllPadLikeC : List Piece → VaList → Prop
  | [], _ => True
  | .literal _ :: ps, args => AllPadLikeC ps args
  | .directive flags width conv :: ps, args =>
    PadsLikeC flags width conv args.arg ∧ AllPadLikeC ps args.advance

/-! ## 3. Digits -/

/-- The loop's digits read backwards are the canonical ones, as long as the buffer holds them. -/
theorem toBuf_reverse {base : Nat} (hb : 1 < base) {digit : Nat → Char}
    (hd : ∀ d < base, digit d = Nat.digitChar d) (n : Nat) {arg : Nat} (hpos : 0 < arg)
    (hn : arg < base ^ n) : (toBuf base digit n arg).reverse = Nat.toDigits base arg := by
  induction n generalizing arg with
  | zero => exact absurd hn (by rw [Nat.pow_zero]; omega)
  | succ n ih =>
      unfold toBuf
      rw [if_pos hpos, List.reverse_cons, hd _ (Nat.mod_lt _ (by omega))]
      by_cases hlt : arg < base
      · rw [Nat.div_eq_of_lt hlt, Nat.mod_eq_of_lt hlt, Nat.toDigits_of_lt_base hlt]
        cases n with
        | zero => rfl
        | succ n => rfl
      · have hdiv : arg / base < base ^ n := by
          rw [Nat.div_lt_iff_lt_mul (by omega), ← Nat.pow_succ]
          exact hn
        rw [ih (Nat.div_pos (by omega) (by omega)) hdiv, ← Nat.toDigits_of_base_le hb (by omega)]

theorem unsignedToBuf_reverse {arg : BitVec 32} (h : arg ≠ 0) :
    (unsignedToBuf arg).reverse = Nat.toDigits 10 arg.toNat := by
  have hpos : 0 < arg.toNat := by
    rw [Nat.pos_iff_ne_zero]
    exact fun h0 => h (BitVec.eq_of_toNat_eq h0)
  have hlt : arg.toNat < 10 ^ 32 := lt_trans arg.isLt (by decide)
  exact toBuf_reverse (by decide) (by decide) 32 hpos hlt

theorem hexToBuf_reverse {arg : BitVec 32} (h : arg ≠ 0) :
    (hexToBuf arg).reverse = Nat.toDigits 16 arg.toNat := by
  have hpos : 0 < arg.toNat := by
    rw [Nat.pos_iff_ne_zero]
    exact fun h0 => h (BitVec.eq_of_toNat_eq h0)
  have hlt : arg.toNat < 16 ^ 32 := lt_trans arg.isLt (by decide)
  exact toBuf_reverse (by decide) (by decide) 32 hpos hlt

/-- The machine's negation of a negative number is its absolute value. -/
theorem neg_toNat {arg : BitVec 32} (h : arg.toInt < 0) : (-arg).toNat = arg.toInt.natAbs := by
  have hlt := arg.isLt
  rw [BitVec.toNat_neg]
  rw [BitVec.toInt_eq_toNat_cond] at h ⊢
  split_ifs at h ⊢ <;> omega

theorem pos_toNat {arg : BitVec 32} (h : ¬ arg.toInt < 0) : arg.toInt.natAbs = arg.toNat := by
  have hlt := arg.isLt
  rw [BitVec.toInt_eq_toNat_cond] at h ⊢
  split_ifs at h ⊢ <;> omega

/-! ## 4. What the three formats print -/

/-- The format of a conversion. -/
def formatConv (conv : Conv) (spec : FormatSpec) (arg : BitVec 32) : List Char :=
  match conv with
  | .d | .i => formatInt spec arg
  | .u => formatUnsigned spec arg
  | .x => formatHex spec arg

/-- What is printed before the fill: the lone zero or the sign. -/
def lead (conv : Conv) (arg : BitVec 32) : List Char := if arg = 0 then ['0'] else sign conv arg

/-- What is printed after the fill. -/
def body (conv : Conv) (arg : BitVec 32) : List Char := if arg = 0 then [] else digits conv arg

theorem lead_body (conv : Conv) (arg : BitVec 32) :
    lead conv arg ++ body conv arg = sign conv arg ++ digits conv arg := by
  unfold lead body
  by_cases h : arg = 0
  · rw [if_pos h, if_pos h, h]
    cases conv <;> decide
  · rw [if_neg h, if_neg h]

theorem writeNumber_eq (spec : FormatSpec) (extra : Option Char) (buf : List Char) :
    writeNumber spec extra buf = extra.toList ++
      writeFill spec (extra.toList ++ buf.reverse).length ++ buf.reverse := by
  unfold writeNumber
  cases extra with
  | none => simp
  | some c => simp

/-- The signed format prints the absolute value after the sign. -/
theorem formatInt_eq {conv : Conv} (hc : conv = .d ∨ conv = .i) (spec : FormatSpec)
    (arg : BitVec 32) : formatInt spec arg = lead conv arg ++
      writeFill spec (lead conv arg ++ body conv arg).length ++ body conv arg := by
  have hdig : digits conv arg = Nat.toDigits 10 arg.toInt.natAbs := by
    rcases hc with rfl | rfl <;> rfl
  unfold formatInt lead body sign
  by_cases h0 : arg = 0
  · rw [if_pos h0, if_pos h0, if_pos h0, writeNumber_eq, h0]
    rfl
  rw [if_neg h0, if_neg h0, if_neg h0, hdig]
  by_cases hneg : arg.toInt < 0
  · have hne : -arg ≠ 0 := fun h => h0 (by simpa using h)
    rw [if_pos hneg, if_pos ⟨hc, hneg⟩, writeNumber_eq, unsignedToBuf_reverse hne, neg_toNat hneg]
    rfl
  · rw [if_neg hneg, if_neg fun h => hneg h.2, writeNumber_eq, unsignedToBuf_reverse h0,
      pos_toNat hneg]
    rfl

/-- **What a format prints**: the leading character, the fill, the rest. -/
theorem formatConv_eq (conv : Conv) (spec : FormatSpec) (arg : BitVec 32) :
    formatConv conv spec arg = lead conv arg ++
      writeFill spec (lead conv arg ++ body conv arg).length ++ body conv arg := by
  cases conv with
  | d => exact formatInt_eq (Or.inl rfl) spec arg
  | i => exact formatInt_eq (Or.inr rfl) spec arg
  | u =>
      have hneg : ¬ Negative .u arg := by simp [Negative]
      show formatUnsigned spec arg = _
      unfold formatUnsigned lead body sign digits
      rw [writeNumber_eq, if_neg hneg]
      by_cases h0 : arg = 0
      · rw [if_pos h0, if_pos h0, if_pos h0, h0]
        rfl
      · rw [if_neg h0, if_neg h0, if_neg h0, unsignedToBuf_reverse h0]
        rfl
  | x =>
      have hneg : ¬ Negative .x arg := by simp [Negative]
      show formatHex spec arg = _
      unfold formatHex lead body sign digits
      rw [writeNumber_eq, if_neg hneg]
      by_cases h0 : arg = 0
      · rw [if_pos h0, if_pos h0, if_pos h0, h0]
        rfl
      · rw [if_neg h0, if_neg h0, if_neg h0, hexToBuf_reverse h0]
        rfl

/-! ## 5. Reading the directive -/

/-- The flag of a character sets the bits it has. -/
theorem flagOf_char (f : Flag) :
    flagOf f.char = some (if f = .zero then zeroPad else leftJustify) := by
  cases f <;> rfl

/-- Only '0' sets the bit the fill looks at. -/
theorem zeroPad_or (flags : BitVec 8) (f : Flag) :
    (flags ||| if f = .zero then zeroPad else leftJustify) &&& zeroPad ≠ 0 ↔
      flags &&& zeroPad ≠ 0 ∨ f = .zero := by
  revert flags
  cases f <;> decide

/-- **Flags are read** up to the first character that is none; the fill is '0' when one of them
    is. -/
theorem parseFlags_flags (flags : List Flag) (acc : BitVec 8) {c : Char} (hc : flagOf c = none)
    (rest : List Char) :
    ∃ bits, parseFlags acc (flags.map Flag.char ++ c :: rest) = (bits, c :: rest) ∧
      (bits &&& zeroPad ≠ 0 ↔ acc &&& zeroPad ≠ 0 ∨ Flag.zero ∈ flags) := by
  induction flags generalizing acc with
  | nil =>
      refine ⟨acc, ?_, by simp⟩
      show parseFlags acc (c :: rest) = _
      unfold parseFlags
      rw [hc]
  | cons f flags ih =>
      obtain ⟨bits, hp, hb⟩ := ih (acc ||| if f = .zero then zeroPad else leftJustify)
      refine ⟨bits, ?_, ?_⟩
      · show parseFlags acc (f.char :: (flags.map Flag.char ++ c :: rest)) = _
        unfold parseFlags
        rw [flagOf_char]
        exact hp
      · rw [hb, zeroPad_or, List.mem_cons, or_assoc, eq_comm (a := f)]

/-- A digit that may begin a width is no flag, and no star. -/
theorem flagOf_digit {c : Char} (hd : c.isDigit = true) (h0 : c ≠ '0') : flagOf c = none := by
  have hne : ∀ c', c'.isDigit = false → c ≠ c' := by
    intro c' h' he
    rw [he, h'] at hd
    cases hd
  unfold flagOf
  rw [if_neg (hne _ rfl), if_neg (hne _ rfl), if_neg (hne _ rfl), if_neg (hne _ rfl), if_neg h0]

/-- A number above 0 begins with a digit that is not '0'. -/
theorem toDigits_head {b : Nat} (hb : 1 < b) (hle : b ≤ 16) (n : Nat) (hn : 0 < n) :
    ∃ c cs, Nat.toDigits b n = c :: cs ∧ c ≠ '0' := by
  induction n using Nat.strong_induction_on with
  | _ n ih =>
      by_cases hlt : n < b
      · have hne : ∀ m < 16, 0 < m → Nat.digitChar m ≠ '0' := by decide
        exact ⟨_, [], Nat.toDigits_of_lt_base hlt, hne n (by omega) hn⟩
      · have hdiv : 0 < n / b := Nat.div_pos (by omega) (by omega)
        obtain ⟨c, cs, he, hc⟩ := ih (n / b) (Nat.div_lt_self hn hb) hdiv
        refine ⟨c, cs ++ [(n % b).digitChar], ?_, hc⟩
        rw [Nat.toDigits_of_base_le hb (by omega), he, List.cons_append]

theorem isDigit_iff (c : Char) : c.isDigit = true ↔ '0' ≤ c ∧ c ≤ '9' := by
  unfold Char.isDigit
  rw [Bool.and_eq_true, decide_eq_true_eq, decide_eq_true_eq]
  exact Iff.rfl

theorem le_ofDigitChars (ds : List Char) (n : Nat) : n ≤ Nat.ofDigitChars 10 ds n := by
  induction ds generalizing n with
  | nil => exact Nat.le_refl n
  | cons d ds ih =>
      rw [Nat.ofDigitChars_cons]
      exact le_trans (by omega) (ih _)

/-- A small number fits the 16 bits. -/
theorem int16_small {n : Nat} (h : n ≤ 1024) : int16 (n : Int) = n := by
  unfold int16
  rw [Int.bmod_def]
  omega

/-- **Digits are read** after a first number, while it stays below the cap of the width. -/
theorem parseNumber_digits {c : Char} (hc : c ≠ '*') (hd : c.isDigit = false) (rest : List Char)
    (ds : List Char) (hds : ∀ d ∈ ds, d.isDigit = true) (n : Nat)
    (hle : Nat.ofDigitChars 10 ds n ≤ 1024) :
    parseNumber n (ds ++ c :: rest) = (((Nat.ofDigitChars 10 ds n : Nat) : Int), c :: rest) := by
  induction ds generalizing n with
  | nil =>
      have hno : ¬ ('0' ≤ c ∧ c ≤ '9') := by
        rw [← isDigit_iff, hd]
        exact Bool.false_ne_true
      show parseNumber n (c :: rest) = _
      unfold parseNumber
      rw [if_neg hc, if_neg hno]
      rfl
  | cons d ds ih =>
      have hdd : d.isDigit = true := hds d List.mem_cons_self
      have hstar : d ≠ '*' := by
        intro he
        rw [he] at hdd
        cases hdd
      have hge : 48 ≤ d.toNat := (Char.isDigit_iff_toNat.mp hdd).1
      rw [Nat.ofDigitChars_cons] at hle ⊢
      have hsmall : 10 * n + (d.toNat - '0'.toNat) ≤ 1024 := le_trans (le_ofDigitChars ds _) hle
      have hval : (n : Int) * 10 + d.toNat - 48 = ((10 * n + (d.toNat - '0'.toNat) : Nat) : Int) := by
        have h48 : '0'.toNat = 48 := rfl
        omega
      show parseNumber n (d :: (ds ++ c :: rest)) = _
      unfold parseNumber
      rw [if_neg hstar, if_pos ((isDigit_iff d).mp hdd), if_neg (by omega), hval,
        int16_small hsmall]
      exact ih (fun d' h' => hds d' (List.mem_cons_of_mem _ h')) _ hle

/-- The first digit of a width is the number so far. -/
theorem parseNumber_first {d : Char} (hd : d.isDigit = true) (fmt : List Char) :
    parseNumber (-1) (d :: fmt) = parseNumber ((d.toNat - 48 : Nat) : Int) fmt := by
  have hstar : d ≠ '*' := by
    intro he
    rw [he] at hd
    cases hd
  obtain ⟨hge, hle⟩ := Char.isDigit_iff_toNat.mp hd
  have h48 : '0'.toNat = 48 := rfl
  have h57 : '9'.toNat = 57 := rfl
  have hval : (d.toNat : Int) - 48 = ((d.toNat - 48 : Nat) : Int) := by omega
  conv_lhs => unfold parseNumber
  rw [if_neg hstar, if_pos ((isDigit_iff d).mp hd), if_pos (by decide), hval,
    int16_small (by omega)]

/-- The conversion characters: no digit, no flag, no star, no point, and known. -/
theorem conv_char (conv : Conv) : conv.char.isDigit = false ∧ flagOf conv.char = none ∧
    conv.char ≠ '*' ∧ conv.char ≠ '.' ∧ conv.char ∈ specifiers := by
  cases conv <;> decide

/-- **The width is read**, or stays unset. -/
theorem parseNumber_width (width : Option Width) (conv : Conv) (rest : List Char) :
    ∃ n : Int, parseNumber (-1) (widthText width ++ conv.char :: rest) = (n, conv.char :: rest) ∧
      n ≤ 1024 ∧ n.toNat = widthVal width := by
  obtain ⟨hd, _, hstar, _, _⟩ := conv_char conv
  cases width with
  | none =>
      have hno : ¬ ('0' ≤ conv.char ∧ conv.char ≤ '9') := by
        rw [← isDigit_iff, hd]
        exact Bool.false_ne_true
      refine ⟨-1, ?_, by decide, rfl⟩
      show parseNumber (-1) (conv.char :: rest) = _
      unfold parseNumber
      rw [if_neg hstar, if_neg hno]
  | some w =>
      obtain ⟨c, cs, he, hc⟩ := toDigits_head (b := 10) (by decide) (by decide) w.val w.pos
      have hall : ∀ d ∈ c :: cs, d.isDigit = true := fun d h =>
        Nat.isDigit_of_mem_toDigits (by decide) (by decide) (he ▸ h)
      have hval : Nat.ofDigitChars 10 cs (c.toNat - 48) = w.val := by
        have h := Nat.ofDigitChars_toDigits (b := 10) (n := w.val) (by decide) (by decide)
        rw [he, Nat.ofDigitChars_cons, Nat.mul_zero, Nat.zero_add] at h
        exact h
      refine ⟨(w.val : Int), ?_, by exact_mod_cast w.le, rfl⟩
      show parseNumber (-1) (Nat.toDigits 10 w.val ++ conv.char :: rest) = _
      rw [he, List.cons_append, parseNumber_first (hall c List.mem_cons_self),
        parseNumber_digits hstar hd rest cs (fun d h => hall d (List.mem_cons_of_mem _ h)) _
          (hval ▸ w.le), hval]

/-- What follows the flags is none. -/
theorem afterFlags (width : Option Width) (conv : Conv) (rest : List Char) :
    ∃ c cs, widthText width ++ conv.char :: rest = c :: cs ∧ flagOf c = none := by
  cases width with
  | none => exact ⟨conv.char, rest, rfl, (conv_char conv).2.1⟩
  | some w =>
      obtain ⟨c, cs, he, hc⟩ := toDigits_head (b := 10) (by decide) (by decide) w.val w.pos
      have hd : c.isDigit = true :=
        Nat.isDigit_of_mem_toDigits (by decide) (by decide) (he ▸ List.mem_cons_self)
      refine ⟨c, cs ++ conv.char :: rest, ?_, flagOf_digit hd hc⟩
      show Nat.toDigits 10 w.val ++ _ = _
      rw [he, List.cons_append]

theorem parsePrecision_conv (conv : Conv) (rest : List Char) :
    parsePrecision (conv.char :: rest) = (-1, conv.char :: rest) := by
  cases conv <;> rfl

theorem parseSpecifier_conv (conv : Conv) (rest : List Char) :
    parseSpecifier (conv.char :: rest) = (conv.char, rest) := if_pos (conv_char conv).2.2.2.2

/-- **A directive is parsed to its parts.** -/
theorem parse_directive (flags : List Flag) (width : Option Width) (conv : Conv)
    (rest : List Char) :
    ∃ spec, parseFormatSpec (flags.map Flag.char ++ (widthText width ++ conv.char :: rest)) =
        (spec, rest) ∧ spec.specifier = conv.char ∧ spec.minWidth.toNat = widthVal width ∧
      (spec.flags &&& zeroPad ≠ 0 ↔ Flag.zero ∈ flags) := by
  obtain ⟨c, cs, hafter, hc⟩ := afterFlags width conv rest
  obtain ⟨bits, hflags, hbits⟩ := parseFlags_flags flags 0 hc cs
  obtain ⟨n, hnum, hle, hval⟩ := parseNumber_width width conv rest
  refine ⟨⟨bits, n, -1, conv.char⟩, ?_, rfl, hval, ?_⟩
  · unfold parseFormatSpec
    rw [hafter, hflags]
    dsimp only
    rw [← hafter, hnum]
    dsimp only
    rw [parsePrecision_conv]
    dsimp only
    rw [parseSpecifier_conv, if_neg (not_lt.mpr hle)]
  · rw [hbits]
    exact or_iff_right (by decide)

/-! ## 6. One directive -/

/-- What a directive prints: the fill is zeros or spaces, wherever the number stands. -/
def written (flags : List Flag) (width : Option Width) (conv : Conv) (arg : BitVec 32) :
    List Char :=
  lead conv arg ++ List.replicate (widthVal width - (lead conv arg ++ body conv arg).length)
    (if Flag.zero ∈ flags then '0' else ' ') ++ body conv arg

/-- A number's text is short. -/
theorem number_length (conv : Conv) (arg : BitVec 32) :
    (lead conv arg ++ body conv arg).length < 2 ^ 16 := by
  have hlt := arg.isLt
  have habs : arg.toInt.natAbs < 2 ^ 32 := by
    by_cases hneg : arg.toInt < 0
    · exact neg_toNat hneg ▸ (-arg).isLt
    · exact pos_toNat hneg ▸ hlt
  have hbase : ∀ b n, 2 ≤ b → n < 2 ^ 32 → (Nat.toDigits b n).length ≤ 32 := by
    intro b n hb hn
    rw [Nat.length_toDigits_le_iff hb (by decide)]
    exact lt_of_lt_of_le hn (Nat.pow_le_pow_left hb 32)
  have hdig : (digits conv arg).length ≤ 32 := by
    cases conv with
    | d => exact hbase 10 _ (by decide) habs
    | i => exact hbase 10 _ (by decide) habs
    | u => exact hbase 10 _ (by decide) hlt
    | x => exact hbase 16 _ (by decide) hlt
  have hsign : (sign conv arg).length ≤ 1 := by
    unfold sign
    split <;> decide
  rw [lead_body, List.length_append]
  omega

/-- **A directive's pass** eats its text and one argument, and prints the number. -/
theorem formatArg_directive (flags : List Flag) (width : Option Width) (conv : Conv)
    (rest : List Char) (args : VaList) :
    formatArg (flags.map Flag.char ++ (widthText width ++ conv.char :: rest)) args =
      (written flags width conv args.arg, rest, args.advance) := by
  obtain ⟨spec, hparse, hspec, hwidth, hzero⟩ := parse_directive flags width conv rest
  have hfill : formatConv conv spec args.arg = written flags width conv args.arg := by
    rw [formatConv_eq]
    unfold written writeFill
    dsimp only
    have hif : (if spec.flags &&& zeroPad ≠ 0 then '0' else ' ') =
        if Flag.zero ∈ flags then '0' else ' ' := by simp only [hzero]
    rw [hif, Nat.mod_eq_of_lt (number_length conv args.arg), Int.toNat_sub', hwidth]
  rw [← hfill]
  unfold formatArg
  rw [hparse]
  dsimp only
  rw [hspec]
  cases conv <;> rfl

/-! ## 7. One directive against C -/

section Directive

variable {flags : List Flag} {width : Option Width} {conv : Conv} {arg : BitVec 32}

/-- The number of characters to fill. -/
def padding (width : Option Width) (conv : Conv) (arg : BitVec 32) : Nat :=
  widthVal width - (sign conv arg ++ digits conv arg).length

theorem padding_eq : widthVal width - (lead conv arg ++ body conv arg).length =
    padding width conv arg := by
  rw [lead_body]
  rfl

/-- The last digit is no space. -/
theorem digits_last (conv : Conv) (arg : BitVec 32) :
    ∃ cs c, digits conv arg = cs ++ [c] ∧ c ≠ ' ' := by
  have hlast : ∀ b n, 2 ≤ b → b ≤ 16 → ∃ cs c, Nat.toDigits b n = cs ++ [c] ∧ c ≠ ' ' := by
    intro b n hb hb'
    have hne : ∀ d < 16, Nat.digitChar d ≠ ' ' := by decide
    by_cases hlt : n < b
    · exact ⟨[], _, Nat.toDigits_of_lt_base hlt, hne n (by omega)⟩
    · refine ⟨_, _, Nat.toDigits_of_base_le hb (by omega), hne _ ?_⟩
      exact lt_of_lt_of_le (Nat.mod_lt n (by omega)) hb'
  cases conv with
  | d => exact hlast 10 _ (by decide) (by decide)
  | i => exact hlast 10 _ (by decide) (by decide)
  | u => exact hlast 10 _ (by decide) (by decide)
  | x => exact hlast 16 _ (by decide) (by decide)

/-- The lone zero. -/
theorem parts_zero (conv : Conv) : lead conv 0 = ['0'] ∧ body conv 0 = [] ∧ sign conv 0 = [] ∧
    digits conv 0 = ['0'] := by
  cases conv <;> decide

/-- Any other number. -/
theorem parts_ne (conv : Conv) (h : arg ≠ 0) :
    lead conv arg = sign conv arg ∧ body conv arg = digits conv arg :=
  ⟨if_neg h, if_neg h⟩

/-- With '-' the code is right for a zero filled with spaces only. -/
theorem written_left (hl : Flag.left ∈ flags) (hk : 0 < padding width conv arg) :
    written flags width conv arg = cText flags width conv arg ↔ Flag.zero ∉ flags ∧ arg = 0 := by
  unfold written cText
  dsimp only
  rw [padding_eq, if_pos hl, ← padding]
  generalize padding width conv arg = k at hk
  obtain ⟨k, rfl⟩ := Nat.exists_eq_succ_of_ne_zero hk.ne'
  by_cases h0 : arg = 0
  · obtain ⟨e1, e2, e3, e4⟩ := parts_zero conv
    rw [h0, e1, e2, e3, e4, List.append_nil, List.nil_append, List.append_cancel_left_eq]
    by_cases hz : Flag.zero ∈ flags
    · rw [if_pos hz]
      refine iff_of_false (fun h => ?_) fun h => h.1 hz
      cases h
    · rw [if_neg hz]
      exact iff_of_true rfl ⟨hz, rfl⟩
  · -- the code ends in a digit, C in a space
    obtain ⟨e1, e2⟩ := parts_ne conv h0
    obtain ⟨cs, c, hd, hc⟩ := digits_last conv arg
    refine iff_of_false (fun h => ?_) fun h => h0 h.2
    rw [e1, e2, hd, List.replicate_succ' (n := k) (a := ' '), ← List.append_assoc,
      ← List.append_assoc, ← List.append_assoc] at h
    have hlast := congrArg List.getLast? h
    rw [List.getLast?_concat, List.getLast?_concat] at hlast
    exact hc (Option.some.inj hlast)

/-- With '0' and without '-' the code is right. -/
theorem written_zero (hl : Flag.left ∉ flags) (hz : Flag.zero ∈ flags) :
    written flags width conv arg = cText flags width conv arg := by
  unfold written cText
  dsimp only
  rw [padding_eq, if_neg hl, if_pos hz, if_pos hz, ← padding]
  by_cases h0 : arg = 0
  · obtain ⟨e1, e2, e3, e4⟩ := parts_zero conv
    rw [h0, e1, e2, e3, e4, List.append_nil, List.nil_append]
    exact (List.replicate_succ (n := padding width conv 0) (a := '0')).symm.trans
      List.replicate_succ'
  · obtain ⟨e1, e2⟩ := parts_ne conv h0
    rw [e1, e2]

/-- Without flags the code is right for the numbers printed without a leading character. -/
theorem written_plain (hl : Flag.left ∉ flags) (hz : Flag.zero ∉ flags)
    (hk : 0 < padding width conv arg) :
    written flags width conv arg = cText flags width conv arg ↔ arg ≠ 0 ∧ ¬ Negative conv arg := by
  unfold written cText
  dsimp only
  rw [padding_eq, if_neg hl, if_neg hz, if_neg hz, ← padding]
  generalize padding width conv arg = k at hk
  obtain ⟨k, rfl⟩ := Nat.exists_eq_succ_of_ne_zero hk.ne'
  rw [List.replicate_succ]
  by_cases h0 : arg = 0
  · obtain ⟨e1, e2, e3, e4⟩ := parts_zero conv
    rw [h0, e1]
    refine iff_of_false (fun h => ?_) fun h => h.1 rfl
    exact absurd (List.cons.inj h).1 (by decide)
  · obtain ⟨e1, e2⟩ := parts_ne conv h0
    rw [e1, e2]
    unfold sign
    by_cases hneg : Negative conv arg
    · rw [if_pos hneg]
      refine iff_of_false (fun h => ?_) fun h => h.2 hneg
      exact absurd (List.cons.inj h).1 (by decide)
    · rw [if_neg hneg]
      exact iff_of_true rfl ⟨h0, hneg⟩

/-- **A directive prints the text of C exactly when it is padded as in C.** -/
theorem written_iff : written flags width conv arg = cText flags width conv arg ↔
    PadsLikeC flags width conv arg := by
  unfold PadsLikeC
  by_cases hk : widthVal width ≤ (sign conv arg ++ digits conv arg).length
  · -- nothing to fill
    have hpad : padding width conv arg = 0 := Nat.sub_eq_zero_of_le hk
    refine iff_of_true ?_ (Or.inl hk)
    unfold written cText
    dsimp only
    rw [padding_eq, ← padding, hpad, List.replicate_zero, List.replicate_zero,
      List.replicate_zero, List.append_nil, List.append_nil, List.append_nil, List.nil_append,
      ite_self, ite_self, lead_body]
  have hpos : 0 < padding width conv arg := Nat.sub_pos_of_lt (Nat.lt_of_not_le hk)
  rw [or_iff_right hk]
  by_cases hl : Flag.left ∈ flags
  · rw [written_left hl hpos]
    tauto
  by_cases hz : Flag.zero ∈ flags
  · exact iff_of_true (written_zero hl hz) (Or.inl ⟨hz, hl⟩)
  · rw [written_plain hl hz hpos]
    tauto

/-- Both texts have the same length. -/
theorem written_length :
    (written flags width conv arg).length = (cText flags width conv arg).length := by
  have hlen := congrArg List.length (lead_body conv arg)
  rw [List.length_append, List.length_append] at hlen
  unfold written cText
  dsimp only
  rw [padding_eq, ← padding]
  split_ifs <;> simp only [List.length_append, List.length_replicate] <;> omega

end Directive

/-! ## 8. Format strings -/

/-- What the code prints for a format string. -/
def output : List Piece → VaList → List Char
  | [], _ => []
  | .literal c :: ps, args => c.val :: output ps args
  | .directive flags width conv :: ps, args =>
    written flags width conv args.arg ++ output ps args.advance

/-- **The passes over a format string** print its pieces in order. -/
theorem passes_pieces (ps : List Piece) (args : VaList) (n : Nat)
    (hn : (ps.flatMap Piece.text).length < n) :
    ∃ qs, passes n (ps.flatMap Piece.text) args = some qs ∧ qs.flatMap Pass.out = output ps args := by
  induction ps generalizing args n with
  | nil => exact ⟨[], passes_nil (by omega) args, rfl⟩
  | cons p ps ih =>
      obtain ⟨n, rfl⟩ := Nat.exists_eq_succ_of_ne_zero (by omega : n ≠ 0)
      cases p with
      | literal c =>
          have htext : (Piece.literal c :: ps).flatMap Piece.text =
              c.val :: ps.flatMap Piece.text := rfl
          rw [htext] at hn ⊢
          rw [List.length_cons] at hn
          have hput : putNext c.val (ps.flatMap Piece.text) args =
              ([c.val], ps.flatMap Piece.text, args) := if_pos c.plain.1
          obtain ⟨qs, hqs, hout⟩ := ih args n (by omega)
          refine ⟨_, passes_cons c.plain.2 (by rw [hput]; exact hqs), ?_⟩
          rw [List.flatMap_cons, hout, hput]
          rfl
      | directive flags width conv =>
          have htext : (Piece.directive flags width conv :: ps).flatMap Piece.text =
              '%' :: (flags.map Flag.char ++ (widthText width ++
                conv.char :: ps.flatMap Piece.text)) := by
            simp [Piece.text]
          rw [htext] at hn ⊢
          have hput : putNext '%' (flags.map Flag.char ++ (widthText width ++
              conv.char :: ps.flatMap Piece.text)) args =
              (written flags width conv args.arg, ps.flatMap Piece.text, args.advance) :=
            formatArg_directive flags width conv _ args
          simp only [List.length_cons, List.length_append] at hn
          obtain ⟨qs, hqs, hout⟩ := ih args.advance n (by omega)
          refine ⟨_, passes_cons (by decide) (by rw [hput]; exact hqs), ?_⟩
          rw [List.flatMap_cons, hout, hput]
          rfl

/-- The code's text of a string is C's exactly when it is for every directive. -/
theorem output_iff (ps : List Piece) (args : VaList) :
    output ps args = cOutput ps args ↔ AllPadLikeC ps args := by
  induction ps generalizing args with
  | nil => exact iff_of_true rfl trivial
  | cons p ps ih =>
      cases p with
      | literal c =>
          unfold output cOutput AllPadLikeC
          rw [List.cons_inj_right]
          exact ih args
      | directive flags width conv =>
          unfold output cOutput AllPadLikeC
          rw [← written_iff, ← ih args.advance]
          exact ⟨fun h => List.append_inj h written_length, fun h => by rw [h.1, h.2]⟩

/-- **A format string prints the text of C exactly when each of its directives is padded as in
    C** on the argument it takes. -/
theorem formatsLikeC_iff (ps : List Piece) (args : VaList) :
    FormatsLikeC ps args ↔ AllPadLikeC ps args := by
  obtain ⟨qs, hqs, hout⟩ := passes_pieces ps args _ (Nat.lt_succ_self _)
  unfold FormatsLikeC vfprintf
  rw [hqs, Option.map_some, Option.map_some, hout, Option.some_inj]
  exact output_iff ps args

/-- `%5d` of -3 prints the sign before the spaces. -/
theorem not_formatsLikeC_negative :
    ¬ FormatsLikeC [.directive [] (some ⟨5, by decide, by decide⟩) .d] ⟨fun _ => -3, 0⟩ := by
  intro h
  have e : (vfprintf (List.flatMap Piece.text
      [.directive [] (some ⟨5, by decide, by decide⟩) .d]) ⟨fun _ => -3, 0⟩).map Prod.fst =
      some ['-', ' ', ' ', ' ', '3'] := by decide
  rw [FormatsLikeC, e] at h
  revert h
  decide

end OsPlayground.Stdlib
