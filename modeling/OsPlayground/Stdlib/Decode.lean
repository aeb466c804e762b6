/-
  File:      OsPlayground/Stdlib/Decode.lean
  Subject:   READING PRINTED NUMBERS BACK.

  `readNat` reads a numeral of a base, `readInt` a decimal with a sign. Both refuse everything else.

  * `readNat_toDigits`, `readNat_zeros` -- the digits of a number read back to it, with any number
    of zeros before them;
  * `printed_directive` -- a format string of one directive prints that directive's text;
  * `unsigned_numeral`, `hex_numeral`, `paddedHex_reads`, `paddedInt_reads` -- what `%u`, `%x`,
    `%08x` and `%0Nd` print;
  * `printed_decode` -- so every number printed can be read back, the least one included.
-/
import OsPlayground.Stdlib.Numbers

namespace OsPlayground.Stdlib

/-! ## 1. Numerals -/

/-- The value of a digit, decimal or hexadecimal. -/
def digitVal (c : Char) : Option Nat :=
  if '0' ≤ c ∧ c ≤ '9' then some (c.toNat - 48)
  else if 'a' ≤ c ∧ c ≤ 'f' then some (c.toNat - 87)
  else none

/-- Digits read after a number. -/
def readDigits (base : Nat) : Nat → List Char → Option Nat
  | n, [] => some n
  | n, c :: cs =>
    match digitVal c with
    | some d => if d < base then readDigits base (base * n + d) cs else none
    | none => none

/-- **A numeral**: one digit at least, and nothing but digits of the base. -/
def readNat (base : Nat) (cs : List Char) : Option Nat :=
  if cs = [] then none else readDigits base 0 cs

/-- **A signed decimal.** -/
def readInt : List Char → Option Int
  | '-' :: cs => (readNat 10 cs).map fun n : Nat => -(n : Int)
  | cs => (readNat 10 cs).map fun n : Nat => (n : Int)

/-- **The canonical numeral** of a number, with no more digits than `max`. -/
structure Numeral (base max : Nat) (text : List Char) (n : Nat) : Prop where
  reads : readNat base text = some n
  leading : text.head? = some '0' → text = ['0']
  zero : n = 0 → text = ['0']
  short : text.length ≤ max

/-- What a format string prints for one argument. -/
def printed (fmt : List Char) (arg : BitVec 32) : Option (List Char) :=
  (vfprintf fmt ⟨fun _ => arg, 0⟩).map Prod.fst

/-! ## 2. Reading digits -/

theorem digitVal_digitChar : ∀ d < 16, digitVal (Nat.digitChar d) = some d := by decide

theorem readDigits_cons (base n : Nat) (c : Char) (cs : List Char) :
    readDigits base n (c :: cs) = match digitVal c with
      | some d => if d < base then readDigits base (base * n + d) cs else none
      | none => none := rfl

theorem readDigits_append (base n : Nat) (cs ds : List Char) :
    readDigits base n (cs ++ ds) = (readDigits base n cs).bind fun m => readDigits base m ds := by
  induction cs generalizing n with
  | nil => rfl
  | cons c cs ih =>
      rw [List.cons_append, readDigits_cons, readDigits_cons]
      cases digitVal c with
      | none => rfl
      | some d =>
          dsimp only
          by_cases hd : d < base
          · rw [if_pos hd, if_pos hd]
            exact ih _
          · rw [if_neg hd, if_neg hd]
            rfl

theorem readDigits_digit {base d : Nat} (hbase : base ≤ 16) (hd : d < base) (n : Nat) :
    readDigits base n [Nat.digitChar d] = some (base * n + d) := by
  unfold readDigits
  rw [digitVal_digitChar d (by omega)]
  dsimp only
  rw [if_pos hd]
  rfl

/-- The digits of a number read to it. -/
theorem readDigits_toDigits {base : Nat} (hb : 1 < base) (hbase : base ≤ 16) (n : Nat) :
    readDigits base 0 (Nat.toDigits base n) = some n := by
  induction n using Nat.strong_induction_on with
  | _ n ih =>
      by_cases hlt : n < base
      · rw [Nat.toDigits_of_lt_base hlt, readDigits_digit hbase hlt, Nat.mul_zero, Nat.zero_add]
      · have hdiv : n / base < n := Nat.div_lt_self (by omega) hb
        rw [Nat.toDigits_of_base_le hb (by omega), readDigits_append, ih _ hdiv]
        show readDigits base (n / base) _ = _
        rw [readDigits_digit hbase (Nat.mod_lt n (by omega)), Nat.div_add_mod]

theorem readDigits_zeros {base : Nat} (hb : 0 < base) (k : Nat) :
    readDigits base 0 (List.replicate k '0') = some 0 := by
  induction k with
  | zero => rfl
  | succ k ih =>
      have hzero : digitVal '0' = some 0 := by decide
      rw [List.replicate_succ]
      unfold readDigits
      rw [hzero]
      dsimp only
      rw [if_pos hb, Nat.mul_zero, Nat.zero_add]
      exact ih

theorem toDigits_ne_nil {base : Nat} (hb : 1 < base) (n : Nat) : Nat.toDigits base n ≠ [] := by
  by_cases hlt : n < base
  · rw [Nat.toDigits_of_lt_base hlt]
    exact List.cons_ne_nil _ _
  · rw [Nat.toDigits_of_base_le hb (by omega)]
    exact List.append_ne_nil_of_right_ne_nil _ (List.cons_ne_nil _ _)

/-- **The digits of a number read back, with zeros before them too.** -/
theorem readNat_zeros {base : Nat} (hb : 1 < base) (hbase : base ≤ 16) (k n : Nat) :
    readNat base (List.replicate k '0' ++ Nat.toDigits base n) = some n := by
  unfold readNat
  rw [if_neg (List.append_ne_nil_of_right_ne_nil _ (toDigits_ne_nil hb n)), readDigits_append,
    readDigits_zeros (by omega)]
  exact readDigits_toDigits hb hbase n

theorem readNat_toDigits {base : Nat} (hb : 1 < base) (hbase : base ≤ 16) (n : Nat) :
    readNat base (Nat.toDigits base n) = some n := readNat_zeros hb hbase 0 n

theorem readInt_minus (cs : List Char) :
    readInt ('-' :: cs) = (readNat 10 cs).map fun n : Nat => -(n : Int) := by
  unfold readInt
  rfl

/-- A numeral is read as a decimal without a sign. -/
theorem readInt_of_readNat {cs : List Char} {n : Nat} (h : readNat 10 cs = some n) :
    readInt cs = some (n : Int) := by
  unfold readInt
  split
  · cases h
  · rw [h]
    rfl

/-- The digits of a number are its canonical numeral. -/
theorem numeral_toDigits {base max n : Nat} (hb : 1 < base) (hbase : base ≤ 16) (hmax : 0 < max)
    (hn : n < base ^ max) : Numeral base max (Nat.toDigits base n) n := by
  have hzero : n = 0 → Nat.toDigits base n = ['0'] := by
    intro h0
    rw [h0, Nat.toDigits_of_lt_base (by omega)]
    rfl
  refine ⟨readNat_toDigits hb hbase n, fun hhead => hzero ?_, hzero, ?_⟩
  · -- a number above 0 does not begin with '0'
    by_contra hne
    obtain ⟨c, cs, he, hc⟩ := toDigits_head hb hbase n (Nat.pos_of_ne_zero hne)
    rw [he] at hhead
    exact hc (Option.some.inj hhead)
  · exact (Nat.length_toDigits_le_iff hb hmax).mpr hn

/-- What is read as a numeral consists of digits. -/
theorem digits_of_readDigits {base n m : Nat} {cs : List Char}
    (h : readDigits base n cs = some m) : ∀ c ∈ cs, (digitVal c).isSome := by
  induction cs generalizing n with
  | nil => exact fun c hc => absurd hc List.not_mem_nil
  | cons c cs ih =>
      rw [readDigits_cons] at h
      cases hd : digitVal c with
      | none =>
          rw [hd] at h
          cases h
      | some d =>
          rw [hd] at h
          dsimp only at h
          split_ifs at h
          intro c' hc'
          rcases List.mem_cons.mp hc' with rfl | hc'
          · rw [hd]
            rfl
          · exact ih h c' hc'

theorem digits_of_readNat {base m : Nat} {cs : List Char} (h : readNat base cs = some m) :
    ∀ c ∈ cs, (digitVal c).isSome := by
  unfold readNat at h
  split_ifs at h
  exact digits_of_readDigits h

/-! ## 3. Printing one number -/

/-- **A directive alone prints its text.** -/
theorem printed_directive (flags : List Flag) (width : Option Width) (conv : Conv)
    (arg : BitVec 32) : printed (Piece.directive flags width conv).text arg =
      some (written flags width conv arg) := by
  have hfmt : [Piece.directive flags width conv].flatMap Piece.text =
      (Piece.directive flags width conv).text := List.flatMap_singleton _ _
  obtain ⟨qs, hqs, hout⟩ := passes_pieces [.directive flags width conv] ⟨fun _ => arg, 0⟩ _
    (Nat.lt_succ_self _)
  rw [hfmt] at hqs
  unfold printed vfprintf
  rw [hqs, Option.map_some, Option.map_some, hout]
  exact congrArg some (List.append_nil _)

/-- Without flags and width a number is its sign and its digits. -/
theorem written_natural (conv : Conv) (arg : BitVec 32) :
    written [] none conv arg = sign conv arg ++ digits conv arg := by
  have h0 : widthVal none = 0 := rfl
  unfold written
  rw [h0, Nat.zero_sub, List.replicate_zero, List.append_nil, lead_body]

/-- With '0' the zeros stand between the sign and the digits. -/
theorem written_padded {flags : List Flag} (hz : Flag.zero ∈ flags) (hl : Flag.left ∉ flags)
    (width : Option Width) (conv : Conv) (arg : BitVec 32) :
    written flags width conv arg = sign conv arg ++
      (List.replicate (widthVal width - (sign conv arg ++ digits conv arg).length) '0' ++
        digits conv arg) := by
  rw [written_zero hl hz]
  unfold cText
  dsimp only
  rw [if_neg hl, if_pos hz, List.append_assoc]

theorem sign_unsigned {conv : Conv} (hc : conv = .u ∨ conv = .x) (arg : BitVec 32) :
    sign conv arg = [] := by
  refine if_neg fun h => ?_
  rcases hc with rfl | rfl <;> exact absurd h.1 (by decide)

/-- **`%u`** prints the canonical decimal. -/
theorem unsigned_numeral (arg : BitVec 32) :
    ∃ text, printed ['%', 'u'] arg = some text ∧ Numeral 10 10 text arg.toNat := by
  refine ⟨_, printed_directive [] none .u arg, ?_⟩
  rw [written_natural, sign_unsigned (Or.inl rfl), List.nil_append]
  exact numeral_toDigits (by decide) (by decide) (by decide) (lt_trans arg.isLt (by decide))

/-- **`%x`** prints the canonical hexadecimal. -/
theorem hex_numeral (arg : BitVec 32) :
    ∃ text, printed ['%', 'x'] arg = some text ∧ Numeral 16 8 text arg.toNat := by
  refine ⟨_, printed_directive [] none .x arg, ?_⟩
  rw [written_natural, sign_unsigned (Or.inr rfl), List.nil_append]
  exact numeral_toDigits (by decide) (by decide) (by decide) (lt_of_lt_of_le arg.isLt (by decide))

/-- **`%08x`** prints eight digits that read back. -/
theorem paddedHex_reads (arg : BitVec 32) :
    ∃ text, printed ['%', '0', '8', 'x'] arg = some text ∧ text.length = 8 ∧
      readNat 16 text = some arg.toNat := by
  have hprint := printed_directive [.zero] (some ⟨8, by decide, by decide⟩) .x arg
  have hfmt : (Piece.directive [.zero] (some ⟨8, by decide, by decide⟩) .x).text =
      ['%', '0', '8', 'x'] := by decide
  rw [hfmt] at hprint
  refine ⟨_, hprint, ?_, ?_⟩
  · have hlen : (digits .x arg).length ≤ 8 :=
      (Nat.length_toDigits_le_iff (by decide) (by decide)).mpr
        (lt_of_lt_of_le arg.isLt (by decide))
    have hwidth : widthVal (some ⟨8, by decide, by decide⟩) = 8 := rfl
    rw [written_padded (by decide) (by decide), sign_unsigned (Or.inr rfl), List.nil_append,
      List.nil_append, List.length_append, List.length_replicate, hwidth]
    omega
  · rw [written_padded (by decide) (by decide), sign_unsigned (Or.inr rfl), List.nil_append]
    exact readNat_zeros (by decide) (by decide) _ _

/-- A signed number with any number of zeros after its sign reads back: the least one too, whose
    negation is itself. -/
theorem readInt_signed (k : Nat) (arg : BitVec 32) :
    readInt (sign .d arg ++ (List.replicate k '0' ++ digits .d arg)) = some arg.toInt := by
  have hread : readNat 10 (List.replicate k '0' ++ digits .d arg) = some arg.toInt.natAbs :=
    readNat_zeros (by decide) (by decide) k _
  unfold sign
  by_cases hneg : Negative .d arg
  · have hlt : arg.toInt < 0 := hneg.2
    rw [if_pos hneg]
    rw [List.singleton_append, readInt_minus, hread, Option.map_some]
    exact congrArg some (by omega)
  · have hge : ¬ arg.toInt < 0 := fun h => hneg ⟨Or.inl rfl, h⟩
    rw [if_neg hneg, List.nil_append, readInt_of_readNat hread]
    exact congrArg some (by omega)

/-- **`%0Nd`** prints as many characters as the width asks for or the number has, and they read
    back. The width 0 is a second '0' flag. -/
theorem paddedInt_reads {N : Nat} (hN : N ≤ 1024) (arg : BitVec 32) :
    ∃ text natural, printed ['%', 'd'] arg = some natural ∧
      printed ('%' :: '0' :: (Nat.toDigits 10 N ++ ['d'])) arg = some text ∧
      text.length = max N natural.length ∧ readInt text = some arg.toInt := by
  obtain ⟨flags, width, hz, hl, hfmt, hwidth⟩ : ∃ flags width, Flag.zero ∈ flags ∧
      Flag.left ∉ flags ∧ (Piece.directive flags width .d).text =
        '%' :: '0' :: (Nat.toDigits 10 N ++ ['d']) ∧ widthVal width = N := by
    by_cases h0 : N = 0
    · subst h0
      exact ⟨[.zero, .zero], none, by decide, by decide, by decide, rfl⟩
    · exact ⟨[.zero], some ⟨N, Nat.pos_of_ne_zero h0, hN⟩, by decide, by decide, rfl, rfl⟩
  refine ⟨_, _, printed_directive [] none .d arg, hfmt ▸ printed_directive flags width .d arg,
    ?_, ?_⟩
  · rw [written_natural, written_padded hz hl, hwidth, List.length_append, List.length_append,
      List.length_append, List.length_replicate]
    omega
  · rw [written_padded hz hl]
    exact readInt_signed _ arg

/-- **Printed numbers decode to the argument**, in every format of a number. -/
theorem printed_decode (arg : BitVec 32) :
    (∃ text, printed ['%', 'u'] arg = some text ∧ Numeral 10 10 text arg.toNat) ∧
      (∃ text, printed ['%', 'x'] arg = some text ∧ Numeral 16 8 text arg.toNat) ∧
      (∃ text, printed ['%', '0', '8', 'x'] arg = some text ∧ text.length = 8 ∧
        (∀ c ∈ text, (digitVal c).isSome) ∧ readNat 16 text = some arg.toNat) ∧
      (∀ arg', printed ['%', '0', '8', 'x'] arg = printed ['%', '0', '8', 'x'] arg' →
        arg = arg') ∧
      ∀ N ≤ 1024, ∃ text natural, printed ['%', 'd'] arg = some natural ∧
        printed ('%' :: '0' :: (Nat.toDigits 10 N ++ ['d'])) arg = some text ∧
        text.length = max N natural.length ∧ readInt text = some arg.toInt := by
  obtain ⟨text, hprint, hlen, hread⟩ := paddedHex_reads arg
  refine ⟨unsigned_numeral arg, hex_numeral arg,
    ⟨text, hprint, hlen, digits_of_readNat hread, hread⟩, ?_, fun N hN => paddedInt_reads hN arg⟩
  intro arg' heq
  obtain ⟨text', hprint', _, hread'⟩ := paddedHex_reads arg'
  rw [hprint, hprint', Option.some_inj] at heq
  rw [heq, hread', Option.some_inj] at hread
  exact (BitVec.eq_of_toNat_eq hread).symm

/-- The theorem at the least number, in a field of 12. -/
theorem printed_decode_least : ∃ text natural,
    printed ['%', 'd'] 0x80000000#32 = some natural ∧
      printed ['%', '0', '1', '2', 'd'] 0x80000000#32 = some text ∧
      text.length = max 12 natural.length ∧ readInt text = some (-2147483648) :=
  (printed_decode 0x80000000#32).2.2.2.2 12 (by decide)

/-- It keeps its digits and its sign. -/
example : printed ['%', '0', '1', '2', 'd'] 0x80000000#32 =
    some ['-', '0', '2', '1', '4', '7', '4', '8', '3', '6', '4', '8'] := by decide

end OsPlayground.Stdlib
