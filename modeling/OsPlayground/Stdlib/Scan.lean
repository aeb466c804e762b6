/-
  File:      OsPlayground/Stdlib/Scan.lean
  Subject:   READING A PRINTED TEXT BACK. `scan` follows the format string the text was printed
             with: a literal must stand where it stands there, and a number takes all the digits
             there are.

  * `separated` -- format strings whose numbers are printed without fill or with zeros, and are
    followed by a character that is no digit of theirs;
  * `scanNumber_written` -- a number read back, with whatever follows it;
  * **`vfprintf_scan`** -- what `vfprintf` prints for a separated format string, in front of any
    other text, reads back to the arguments.
-/
import OsPlayground.Stdlib.Decode

namespace OsPlayground.Stdlib

/-! ## 1. The reader -/

def Conv.base : Conv → Nat
  | .x => 16
  | .d | .i | .u => 10

/-- The conversion prints a sign. -/
def Conv.signed : Conv → Bool
  | .d | .i => true
  | .u | .x => false

/-- A character that belongs to a number of the conversion. -/
def Conv.digit (conv : Conv) (c : Char) : Bool := (digitVal c).any (· < conv.base)

/-- A number without a sign: all the digits there are. -/
def scanNat (conv : Conv) (cs : List Char) : Option (Nat × List Char) :=
  (readNat conv.base (cs.takeWhile conv.digit)).map fun n => (n, cs.dropWhile conv.digit)

/-- A number. -/
def scanNumber (conv : Conv) : List Char → Option (Int × List Char)
  | '-' :: cs => if conv.signed then (scanNat conv cs).map fun r => (-(r.1 : Int), r.2) else none
  | cs => (scanNat conv cs).map fun r => ((r.1 : Int), r.2)

/-- The numbers of a text, and what follows it. -/
def scan : List Piece → List Char → Option (List Int × List Char)
  | [], cs => some ([], cs)
  | .literal _ :: _, [] => none
  | .literal c :: ps, c' :: cs => if c' = c.val then scan ps cs else none
  | .directive _ _ conv :: ps, cs =>
    (scanNumber conv cs).bind fun r => (scan ps r.2).map fun rs => (r.1 :: rs.1, rs.2)

/-- The number an argument is printed as. -/
def argValue (conv : Conv) (arg : BitVec 32) : Int := if conv.signed then arg.toInt else arg.toNat

/-- The numbers the arguments are printed as. -/
def argValues : List Piece → VaList → List Int
  | [], _ => []
  | .literal _ :: ps, args => argValues ps args
  | .directive _ _ conv :: ps, args => argValue conv args.arg :: argValues ps args.advance

/-- No fill, or zeros. -/
def readable (flags : List Flag) (width : Option Width) : Bool :=
  decide (Flag.left ∉ flags) && (decide (Flag.zero ∈ flags) || width.isNone)

/-- **Every number of the format string ends where its digits end.** -/
def separated : List Piece → Bool
  | [] => true
  | .literal _ :: ps => separated ps
  | .directive flags width conv :: .literal c :: ps =>
    readable flags width && !conv.digit c.val && separated ps
  | .directive _ _ _ :: _ => false

/-! ## 2. One number -/

/-- What is read as digits are digits of the base. -/
theorem all_of_readDigits {conv : Conv} {n m : Nat} {cs : List Char}
    (h : readDigits conv.base n cs = some m) : ∀ c ∈ cs, conv.digit c = true := by
  induction cs generalizing n with
  | nil => exact fun c hc => absurd hc List.not_mem_nil
  | cons c cs ih =>
      rw [readDigits_cons] at h
      cases hd : digitVal c with
      | none =>
          rw [hd] at h
          cases h
      | some d =>
          rw [hd] at h
          dsimp only at h
          split_ifs at h with hlt
          intro c' hc'
          rcases List.mem_cons.mp hc' with rfl | hc'
          · unfold Conv.digit
            rw [hd]
            exact decide_eq_true hlt
          · exact ih h c' hc'

/-- Digits in front of a character that is none. -/
theorem scanNat_append {conv : Conv} {cs rest : List Char} {n : Nat}
    (h : readNat conv.base cs = some n) (hrest : ∀ c ∈ rest.head?, conv.digit c = false) :
    scanNat conv (cs ++ rest) = some (n, rest) := by
  have hall : ∀ c ∈ cs, conv.digit c = true := by
    unfold readNat at h
    split_ifs at h
    exact all_of_readDigits h
  have hstop : rest.takeWhile conv.digit = [] ∧ rest.dropWhile conv.digit = rest := by
    cases rest with
    | nil => exact ⟨rfl, rfl⟩
    | cons c rest =>
        have hc := hrest c rfl
        exact ⟨List.takeWhile_cons_of_neg (by rw [hc]; decide),
          List.dropWhile_cons_of_neg (by rw [hc]; decide)⟩
  unfold scanNat
  rw [List.takeWhile_append_of_pos hall, List.dropWhile_append_of_pos hall, hstop.1, hstop.2,
    List.append_nil, h]
  rfl

/-- A readable number is its sign, zeros and its digits. -/
theorem written_readable {flags : List Flag} {width : Option Width}
    (h : readable flags width = true) (conv : Conv) (arg : BitVec 32) :
    ∃ k, written flags width conv arg =
      sign conv arg ++ (List.replicate k '0' ++ digits conv arg) := by
  unfold readable at h
  rw [Bool.and_eq_true, Bool.or_eq_true] at h
  obtain ⟨hleft, hfill⟩ := h
  by_cases hz : Flag.zero ∈ flags
  · exact ⟨_, written_padded hz (of_decide_eq_true hleft) width conv arg⟩
  · rcases hfill with hzero | hnone
    · exact absurd (of_decide_eq_true hzero) hz
    · obtain rfl := Option.isNone_iff_eq_none.mp hnone
      refine ⟨0, ?_⟩
      have h0 : widthVal none = 0 := rfl
      unfold written
      rw [h0, Nat.zero_sub, List.replicate_zero, List.append_nil, lead_body]
      rfl

/-- The digits with zeros before them, as a number. -/
theorem readNat_digits (k : Nat) (conv : Conv) (arg : BitVec 32) :
    readNat conv.base (List.replicate k '0' ++ digits conv arg) =
      some (if conv.signed then arg.toInt.natAbs else arg.toNat) := by
  cases conv with
  | d => exact readNat_zeros (by decide) (by decide) k _
  | i => exact readNat_zeros (by decide) (by decide) k _
  | u => exact readNat_zeros (by decide) (by decide) k _
  | x => exact readNat_zeros (by decide) (by decide) k _

/-- A numeral begins with a digit, so no sign is read there. -/
theorem scanNumber_plain {conv : Conv} {cs : List Char} {n : Nat}
    (h : readNat conv.base cs = some n) (rest : List Char) :
    scanNumber conv (cs ++ rest) = (scanNat conv (cs ++ rest)).map fun r => ((r.1 : Int), r.2) := by
  cases cs with
  | nil => cases h
  | cons c cs =>
      have hdigit := digits_of_readNat h c List.mem_cons_self
      have hne : c ≠ '-' := by
        rintro rfl
        cases hdigit
      rw [List.cons_append]
      unfold scanNumber
      split
      · rename_i heq
        exact absurd (List.cons.inj heq).1 hne
      · rfl

/-- **A number reads back**, whatever follows it. -/
theorem scanNumber_written {flags : List Flag} {width : Option Width}
    (h : readable flags width = true) {conv : Conv} (arg : BitVec 32) {rest : List Char}
    (hrest : ∀ c ∈ rest.head?, conv.digit c = false) :
    scanNumber conv (written flags width conv arg ++ rest) = some (argValue conv arg, rest) := by
  obtain ⟨k, hk⟩ := written_readable h conv arg
  have hread := readNat_digits k conv arg
  have hscan := scanNat_append hread hrest
  rw [hk]
  unfold sign argValue
  by_cases hneg : Negative conv arg
  · have hsigned : conv.signed = true := by
      rcases hneg.1 with rfl | rfl <;> rfl
    have habs : -((arg.toInt.natAbs : Nat) : Int) = arg.toInt := by
      have hlt := hneg.2
      omega
    rw [if_pos hneg, List.append_assoc, List.singleton_append, scanNumber, if_pos hsigned, hscan,
      Option.map_some, if_pos hsigned, if_pos hsigned, habs]
  · rw [if_neg hneg, List.nil_append, scanNumber_plain hread rest, hscan, Option.map_some]
    by_cases hsigned : conv.signed = true
    · have habs : ((arg.toInt.natAbs : Nat) : Int) = arg.toInt := by
        have hge : ¬ arg.toInt < 0 := by
          refine fun hlt => hneg ⟨?_, hlt⟩
          cases conv with
          | d => exact Or.inl rfl
          | i => exact Or.inr rfl
          | u => cases hsigned
          | x => cases hsigned
        omega
      rw [if_pos hsigned, if_pos hsigned, habs]
    · rw [if_neg hsigned, if_neg hsigned]

/-! ## 3. Format strings -/

theorem scan_literal (c : Literal) (ps : List Piece) (cs : List Char) :
    scan (.literal c :: ps) (c.val :: cs) = scan ps cs := if_pos rfl

/-- **The text of a separated format string reads back.** -/
theorem scan_output (ps : List Piece) (h : separated ps = true) (args : VaList)
    (rest : List Char) : scan ps (output ps args ++ rest) = some (argValues ps args, rest) := by
  induction ps using separated.induct generalizing args with
  | case1 => rfl
  | case2 c ps ih =>
      show scan (.literal c :: ps) (c.val :: (output ps args ++ rest)) = _
      rw [scan_literal]
      exact ih h args
  | case3 flags width conv c ps ih =>
      unfold separated at h
      rw [Bool.and_eq_true, Bool.and_eq_true, Bool.not_eq_true'] at h
      obtain ⟨⟨hread, hdigit⟩, hps⟩ := h
      have hnumber : scanNumber conv (written flags width conv args.arg ++
          (output (.literal c :: ps) args.advance ++ rest)) =
            some (argValue conv args.arg, output (.literal c :: ps) args.advance ++ rest) := by
        refine scanNumber_written hread args.arg fun c' hc' => ?_
        cases hc'
        exact hdigit
      have hrest : scan (.literal c :: ps) (output (.literal c :: ps) args.advance ++ rest) =
          some (argValues ps args.advance, rest) := by
        show scan (.literal c :: ps) (c.val :: (output ps args.advance ++ rest)) = _
        rw [scan_literal]
        exact ih hps args.advance
      show (scanNumber conv (written flags width conv args.arg ++
        output (.literal c :: ps) args.advance ++ rest)).bind _ = _
      rw [List.append_assoc, hnumber, Option.bind_some]
      dsimp only
      rw [hrest]
      rfl
  | case4 flags width conv ps hno =>
      cases ps with
      | nil => cases h
      | cons p ps =>
          cases p with
          | literal c => exact absurd rfl (hno c ps)
          | directive _ _ _ => cases h

/-- `vfprintf` prints the pieces of a format string. -/
theorem vfprintf_output (ps : List Piece) (args : VaList) :
    vfprintf (ps.flatMap Piece.text) args =
      some (output ps args, (output ps args).length % 2 ^ 32) := by
  obtain ⟨qs, hqs, hout⟩ := passes_pieces ps args _ (Nat.lt_succ_self _)
  unfold vfprintf
  rw [hqs, Option.map_some, hout]

/-- **Printing and reading back.** Whatever the arguments and whatever is printed next, the text
    of a separated format string reads back to the numbers printed. -/
theorem vfprintf_scan (ps : List Piece) (h : separated ps = true) (args : VaList)
    (rest : List Char) : ∃ text, (vfprintf (ps.flatMap Piece.text) args).map Prod.fst = some text ∧
      scan ps (text ++ rest) = some (argValues ps args, rest) := by
  refine ⟨output ps args, ?_, scan_output ps h args rest⟩
  rw [vfprintf_output]
  rfl

/-! ## 4. Texts -/

/-- A character that is printed as it stands. -/
def plain (c : Char) : Bool := c != '%' && c != '\x00'

theorem plain_iff (c : Char) : plain c = true ↔ c ≠ '%' ∧ c ≠ '\x00' := by
  unfold plain
  rw [Bool.and_eq_true, bne_iff_ne, bne_iff_ne]

/-- The pieces of a text that is printed as it stands. -/
def lits (cs : List Char) (h : cs.all plain = true) : List Piece :=
  cs.attach.map fun c =>
    .literal ⟨c.val, (plain_iff c.val).mp (List.all_eq_true.mp h c.val c.property)⟩

theorem lits_text (cs : List Char) (h : cs.all plain = true) :
    (lits cs h).flatMap Piece.text = cs := by
  unfold lits
  rw [List.flatMap_map]
  refine Eq.trans ?_ (List.attach_map_subtype_val cs)
  exact List.map_eq_flatMap.symm

/-- A text prints itself, whatever pieces follow it. -/
theorem output_lits (cs : List Char) (h : cs.all plain = true) (ps : List Piece)
    (args : VaList) : output (lits cs h ++ ps) args = cs ++ output ps args := by
  have hall : ∀ ls : List { c // c ∈ cs }, output ((ls.map fun c =>
      .literal ⟨c.val, (plain_iff c.val).mp (List.all_eq_true.mp h c.val c.property)⟩) ++ ps) args =
        ls.map Subtype.val ++ output ps args := by
    intro ls
    induction ls with
    | nil => rfl
    | cons c ls ih => exact congrArg (c.val :: ·) ih
  have hattach := hall cs.attach
  rw [List.attach_map_subtype_val] at hattach
  exact hattach

theorem exists_literals (cs : List Char) (h : cs.all plain = true) :
    ∃ ls : List Literal, lits cs h = ls.map Piece.literal := by
  refine ⟨cs.attach.map fun c =>
    ⟨c.val, (plain_iff c.val).mp (List.all_eq_true.mp h c.val c.property)⟩, ?_⟩
  rw [List.map_map]
  rfl

/-- A text in front leaves the numbers apart. -/
theorem separated_lits (cs : List Char) (h : cs.all plain = true) (ps : List Piece) :
    separated (lits cs h ++ ps) = separated ps := by
  obtain ⟨ls, hls⟩ := exists_literals cs h
  rw [hls]
  clear hls
  induction ls with
  | nil => rfl
  | cons c ls ih => exact ih

/-- A text has no numbers. -/
theorem argValues_lits (cs : List Char) (h : cs.all plain = true) (ps : List Piece)
    (args : VaList) : argValues (lits cs h ++ ps) args = argValues ps args := by
  obtain ⟨ls, hls⟩ := exists_literals cs h
  rw [hls]
  clear hls
  induction ls with
  | nil => rfl
  | cons c ls ih => exact ih

/-- The width of `%08x`. -/
def eightWide : Width := ⟨8, by decide, by decide⟩

/-- The format string `x=%d, %08x;`. -/
def pairFormat : List Piece :=
  lits "x=".toList rfl ++ [.directive [] none .d] ++ lits ", ".toList rfl ++
    [.directive [.zero] (some eightWide) .x] ++ lits ";".toList rfl

/-- The least number and an address, with a digit behind the text. -/
theorem vfprintf_scan_pair : ∃ text,
    (vfprintf (pairFormat.flatMap Piece.text)
      ⟨fun k => if k = 0 then 0x80000000#32 else 0xc0#32, 0⟩).map Prod.fst = some text ∧
    scan pairFormat (text ++ ['7']) =
      some (argValues pairFormat ⟨fun k => if k = 0 then 0x80000000#32 else 0xc0#32, 0⟩, ['7']) :=
  vfprintf_scan pairFormat rfl _ _

end OsPlayground.Stdlib
