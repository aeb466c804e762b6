/-
  File:      OsPlayground/Stdlib/Checked.lean
  Subject:   FORMATTED OUTPUT WITH ITS BOUNDS: the functions of stdlib.cpp on a string in memory, a
             digit buffer of 32 bytes and a finite list of arguments.

  `Printf.lean` says what the functions compute. Here a format string is a pointer into a string
  that ends with its one NUL, the digits go to a buffer with an end, and the arguments run out. A
  read past the NUL, a write past the buffer and a `va_arg` past the last argument are faults, and
  so is a loop that needs more passes than the fuel allows.

  * `parseFormatSpec_at`, `formatUnsigned_eq`, `formatHex_eq`, `formatInt_puts`, `formatArg_word` --
    every function does on the bounded memory what `Printf.lean` says, without a fault;
  * `loop_at` -- one pass of the loop, `loop_total` -- all of them;
  * `vfprintf_safe` -- so no string faults with an argument for each of its conversions, and the
    count returned is the number of characters printed as 32 bits hold it: 4194304 times `%1024u`
    prints 2^32 of them and returns 0.
-/
import OsPlayground.Stdlib.Directives
import OsPlayground.Stdlib.Numbers

namespace OsPlayground.Stdlib

/-! ## 1. Bounded memory -/

/-- **A string in memory**: its characters, none of them the NUL that follows the last. It fits
    into the address space. -/
structure CString where
  chars : List Char
  noNul : ∀ c ∈ chars, c ≠ '\x00'
  fits : chars.length < 0x100000000

namespace Checked

/-- What can go wrong: a read past the NUL, a write past the buffer, an argument too many, a loop
    that does not end. -/
inductive Fault where
  | read | write | arg | fuel
  deriving DecidableEq, Repr

/-- The character a pointer into the string points to. -/
def load (str : CString) (p : Nat) : Except Fault Char :=
  match (str.chars ++ ['\x00'])[p]? with
  | some c => .ok c
  | none => .error .read

/-- `char buf[32]`. -/
abbrev Buf := Nat → Char

def store (buf : Buf) (i : Nat) (c : Char) : Except Fault Buf :=
  if i < 32 then .ok (Function.update buf i c) else .error .write

/-- `va_arg`: the next argument and those after it. -/
def vaArg : List (BitVec 32) → Except Fault (BitVec 32 × List (BitVec 32))
  | [] => .error .arg
  | arg :: args => .ok (arg, args)

/-- What `counting_putc` keeps: the characters printed and `tot`. -/
structure Sink where
  text : List Char
  tot : BitVec 32

/-- `counting_putc`. -/
def Sink.putc (o : Sink) (c : Char) : Sink := ⟨o.text ++ [c], o.tot + 1⟩

/-! ## 2. The functions -/

/-- The first loop of `parse_format_spec`. -/
def parseFlags (str : CString) : Nat → BitVec 8 → Nat → Except Fault (BitVec 8 × Nat)
  | 0, _, _ => .error .fuel
  | n + 1, flags, fmt => do
    let next ← load str fmt
    if next = '\x00' then pure (flags, fmt)
    else
      match flagOf next with
      | some flag => parseFlags str n (flags ||| flag) (fmt + 1)
      | none => pure (flags, fmt)

/-- The loops for the width and the precision. -/
def parseNumber (str : CString) : Nat → Int → Nat → Except Fault (Int × Nat)
  | 0, _, _ => .error .fuel
  | n + 1, num, fmt => do
    let next ← load str fmt
    if next = '\x00' then pure (num, fmt)
    else if next = '*' then pure (num, fmt + 1)
    else if '0' ≤ next ∧ next ≤ '9' then
      parseNumber str n
        (int16 (if num < 0 then (next.toNat : Int) - 48 else num * 10 + next.toNat - 48)) (fmt + 1)
    else pure (num, fmt)

def parsePrecision (str : CString) (n fmt : Nat) : Except Fault (Int × Nat) := do
  let c ← load str fmt
  if c = '.' then parseNumber str n (-1) (fmt + 1) else pure (-1, fmt)

def parseSpecifier (str : CString) (fmt : Nat) : Except Fault (Char × Nat) := do
  let c ← load str fmt
  if c ∈ specifiers then pure (c, fmt + 1) else pure ('\x00', fmt)

/-- `parse_format_spec`. -/
def parseFormatSpec (str : CString) (n fmt : Nat) : Except Fault (FormatSpec × Nat) := do
  let flags ← parseFlags str n 0 fmt
  let width ← parseNumber str n (-1) flags.2
  let precision ← parsePrecision str n width.2
  let specifier ← parseSpecifier str precision.2
  pure (⟨flags.1, if width.1 > 1024 then 1024 else width.1, precision.1, specifier.1⟩, specifier.2)

/-- The loop of `unsigned_to_buf` and `hex_to_buf`. -/
def toBuf (base : Nat) (digit : Nat → Char) : Nat → Nat → Nat → Buf → Except Fault (Nat × Buf)
  | 0, _, _, _ => .error .fuel
  | n + 1, arg, len, buf =>
    if arg > 0 then do
      let buf' ← store buf len (digit (arg % base))
      toBuf base digit n (arg / base) (len + 1) buf'
    else pure (len, buf)

/-- The loop of `write_fill`. -/
def fillLoop (fill : Char) : Nat → Sink → Sink
  | 0, o => o
  | i + 1, o => fillLoop fill i (o.putc fill)

/-- `write_fill`. -/
def writeFill (spec : FormatSpec) (printLen : Nat) (o : Sink) : Sink :=
  fillLoop (if spec.flags &&& zeroPad ≠ 0 then '0' else ' ')
    (spec.minWidth - (printLen % 2 ^ 16 : Nat)).toNat o

/-- The last loop of the three formats: the buffer backwards. -/
def putBack (buf : Buf) : Nat → Sink → Sink
  | 0, o => o
  | i + 1, o => putBack buf i (o.putc (buf i))

/-- The end of the three formats. -/
def writeNumber (spec : FormatSpec) (extra : Option Char) (len : Nat) (buf : Buf) (o : Sink) :
    Sink :=
  putBack buf len
    (writeFill spec (if extra.isSome then len + 1 else len) (extra.elim o o.putc))

/-- `format_unsigned`. -/
def formatUnsigned (n : Nat) (spec : FormatSpec) (arg : BitVec 32) (o : Sink) :
    Except Fault Sink := do
  let r ← toBuf 10 (fun d => Char.ofNat (48 + d)) n arg.toNat 0 fun _ => '\x00'
  pure (writeNumber spec (if arg = 0 then some '0' else none) r.1 r.2 o)

/-- `format_int`. -/
def formatInt (n : Nat) (spec : FormatSpec) (arg : BitVec 32) (o : Sink) : Except Fault Sink := do
  let extra := if arg = 0 then some '0' else if arg.toInt < 0 then some '-' else none
  let uarg := if arg.toInt < 0 then -arg else arg
  let r ← toBuf 10 (fun d => Char.ofNat (48 + d)) n uarg.toNat 0 fun _ => '\x00'
  pure (writeNumber spec extra r.1 r.2 o)

/-- `format_hex`. -/
def formatHex (n : Nat) (spec : FormatSpec) (arg : BitVec 32) (o : Sink) : Except Fault Sink := do
  let r ← toBuf 16 (fun d => if d < 10 then Char.ofNat (48 + d) else Char.ofNat (97 + d - 10)) n
    arg.toNat 0 fun _ => '\x00'
  pure (writeNumber spec (if arg = 0 then some '0' else none) r.1 r.2 o)

/-- `format_arg` on the '%' at `fmt`. -/
def formatArg (str : CString) (n fmt : Nat) (args : List (BitVec 32)) (o : Sink) :
    Except Fault (Nat × List (BitVec 32) × Sink) := do
  let r ← parseFormatSpec str n (fmt + 1)
  if r.1.specifier = 'd' ∨ r.1.specifier = 'i' then
    let a ← vaArg args
    let o' ← formatInt n r.1 a.1 o
    pure (r.2, a.2, o')
  else if r.1.specifier = 'u' then
    let a ← vaArg args
    let o' ← formatUnsigned n r.1 a.1 o
    pure (r.2, a.2, o')
  else if r.1.specifier = 'x' then
    let a ← vaArg args
    let o' ← formatHex n r.1 a.1 o
    pure (r.2, a.2, o')
  else
    let c ← load str fmt
    pure (fmt + 1, args, o.putc c)

/-- The loop of `vfprintf`; `m` is the fuel of the loops inside. -/
def loop (str : CString) (m : Nat) :
    Nat → Nat → List (BitVec 32) → Sink → Except Fault (List (BitVec 32) × Sink)
  | 0, _, _, _ => .error .fuel
  | n + 1, s, args, o => do
    let next ← load str s
    if next = '\x00' then pure (args, o)
    else if next ≠ '%' then loop str m n (s + 1) args (o.putc next)
    else
      let r ← formatArg str m s args o
      loop str m n r.1 r.2.1 r.2.2

/-- `vfprintf`: the arguments left, the characters printed and the count returned. -/
def vfprintf (str : CString) (args : List (BitVec 32)) :
    Except Fault (List (BitVec 32) × Sink) :=
  loop str (str.chars.length + 33) (str.chars.length + 1) 0 args ⟨[], 0⟩

/-! ## 3. Reading the string -/

/-- A pointer that stands before `rest`. -/
structure At (str : CString) (p : Nat) (rest : List Char) : Prop where
  le : p ≤ str.chars.length
  drop : str.chars.drop p = rest

variable {str : CString}

theorem At.start (str : CString) : At str 0 str.chars := ⟨Nat.zero_le _, rfl⟩

/-- Before a character the pointer reads it, and it is not NUL. -/
theorem At.load_cons {p : Nat} {c : Char} {rest : List Char} (h : At str p (c :: rest)) :
    load str p = .ok c ∧ c ≠ '\x00' ∧ At str (p + 1) rest := by
  have hlt : p < str.chars.length := by
    by_contra hge
    have hnil := h.drop
    rw [List.drop_eq_nil_of_le (Nat.le_of_not_lt hge)] at hnil
    cases hnil
  have hcons := h.drop
  rw [List.drop_eq_getElem_cons hlt] at hcons
  obtain ⟨hc, hrest⟩ := List.cons.inj hcons
  refine ⟨?_, hc ▸ str.noNul _ (List.getElem_mem hlt), hlt, hrest⟩
  unfold load
  rw [List.getElem?_append_left hlt, List.getElem?_eq_getElem hlt, hc]

/-- At the end it reads the NUL. -/
theorem At.load_nil {p : Nat} (h : At str p []) : load str p = .ok '\x00' := by
  have hp : p = str.chars.length :=
    le_antisymm h.le (List.drop_eq_nil_iff.mp h.drop)
  unfold load
  rw [hp, List.getElem?_concat_length]

/-- What a pointer reads: the first character, or the NUL. -/
theorem At.load {p : Nat} {rest : List Char} (h : At str p rest) :
    Checked.load str p = .ok (rest.headD '\x00') := by
  cases rest with
  | nil => exact h.load_nil
  | cons c rest => exact h.load_cons.1

theorem At.length {p : Nat} {rest : List Char} (h : At str p rest) :
    rest.length ≤ str.chars.length := by
  rw [← h.drop, List.length_drop]
  exact Nat.sub_le _ _

/-- **Flags** are read within the string. -/
theorem parseFlags_at (n : Nat) (flags : BitVec 8) (p : Nat) (rest : List Char)
    (h : At str p rest) (hn : rest.length < n) :
    ∃ p', parseFlags str n flags p = .ok ((Stdlib.parseFlags flags rest).1, p') ∧
      At str p' (Stdlib.parseFlags flags rest).2 := by
  induction rest generalizing n flags p with
  | nil =>
      obtain ⟨n, rfl⟩ := Nat.exists_eq_succ_of_ne_zero (by omega : n ≠ 0)
      refine ⟨p, ?_, h⟩
      unfold parseFlags
      rw [h.load_nil]
      rfl
  | cons c rest ih =>
      obtain ⟨n, rfl⟩ := Nat.exists_eq_succ_of_ne_zero (by omega : n ≠ 0)
      obtain ⟨hload, hc, hnext⟩ := h.load_cons
      rw [List.length_cons] at hn
      unfold parseFlags Stdlib.parseFlags
      rw [hload]
      show ∃ p', (if c = '\x00' then _ else _) = _ ∧ _
      rw [if_neg hc]
      cases flagOf c with
      | some flag => exact ih n _ _ hnext (by omega)
      | none => exact ⟨p, rfl, h⟩

/-- **Numbers** are read within the string. -/
theorem parseNumber_at (n : Nat) (num : Int) (p : Nat) (rest : List Char)
    (h : At str p rest) (hn : rest.length < n) :
    ∃ p', parseNumber str n num p = .ok ((Stdlib.parseNumber num rest).1, p') ∧
      At str p' (Stdlib.parseNumber num rest).2 := by
  induction rest generalizing n num p with
  | nil =>
      obtain ⟨n, rfl⟩ := Nat.exists_eq_succ_of_ne_zero (by omega : n ≠ 0)
      refine ⟨p, ?_, h⟩
      unfold parseNumber
      rw [h.load_nil]
      rfl
  | cons c rest ih =>
      obtain ⟨n, rfl⟩ := Nat.exists_eq_succ_of_ne_zero (by omega : n ≠ 0)
      obtain ⟨hload, hc, hnext⟩ := h.load_cons
      rw [List.length_cons] at hn
      unfold parseNumber Stdlib.parseNumber
      rw [hload]
      show ∃ p', (if c = '\x00' then _ else _) = _ ∧ _
      rw [if_neg hc]
      by_cases hstar : c = '*'
      · rw [if_pos hstar, if_pos hstar]
        exact ⟨p + 1, rfl, hnext⟩
      rw [if_neg hstar, if_neg hstar]
      by_cases hd : '0' ≤ c ∧ c ≤ '9'
      · rw [if_pos hd, if_pos hd]
        exact ih n _ _ hnext (by omega)
      · rw [if_neg hd, if_neg hd]
        exact ⟨p, rfl, h⟩

/-- **The precision** is read within the string. -/
theorem parsePrecision_at (n p : Nat) (rest : List Char) (h : At str p rest)
    (hn : rest.length < n) :
    ∃ p', parsePrecision str n p = .ok ((Stdlib.parsePrecision rest).1, p') ∧
      At str p' (Stdlib.parsePrecision rest).2 := by
  unfold parsePrecision
  cases rest with
  | nil =>
      rw [h.load_nil]
      exact ⟨p, rfl, h⟩
  | cons c rest =>
      obtain ⟨hload, _, hnext⟩ := h.load_cons
      rw [List.length_cons] at hn
      rw [hload]
      show ∃ p', (if c = '.' then _ else _) = _ ∧ _
      by_cases hc : c = '.'
      · rw [if_pos hc, hc]
        exact parseNumber_at n (-1) (p + 1) rest hnext (by omega)
      · have hnone : Stdlib.parsePrecision (c :: rest) = (-1, c :: rest) := by
          unfold Stdlib.parsePrecision
          split
          · rename_i heq
            exact absurd (List.cons.inj heq).1 hc
          · rfl
        rw [if_neg hc, hnone]
        exact ⟨p, rfl, h⟩

/-- **The conversion** is read within the string. -/
theorem parseSpecifier_at (p : Nat) (rest : List Char) (h : At str p rest) :
    ∃ p', parseSpecifier str p = .ok ((Stdlib.parseSpecifier rest).1, p') ∧
      At str p' (Stdlib.parseSpecifier rest).2 := by
  unfold parseSpecifier
  cases rest with
  | nil =>
      rw [h.load_nil]
      exact ⟨p, rfl, h⟩
  | cons c rest =>
      obtain ⟨hload, _, hnext⟩ := h.load_cons
      rw [hload]
      show ∃ p', (if c ∈ specifiers then _ else _) = _ ∧ _
      by_cases hc : c ∈ specifiers
      · have hspec : Stdlib.parseSpecifier (c :: rest) = (c, rest) := if_pos hc
        rw [if_pos hc, hspec]
        exact ⟨p + 1, rfl, hnext⟩
      · have hspec : Stdlib.parseSpecifier (c :: rest) = ('\x00', c :: rest) := if_neg hc
        rw [if_neg hc, hspec]
        exact ⟨p, rfl, h⟩

/-- **`parse_format_spec` stays within the string** and leaves the pointer where it should. -/
theorem parseFormatSpec_at (n p : Nat) (rest : List Char) (h : At str p rest)
    (hn : rest.length < n) :
    ∃ p', parseFormatSpec str n p = .ok ((Stdlib.parseFormatSpec rest).1, p') ∧
      At str p' (Stdlib.parseFormatSpec rest).2 := by
  obtain ⟨p1, e1, h1⟩ := parseFlags_at n 0 p rest h hn
  have l1 := parseFlags_length 0 rest
  obtain ⟨p2, e2, h2⟩ := parseNumber_at n (-1) p1 _ h1 (by omega)
  have l2 := parseNumber_length (-1) (Stdlib.parseFlags 0 rest).2
  obtain ⟨p3, e3, h3⟩ := parsePrecision_at n p2 _ h2 (by omega)
  obtain ⟨p4, e4, h4⟩ := parseSpecifier_at p3 _ h3
  refine ⟨p4, ?_, h4⟩
  unfold parseFormatSpec
  rw [e1]
  dsimp only [bind, Except.bind]
  rw [e2]
  dsimp only
  rw [e3]
  dsimp only
  rw [e4]
  rfl

/-! ## 4. Writing digits -/

/-- What a sink holds after a list of characters. -/
def Sink.puts (o : Sink) (l : List Char) : Sink := ⟨o.text ++ l, o.tot + BitVec.ofNat 32 l.length⟩

theorem Sink.puts_nil (o : Sink) : o.puts [] = o := by
  unfold Sink.puts
  rw [List.append_nil, List.length_nil]
  exact congrArg (Sink.mk o.text) (BitVec.add_zero o.tot)

theorem Sink.putc_eq (o : Sink) (c : Char) : o.putc c = o.puts [c] := rfl

theorem Sink.puts_puts (o : Sink) (l l' : List Char) : (o.puts l).puts l' = o.puts (l ++ l') := by
  unfold Sink.puts
  dsimp only
  rw [List.append_assoc, List.length_append, BitVec.ofNat_add, BitVec.add_assoc]

theorem fillLoop_eq (fill : Char) (k : Nat) (o : Sink) :
    fillLoop fill k o = o.puts (List.replicate k fill) := by
  induction k generalizing o with
  | zero => exact (Sink.puts_nil o).symm
  | succ k ih =>
      unfold fillLoop
      rw [ih, Sink.putc_eq, Sink.puts_puts]
      rfl

/-- The bytes of the buffer below `len`, in order. -/
def stored (buf : Buf) (len : Nat) : List Char := (List.range len).map buf

theorem stored_succ (buf : Buf) (len : Nat) :
    stored buf (len + 1) = stored buf len ++ [buf len] := by
  unfold stored
  rw [List.range_succ, List.map_append, List.map_singleton]

theorem putBack_eq (buf : Buf) (len : Nat) (o : Sink) :
    putBack buf len o = o.puts (stored buf len).reverse := by
  induction len generalizing o with
  | zero => exact (Sink.puts_nil o).symm
  | succ len ih =>
      unfold putBack
      rw [ih, Sink.putc_eq, Sink.puts_puts, stored_succ, List.reverse_concat]
      rfl

/-- The end of a format prints what `Printf.lean` says of the bytes in the buffer. -/
theorem writeNumber_puts (spec : FormatSpec) (extra : Option Char) (len : Nat) (buf : Buf)
    (o : Sink) : writeNumber spec extra len buf o =
      o.puts (Stdlib.writeNumber spec extra (stored buf len)) := by
  have hlen : (stored buf len).length = len := by
    unfold stored
    rw [List.length_map, List.length_range]
  have hextra : extra.elim o o.putc = o.puts extra.toList := by
    cases extra with
    | none => exact (Sink.puts_nil o).symm
    | some c => rfl
  unfold writeNumber Stdlib.writeNumber writeFill Stdlib.writeFill
  dsimp only
  rw [putBack_eq, fillLoop_eq, hextra, Sink.puts_puts, Sink.puts_puts, hlen,
    List.append_assoc]

theorem stored_update (buf : Buf) (len : Nat) (c : Char) :
    stored (Function.update buf len c) (len + 1) = stored buf len ++ [c] := by
  rw [stored_succ, Function.update_self]
  unfold stored
  congr 1
  refine List.map_congr_left fun i hi => Function.update_of_ne ?_ _ _
  exact Nat.ne_of_lt (List.mem_range.mp hi)

/-- **Digits stay within the buffer**: a number below `base ^ k` writes at most `k` of them, and
    the loop ends. -/
theorem toBuf_eq {base : Nat} (hb : 1 < base) (digit : Nat → Char) (k n m arg len : Nat)
    (harg : arg < base ^ k) (hn : k < n) (hm : k ≤ m) (hlen : len + k ≤ 32) (buf : Buf) :
    ∃ len' buf', toBuf base digit n arg len buf = .ok (len', buf') ∧
      stored buf' len' = stored buf len ++ Stdlib.toBuf base digit m arg ∧ len' ≤ len + k := by
  induction k generalizing n m arg len buf with
  | zero =>
      obtain ⟨n, rfl⟩ := Nat.exists_eq_succ_of_ne_zero (by omega : n ≠ 0)
      have h0 : ¬ arg > 0 := by
        rw [Nat.pow_zero] at harg
        omega
      have hnil : Stdlib.toBuf base digit m arg = [] := by
        cases m with
        | zero => rfl
        | succ m => exact if_neg h0
      refine ⟨len, buf, ?_, ?_, Nat.le_refl _⟩
      · unfold toBuf
        rw [if_neg h0]
        rfl
      · rw [hnil, List.append_nil]
  | succ k ih =>
      obtain ⟨n, rfl⟩ := Nat.exists_eq_succ_of_ne_zero (by omega : n ≠ 0)
      obtain ⟨m, rfl⟩ := Nat.exists_eq_succ_of_ne_zero (by omega : m ≠ 0)
      unfold toBuf Stdlib.toBuf
      by_cases h0 : arg > 0
      · have hdiv : arg / base < base ^ k := by
          rw [Nat.div_lt_iff_lt_mul (by omega), ← Nat.pow_succ]
          exact harg
        obtain ⟨len', buf', hrun, hstored, hle⟩ := ih n m _ (len + 1) hdiv (by omega) (by omega)
          (by omega) (Function.update buf len (digit (arg % base)))
        rw [if_pos h0, if_pos h0]
        refine ⟨len', buf', ?_, ?_, by omega⟩
        · unfold store
          rw [if_pos (by omega : len < 32)]
          exact hrun
        · rw [hstored, stored_update, List.append_assoc]
          rfl
      · rw [if_neg h0, if_neg h0]
        exact ⟨len, buf, rfl, (List.append_nil _).symm, by omega⟩

/-- `unsigned_to_buf` writes at most ten bytes. -/
theorem unsigned_toBuf {n : Nat} (hn : 32 < n) (arg : BitVec 32) (buf : Buf) :
    ∃ len buf', toBuf 10 (fun d => Char.ofNat (48 + d)) n arg.toNat 0 buf = .ok (len, buf') ∧
      stored buf' len = unsignedToBuf arg ∧ len ≤ 10 := by
  have harg : arg.toNat < 10 ^ 10 := lt_trans arg.isLt (by decide)
  obtain ⟨len, buf', hrun, hw, hle⟩ := toBuf_eq (by decide) (fun d => Char.ofNat (48 + d)) 10
    n 32 _ 0 harg (by omega) (by omega) (by omega) buf
  exact ⟨len, buf', hrun, hw, by omega⟩

/-- `hex_to_buf` writes at most eight bytes. -/
theorem hex_toBuf {n : Nat} (hn : 32 < n) (arg : BitVec 32) (buf : Buf) :
    ∃ len buf', toBuf 16 (fun d => if d < 10 then Char.ofNat (48 + d) else Char.ofNat (97 + d - 10))
        n arg.toNat 0 buf = .ok (len, buf') ∧
      stored buf' len = hexToBuf arg ∧ len ≤ 8 := by
  have harg : arg.toNat < 16 ^ 8 := lt_of_lt_of_le arg.isLt (by decide)
  obtain ⟨len, buf', hrun, hw, hle⟩ := toBuf_eq (by decide)
    (fun d => if d < 10 then Char.ofNat (48 + d) else Char.ofNat (97 + d - 10)) 8
    n 32 _ 0 harg (by omega) (by omega) (by omega) buf
  exact ⟨len, buf', hrun, hw, by omega⟩

theorem formatUnsigned_eq {n : Nat} (hn : 32 < n) (spec : FormatSpec) (arg : BitVec 32)
    (o : Sink) :
    formatUnsigned n spec arg o = .ok (o.puts (Stdlib.formatUnsigned spec arg)) := by
  obtain ⟨len, buf, hrun, hstored, _⟩ := unsigned_toBuf hn arg fun _ => '\x00'
  unfold formatUnsigned Stdlib.formatUnsigned
  rw [hrun]
  show Except.ok (writeNumber spec _ len buf o) = _
  rw [writeNumber_puts, hstored]

theorem formatHex_eq {n : Nat} (hn : 32 < n) (spec : FormatSpec) (arg : BitVec 32)
    (o : Sink) : formatHex n spec arg o = .ok (o.puts (Stdlib.formatHex spec arg)) := by
  obtain ⟨len, buf, hrun, hstored, _⟩ := hex_toBuf hn arg fun _ => '\x00'
  unfold formatHex Stdlib.formatHex
  rw [hrun]
  show Except.ok (writeNumber spec _ len buf o) = _
  rw [writeNumber_puts, hstored]

theorem formatInt_puts {n : Nat} (hn : 32 < n) (spec : FormatSpec) (arg : BitVec 32)
    (o : Sink) : formatInt n spec arg o = .ok (o.puts (Stdlib.formatInt spec arg)) := by
  obtain ⟨len, buf, hrun, hstored, _⟩ :=
    unsigned_toBuf hn (if arg.toInt < 0 then -arg else arg) fun _ => '\x00'
  unfold formatInt Stdlib.formatInt
  dsimp only
  rw [hrun]
  show Except.ok (writeNumber spec _ len buf o) = _
  rw [writeNumber_puts, hstored]
  by_cases h0 : arg = 0
  · rw [if_pos h0, if_pos h0, h0]
    rfl
  by_cases hneg : arg.toInt < 0
  · rw [if_neg h0, if_neg h0, if_pos hneg, if_pos hneg, if_pos hneg]
  · rw [if_neg h0, if_neg h0, if_neg hneg, if_neg hneg, if_neg hneg]

/-! ## 5. One pass of the loop -/

/-- The directive after a '%' takes an argument. -/
def TakesArg (s : List Char) : Prop :=
  (Stdlib.parseFormatSpec s).1.specifier ∈ ['d', 'i', 'u', 'x']

instance (s : List Char) : Decidable (TakesArg s) := inferInstanceAs (Decidable (_ ∈ _))

/-- The arguments a string takes in `n` passes of the loop. -/
def taken : Nat → List Char → Nat
  | 0, _ => 0
  | _ + 1, [] => 0
  | n + 1, next :: s =>
    if next ≠ '%' then taken n s
    else if TakesArg s then taken n (Stdlib.parseFormatSpec s).2 + 1
    else taken n s

/-- The list of arguments left is what `va_list` points to. -/
def Agrees (args : List (BitVec 32)) (va : VaList) : Prop :=
  ∀ k arg, args[k]? = some arg → va.word (va.next + k) = arg

theorem Agrees.arg {arg : BitVec 32} {args : List (BitVec 32)} {va : VaList}
    (h : Agrees (arg :: args) va) : va.arg = arg ∧ Agrees args va.advance := by
  refine ⟨h 0 arg rfl, fun k a hk => ?_⟩
  show va.word (va.next + 1 + k) = a
  rw [Nat.add_assoc, Nat.add_comm 1 k]
  exact h (k + 1) a hk

/-- Of two pointers the one with less before it stands further on. -/
theorem At.suffix {p p' : Nat} {rest rest' : List Char} (h : At str p rest)
    (h' : At str p' rest') (hlen : rest'.length ≤ rest.length) : rest' <:+ rest := by
  have e := h.drop
  have e' := h'.drop
  have hle : p ≤ p' := by
    have l := congrArg List.length e
    have l' := congrArg List.length e'
    have := h.le
    have := h'.le
    rw [List.length_drop] at l l'
    omega
  obtain ⟨k, rfl⟩ := Nat.exists_eq_add_of_le hle
  rw [← e', ← e, ← List.drop_drop]
  exact List.drop_suffix k _

/-- **An unknown directive** costs a '%' and no argument. -/
theorem formatArg_text {n p : Nat} {s : List Char} (h : At str p ('%' :: s)) (hn : s.length < n)
    (hspec : ¬ TakesArg s) (args : List (BitVec 32)) (o : Sink) :
    formatArg str n p args o = .ok (p + 1, args, o.puts ['%']) := by
  obtain ⟨hload, _, hnext⟩ := h.load_cons
  obtain ⟨p', hparse, _⟩ := parseFormatSpec_at n (p + 1) s hnext hn
  unfold TakesArg at hspec
  simp only [List.mem_cons, List.not_mem_nil, or_false, not_or] at hspec
  obtain ⟨hd, hi, hu, hx⟩ := hspec
  unfold formatArg
  rw [hparse]
  dsimp only [bind, Except.bind]
  rw [if_neg (not_or.mpr ⟨hd, hi⟩), if_neg hu, if_neg hx, hload]
  rfl

/-- **A conversion** of the loop: the bounded memory gives what `Printf.lean` says, for one
    argument. -/
theorem formatArg_word {n p : Nat} {s : List Char} (h : At str p ('%' :: s)) (hn : s.length < n)
    (hn' : 32 < n) (hspec : TakesArg s) {arg : BitVec 32} {args : List (BitVec 32)} {va : VaList}
    (hargs : Agrees (arg :: args) va) (o : Sink) :
    ∃ p' text, formatArg str n p (arg :: args) o = .ok (p', args, o.puts text) ∧
      Stdlib.formatArg s va = (text, (Stdlib.parseFormatSpec s).2, va.advance) ∧
      At str p' (Stdlib.parseFormatSpec s).2 ∧ Agrees args va.advance := by
  obtain ⟨_, _, hnext⟩ := h.load_cons
  obtain ⟨p', hparse, hp'⟩ := parseFormatSpec_at n (p + 1) s hnext hn
  obtain ⟨harg, hleft⟩ := hargs.arg
  have hword : ∃ text, formatArg str n p (arg :: args) o = .ok (p', args, o.puts text) ∧
      Stdlib.formatArg s va = (text, (Stdlib.parseFormatSpec s).2, va.advance) := by
    unfold formatArg Stdlib.formatArg
    dsimp only
    rw [hparse, harg]
    dsimp only [bind, Except.bind]
    by_cases hd : (Stdlib.parseFormatSpec s).1.specifier = 'd' ∨
        (Stdlib.parseFormatSpec s).1.specifier = 'i'
    · rw [if_pos hd, if_pos hd]
      refine ⟨_, ?_, rfl⟩
      show (formatInt n _ arg o).bind _ = _
      rw [formatInt_puts hn']
      rfl
    rw [if_neg hd, if_neg hd]
    by_cases hu : (Stdlib.parseFormatSpec s).1.specifier = 'u'
    · rw [if_pos hu, if_pos hu]
      refine ⟨_, ?_, rfl⟩
      show (formatUnsigned n _ arg o).bind _ = _
      rw [formatUnsigned_eq hn']
      rfl
    rw [if_neg hu, if_neg hu]
    by_cases hx : (Stdlib.parseFormatSpec s).1.specifier = 'x'
    · rw [if_pos hx, if_pos hx]
      refine ⟨_, ?_, rfl⟩
      show (formatHex n _ arg o).bind _ = _
      rw [formatHex_eq hn']
      rfl
    · unfold TakesArg at hspec
      simp only [List.mem_cons, List.not_mem_nil, or_false] at hspec
      tauto
  obtain ⟨text, hrun, hlist⟩ := hword
  exact ⟨p', text, hrun, hlist, hp', hleft⟩

/-- At the end of the string the loop is left. -/
theorem loop_nil {m n p : Nat} (h : At str p []) (args : List (BitVec 32)) (o : Sink) :
    loop str m (n + 1) p args o = .ok (args, o) := by
  unfold loop
  rw [h.load_nil]
  rfl

/-- Any other character than '%' is printed. -/
theorem loop_char {m n p : Nat} {next : Char} {s : List Char} (h : At str p (next :: s))
    (hp : next ≠ '%') (args : List (BitVec 32)) (o : Sink) :
    loop str m (n + 1) p args o = loop str m n (p + 1) args (o.puts [next]) := by
  obtain ⟨hload, h0, _⟩ := h.load_cons
  conv_lhs => unfold loop
  rw [hload]
  dsimp only [bind, Except.bind]
  rw [if_neg h0, if_pos hp]
  rfl

/-- At a '%' the loop goes where `format_arg` goes. -/
theorem loop_percent {m n p p' : Nat} {s : List Char} (h : At str p ('%' :: s))
    {args args' : List (BitVec 32)} {o o' : Sink}
    (hrun : formatArg str m p args o = .ok (p', args', o')) :
    loop str m (n + 1) p args o = loop str m n p' args' o' := by
  obtain ⟨hload, h0, _⟩ := h.load_cons
  conv_lhs => unfold loop
  rw [hload]
  dsimp only [bind, Except.bind]
  rw [if_neg h0, if_neg (not_not.mpr rfl), hrun]

/-! ## 6. Every string -/

/-- **One pass**: the loop goes on where the pass of `Printf.lean` ends, has printed what it
    prints, and has the arguments left that the rest of the string takes. -/
theorem loop_at {m n p : Nat} {next : Char} {s : List Char} (h : At str p (next :: s))
    (hm : s.length < m) (hm' : 32 < m) {args : List (BitVec 32)} {va : VaList}
    (hargs : Agrees args va) (hcount : taken (n + 1) (next :: s) ≤ args.length) (o : Sink) :
    ∃ p' args', loop str m (n + 1) p args o =
        loop str m n p' args' (o.puts (putNext next s va).1) ∧
      At str p' (putNext next s va).2.1 ∧ Agrees args' (putNext next s va).2.2 ∧
      taken n (putNext next s va).2.1 ≤ args'.length ∧
      args'.drop (taken n (putNext next s va).2.1) = args.drop (taken (n + 1) (next :: s)) := by
  obtain ⟨_, h0, hnext⟩ := h.load_cons
  by_cases hp : next = '%'
  · subst hp
    have hput : putNext '%' s va = Stdlib.formatArg s va := if_neg (not_not.mpr rfl)
    rw [hput]
    by_cases hspec : TakesArg s
    · have htaken : taken (n + 1) ('%' :: s) = taken n (Stdlib.parseFormatSpec s).2 + 1 :=
        (if_neg (not_not.mpr rfl)).trans (if_pos hspec)
      rw [htaken] at hcount ⊢
      cases args with
      | nil => exact absurd hcount (Nat.not_succ_le_zero _)
      | cons arg args =>
          obtain ⟨p', text, hrun, hlist, hp', hleft⟩ := formatArg_word h hm hm' hspec hargs o
          rw [hlist]
          exact ⟨p', args, loop_percent h hrun, hp', hleft, Nat.le_of_succ_le_succ hcount, rfl⟩
    · have htaken : taken (n + 1) ('%' :: s) = taken n s :=
        (if_neg (not_not.mpr rfl)).trans (if_neg hspec)
      rw [htaken] at hcount ⊢
      rw [(formatArg_other hspec va).2]
      exact ⟨p + 1, args, loop_percent h (formatArg_text h hm hspec _ o), hnext, hargs, hcount, rfl⟩
  · have hput : putNext next s va = ([next], s, va) := if_pos hp
    have htaken : taken (n + 1) (next :: s) = taken n s := if_pos hp
    rw [htaken] at hcount ⊢
    rw [hput]
    exact ⟨p + 1, args, loop_char h hp args o, hnext, hargs, hcount, rfl⟩

/-- **All passes**: the loop ends, without a fault, has printed what the passes print and taken
    one argument for each conversion. -/
theorem loop_total {m n p : Nat} {rest : List Char} (h : At str p rest) (hm : rest.length < m)
    (hm' : 32 < m) (hn : rest.length < n) {args : List (BitVec 32)} {va : VaList}
    (hargs : Agrees args va) (hcount : taken n rest ≤ args.length) (o : Sink) :
    ∃ ps, passes n rest va = some ps ∧
      loop str m n p args o = .ok (args.drop (taken n rest), o.puts (ps.flatMap Pass.out)) := by
  induction n generalizing p rest args va o with
  | zero => exact absurd hn (Nat.not_lt_zero _)
  | succ n ih =>
      cases rest with
      | nil =>
          refine ⟨[], rfl, ?_⟩
          rw [loop_nil h, List.flatMap_nil, Sink.puts_nil]
          rfl
      | cons next s =>
          rw [List.length_cons] at hm hn
          obtain ⟨_, h0, _⟩ := h.load_cons
          obtain ⟨p', args', hstep, hp', hargs', hcount', hdrop⟩ :=
            loop_at (n := n) h (by omega) hm' hargs hcount o
          have hlen := putNext_length next s va
          obtain ⟨ps, hps, hrun⟩ := ih hp' (by omega) (by omega) hargs' hcount'
            (o.puts (putNext next s va).1)
          refine ⟨_, passes_cons h0 hps, ?_⟩
          rw [hstep, hrun, hdrop, Sink.puts_puts, List.flatMap_cons]

/-- A string takes at most one argument for each '%'. -/
theorem taken_le_count {n p : Nat} {rest : List Char} (h : At str p rest) :
    taken n rest ≤ rest.count '%' := by
  induction n generalizing p rest with
  | zero => exact Nat.zero_le _
  | succ n ih =>
      cases rest with
      | nil => exact Nat.zero_le _
      | cons next s =>
          obtain ⟨_, _, hnext⟩ := h.load_cons
          unfold taken
          by_cases hp : next = '%'
          · rw [if_neg (not_not.mpr hp), hp, List.count_cons_self]
            by_cases hspec : TakesArg s
            · rw [if_pos hspec]
              obtain ⟨p', _, hp'⟩ := parseFormatSpec_at _ (p + 1) s hnext (Nat.lt_succ_self _)
              have hsuffix := hnext.suffix hp' (parseFormatSpec_length s).1
              have hle := hsuffix.sublist.count_le '%'
              have hrest := ih hp'
              omega
            · rw [if_neg hspec]
              exact Nat.le_succ_of_le (ih hnext)
          · rw [if_pos hp, List.count_cons_of_ne hp]
            exact ih hnext

/-- The arguments the loop over a string takes. -/
def argsTaken (str : CString) : Nat := taken (str.chars.length + 1) str.chars

/-- The arguments as `va_list` points to them. -/
def vaStart (args : List (BitVec 32)) : VaList := ⟨fun k => args.getD k 0, 0⟩

theorem agrees_start (args : List (BitVec 32)) : Agrees args (vaStart args) := by
  intro k arg hk
  show args.getD (0 + k) 0 = arg
  rw [Nat.zero_add, List.getD_eq_getElem?_getD, hk]
  rfl

/-- **The bounded memory does what `Printf.lean` says.** -/
theorem vfprintf_eq (str : CString) (args : List (BitVec 32)) (h : argsTaken str ≤ args.length) :
    ∃ text, Stdlib.vfprintf str.chars (vaStart args) = some (text, text.length % 2 ^ 32) ∧
      vfprintf str args = .ok (args.drop (argsTaken str), ⟨text, BitVec.ofNat 32 text.length⟩) := by
  obtain ⟨ps, hps, hrun⟩ := loop_total (At.start str)
    (m := str.chars.length + 33) (n := str.chars.length + 1) (by omega) (by omega) (by omega)
    (agrees_start args) h ⟨[], 0⟩
  refine ⟨ps.flatMap Pass.out, ?_, ?_⟩
  · unfold Stdlib.vfprintf
    rw [hps]
    rfl
  · unfold vfprintf
    rw [hrun]
    unfold Sink.puts argsTaken
    rw [List.nil_append]
    exact congrArg (fun t => Except.ok (_, Sink.mk (ps.flatMap Pass.out) t)) (BitVec.zero_add _)

/-- **No format string makes `vfprintf` fault**: with an argument for every conversion it ends
    without reading past the NUL or writing past the digit buffer, takes these arguments and no
    others, and returns the number of characters it passed to `putc` as 32 bits hold it. A string
    has at most one conversion for each '%'. -/
theorem vfprintf_safe (str : CString) (args : List (BitVec 32)) :
    argsTaken str ≤ str.chars.count '%' ∧ (argsTaken str ≤ args.length →
      ∃ text tot, vfprintf str args = .ok (args.drop (argsTaken str), ⟨text, tot⟩) ∧
        tot.toNat = text.length % 0x100000000) := by
  refine ⟨taken_le_count (At.start str), fun h => ?_⟩
  obtain ⟨text, _, hrun⟩ := vfprintf_eq str args h
  exact ⟨text, _, hrun, BitVec.toNat_ofNat _ _⟩

/-- The string `%-0*5.x%`. -/
def ragged : CString := ⟨['%', '-', '0', '*', '5', '.', 'x', '%'], by simp, by decide⟩

/-- The string `100%`. -/
def percent : CString := ⟨['1', '0', '0', '%'], by simp, by decide⟩

/-- A string with a star, a width after it, a point without digits and a lone '%' at the end; and
    one that takes no argument at all. -/
theorem vfprintf_safe_ragged :
    (∃ text tot, vfprintf ragged [255, 7] = .ok ([255, 7].drop (argsTaken ragged), ⟨text, tot⟩) ∧
      tot.toNat = text.length % 0x100000000) ∧
    ∃ text tot, vfprintf percent [] = .ok ([], ⟨text, tot⟩) ∧
      tot.toNat = text.length % 0x100000000 :=
  ⟨(vfprintf_safe ragged [255, 7]).2 (by decide), (vfprintf_safe percent []).2 (by decide)⟩

/-! ## 7. The count wraps -/

/-- `%1024u`. -/
def wide : Piece := .directive [] (some ⟨1024, by decide, by decide⟩) .u

/-- The text of `k` of them. -/
def wideText (k : Nat) : List Char := (List.replicate k wide).flatMap Piece.text

theorem wideText_eq (k : Nat) :
    wideText (k + 1) = ['%', '1', '0', '2', '4', 'u'] ++ wideText k := by
  have htext : wide.text = ['%', '1', '0', '2', '4', 'u'] := by decide
  unfold wideText
  rw [List.replicate_succ, List.flatMap_cons, htext]

theorem wideText_length (k : Nat) : (wideText k).length = 6 * k := by
  induction k with
  | zero => rfl
  | succ k ih =>
      rw [wideText_eq, List.length_append, ih]
      show 6 + 6 * k = 6 * (k + 1)
      omega

theorem wideText_noNul (k : Nat) : ∀ c ∈ wideText k, c ≠ '\x00' := by
  induction k with
  | zero => exact fun _ h => absurd h List.not_mem_nil
  | succ k ih =>
      intro c hc
      rw [wideText_eq, List.mem_append] at hc
      rcases hc with hc | hc
      · revert c
        simp
      · exact ih c hc

theorem wideText_count (k : Nat) : (wideText k).count '%' = k := by
  induction k with
  | zero => rfl
  | succ k ih =>
      have hhead : ['%', '1', '0', '2', '4', 'u'].count '%' = 1 := by decide
      rw [wideText_eq, List.count_append, ih, hhead, Nat.add_comm]

/-- Each of them prints 1024 characters of a zero. -/
theorem output_wide (k next : Nat) :
    (output (List.replicate k wide) ⟨fun _ => 0, next⟩).length = 1024 * k := by
  induction k generalizing next with
  | zero => rfl
  | succ k ih =>
      have hlen : (Stdlib.written [] (some ⟨1024, by decide, by decide⟩) .u 0).length = 1024 := by
        obtain ⟨hlead, hbody, _⟩ := parts_zero .u
        unfold Stdlib.written
        rw [hlead, hbody, List.append_nil, List.append_nil, List.length_append,
          List.length_replicate]
        rfl
      show (Stdlib.written [] (some ⟨1024, by decide, by decide⟩) .u 0 ++
        output (List.replicate k wide) ⟨fun _ => 0, next + 1⟩).length = _
      rw [List.length_append, ih (next + 1), hlen]
      omega

/-- `k` of them on zeros print 1024 characters each. -/
theorem vfprintf_wide {k : Nat} (h : str.chars = wideText k) :
    ∃ left text, vfprintf str (List.replicate k 0) =
      .ok (left, ⟨text, BitVec.ofNat 32 text.length⟩) ∧ text.length = 1024 * k := by
  have hcount : argsTaken str ≤ (List.replicate k (0 : BitVec 32)).length := by
    refine le_trans (taken_le_count (At.start str)) ?_
    rw [h, wideText_count, List.length_replicate]
  obtain ⟨text, hlist, hrun⟩ := vfprintf_eq str _ hcount
  have hva : vaStart (List.replicate k (0 : BitVec 32)) = ⟨fun _ => 0, 0⟩ := by
    unfold vaStart
    congr 1
    funext i
    rw [List.getD_eq_getElem?_getD, List.getElem?_replicate]
    split <;> rfl
  obtain ⟨qs, hqs, hout⟩ := passes_pieces (List.replicate k wide) ⟨fun _ => 0, 0⟩
    _ (Nat.lt_succ_self _)
  unfold Stdlib.vfprintf at hlist
  rw [h, hva, wideText, hqs, Option.map_some, Option.some_inj, hout] at hlist
  have htext : output (List.replicate k wide) ⟨fun _ => 0, 0⟩ = text := congrArg Prod.fst hlist
  refine ⟨_, text, hrun, ?_⟩
  rw [← htext, output_wide]

/-- 4194304 of them. -/
def wides : CString := ⟨wideText 0x400000, wideText_noNul _, by rw [wideText_length]; decide⟩

/-- It prints 2^32 characters and returns 0. -/
theorem not_vfprintf_counts : ¬ ∀ (str : CString) (args : List (BitVec 32)),
    str.chars.count '%' ≤ args.length → ∃ left text tot,
      vfprintf str args = .ok (left, ⟨text, tot⟩) ∧ tot.toNat = text.length := by
  intro h
  have hcount : wides.chars.count '%' ≤ (List.replicate 0x400000 (0 : BitVec 32)).length := by
    rw [List.length_replicate]
    exact (wideText_count _).le
  have hwides : wides.chars = wideText 0x400000 := rfl
  obtain ⟨left, text, hrun, hlen⟩ := vfprintf_wide hwides
  obtain ⟨left', text', tot, hrun', htot⟩ := h wides _ hcount
  rw [hrun] at hrun'
  cases hrun'
  rw [BitVec.toNat_ofNat, hlen] at htot
  exact absurd htot (by decide)

end Checked
end OsPlayground.Stdlib
