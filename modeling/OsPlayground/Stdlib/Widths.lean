/-
  File:      OsPlayground/Stdlib/Widths.lean
  Subject:   LONG FIELD WIDTHS: what `parse_format_spec` makes of a width of any number of digits.

  The width is kept in 16 bits with a sign, a negative one means that no digit was read so far, and
  the clamp to 1024 comes after the last digit. So a width is read in stretches: the digits are
  taken modulo 2^16 until the number turns negative, and the digit after that begins a new number.

  * `exists_stretches` -- every string of digits is cut into such stretches and a rest;
  * `parseNumber_stretches` -- the number read is the rest's, modulo 2^16, or a negative one;
  * `minWidth_iff` -- so the width is the number capped at 1024 exactly for the numbers below 2^15
    and for those whose rest is still 1024 at least.
-/
import OsPlayground.Stdlib.Numbers

namespace OsPlayground.Stdlib

/-! ## 1. Directives with a width -/

/-- **A directive with flags and a width**: digits that do not begin with '0', which would be a
    flag, before a known conversion. -/
structure Wide where
  flags : List Char
  flag : ∀ c ∈ flags, (flagOf c).isSome
  digits : List Char
  digit : ∀ c ∈ digits, c.isDigit = true
  nonempty : digits ≠ []
  first : digits.head? ≠ some '0'
  conv : Char
  known : conv ∈ specifiers

/-- The directive after its '%', and the string that follows. -/
def Wide.text (w : Wide) (rest : List Char) : List Char := w.flags ++ (w.digits ++ w.conv :: rest)

/-- The number a string of digits stands for. -/
def value (ds : List Char) : Nat := Nat.ofDigitChars 10 ds 0

/-- No number on the way turns negative in 16 bits. -/
def Steady (ds : List Char) : Prop := ∀ p, p <+: ds → value p % 65536 < 32768

/-- **A stretch**: the number turns negative with the last digit, and not before. -/
def Turning (ds : List Char) : Prop :=
  ∃ init d, ds = init ++ [d] ∧ Steady init ∧ 32768 ≤ value ds % 65536

/-- **The width saturates**: the number stays below 2^15, or what is left of the digits after the
    stretches has 1024 or more in its low 16 bits. -/
def Saturates (ds : List Char) : Prop :=
  value ds < 32768 ∨ ∃ (stretches : List (List Char)) (last : List Char), ds = stretches.flatten ++ last ∧
    (∀ s ∈ stretches, Turning s) ∧ Steady last ∧ 1024 ≤ value last % 65536

/-! ## 2. Digits in 16 bits -/

theorem value_nil : value [] = 0 := rfl

theorem value_concat (ds : List Char) (d : Char) :
    value (ds ++ [d]) = 10 * value ds + (d.toNat - 48) := by
  unfold value
  rw [Nat.ofDigitChars_append, Nat.ofDigitChars_cons]
  rfl

/-- A number in 16 bits with a sign. -/
theorem int16_cast (v : Nat) : int16 (v : Int) =
    if v % 65536 < 32768 then ((v % 65536 : Nat) : Int) else ((v % 65536 : Nat) : Int) - 65536 := by
  unfold int16
  rw [Int.bmod_def]
  split_ifs <;> omega

/-- The low 16 bits of a number decide those of the next. -/
theorem int16_step (v d : Nat) :
    int16 (((v % 65536 : Nat) : Int) * 10 + d) = int16 ((10 * v + d : Nat) : Int) := by
  unfold int16
  rw [Int.bmod_def, Int.bmod_def]
  have hmod : (((v % 65536 : Nat) : Int) * 10 + d) % (2 ^ 16 : Nat) =
      ((10 * v + d : Nat) : Int) % (2 ^ 16 : Nat) := by omega
  rw [hmod]

/-- A digit, as the loop tells it. -/
theorem digit_cases {d : Char} (hd : d.isDigit = true) :
    d ≠ '*' ∧ ('0' ≤ d ∧ d ≤ '9') ∧ 48 ≤ d.toNat ∧ d.toNat < 58 := by
  obtain ⟨hge, hle⟩ := Char.isDigit_iff_toNat.mp hd
  have h48 : '0'.toNat = 48 := rfl
  have h57 : '9'.toNat = 57 := rfl
  refine ⟨?_, (isDigit_iff d).mp hd, by omega, by omega⟩
  intro he
  rw [he] at hd
  cases hd

/-- One digit of the loop. -/
theorem parseNumber_digit {d : Char} (hd : d.isDigit = true) (n : Int) (fmt : List Char) :
    parseNumber n (d :: fmt) =
      parseNumber (int16 (if n < 0 then (d.toNat : Int) - 48 else n * 10 + d.toNat - 48)) fmt := by
  obtain ⟨hstar, hrange, _⟩ := digit_cases hd
  conv_lhs => unfold parseNumber
  rw [if_neg hstar, if_pos hrange]

/-- A digit after a number that is not negative. -/
theorem parseNumber_next {d : Char} (hd : d.isDigit = true) (v : Nat) (fmt : List Char) :
    parseNumber ((v % 65536 : Nat) : Int) (d :: fmt) =
      parseNumber (int16 ((10 * v + (d.toNat - 48) : Nat) : Int)) fmt := by
  obtain ⟨_, _, hge, _⟩ := digit_cases hd
  have hval : ((v % 65536 : Nat) : Int) * 10 + d.toNat - 48 =
      ((v % 65536 : Nat) : Int) * 10 + ((d.toNat - 48 : Nat) : Int) := by omega
  rw [parseNumber_digit hd, if_neg (by omega), hval, int16_step]

/-- A digit after a negative number begins a new one. -/
theorem parseNumber_restart {d : Char} (hd : d.isDigit = true) {n : Int} (hn : n < 0)
    (fmt : List Char) :
    parseNumber n (d :: fmt) = parseNumber (int16 ((d.toNat - 48 : Nat) : Int)) fmt := by
  obtain ⟨_, _, hge, _⟩ := digit_cases hd
  have hval : (d.toNat : Int) - 48 = ((d.toNat - 48 : Nat) : Int) := by omega
  rw [parseNumber_digit hd, if_pos hn, hval]

/-! ## 3. Stretches -/

theorem Steady.init {ds : List Char} {d : Char} (h : Steady (ds ++ [d])) : Steady ds :=
  fun p hp => h p (hp.trans (List.prefix_append ds [d]))

theorem Steady.concat {ds : List Char} {d : Char} (h : Steady ds)
    (hd : value (ds ++ [d]) % 65536 < 32768) : Steady (ds ++ [d]) := by
  intro p hp
  rcases List.prefix_concat_iff.mp hp with rfl | hp
  · exact hd
  · exact h p hp

/-- **Every string of digits is cut into stretches and a rest.** -/
theorem exists_stretches (ds : List Char) :
    ∃ (stretches : List (List Char)) (last : List Char), ds = stretches.flatten ++ last ∧
      (∀ s ∈ stretches, Turning s) ∧ Steady last := by
  induction ds using List.reverseRecOn with
  | nil =>
      refine ⟨[], [], rfl, fun s hs => absurd hs List.not_mem_nil, fun p hp => ?_⟩
      rw [List.prefix_nil.mp hp, value_nil]
      decide
  | append_singleton ds d ih =>
      obtain ⟨stretches, last, he, hturn, hsteady⟩ := ih
      by_cases hd : value (last ++ [d]) % 65536 < 32768
      · exact ⟨stretches, last ++ [d], by rw [he, List.append_assoc], hturn, hsteady.concat hd⟩
      · -- the digit ends a stretch
        have hnew : Turning (last ++ [d]) := ⟨last, d, rfl, hsteady, Nat.le_of_not_lt hd⟩
        refine ⟨stretches ++ [last ++ [d]], [], ?_, ?_, fun p hp => ?_⟩
        · rw [he, List.flatten_append, List.flatten_singleton, List.append_nil, List.append_assoc]
        · intro s hs
          rcases List.mem_append.mp hs with hs | hs
          · exact hturn s hs
          · rw [List.mem_singleton.mp hs]
            exact hnew
        · rw [List.prefix_nil.mp hp, value_nil]
          decide

/-- **The digits up to where the number may turn negative**: from a negative number on, the loop
    holds the low 16 bits of the digits read. -/
theorem parseNumber_steady {init : List Char} {d : Char} (h : Steady init)
    (hd : ∀ c ∈ init ++ [d], c.isDigit = true) {n : Int} (hn : n < 0) (fmt : List Char) :
    parseNumber n (init ++ d :: fmt) = parseNumber (int16 (value (init ++ [d]) : Nat)) fmt := by
  induction init using List.reverseRecOn generalizing d fmt with
  | nil =>
      have hval : value ([] ++ [d]) = d.toNat - 48 := by
        rw [value_concat, value_nil, Nat.mul_zero, Nat.zero_add]
      rw [hval]
      exact parseNumber_restart (hd d (List.mem_singleton_self d)) hn fmt
  | append_singleton init c ih =>
      have hc : ∀ c' ∈ init ++ [c], c'.isDigit = true := fun c' h' => hd c' (List.mem_append_left _ h')
      have hlow : value (init ++ [c]) % 65536 < 32768 := h _ (List.prefix_refl _)
      rw [List.append_assoc, List.singleton_append, ih h.init hc, int16_cast, if_pos hlow,
        parseNumber_next (hd d (List.mem_append_right _ (List.mem_singleton_self d))),
        ← value_concat]

/-- A stretch leaves a negative number. -/
theorem parseNumber_turning {s : List Char} (h : Turning s) (hd : ∀ c ∈ s, c.isDigit = true)
    {n : Int} (hn : n < 0) (fmt : List Char) :
    ∃ n' < 0, parseNumber n (s ++ fmt) = parseNumber n' fmt := by
  obtain ⟨init, d, rfl, hsteady, hlow⟩ := h
  have hlt : value (init ++ [d]) % 65536 < 65536 := Nat.mod_lt _ (by decide)
  refine ⟨int16 (value (init ++ [d]) : Nat), ?_, ?_⟩
  · rw [int16_cast, if_neg (Nat.not_lt.mpr hlow)]
    omega
  · rw [List.append_assoc, List.singleton_append]
    exact parseNumber_steady hsteady hd hn fmt

/-- **Stretches and a rest**: the number read is the rest's in 16 bits, and negative where there
    is no rest. -/
theorem parseNumber_stretches (stretches : List (List Char)) {last : List Char}
    (hturn : ∀ s ∈ stretches, Turning s) (hsteady : Steady last)
    (hd : ∀ c ∈ stretches.flatten ++ last, c.isDigit = true) {c : Char} (hc : c ≠ '*')
    (hcd : c.isDigit = false) {n : Int} (hn : n < 0) (rest : List Char) :
    ∃ n', parseNumber n (stretches.flatten ++ last ++ c :: rest) = (n', c :: rest) ∧
      (last = [] → n' < 0) ∧ (last ≠ [] → n' = (value last % 65536 : Nat)) := by
  have hend : ∀ n, parseNumber n (c :: rest) = (n, c :: rest) := by
    intro n
    have hno : ¬ ('0' ≤ c ∧ c ≤ '9') := by
      rw [← isDigit_iff, hcd]
      exact Bool.false_ne_true
    unfold parseNumber
    rw [if_neg hc, if_neg hno]
  induction stretches generalizing n with
  | nil =>
      rw [List.flatten_nil, List.nil_append]
      rcases List.eq_nil_or_concat' last with rfl | h
      · exact ⟨n, hend n, fun _ => hn, fun h => absurd rfl h⟩
      · obtain ⟨init, d, rfl⟩ := h
        have hlow := hsteady _ (List.prefix_refl _)
        refine ⟨(value (init ++ [d]) % 65536 : Nat), ?_, fun h => absurd h (by simp), fun _ => rfl⟩
        rw [List.append_assoc, List.singleton_append, parseNumber_steady hsteady.init hd hn,
          int16_cast, if_pos hlow, hend]
  | cons s stretches ih =>
      rw [List.flatten_cons, List.append_assoc] at hd
      obtain ⟨n', hn', hs⟩ := parseNumber_turning (hturn s List.mem_cons_self)
        (fun c h => hd c (List.mem_append_left _ h)) hn (stretches.flatten ++ last ++ c :: rest)
      rw [List.flatten_cons, List.append_assoc, List.append_assoc, ← List.append_assoc _ last, hs]
      exact ih (fun s' h => hturn s' (List.mem_cons_of_mem s h))
        (fun c h => hd c (List.mem_append_right _ h)) hn'

/-! ## 4. The width of a directive -/

/-- Flags end before a character that is none. -/
theorem parseFlags_stop (flags : List Char) (hf : ∀ c ∈ flags, (flagOf c).isSome) (acc : BitVec 8)
    {c : Char} (hc : flagOf c = none) (rest : List Char) :
    (parseFlags acc (flags ++ c :: rest)).2 = c :: rest := by
  induction flags generalizing acc with
  | nil =>
      show (parseFlags acc (c :: rest)).2 = _
      unfold parseFlags
      rw [hc]
  | cons f flags ih =>
      obtain ⟨bits, hbits⟩ := Option.isSome_iff_exists.mp (hf f List.mem_cons_self)
      show (parseFlags acc (f :: (flags ++ c :: rest))).2 = _
      unfold parseFlags
      rw [hbits]
      exact ih (fun c h => hf c (List.mem_cons_of_mem f h)) _

/-- The width a directive is given, before the clamp. -/
theorem Wide.minWidth (w : Wide) (rest : List Char) {n : Int}
    (h : parseNumber (-1) (w.digits ++ w.conv :: rest) = (n, w.conv :: rest)) :
    (parseFormatSpec (w.text rest)).1.minWidth = if n > 1024 then 1024 else n := by
  obtain ⟨d, ds, hds⟩ := List.exists_cons_of_ne_nil w.nonempty
  have hd0 : d ≠ '0' := by
    intro he
    refine w.first ?_
    rw [hds, he]
    rfl
  have hd : d.isDigit = true := w.digit d (hds ▸ List.mem_cons_self)
  have hflags : (parseFlags 0 (w.text rest)).2 = w.digits ++ w.conv :: rest := by
    unfold Wide.text
    rw [hds, List.cons_append]
    exact parseFlags_stop w.flags w.flag 0 (flagOf_digit hd hd0) _
  unfold parseFormatSpec
  dsimp only
  rw [hflags, h]

/-- A known conversion is no digit and no star. -/
theorem specifier_end {c : Char} (h : c ∈ specifiers) : c ≠ '*' ∧ c.isDigit = false := by
  simp only [specifiers, List.mem_cons, List.not_mem_nil, or_false] at h
  rcases h with rfl | rfl | rfl | rfl | rfl | rfl | rfl | rfl <;> decide

/-- **What a cut of the digits says about the width.** -/
theorem Wide.minWidth_stretches (w : Wide) (rest : List Char) (stretches : List (List Char))
    (last : List Char) (he : w.digits = stretches.flatten ++ last)
    (hturn : ∀ s ∈ stretches, Turning s) (hsteady : Steady last) :
    ∃ n : Int, (parseFormatSpec (w.text rest)).1.minWidth = (if n > 1024 then 1024 else n) ∧
      (last = [] → n < 0) ∧ (last ≠ [] → n = (value last % 65536 : Nat)) := by
  obtain ⟨hstar, hconv⟩ := specifier_end w.known
  obtain ⟨n, hn, hneg, hpos⟩ := parseNumber_stretches stretches hturn hsteady
    (he ▸ w.digit) hstar hconv (by decide : (-1 : Int) < 0) rest
  rw [← he] at hn
  exact ⟨n, w.minWidth rest hn, hneg, hpos⟩

/-- No number on the way to a small one leaves the 15 bits. -/
theorem steady_of_small {ds : List Char} (h : value ds < 32768) : Steady ds := by
  intro p hp
  obtain ⟨t, ht⟩ := hp
  have hle : value p ≤ value ds := by
    unfold value
    rw [← ht, Nat.ofDigitChars_append]
    exact le_ofDigitChars t _
  omega

/-- **The width is the number capped at 1024 exactly where it saturates.** -/
theorem minWidth_iff (w : Wide) (rest : List Char) :
    (parseFormatSpec (w.text rest)).1.minWidth = min (value w.digits : Int) 1024 ↔
      Saturates w.digits := by
  by_cases hsmall : value w.digits < 32768
  · obtain ⟨n, hn, _, hpos⟩ := w.minWidth_stretches rest [] w.digits rfl
      (fun s hs => absurd hs List.not_mem_nil) (steady_of_small hsmall)
    have hval := hpos w.nonempty
    rw [Nat.mod_eq_of_lt (by omega)] at hval
    refine ⟨fun _ => Or.inl hsmall, fun _ => ?_⟩
    rw [hn, hval]
    split_ifs <;> omega
  constructor
  · intro h
    obtain ⟨stretches, last, he, hturn, hsteady⟩ := exists_stretches w.digits
    obtain ⟨n, hn, hneg, hpos⟩ := w.minWidth_stretches rest stretches last he hturn hsteady
    have hmin : min (value w.digits : Int) 1024 = 1024 := by omega
    rw [hn, hmin] at h
    have hbig : 1024 ≤ n := by
      split_ifs at h <;> omega
    refine Or.inr ⟨stretches, last, he, hturn, hsteady, ?_⟩
    by_cases hl : last = []
    · exact absurd (hneg hl) (by omega)
    · have hval := hpos hl
      omega
  · intro h
    obtain ⟨stretches, last, he, hturn, hsteady, hbig⟩ := h.resolve_left hsmall
    obtain ⟨n, hn, _, hpos⟩ := w.minWidth_stretches rest stretches last he hturn hsteady
    have hne : last ≠ [] := by
      intro hl
      rw [hl, value_nil] at hbig
      exact absurd hbig (by decide)
    have hval := hpos hne
    rw [hn]
    split_ifs <;> omega

/-- The directive `%40000d`. -/
def wide40000 : Wide :=
  ⟨[], by simp, ['4', '0', '0', '0', '0'], by simp, by decide, by decide, 'd', by decide⟩

/-- Its width is read as -25536, which fills nothing. -/
theorem not_minWidth_capped : ¬ ∀ (w : Wide) (rest : List Char),
    (parseFormatSpec (w.text rest)).1.minWidth = min (value w.digits : Int) 1024 := by
  intro h
  have hwidth : (parseFormatSpec (wide40000.text [])).1.minWidth = -25536 := by decide
  have hvalue : min (value wide40000.digits : Int) 1024 = 1024 := by decide
  have he := h wide40000 []
  rw [hwidth, hvalue] at he
  exact absurd he (by decide)

end OsPlayground.Stdlib
