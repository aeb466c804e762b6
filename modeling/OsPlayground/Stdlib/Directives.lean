/-
  File:      OsPlayground/Stdlib/Directives.lean
  Subject:   DIRECTIVES AND ARGUMENTS: whether `vfprintf` eats the text and the argument of every
             directive of any format string.

  `heads` scans a format string the way it is meant: a directive with one of the conversions
  d, i, u, x, c, s, p is eaten whole and takes an argument, two '%' are eaten together and take
  none. `vfprintf` is aligned with a string when its loop stands at the same places with the same
  next argument.

  * `putNext_handled` -- at a place that is handled the loop does what the scan does;
  * `passes_stuck` -- at any other place it prints '%' and moves on by one character, so the rest
    of the directive is read as text or as another directive;
  * `aligned_iff` -- so it is aligned exactly with the strings in which every place is handled:
    `format_arg` has no case for c, s, p and '%', which `parse_format_spec` knows.
-/
import OsPlayground.Stdlib.Printf

namespace OsPlayground.Stdlib

/-! ## 1. The scan -/

/-- The conversions that take an argument. -/
def argSpecifiers : List Char := ['d', 'i', 'u', 'x', 'c', 's', 'p']

/-- Where the scan goes on after `next`, and how many arguments are taken there. -/
def scanNext (next : Char) (s : List Char) : List Char × Nat :=
  if next ≠ '%' then (s, 0)
  else if (parseFormatSpec s).1.specifier ∈ argSpecifiers then ((parseFormatSpec s).2, 1)
  else if s.head? = some '%' then (s.tail, 0)
  else (s, 0)

/-- **The places of the scan**: what is left of the string, and the next argument there. -/
def heads : Nat → List Char → Nat → List (List Char × Nat)
  | 0, _, _ => []
  | _ + 1, [], _ => []
  | n + 1, next :: s, k =>
    if next = '\x00' then []
    else (next :: s, k) :: heads n (scanNext next s).1 (k + (scanNext next s).2)

/-- The number a directive prints for an argument. -/
def formatted (spec : FormatSpec) (arg : BitVec 32) : Option (List Char) :=
  if spec.specifier = 'd' ∨ spec.specifier = 'i' then some (formatInt spec arg)
  else if spec.specifier = 'u' then some (formatUnsigned spec arg)
  else if spec.specifier = 'x' then some (formatHex spec arg)
  else none

/-- What a pass prints: '%' for two of them, and the number of its own argument for a directive
    of a number. -/
def PrintsOwn (word : Nat → BitVec 32) (p : Pass) : Prop :=
  ∀ s, p.fmt = '%' :: s → (s.head? = some '%' → p.out = ['%']) ∧
    ∀ text, formatted (parseFormatSpec s).1 (word p.next) = some text → p.out = text

/-- **Directives and arguments are aligned**: the loop stands where the scan stands with the same
    next argument, and every pass prints its own. -/
def Aligned (fmt : List Char) (args : VaList) : Prop :=
  ∃ ps, passes (fmt.length + 1) fmt args = some ps ∧
    ps.map (fun p => (p.fmt, p.next)) = heads (fmt.length + 1) fmt args.next ∧
    ∀ p ∈ ps, PrintsOwn args.word p

/-- **The place is handled**: no directive with c, s or p stands here, and no pair of '%'. -/
def Handled : List Char → Prop
  | '%' :: s => (parseFormatSpec s).1.specifier ∉ ['c', 's', 'p'] ∧ s.head? ≠ some '%'
  | _ => True

/-- Every place of the scan of a format string is handled. -/
def AllHandled (fmt : List Char) : Prop := ∀ h ∈ heads (fmt.length + 1) fmt 0, Handled h.1

/-! ## 2. One pass -/

theorem handled_other {next : Char} (h : next ≠ '%') (s : List Char) : Handled (next :: s) := by
  unfold Handled
  split
  · rename_i heq
    exact absurd (List.cons.inj heq).1 h
  · exact trivial

/-- The conversions `format_arg` has a case for. -/
theorem formatArg_number {s : List Char} (h : (parseFormatSpec s).1.specifier ∈ ['d', 'i', 'u', 'x'])
    (args : VaList) : ∃ text, formatted (parseFormatSpec s).1 args.arg = some text ∧
      formatArg s args = (text, (parseFormatSpec s).2, args.advance) := by
  unfold formatted formatArg
  dsimp only
  simp only [List.mem_cons, List.not_mem_nil, or_false] at h
  by_cases hd : (parseFormatSpec s).1.specifier = 'd' ∨ (parseFormatSpec s).1.specifier = 'i'
  · rw [if_pos hd, if_pos hd]
    exact ⟨_, rfl, rfl⟩
  by_cases hu : (parseFormatSpec s).1.specifier = 'u'
  · rw [if_neg hd, if_pos hu, if_neg hd, if_pos hu]
    exact ⟨_, rfl, rfl⟩
  by_cases hx : (parseFormatSpec s).1.specifier = 'x'
  · rw [if_neg hd, if_neg hu, if_pos hx, if_neg hd, if_neg hu, if_pos hx]
    exact ⟨_, rfl, rfl⟩
  · tauto

/-- Any other conversion: the '%' is printed and the string moves on by one character. -/
theorem formatArg_other {s : List Char} (h : (parseFormatSpec s).1.specifier ∉ ['d', 'i', 'u', 'x'])
    (args : VaList) : (∀ arg, formatted (parseFormatSpec s).1 arg = none) ∧
      formatArg s args = (['%'], s, args) := by
  simp only [List.mem_cons, List.not_mem_nil, or_false, not_or] at h
  obtain ⟨h1, h2, h3, h4⟩ := h
  have hd : ¬ ((parseFormatSpec s).1.specifier = 'd' ∨ (parseFormatSpec s).1.specifier = 'i') :=
    not_or.mpr ⟨h1, h2⟩
  unfold formatted formatArg
  dsimp only
  rw [if_neg hd, if_neg h3, if_neg h4]
  exact ⟨fun arg => by rw [if_neg hd, if_neg h3, if_neg h4], rfl⟩

/-- **A handled place**: the loop goes where the scan goes, takes as many arguments, and prints
    its own. -/
theorem putNext_handled {next : Char} {s : List Char} (h : Handled (next :: s)) (args : VaList) :
    (putNext next s args).2.1 = (scanNext next s).1 ∧
      (putNext next s args).2.2.next = args.next + (scanNext next s).2 ∧
      (putNext next s args).2.2.word = args.word ∧
      PrintsOwn args.word ⟨next :: s, args.next, (putNext next s args).1⟩ := by
  by_cases hp : next = '%'
  · subst hp
    obtain ⟨hcsp, hpercent⟩ : (parseFormatSpec s).1.specifier ∉ ['c', 's', 'p'] ∧
        s.head? ≠ some '%' := h
    have hput : putNext '%' s args = formatArg s args := if_neg (not_not.mpr rfl)
    have hscan : scanNext '%' s = if (parseFormatSpec s).1.specifier ∈ argSpecifiers then
        ((parseFormatSpec s).2, 1) else (s, 0) := by
      unfold scanNext
      rw [if_neg (not_not.mpr rfl), if_neg hpercent]
    by_cases hnum : (parseFormatSpec s).1.specifier ∈ ['d', 'i', 'u', 'x']
    · have harg : (parseFormatSpec s).1.specifier ∈ argSpecifiers :=
        List.mem_append_left ['c', 's', 'p'] hnum
      obtain ⟨text, htext, hf⟩ := formatArg_number hnum args
      rw [hput, hf, hscan, if_pos harg]
      refine ⟨rfl, rfl, rfl, fun s' hs' => ?_⟩
      obtain rfl := (List.cons.inj hs').2
      exact ⟨fun hhead => absurd hhead hpercent, fun text' h' => Option.some.inj (htext.symm.trans h')⟩
    · have harg : (parseFormatSpec s).1.specifier ∉ argSpecifiers := fun hm =>
        (List.mem_append (s := ['d', 'i', 'u', 'x']) (t := ['c', 's', 'p'])).mp hm |>.elim hnum hcsp
      obtain ⟨hnone, hf⟩ := formatArg_other hnum args
      rw [hput, hf, hscan, if_neg harg]
      refine ⟨rfl, rfl, rfl, fun s' hs' => ?_⟩
      obtain rfl := (List.cons.inj hs').2
      refine ⟨fun _ => rfl, fun text' h' => ?_⟩
      rw [hnone] at h'
      cases h'
  · have hput : putNext next s args = ([next], s, args) := if_pos hp
    have hscan : scanNext next s = (s, 0) := if_pos hp
    rw [hput, hscan]
    exact ⟨rfl, rfl, rfl, fun s' hs' => absurd (List.cons.inj hs').1 hp⟩

/-- A string that begins with NUL holds no conversion. -/
theorem parse_nul (s : List Char) : (parseFormatSpec ('\x00' :: s)).1.specifier = '\x00' := rfl

/-- **A place that is not handled**: the loop prints '%' and stands one character on, with the
    same argument; the scan goes further. -/
theorem putNext_stuck {next : Char} {s : List Char} (h : ¬ Handled (next :: s)) (args : VaList) :
    putNext next s args = (['%'], s, args) ∧ (scanNext next s).1.length < s.length ∧
      ∃ c s', s = c :: s' ∧ c ≠ '\x00' := by
  have hp : next = '%' := by
    by_contra hne
    exact h (handled_other hne s)
  subst hp
  have hor : (parseFormatSpec s).1.specifier ∈ ['c', 's', 'p'] ∨ s.head? = some '%' := by
    by_contra hno
    rw [not_or] at hno
    exact h hno
  have hput : putNext '%' s args = formatArg s args := if_neg (not_not.mpr rfl)
  rcases hor with hcsp | hhead
  · have hnum : (parseFormatSpec s).1.specifier ∉ ['d', 'i', 'u', 'x'] := by
      intro hm
      simp only [List.mem_cons, List.not_mem_nil, or_false] at hm hcsp
      rcases hcsp with hc | hc | hc <;> rw [hc] at hm <;> revert hm <;> decide
    have harg : (parseFormatSpec s).1.specifier ∈ argSpecifiers :=
      List.mem_append_right ['d', 'i', 'u', 'x'] hcsp
    have hknown : (parseFormatSpec s).1.specifier ∈ specifiers := List.mem_append_left ['%'] harg
    have hlen := (parseFormatSpec_length s).2 hknown
    have hscan : scanNext '%' s = ((parseFormatSpec s).2, 1) := by
      unfold scanNext
      rw [if_neg (not_not.mpr rfl), if_pos harg]
    refine ⟨hput.trans (formatArg_other hnum args).2, by rw [hscan]; exact hlen, ?_⟩
    cases s with
    | nil => exact absurd hlen (Nat.not_lt_zero _)
    | cons c s' =>
        refine ⟨c, s', rfl, fun h0 => ?_⟩
        rw [h0, parse_nul] at hknown
        exact absurd hknown (by decide)
  · obtain ⟨s', rfl⟩ : ∃ s', s = '%' :: s' := List.head?_eq_some_iff.mp hhead
    have hspec : (parseFormatSpec ('%' :: s')).1.specifier = '%' := rfl
    have hnum : (parseFormatSpec ('%' :: s')).1.specifier ∉ ['d', 'i', 'u', 'x'] := by
      rw [hspec]
      decide
    have hscan : scanNext '%' ('%' :: s') = (s', 0) := rfl
    refine ⟨hput.trans (formatArg_other hnum args).2, ?_, '%', s', rfl, by decide⟩
    rw [hscan, List.length_cons]
    exact Nat.lt_succ_self _

/-! ## 3. All passes -/

/-- The first place of a scan is its start. -/
theorem heads_head (n : Nat) (s : List Char) (k : Nat) {h : List Char × Nat}
    {hs : List (List Char × Nat)} (he : heads n s k = h :: hs) : h = (s, k) := by
  cases n with
  | zero => cases he
  | succ n =>
      cases s with
      | nil => cases he
      | cons next s =>
          unfold heads at he
          split_ifs at he
          exact (List.cons.inj he).1.symm

/-- After a place that is not handled the loop and the scan stand apart. -/
theorem passes_stuck {n : Nat} {next : Char} {s : List Char} {args : VaList} {ps : List Pass}
    (h : ¬ Handled (next :: s)) (hn : s.length < n) (k : Nat)
    (hps : passes n (putNext next s args).2.1 (putNext next s args).2.2 = some ps) :
    ps.map (fun p => (p.fmt, p.next)) ≠ heads n (scanNext next s).1 k := by
  obtain ⟨hput, hlen, c, s', hs, h0⟩ := putNext_stuck h args
  rw [hput] at hps
  dsimp only at hps
  subst hs
  obtain ⟨m, rfl⟩ := Nat.exists_eq_succ_of_ne_zero (by omega : n ≠ 0)
  have hlen' := putNext_length c s' args
  rw [List.length_cons] at hn
  obtain ⟨qs, hqs⟩ := passes_total m _ (putNext c s' args).2.2 (by omega : (putNext c s' args).2.1.length < m)
  rw [Nat.succ_eq_add_one, passes_cons h0 hqs] at hps
  cases hps
  -- the loop stands at `c :: s'`, the scan at something shorter
  intro heq
  rw [List.map_cons] at heq
  have hhead := heads_head _ _ _ heq.symm
  have hfmt : c :: s' = (scanNext next (c :: s')).1 := congrArg Prod.fst hhead
  rw [← hfmt] at hlen
  exact absurd hlen (lt_irrefl _)

/-- **The loop keeps with the scan exactly while every place is handled.** -/
theorem passes_iff (n : Nat) (s : List Char) (args : VaList) (hn : s.length < n) {ps : List Pass}
    (hps : passes n s args = some ps) :
    (ps.map (fun p => (p.fmt, p.next)) = heads n s args.next ∧ ∀ p ∈ ps, PrintsOwn args.word p) ↔
      ∀ h ∈ heads n s args.next, Handled h.1 := by
  induction n generalizing s args ps with
  | zero => exact absurd hn (Nat.not_lt_zero _)
  | succ n ih =>
      cases s with
      | nil =>
          cases hps
          exact iff_of_true ⟨rfl, fun _ h => absurd h List.not_mem_nil⟩
            fun _ h => absurd h List.not_mem_nil
      | cons next s =>
          by_cases h0 : next = '\x00'
          · subst h0
            cases hps
            exact iff_of_true ⟨rfl, fun _ h => absurd h List.not_mem_nil⟩
              fun _ h => absurd h List.not_mem_nil
          have hheads : heads (n + 1) (next :: s) args.next = (next :: s, args.next) ::
              heads n (scanNext next s).1 (args.next + (scanNext next s).2) := if_neg h0
          have hlen := putNext_length next s args
          rw [List.length_cons] at hn
          obtain ⟨qs, hqs⟩ := passes_total n (putNext next s args).2.1 (putNext next s args).2.2
            (by omega)
          rw [passes_cons h0 hqs] at hps
          cases hps
          rw [hheads, List.map_cons]
          by_cases hh : Handled (next :: s)
          · obtain ⟨e1, e2, e3, hown⟩ := putNext_handled hh args
            have hiff := ih _ _ (by omega) hqs
            rw [e1, e2, e3] at hiff
            rw [List.cons_inj_right, List.forall_mem_cons, List.forall_mem_cons, ← hiff]
            tauto
          · refine iff_of_false (fun h => ?_) fun h => hh (h _ List.mem_cons_self)
            exact passes_stuck hh (by omega) _ hqs (List.cons.inj h.1).2

/-- The places of a scan do not depend on the arguments. -/
theorem heads_fst (n : Nat) (s : List Char) (k k' : Nat) :
    (heads n s k).map Prod.fst = (heads n s k').map Prod.fst := by
  induction n generalizing s k k' with
  | zero => rfl
  | succ n ih =>
      cases s with
      | nil => rfl
      | cons next s =>
          unfold heads
          split_ifs
          · rfl
          · rw [List.map_cons, List.map_cons, ih]

/-- **`vfprintf` is aligned with a format string exactly when every place of it is handled**: no
    directive of the string has the conversion c, s or p, and no two '%' stand for one. -/
theorem aligned_iff (fmt : List Char) (args : VaList) : Aligned fmt args ↔ AllHandled fmt := by
  obtain ⟨ps, hps⟩ := passes_total (fmt.length + 1) fmt args (Nat.lt_succ_self _)
  have hiff := passes_iff _ _ _ (Nat.lt_succ_self _) hps
  have hplaces : (∀ h ∈ heads (fmt.length + 1) fmt args.next, Handled h.1) ↔ AllHandled fmt := by
    unfold AllHandled
    rw [← List.forall_mem_map (f := Prod.fst) (P := Handled),
      ← List.forall_mem_map (f := Prod.fst) (P := Handled), heads_fst _ _ args.next 0]
  rw [← hplaces, ← hiff]
  refine ⟨fun h => ?_, fun h => ⟨ps, hps, h⟩⟩
  obtain ⟨qs, hqs, h⟩ := h
  rw [hps] at hqs
  exact Option.some.inj hqs ▸ h

/-- `%c%d` takes no argument for the character, and prints the character's code for the
    number. -/
theorem not_aligned_char : ¬ Aligned ['%', 'c', '%', 'd'] ⟨fun k => if k = 0 then 65 else 7, 0⟩ := by
  intro h
  obtain ⟨ps, hps, hheads, _⟩ := h
  have e : (passes 5 ['%', 'c', '%', 'd'] ⟨fun k => if k = 0 then 65 else 7, 0⟩).map
      (fun ps => (ps.map fun p => (p.fmt, p.next), ps.flatMap Pass.out)) =
      some ([(['%', 'c', '%', 'd'], 0), (['c', '%', 'd'], 0), (['%', 'd'], 0)],
        ['%', 'c', '6', '5']) := by decide
  have hps' : passes 5 ['%', 'c', '%', 'd'] ⟨fun k => if k = 0 then 65 else 7, 0⟩ = some ps := hps
  rw [hps', Option.map_some, Option.some_inj, Prod.mk.injEq, hheads] at e
  exact absurd e.1 (by decide)

end OsPlayground.Stdlib
