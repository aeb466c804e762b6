/-
  File:      OsPlayground/Stdlib/Verbatim.lean
  Subject:   DIRECTIVES NOBODY KNOWS: `vfprintf` on strings without a conversion it prints.

  `parse_format_spec` eats flags, width and precision before it sees that no conversion follows.
  `format_arg` drops that progress and moves on by the one '%', so the text comes out again as
  characters, and a '%' inside it gets a parse of its own.

  * `loop_verbatim` -- by induction on what is left of the string, one character a pass;
  * `vfprintf_verbatim` -- the string itself, no argument taken, its length returned.
-/
import OsPlayground.Stdlib.Checked

namespace OsPlayground.Stdlib

/-- **No directive of the string has a known conversion**: the parse that begins after a '%' finds
    none, whichever '%' it is. -/
def Unrecognised (str : CString) : Prop :=
  ∀ i < str.chars.length, str.chars[i]? = some '%' →
    (parseFormatSpec (str.chars.drop (i + 1))).1.specifier = '\x00'

namespace Checked

variable {str : CString}

/-- The character before which a pointer stands. -/
theorem At.getElem? {p : Nat} {c : Char} {rest : List Char} (h : At str p (c :: rest)) :
    p < str.chars.length ∧ str.chars[p]? = some c := by
  have hget : str.chars[p]? = some c := by
    rw [← List.head?_drop, h.drop]
    rfl
  exact ⟨(List.getElem?_eq_some_iff.mp hget).1, hget⟩

/-- **What is left of the string is printed as it stands**, with no argument taken. -/
theorem loop_verbatim {m n p : Nat} {rest : List Char} (hstr : Unrecognised str)
    (h : At str p rest) (hm : rest.length < m) (hn : rest.length < n) (args : List (BitVec 32))
    (o : Sink) : loop str m n p args o = .ok (args, o.puts rest) := by
  induction rest generalizing n p o with
  | nil =>
      obtain ⟨n, rfl⟩ := Nat.exists_eq_succ_of_ne_zero (by omega : n ≠ 0)
      rw [Nat.succ_eq_add_one, loop_nil h, Sink.puts_nil]
  | cons next s ih =>
      obtain ⟨n, rfl⟩ := Nat.exists_eq_succ_of_ne_zero (by omega : n ≠ 0)
      rw [List.length_cons] at hm hn
      obtain ⟨_, _, hnext⟩ := h.load_cons
      -- either way the pass prints the one character and stands after it
      have hstep : loop str m (n + 1) p args o = loop str m n (p + 1) args (o.puts [next]) := by
        by_cases hp : next = '%'
        · subst hp
          obtain ⟨hlt, hget⟩ := h.getElem?
          have hspec := hstr p hlt hget
          rw [hnext.drop] at hspec
          have hnone : (Stdlib.parseFormatSpec s).1.specifier ∉ ['d', 'i', 'u', 'x'] := by
            rw [hspec]
            decide
          exact loop_percent h (formatArg_text h (by omega) hnone args o)
        · exact loop_char h hp args o
      rw [Nat.succ_eq_add_one, hstep, ih hnext (by omega) (by omega), Sink.puts_puts]
      rfl

/-- **A string without a known conversion is printed verbatim**: `vfprintf` passes the string
    itself to `putc`, takes no argument and returns the length. -/
theorem vfprintf_verbatim (str : CString) (h : Unrecognised str) (args : List (BitVec 32)) :
    ∃ tot, vfprintf str args = .ok (args, ⟨str.chars, tot⟩) ∧ tot.toNat = str.chars.length := by
  have hrun := loop_verbatim h (At.start str) (m := str.chars.length + 33)
    (n := str.chars.length + 1) (by omega) (by omega) args ⟨[], 0⟩
  refine ⟨(Sink.puts ⟨[], 0⟩ str.chars).tot, hrun, ?_⟩
  have htot : (Sink.puts ⟨[], 0⟩ str.chars).tot = BitVec.ofNat 32 str.chars.length :=
    BitVec.zero_add _
  rw [htot, BitVec.toNat_ofNat]
  exact Nat.mod_eq_of_lt str.fits

/-- The string `a%-05.*k%`. -/
def unknown : CString := ⟨['a', '%', '-', '0', '5', '.', '*', 'k', '%'], by simp, by decide⟩

theorem vfprintf_verbatim_unknown : ∃ tot,
    vfprintf unknown [] = .ok ([], ⟨unknown.chars, tot⟩) ∧ tot.toNat = unknown.chars.length :=
  vfprintf_verbatim unknown
    (by unfold Unrecognised; decide) []

end Checked
end OsPlayground.Stdlib
