/-
  File:      OsPlayground/Startup/Log.lean
  Subject:   PRINTING TO THE SERIAL PORT (debug_serial.cpp, `serial_printf`), for the code that
             runs before the kernel is up: what has been passed to `serial_putc` is kept as a text
             beside the memory managers.

  * `serialPrintf_output` -- a call prints the pieces of its format string;
  * `dumpWords_eq` -- a loop of `serial_printf("%08x ", ...)` prints the words read.
-/
import OsPlayground.Stdlib.Scan
import OsPlayground.Stdlib.Checked
import OsPlayground.Heap.Pages

namespace OsPlayground.Startup

open Halting Paging Heap Stdlib
open Stdlib.Checked (vaStart)

/-- The memory managers, and the characters passed to `serial_putc` so far. -/
structure Early where
  mgr : Managers
  log : List Char

/-- `serial_printf`. -/
def serialPrintf (fmt : List Char) (args : List (BitVec 32)) (e : Early) : Early × Option Unit :=
  match Stdlib.vfprintf fmt (vaStart args) with
  | none => (e, none)
  | some (text, _) => ({ e with log := e.log ++ text }, some ())

/-- `serial_printf` of a text. -/
def say (text : List Char) (e : Early) : Early × Option Unit := serialPrintf text [] e

/-- An operation of the memory managers. -/
def onMgr {α : Type} (op : Managers → Managers × Option α) (e : Early) : Early × Option α :=
  let r := op e.mgr
  ({ e with mgr := r.1 }, r.2)

/-- The word at virtual address `va`. -/
def loadVirt (va : Nat) (e : Early) : Early × Option Nat := (e, load e.mgr.vm.ram e.mgr.vm.cr3 va)

/-- `for (int i = 0; i < n; ++i) serial_printf("%08x ", ...)`. -/
def dumpWords (read : Nat → Early → Early × Option Nat) (n : Nat) : Early → Early × Option Unit :=
  upTo (fun i e => andThen (read i e) fun e w =>
    serialPrintf "%08x ".toList [BitVec.ofNat 32 w] e) n

/-! ## What is printed -/

/-- `%08x`. -/
def hex8 : Piece := .directive [.zero] (some eightWide) .x

/-- The end of a line. -/
def newline : List Piece := lits "\n".toList rfl

/-- The pieces of `"%08x "`. -/
def wordPieces : List Piece := hex8 :: lits " ".toList rfl

/-- A word of a dump. -/
def wordText (w : BitVec 32) : List Char := output wordPieces (vaStart [w])

/-- A dump. -/
def dumpText (ws : List (BitVec 32)) : List Char := ws.flatMap wordText

/-- More characters printed. -/
def Early.logged (text : List Char) (e : Early) : Early := { e with log := e.log ++ text }

@[simp] theorem Early.logged_mgr (text : List Char) (e : Early) : (e.logged text).mgr = e.mgr := rfl

@[simp] theorem Early.logged_log (text : List Char) (e : Early) :
    (e.logged text).log = e.log ++ text := rfl

theorem Early.logged_logged (text text' : List Char) (e : Early) :
    (e.logged text).logged text' = e.logged (text ++ text') :=
  congrArg (Early.mk e.mgr) (List.append_assoc _ _ _)

variable {e : Early}

/-- An operation of the memory managers prints nothing. -/
theorem onMgr_eq {α : Type} {op : Managers → Managers × Option α} {s : Managers} {a : α}
    (h : op e.mgr = (s, some a)) : onMgr op e = (⟨s, e.log⟩, some a) := by
  unfold onMgr
  rw [h]

/-- **What a call prints.** -/
theorem serialPrintf_output (ps : List Piece) (args : List (BitVec 32)) (e : Early) :
    serialPrintf (ps.flatMap Piece.text) args e =
      (e.logged (output ps (vaStart args)), some ()) := by
  unfold serialPrintf
  rw [vfprintf_output]
  rfl

/-- **A text is printed as it stands.** -/
theorem say_eq (text : List Char) (h : text.all plain = true) (e : Early) :
    say text e = (e.logged text, some ()) := by
  have hprint := serialPrintf_output (lits text h) [] e
  have hout := output_lits text h [] (vaStart [])
  rw [List.append_nil] at hout
  rw [lits_text, hout] at hprint
  exact hprint.trans (by rw [output, List.append_nil])

theorem printWord_eq (w : BitVec 32) (e : Early) :
    serialPrintf "%08x ".toList [w] e = (e.logged (wordText w), some ()) := by
  have hfmt : "%08x ".toList = wordPieces.flatMap Piece.text := by decide
  rw [hfmt]
  exact serialPrintf_output wordPieces [w] e

/-- **A dump**: where every word is read, the words are printed in order. -/
theorem dumpWords_eq {read : Nat → Early → Early × Option Nat} (word : Nat → Nat) {n : Nat}
    (h : ∀ i < n, ∀ text, read i (e.logged text) = (e.logged text, some (word i))) :
    dumpWords read n e =
      (e.logged (dumpText ((List.range n).map fun i => BitVec.ofNat 32 (word i))), some ()) := by
  unfold dumpWords
  induction n with
  | zero => exact congrArg (fun log => (Early.mk e.mgr log, some ())) (List.append_nil _).symm
  | succ n ih =>
      unfold upTo
      rw [ih fun i hi => h i (by omega), andThen_some, h n (by omega), andThen_some, printWord_eq,
        Early.logged_logged]
      unfold dumpText
      rw [List.range_succ, List.map_append, List.flatMap_append]
      refine congrArg (fun text => (e.logged (_ ++ text), some ())) ?_
      exact (List.flatMap_singleton _ _).symm

end OsPlayground.Startup
