/-
  File:      OsPlayground/Boot/Keys.lean
  Subject:   THE BOOT LOADER AND ITS KEY HANDLER (baby_boot.s): the splash, then a line for every
             key pressed.

  * `keyhandler_press`, `keyhandler_release` -- one interrupt;
  * `prints_boot` -- where every print of a run lands: the splash in rows 0 and 1, press `n` in
    row `(2 + n) % 256`;
  * `staysOnScreen_iff` -- the rows end with the 23rd press;
  * `prints_apart_iff` -- two prints in a row are apart, but for the second splash text, which is
    longer than its row, and the first key's line;
  * `textStays_iff` -- so the text stays exactly where no key is pressed.
-/
import Mathlib
import OsPlayground.Boot.Print

namespace OsPlayground.Boot

open Logged

/-! ## 1. The loader -/

/-- `splash_attrib`: light red on black. -/
def splashAttrib : BitVec 8 := 0x0c#8

/-- `splash`. -/
def splash : List (BitVec 8) := ascii
  ['W', 'e', 'l', 'c', 'o', 'm', 'e', ' ', 't', 'o', ' ', 't', 'h', 'e', ' ', 'b', 'a', 'b', 'y',
    ' ', 'b', 'o', 'o', 't', 'l', 'o', 'a', 'd', 'e', 'r', '!']

/-- `splash2`: 85 characters, and a row has 80. -/
def splash2 : List (BitVec 8) := ascii
  ['P', 'r', 'e', 's', 's', ' ', 'k', 'e', 'y', 's', ' ', 't', 'o', ' ', 't', 'e', 's', 't', ' ',
    't', 'h', 'e', ' ', 'k', 'e', 'y', 'h', 'a', 'n', 'd', 'l', 'e', 'r', '.', ' ', 'U', 's', 'e',
    ' ', 'a', 'l', 't', '-', '2', ' ', 't', 'o', ' ', 'a', 'c', 'c', 'e', 's', 's', ' ', 't', 'h',
    'e', ' ', 'Q', 'E', 'M', 'U', ' ', 'm', 'o', 'n', 'i', 't', 'o', 'r', ' ', 'a', 'n', 'd', ' ',
    's', 'h', 'u', 't', 'd', 'o', 'w', 'n', '.']

/-- What the loader does after the screen is cleared: a byte to a port, or a call of `sprint`
    with the words it stored. -/
inductive Event where
  | out (port : Nat) (val : BitVec 8)
  | sprint (stores : List Store)

/-- A call of `sprint` as one event. -/
def called (r : Answer) : Machine × List Event := (r.1, [.sprint r.2])

/-- The variables as the image has them, over any contents of the video segment. -/
def image (video : BitVec 16 → BitVec 8) : Machine where
  xpos := 0#8
  ypos := 0#8
  attrib := 0x07#8
  reg16 := 0#16
  outstr16val := ascii ['X', 'X', 'X', 'X']
  port60 := 0#8
  video := video

/-- `_start` up to the splash: the screen is cleared and the splash's attribute set. -/
def cleared (video : BitVec 16 → BitVec 8) : Machine :=
  { (videoClear (image video)).1 with attrib := splashAttrib }

/-- `_start` up to `bind_keyhandler`: the two splash texts are printed. -/
def start (video : BitVec 16 → BitVec 8) : Machine × List Event :=
  andThen (called (sprint (cleared video) (asciz splash).1 (asciz splash).2)) fun m =>
    called (sprint m (asciz splash2).1 (asciz splash2).2)

/-- What an interrupt of the keyboard reads from ports 0x60 and 0x61. -/
structure Key where
  scan : BitVec 8
  port61 : BitVec 8

/-- `keyhandler`: the high bit of port 0x61 is pulsed, the interrupt finished, and the scan code
    of a press printed. -/
def keyhandler (m : Machine) (k : Key) : Machine × List Event :=
  let bl := k.scan
  let m := { m with port60 := k.scan }
  let outs := [.out 0x61 (k.port61 ||| 0x80#8), .out 0x61 k.port61, .out 0x20 0x20#8]
  if bl &&& 0x80#8 ≠ 0#8 then (m, outs)
  else
    let m := { m with reg16 := m.port60.setWidth 16 }
    andThen (m, outs) fun m => called (printreg16 m)

/-- A run: the loader starts, then the interrupts come, each after the one before has ended. -/
def boot (video : BitVec 16 → BitVec 8) (keys : List Key) : Machine × List Event :=
  andThen (start video) fun m => each keyhandler m keys

/-! ## 2. What should hold of a run -/

/-- The words of each call of `sprint`, in order. -/
def prints (evs : List Event) : List (List Store) :=
  evs.filterMap fun
    | .sprint stores => some stores
    | .out _ _ => none

/-- The bytes of a screen of 80 columns and 25 rows. -/
def screenBytes : Nat := 80 * 25 * 2

/-- **Every word stored is on the screen.** -/
def StaysOnScreen (evs : List Event) : Prop :=
  ∀ stores ∈ prints evs, touched stores ⊆ Set.Iio screenBytes

/-- **No print writes over the one just before it.** -/
def KeepsLast (evs : List Event) : Prop :=
  (prints evs).IsChain fun a b => Disjoint (touched a) (touched b)

/-- **The text output stays on the screen**, and no line destroys the one before. -/
def TextStays (evs : List Event) : Prop := StaysOnScreen evs ∧ KeepsLast evs

/-- The scan code is that of a press. -/
def Pressed (k : Key) : Prop := k.scan &&& 0x80#8 = 0#8

instance (k : Key) : Decidable (Pressed k) := inferInstanceAs (Decidable (_ = _))

/-- The presses of a run. -/
def presses (keys : List Key) : Nat := keys.countP (Pressed ·)

/-! ## 3. Where the prints land -/

theorem prints_append (evs evs' : List Event) : prints (evs ++ evs') = prints evs ++ prints evs' :=
  List.filterMap_append

theorem prints_andThen (r : Machine × List Event) (f : Machine → Machine × List Event) :
    prints (andThen r f).2 = prints r.2 ++ prints (f r.1).2 := prints_append _ _

@[simp] theorem called_fst (r : Answer) : (called r).1 = r.1 := rfl

@[simp] theorem prints_called (r : Answer) : prints (called r).2 = [r.2] := rfl

/-- A release prints nothing and moves nothing. -/
theorem keyhandler_release (m : Machine) {k : Key} (hk : ¬ Pressed k) :
    prints (keyhandler m k).2 = [] ∧ (keyhandler m k).1.xpos = m.xpos ∧
      (keyhandler m k).1.ypos = m.ypos := by
  unfold keyhandler
  dsimp only
  rw [if_pos (show k.scan &&& 0x80#8 ≠ 0#8 from hk)]
  exact ⟨rfl, rfl, rfl⟩

/-- A press prints the register loaded with its scan code. -/
theorem keyhandler_pressed (m : Machine) {k : Key} (hk : Pressed k) :
    ∃ outs, prints outs = [] ∧ keyhandler m k =
      andThen (({ m with port60 := k.scan, reg16 := k.scan.setWidth 16 } : Machine), outs)
        fun m => called (printreg16 m) := by
  refine ⟨[.out 0x61 (k.port61 ||| 0x80#8), .out 0x61 k.port61, .out 0x20 0x20#8], rfl, ?_⟩
  unfold keyhandler
  dsimp only
  rw [if_neg (show ¬ k.scan &&& 0x80#8 ≠ 0#8 from not_not.mpr hk)]

/-- **A press** prints one line of 14 characters and moves to the next row. -/
theorem keyhandler_press {m : Machine} (hx : m.xpos = 0#8) {k : Key} (hk : Pressed k) :
    (prints (keyhandler m k).2).map touched = [line m.ypos.toNat 14] ∧
      (keyhandler m k).1.xpos = 0#8 ∧ (keyhandler m k).1.ypos = m.ypos + 1#8 := by
  obtain ⟨outs, hnone, hkey⟩ := keyhandler_pressed m hk
  obtain ⟨hstores, hy, hx'⟩ := printreg16_line
    (m := { m with port60 := k.scan, reg16 := k.scan.setWidth 16 }) hx
  rw [hkey, prints_andThen, hnone, prints_called, andThen_fst, called_fst, List.nil_append,
    List.map_singleton, hstores]
  exact ⟨rfl, hx', hy⟩

/-- The rows of the next lines, from row `r` on. -/
def keyLines (r n : Nat) : List (Set Nat) :=
  (List.range n).map fun i => line ((r + i) % 256) 14

theorem keyLines_succ (r n : Nat) :
    keyLines r (n + 1) = line (r % 256) 14 :: keyLines (r + 1) n := by
  unfold keyLines
  rw [List.range_succ_eq_map, List.map_cons, List.map_map]
  refine congrArg₂ List.cons rfl (List.map_congr_left fun i _ => ?_)
  show line ((r + (i + 1)) % 256) 14 = line ((r + 1 + i) % 256) 14
  rw [Nat.add_assoc r 1 i, Nat.add_comm 1 i]

/-- **The lines of a run of keys**, one row after another, the row counted in a byte. -/
theorem prints_keys (keys : List Key) {m : Machine} {r : Nat} (hx : m.xpos = 0#8)
    (hy : m.ypos = BitVec.ofNat 8 r) :
    (prints (each keyhandler m keys).2).map touched = keyLines r (presses keys) := by
  induction keys generalizing m r with
  | nil => rfl
  | cons k keys ih =>
      rw [each_cons, prints_andThen, List.map_append]
      by_cases hk : Pressed k
      · obtain ⟨hline, hx', hy'⟩ := keyhandler_press hx hk
        have hnext : (keyhandler m k).1.ypos = BitVec.ofNat 8 (r + 1) := by
          rw [hy', hy, BitVec.ofNat_add]
        have hcount : presses (k :: keys) = presses keys + 1 :=
          List.countP_cons_of_pos (decide_eq_true hk)
        rw [hline, ih hx' hnext, hcount, keyLines_succ, hy, BitVec.toNat_ofNat]
        rfl
      · obtain ⟨hnone, hx', hy'⟩ := keyhandler_release m hk
        have hcount : presses (k :: keys) = presses keys :=
          List.countP_cons_of_neg (by simpa using hk)
        rw [hnone, ih (hx'.trans hx) (hy'.trans hy), hcount]
        rfl

/-- Clearing the screen stores to the video segment only. -/
theorem videoClear_pos (m : Machine) :
    (videoClear m).1.xpos = m.xpos ∧ (videoClear m).1.ypos = m.ypos := by
  unfold videoClear
  generalize List.range 0x800 = is
  induction is generalizing m with
  | nil => exact ⟨rfl, rfl⟩
  | cons i is ih => exact ih (stosw m (BitVec.ofNat 16 (2 * i)) 0#16).1

theorem cleared_pos (video : BitVec 16 → BitVec 8) :
    (cleared video).xpos = 0#8 ∧ (cleared video).ypos = 0#8 := by
  obtain ⟨hx, hy⟩ := videoClear_pos (image video)
  unfold cleared
  dsimp only
  rw [hx, hy]
  exact ⟨rfl, rfl⟩

/-- A text is free of NUL where a pass over it says so. -/
theorem ne_nul_of_all {text : List (BitVec 8)} (h : text.all (fun c => c != 0#8) = true) :
    ∀ c ∈ text, c ≠ 0#8 := by
  intro c hc
  simpa using List.all_eq_true.mp h c hc

theorem splash_ne_nul : (∀ c ∈ splash, c ≠ 0#8) ∧ ∀ c ∈ splash2, c ≠ 0#8 :=
  ⟨ne_nul_of_all rfl, ne_nul_of_all rfl⟩

/-- Two texts one after the other, from column 0. -/
theorem prints_two {a b : List (BitVec 8)} (ha : ∀ c ∈ a, c ≠ 0#8) (hb : ∀ c ∈ b, c ≠ 0#8)
    (hla : a.length < 256) (hlb : b.length < 256) {m : Machine} (hx : m.xpos = 0#8)
    {r : Machine × List Event}
    (hr : r = andThen (called (sprint m (asciz a).1 (asciz a).2)) fun m =>
      called (sprint m (asciz b).1 (asciz b).2)) :
    (prints r.2).map touched =
        [line m.ypos.toNat a.length, line (m.ypos + 1#8).toNat b.length] ∧
      r.1.xpos = 0#8 ∧ r.1.ypos = m.ypos + 1#8 + 1#8 := by
  obtain ⟨hfirst, hy1, hx1, _⟩ := sprint_line ha hla hx
  obtain ⟨hsecond, hy2, hx2, _⟩ := sprint_line hb hlb hx1
  rw [hr, prints_andThen, andThen_fst, called_fst, prints_called, prints_called, called_fst,
    List.map_append, List.map_singleton, List.map_singleton, hfirst, hsecond, hy2, hy1]
  exact ⟨rfl, hx2, rfl⟩

/-- **The splash** is in rows 0 and 1, over the end of row 1. -/
theorem prints_start (video : BitVec 16 → BitVec 8) :
    (prints (start video).2).map touched = [line 0 31, line 1 85] ∧
      (start video).1.xpos = 0#8 ∧ (start video).1.ypos = BitVec.ofNat 8 2 := by
  obtain ⟨hx, hy⟩ := cleared_pos video
  have hlen : splash.length = 31 ∧ splash2.length = 85 := ⟨rfl, rfl⟩
  obtain ⟨hlines, hx', hy'⟩ := prints_two splash_ne_nul.1 splash_ne_nul.2
    (by omega) (by omega) (m := cleared video) hx (r := start video) (by rw [start])
  rw [hy, hlen.1, hlen.2] at hlines
  rw [hy] at hy'
  exact ⟨hlines, hx', hy'⟩

/-- **Where every print of a run lands.** -/
theorem prints_boot (video : BitVec 16 → BitVec 8) (keys : List Key) :
    (prints (boot video keys).2).map touched =
      line 0 31 :: line 1 85 :: keyLines 2 (presses keys) := by
  obtain ⟨hsplash, hx, hy⟩ := prints_start video
  unfold boot
  rw [prints_andThen, List.map_append, hsplash, prints_keys keys hx hy]
  rfl

/-! ## 4. Which runs stay -/

/-- The length of print `i`: the two splash texts, then lines of the register. -/
def printLen : Nat → Nat
  | 0 => 31
  | 1 => 85
  | _ => 14

theorem printLen_key {i : Nat} (h : 2 ≤ i) : printLen i = 14 := by
  unfold printLen
  split
  · omega
  · omega
  · rfl

theorem printLen_le (i : Nat) : printLen i ≤ 85 := by
  unfold printLen
  split
  · decide
  · decide
  · decide

/-- The lines of a run by number. -/
theorem lines_getElem (n i : Nat) :
    (line 0 31 :: line 1 85 :: keyLines 2 n)[i]? =
      if i < n + 2 then some (line (i % 256) (printLen i)) else none := by
  cases i with
  | zero => rw [if_pos (Nat.zero_lt_succ _), List.getElem?_cons_zero, Nat.zero_mod, printLen]
  | succ i =>
      cases i with
      | zero => rw [if_pos (by omega), List.getElem?_cons_succ, List.getElem?_cons_zero, printLen]
      | succ i =>
          rw [List.getElem?_cons_succ, List.getElem?_cons_succ, printLen_key (by omega)]
          unfold keyLines
          rw [List.getElem?_map]
          by_cases hi : i < n
          · rw [if_pos (by omega), List.getElem?_range hi, Option.map_some, Nat.add_comm 2 i]
          · rw [if_neg (by omega), List.getElem?_eq_none (by rw [List.length_range]; omega),
              Option.map_none]

section Run

variable (video : BitVec 16 → BitVec 8) (keys : List Key)

theorem prints_length : (prints (boot video keys).2).length = presses keys + 2 := by
  have h := congrArg List.length (prints_boot video keys)
  simpa [keyLines] using h

/-- **Print `i` of a run** lies in row `i`, counted in a byte. -/
theorem touched_print {i : Nat} (hi : i < (prints (boot video keys).2).length) :
    touched (prints (boot video keys).2)[i] = line (i % 256) (printLen i) := by
  have h := lines_getElem (presses keys) i
  rw [← prints_boot video keys, ← prints_length video keys, if_pos hi, List.getElem?_map,
    List.getElem?_eq_getElem hi, Option.map_some] at h
  exact Option.some.inj h

/-- **The rows of the screen last for 23 presses.** -/
theorem staysOnScreen_iff : StaysOnScreen (boot video keys).2 ↔ presses keys ≤ 23 := by
  have hlen := prints_length video keys
  constructor
  · intro h
    by_contra hmore
    -- the 24th line is in row 25, past the last one
    have hi : 25 < (prints (boot video keys).2).length := by omega
    have hmem : screenBytes ∈ touched (prints (boot video keys).2)[25] := by
      rw [touched_print video keys hi, printLen_key (by decide)]
      unfold line screenBytes
      rw [Set.mem_Ico]
      decide
    exact absurd (h _ (List.getElem_mem hi) hmem) (lt_irrefl screenBytes)
  · intro h stores hmem
    obtain ⟨i, hi, rfl⟩ := List.mem_iff_getElem.mp hmem
    rw [touched_print video keys hi]
    have hle := printLen_le i
    have hkey : 2 ≤ i → printLen i = 14 := printLen_key
    intro b hb
    unfold line at hb
    rw [Set.mem_Ico] at hb
    rw [Set.mem_Iio]
    unfold screenBytes
    omega

/-- **Two prints in a row are apart**, but for the second splash text and the first key's line. -/
theorem prints_apart_iff {i : Nat} (hi : i + 1 < (prints (boot video keys).2).length) :
    Disjoint (touched (prints (boot video keys).2)[i])
      (touched (prints (boot video keys).2)[i + 1]) ↔ i ≠ 1 := by
  rw [touched_print video keys hi, touched_print video keys (Nat.lt_of_succ_lt hi)]
  clear hi
  unfold line
  rw [Set.Ico_disjoint_Ico]
  rcases Nat.lt_or_ge i 2 with hsplash | hkey
  · obtain rfl | rfl : i = 0 ∨ i = 1 := by omega
    · decide
    · decide
  · -- the rows differ, round the byte too
    rw [printLen_key hkey, printLen_key (Nat.le_succ_of_le hkey)]
    omega

theorem keepsLast_iff : KeepsLast (boot video keys).2 ↔ presses keys = 0 := by
  have hlen := prints_length video keys
  unfold KeepsLast
  rw [List.isChain_iff_getElem]
  constructor
  · intro h
    by_contra hmore
    exact (prints_apart_iff video keys (by omega)).mp (h 1 (by omega)) rfl
  · intro h i hi
    exact (prints_apart_iff video keys hi).mpr (by omega)

/-- **The text output stays exactly where no key is pressed.** The words are on the screen as long
    as there are at most 23 presses, and the only prints in a row that are not apart are the second
    splash text, whose end lies in the next row, and the first key's line. -/
theorem textStays_iff :
    (TextStays (boot video keys).2 ↔ ∀ k ∈ keys, ¬ Pressed k) ∧
      (StaysOnScreen (boot video keys).2 ↔ presses keys ≤ 23) ∧
      ∀ i (hi : i + 1 < (prints (boot video keys).2).length),
        Disjoint (touched (prints (boot video keys).2)[i])
          (touched (prints (boot video keys).2)[i + 1]) ↔ i ≠ 1 := by
  refine ⟨?_, staysOnScreen_iff video keys, fun i hi => prints_apart_iff video keys hi⟩
  have hnone : presses keys = 0 ↔ ∀ k ∈ keys, ¬ Pressed k := by
    unfold presses
    rw [List.countP_eq_zero]
    simp only [decide_eq_true_eq]
  unfold TextStays
  rw [staysOnScreen_iff, keepsLast_iff, hnone]
  refine and_iff_right_of_imp fun h => ?_
  rw [hnone.mpr h]
  exact Nat.zero_le 23

end Run

/-- A key pressed 24 times: the lines leave the screen, and the first of them is over the end of
    the splash. -/
theorem not_textStays_presses :
    ¬ StaysOnScreen (boot (fun _ => 0#8) (List.replicate 24 ⟨0x1e#8, 0#8⟩)).2 ∧
      ¬ KeepsLast (boot (fun _ => 0#8) (List.replicate 24 ⟨0x1e#8, 0#8⟩)).2 := by
  have hcount : presses (List.replicate 24 ⟨0x1e#8, 0#8⟩) = 24 := by decide
  rw [staysOnScreen_iff, keepsLast_iff, hcount]
  decide

end OsPlayground.Boot
