/-
  File:      OsPlayground/Startup/Report.lean
  Subject:   READING THE LOG OF A BOOT: what the other end of the serial line can tell of the kernel
             from the text `kernel_early_main` has printed.

  * `readReport` -- a reader of the log, which does not know how many lines the map takes;
  * `readWords_dump`, `readEntries_lines`, `scan_reserved` -- one lemma a part of the log;
  * **`boot_report`** -- the log of every boot reads back to the tables, the map, the bitmap and
    the addresses of the heap that the kernel came up with.
-/
import OsPlayground.Startup.Boots

namespace OsPlayground.Startup

open Halting Paging Heap Stdlib VirtMem PhysMem
open Stdlib.Checked (vaStart)

/-! ## 1. The reader -/

/-- What a log says. -/
structure Report where
  pageDir : List Int
  pageTable : List Int
  mmap : List (List Int)
  memBitmap : List Int
  heap : List Int

/-- What follows a text. -/
def skip (text cs : List Char) : Option (List Char) :=
  if text.isPrefixOf cs then some (cs.drop text.length) else none

/-- The words of a dump. -/
def readWords : Nat → List Char → Option (List Int × List Char)
  | 0, cs => some ([], cs)
  | n + 1, cs => (scan wordPieces cs).bind fun r =>
      (readWords n r.2).map fun rs => (r.1 ++ rs.1, rs.2)

/-- The lines of the map, up to the first text that is none. -/
def readEntries : Nat → List Char → List (List Int) × List Char
  | 0, cs => ([], cs)
  | n + 1, cs =>
    match scan mmapPieces cs with
    | none => ([], cs)
    | some (entry, cs) => (entry :: (readEntries n cs).1, (readEntries n cs).2)

theorem plain_heap : ("heap".toList ++ " reserved at v ".toList).all plain = true := rfl

theorem plain_slab8 : ("slab8".toList ++ " reserved at v ".toList).all plain = true := rfl

theorem plain_slab16 : ("slab16".toList ++ " reserved at v ".toList).all plain = true := rfl

theorem plain_slab32 : ("slab32".toList ++ " reserved at v ".toList).all plain = true := rfl

/-- The four lines on the heap. -/
def readHeap (cs : List Char) : Option (List Int × List Char) :=
  (scan (reservedPieces "heap".toList plain_heap) cs).bind fun heap =>
  (scan (reservedPieces "slab8".toList plain_slab8) heap.2).bind fun slab8 =>
  (scan (reservedPieces "slab16".toList plain_slab16) slab8.2).bind fun slab16 =>
  (scan (reservedPieces "slab32".toList plain_slab32) slab16.2).map fun slab32 =>
    (heap.1 ++ slab8.1 ++ slab16.1 ++ slab32.1, slab32.2)

/-- The dumps of the directory and of its first table. -/
def readTables (cs : List Char) : Option ((List Int × List Int) × List Char) :=
  (skip "begin kernel_early_main\n".toList cs).bind fun cs =>
  (skip "init page dir:\n".toList cs).bind fun cs =>
  (readWords 1024 cs).bind fun dir =>
  (skip "\n".toList dir.2).bind fun cs =>
  (skip "init page table:\n".toList cs).bind fun cs =>
  (readWords 1024 cs).bind fun table =>
  (skip "\n".toList table.2).map fun cs => ((dir.1, table.1), cs)

/-- The map and the bitmap. -/
def readMemory (cs : List Char) : Option ((List (List Int) × List Int) × List Char) :=
  (skip "phys mem bitmap:\n".toList (readEntries cs.length cs).2).bind fun cs' =>
  (readWords 256 cs').bind fun bitmap =>
  (skip "...\n".toList bitmap.2).map fun cs'' =>
    (((readEntries cs.length cs).1, bitmap.1), cs'')

/-- The end of the log. -/
def readBuild (cs : List Char) : Option (List Int × List Char) :=
  (skip "init page dir...\n".toList cs).bind fun cs =>
  (skip "done\n".toList cs).bind fun cs =>
  (skip "init heap pages...\n".toList cs).bind fun cs =>
  (readHeap cs).bind fun heap =>
  (skip "done\n".toList heap.2).bind fun cs =>
  (skip "end kernel_early_main\n".toList cs).map fun cs => (heap.1, cs)

/-- The log of a boot. -/
def readReport (cs : List Char) : Option (Report × List Char) :=
  (readTables cs).bind fun tables =>
  (readMemory tables.2).bind fun memory =>
  (readBuild memory.2).map fun heap =>
    (⟨tables.1.1, tables.1.2, memory.1.1, memory.1.2, heap.1⟩, heap.2)

/-! ## 2. The parts of the log -/

variable {I : KernelImage} {K : LoadedImage} {m₀ m : Ram} {info fuel : Nat}
  {es : List MmapEntry} {u : PhysMemAllocator} {s : Managers} {rest : List Char}

/-- The number a word is read as. -/
def word (w : BitVec 32) : Int := w.toNat

theorem skip_append (text rest : List Char) : skip text (text ++ rest) = some rest := by
  unfold skip
  rw [if_pos (List.isPrefixOf_iff_prefix.mpr (List.prefix_append text rest)), List.drop_left]

/-- **A dump reads back.** -/
theorem readWords_dump (ws : List (BitVec 32)) (rest : List Char) :
    readWords ws.length (dumpText ws ++ rest) = some (ws.map word, rest) := by
  induction ws with
  | nil => rfl
  | cons w ws ih =>
      have hvalue : argValues wordPieces (vaStart [w]) = [word w] := rfl
      have hscan := scan_output wordPieces rfl (vaStart [w]) (dumpText ws ++ rest)
      rw [hvalue] at hscan
      have htext : dumpText (w :: ws) ++ rest = output wordPieces (vaStart [w]) ++
          (dumpText ws ++ rest) := by
        rw [← List.append_assoc]
        rfl
      rw [htext, List.length_cons, readWords, hscan, Option.bind_some]
      dsimp only
      rw [ih]
      rfl

/-- The numbers of a line of the map. -/
def entryWords (entry : MmapEntry) : List Int := (mmapArgs entry).map word

theorem scan_entry (entry : MmapEntry) (rest : List Char) :
    scan mmapPieces (entryText entry ++ rest) = some (entryWords entry, rest) := by
  have hvalue : argValues mmapPieces (vaStart (mmapArgs entry)) = entryWords entry := rfl
  rw [← hvalue]
  exact scan_output mmapPieces rfl _ rest

theorem entryText_pos (entry : MmapEntry) : 0 < (entryText entry).length := by
  have hhead : ∃ cs, entryText entry = 'm' :: cs := ⟨_, rfl⟩
  obtain ⟨cs, hcs⟩ := hhead
  rw [hcs, List.length_cons]
  exact Nat.succ_pos _

/-- There are no more lines than characters. -/
theorem lines_le (es : List MmapEntry) : es.length ≤ (es.flatMap entryText).length := by
  induction es with
  | nil => exact Nat.le_refl 0
  | cons entry es ih =>
      have hpos := entryText_pos entry
      rw [List.flatMap_cons, List.length_append, List.length_cons]
      omega

/-- **The lines of the map read back**, where what follows is no line. -/
theorem readEntries_lines (hrest : scan mmapPieces rest = none) {n : Nat} (hn : es.length ≤ n) :
    readEntries n (es.flatMap entryText ++ rest) = (es.map entryWords, rest) := by
  induction es generalizing n with
  | nil =>
      cases n with
      | zero => rfl
      | succ n =>
          rw [List.flatMap_nil, List.nil_append, readEntries, hrest]
          rfl
  | cons entry es ih =>
      rw [List.length_cons] at hn
      obtain ⟨n, rfl⟩ := Nat.exists_eq_add_of_le' (Nat.le_trans (Nat.le_add_left 1 _) hn)
      rw [List.flatMap_cons, List.append_assoc, readEntries, scan_entry]
      dsimp only
      rw [ih (by omega)]
      rfl

/-- The line behind the map is no line of the map. -/
theorem scan_bitmap (rest : List Char) :
    scan mmapPieces ("phys mem bitmap:\n".toList ++ rest) = none := rfl

/-- **A line on the heap reads back.** -/
theorem scan_reserved {name : List Char} {h : (name ++ " reserved at v ".toList).all plain = true}
    (va : Nat) (rest : List Char) : scan (reservedPieces name h) (reservedText name h va ++ rest) =
      some ([word (BitVec.ofNat 32 va)], rest) := by
  have hvalue : argValues (reservedPieces name h) (vaStart [BitVec.ofNat 32 va]) =
      [word (BitVec.ofNat 32 va)] := by
    unfold reservedPieces
    rw [argValues_lits]
    rfl
  have hseparated : separated (reservedPieces name h) = true := by
    unfold reservedPieces
    rw [separated_lits]
    rfl
  rw [← hvalue]
  exact scan_output _ hseparated _ rest

/-! ## 3. The whole log -/

/-- The words `f 0`, `f 1`, ... -/
def wordsOf (n : Nat) (f : Nat → Nat) : List Int :=
  (List.range n).map fun i => word (BitVec.ofNat 32 (f i))

/-- **A loop of words reads back.** -/
theorem readWords_of (n : Nat) (f : Nat → Nat) (rest : List Char) :
    readWords n (dumpText ((List.range n).map fun i => BitVec.ofNat 32 (f i)) ++ rest) =
      some (wordsOf n f, rest) := by
  have h := readWords_dump ((List.range n).map fun i => BitVec.ofNat 32 (f i)) rest
  rw [List.length_map, List.length_range, List.map_map] at h
  exact h

theorem readTables_text (rest : List Char) : readTables (tablesText I m ++ rest) =
    some ((wordsOf 1024 (I.dirAt m), wordsOf 1024 (I.entryAt m 0)), rest) := by
  unfold readTables tablesText
  simp only [List.append_assoc, skip_append, Option.bind_some, readWords_of, Option.map_some]

theorem readMemory_text (rest : List Char) : readMemory (memoryText es u.memBitmap ++ rest) =
    some ((es.map entryWords, wordsOf 256 fun i => readLE u.memBitmap (4 * i) 4), rest) := by
  have hle : es.length ≤ (es.flatMap entryText ++ ("phys mem bitmap:\n".toList ++
      (dumpText (bitmapWords u.memBitmap) ++ ("...\n".toList ++ rest)))).length := by
    rw [List.length_append]
    exact Nat.le_trans (lines_le es) (Nat.le_add_right _ _)
  have hlines := readEntries_lines
    (scan_bitmap (dumpText (bitmapWords u.memBitmap) ++ ("...\n".toList ++ rest))) hle
  unfold readMemory memoryText
  simp only [List.append_assoc]
  rw [hlines]
  dsimp only
  rw [skip_append, Option.bind_some]
  unfold bitmapWords
  rw [readWords_of, Option.bind_some]
  dsimp only
  rw [skip_append]
  rfl

/-- The addresses of the heap. -/
def heapWords (s : Managers) : List Int :=
  [s.heap, s.slab8, s.slab16, s.slab32].map fun va => word (BitVec.ofNat 32 va)

theorem readBuild_text (rest : List Char) :
    readBuild (buildText s ++ rest) = some (heapWords s, rest) := by
  unfold readBuild buildText readHeap heapText
  simp only [List.append_assoc, skip_append, Option.bind_some, scan_reserved, Option.map_some]
  rfl

/-- What the kernel came up with. -/
def reportOf (I : KernelImage) (m : Ram) (es : List MmapEntry) (u : PhysMemAllocator)
    (s : Managers) : Report where
  pageDir := wordsOf 1024 (I.dirAt m)
  pageTable := wordsOf 1024 (I.entryAt m 0)
  mmap := es.map entryWords
  memBitmap := wordsOf 256 fun i => readLE u.memBitmap (4 * i) 4
  heap := heapWords s

/-- **The log reads back**, whatever is printed next. -/
theorem readReport_bootText (rest : List Char) :
    readReport (bootText I m es u s ++ rest) = some (reportOf I m es u s, rest) := by
  unfold readReport bootText
  rw [List.append_assoc, List.append_assoc, readTables_text, Option.bind_some]
  dsimp only
  rw [readMemory_text, Option.bind_some]
  dsimp only
  rw [readBuild_text]
  rfl

/-- **The log of a boot tells what the kernel came up with.** From every memory a boot loader can
    leave the kernel comes up, and the text it has printed, with anything printed after it, reads
    back to the page directory and the table it runs on, to the boot loader's map, to the bitmap
    made of it and to the addresses of the heap. -/
theorem boot_report (I : KernelImage) (K : LoadedImage) (m₀ : Ram) (info fuel : Nat)
    (es : List MmapEntry) (s : Managers) (hl : Loaded I K m₀ info es)
    (hroom : Room es K s.phys.lastAlloc) (hhint : HintOk s.phys) (hf : 0x100001 < fuel) :
    ∃ m u s' log, start I fuel K.toKernelExtent info m₀ s = some (⟨s', log⟩, some 0) ∧
      Up I K es s m u s' ∧
        ∀ rest, readReport (log ++ rest) = some (reportOf I m es u s', rest) := by
  obtain ⟨m, u, s', _, hstart, hup, _⟩ := start_reaches hl hroom hhint hf
  exact ⟨m, u, s', _, hstart, hup, fun rest => readReport_bootText rest⟩

/-- The log of that boot. -/
theorem boot_report_loaderRam : ∃ m u s' log,
    start realImage 0x100002 loadedImage.toKernelExtent 0x9000 loaderRam
        ⟨bootVm realImage loaderRam, tablesBitmap, fun _ => 0, 0, 0, 0, 0⟩ =
      some (⟨s', log⟩, some 0) ∧
    Up realImage loadedImage [loaderEntry]
      ⟨bootVm realImage loaderRam, tablesBitmap, fun _ => 0, 0, 0, 0, 0⟩ m u s' ∧
    ∀ rest, readReport (log ++ rest) = some (reportOf realImage m [loaderEntry] u s', rest) :=
  boot_report realImage loadedImage loaderRam 0x9000 0x100002 [loaderEntry] _ loaded_loaderRam
    room_loaderRam (hintOk_iff.mpr (by decide)) (by decide)

end OsPlayground.Startup
