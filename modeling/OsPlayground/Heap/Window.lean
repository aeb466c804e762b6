/-
  File:      OsPlayground/Heap/Window.lean
  Subject:   THE HEAP'S MEMORY THROUGH THE PAGE TABLES, by words and by bytes, and `memset`
             (stdlib.cpp) over it.

  The heap's pages are scattered over 32 chunks of physical memory, and the tables that lead to
  them lie in the same memory. `Holds` says that the heap's addresses hold the words of a flat
  memory and that nothing outside the chunks has changed. Every access to the heap keeps it, and
  does to the flat memory what it would do without translation:

  * `Window.walk`, `place_inj` -- the places of the heap's addresses, no two the same;
  * `Window.write` -- a word written to the heap changes no translation;
  * `Holds.load`, `Holds.store`, `Holds.loadByte`, `Holds.storeByteAt` -- the accesses;
  * `Holds.memset` -- a range of bytes set.
-/
import OsPlayground.Heap.Mapping
import OsPlayground.Library.Bytes

namespace OsPlayground.Heap

open Paging Halting VirtMem PhysMem

/-! ## 1. Bytes -/

/-- A load of the byte at virtual address `va`. -/
def loadByte (va : Nat) (vm : Vm) : Answer Nat :=
  andThen (loadWord (Bytes.wordOf va) vm) fun vm w => (vm, some (Bytes.lane w (va % 4)))

/-- A store of a byte to virtual address `va`. -/
def storeByteAt (va b : Nat) (vm : Vm) : Answer Unit :=
  andThen (loadWord (Bytes.wordOf va) vm) fun vm w =>
    storeWord (Bytes.wordOf va) (Bytes.setLane w (va % 4) b) vm

/-- The loop of `memset`. -/
def memsetLoop (byteValue : Nat) : Nat → Nat → Vm → Answer Unit
  | 0, _, vm => (vm, some ())
  | num + 1, bytePtr, vm =>
    andThen (storeByteAt bytePtr byteValue vm) fun vm _ =>
      memsetLoop byteValue num ((bytePtr + 1) % 0x100000000) vm

/-- `memset`. -/
def memset (ptr value num : Nat) (vm : Vm) : Answer Unit := memsetLoop (value % 256) num ptr vm

/-! ## 2. The places of the heap's addresses -/

/-- The physical address of the heap's address `va`. -/
def place (base : Nat) (chunks : Nat → Nat) (va : Nat) : Nat :=
  chunks ((va - base) / 131072) + (va - base) % 131072

/-- An address of the heap. -/
def InHeap (base va : Nat) : Prop := base ≤ va ∧ va < base + 4194304

/-- An address of no chunk. -/
def OffHeap (chunks : Nat → Nat) (a : Nat) : Prop :=
  ∀ i < 32, a < chunks i ∨ chunks i + 131072 ≤ a

/-- **The heap is mapped** at `base` to the chunks, which are apart from each other and from the
    page tables. -/
structure Window (I : KernelImage) (base : Nat) (chunks : Nat → Nat) (vm : Vm) : Prop where
  booted : Booted I vm
  mapped : ∀ k < 1024,
    Paging.walk vm.ram I.pageDir (base + 4096 * k) = some (chunks (k / 32) + 4096 * (k % 32))
  heapBase : HeapBase base
  aligned : ∀ i < 32, chunks i % 131072 = 0
  distinct : ∀ i < 32, ∀ i' < 32, chunks i = chunks i' → i = i'
  outside : ∀ i < 32, ∀ d < 131072, I.Outside (chunks i + d)

variable {I : KernelImage} {base va x w b n : Nat} {chunks : Nat → Nat} {vm : Vm}

theorem HeapBase.bounds (h : HeapBase base) :
    base % 4194304 = 0 ∧ 0 < base ∧ base + 4194304 ≤ 0x100000000 := by
  have hsize : pageBlockSize = 4194304 := by decide
  have hal := h.aligned
  have hle := h.le
  rw [hsize] at hal hle
  exact ⟨hal, h.pos, hle⟩

/-- **Where an address of the heap is.** -/
theorem Window.walk (h : Window I base chunks vm) (hva : InHeap base va) :
    Paging.walk vm.ram vm.cr3 va = some (place base chunks va) := by
  obtain ⟨hal, _, _⟩ := h.heapBase.bounds
  obtain ⟨hlow, hhigh⟩ := hva
  obtain ⟨k, hk⟩ : ∃ k, k = (va - base) / 4096 := ⟨_, rfl⟩
  have hpage : Paging.walk vm.ram I.pageDir (base + 4096 * k + va % 4096) =
      some (chunks (k / 32) + 4096 * (k % 32) + va % 4096) :=
    walk_page (by omega) (by omega) (h.mapped k (by omega))
  have hva' : base + 4096 * k + va % 4096 = va := by omega
  rw [hva'] at hpage
  rw [h.booted.cr3, hpage]
  unfold place
  have hchunk : k / 32 = (va - base) / 131072 := by omega
  rw [hchunk]
  congr 1
  omega

/-- **No two addresses of the heap are at one place.** -/
theorem Window.place_inj (h : Window I base chunks vm) (hva : InHeap base va) (hx : InHeap base x)
    (heq : place base chunks va = place base chunks x) : va = x := by
  obtain ⟨hlow, hhigh⟩ := hva
  obtain ⟨hlow', hhigh'⟩ := hx
  unfold place at heq
  have hi : (va - base) / 131072 < 32 := by omega
  have hi' : (x - base) / 131072 < 32 := by omega
  have h1 := h.aligned _ hi
  have h2 := h.aligned _ hi'
  have hsame := h.distinct _ hi _ hi' (by omega)
  rw [hsame] at heq
  omega

theorem Window.place_outside (h : Window I base chunks vm) (hva : InHeap base va) :
    I.Outside (place base chunks va) := by
  obtain ⟨hlow, hhigh⟩ := hva
  exact h.outside _ (by omega) _ (Nat.mod_lt _ (by decide))

/-- The places of the heap are those of the chunks. -/
theorem OffHeap.ne (h : OffHeap chunks x) (hva : InHeap base va) : x ≠ place base chunks va := by
  obtain ⟨hlow, hhigh⟩ := hva
  have hi : (va - base) / 131072 < 32 := by omega
  have hoff := h _ hi
  have hmod := Nat.mod_lt (va - base) (show 131072 > 0 by decide)
  unfold place
  omega

/-- **A word written to the heap changes no translation.** -/
theorem Window.write (h : Window I base chunks vm) (hva : InHeap base va) (w : Nat) :
    Window I base chunks (vm.withRam (Function.update vm.ram (place base chunks va) w)) := by
  have hout := h.place_outside hva
  obtain ⟨_, _, hle⟩ := h.heapBase.bounds
  refine ⟨h.booted.withRam (h.booted.shape.outside hout), fun k hk => ?_, h.heapBase, h.aligned,
    h.distinct, h.outside⟩
  rw [Vm.withRam_ram, h.booted.shape.walk_outside hout (by omega)]
  exact h.mapped k hk

/-! ## 3. The heap as a flat memory -/

/-- **The heap holds the words `W`**, and outside the chunks the memory is still `m₀`. -/
structure Holds (I : KernelImage) (base : Nat) (chunks : Nat → Nat) (m₀ : Ram) (W : Nat → Nat)
    (vm : Vm) : Prop where
  window : Window I base chunks vm
  words : ∀ va, InHeap base va → vm.ram (place base chunks va) = W va
  outside : ∀ a, OffHeap chunks a → vm.ram a = m₀ a

variable {m₀ : Ram} {W W' : Nat → Nat}

/-- **A word is read.** -/
theorem Holds.load (h : Holds I base chunks m₀ W vm) (hva : InHeap base va) :
    loadWord va vm = (vm, some (W va)) := by
  rw [loadWord_of_walk (h.window.walk hva), h.words va hva]

/-- **A word is written.** -/
theorem Holds.store (h : Holds I base chunks m₀ W vm) (hva : InHeap base va) (w : Nat) :
    Post (fun vm' _ => Holds I base chunks m₀ (Function.update W va w) vm')
      (storeWord va w vm) := by
  rw [storeWord_of_walk (h.window.walk hva)]
  refine .intro ⟨h.window.write hva w, fun x hx => ?_, fun a ha => ?_⟩
  · rw [Vm.withRam_ram]
    by_cases hxv : x = va
    · rw [hxv, Function.update_self, Function.update_self]
    · rw [Function.update_of_ne fun he => hxv (h.window.place_inj hx hva he),
        Function.update_of_ne hxv]
      exact h.words x hx
  · rw [Vm.withRam_ram, Function.update_of_ne (ha.ne hva)]
    exact h.outside a ha

/-- The word of a byte of the heap is in the heap. -/
theorem InHeap.wordOf (hb : HeapBase base) (h : InHeap base va) :
    InHeap base (Bytes.wordOf va) := by
  obtain ⟨hal, _, _⟩ := hb.bounds
  obtain ⟨hlow, hhigh⟩ := h
  unfold InHeap Bytes.wordOf
  omega

/-- **A byte is read.** -/
theorem Holds.loadByte (h : Holds I base chunks m₀ W vm) (hva : InHeap base va) :
    loadByte va vm = (vm, some (Bytes.byteAt W va)) := by
  unfold Heap.loadByte
  rw [h.load (hva.wordOf h.window.heapBase), andThen_some]
  rfl

/-- **A byte is written.** -/
theorem Holds.storeByteAt (h : Holds I base chunks m₀ W vm) (hva : InHeap base va) (b : Nat) :
    Post (fun vm' _ => Holds I base chunks m₀ (Bytes.setByte W va b) vm')
      (storeByteAt va b vm) := by
  have hword := hva.wordOf h.window.heapBase
  unfold Heap.storeByteAt
  rw [h.load hword, andThen_some]
  exact h.store hword _

/-- **A range of bytes is set.** -/
theorem Holds.memsetLoop (h : Holds I base chunks m₀ W vm) (hlow : base ≤ va)
    (hhigh : va + n ≤ base + 4194304) :
    Post (fun vm' _ => Holds I base chunks m₀ (Bytes.fill W va b n) vm')
      (memsetLoop b n va vm) := by
  obtain ⟨_, _, hle⟩ := h.window.heapBase.bounds
  induction n generalizing va W vm with
  | zero => exact .intro h
  | succ n ih =>
      unfold Heap.memsetLoop
      refine (h.storeByteAt ⟨hlow, by omega⟩ b).andThen fun vm' _ h' => ?_
      -- the pointer wraps only behind the last byte
      by_cases hend : va + 1 < 0x100000000
      · rw [Nat.mod_eq_of_lt hend]
        exact ih h' (by omega) (by omega)
      · obtain rfl : n = 0 := by omega
        exact .intro h'

theorem Holds.memset (h : Holds I base chunks m₀ W vm) (hlow : base ≤ va)
    (hhigh : va + n ≤ base + 4194304) (value : Nat) :
    Post (fun vm' _ => Holds I base chunks m₀ (Bytes.fill W va (value % 256) n) vm')
      (memset va value n vm) :=
  h.memsetLoop hlow hhigh

end OsPlayground.Heap
