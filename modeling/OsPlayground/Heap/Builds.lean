/-
  File:      OsPlayground/Heap/Builds.lean
  Subject:   init_heap_pages IN BOTH BUILDS (heap_allocator.cpp, assert.h). With `NDEBUG` defined the
             asserts are gone; else one that fails panics, and the operation stops.

  Every call to the other managers leaves an event in a log (`InitEvent`), newest first, and so does
  an assert that fails: a stop without one is a fault. Every access goes through the tables in
  memory; there is no TLB.

  * `initHeapPagesIn` -- the operation in a build;
  * **`initHeapPagesIn_debug`** -- with its asserts it is `initHeapPages`;
  * `CleanOutcome`, `CleanInit` -- what a clean outcome is.
-/
import OsPlayground.Heap.Pages

namespace OsPlayground.Heap

open Paging Halting VirtMem PhysMem

/-- How the kernel is built. -/
inductive Build where
  | debug
  | ndebug
  deriving DecidableEq, Repr

/-! ## 1. The operation -/

/-- A call of `init_heap_pages` to another manager: the block `reserve_block` returned, the chunk
    `alloc32` returned, the arguments of `map_page`; or the panic of an assert. -/
inductive InitEvent where
  | reserved (heap : Nat)
  | allocated (chunk : Nat)
  | mapped (virtPage physPage : Nat)
  | panicked
  deriving DecidableEq, Repr

/-- The managers, and the calls made so far. -/
structure Traced where
  managers : Managers
  log : List InitEvent

/-- An event noted. -/
def note (e : InitEvent) (t : Traced) : Traced := { t with log := e :: t.log }

/-- `assert(c, ...)`. -/
def assertIn (build : Build) (c : Prop) [Decidable c] (t : Traced) : Traced × Option Unit :=
  match build with
  | .debug => if c then (t, some ()) else (note .panicked t, none)
  | .ndebug => (t, some ())

/-- An operation of the managers. -/
def onManagers {α : Type} (op : Managers → Managers × Option α) (t : Traced) : Traced × Option α :=
  let r := op t.managers
  ({ t with managers := r.1 }, r.2)

/-- `map_page`. -/
def mapPageIn (build : Build) (virtPage physPage : Nat) (t : Traced) : Traced × Option Nat :=
  andThen (if virtPage = 0 then onManagers (onVm findFreeVirtPage) t else (t, some virtPage))
    fun t virtPage =>
      andThen (assertIn build (virtPage % pageSize = 0) t) fun t _ =>
        andThen (assertIn build (physPage % pageSize = 0) t) fun t _ =>
          onManagers (onVm (writePage virtPage physPage)) t

/-- One pass of the inner loop: page `j` of chunk `i`. -/
def mapHeapPageIn (build : Build) (i j : Nat) (t : Traced) : Traced × Option Unit :=
  let heapPage := (t.managers.physHeapChunks i + j * pageSize) % 0x100000000
  let virtPage := (t.managers.heap + (chunkPages * i + j) * pageSize) % 0x100000000
  andThen (mapPageIn build virtPage heapPage (note (.mapped virtPage heapPage) t)) fun t res =>
    andThen (assertIn build (res ≠ 0) t) fun t _ =>
      onManagers (fun s => (if j = 0 then saveSlab i virtPage s else s, some ())) t

/-- `phys_heap_chunks[i] = physMemAlloc.alloc32()`. -/
def allocChunkIn (i : Nat) (t : Traced) : Traced × Option Unit :=
  andThen (onManagers (allocChunk i) t) fun t _ =>
    (note (.allocated (t.managers.physHeapChunks i)) t, some ())

/-- One pass of the outer loop: chunk `i`. -/
def mapChunkIn (build : Build) (i : Nat) (t : Traced) : Traced × Option Unit :=
  andThen (assertIn build (chunkPages = 32) t) fun t _ =>
    andThen (allocChunkIn i t) fun t _ =>
      andThen (assertIn build (t.managers.physHeapChunks i ≠ 0) t) fun t _ =>
        upTo (mapHeapPageIn build i) chunkPages t

/-- The first part of `init_heap_pages`: the block, and its pages. -/
def mapHeapIn (build : Build) (t : Traced) : Traced × Option Unit :=
  andThen (onManagers (onVm reserveBlock) t) fun t heap =>
    andThen (assertIn build (heapPages % 32 = 0)
      (note (.reserved heap) { t with managers := { t.managers with heap := heap } })) fun t _ =>
        upTo (mapChunkIn build) nChunks t

/-- `init_heap_pages`. -/
def initHeapPagesIn (build : Build) (t : Traced) : Traced × Option Unit :=
  andThen (mapHeapIn build t) fun t _ => onManagers writeHeader t

/-! ## 2. The build with asserts -/

/-- The operation `r` on traced managers is `r'` when the log is forgotten. -/
def Forgets {α : Type} (r : Traced × Option α) (r' : Managers × Option α) : Prop :=
  r.1.managers = r'.1 ∧ r.2 = r'.2

theorem Forgets.andThen {α β : Type} {r : Traced × Option α} {r' : Managers × Option α}
    {f : Traced → α → Traced × Option β} {f' : Managers → α → Managers × Option β}
    (h : Forgets r r') (hf : ∀ t a, Forgets (f t a) (f' t.managers a)) :
    Forgets (andThen r f) (andThen r' f') := by
  obtain ⟨t, o⟩ := r
  obtain ⟨s, o'⟩ := r'
  obtain ⟨rfl, rfl⟩ := h
  cases o with
  | none => exact ⟨rfl, rfl⟩
  | some a => exact hf t a

theorem Forgets.upTo {body : Nat → Traced → Traced × Option Unit}
    {body' : Nat → Managers → Managers × Option Unit}
    (h : ∀ i t, Forgets (body i t) (body' i t.managers)) (n : Nat) (t : Traced) :
    Forgets (upTo body n t) (Halting.upTo body' n t.managers) := by
  induction n with
  | zero => exact ⟨rfl, rfl⟩
  | succ n ih => exact ih.andThen fun t _ => h n t

theorem forgets_onManagers {α : Type} (op : Managers → Managers × Option α) (t : Traced) :
    Forgets (onManagers op t) (op t.managers) := ⟨rfl, rfl⟩

/-- An event noted at the end. -/
theorem Forgets.noted {r : Traced × Option Unit} {r' : Managers × Option Unit} (h : Forgets r r')
    (e : Traced → InitEvent) : Forgets (Halting.andThen r fun t _ => (note (e t) t, some ())) r' := by
  obtain ⟨t, o⟩ := r
  obtain ⟨s, o'⟩ := r'
  obtain ⟨rfl, rfl⟩ := h
  cases o with
  | none => exact ⟨rfl, rfl⟩
  | some a => exact ⟨rfl, rfl⟩

theorem forgets_check (c : Prop) [Decidable c] (t : Traced) :
    Forgets (assertIn .debug c t) (check c t.managers) := by
  unfold assertIn check
  dsimp only
  split
  · exact ⟨rfl, rfl⟩
  · exact ⟨rfl, rfl⟩

/-- An operation of the machine in two steps. -/
theorem onVm_andThen {α β : Type} (op : Vm → Answer α) (f : Vm → α → Answer β) (s : Managers) :
    onVm (fun vm => andThen (op vm) f) s = andThen (onVm op s) fun s a => onVm (f · a) s := by
  unfold onVm
  dsimp only
  generalize op s.vm = r
  obtain ⟨vm, o⟩ := r
  cases o with
  | none => rfl
  | some a => rfl

/-- The two asserts of `map_page` in one. -/
theorem forgets_mapPage (virtPage physPage : Nat) (t : Traced) :
    Forgets (mapPageIn .debug virtPage physPage t) (onVm (mapPage virtPage physPage) t.managers) := by
  unfold mapPageIn mapPage
  rw [onVm_andThen]
  refine Forgets.andThen ?_ fun t virt => ?_
  · by_cases h0 : virtPage = 0
    · rw [if_pos h0]
      simp only [if_pos h0]
      exact forgets_onManagers _ t
    · rw [if_neg h0]
      simp only [if_neg h0]
      exact ⟨rfl, rfl⟩
  · unfold assertIn
    dsimp only
    by_cases hv : virt % pageSize = 0
    · rw [if_pos hv, andThen_some]
      by_cases hp : physPage % pageSize = 0
      · rw [if_pos hp, andThen_some]
        simp only [if_pos (And.intro hv hp)]
        exact forgets_onManagers _ t
      · rw [if_neg hp, andThen_none]
        simp only [if_neg fun h : virt % pageSize = 0 ∧ physPage % pageSize = 0 => hp h.2]
        exact ⟨rfl, rfl⟩
    · rw [if_neg hv, andThen_none]
      simp only [if_neg fun h : virt % pageSize = 0 ∧ physPage % pageSize = 0 => hv h.1]
      exact ⟨rfl, rfl⟩

theorem forgets_mapHeapPage (i j : Nat) (t : Traced) :
    Forgets (mapHeapPageIn .debug i j t) (mapHeapPage i j t.managers) := by
  unfold mapHeapPageIn mapHeapPage
  dsimp only
  refine (forgets_mapPage _ _ (note _ t)).andThen fun t res => ?_
  exact (forgets_check _ t).andThen fun t _ => ⟨rfl, rfl⟩

theorem forgets_allocChunk (i : Nat) (t : Traced) :
    Forgets (allocChunkIn i t) (allocChunk i t.managers) :=
  (forgets_onManagers (allocChunk i) t).noted _

theorem forgets_mapChunk (i : Nat) (t : Traced) :
    Forgets (mapChunkIn .debug i t) (mapChunk i t.managers) := by
  unfold mapChunkIn mapChunk
  refine (forgets_check _ t).andThen fun t _ => (forgets_allocChunk i t).andThen fun t _ => ?_
  exact (forgets_check _ t).andThen fun t _ => Forgets.upTo (forgets_mapHeapPage i) _ t

/-- **With its asserts the operation is `initHeapPages`.** -/
theorem initHeapPagesIn_debug (t : Traced) :
    Forgets (initHeapPagesIn .debug t) (initHeapPages t.managers) := by
  unfold initHeapPagesIn initHeapPages
  refine Forgets.andThen ?_ fun t _ => forgets_onManagers writeHeader t
  unfold mapHeapIn mapHeap
  refine (forgets_onManagers _ t).andThen fun t heap => ?_
  exact (forgets_check _ _).andThen fun t _ => Forgets.upTo forgets_mapChunk _ t

/-! ## 3. A clean outcome -/

/-- The frame at `p` lies in a block that `alloc32` returned, not null. -/
def GivenIn (log : List InitEvent) (p : Nat) : Prop :=
  ∃ chunk, .allocated chunk ∈ log ∧ chunk ≠ 0 ∧ chunk ≤ p ∧ p < chunk + chunkPages * pageSize

/-- **Every call of `map_page` so far was clean**: a page to map, and a frame given before. -/
def CleanLog : List InitEvent → Prop
  | [] => True
  | .mapped virtPage physPage :: log => virtPage ≠ 0 ∧ GivenIn log physPage ∧ CleanLog log
  | _ :: log => CleanLog log

/-- **A clean outcome**: no call of `map_page` used a null page or a frame that was not given; where
    the operation stops an assert has failed, so nothing has faulted; and where it completes all
    pages of the heap are mapped to frames that were given. -/
def CleanOutcome (r : Traced × Option Unit) : Prop :=
  CleanLog r.1.log ∧ (r.2 = none → .panicked ∈ r.1.log) ∧
    (r.2 = some () → ∀ k < heapPages, ∃ p,
      r.1.managers.translate (r.1.managers.heap + k * pageSize) = some p ∧ GivenIn r.1.log p)

/-- The outcome of `init_heap_pages` from these managers is clean. -/
def CleanInit (build : Build) (s : Managers) : Prop :=
  CleanOutcome (initHeapPagesIn build ⟨s, []⟩)

end OsPlayground.Heap
