/-
  File:      OsPlayground/Library/Linked.lean
  Subject:   LINKED BLOCKS. Nodes linked by a `next` pointer, and blocks that lie one after the
             other in an address range.

  * `Path next nil p as` -- `as` are the nodes from `p` on, in order, the last one's pointer is
    `nil`; a path is unique (`Path.unique`), survives writes elsewhere (`Path.frame`), takes a
    new node after any of its nodes (`Path.insert`), and a loop along it stops at the first node
    that answers (`Path.walk`);
  * `Tiles size lo hi as` -- the blocks at `as` tile the range: each address is in exactly one of
    them (`Tiles.cover`, `Tiles.apart`), and a block can be split in two (`Tiles.split`).
-/
import Mathlib.Algebra.GroupWithZero.Nat
import Mathlib.Data.List.Basic
import OsPlayground.Library.Loop

namespace Linked

/-! ## 1. Paths -/

section Paths

variable {α : Type*} {β : Type*}

/-- **`as` are the nodes from `p` to the end of the list.** -/
inductive Path (next : α → α) (nil : α) : α → List α → Prop
  | stop : Path next nil nil []
  | node {a : α} {as : List α} (hne : a ≠ nil) (rest : Path next nil (next a) as) :
      Path next nil a (a :: as)

variable {next next' : α → α} {nil p : α}

/-- A list has one sequence of nodes. -/
theorem Path.unique {as bs : List α} (h : Path next nil p as) (h' : Path next nil p bs) :
    as = bs := by
  induction h generalizing bs with
  | stop =>
      cases h' with
      | stop => rfl
      | node hne _ => exact absurd rfl hne
  | node hne _ ih =>
      cases h' with
      | stop => exact absurd rfl hne
      | node _ rest => rw [ih rest]

/-- Writes to other nodes leave the list alone. -/
theorem Path.frame {as : List α} (h : Path next nil p as) (hn : ∀ a ∈ as, next' a = next a) :
    Path next' nil p as := by
  induction h with
  | stop => exact .stop
  | @node a as hne _ ih =>
      refine .node hne ?_
      rw [hn a List.mem_cons_self]
      exact ih fun b hb => hn b (List.mem_cons_of_mem _ hb)

theorem Path.head {a : α} {as : List α} (h : Path next nil p (a :: as)) : p = a := by
  cases h
  rfl

theorem Path.ne_nil {as : List α} (h : Path next nil p as) {a : α} (ha : a ∈ as) : a ≠ nil := by
  induction h with
  | stop => cases ha
  | node hne _ ih =>
      rcases List.mem_cons.mp ha with rfl | ha
      · exact hne
      · exact ih ha

/-- A list begins at one of its nodes, or is empty. -/
theorem Path.start {as : List α} (h : Path next nil p as) : p = nil ∨ p ∈ as := by
  cases h with
  | stop => exact Or.inl rfl
  | node _ _ => exact Or.inr List.mem_cons_self

/-- A node's pointer leads to a node, or ends the list. -/
theorem Path.next_mem {as : List α} (h : Path next nil p as) {a : α} (ha : a ∈ as) :
    next a = nil ∨ next a ∈ as := by
  induction h with
  | stop => cases ha
  | @node b as _ rest ih =>
      rcases List.mem_cons.mp ha with rfl | ha
      · exact rest.start.imp_right fun hmem => List.mem_cons_of_mem _ hmem
      · exact (ih ha).imp_right fun hmem => List.mem_cons_of_mem _ hmem

/-- **A new node `b` after `a`**: `a` points to it, and it points where `a` did. -/
theorem Path.insert {a b : α} {xs ys : List α} (h : Path next nil p (xs ++ a :: ys))
    (hb : b ≠ nil) (ha' : next' a = b) (hb' : next' b = next a)
    (hxs : ∀ c ∈ xs, next' c = next c) (hys : ∀ c ∈ ys, next' c = next c) :
    Path next' nil p (xs ++ a :: b :: ys) := by
  induction xs generalizing p with
  | nil =>
      cases h with
      | node hne rest =>
          refine .node hne ?_
          rw [ha']
          refine .node hb ?_
          rw [hb']
          exact rest.frame hys
  | cons x xs ih =>
      cases h with
      | node hne rest =>
          refine .node hne ?_
          rw [hxs x List.mem_cons_self]
          exact ih rest fun c hc => hxs c (List.mem_cons_of_mem _ hc)

/-- **The loop along a list** stops at the first node that answers, or at the end with what the
    end answers; either way within one pass for each node and one more. -/
theorem Path.walk {step : α → α ⊕ β} {b₀ : β} (hnil : step nil = .inr b₀)
    (hgo : ∀ a s', a ≠ nil → step a = .inl s' → s' = next a) {as : List α}
    (h : Path next nil p as) {n : Nat} (hn : as.length < n) :
    (∃ xs a ys b, as = xs ++ a :: ys ∧ step a = .inr b ∧ FuelLoop.run step n p = some b) ∨
      ((∀ a ∈ as, step a = .inl (next a)) ∧ FuelLoop.run step n p = some b₀) := by
  induction h generalizing n with
  | stop =>
      obtain ⟨n, rfl⟩ : ∃ m, n = m + 1 := ⟨n - 1, by omega⟩
      right
      exact ⟨fun _ ha => absurd ha List.not_mem_nil, FuelLoop.run_stop hnil⟩
  | @node a as hne _ ih =>
      rw [List.length_cons] at hn
      obtain ⟨n, rfl⟩ : ∃ m, n = m + 1 := ⟨n - 1, by omega⟩
      cases hs : step a with
      | inr b => exact Or.inl ⟨[], a, as, b, rfl, hs, FuelLoop.run_stop hs⟩
      | inl s' =>
          obtain rfl := hgo a s' hne hs
          rw [FuelLoop.run_go hs]
          rcases ih (show as.length < n by omega) with ⟨xs, c, ys, b, rfl, hc, hrun⟩ | ⟨hall, hrun⟩
          · exact Or.inl ⟨a :: xs, c, ys, b, rfl, hc, hrun⟩
          · refine Or.inr ⟨fun c hc => ?_, hrun⟩
            rcases List.mem_cons.mp hc with rfl | hc
            · exact hs
            · exact hall c hc

end Paths

/-! ## 2. Tilings -/

/-- **The blocks at `as` lie one after the other from `lo` to `hi`.** -/
inductive Tiles (size : Nat → Nat) : Nat → Nat → List Nat → Prop
  | done {lo : Nat} : Tiles size lo lo []
  | block {a hi : Nat} {as : List Nat} (hpos : 0 < size a) (rest : Tiles size (a + size a) hi as) :
      Tiles size a hi (a :: as)

variable {size size' : Nat → Nat} {lo hi : Nat}

theorem Tiles.head {a : Nat} {as : List Nat} (h : Tiles size lo hi (a :: as)) : lo = a := by
  cases h
  rfl

theorem Tiles.le {as : List Nat} (h : Tiles size lo hi as) : lo ≤ hi := by
  induction h with
  | done => exact Nat.le_refl _
  | block _ _ ih => omega

/-- Every block lies in the range. -/
theorem Tiles.range {as : List Nat} (h : Tiles size lo hi as) {a : Nat} (ha : a ∈ as) :
    lo ≤ a ∧ a + size a ≤ hi := by
  induction h with
  | done => cases ha
  | block _ rest ih =>
      rcases List.mem_cons.mp ha with rfl | ha
      · exact ⟨Nat.le_refl _, rest.le⟩
      · have := ih ha
        omega

theorem Tiles.pos {as : List Nat} (h : Tiles size lo hi as) {a : Nat} (ha : a ∈ as) :
    0 < size a := by
  induction h with
  | done => cases ha
  | block hpos _ ih =>
      rcases List.mem_cons.mp ha with rfl | ha
      · exact hpos
      · exact ih ha

/-- Two blocks do not overlap. -/
theorem Tiles.apart {as : List Nat} (h : Tiles size lo hi as) {a b : Nat} (ha : a ∈ as)
    (hb : b ∈ as) (hne : a ≠ b) : a + size a ≤ b ∨ b + size b ≤ a := by
  induction h with
  | done => cases ha
  | block _ rest ih =>
      rcases List.mem_cons.mp ha with rfl | ha'
      · rcases List.mem_cons.mp hb with rfl | hb
        · exact absurd rfl hne
        · exact Or.inl (rest.range hb).1
      · rcases List.mem_cons.mp hb with rfl | hb
        · exact Or.inr (rest.range ha').1
        · exact ih ha' hb

/-- **The blocks cover the range.** -/
theorem Tiles.cover {as : List Nat} (h : Tiles size lo hi as) (x : Nat) :
    (∃ a ∈ as, a ≤ x ∧ x < a + size a) ↔ lo ≤ x ∧ x < hi := by
  constructor
  · intro hcovered
    obtain ⟨a, ha, h1, h2⟩ := hcovered
    have := h.range ha
    omega
  · intro hx
    induction h with
    | done => omega
    | @block a hi as _ _ ih =>
        by_cases hlt : x < a + size a
        · exact ⟨a, List.mem_cons_self, hx.1, hlt⟩
        · obtain ⟨b, hb, h1, h2⟩ := ih ⟨by omega, hx.2⟩
          exact ⟨b, List.mem_cons_of_mem _ hb, h1, h2⟩

theorem Tiles.frame {as : List Nat} (h : Tiles size lo hi as)
    (hs : ∀ a ∈ as, size' a = size a) : Tiles size' lo hi as := by
  induction h with
  | done => exact .done
  | @block a hi as hpos _ ih =>
      have ha := hs a List.mem_cons_self
      refine .block (by rw [ha]; exact hpos) ?_
      rw [ha]
      exact ih fun b hb => hs b (List.mem_cons_of_mem _ hb)

/-- **A block is split in two**: `k` bytes stay, the rest is a block at `a + k`. -/
theorem Tiles.split {a k : Nat} {xs ys : List Nat} (h : Tiles size lo hi (xs ++ a :: ys))
    (hk : size' a = k) (hpos : 0 < k) (hpos' : 0 < size' (a + k))
    (hsum : k + size' (a + k) = size a) (hxs : ∀ c ∈ xs, size' c = size c)
    (hys : ∀ c ∈ ys, size' c = size c) : Tiles size' lo hi (xs ++ a :: (a + k) :: ys) := by
  induction xs generalizing lo with
  | nil =>
      cases h with
      | block _ rest =>
          refine .block (by rw [hk]; exact hpos) ?_
          rw [hk]
          refine .block hpos' ?_
          rw [Nat.add_assoc, hsum]
          exact rest.frame hys
  | cons x xs ih =>
      cases h with
      | block hx rest =>
          have hsx := hxs x List.mem_cons_self
          refine .block (by rw [hsx]; exact hx) ?_
          rw [hsx]
          exact ih rest fun c hc => hxs c (List.mem_cons_of_mem _ hc)

/-- Blocks of at least `w` bytes are at most as many as fit. -/
theorem Tiles.length_le {as : List Nat} (h : Tiles size lo hi as) {w : Nat}
    (hw : ∀ a ∈ as, w ≤ size a) : w * as.length ≤ hi - lo := by
  induction h with
  | done => simp
  | @block a hi as _ rest ih =>
      have h1 := ih fun b hb => hw b (List.mem_cons_of_mem _ hb)
      have h2 := hw a List.mem_cons_self
      have h3 := rest.le
      rw [List.length_cons, Nat.mul_add, Nat.mul_one]
      omega

/-- No block comes twice. -/
theorem Tiles.nodup {as : List Nat} (h : Tiles size lo hi as) : as.Nodup := by
  induction h with
  | done => exact List.nodup_nil
  | block hpos rest ih =>
      refine List.nodup_cons.mpr ⟨fun ha => ?_, ih⟩
      have := (rest.range ha).1
      omega

/-- The sizes add up to the range. -/
theorem Tiles.sum {as : List Nat} (h : Tiles size lo hi as) : lo + (as.map size).sum = hi := by
  induction h with
  | done => rfl
  | block _ _ ih =>
      rw [List.map_cons, List.sum_cons, ← Nat.add_assoc]
      exact ih

/-- The blocks come in the order of their addresses. -/
theorem Tiles.increasing {as : List Nat} (h : Tiles size lo hi as) : as.Pairwise (· < ·) := by
  induction h with
  | done => exact List.Pairwise.nil
  | block hpos rest ih =>
      refine List.Pairwise.cons (fun b hb => ?_) ih
      have := (rest.range hb).1
      omega

/-- **The block after a block begins where it ends**, where the pointers go through the tiling. -/
theorem Tiles.adjacent {next : Nat → Nat} {nil : Nat} {as : List Nat} (h : Tiles size lo hi as)
    (hp : Path next nil lo as) {a : Nat} (ha : a ∈ as) (hn : next a ≠ nil) :
    next a = a + size a := by
  induction h with
  | done => cases ha
  | @block b hi as _ rest ih =>
      cases hp with
      | node _ hrest =>
          -- the pointer of `b` is the head of the rest, and so is its end
          have hhead : next b ≠ nil → next b = b + size b := by
            intro hne
            cases as with
            | nil =>
                have hnil : next b = nil := by
                  generalize next b = p at hrest
                  cases hrest
                  rfl
                exact absurd hnil hne
            | cons c as => exact hrest.head.trans rest.head.symm
          rcases List.mem_cons.mp ha with rfl | ha
          · exact hhead hn
          · by_cases hne : next b = nil
            · rw [hne] at hrest
              cases hrest with
              | stop => cases ha
              | node hne' _ => exact absurd rfl hne'
            · rw [hhead hne] at hrest
              exact ih hrest ha

end Linked
