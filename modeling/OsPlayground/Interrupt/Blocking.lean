/-
  File:      OsPlayground/Interrupt/Blocking.lean
  Subject:   WHAT THE UNACKNOWLEDGED LINES BLOCK (interrupt_manager.cpp, interrupt_impl.cpp).

  `id_handler` sends no end of interrupt, so a line it answers stays in service. What is in
  service after a run is read off the run: the lines answered by `id_handler`, and line 2 of the
  first controller for those of the second.

  * `serving_of_run`, `serving_between` -- the two in-service registers after every run, once the
    running handler has made its writes;
  * `deliverable_iff` -- so between handlers a line that is raised and not masked can be delivered
    exactly when no line that blocks it has been left in service. Nothing blocks the timer and the
    keyboard;
  * `unanswered_le_six` -- over a whole run `id_handler` runs at most six times.
-/
import OsPlayground.Interrupt.Lines

namespace OsPlayground.Interrupt

open Pic8259

/-! ## 1. The lines left in service -/

/-- The line a delivery leaves in service: one whose handler does not acknowledge it. -/
def unansweredLine : Event → Option Line
  | .deliver line => if Acknowledged line then none else some line
  | _ => none

/-- The lines delivered to `id_handler`, in order. -/
def unanswered (es : List Event) : List Line := es.filterMap unansweredLine

/-- Line `n` was delivered to `id_handler`. -/
def Stuck (ls : List Line) (n : Nat) : Prop := ∃ l ∈ ls, l.val = n

/-- **In service are the lines of `ls`**: the bit of each, and bit 2 of the first controller where
    one of them is on the second. -/
structure Serving (p : Pair) (ls : List Line) : Prop where
  first : ∀ k < 8, p.first.getLsbD k = true ↔ Stuck ls k ∨ (k = 2 ∧ ∃ l ∈ ls, 8 ≤ l.val)
  second : ∀ k < 8, p.second.getLsbD k = true ↔ Stuck ls (8 + k)

/-- The writes the running handler still has to make. -/
def remaining (m : Machine) : List (Nat × BitVec 8) :=
  match m.running with
  | none => []
  | some (_, ws) => ws

/-- **The invariant of a run**: when the running handler has made its writes, the lines delivered
    to `id_handler` are in service and no other. -/
def Settles (m : Machine) (es : List Event) : Prop :=
  Serving ((remaining m).foldl out8 m.pics) (unanswered es)

variable {p q : Pair} {ls : List Line} {line : Line}

theorem unansweredLine_deliver (line : Line) :
    unansweredLine (.deliver line) = if Acknowledged line then none else some line := rfl

theorem unanswered_snoc (es : List Event) (e : Event) :
    unanswered (es ++ [e]) = unanswered es ++ (unansweredLine e).toList := by
  unfold unanswered
  rw [List.filterMap_append]
  cases he : unansweredLine e <;> simp [he]

/-- Lines left in service are none of the acknowledged ones. -/
theorem of_mem_unanswered {es : List Event} (h : line ∈ unanswered es) : ¬ Acknowledged line := by
  obtain ⟨e, _, he⟩ := List.mem_filterMap.mp h
  unfold unansweredLine at he
  split at he
  · split_ifs at he with hack
    cases he
    exact hack
  · cases he

theorem unacknowledged_gt {l : Line} (h : ¬ Acknowledged l) : 2 < l.val := by
  have hne := l.ne
  unfold Acknowledged at h
  omega

/-- Only the bits in service count. -/
theorem Serving.same (h : Serving p ls) (hs : SameService q p) : Serving q ls := by
  obtain ⟨h1, h2⟩ := hs
  exact ⟨by rw [h1]; exact h.first, by rw [h2]; exact h.second⟩

theorem foldl_same (ws : List (Nat × BitVec 8)) (h : SameService p q) :
    SameService (ws.foldl out8 p) (ws.foldl out8 q) := by
  induction ws generalizing p q with
  | nil => exact h
  | cons w ws ih => exact ih (out8_same h w)

/-! ## 2. Deliveries -/

/-- An acknowledged line: its handler's writes take the delivery back. -/
theorem Serving.acknowledged (h : Serving p ls) (hcan : p.CanDeliver line.val)
    (hack : Acknowledged line) :
    Serving (line.handler.writes.foldl out8 (p.deliver line.val)) ls := by
  rw [(handler_writes line).1 hack]
  exact h.same (Pair.deliver_eoi_of_can hcan line.lt)

theorem stuck_concat (l : Line) (n : Nat) : Stuck (ls ++ [l]) n ↔ Stuck ls n ∨ n = l.val := by
  unfold Stuck
  constructor
  · intro h
    obtain ⟨l', hmem, rfl⟩ := h
    rcases List.mem_append.mp hmem with hmem | hmem
    · exact Or.inl ⟨l', hmem, rfl⟩
    · rw [List.mem_singleton.mp hmem]
      exact Or.inr rfl
  · intro h
    rcases h with ⟨l', hmem, rfl⟩ | rfl
    · exact ⟨l', List.mem_append_left _ hmem, rfl⟩
    · exact ⟨l, List.mem_append_right _ (List.mem_singleton_self l), rfl⟩

theorem second_concat (l : Line) :
    (∃ l' ∈ ls ++ [l], 8 ≤ l'.val) ↔ (∃ l' ∈ ls, 8 ≤ l'.val) ∨ 8 ≤ l.val := by
  constructor
  · intro h
    obtain ⟨l', hmem, h8⟩ := h
    rcases List.mem_append.mp hmem with hmem | hmem
    · exact Or.inl ⟨l', hmem, h8⟩
    · rw [List.mem_singleton.mp hmem] at h8
      exact Or.inr h8
  · intro h
    rcases h with ⟨l', hmem, h8⟩ | h8
    · exact ⟨l', List.mem_append_left _ hmem, h8⟩
    · exact ⟨l, List.mem_append_right _ (List.mem_singleton_self l), h8⟩

/-- A bit put in service. -/
theorem accept_bit (r : BitVec 8) {n k : Nat} (hk : k < 8) :
    (accept r n).getLsbD k = true ↔ r.getLsbD k = true ∨ k = n := by
  unfold accept
  rw [Bits.getLsbD_set r k n hk, Bool.or_eq_true, decide_eq_true_iff]

/-- A line without an acknowledgement is in service from its delivery on. -/
theorem Serving.stuck (h : Serving p ls) : Serving (p.deliver line.val) (ls ++ [line]) := by
  have hlt := line.lt
  unfold Pair.deliver
  by_cases h8 : line.val < 8
  · rw [if_pos h8]
    refine ⟨fun k hk => ?_, fun k hk => ?_⟩
    · dsimp only
      rw [accept_bit p.first hk, h.first k hk, stuck_concat, second_concat]
      constructor
      · intro hb
        rcases hb with (hb | ⟨rfl, hb⟩) | rfl
        · exact Or.inl (Or.inl hb)
        · exact Or.inr ⟨rfl, Or.inl hb⟩
        · exact Or.inl (Or.inr rfl)
      · intro hb
        rcases hb with (hb | rfl) | ⟨rfl, hb | hb⟩
        · exact Or.inl (Or.inl hb)
        · exact Or.inr rfl
        · exact Or.inl (Or.inr ⟨rfl, hb⟩)
        · omega
    · dsimp only
      rw [h.second k hk, stuck_concat]
      exact ⟨Or.inl, fun hb => hb.resolve_right (by omega)⟩
  · rw [if_neg h8]
    refine ⟨fun k hk => ?_, fun k hk => ?_⟩
    · dsimp only
      rw [accept_bit p.first hk, h.first k hk, stuck_concat, second_concat]
      constructor
      · intro hb
        rcases hb with (hb | ⟨rfl, hb⟩) | rfl
        · exact Or.inl (Or.inl hb)
        · exact Or.inr ⟨rfl, Or.inl hb⟩
        · exact Or.inr ⟨rfl, Or.inr (Nat.le_of_not_lt h8)⟩
      · intro hb
        rcases hb with (hb | rfl) | ⟨rfl, _⟩
        · exact Or.inl (Or.inl hb)
        · omega
        · exact Or.inr rfl
    · dsimp only
      rw [accept_bit p.second hk, h.second k hk, stuck_concat]
      refine or_congr_right ?_
      omega

/-- **A delivery**, and the writes of the line's handler. -/
theorem Serving.deliver (h : Serving p ls) (hcan : p.CanDeliver line.val) :
    Serving (line.handler.writes.foldl out8 (p.deliver line.val))
      (ls ++ (unansweredLine (.deliver line)).toList) := by
  rw [unansweredLine_deliver]
  by_cases hack : Acknowledged line
  · rw [if_pos hack]
    simpa using h.acknowledged hcan hack
  · rw [if_neg hack, (handler_writes line).2 hack]
    exact h.stuck

/-! ## 3. Runs -/

/-- **One step keeps the invariant.** -/
theorem settles_step {m m' : Machine} {es : List Event} {e : Event} (h : Settles m es)
    (hs : step m e = some m') : Settles m' (es ++ [e]) := by
  obtain ⟨p, r⟩ := m
  unfold Settles at h ⊢
  rw [unanswered_snoc]
  cases e with
  | raise line =>
      cases hs
      have hsame : SameService (p.raise line.val) p := ⟨rfl, rfl⟩
      simpa [unansweredLine, remaining] using h.same (foldl_same _ hsame)
  | deliver line =>
      cases r with
      | some r => cases hs
      | none =>
          simp only [step] at hs
          split_ifs at hs with hcan
          cases hs
          exact Serving.deliver h hcan
  | write =>
      cases r with
      | none => cases hs
      | some r =>
          obtain ⟨line, ws⟩ := r
          cases ws with
          | nil => cases hs
          | cons w ws =>
              cases hs
              simpa [unansweredLine, remaining] using h
  | iret =>
      cases r with
      | none => cases hs
      | some r =>
          obtain ⟨line, ws⟩ := r
          cases ws with
          | cons w ws => cases hs
          | nil =>
              cases hs
              simpa [unansweredLine, remaining] using h

theorem settles_start : Settles start [] := by
  refine ⟨fun k _ => ?_, fun k _ => ?_⟩
  · simp [start, remaining, unanswered, Stuck]
  · simp [start, remaining, unanswered, Stuck]

/-- **What is in service after a run.** -/
theorem serving_of_run {es : List Event} {m : Machine} {us : List Unit}
    (h : run start es = some (m, us)) : Settles m es := by
  refine Exec.run_history (fun m es _ => Settles m es) (fun m es us e m' u _ hI hs => ?_)
    settles_start h
  obtain ⟨m₁, hm₁, he⟩ := Option.map_eq_some_iff.mp hs
  cases he
  exact settles_step hI hm₁

/-- Between handlers these are in service as they stand. -/
theorem serving_between {es : List Event} {m : Machine} {us : List Unit}
    (h : run start es = some (m, us)) (hbetween : m.running = none) :
    Serving m.pics (unanswered es) := by
  have hs := serving_of_run h
  unfold Settles remaining at hs
  rw [hbetween] at hs
  exact hs

/-- **A line left in service blocks** the lines of its own and of lower priority of the first
    controller; a line of the second controller is left in service there and on line 2 of the first,
    and blocks every line but 0 and 1. -/
def Blocks (l line : Line) : Prop := (l.val ≤ line.val ∧ line.val < 8) ∨ (8 ≤ l.val ∧ 2 < line.val)

/-- What the registers say of a line, said of the lines left in service. -/
theorem Serving.canDeliver_iff (h : Serving p ls) (hls : ∀ l ∈ ls, 2 < l.val) (line : Line) :
    p.CanDeliver line.val ↔ p.raised line.val = true ∧ ∀ l ∈ ls, ¬ Blocks l line := by
  have hclear : ∀ b : Bool, b = false ↔ ¬ b = true := fun b => (Bool.not_eq_true b).to_iff.symm
  have hlt := line.lt
  have hne := line.ne
  unfold Pair.CanDeliver
  refine and_congr_right fun _ => ?_
  by_cases h8 : line.val < 8
  · rw [if_pos h8]
    constructor
    · intro hfree l hmem hblocks
      rcases hblocks with ⟨hle, _⟩ | ⟨hge, hgt⟩
      · have hbit := (hclear _).mp (hfree l.val hle)
        exact hbit ((h.first l.val (by omega)).mpr (Or.inl ⟨l, hmem, rfl⟩))
      · have hbit := (hclear _).mp (hfree 2 (by omega))
        exact hbit ((h.first 2 (by omega)).mpr (Or.inr ⟨rfl, l, hmem, hge⟩))
    · intro hno k hk
      rw [hclear]
      intro hbit
      rcases (h.first k (by omega)).mp hbit with ⟨l, hmem, rfl⟩ | ⟨rfl, l, hmem, hge⟩
      · exact hno l hmem (Or.inl ⟨hk, h8⟩)
      · exact hno l hmem (Or.inr ⟨hge, by omega⟩)
  · rw [if_neg h8]
    constructor
    · intro hfree l hmem hblocks
      rcases hblocks with ⟨_, hlt8⟩ | ⟨hge, _⟩
      · exact h8 hlt8
      · have hbit := (hclear _).mp (hfree.1 2 (Nat.le_refl 2))
        exact hbit ((h.first 2 (by omega)).mpr (Or.inr ⟨rfl, l, hmem, hge⟩))
    · intro hno
      refine ⟨fun k hk => ?_, fun k hk => ?_⟩
      · rw [hclear]
        intro hbit
        rcases (h.first k (by omega)).mp hbit with ⟨l, hmem, rfl⟩ | ⟨_, l, hmem, hge⟩
        · have := hls l hmem
          omega
        · exact hno l hmem (Or.inr ⟨hge, by omega⟩)
      · rw [hclear]
        intro hbit
        obtain ⟨l, hmem, hl⟩ := (h.second k (by omega)).mp hbit
        exact hno l hmem (Or.inr ⟨by omega, by omega⟩)

/-! ## 4. Behind the masks -/

/-- One step of a machine whose controllers have these masks: `reprogram_pics` writes back those it
    has read, and nothing writes them afterwards. -/
def maskedStep (masks : Masks) (m : Machine) : Event → Option Machine
  | .deliver line => if masks.Passes line.val then step m (.deliver line) else none
  | e => step m e

/-- A run of such a machine. -/
def maskedRun (masks : Masks) (m : Machine) (es : List Event) : Option (Machine × List Unit) :=
  Exec.run (fun m e => (maskedStep masks m e).map fun m' => (m', ())) m es

variable {masks : Masks}

theorem step_of_masked {m m' : Machine} {e : Event} (h : maskedStep masks m e = some m') :
    step m e = some m' := by
  cases e with
  | deliver line =>
      unfold maskedStep at h
      dsimp only at h
      split_ifs at h
      exact h
  | raise line | write | iret => exact h

/-- Behind masks a machine does nothing that it does not do without them. -/
theorem run_of_masked {m m' : Machine} {es : List Event} {us : List Unit}
    (h : maskedRun masks m es = some (m', us)) : run m es = some (m', us) := by
  refine Exec.run_mono (fun m e r hr => ?_) h
  obtain ⟨m', hs, hr⟩ := Option.map_eq_some_iff.mp hr
  rw [step_of_masked hs]
  exact congrArg some hr

/-- Between handlers a line is delivered that passes the masks and is free in service. -/
theorem maskedStep_deliver {m : Machine} (hbetween : m.running = none) (line : Line) :
    (∃ m', maskedStep masks m (.deliver line) = some m') ↔
      masks.Passes line.val ∧ m.pics.CanDeliver line.val := by
  unfold maskedStep step
  dsimp only
  rw [hbetween]
  dsimp only
  by_cases hpass : masks.Passes line.val
  · rw [if_pos hpass]
    by_cases hcan : m.pics.CanDeliver line.val
    · rw [if_pos hcan]
      exact iff_of_true ⟨_, rfl⟩ ⟨hpass, hcan⟩
    · rw [if_neg hcan]
      exact iff_of_false (fun h => h.elim nofun) fun h => hcan h.2
  · rw [if_neg hpass]
    exact iff_of_false (fun h => h.elim nofun) fun h => hpass h.1

/-- **Which lines can be delivered.** Between the handlers of every run, whatever the masks, a line
    can be delivered exactly when it is raised, passes the masks, and no line delivered to
    `id_handler` so far blocks it. -/
theorem deliverable_iff (masks : Masks) (es : List Event) (m : Machine) (us : List Unit)
    (hrun : maskedRun masks start es = some (m, us)) (hbetween : m.running = none) (line : Line) :
    (∃ m', maskedStep masks m (.deliver line) = some m') ↔
      m.pics.raised line.val = true ∧ masks.Passes line.val ∧
        ∀ l ∈ unanswered es, ¬ Blocks l line := by
  have hs := serving_between (run_of_masked hrun) hbetween
  rw [maskedStep_deliver hbetween,
    hs.canDeliver_iff (fun l hl => unacknowledged_gt (of_mem_unanswered hl)) line]
  exact and_left_comm

/-- Line 9 is delivered and left in service; then lines 8, 4, 1 and 0 are raised. -/
def diskRun : List Event :=
  [.raise ⟨9, by decide, by decide⟩, .deliver ⟨9, by decide, by decide⟩, .iret,
    .raise ⟨8, by decide, by decide⟩, .raise ⟨4, by decide, by decide⟩,
    .raise ⟨1, by decide, by decide⟩, .raise ⟨0, by decide, by decide⟩]

theorem unanswered_diskRun : unanswered diskRun = [⟨9, by decide, by decide⟩] := rfl

/-- With line 0 masked: line 9 blocks lines 8 and 4, line 1 can be delivered, line 0 cannot. -/
theorem deliverable_iff_disk : ∃ m us, maskedRun ⟨1#8, 0#8⟩ start diskRun = some (m, us) ∧
    (¬ ∃ m', maskedStep ⟨1#8, 0#8⟩ m (.deliver ⟨8, by decide, by decide⟩) = some m') ∧
    (¬ ∃ m', maskedStep ⟨1#8, 0#8⟩ m (.deliver ⟨4, by decide, by decide⟩) = some m') ∧
    (∃ m', maskedStep ⟨1#8, 0#8⟩ m (.deliver ⟨1, by decide, by decide⟩) = some m') ∧
    ¬ ∃ m', maskedStep ⟨1#8, 0#8⟩ m (.deliver ⟨0, by decide, by decide⟩) = some m' := by
  obtain ⟨m, us, hrun, hbetween, hraised⟩ : ∃ m us,
      maskedRun ⟨1#8, 0#8⟩ start diskRun = some (m, us) ∧ m.running = none ∧
        m.pics.raised 1 = true := ⟨_, _, rfl, rfl, rfl⟩
  have hiff := deliverable_iff ⟨1#8, 0#8⟩ diskRun m us hrun hbetween
  have hnine : (⟨9, by decide, by decide⟩ : Line) ∈ unanswered diskRun := List.mem_singleton_self _
  refine ⟨m, us, hrun, fun h => ?_, fun h => ?_, (hiff _).mpr ⟨hraised, by decide, ?_⟩, fun h => ?_⟩
  · exact ((hiff _).mp h).2.2 _ hnine (Or.inr ⟨by decide, by decide⟩)
  · exact ((hiff _).mp h).2.2 _ hnine (Or.inr ⟨by decide, by decide⟩)
  · intro l hl hblocks
    rw [unanswered_diskRun, List.mem_singleton] at hl
    subst hl
    exact absurd hblocks (by unfold Blocks; decide)
  · exact absurd ((hiff _).mp h).2.1 (by decide)

/-! ## 5. How often -/

/-- The place of an unacknowledged line in the order of priorities. -/
def rank (l : Line) : Nat := if l.val < 8 then l.val else 2

theorem rank_lt_of_not_blocks {l l' : Line} (h : ¬ Blocks l l') (hl : 2 < l.val)
    (hl' : 2 < l'.val) : rank l' < rank l := by
  unfold Blocks at h
  unfold rank
  split_ifs <;> omega

/-- **Each line left in service has a higher priority than those before it.** -/
theorem unanswered_pairwise {es : List Event} {m : Machine} {us : List Unit}
    (h : run start es = some (m, us)) : (unanswered es).Pairwise fun l l' => rank l' < rank l := by
  induction es using List.reverseRecOn generalizing m us with
  | nil => exact List.Pairwise.nil
  | append_singleton es e ih =>
      obtain ⟨m₀, us₀, h0, hs⟩ := run_snoc h
      rw [unanswered_snoc]
      refine List.pairwise_append.mpr ⟨ih h0, ?_, fun l hl l' hl' => ?_⟩
      · cases unansweredLine e with
        | none => exact List.Pairwise.nil
        | some l => exact List.pairwise_singleton _ l
      · -- the line delivered now is blocked by none of the earlier ones
        have he := Option.mem_toList.mp hl'
        cases e with
        | raise line | write | iret => cases he
        | deliver line =>
            rw [unansweredLine_deliver] at he
            split_ifs at he with hack
            · cases he
              have hbetween : m₀.running = none := by
                unfold step at hs
                cases hr : m₀.running with
                | none => rfl
                | some r =>
                    rw [hr] at hs
                    cases hs
              have hcan : m₀.pics.CanDeliver l'.val := by
                simp only [step, hbetween] at hs
                split_ifs at hs with hcan
                exact hcan
              have hno := ((serving_between h0 hbetween).canDeliver_iff
                (fun l hl => unacknowledged_gt (of_mem_unanswered hl)) l').mp hcan
              exact rank_lt_of_not_blocks (hno.2 l hl) (unacknowledged_gt (of_mem_unanswered hl))
                (unacknowledged_gt hack)

/-- **`id_handler` runs at most six times** in a run of any length: six of the lines it answers
    can be delivered, each at most once. -/
theorem unanswered_le_six (es : List Event) (m : Machine) (us : List Unit)
    (hrun : run start es = some (m, us)) : (unanswered es).length ≤ 6 := by
  have hpw : ((unanswered es).map rank).Pairwise fun a b => b < a :=
    List.pairwise_map.mpr (unanswered_pairwise hrun)
  have hnodup : ((unanswered es).map rank).Nodup := hpw.imp fun h => Nat.ne_of_gt h
  have hsub : ((unanswered es).map rank).toFinset ⊆ Finset.Icc 2 7 := by
    intro k hk
    obtain ⟨l, hl, rfl⟩ := List.mem_map.mp (List.mem_toFinset.mp hk)
    have hgt := unacknowledged_gt (of_mem_unanswered hl)
    rw [Finset.mem_Icc]
    unfold rank
    split_ifs <;> omega
  have hcard := Finset.card_le_card hsub
  rw [List.toFinset_card_of_nodup hnodup, List.length_map] at hcard
  exact hcard

/-- Lines 7 and 3, then line 9: three runs of `id_handler`. -/
theorem unanswered_le_six_three : ∃ es, (unanswered es).length ≤ 6 ∧ (unanswered es).length = 3 :=
  ⟨[.raise ⟨7, by decide, by decide⟩, .deliver ⟨7, by decide, by decide⟩, .iret,
      .raise ⟨3, by decide, by decide⟩, .deliver ⟨3, by decide, by decide⟩, .iret,
      .raise ⟨9, by decide, by decide⟩, .deliver ⟨9, by decide, by decide⟩, .iret],
    unanswered_le_six _ _ _ rfl, rfl⟩

end OsPlayground.Interrupt
