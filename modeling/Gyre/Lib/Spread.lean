/- digest: Scores that spread along weighted edges, frontier by frontier, and the best walks. -/

import Mathlib.Algebra.Order.Field.Basic
import Mathlib.Algebra.Order.Ring.Rat
import Mathlib.Data.List.AList
import Mathlib.Data.List.Dedup
import Mathlib.Data.List.Perm.Basic
import Mathlib.Order.Bounds.Basic
import Mathlib.Order.MinMax
import Mathlib.Tactic.Positivity

/-!
A round visits the nodes of a frontier one after the other and lets each raise the scores of its
neighbours; what is raised is the next frontier. A node reads the scores that the same round has
already raised. The rounds give the best walks exactly if no such score comes from a walk that is too
long.
-/

set_option autoImplicit false
set_option relaxedAutoImplicit false

namespace Gyre.Lib

universe u v

/-- The edges from each node, with a payload on each, and how much a score keeps per edge. -/
structure Network (V : Type u) (P : Type v) where
  rows : V → List (V × ℚ × P)
  decay : ℚ

namespace Network

variable {V : Type u} {P : Type v} (net : Network V P) (seeds : List V)

/-- What a score is worth at the end of an edge. -/
def gain (a : ℚ) (r : V × ℚ × P) : ℚ := a * r.2.1 * net.decay

/-- No edge makes a score grow. -/
structure Damped : Prop where
  weight_nonneg : ∀ u, ∀ r ∈ net.rows u, 0 ≤ r.2.1
  weight_le_one : ∀ u, ∀ r ∈ net.rows u, r.2.1 ≤ 1
  decay_nonneg : 0 ≤ net.decay
  decay_le_one : net.decay ≤ 1

section Walks

/-- A walk of so many edges from a seed to a node, with the product of what its edges keep. -/
inductive Walk : Nat → V → ℚ → Prop
  | seed {v : V} (hseed : v ∈ seeds) : Walk 0 v 1
  | step {n : Nat} {u : V} {a : ℚ} {r : V × ℚ × P} (hwalk : Walk n u a) (hrow : r ∈ net.rows u) :
      Walk (n + 1) r.1 (net.gain a r)

/-- The ends and the products of all walks of at most so many edges. -/
@[grind =] def walks : Nat → List (V × ℚ)
  | 0 => seeds.map fun v => (v, 1)
  | n + 1 => walks n ++ (walks n).flatMap fun e => (net.rows e.1).map fun r => (r.1, net.gain e.2 r)

variable {net seeds} {n : Nat} {v : V}

theorem mem_walks {a : ℚ} : (v, a) ∈ net.walks seeds n ↔ ∃ m ≤ n, net.Walk seeds m v a := by
  induction n generalizing v a with
  | zero =>
    rw [walks, List.mem_map]
    constructor
    · rintro ⟨u, hu, heq⟩
      cases heq
      exact ⟨0, le_rfl, .seed hu⟩
    · rintro ⟨m, hm, hwalk⟩
      obtain rfl := Nat.le_zero.mp hm
      cases hwalk with
      | seed hseed => exact ⟨v, hseed, rfl⟩
  | succ n ih =>
    rw [walks, List.mem_append, List.mem_flatMap, ih]
    constructor
    · rintro (⟨m, hm, hwalk⟩ | ⟨⟨u, b⟩, hu, hrow⟩)
      · exact ⟨m, Nat.le_succ_of_le hm, hwalk⟩
      · obtain ⟨r, hr, heq⟩ := List.mem_map.mp hrow
        cases heq
        obtain ⟨m, hm, hwalk⟩ := ih.mp hu
        exact ⟨m + 1, Nat.succ_le_succ hm, .step hwalk hr⟩
    · rintro ⟨m, hm, hwalk⟩
      rcases Nat.lt_or_ge m (n + 1) with hlt | hge
      · exact Or.inl ⟨m, Nat.le_of_lt_succ hlt, hwalk⟩
      · obtain rfl := Nat.le_antisymm hm hge
        cases hwalk with
        | step hwalk hrow =>
          exact Or.inr ⟨_, ih.mpr ⟨n, le_rfl, hwalk⟩, List.mem_map_of_mem hrow⟩

theorem gain_mono (hdamped : net.Damped) {u : V} {r : V × ℚ × P} (hr : r ∈ net.rows u) {a b : ℚ}
    (h : a ≤ b) : net.gain a r ≤ net.gain b r := by
  unfold gain
  exact mul_le_mul_of_nonneg_right (mul_le_mul_of_nonneg_right h (hdamped.weight_nonneg u r hr))
    hdamped.decay_nonneg

theorem gain_nonneg (hdamped : net.Damped) {u : V} {r : V × ℚ × P} (hr : r ∈ net.rows u) {a : ℚ}
    (h : 0 ≤ a) : 0 ≤ net.gain a r :=
  mul_nonneg (mul_nonneg h (hdamped.weight_nonneg u r hr)) hdamped.decay_nonneg

theorem gain_zero (r : V × ℚ × P) : net.gain 0 r = 0 := by
  unfold gain
  rw [zero_mul, zero_mul]

theorem gain_le (hdamped : net.Damped) {u : V} {r : V × ℚ × P} (hr : r ∈ net.rows u) {a : ℚ}
    (h : 0 ≤ a) : net.gain a r ≤ a := by
  have hweight : a * r.2.1 ≤ a := mul_le_of_le_one_right h (hdamped.weight_le_one u r hr)
  have hpositive : 0 ≤ a * r.2.1 := mul_nonneg h (hdamped.weight_nonneg u r hr)
  exact (mul_le_of_le_one_right hpositive hdamped.decay_le_one).trans hweight

theorem walk_nonneg (hdamped : net.Damped) {a : ℚ} (h : net.Walk seeds n v a) : 0 ≤ a := by
  induction h with
  | seed _ => exact zero_le_one
  | step _ hrow ih => exact gain_nonneg hdamped hrow ih

variable [DecidableEq V]

variable (net seeds) in
/-- The highest product of a walk to a node, if there is a walk. -/
def bestWalk (n : Nat) (v : V) : Option ℚ :=
  (((net.walks seeds n).filter fun e => decide (e.1 = v)).map Prod.snd).max?

variable (net seeds) in
/-- The highest product of a walk to a node, and nothing without one. -/
def best (n : Nat) (v : V) : ℚ := (net.bestWalk seeds n v).getD 0

theorem bestWalk_eq_some_iff {a : ℚ} : net.bestWalk seeds n v = some a ↔
    (v, a) ∈ net.walks seeds n ∧ ∀ b, (v, b) ∈ net.walks seeds n → b ≤ a := by
  have hmem : ∀ b, b ∈ ((net.walks seeds n).filter fun e => decide (e.1 = v)).map Prod.snd ↔
      (v, b) ∈ net.walks seeds n := by
    intro b
    rw [List.mem_map]
    constructor
    · rintro ⟨⟨u, c⟩, he, rfl⟩
      obtain ⟨hwalk, hu⟩ := List.mem_filter.mp he
      obtain rfl : u = v := of_decide_eq_true hu
      exact hwalk
    · intro h
      exact ⟨(v, b), List.mem_filter.mpr ⟨h, decide_eq_true rfl⟩, rfl⟩
  unfold bestWalk
  rw [List.max?_eq_some_iff, hmem]
  exact and_congr_right' (forall_congr' fun b => by rw [hmem])

theorem bestWalk_eq_some_iff_isGreatest {a : ℚ} : net.bestWalk seeds n v = some a ↔
    IsGreatest {b | ∃ m ≤ n, net.Walk seeds m v b} a := by
  rw [bestWalk_eq_some_iff, mem_walks]
  refine and_congr_right' ⟨fun h b hb => h b (mem_walks.mpr hb), fun h b hb => h (mem_walks.mp hb)⟩

theorem bestWalk_isSome {a : ℚ} (h : (v, a) ∈ net.walks seeds n) :
    ∃ b, net.bestWalk seeds n v = some b := by
  refine Option.isSome_iff_exists.mp (List.isSome_max?_of_mem (a := a) (List.mem_map.mpr ⟨(v, a), ?_, rfl⟩))
  exact List.mem_filter.mpr ⟨h, decide_eq_true rfl⟩

theorem le_best {a : ℚ} (h : (v, a) ∈ net.walks seeds n) : a ≤ net.best seeds n v := by
  obtain ⟨b, hb⟩ := bestWalk_isSome h
  unfold best
  rw [hb, Option.getD_some]
  exact (bestWalk_eq_some_iff.mp hb).2 a h

variable (net seeds) in
theorem best_cases (n : Nat) (v : V) : (net.bestWalk seeds n v = none ∧ net.best seeds n v = 0) ∨
    (v, net.best seeds n v) ∈ net.walks seeds n := by
  unfold best
  cases h : net.bestWalk seeds n v with
  | none => exact Or.inl ⟨rfl, rfl⟩
  | some a => exact Or.inr (bestWalk_eq_some_iff.mp h).1

theorem best_nonneg (hdamped : net.Damped) (n : Nat) (v : V) : 0 ≤ net.best seeds n v := by
  rcases best_cases net seeds n v with ⟨-, hzero⟩ | hmem
  · exact hzero.ge
  · obtain ⟨m, -, hwalk⟩ := mem_walks.mp hmem
    exact walk_nonneg hdamped hwalk

theorem best_mono (hdamped : net.Damped) (n : Nat) (v : V) :
    net.best seeds n v ≤ net.best seeds (n + 1) v := by
  rcases best_cases net seeds n v with ⟨-, hzero⟩ | hmem
  · rw [hzero]
    exact best_nonneg hdamped _ v
  · exact le_best (List.mem_append_left _ hmem)

theorem gain_best_le (hdamped : net.Damped) (n : Nat) {u : V} {r : V × ℚ × P} (hr : r ∈ net.rows u) :
    net.gain (net.best seeds n u) r ≤ net.best seeds (n + 1) r.1 := by
  rcases best_cases net seeds n u with ⟨-, hzero⟩ | hmem
  · rw [hzero, gain_zero]
    exact best_nonneg hdamped _ _
  · refine le_best (List.mem_append_right _ (List.mem_flatMap.mpr ⟨_, hmem, ?_⟩))
    exact List.mem_map_of_mem hr

/-- A bound for one more edge. -/
theorem best_succ_le (hdamped : net.Damped) {y : ℚ} (hnonneg : 0 ≤ y) (hstay : net.best seeds n v ≤ y)
    (hstep : ∀ u, ∀ r ∈ net.rows u, r.1 = v → net.gain (net.best seeds n u) r ≤ y) :
    net.best seeds (n + 1) v ≤ y := by
  rcases best_cases net seeds (n + 1) v with ⟨-, hzero⟩ | hmem
  · exact hzero.le.trans hnonneg
  · rw [walks, List.mem_append, List.mem_flatMap] at hmem
    rcases hmem with hmem | ⟨⟨u, a⟩, hu, hrow⟩
    · exact (le_best hmem).trans hstay
    · obtain ⟨r, hr, heq⟩ := List.mem_map.mp hrow
      obtain ⟨hv, hscore⟩ := Prod.mk.inj heq
      rw [← hscore]
      exact (gain_mono hdamped hr (le_best hu)).trans (hstep u r hr hv)

theorem best_zero (v : V) : net.best seeds 0 v = if v ∈ seeds then 1 else 0 := by
  have hwalks : ∀ a, (v, a) ∈ net.walks seeds 0 ↔ v ∈ seeds ∧ a = 1 := by
    intro a
    rw [walks, List.mem_map]
    constructor
    · rintro ⟨u, hu, heq⟩
      cases heq
      exact ⟨hu, rfl⟩
    · rintro ⟨hv, rfl⟩
      exact ⟨v, hv, rfl⟩
  rcases best_cases net seeds 0 v with ⟨hnone, hzero⟩ | hmem
  · have hnot : v ∉ seeds := by
      intro hv
      obtain ⟨b, hb⟩ := bestWalk_isSome ((hwalks 1).mpr ⟨hv, rfl⟩)
      rw [hnone] at hb
      cases hb
    rw [hzero, if_neg hnot]
  · obtain ⟨hv, hone⟩ := (hwalks _).mp hmem
    rw [hone, if_pos hv]

end Walks

end Network

/-- The scores and payloads so far, and the nodes to visit next. -/
structure Spread (V : Type u) (P : Type v) where
  activation : AList fun _ : V => ℚ
  payload : AList fun _ : V => P
  frontier : List V

namespace Spread

variable {V : Type u} {P : Type v} [DecidableEq V]

/-- A node without a score counts as zero. -/
def score (s : Spread V P) (v : V) : ℚ := (s.activation.lookup v).getD 0

/-- A neighbour is raised to what reaches it, if that is more than it has. -/
def relax (net : Network V P) (current : ℚ) (s : Spread V P) (r : V × ℚ × P) : Spread V P :=
  if s.score r.1 < net.gain current r then
    { activation := s.activation.insert r.1 (net.gain current r)
      payload := s.payload.insert r.1 r.2.2
      frontier := s.frontier ++ [r.1] }
  else s

/-- In which orders a frontier is visited and the edges of a node come. -/
structure Orders (V : Type u) (P : Type v) where
  visits : List V → List V → Prop
  comes : V → List (V × ℚ × P) → Prop

/-- The nodes are visited in order, each with the score it has by then. -/
@[grind =] def VisitAll (net : Network V P) (orders : Orders V P) :
    List V → Spread V P → Spread V P → Prop
  | [], s, s' => s' = s
  | u :: nodes, s, s' => ∃ rows, orders.comes u rows ∧
      VisitAll net orders nodes (rows.foldl (relax net (s.score u)) s) s'

def Round (net : Network V P) (orders : Orders V P) (s s' : Spread V P) : Prop :=
  ∃ nodes, orders.visits nodes s.frontier ∧ VisitAll net orders nodes { s with frontier := [] } s'

/-- At most so many rounds; an empty frontier ends them. -/
@[grind =] def Expand (net : Network V P) (orders : Orders V P) :
    Nat → Spread V P → Spread V P → Prop
  | 0, s, s' => s' = s
  | n + 1, s, s' =>
    if s.frontier = [] then s' = s else ∃ next, Round net orders s next ∧ Expand net orders n next s'

/-- The rounds with everything visited in the order in which it is stored. -/
@[grind =] def run (net : Network V P) : Nat → Spread V P → Spread V P
  | 0, s => s
  | n + 1, s =>
    if s.frontier = [] then s
    else run net n (s.frontier.foldl (fun s u => (net.rows u).foldl (relax net (s.score u)) s)
      { s with frontier := [] })

section Relax

variable {net : Network V P} {orders : Orders V P} {s s' : Spread V P} {current : ℚ}
  {r : V × ℚ × P} {rows : List (V × ℚ × P)} {nodes : List V} {x : V}

theorem score_relax : (relax net current s r).score x =
    if x = r.1 then max (s.score x) (net.gain current r) else s.score x := by
  unfold relax
  by_cases hx : x = r.1
  · subst hx
    rw [if_pos rfl]
    split
    · rename_i hlt
      rw [max_eq_right hlt.le, score, AList.lookup_insert, Option.getD_some]
    · rename_i hnot
      rw [max_eq_left (not_lt.mp hnot)]
  · rw [if_neg hx]
    split
    · unfold score
      rw [AList.lookup_insert_ne hx]
    · rfl

theorem mem_frontier_relax : x ∈ (relax net current s r).frontier ↔
    x ∈ s.frontier ∨ s.score x < (relax net current s r).score x := by
  rw [score_relax]
  unfold relax
  by_cases hx : x = r.1
  · subst hx
    rw [if_pos rfl, lt_max_iff]
    split
    · rename_i hlt
      simp only [List.mem_append, List.mem_singleton, or_true, hlt]
    · rename_i hnot
      simp only [lt_irrefl, hnot, or_self, or_false]
  · rw [if_neg hx]
    split
    · simp only [List.mem_append, List.mem_singleton, hx, or_false, lt_irrefl]
    · simp only [lt_irrefl, or_false]

theorem score_le_relax : s.score x ≤ (relax net current s r).score x := by
  rw [score_relax]
  split
  · exact le_max_left _ _
  · exact le_rfl

theorem score_le_foldl : s.score x ≤ (rows.foldl (relax net current) s).score x := by
  induction rows generalizing s with
  | nil => exact le_rfl
  | cons r rows ih => exact score_le_relax.trans ih

theorem gain_le_foldl (hr : r ∈ rows) :
    net.gain current r ≤ (rows.foldl (relax net current) s).score r.1 := by
  induction rows generalizing s with
  | nil => cases hr
  | cons r' rows ih =>
    rcases List.mem_cons.mp hr with rfl | hr
    · have hfirst : net.gain current r ≤ (relax net current s r).score r.1 := by
        rw [score_relax, if_pos rfl]
        exact le_max_right _ _
      exact hfirst.trans score_le_foldl
    · exact ih hr

theorem foldl_score_le {bound : V → ℚ} (hs : ∀ v, s.score v ≤ bound v)
    (hrows : ∀ r ∈ rows, net.gain current r ≤ bound r.1) (v : V) :
    (rows.foldl (relax net current) s).score v ≤ bound v := by
  induction rows generalizing s with
  | nil => exact hs v
  | cons r rows ih =>
    refine ih (fun x => ?_) fun r' hr' => hrows r' (List.mem_cons_of_mem r hr')
    rw [score_relax]
    split
    · rename_i hx
      subst hx
      exact max_le (hs _) (hrows r List.mem_cons_self)
    · exact hs x

theorem mem_frontier_foldl : x ∈ (rows.foldl (relax net current) s).frontier ↔
    x ∈ s.frontier ∨ s.score x < (rows.foldl (relax net current) s).score x := by
  induction rows generalizing s with
  | nil => exact (or_iff_left (lt_irrefl _)).symm
  | cons r rows ih =>
    rw [List.foldl_cons, ih, mem_frontier_relax, or_assoc]
    refine or_congr_right ⟨fun h => ?_, fun h => ?_⟩
    · rcases h with h | h
      · exact h.trans_le score_le_foldl
      · exact score_le_relax.trans_lt h
    · have hle : s.score x ≤ (relax net current s r).score x := score_le_relax
      rcases hle.lt_or_eq with hlt | heq
      · exact Or.inl hlt
      · rw [heq] at h
        exact Or.inr h

end Relax

section Visits

variable {net : Network V P} {orders : Orders V P} {s s' : Spread V P} {nodes nodes' : List V} {x : V}

/-- The orders put things that are there in some order, and there is one. -/
structure Orders.Sound (net : Network V P) (orders : Orders V P) : Prop where
  visits_perm : ∀ {nodes frontier}, orders.visits nodes frontier → nodes.Perm frontier
  comes_perm : ∀ {u rows}, orders.comes u rows → rows.Perm (net.rows u)
  exists_visits : ∀ frontier, ∃ nodes, orders.visits nodes frontier
  exists_comes : ∀ u, ∃ rows, orders.comes u rows

theorem visitAll_append : VisitAll net orders (nodes ++ nodes') s s' ↔
    ∃ mid, VisitAll net orders nodes s mid ∧ VisitAll net orders nodes' mid s' := by
  induction nodes generalizing s with
  | nil =>
    constructor
    · intro h
      exact ⟨s, rfl, h⟩
    · rintro ⟨mid, rfl, h⟩
      exact h
  | cons u nodes ih =>
    constructor
    · rintro ⟨rows, hcomes, h⟩
      obtain ⟨mid, hfirst, hrest⟩ := ih.mp h
      exact ⟨mid, ⟨rows, hcomes, hfirst⟩, hrest⟩
    · rintro ⟨mid, ⟨rows, hcomes, hfirst⟩, hrest⟩
      exact ⟨rows, hcomes, ih.mpr ⟨mid, hfirst, hrest⟩⟩

theorem exists_visitAll (horders : Orders.Sound net orders) (nodes : List V) (s : Spread V P) :
    ∃ s', VisitAll net orders nodes s s' := by
  induction nodes generalizing s with
  | nil => exact ⟨s, rfl⟩
  | cons u nodes ih =>
    obtain ⟨rows, hcomes⟩ := horders.exists_comes u
    obtain ⟨s', hrest⟩ := ih (rows.foldl (relax net (s.score u)) s)
    exact ⟨s', rows, hcomes, hrest⟩

theorem score_le_visitAll (h : VisitAll net orders nodes s s') : s.score x ≤ s'.score x := by
  induction nodes generalizing s with
  | nil =>
    obtain rfl : s' = s := h
    exact le_rfl
  | cons u nodes ih =>
    obtain ⟨rows, -, hrest⟩ := h
    exact score_le_foldl.trans (ih hrest)

/-- Each visited node has raised its neighbours at least to what it had before. -/
theorem gain_le_visitAll (hdamped : net.Damped) (horders : Orders.Sound net orders)
    (h : VisitAll net orders nodes s s') {u : V} (hu : u ∈ nodes) {r : V × ℚ × P}
    (hr : r ∈ net.rows u) : net.gain (s.score u) r ≤ s'.score r.1 := by
  induction nodes generalizing s with
  | nil => cases hu
  | cons u' nodes ih =>
    obtain ⟨rows, hcomes, hrest⟩ := h
    rcases List.mem_cons.mp hu with rfl | hu
    · have hrow : r ∈ rows := (horders.comes_perm hcomes).mem_iff.mpr hr
      exact (gain_le_foldl hrow).trans (score_le_visitAll hrest)
    · exact (Network.gain_mono hdamped hr score_le_foldl).trans (ih hrest hu)

/-- A bound that no visited node passes on more than it allows holds throughout. -/
theorem visitAll_score_le (hdamped : net.Damped) (horders : Orders.Sound net orders)
    {bound : V → ℚ} (hs : ∀ v, s.score v ≤ bound v)
    (hstep : ∀ u ∈ nodes, ∀ r ∈ net.rows u, net.gain (bound u) r ≤ bound r.1)
    (h : VisitAll net orders nodes s s') (v : V) : s'.score v ≤ bound v := by
  induction nodes generalizing s with
  | nil =>
    obtain rfl : s' = s := h
    exact hs v
  | cons u nodes ih =>
    obtain ⟨rows, hcomes, hrest⟩ := h
    refine ih (fun x => ?_) (fun u' hu' => hstep u' (List.mem_cons_of_mem u hu')) hrest
    refine foldl_score_le hs (fun r hr => ?_) x
    have hrow : r ∈ net.rows u := (horders.comes_perm hcomes).mem_iff.mp hr
    exact (Network.gain_mono hdamped hrow (hs u)).trans (hstep u List.mem_cons_self r hrow)

/-- The next frontier is what was raised. -/
theorem mem_frontier_visitAll (h : VisitAll net orders nodes s s') :
    x ∈ s'.frontier ↔ x ∈ s.frontier ∨ s.score x < s'.score x := by
  induction nodes generalizing s with
  | nil =>
    obtain rfl : s' = s := h
    exact (or_iff_left (lt_irrefl _)).symm
  | cons u nodes ih =>
    obtain ⟨rows, -, hrest⟩ := h
    rw [ih hrest, mem_frontier_foldl, or_assoc]
    refine or_congr_right ⟨fun hraised => ?_, fun hraised => ?_⟩
    · rcases hraised with hraised | hraised
      · exact hraised.trans_le (score_le_visitAll hrest)
      · exact score_le_foldl.trans_lt hraised
    · have hle : s.score x ≤ (rows.foldl (relax net (s.score u)) s).score x := score_le_foldl
      rcases hle.lt_or_eq with hlt | heq
      · exact Or.inl hlt
      · rw [heq] at hraised
        exact Or.inr hraised

end Visits

section Rounds

variable {net : Network V P} {orders : Orders V P} {seeds : List V} {start s s' : Spread V P}
  {n k : Nat}

/-- So many rounds, each after the one before. -/
@[grind =] def Rounds (net : Network V P) (orders : Orders V P) (start : Spread V P) :
    Nat → Spread V P → Prop
  | 0, s => s = start
  | n + 1, s => ∃ before, Rounds net orders start n before ∧ Round net orders before s

/-- A round without a frontier changes nothing. -/
theorem round_of_frontier_nil (horders : Orders.Sound net orders) (h : s.frontier = []) :
    Round net orders s s' ↔ s' = s := by
  have hself : ({ s with frontier := [] } : Spread V P) = s := by
    rw [← h]
  constructor
  · rintro ⟨nodes, hvisits, hall⟩
    have hnil := horders.visits_perm hvisits
    rw [h, List.perm_nil] at hnil
    subst hnil
    rw [hself] at hall
    exact hall
  · rintro rfl
    obtain ⟨nodes, hvisits⟩ := horders.exists_visits s'.frontier
    have hnil := horders.visits_perm hvisits
    rw [h, List.perm_nil] at hnil
    subst hnil
    refine ⟨[], hvisits, ?_⟩
    rw [hself]
    rfl

theorem rounds_succ_iff : Rounds net orders start (n + 1) s ↔
    ∃ next, Round net orders start next ∧ Rounds net orders next n s := by
  induction n generalizing s with
  | zero =>
    constructor
    · rintro ⟨before, rfl, hround⟩
      exact ⟨s, hround, rfl⟩
    · rintro ⟨next, hround, rfl⟩
      exact ⟨start, rfl, hround⟩
  | succ n ih =>
    constructor
    · rintro ⟨before, hbefore, hround⟩
      obtain ⟨next, hfirst, hrest⟩ := ih.mp hbefore
      exact ⟨next, hfirst, before, hrest, hround⟩
    · rintro ⟨next, hfirst, before, hrest, hround⟩
      exact ⟨before, ih.mpr ⟨next, hfirst, hrest⟩, hround⟩

/-- The loop with its early end does that many rounds. -/
theorem expand_iff_rounds (horders : Orders.Sound net orders) :
    Expand net orders n start s ↔ Rounds net orders start n s := by
  induction n generalizing start with
  | zero => exact Iff.rfl
  | succ n ih =>
    rw [rounds_succ_iff, Expand]
    split
    · rename_i hnil
      have hstay : ∀ m, Rounds net orders start m s ↔ s = start := by
        intro m
        induction m with
        | zero => exact Iff.rfl
        | succ m ihm =>
          rw [rounds_succ_iff]
          constructor
          · rintro ⟨next, hround, hrest⟩
            obtain rfl := (round_of_frontier_nil horders hnil).mp hround
            exact ihm.mp hrest
          · intro heq
            exact ⟨start, (round_of_frontier_nil horders hnil).mpr rfl, ihm.mpr heq⟩
      constructor
      · intro heq
        exact ⟨start, (round_of_frontier_nil horders hnil).mpr rfl, (hstay n).mpr heq⟩
      · rintro ⟨next, hround, hrest⟩
        obtain rfl := (round_of_frontier_nil horders hnil).mp hround
        exact (hstay n).mp hrest
    · exact exists_congr fun next => and_congr_right' ih

theorem exists_rounds (horders : Orders.Sound net orders) (start : Spread V P) (n : Nat) :
    ∃ s, Rounds net orders start n s := by
  induction n with
  | zero => exact ⟨start, rfl⟩
  | succ n ih =>
    obtain ⟨before, hbefore⟩ := ih
    obtain ⟨nodes, hvisits⟩ := horders.exists_visits before.frontier
    obtain ⟨s, hall⟩ := exists_visitAll horders nodes { before with frontier := [] }
    exact ⟨s, before, hbefore, nodes, hvisits, hall⟩

variable (net orders) in
theorem expand_run (hvisits : ∀ frontier, orders.visits frontier frontier)
    (hcomes : ∀ u, orders.comes u (net.rows u)) (n : Nat) (s : Spread V P) :
    Expand net orders n s (run net n s) := by
  have hall : ∀ (nodes : List V) (s : Spread V P), VisitAll net orders nodes s
      (nodes.foldl (fun s u => (net.rows u).foldl (relax net (s.score u)) s) s) := by
    intro nodes
    induction nodes with
    | nil => exact fun s => rfl
    | cons u nodes ih => exact fun s => ⟨_, hcomes u, ih _⟩
  induction n generalizing s with
  | zero => rfl
  | succ n ih =>
    unfold Expand run
    split
    · rfl
    · exact ⟨_, ⟨_, hvisits s.frontier, hall _ _⟩, ih _⟩

/-- What raising a neighbour keeps, and no frontier changes, holds after every round. -/
theorem rounds_induction (horders : Orders.Sound net orders) {I : Spread V P → Prop}
    (hrelax : ∀ s current u, ∀ r ∈ net.rows u, I s → I (relax net current s r))
    (hfrontier : ∀ s : Spread V P, I s → I { s with frontier := [] }) (hstart : I start)
    (h : Rounds net orders start n s) : I s := by
  have hrows : ∀ (u : V) (current : ℚ) (rows : List (V × ℚ × P)), (∀ r ∈ rows, r ∈ net.rows u) →
      ∀ s, I s → I (rows.foldl (relax net current) s) := by
    intro u current rows
    induction rows with
    | nil => exact fun _ s hs => hs
    | cons r rows ih =>
      intro hmem s hs
      exact ih (fun r' hr' => hmem r' (List.mem_cons_of_mem r hr')) _
        (hrelax s current u r (hmem r List.mem_cons_self) hs)
  have hvisit : ∀ (nodes : List V) (s s' : Spread V P), VisitAll net orders nodes s s' → I s → I s' := by
    intro nodes
    induction nodes with
    | nil =>
      rintro s s' rfl hs
      exact hs
    | cons u nodes ih =>
      rintro s s' ⟨rows, hcomes, hrest⟩ hs
      exact ih _ _ hrest
        (hrows u _ rows (fun r hr => (horders.comes_perm hcomes).mem_iff.mp hr) s hs)
  induction n generalizing s with
  | zero =>
    obtain rfl : s = start := h
    exact hstart
  | succ n ih =>
    obtain ⟨before, hbefore, nodes, -, hall⟩ := h
    exact hvisit nodes _ s hall (hfrontier before (ih hbefore))

end Rounds

/-- Every seed has score one, nothing else a score, and the seeds are visited first. -/
structure Starts (seeds : List V) (start : Spread V P) : Prop where
  activation : ∀ v, start.activation.lookup v = if v ∈ seeds then some 1 else none
  frontier : ∀ v, v ∈ start.frontier ↔ v ∈ seeds

/-- The best walks of one edge less than the frontier's. -/
def bestBefore (net : Network V P) (seeds : List V) : Nat → V → ℚ
  | 0, _ => 0
  | k + 1, v => net.best seeds k v

/-- In no round does a node of the frontier pass on more than the round's walks are worth, even with
what the same round gives it. -/
def Calm (net : Network V P) (seeds : List V) (n : Nat) : Prop :=
  ∀ k < n, ∀ v, bestBefore net seeds k v < net.best seeds k v → ∀ r ∈ net.rows v,
    net.gain (net.best seeds (k + 1) v) r ≤ net.best seeds (k + 1) r.1

/-- What is reached is reached by a walk that keeps something. -/
def Lively (net : Network V P) (seeds : List V) (n : Nat) : Prop :=
  ∀ k ≤ n, ∀ v a, (v, a) ∈ net.walks seeds k → 0 < net.best seeds k v

section Exact

variable {net : Network V P} {orders : Orders V P} {seeds : List V} {start s s' : Spread V P}
  {n k : Nat}

/-- Every score is that of the best walks, and the frontier what the last edge has made better. -/
structure Exact (net : Network V P) (seeds : List V) (k : Nat) (s : Spread V P) : Prop where
  score : ∀ v, s.score v = net.best seeds k v
  frontier : ∀ v, v ∈ s.frontier ↔ bestBefore net seeds k v < net.best seeds k v

theorem exact_start (h : Starts seeds start) : Exact net seeds 0 start := by
  constructor
  · intro v
    rw [Network.best_zero, Spread.score, h.activation]
    split <;> rfl
  · intro v
    rw [h.frontier, Network.best_zero, bestBefore]
    split
    · rename_i hv
      exact iff_of_true hv zero_lt_one
    · rename_i hv
      exact iff_of_false hv (lt_irrefl 0)

theorem score_frontier_nil (s : Spread V P) (v : V) :
    ({ s with frontier := [] } : Spread V P).score v = s.score v := rfl

/-- A node outside the frontier has already given its neighbours what it can. -/
theorem gain_le_of_not_mem (hdamped : net.Damped) {u : V}
    (h : ¬bestBefore net seeds k u < net.best seeds k u) {r : V × ℚ × P} (hr : r ∈ net.rows u) :
    net.gain (net.best seeds k u) r ≤ net.best seeds k r.1 := by
  cases k with
  | zero =>
    have hzero : net.best seeds 0 u = 0 :=
      le_antisymm (not_lt.mp h) (Network.best_nonneg hdamped 0 u)
    rw [hzero, Network.gain_zero]
    exact Network.best_nonneg hdamped 0 r.1
  | succ k =>
    have hsame : net.best seeds (k + 1) u = net.best seeds k u :=
      le_antisymm (not_lt.mp h) (Network.best_mono hdamped k u)
    rw [hsame]
    exact Network.gain_best_le hdamped k hr

/-- The next best walks are no better than what visiting the frontier, but for one node, gives. -/
theorem best_succ_le_of_visited (hdamped : net.Damped) (horders : Orders.Sound net orders)
    (hexact : Exact net seeds k s) {nodes : List V}
    (hall : VisitAll net orders nodes { s with frontier := [] } s') {v : V}
    (hnodes : ∀ u ∈ s.frontier, u ≠ v → u ∈ nodes) : net.best seeds (k + 1) v ≤ s'.score v := by
  have hkeep : ∀ x, net.best seeds k x ≤ s'.score x := by
    intro x
    rw [← hexact.score, ← score_frontier_nil]
    exact score_le_visitAll hall
  refine Network.best_succ_le hdamped ((Network.best_nonneg hdamped k v).trans (hkeep v)) (hkeep v) ?_
  rintro u r hr rfl
  by_cases hself : u = r.1
  · rw [hself] at hr ⊢
    exact (Network.gain_le hdamped hr (Network.best_nonneg hdamped k _)).trans (hkeep _)
  · by_cases hfront : u ∈ s.frontier
    · have hgain := gain_le_visitAll hdamped horders hall (hnodes u hfront hself) hr
      rw [score_frontier_nil, hexact.score] at hgain
      exact hgain
    · rw [hexact.frontier] at hfront
      exact (gain_le_of_not_mem hdamped hfront hr).trans (hkeep _)

/-- A round from exact scores whose scores are exact again has an exact frontier. -/
theorem exact_of_score (hexact : Exact net seeds k s) (hround : Round net orders s s')
    (hscore : ∀ v, s'.score v = net.best seeds (k + 1) v) : Exact net seeds (k + 1) s' := by
  obtain ⟨nodes, -, hall⟩ := hround
  refine ⟨hscore, fun v => ?_⟩
  rw [mem_frontier_visitAll hall, score_frontier_nil, hexact.score, hscore, bestBefore]
  exact or_iff_right List.not_mem_nil

/-- A calm round keeps the scores exact. -/
theorem exact_round (hdamped : net.Damped) (horders : Orders.Sound net orders)
    (hexact : Exact net seeds k s) (hround : Round net orders s s')
    (hcalm : ∀ v, bestBefore net seeds k v < net.best seeds k v → ∀ r ∈ net.rows v,
      net.gain (net.best seeds (k + 1) v) r ≤ net.best seeds (k + 1) r.1) :
    Exact net seeds (k + 1) s' := by
  obtain ⟨nodes, hvisits, hall⟩ := hround
  have hperm := horders.visits_perm hvisits
  refine exact_of_score hexact ⟨nodes, hvisits, hall⟩ fun v => le_antisymm ?_ ?_
  · refine visitAll_score_le hdamped horders (fun x => ?_) (fun u hu => ?_) hall v
    · rw [score_frontier_nil, hexact.score]
      exact Network.best_mono hdamped k x
    · exact hcalm u ((hexact.frontier u).mp (hperm.mem_iff.mp hu))
  · exact best_succ_le_of_visited hdamped horders hexact hall fun u hu _ => hperm.mem_iff.mpr hu

theorem exact_rounds (hdamped : net.Damped) (horders : Orders.Sound net orders)
    (hstart : Starts seeds start) (hcalm : Calm net seeds n) (hk : k ≤ n)
    (h : Rounds net orders start k s) : Exact net seeds k s := by
  induction k generalizing s with
  | zero =>
    obtain rfl : s = start := h
    exact exact_start hstart
  | succ k ih =>
    obtain ⟨before, hbefore, hround⟩ := h
    exact exact_round hdamped horders (ih (Nat.le_of_succ_le hk) hbefore) hround (hcalm k hk)

/-- If every run of up to so many rounds is right, so is each of its frontiers. -/
theorem exact_of_scores (hstart : Starts seeds start)
    (hright : ∀ d ≤ n, ∀ s, Rounds net orders start d s → ∀ v, s.score v = net.best seeds d v)
    (hk : k ≤ n) (h : Rounds net orders start k s) : Exact net seeds k s := by
  induction k generalizing s with
  | zero =>
    obtain rfl : s = start := h
    exact exact_start hstart
  | succ k ih =>
    obtain ⟨before, hbefore, hround⟩ := h
    exact exact_of_score (ih (Nat.le_of_succ_le hk) hbefore) hround
      (hright (k + 1) hk s ⟨before, hbefore, hround⟩)

/-- If a frontier may be visited in any order, a round that is not calm goes wrong: the node that
passes on too much is visited last. -/
theorem calm_of_scores (hdamped : net.Damped) (horders : Orders.Sound net orders)
    (hany : ∀ nodes frontier : List V, nodes.Perm frontier → orders.visits nodes frontier)
    (hstart : Starts seeds start)
    (hright : ∀ d ≤ n, ∀ s, Rounds net orders start d s → ∀ v, s.score v = net.best seeds d v) :
    Calm net seeds n := by
  intro k hk v hv r hr
  obtain ⟨s, hs⟩ := exists_rounds horders start k
  have hexact := exact_of_scores hstart hright hk.le hs
  have hmem : v ∈ s.frontier := (hexact.frontier v).mpr hv
  have hperm : ((s.frontier.filter fun u => !decide (u = v)) ++
      s.frontier.filter fun u => decide (u = v)).Perm s.frontier :=
    List.perm_append_comm.trans (List.filter_append_perm (fun u => decide (u = v)) s.frontier)
  obtain ⟨mid, hmid⟩ := exists_visitAll horders (s.frontier.filter fun u => !decide (u = v))
    { s with frontier := [] }
  obtain ⟨s', hlast⟩ := exists_visitAll horders (s.frontier.filter fun u => decide (u = v)) mid
  have hround : Round net orders s s' :=
    ⟨_, hany _ _ hperm, visitAll_append.mpr ⟨mid, hmid, hlast⟩⟩
  have hbest : net.best seeds (k + 1) v ≤ mid.score v :=
    best_succ_le_of_visited hdamped horders hexact hmid fun u hu hne =>
      List.mem_filter.mpr ⟨hu, by simpa using hne⟩
  calc net.gain (net.best seeds (k + 1) v) r ≤ net.gain (mid.score v) r :=
        Network.gain_mono hdamped hr hbest
    _ ≤ s'.score r.1 := gain_le_visitAll hdamped horders hlast
        (List.mem_filter.mpr ⟨hmem, decide_eq_true rfl⟩) hr
    _ = net.best seeds (k + 1) r.1 := hright (k + 1) hk s' ⟨s, hs, hround⟩ r.1

/-- Scores are positive. -/
theorem activation_pos (horders : Orders.Sound net orders) (hstart : Starts seeds start)
    (h : Rounds net orders start n s) {v : V} {a : ℚ} (ha : s.activation.lookup v = some a) :
    0 < a := by
  refine rounds_induction (I := fun s => ∀ v a, s.activation.lookup v = some a → 0 < a) horders
    (fun s current u r _ hs v a hlookup => ?_) (fun _ hs => hs) (fun v a hlookup => ?_) h v a ha
  · unfold relax at hlookup
    split at hlookup
    · rename_i hlt
      by_cases hv : v = r.1
      · subst hv
        rw [AList.lookup_insert] at hlookup
        cases hlookup
        have hnonneg : 0 ≤ s.score r.1 := by
          unfold score
          cases hold : s.activation.lookup r.1 with
          | none => exact le_rfl
          | some b => exact (hs r.1 b hold).le
        exact hnonneg.trans_lt hlt
      · rw [AList.lookup_insert_ne hv] at hlookup
        exact hs v a hlookup
    · exact hs v a hlookup
  · rw [hstart.activation] at hlookup
    split at hlookup
    · cases hlookup
      exact zero_lt_one
    · cases hlookup

/-- The scores of the best walks are there exactly if the scores are right and the walks keep
something. -/
theorem lookup_eq_iff (horders : Orders.Sound net orders) (hstart : Starts seeds start)
    (h : Rounds net orders start n s) :
    (∀ v, s.activation.lookup v = net.bestWalk seeds n v) ↔
      (∀ v, s.score v = net.best seeds n v) ∧
        ∀ v a, (v, a) ∈ net.walks seeds n → 0 < net.best seeds n v := by
  constructor
  · intro hlookup
    refine ⟨fun v => ?_, fun v a hwalk => ?_⟩
    · rw [score, hlookup, Network.best]
    · obtain ⟨b, hb⟩ := Network.bestWalk_isSome hwalk
      have hpos := activation_pos horders hstart h ((hlookup v).trans hb)
      rw [Network.best, hb, Option.getD_some]
      exact hpos
  · rintro ⟨hscore, hlive⟩ v
    have hv := hscore v
    unfold score Network.best at hv
    cases hb : net.bestWalk seeds n v with
    | none =>
      cases hs : s.activation.lookup v with
      | none => rfl
      | some a =>
        have hpos := activation_pos horders hstart h hs
        rw [hs, hb] at hv
        exact absurd hv hpos.ne'
    | some b =>
      have hpos := hlive v b (Network.bestWalk_eq_some_iff.mp hb).1
      unfold Network.best at hpos
      cases hs : s.activation.lookup v with
      | none =>
        rw [hs] at hv
        rw [← hv] at hpos
        exact absurd hpos (lt_irrefl 0)
      | some a =>
        rw [hs, hb] at hv
        exact congrArg some hv

/-- Where a frontier may be visited in any order, the runs of up to so many rounds all give the best
walks exactly if every round is calm and what is reached is reached by something. -/
theorem rounds_best_iff (hdamped : net.Damped) (horders : Orders.Sound net orders)
    (hany : ∀ nodes frontier : List V, nodes.Perm frontier → orders.visits nodes frontier)
    (hstart : Starts seeds start) :
    (∀ d ≤ n, ∀ s, Rounds net orders start d s →
      ∀ v, s.activation.lookup v = net.bestWalk seeds d v) ↔
        Calm net seeds n ∧ Lively net seeds n := by
  constructor
  · intro h
    have hboth := fun d hd s hs => (lookup_eq_iff horders hstart hs).mp (h d hd s hs)
    refine ⟨calm_of_scores hdamped horders hany hstart fun d hd s hs => (hboth d hd s hs).1, ?_⟩
    intro d hd
    obtain ⟨s, hs⟩ := exists_rounds horders start d
    exact (hboth d hd s hs).2
  · rintro ⟨hcalm, hlively⟩ d hd s hs
    exact (lookup_eq_iff horders hstart hs).mpr
      ⟨(exact_rounds hdamped horders hstart hcalm hd hs).score, hlively d hd⟩

end Exact

end Spread

end Gyre.Lib
