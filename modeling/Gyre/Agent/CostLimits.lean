/- digest: Exactly when the cost guard's checks agree with the calls recorded today and lately. -/

import Gyre.Agent.CostGuard
import Gyre.Lib.Runs
import Gyre.Lib.FixedWindow
import Mathlib.Algebra.GroupWithZero.Nat
import Mathlib.Data.List.TakeWhile
import Mathlib.Data.Nat.Basic

/-!
What a check should answer depends on the recorded calls only: what they cost on the current day and
how many of them are less than an hour old. The guard keeps the total of the last day on which a
call was recorded, and a check does not look at the day.
-/

set_option autoImplicit false
set_option relaxedAutoImplicit false

namespace Gyre.Agent

open Gyre.Lib Gyre.Llm.Costs

/-- The recorded calls, each with its time and cost. -/
def recordings (ops : List GuardOp) : List (Nat × Nat) :=
  ops.filterMap fun
    | .check _ => none
    | .record now model inputTokens outputTokens =>
      some (now, callCost model inputTokens outputTokens)

/-- What the calls of a day cost. -/
def spentOn (date : Nat) (ops : List GuardOp) : Nat :=
  (((recordings ops).filter fun r => decide (dateOf r.1 = date)).map (·.2)).sum

/-- A daily limit is set, and the calls of the current day cost at least that much. -/
def BudgetReached (config : CostGuardConfig) (ops : List GuardOp) (now : Nat) : Prop :=
  ∃ limit, config.maxCostPerDayCents = some limit ∧
    limit.toNat ≤ cents (spentOn (dateOf now) ops)

/-- An hourly limit is set, and at least that many calls were recorded in the hour before. -/
def RateReached (config : CostGuardConfig) (ops : List GuardOp) (now : Nat) : Prop :=
  ∃ limit, config.maxActionsPerHour = some limit ∧
    limit.toNat ≤ ((recordings ops).filter fun r => decide (now ≤ r.1 + anHour)).length

def FailsDaily (answer : Except CostLimitExceeded Unit) : Prop :=
  ∃ spentCents limitCents, answer = .error (.dailyBudget spentCents limitCents)

def FailsHourly (answer : Except CostLimitExceeded Unit) : Prop :=
  ∃ actions limit, answer = .error (.hourlyRate actions limit)

/-- The answer a check owes to the calls recorded before it. -/
def AnswersLimits (config : CostGuardConfig) (ops : List GuardOp) (now : Nat)
    (answer : Except CostLimitExceeded Unit) : Prop :=
  (FailsDaily answer ↔ BudgetReached config ops now) ∧
    (¬ FailsDaily answer → (FailsHourly answer ↔ RateReached config ops now))

/-- The limit is zero; or the guard's own day is the current one, and its cents fit 64 bits or the
flag is set; or that day is over, and neither the flag nor its total stops the new day's calls. -/
def LooksAtToday (config : CostGuardConfig) (s : CostGuard) (now : Nat) : Prop :=
  ∀ limit, config.maxCostPerDayCents = some limit →
    limit = 0 ∨
      if dateOf now = s.resetDate then cents s.total < 2 ^ 64 ∨ s.budgetExceeded = true
      else s.budgetExceeded = false ∧ toCents s.total < limit.toNat

/-- What a guard knows of the calls recorded so far, all of them until `latest`. -/
structure Tracks (config : CostGuardConfig) (s : CostGuard) (ops : List GuardOp)
    (latest : Nat) : Prop where
  total : s.total = spentOn s.resetDate ops
  notLater : s.resetDate ≤ dateOf latest
  noneAfter : ∀ r ∈ recordings ops, dateOf r.1 ≤ s.resetDate
  ascending : ((recordings ops).map (·.1)).Pairwise (· ≤ ·)
  untilLatest : ∀ r ∈ recordings ops, r.1 ≤ latest
  window : ∃ old, (recordings ops).map (·.1) = old ++ s.actionWindow ∧
    ∀ t ∈ old, t < latest - anHour
  flag : s.budgetExceeded = true →
    ∃ limit, config.maxCostPerDayCents = some limit ∧ limit.toNat ≤ cents s.total

section Tracking

variable {config : CostGuardConfig} {s : CostGuard} {ops : List GuardOp} {latest now : Nat}

private theorem dateOf_mono (h : latest ≤ now) : dateOf latest ≤ dateOf now :=
  Nat.div_le_div_right h

private theorem cents_mono {a b : Nat} (h : a ≤ b) : cents a ≤ cents b :=
  Nat.div_le_div_right h

private theorem toCents_le (usd : Nat) : toCents usd ≤ cents usd := by
  unfold toCents
  split <;> omega

/-- What was spent today, from the guard's total. -/
private theorem Tracks.spentOn_today (h : Tracks config s ops latest) (hnow : latest ≤ now) :
    spentOn (dateOf now) ops = if dateOf now = s.resetDate then s.total else 0 := by
  split
  next htoday => rw [htoday, h.total]
  next hpast =>
    have hlater : s.resetDate < dateOf now :=
      lt_of_le_of_ne (le_trans h.notLater (dateOf_mono hnow)) (Ne.symm hpast)
    have hnone : ((recordings ops).filter fun r => decide (dateOf r.1 = dateOf now)) = [] := by
      refine List.filter_eq_nil_iff.mpr fun r hr => ?_
      have hday := h.noneAfter r hr
      simp only [decide_eq_true_eq]
      omega
    rw [spentOn, hnone]
    rfl

/-- The window, once what is too old is dropped, holds the calls of the last hour. -/
private theorem Tracks.recent (h : Tracks config s ops latest) (hnow : latest ≤ now) :
    (s.actionWindow.dropWhile fun t => decide (t < now - anHour)).length =
      ((recordings ops).filter fun r => decide (now ≤ r.1 + anHour)).length := by
  obtain ⟨old, hsplit, hold⟩ := h.window
  have hlost : ∀ t ∈ old, t < now - anHour := by
    intro t ht
    exact lt_of_lt_of_le (hold t ht) (Nat.sub_le_sub_right hnow anHour)
  refine length_window_since hsplit h.ascending hlost fun r => ?_
  rw [decide_eq_true_eq]
  omega

private theorem tracks_new (config : CostGuardConfig) (now : Nat) :
    Tracks config (.new now) [] now where
  total := rfl
  notLater := le_refl _
  noneAfter := List.forall_mem_nil _
  ascending := List.Pairwise.nil
  untilLatest := List.forall_mem_nil _
  window := ⟨[], rfl, List.forall_mem_nil _⟩
  flag := fun h => nomatch h

/-- Time passes and no call is recorded. -/
private theorem Tracks.later {ops' : List GuardOp} (h : Tracks config s ops latest)
    (hnow : latest ≤ now) (hsame : recordings ops' = recordings ops) :
    Tracks config s ops' now where
  total := by rw [spentOn, hsame, h.total, spentOn]
  notLater := le_trans h.notLater (dateOf_mono hnow)
  noneAfter := by
    rw [hsame]
    exact h.noneAfter
  ascending := by
    rw [hsame]
    exact h.ascending
  untilLatest := by
    rw [hsame]
    exact fun r hr => le_trans (h.untilLatest r hr) hnow
  window := by
    obtain ⟨old, hsplit, hold⟩ := h.window
    refine ⟨old, by rw [hsame, hsplit], fun t ht => ?_⟩
    exact lt_of_lt_of_le (hold t ht) (Nat.sub_le_sub_right hnow anHour)
  flag := h.flag

private theorem recordings_append (a b : List GuardOp) :
    recordings (a ++ b) = recordings a ++ recordings b :=
  List.filterMap_append

private theorem recordings_check (ops : List GuardOp) (now : Nat) :
    recordings (ops ++ [.check now]) = recordings ops := by
  rw [recordings_append]
  exact List.append_nil _

private theorem Tracks.checkHourly (h : Tracks config s ops latest) (hnow : latest ≤ now) :
    Tracks config (checkHourly config s now).1 (ops ++ [.check now]) now := by
  have hlater := h.later hnow (recordings_check ops now)
  cases hlimit : config.maxActionsPerHour with
  | none => simpa only [Agent.checkHourly, hlimit] using hlater
  | some limit =>
    have hdropped : (Agent.checkHourly config s now).1 = { s with
        actionWindow := s.actionWindow.dropWhile fun t => decide (t < now - anHour) } := by
      simp only [Agent.checkHourly, hlimit]
      split <;> rfl
    rw [hdropped]
    refine { hlater with window := ?_ }
    obtain ⟨old, hsplit, hold⟩ := hlater.window
    refine ⟨old ++ s.actionWindow.takeWhile fun t => decide (t < now - anHour), ?_, ?_⟩
    · rw [hsplit, List.append_assoc, List.takeWhile_append_dropWhile]
    · intro t ht
      rcases List.mem_append.mp ht with ht | ht
      · exact hold t ht
      · have hbefore := List.mem_takeWhile_imp ht
        exact of_decide_eq_true hbefore

/-- A check may raise the flag and forget old calls, no more. -/
private theorem Tracks.check (h : Tracks config s ops latest) (hnow : latest ≤ now) :
    Tracks config (checkAllowed config s now).1 (ops ++ [.check now]) now := by
  unfold checkAllowed
  split
  · exact h.later hnow (recordings_check ops now)
  · cases hlimit : config.maxCostPerDayCents with
    | none => exact h.checkHourly hnow
    | some limit =>
      dsimp only
      split
      next hreached =>
        refine { h.later hnow (recordings_check ops now) with flag := fun _ => ?_ }
        exact ⟨limit, hlimit, le_trans hreached (toCents_le s.total)⟩
      next => exact h.checkHourly hnow

/-- After the roll-over the guard tracks the current day. -/
private theorem Tracks.rollOver (h : Tracks config s ops latest) (hnow : latest ≤ now) :
    Tracks config (rollOver s now) ops now ∧ (Agent.rollOver s now).resetDate = dateOf now := by
  have hlater := h.later hnow rfl
  have htotal := h.spentOn_today hnow
  unfold Agent.rollOver
  split
  next hday =>
    rw [if_neg hday] at htotal
    refine ⟨{ hlater with
      total := htotal.symm
      notLater := le_refl _
      noneAfter := fun r hr => le_trans (h.noneAfter r hr) hlater.notLater
      flag := fun hflag => nomatch hflag }, rfl⟩
  next hday => exact ⟨hlater, (not_not.mp hday).symm⟩

private theorem recordings_record (ops : List GuardOp) (now : Nat) (model : String)
    (inputTokens outputTokens : UInt32) :
    recordings (ops ++ [.record now model inputTokens outputTokens]) =
      recordings ops ++ [(now, callCost model inputTokens outputTokens)] :=
  recordings_append ops _

private theorem spentOn_record {ops ops' : List GuardOp} {cost date : Nat}
    (hrecordings : recordings ops' = recordings ops ++ [(now, cost)]) (hday : dateOf now = date) :
    spentOn date ops' = spentOn date ops + cost := by
  simp only [spentOn, hrecordings, List.filter_append, List.map_append, List.sum_append]
  simp [hday]

private theorem Tracks.record (h : Tracks config s ops latest) (hnow : latest ≤ now)
    (model : String) (inputTokens outputTokens : UInt32) :
    Tracks config (recordLlmCall config s now (callCost model inputTokens outputTokens))
      (ops ++ [.record now model inputTokens outputTokens]) now := by
  obtain ⟨hrolled, hday⟩ := h.rollOver hnow
  generalize hs : Agent.rollOver s now = rolled at hrolled hday
  have hrecordings := recordings_record ops now model inputTokens outputTokens
  generalize callCost model inputTokens outputTokens = cost at hrecordings ⊢
  simp only [recordLlmCall, hs]
  constructor
  · dsimp only
    rw [spentOn_record hrecordings hday.symm, ← hrolled.total]
  · exact hrolled.notLater
  · rw [hrecordings]
    intro r hr
    rcases List.mem_append.mp hr with hr | hr
    · exact hrolled.noneAfter r hr
    · rw [List.mem_singleton.mp hr]
      exact le_of_eq hday.symm
  · rw [hrecordings, List.map_append, List.pairwise_append]
    refine ⟨hrolled.ascending, List.pairwise_singleton _ _, ?_⟩
    intro t ht t' ht'
    obtain ⟨r, hr, rfl⟩ := List.mem_map.mp ht
    rw [List.mem_singleton.mp ht']
    exact hrolled.untilLatest r hr
  · rw [hrecordings]
    intro r hr
    rcases List.mem_append.mp hr with hr | hr
    · exact hrolled.untilLatest r hr
    · rw [List.mem_singleton.mp hr]
  · obtain ⟨old, hsplit, hold⟩ := hrolled.window
    refine ⟨old, ?_, hold⟩
    rw [hrecordings, List.map_append, hsplit, List.append_assoc]
    rfl
  · intro hflag
    dsimp only at hflag ⊢
    rcases Bool.or_eq_true_iff.mp hflag with hflag | hcrossed
    · obtain ⟨limit, hlimit, hreached⟩ := hrolled.flag hflag
      exact ⟨limit, hlimit, le_trans hreached (cents_mono (Nat.le_add_right _ _))⟩
    · cases hlimit : config.maxCostPerDayCents with
      | none => simp [hlimit] at hcrossed
      | some limit =>
        rw [hlimit] at hcrossed
        exact ⟨limit, rfl, le_trans (of_decide_eq_true hcrossed) (toCents_le _)⟩

private theorem Tracks.step (h : Tracks config s ops latest) (op : GuardOp)
    (hop : latest ≤ op.time) : Tracks config (guardStep config s op).1 (ops ++ [op]) op.time := by
  cases op with
  | check now => exact h.check hop
  | record now model inputTokens outputTokens => exact h.record hop model inputTokens outputTokens

/-- A guard that is used at non-decreasing times tracks the calls it records. -/
private theorem Tracks.run {config : CostGuardConfig} {now : Nat} (later : List GuardOp) :
    ∀ {s : CostGuard} {ops : List GuardOp} {latest : Nat}, Tracks config s ops latest →
      (latest :: (later.map (·.time) ++ [now])).Pairwise (· ≤ ·) →
      ∃ last ≤ now, Tracks config (run (guardStep config) s later).1 (ops ++ later) last := by
  induction later with
  | nil =>
    intro s ops latest h hascending
    refine ⟨latest, ?_, by simpa using h⟩
    exact (List.pairwise_cons.mp hascending).1 now (by simp)
  | cons op later ih =>
    intro s ops latest h hascending
    obtain ⟨hfirst, hrest⟩ := List.pairwise_cons.mp hascending
    have hstep := h.step op (hfirst op.time (by simp))
    obtain ⟨last, hlast, htracks⟩ := ih hstep (by simpa using hrest)
    refine ⟨last, hlast, ?_⟩
    rw [List.append_assoc] at htracks
    exact htracks

end Tracking

section Answers

variable {config : CostGuardConfig} {s : CostGuard} {ops : List GuardOp} {latest now : Nat}

private theorem failsDaily_iff (hflag : s.budgetExceeded = true →
      ∃ limit, config.maxCostPerDayCents = some limit ∧ limit.toNat ≤ cents s.total) :
    FailsDaily (checkAllowed config s now).2 ↔
      ∃ limit, config.maxCostPerDayCents = some limit ∧
        (s.budgetExceeded = true ∨ limit.toNat ≤ toCents s.total) := by
  have hhourly : ¬ FailsDaily (checkHourly config s now).2 := by
    unfold checkHourly FailsDaily
    split
    · simp
    · dsimp only
      split <;> simp
  unfold checkAllowed
  split
  next hset =>
    obtain ⟨limit, hlimit, -⟩ := hflag hset
    exact iff_of_true ⟨_, _, rfl⟩ ⟨limit, hlimit, Or.inl hset⟩
  next hunset =>
    cases hlimit : config.maxCostPerDayCents with
    | none => simpa using hhourly
    | some limit =>
      dsimp only
      split
      next hreached => exact iff_of_true ⟨_, _, rfl⟩ ⟨limit, rfl, Or.inr hreached⟩
      next hbelow =>
        refine iff_of_false hhourly ?_
        rintro ⟨_, hsome, hset | hreached⟩
        · exact hunset hset
        · cases hsome
          exact hbelow hreached

private theorem failsHourly_iff (h : Tracks config s ops latest) (hnow : latest ≤ now) :
    FailsHourly (checkHourly config s now).2 ↔ RateReached config ops now := by
  unfold RateReached
  rw [← h.recent hnow]
  unfold checkHourly FailsHourly
  cases config.maxActionsPerHour with
  | none => simp
  | some limit =>
    dsimp only
    split
    next hreached => exact iff_of_true ⟨_, _, rfl⟩ ⟨limit, rfl, hreached⟩
    next hbelow =>
      refine iff_of_false (by simp) ?_
      rintro ⟨_, hsome, hreached⟩
      cases hsome
      exact hbelow hreached

/-- The hourly half of a check is always right. -/
private theorem answersLimits_iff (h : Tracks config s ops latest) (hnow : latest ≤ now) :
    AnswersLimits config ops now (checkAllowed config s now).2 ↔
      (FailsDaily (checkAllowed config s now).2 ↔ BudgetReached config ops now) := by
  refine and_iff_left fun hdaily => ?_
  rw [← failsHourly_iff h hnow]
  have hanswer : (checkAllowed config s now).2 = (checkHourly config s now).2 := by
    unfold checkAllowed at hdaily ⊢
    split
    next hset => exact absurd ⟨_, _, by rw [if_pos hset]⟩ hdaily
    next hunset =>
      rw [if_neg hunset] at hdaily
      cases hlimit : config.maxCostPerDayCents with
      | none => rfl
      | some limit =>
        simp only [hlimit] at hdaily ⊢
        split
        next hreached => exact absurd ⟨_, _, by rw [if_pos hreached]⟩ hdaily
        next => rfl
  rw [hanswer]

/-- A check is right about the day exactly when the guard looks at the current one. -/
private theorem failsDaily_iff_budgetReached (h : Tracks config s ops latest)
    (hnow : latest ≤ now) :
    (FailsDaily (checkAllowed config s now).2 ↔ BudgetReached config ops now) ↔
      LooksAtToday config s now := by
  rw [failsDaily_iff h.flag]
  unfold BudgetReached LooksAtToday
  rw [h.spentOn_today hnow]
  cases hlimit : config.maxCostPerDayCents with
  | none => simp
  | some limit =>
    have hflag : s.budgetExceeded = true → limit.toNat ≤ cents s.total := by
      intro hset
      obtain ⟨_, hsome, hreached⟩ := h.flag hset
      cases hlimit.symm.trans hsome
      exact hreached
    have hbound : limit.toNat < 2 ^ 64 := limit.toNat_lt
    have hzero : limit = 0 ↔ limit.toNat = 0 := by
      rw [← UInt64.toNat_inj]
      rfl
    simp only [Option.some.injEq, exists_eq_left', forall_eq', hzero]
    by_cases hday : dateOf now = s.resetDate
    · simp only [if_pos hday]
      by_cases hfits : cents s.total < 2 ^ 64
      · have hcents : toCents s.total = cents s.total := if_pos hfits
        rw [hcents]
        exact iff_of_true ⟨fun hreached => hreached.elim hflag id, Or.inr⟩ (Or.inr (Or.inl hfits))
      · have hcents : toCents s.total = 0 := if_neg hfits
        have hreached : limit.toNat ≤ cents s.total := by omega
        simp only [hcents, hreached, hfits, iff_true, false_or, Nat.le_zero_eq]
        exact or_comm
    · simp only [if_neg hday]
      have hnothing : cents 0 = 0 := rfl
      rw [hnothing, Nat.le_zero_eq]
      cases s.budgetExceeded with
      | true => simp
      | false =>
        simp only [Bool.false_eq_true, false_or, true_and]
        omega

end Answers

section Midnight

private def oneCentADay : CostGuardConfig := ⟨some 1, none⟩

/-- One call at noon that costs twelve and a half cents, and a check a day later. -/
private def nextDay : List GuardOp :=
  [.record (43200 * 10 ^ 9) "gpt-4o" 10000 10000, .check (129600 * 10 ^ 9)]

end Midnight

end Gyre.Agent
