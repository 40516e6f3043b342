/- digest: Which providers a request tries, and when a provider is in cooldown, by the history of calls. -/

import Mathlib.Data.List.Nodup
import Gyre.Lib.Reach
import Gyre.Llm.Failover

set_option autoImplicit false
set_option relaxedAutoImplicit false

namespace Gyre.Llm

open Gyre.Lib

universe u

variable {α : Type u}

inductive CallOutcome where
  | succeeded
  /-- Failed with a retryable error. -/
  | failed
  | refused
  deriving DecidableEq, Repr

structure ProviderCall where
  provider : Nat
  outcome : CallOutcome
  time : Nat
  deriving DecidableEq, Repr

def Answer.outcome (answer : Answer α) : CallOutcome :=
  match answer.result with
  | .ok _ => .succeeded
  | .error err => if isRetryable err then .failed else .refused

/-- A request: when it comes, and what each provider answers if it is called. -/
structure FailoverRequest (α : Type u) where
  now : Nat
  answers : Nat → Answer α

def FailoverRequest.call (r : FailoverRequest α) (i : Nat) : ProviderCall :=
  ⟨i, (r.answers i).outcome, (r.answers i).time⟩

/-- The times of the retryable failures of a provider since its last success. -/
def failureTimes (i : Nat) (history : List ProviderCall) : List Nat :=
  history.foldl
    (fun times call =>
      if call.provider = i then
        match call.outcome with
        | .succeeded => []
        | .failed => times ++ [call.time]
        | .refused => times
      else times)
    []

/-- The failover with all calls to its providers so far. -/
structure FailoverWorld where
  failover : Failover
  history : List ProviderCall

namespace FailoverWorld

def step (w : FailoverWorld) (r : FailoverRequest α) : FailoverWorld :=
  let tried := w.failover.tryProviders r.now r.answers
  ⟨tried.2.2, w.history ++ tried.2.1.map r.call⟩

def size (w : FailoverWorld) : Nat := w.failover.cooldowns.length

/-- When the cooldown of a provider was activated: at its last failure, and not before one nanosecond. -/
def activation (w : FailoverWorld) (i : Nat) : Nat :=
  max ((failureTimes i w.history).getLastD 0) 1

/-- The provider has failed often enough since its last success, and the last time lately. -/
def CoolingAt (w : FailoverWorld) (i now : Nat) : Prop :=
  w.failover.config.failureThreshold.toNat ≤ (failureTimes i w.history).length ∧
    failureTimes i w.history ≠ [] ∧ now - w.activation i < w.failover.config.cooldownDuration

instance (w : FailoverWorld) (i now : Nat) : Decidable (w.CoolingAt i now) :=
  inferInstanceAs (Decidable (_ ∧ _ ∧ _))

/-- The providers that are not in cooldown. -/
def listed (w : FailoverWorld) (now : Nat) : List Nat :=
  (List.range w.size).filter fun i => !decide (w.CoolingAt i now)

/-- The first provider among those whose cooldown was activated first. -/
def ActivatedFirst (w : FailoverWorld) (i : Nat) : Prop :=
  i < w.size ∧ ∀ j < w.size, w.activation i ≤ w.activation j ∧
    (w.activation j = w.activation i → i ≤ j)

/-- What a request does: it calls the providers of a list in order up to the first one whose answer is
final, or all of them, and returns the last answer. -/
def FollowsOrder (w : FailoverWorld) (r : FailoverRequest α) : Prop :=
  let tried := w.failover.tryProviders r.now r.answers
  ∃ before i rest,
    (w.listed r.now = before ++ i :: rest ∨
      w.listed r.now = [] ∧ before = [] ∧ rest = [] ∧ w.ActivatedFirst i) ∧
    tried.2.1 = before ++ [i] ∧ tried.1 = (r.answers i).result ∧
    (∀ j ∈ before, (r.answers j).isFinal = false) ∧ ((r.answers i).isFinal = true ∨ rest = [])

/-- The readings of the clock fit into 64 bits and the failures in a row into 32 bits. -/
def Fits (w : FailoverWorld) (r : FailoverRequest α) : Prop :=
  r.now < 18446744073709551616 ∧ ∀ i < w.size,
    (r.answers i).time < 18446744073709551616 ∧
      (failureTimes i w.history).length + 1 < 4294967296

/-- The state of every provider tells of its failures since its last success. -/
structure Tracks (w : FailoverWorld) : Prop where
  count : ∀ i < w.size, (w.failover.cooldown i).failureCount.toNat = (failureTimes i w.history).length
  activated : ∀ i < w.size, (w.failover.cooldown i).cooldownActivatedNanos.toNat =
    if w.failover.config.failureThreshold.toNat ≤ (failureTimes i w.history).length ∧
      failureTimes i w.history ≠ [] then w.activation i else 0

end FailoverWorld

section Cooldowns

variable {f : Failover} {i j : Nat} {c : ProviderCooldown}

theorem cooldown_setCooldown (hi : i < f.cooldowns.length) :
    (f.setCooldown i c).cooldown j = if i = j then c else f.cooldown j := by
  unfold Failover.cooldown Failover.setCooldown
  show (f.cooldowns.set i c).getD j .new = _
  rw [List.getD_eq_getElem?_getD, List.getElem?_set]
  split
  next h =>
    subst h
    rfl
  next => rw [List.getD_eq_getElem?_getD]

theorem record_length (f : Failover) (i : Nat) (answer : Answer α) :
    (f.record i answer).cooldowns.length = f.cooldowns.length := by
  unfold Failover.record
  split
  · exact List.length_set
  · split
    · split
      · exact List.length_set
      · exact List.length_set
    · rfl

theorem record_config (f : Failover) (i : Nat) (answer : Answer α) :
    (f.record i answer).config = f.config := by
  unfold Failover.record
  split
  · rfl
  · split
    · split
      · rfl
      · rfl
    · rfl

theorem record_cooldown_ne (answer : Answer α) (hi : i < f.cooldowns.length) (hj : j ≠ i) :
    (f.record i answer).cooldown j = f.cooldown j := by
  have hset (c : ProviderCooldown) : (f.setCooldown i c).cooldown j = f.cooldown j := by
    rw [cooldown_setCooldown hi, if_neg hj.symm]
  unfold Failover.record
  split
  · exact hset _
  · split
    · split
      · exact hset _
      · exact hset _
    · rfl

/-- A failure that counts. -/
theorem record_failure {f : Failover} {i : Nat} {answer : Answer α} {err : LlmError}
    (hanswer : answer.result = .error err) (hretry : isRetryable err = true) :
    f.record i answer = f.setCooldown i
      (if f.config.failureThreshold ≤ (f.cooldown i).failureCount + 1 then
        ProviderCooldown.activateCooldown
          { f.cooldown i with failureCount := (f.cooldown i).failureCount + 1 } (nanos64 answer.time)
      else { f.cooldown i with failureCount := (f.cooldown i).failureCount + 1 }) := by
  unfold Failover.record
  simp only [hanswer, if_pos hretry, ProviderCooldown.recordFailure]
  by_cases hreached : f.config.failureThreshold ≤ (f.cooldown i).failureCount + 1
  · rw [decide_eq_true hreached, if_pos hreached]
  · rw [decide_eq_false hreached, if_neg hreached]

theorem failureTimes_concat (i : Nat) (history : List ProviderCall) (call : ProviderCall) :
    failureTimes i (history ++ [call]) =
      if call.provider = i then
        match call.outcome with
        | .succeeded => []
        | .failed => failureTimes i history ++ [call.time]
        | .refused => failureTimes i history
      else failureTimes i history := by
  unfold failureTimes
  rw [List.foldl_append]
  rfl

theorem toNat_nanos64 {nanos : Nat} (h : nanos < 18446744073709551616) :
    (nanos64 nanos).toNat = nanos := by
  unfold nanos64
  rw [UInt64.toNat_ofNat']
  exact Nat.mod_eq_of_lt h

end Cooldowns

namespace FailoverWorld

section Steps

variable {w : FailoverWorld} {i : Nat}

/-- The state after one call of a provider. -/
def called (w : FailoverWorld) (i : Nat) (answer : Answer α) : FailoverWorld :=
  ⟨w.failover.record i answer, w.history ++ [⟨i, answer.outcome, answer.time⟩]⟩

theorem called_failureTimes_ne (answer : Answer α) {j : Nat} (hj : j ≠ i) :
    failureTimes j (w.called i answer).history = failureTimes j w.history := by
  show failureTimes j (w.history ++ [⟨i, answer.outcome, answer.time⟩]) = _
  rw [failureTimes_concat]
  exact if_neg hj.symm

theorem called_failureTimes (answer : Answer α) :
    failureTimes i (w.called i answer).history =
      match answer.outcome with
      | .succeeded => []
      | .failed => failureTimes i w.history ++ [answer.time]
      | .refused => failureTimes i w.history := by
  show failureTimes i (w.history ++ [⟨i, answer.outcome, answer.time⟩]) = _
  rw [failureTimes_concat]
  exact if_pos rfl

theorem Tracks.called (h : w.Tracks) (hi : i < w.size) {answer : Answer α}
    (htime : answer.time < 18446744073709551616)
    (hcount : (failureTimes i w.history).length + 1 < 4294967296) :
    (w.called i answer).Tracks := by
  have hsize : (w.called i answer).size = w.size := record_length w.failover i answer
  have hconfig : (w.called i answer).failover.config = w.failover.config :=
    record_config w.failover i answer
  -- another provider is left as it is
  have hother (j : Nat) (hj : j ≠ i) :
      (w.called i answer).failover.cooldown j = w.failover.cooldown j ∧
        failureTimes j (w.called i answer).history = failureTimes j w.history :=
    ⟨record_cooldown_ne answer hi hj, called_failureTimes_ne answer hj⟩
  -- what is left to show is about the provider called
  have hreduce
      (hown : ((w.called i answer).failover.cooldown i).failureCount.toNat =
          (failureTimes i (w.called i answer).history).length ∧
        ((w.called i answer).failover.cooldown i).cooldownActivatedNanos.toNat =
          if w.failover.config.failureThreshold.toNat ≤
              (failureTimes i (w.called i answer).history).length ∧
              failureTimes i (w.called i answer).history ≠ [] then
            (w.called i answer).activation i else 0) : (w.called i answer).Tracks := by
    constructor
    · intro j hj
      rw [hsize] at hj
      by_cases heq : j = i
      · subst heq
        exact hown.1
      · obtain ⟨hcooldown, htimes⟩ := hother j heq
        rw [hcooldown, htimes]
        exact h.count j hj
    · intro j hj
      rw [hsize] at hj
      rw [hconfig]
      by_cases heq : j = i
      · subst heq
        exact hown.2
      · obtain ⟨hcooldown, htimes⟩ := hother j heq
        have hactivation : (w.called i answer).activation j = w.activation j := by
          unfold activation
          rw [htimes]
        rw [hcooldown, htimes, hactivation]
        exact h.activated j hj
  apply hreduce
  have hcountBefore := h.count i hi
  have hactivatedBefore := h.activated i hi
  have htimes := called_failureTimes (w := w) (i := i) answer
  have hcooldown : (w.called i answer).failover.cooldown i =
      (w.failover.record i answer).cooldown i := rfl
  unfold Answer.outcome at htimes
  unfold Failover.record at hcooldown
  cases hresult : answer.result with
  | ok response =>
    rw [hresult] at htimes hcooldown
    have hreset : (w.called i answer).failover.cooldown i = .reset :=
      hcooldown.trans ((cooldown_setCooldown hi).trans (if_pos rfl))
    rw [hreset, htimes]
    exact ⟨rfl, (if_neg fun hnot => hnot.2 rfl).symm⟩
  | error err =>
    rw [hresult] at htimes hcooldown
    cases hretry : isRetryable err with
    | false =>
      simp only [hretry, Bool.false_eq_true, if_false] at htimes hcooldown
      have hactivation : (w.called i answer).activation i = w.activation i := by
        unfold activation
        rw [htimes]
      rw [hcooldown, htimes, hactivation]
      exact ⟨hcountBefore, hactivatedBefore⟩
    | true =>
      simp only [hretry, if_true, ProviderCooldown.recordFailure] at htimes hcooldown
      have hincremented : ((w.failover.cooldown i).failureCount + 1).toNat =
          (failureTimes i w.history).length + 1 := by
        rw [UInt32.toNat_add, hcountBefore]
        exact Nat.mod_eq_of_lt hcount
      have hlength : (failureTimes i w.history ++ [answer.time]).length =
          (failureTimes i w.history).length + 1 := List.length_append
      have hactivation : (w.called i answer).activation i = max answer.time 1 := by
        unfold activation
        rw [htimes, List.getLastD_concat]
      by_cases hreached : w.failover.config.failureThreshold ≤
          (w.failover.cooldown i).failureCount + 1
      · have hthreshold : w.failover.config.failureThreshold.toNat ≤
            (failureTimes i w.history).length + 1 := by
          rw [← hincremented]
          exact UInt32.le_iff_toNat_le.mp hreached
        rw [decide_eq_true hreached] at hcooldown
        simp only [cooldown_setCooldown hi, if_true] at hcooldown
        rw [hcooldown, htimes, hactivation, hlength, if_pos ⟨hthreshold, by simp⟩]
        refine ⟨hincremented, ?_⟩
        show (if nanos64 answer.time = 0 then (1 : UInt64) else nanos64 answer.time).toNat = _
        have hnanos := toNat_nanos64 htime
        split
        next hzero =>
          rw [hzero] at hnanos
          have hsame : answer.time = 0 := hnanos.symm
          rw [hsame]
          rfl
        next hnonzero =>
          have hpositive : answer.time ≠ 0 := by
            rintro hzero
            apply hnonzero
            rw [hzero]
            rfl
          rw [hnanos]
          omega
      · have hthreshold : ¬ w.failover.config.failureThreshold.toNat ≤
            (failureTimes i w.history).length + 1 := by
          rw [← hincremented]
          exact fun hle => hreached (UInt32.le_iff_toNat_le.mpr hle)
        rw [decide_eq_false hreached] at hcooldown
        simp only [cooldown_setCooldown hi, if_true] at hcooldown
        rw [hcooldown, htimes, hlength, if_neg fun hnot => hthreshold hnot.1]
        refine ⟨hincremented, ?_⟩
        show (w.failover.cooldown i).cooldownActivatedNanos.toNat = 0
        rw [hactivatedBefore]
        exact if_neg fun hnot => hthreshold (Nat.le_succ_of_le hnot.1)

/-- The code's test for a cooldown goes by the history. -/
theorem Tracks.isCooling_iff (h : w.Tracks) (hi : i < w.size) {now : Nat}
    (hnow : now < 18446744073709551616)
    (hduration : w.failover.config.cooldownDuration < 18446744073709551616) :
    w.failover.isCooling i now = true ↔ w.CoolingAt i now := by
  have hactivated := h.activated i hi
  have hpositive : 0 < w.activation i := by
    unfold activation
    omega
  unfold Failover.isCooling ProviderCooldown.isInCooldown CoolingAt
  rw [Bool.and_eq_true, bne_iff_ne, decide_eq_true_iff, toNat_nanos64 hnow, toNat_nanos64 hduration]
  have hzero : (w.failover.cooldown i).cooldownActivatedNanos = 0 ↔
      (w.failover.cooldown i).cooldownActivatedNanos.toNat = 0 :=
    UInt64.toNat_inj.symm
  rw [ne_eq, hzero, hactivated]
  split
  next hfailed =>
    constructor
    · exact fun hcooling => ⟨hfailed.1, hfailed.2, hcooling.2⟩
    · exact fun hcooling => ⟨Nat.pos_iff_ne_zero.mp hpositive, hcooling.2.2⟩
  next hfailed =>
    constructor
    · exact fun hcooling => absurd rfl hcooling.1
    · exact fun hcooling => absurd ⟨hcooling.1, hcooling.2.1⟩ hfailed

theorem idxOf_range {n j : Nat} (hj : j < n) : (List.range n).idxOf j = j := by
  have hlength : j < (List.range n).length := by
    rw [List.length_range]
    exact hj
  have hindex := List.nodup_range.idxOf_getElem j hlength
  rw [List.getElem_range] at hindex
  exact hindex

/-- The providers tried are those not in cooldown, or the one whose cooldown is the oldest. -/
theorem Tracks.available (h : w.Tracks) {now : Nat} (hnow : now < 18446744073709551616)
    (hduration : w.failover.config.cooldownDuration < 18446744073709551616) :
    w.failover.available now = w.listed now ∧ w.listed now ≠ [] ∨
      w.listed now = [] ∧ ∃ i, w.failover.available now = [i] ∧ w.ActivatedFirst i := by
  have hfree : ((List.range w.size).filter fun i => !w.failover.isCooling i now) = w.listed now := by
    apply List.filter_congr
    intro j hj
    have hcooling := h.isCooling_iff (List.mem_range.mp hj) hnow hduration
    rw [Bool.eq_iff_iff]
    simp only [Bool.not_eq_true', decide_eq_false_iff_not, ← hcooling, Bool.not_eq_true]
  have havailable : w.failover.available now =
      if (w.listed now).isEmpty then w.failover.oldest.toList else w.listed now := by
    rw [← hfree]
    rfl
  rw [havailable]
  by_cases hempty : w.listed now = []
  · rw [hempty]
    refine .inr ⟨rfl, ?_⟩
    -- all providers are in cooldown
    have hactivated (j : Nat) (hj : j < w.size) :
        (w.failover.cooldown j).cooldownActivatedNanos.toNat = w.activation j := by
      have hcooling : w.CoolingAt j now := by
        have hnot := List.filter_eq_nil_iff.mp hempty j (List.mem_range.mpr hj)
        simpa using hnot
      rw [h.activated j hj]
      exact if_pos ⟨hcooling.1, hcooling.2.1⟩
    cases holdest : w.failover.oldest with
    | none =>
      have hrange : List.range w.size = [] := List.argmin_eq_none.mp holdest
      have hsize : w.size = 0 := List.range_eq_nil.mp hrange
      have hinhabited := w.failover.inhabited
      unfold size at hsize
      omega
    | some o =>
      have hmem : o < w.size := List.mem_range.mp (List.argmin_mem holdest)
      refine ⟨o, rfl, hmem, fun j hj => ⟨?_, fun hsame => ?_⟩⟩
      · have hle := List.le_of_mem_argmin (List.mem_range.mpr hj) holdest
        rw [hactivated o hmem, hactivated j hj] at hle
        exact hle
      · have hindex := List.index_of_argmin holdest (List.mem_range.mpr hj) (by
          rw [hactivated o hmem, hactivated j hj, hsame])
        have hfirst : (List.range w.failover.cooldowns.length).idxOf o = o := idxOf_range hmem
        have hsecond : (List.range w.failover.cooldowns.length).idxOf j = j := idxOf_range hj
        rw [hfirst, hsecond] at hindex
        exact hindex
  · refine .inl ⟨?_, hempty⟩
    rw [List.isEmpty_eq_false_iff.mpr hempty]
    rfl

/-- What the loop does with a list of providers: the calls up to a final answer or the end, the last
answer, and the state after these calls. -/
theorem tryEach_spec (answers : Nat → Answer α) (list : List Nat) (hlist : list ≠ []) :
    ∀ (f : Failover) (lastError : Option LlmError), ∃ before i rest,
      list = before ++ i :: rest ∧
      Failover.tryEach answers f lastError list = ((answers i).result, before ++ [i],
        (before ++ [i]).foldl (fun f j => f.record j (answers j)) f) ∧
      (∀ j ∈ before, (answers j).isFinal = false) ∧ ((answers i).isFinal = true ∨ rest = []) := by
  induction list with
  | nil => exact absurd rfl hlist
  | cons i rest ih =>
    intro f lastError
    cases hresult : (answers i).result with
    | ok response =>
      have hfinal : (answers i).isFinal = true := by
        unfold Answer.isFinal
        rw [hresult]
      refine ⟨[], i, rest, rfl, ?_, fun _ hj => absurd hj List.not_mem_nil, .inl hfinal⟩
      rw [Failover.tryEach, hresult]
      rfl
    | error err =>
      cases hretry : isRetryable err with
      | false =>
        have hfinal : (answers i).isFinal = true := by
          unfold Answer.isFinal
          rw [hresult]
          simp [hretry]
        have hrecord : f.record i (answers i) = f := by
          unfold Failover.record
          rw [hresult]
          simp [hretry]
        refine ⟨[], i, rest, rfl, ?_, fun _ hj => absurd hj List.not_mem_nil, .inl hfinal⟩
        rw [Failover.tryEach, hresult]
        simp only [hretry, Bool.false_eq_true, if_false, List.nil_append, List.foldl_cons,
          List.foldl_nil, hrecord]
      | true =>
        have hnot : (answers i).isFinal = false := by
          unfold Answer.isFinal
          rw [hresult]
          simp [hretry]
        have hstep : Failover.tryEach answers f lastError (i :: rest) =
            ((Failover.tryEach answers (f.record i (answers i)) (some err) rest).1,
              i :: (Failover.tryEach answers (f.record i (answers i)) (some err) rest).2.1,
                (Failover.tryEach answers (f.record i (answers i)) (some err) rest).2.2) := by
          rw [Failover.tryEach, hresult]
          simp only [hretry, if_true]
        cases rest with
        | nil =>
          refine ⟨[], i, [], rfl, ?_, fun _ hj => absurd hj List.not_mem_nil, .inr rfl⟩
          rw [hstep, hresult]
          rfl
        | cons next rest =>
          obtain ⟨before, last, after, hsplit, htried, hbefore, hend⟩ :=
            ih (List.cons_ne_nil _ _) (f.record i (answers i)) (some err)
          refine ⟨i :: before, last, after, ?_, ?_, fun j hj => ?_, hend⟩
          · rw [hsplit]
            rfl
          · rw [hstep, htried]
            rfl
          · rcases List.mem_cons.mp hj with rfl | hj
            · exact hnot
            · exact hbefore j hj

/-- Calls of several providers, each at most once. -/
theorem Tracks.calls (r : FailoverRequest α) (list : List Nat) (hnodup : list.Nodup) (h : w.Tracks)
    (hfits : ∀ i ∈ list, i < w.size ∧ (r.answers i).time < 18446744073709551616 ∧
      (failureTimes i w.history).length + 1 < 4294967296) :
    Tracks ⟨list.foldl (fun f j => f.record j (r.answers j)) w.failover,
      w.history ++ list.map r.call⟩ := by
  induction list generalizing w with
  | nil =>
    rw [List.map_nil, List.append_nil]
    exact h
  | cons i rest ih =>
    obtain ⟨hnew, hrest⟩ := List.nodup_cons.mp hnodup
    obtain ⟨hi, htime, hcount⟩ := hfits i List.mem_cons_self
    have hnext : (w.called i (r.answers i)).Tracks := h.called hi htime hcount
    have hlater := ih hrest hnext fun j hj => by
      obtain ⟨hj', htime', hcount'⟩ := hfits j (List.mem_cons_of_mem i hj)
      have hne : j ≠ i := fun heq => hnew (heq ▸ hj)
      have hsize : (w.called i (r.answers i)).size = w.size :=
        record_length w.failover i (r.answers i)
      rw [hsize, called_failureTimes_ne _ hne]
      exact ⟨hj', htime', hcount'⟩
    have hhistory : w.history ++ (i :: rest).map r.call =
        (w.called i (r.answers i)).history ++ rest.map r.call := by
      show w.history ++ (r.call i :: rest.map r.call) = w.history ++ [r.call i] ++ rest.map r.call
      rw [List.append_assoc]
      rfl
    rw [hhistory]
    exact hlater

theorem Tracks.follows (h : w.Tracks) (r : FailoverRequest α) (hr : w.Fits r)
    (hduration : w.failover.config.cooldownDuration < 18446744073709551616) :
    w.FollowsOrder r ∧ (w.step r).Tracks := by
  have hlisted : (w.listed r.now).Nodup ∧ ∀ i ∈ w.listed r.now, i < w.size :=
    ⟨List.nodup_range.filter _, fun i hi => List.mem_range.mp (List.mem_filter.mp hi).1⟩
  -- the calls of a list of distinct providers
  have hcalls (list : List Nat) (hlist : list ≠ []) (hnodup : list.Nodup)
      (hmem : ∀ i ∈ list, i < w.size) (havailable : w.failover.available r.now = list) :
      (∃ before i rest, list = before ++ i :: rest ∧
        (w.failover.tryProviders r.now r.answers).2.1 = before ++ [i] ∧
        (w.failover.tryProviders r.now r.answers).1 = (r.answers i).result ∧
        (∀ j ∈ before, (r.answers j).isFinal = false) ∧
          ((r.answers i).isFinal = true ∨ rest = [])) ∧ (w.step r).Tracks := by
    obtain ⟨before, i, rest, hsplit, htried, hbefore, hend⟩ :=
      tryEach_spec r.answers list hlist w.failover none
    have htried' : w.failover.tryProviders r.now r.answers = ((r.answers i).result, before ++ [i],
        (before ++ [i]).foldl (fun f j => f.record j (r.answers j)) w.failover) := by
      unfold Failover.tryProviders
      rw [havailable]
      exact htried
    have hstart : before ++ [i] <+: list := ⟨rest, by rw [hsplit, List.append_assoc]; rfl⟩
    refine ⟨⟨before, i, rest, hsplit, ?_, ?_, hbefore, hend⟩, ?_⟩
    · rw [htried']
    · rw [htried']
    · unfold step
      rw [htried']
      refine h.calls r (before ++ [i]) (hnodup.sublist hstart.sublist) fun j hj => ?_
      have hj' := hmem j (hstart.subset hj)
      exact ⟨hj', hr.2 j hj'⟩
  rcases h.available hr.1 hduration with ⟨havailable, hne⟩ | ⟨hempty, o, havailable, hfirst⟩
  · obtain ⟨⟨before, i, rest, hsplit, hrest⟩, htracks⟩ :=
      hcalls (w.listed r.now) hne hlisted.1 hlisted.2 havailable
    exact ⟨⟨before, i, rest, .inl hsplit, hrest⟩, htracks⟩
  · have hone : ∀ i ∈ [o], i < w.size := fun i hi => by
      rw [List.mem_singleton.mp hi]
      exact hfirst.1
    obtain ⟨⟨before, i, rest, hsplit, hrest⟩, htracks⟩ :=
      hcalls [o] (List.cons_ne_nil _ _) (List.nodup_singleton o) hone havailable
    cases before with
    | nil =>
      cases hsplit
      exact ⟨⟨[], o, [], .inr ⟨hempty, rfl, rfl, hfirst⟩, hrest⟩, htracks⟩
    | cons j before =>
      have htail := (List.cons.inj hsplit).2
      exact absurd htail.symm (List.append_ne_nil_of_right_ne_nil _ (List.cons_ne_nil _ _))

theorem step_config (w : FailoverWorld) (r : FailoverRequest α) :
    (w.step r).failover.config = w.failover.config ∧ (w.step r).size = w.size := by
  have htry (list : List Nat) : ∀ (f : Failover) (lastError : Option LlmError),
      (Failover.tryEach r.answers f lastError list).2.2.config = f.config ∧
        (Failover.tryEach r.answers f lastError list).2.2.cooldowns.length = f.cooldowns.length := by
    induction list with
    | nil => exact fun _ _ => ⟨rfl, rfl⟩
    | cons i rest ih =>
      intro f lastError
      unfold Failover.tryEach
      split
      · exact ⟨record_config f i _, record_length f i _⟩
      · split
        next err _ _ =>
          obtain ⟨hconfig, hlength⟩ := ih (f.record i (r.answers i)) (some err)
          exact ⟨hconfig.trans (record_config f i _), hlength.trans (record_length f i _)⟩
        next => exact ⟨rfl, rfl⟩
  exact htry _ w.failover none

theorem new_tracks {providers : Nat} {config : CooldownConfig} {f : Failover}
    (h : Failover.withCooldown providers config = .ok f) :
    Tracks ⟨f, []⟩ ∧ f.config = config ∧ f.cooldowns.length = providers := by
  unfold Failover.withCooldown at h
  split at h
  next hpositive =>
    cases h
    have hnew (i : Nat) (hi : i < providers) :
        (List.replicate providers ProviderCooldown.new).getD i .new = .new := by
      rw [List.getD_eq_getElem?_getD, List.getElem?_replicate]
      simp [hi]
    refine ⟨⟨fun i hi => ?_, fun i hi => ?_⟩, rfl, List.length_replicate⟩
    · have hi' : i < providers := Nat.lt_of_lt_of_eq hi List.length_replicate
      show ((List.replicate providers ProviderCooldown.new).getD i .new).failureCount.toNat = 0
      rw [hnew i hi']
      rfl
    · have hi' : i < providers := Nat.lt_of_lt_of_eq hi List.length_replicate
      show ((List.replicate providers ProviderCooldown.new).getD i
        .new).cooldownActivatedNanos.toNat = _
      rw [hnew i hi']
      exact (if_neg fun hnot => hnot.2 rfl).symm
  next => cases h

end Steps

end FailoverWorld

/-- While clock readings fit into 64 bits and the failures in a row into 32 bits, every request tries
the providers not in cooldown in order, or the one whose cooldown is the oldest, up to the first final
answer; and a provider is in cooldown exactly when it has failed often enough since its last success
and less than a cooldown ago, a failure before the first nanosecond being taken for one at it. -/
theorem failover_follows_history {providers : Nat} {config : CooldownConfig} {f : Failover}
    (hf : Failover.withCooldown providers config = .ok f)
    (hduration : config.cooldownDuration < 18446744073709551616) {w : FailoverWorld}
    (hw : Reached (FailoverWorld.step (α := α)) FailoverWorld.Fits ⟨f, []⟩ w) :
    (∀ r : FailoverRequest α, w.Fits r → w.FollowsOrder r) ∧
      ∀ i < providers, ∀ now < 18446744073709551616,
        w.failover.isCooling i now = true ↔ w.CoolingAt i now := by
  obtain ⟨htracks₀, hconfig₀, hlength₀⟩ := FailoverWorld.new_tracks hf
  have hkept : w.Tracks ∧ w.failover.config = config ∧ w.size = providers := by
    apply hw.invariant fun w => w.Tracks ∧ w.failover.config = config ∧ w.size = providers
    · exact ⟨htracks₀, hconfig₀, hlength₀⟩
    · rintro w r hr ⟨htracks, hconfig, hsize⟩
      obtain ⟨hstepConfig, hstepSize⟩ := w.step_config r
      have hbound : w.failover.config.cooldownDuration < 18446744073709551616 := by
        rw [hconfig]
        exact hduration
      exact ⟨(htracks.follows r hr hbound).2, hstepConfig.trans hconfig, hstepSize.trans hsize⟩
  obtain ⟨htracks, hconfig, hsize⟩ := hkept
  have hbound : w.failover.config.cooldownDuration < 18446744073709551616 := by
    rw [hconfig]
    exact hduration
  refine ⟨fun r hr => (htracks.follows r hr hbound).1, fun i hi now hnow => ?_⟩
  rw [← hsize] at hi
  exact htracks.isCooling_iff hi hnow hbound

/-- The cooldown told by the history to the nanosecond. -/
def FailoverWorld.CoolingExactly (w : FailoverWorld) (i now : Nat) : Prop :=
  w.failover.config.failureThreshold.toNat ≤ (failureTimes i w.history).length ∧
    ∃ last ∈ (failureTimes i w.history).getLast?,
      now - last < w.failover.config.cooldownDuration

instance (w : FailoverWorld) (i now : Nat) : Decidable (w.CoolingExactly i now) :=
  inferInstanceAs (Decidable (_ ∧ ∃ last ∈ (failureTimes i w.history).getLast?, _))

section Examples

private theorem fresh_inhabited {providers : Nat} (h : 0 < providers) :
    0 < (List.replicate providers ProviderCooldown.new).length := by
  rw [List.length_replicate]
  exact h

/-- Providers in cooldown after one failure. -/
private def touchy (providers duration : Nat) (h : 0 < providers) : FailoverWorld :=
  ⟨⟨⟨duration, 1⟩, List.replicate providers .new, 0, fresh_inhabited h⟩, []⟩

/-- A request that the providers in a list fail, and others answer. -/
private def asked (now time : Nat) (failing : List Nat) : FailoverRequest Unit :=
  ⟨now, fun i => ⟨if i ∈ failing then .error (.io "down") else .ok (), time⟩⟩

private instance (w : FailoverWorld) (r : FailoverRequest Unit) : Decidable (w.Fits r) :=
  inferInstanceAs (Decidable (_ ∧ ∀ i < w.size, _ ∧ _))

/-- The first of two providers fails, then both, then the first one answers again. -/
private def outage : List (FailoverRequest Unit) :=
  [asked 1 2 [0], asked 3 4 [0, 1], asked 5 6 []]

theorem failover_follows_history_outage :
    (outage.foldl FailoverWorld.step (touchy 2 100 (by decide))).history =
      [⟨0, .failed, 2⟩, ⟨1, .succeeded, 2⟩, ⟨1, .failed, 4⟩, ⟨0, .succeeded, 6⟩] ∧
    FailoverWorld.FollowsOrder (outage.foldl FailoverWorld.step (touchy 2 100 (by decide)))
      (asked 7 8 [0]) := by
  have hreached : Reached FailoverWorld.step FailoverWorld.Fits (touchy 2 100 (by decide))
      (outage.foldl FailoverWorld.step (touchy 2 100 (by decide))) :=
    .foldl outage .start (by decide +kernel)
  have hnew : Failover.withCooldown 2 ⟨100, 1⟩ = .ok (touchy 2 100 (by decide)).failover := rfl
  have hkept := failover_follows_history hnew (by decide) hreached
  exact ⟨by decide +kernel, hkept.1 (asked 7 8 [0]) (by decide +kernel)⟩

/-- A provider that has failed a number of times in a row, each time at one nanosecond. -/
private def pounded (n : Nat) : FailoverWorld :=
  ⟨⟨⟨10, 1⟩, [⟨UInt32.ofNat n, 1⟩], 0, Nat.one_pos⟩, List.replicate n ⟨0, .failed, 1⟩⟩

private theorem pounded_available (n : Nat) (time : Nat) :
    (pounded n).failover.available (asked 1 time [0]).now = [0] := rfl

/-- A failure more, while the count of failures does not wrap around. -/
private theorem pounded_step {n : Nat} (h : n + 1 < 4294967296) :
    (pounded n).step (asked 1 1 [0]) = pounded (n + 1) := by
  have hcount : UInt32.ofNat n + 1 = UInt32.ofNat (n + 1) := (UInt32.ofNat_add n 1).symm
  have hreached : (1 : UInt32) ≤ UInt32.ofNat n + 1 := by
    rw [hcount, UInt32.le_iff_toNat_le, UInt32.toNat_ofNat_of_lt' h]
    show 1 ≤ n + 1
    omega
  have hrecord : (pounded n).failover.record 0 ((asked 1 1 [0]).answers 0) =
      (pounded (n + 1)).failover := by
    have hcounted : ((pounded n).failover.cooldown 0).failureCount = UInt32.ofNat n := rfl
    rw [record_failure rfl rfl, hcounted]
    refine (congrArg _ (if_pos hreached)).trans ?_
    rw [hcount]
    rfl
  unfold FailoverWorld.step Failover.tryProviders
  rw [pounded_available]
  show (⟨(pounded n).failover.record 0 ((asked 1 1 [0]).answers 0),
    List.replicate n ⟨0, .failed, 1⟩ ++ [⟨0, .failed, 1⟩]⟩ : FailoverWorld) = pounded (n + 1)
  rw [hrecord, ← List.replicate_succ']
  rfl

private theorem pounded_foldl (k : Nat) (h : k + 1 < 4294967296) :
    (List.replicate k (asked 1 1 [0])).foldl FailoverWorld.step (pounded 1) = pounded (k + 1) := by
  induction k with
  | zero => rfl
  | succ k ih =>
    have hbefore : k + 1 < 4294967296 := by omega
    rw [List.replicate_succ', List.foldl_append, ih hbefore]
    exact pounded_step h

private theorem pounded_failureTimes (n : Nat) :
    failureTimes 0 (pounded n).history = List.replicate n 1 := by
  induction n with
  | zero => rfl
  | succ n ih =>
    have hhistory : (pounded (n + 1)).history = (pounded n).history ++ [⟨0, .failed, 1⟩] :=
      List.replicate_succ'
    rw [hhistory, failureTimes_concat, ih, List.replicate_succ']
    rfl

/-- A later failure at which the count wraps around leaves the activation as it was. -/
private theorem pounded_wraps (n : Nat) (h : UInt32.ofNat n + 1 = 0) :
    ((pounded n).step (asked 1 50 [0])).failover.isCooling 0 51 = false ∧
      ((pounded n).step (asked 1 50 [0])).CoolingExactly 0 51 := by
  have hrecord : ((pounded n).step (asked 1 50 [0])).failover =
      (pounded n).failover.record 0 ((asked 1 50 [0]).answers 0) := rfl
  have hwrapped : (pounded n).failover.record 0 ((asked 1 50 [0]).answers 0) =
      (pounded n).failover.setCooldown 0 ⟨0, 1⟩ := by
    have hcounted : ((pounded n).failover.cooldown 0).failureCount = UInt32.ofNat n := rfl
    rw [record_failure rfl rfl, hcounted, h]
    rfl
  constructor
  · rw [hrecord, hwrapped]
    rfl
  · have htimes : failureTimes 0 ((pounded n).step (asked 1 50 [0])).history =
        List.replicate n 1 ++ [50] := by
      show failureTimes 0 ((pounded n).history ++ [⟨0, .failed, 50⟩]) = _
      rw [failureTimes_concat, pounded_failureTimes]
      rfl
    have hconfig : ((pounded n).step (asked 1 50 [0])).failover.config = ⟨10, 1⟩ := by
      rw [hrecord, record_config]
      rfl
    refine ⟨?_, 50, ?_, ?_⟩
    · rw [hconfig, htimes, List.length_append]
      show 1 ≤ _ + 1
      omega
    · rw [htimes, List.getLast?_concat]
      rfl
    · rw [hconfig]
      decide

/-- One failure at the very start, and the same with a cooldown of more than 584 years. -/
private def stumbled (duration : Nat) : FailoverWorld :=
  (touchy 1 duration Nat.one_pos).step (asked 0 0 [0])

/-- As many failures in a row as there are counts, the last one late. -/
private def worn : FailoverWorld :=
  ((List.replicate 4294967295 (asked 1 1 [0])).foldl FailoverWorld.step
    (touchy 1 10 Nat.one_pos)).step (asked 1 50 [0])

/-- A failure at zero counts a nanosecond longer, a cooldown that does not fit into 64 bits ends before
its time, and a count of failures that wraps around activates none. -/
theorem cooldown_not_by_history :
    ((stumbled 5).failover.isCooling 0 5 = true ∧ ¬ (stumbled 5).CoolingExactly 0 5) ∧
    ((stumbled 18446744074000000000).failover.isCooling 0 1000000000 = false ∧
      (stumbled 18446744074000000000).CoolingExactly 0 1000000000) ∧
    (worn.failover.isCooling 0 51 = false ∧ worn.CoolingExactly 0 51) := by
  refine ⟨by decide +kernel, by decide +kernel, ?_⟩
  have hfirst : (touchy 1 10 Nat.one_pos).step (asked 1 1 [0]) = pounded 1 := rfl
  have hpounded : (List.replicate 4294967295 (asked 1 1 [0])).foldl FailoverWorld.step
      (touchy 1 10 Nat.one_pos) = pounded 4294967295 := by
    rw [show 4294967295 = 4294967294 + 1 from rfl, List.replicate_succ, List.foldl_cons, hfirst]
    exact pounded_foldl 4294967294 (by decide)
  have hworn : worn = (pounded 4294967295).step (asked 1 50 [0]) := by
    unfold worn
    rw [hpounded]
  rw [hworn]
  exact pounded_wraps 4294967295 (by decide)

end Examples

end Gyre.Llm
