/- digest: What the fixed windows of the tool and channel limiters guarantee for any interval. -/

import Gyre.Channels.Wasm.Host
import Gyre.Lib.FixedWindow
import Gyre.Lib.Runs
import Gyre.Tools.Wasm.RateLimiter
import Mathlib.Algebra.Order.Group.Nat

/-!
Both limiters count in windows that start with a call after the last one has expired. A minute of the
clock may meet two such windows, so that twice the limit is admitted in it.
-/

set_option autoImplicit false
set_option relaxedAutoImplicit false

namespace Gyre.Channels.Wasm

open Gyre.Lib Gyre.Tools.Wasm

/-- A call of a tool for a user, with the limits it is checked against. -/
structure ToolCall where
  now : Nat
  userId : List Char
  toolName : List Char
  config : RateLimitConfig
  deriving DecidableEq

def ToolCall.key (c : ToolCall) : List Char × List Char := (c.userId, c.toolName)

def toolStep (l : RateLimiter) (c : ToolCall) : RateLimiter × List (ToolCall × RateLimitResult) :=
  let recorded := l.checkAndRecord c.now c.userId c.toolName c.config
  (recorded.1, [(c, recorded.2)])

def emitStep (l : ChannelEmitRateLimiter) (now : Nat) :
    ChannelEmitRateLimiter × List (Nat × Bool) :=
  let recorded := l.checkAndRecord now
  (recorded.1, [(now, recorded.2)])

/-- When the calls of one tool for one user were admitted. -/
def toolTimes (key : List Char × List Char) (log : List (ToolCall × RateLimitResult)) : List Nat :=
  (log.filter fun e => decide (e.1.key = key) && e.2.isAllowed).map fun e => e.1.now

/-- When the messages of a channel were admitted. -/
def emitTimes (log : List (Nat × Bool)) : List Nat := (log.filter fun e => e.2).map fun e => e.1

/-- No interval of a length holds more than so many times. -/
def AtMost (limit d : Nat) (times : List Nat) : Prop := ∀ a, within times a (a + d) ≤ limit

/-- The admitted calls of a tool, after a run of the limiter. -/
structure ToolLimited (key : List Char × List Char) (config : RateLimitConfig) (l : RateLimiter)
    (times : List Nat) : Prop where
  minute : AtMost (2 * config.requestsPerMinute) (fromSecs 60) times
  hour : AtMost (2 * config.requestsPerHour) (fromSecs 3600) times
  ownMinute : ∀ s, l.state key = some s → since times s.minuteWindow.windowStart ≤ config.requestsPerMinute
  ownHour : ∀ s, l.state key = some s → since times s.hourWindow.windowStart ≤ config.requestsPerHour

/-- The admitted messages of a channel, after a run of the limiter. -/
structure EmitLimited (config : EmitRateLimitConfig) (l : ChannelEmitRateLimiter) (times : List Nat) :
    Prop where
  minute : AtMost (2 * config.messagesPerMinute) 60000 times
  hour : AtMost (2 * config.messagesPerHour) 3600000 times
  ownMinute : since times l.minuteWindow.windowStart ≤ config.messagesPerMinute
  ownHour : since times l.hourWindow.windowStart ≤ config.messagesPerHour

/-- A window has not expired at some time. -/
def Running (w : WindowState) (now duration : Nat) : Prop := w.elapsed now < duration

section Tools

/-- The recorded times behind a window of a tool, none of them in the future. -/
private structure ToolWindow (d limit now : Nat) (w : WindowState) (times : List Nat) : Prop where
  windowed : Windowed (fun start now => decide (d ≤ now - start)) d limit w.windowStart w.count times
  started : w.windowStart ≤ now
  earlier : ∀ t ∈ times, t ≤ now

private theorem ToolWindow.mono {d limit now later : Nat} {w : WindowState} {times : List Nat}
    (h : ToolWindow d limit now w times) (hle : now ≤ later) : ToolWindow d limit later w times :=
  ⟨h.windowed, Nat.le_trans h.started hle, fun t ht => Nat.le_trans (h.earlier t ht) hle⟩

private theorem ToolWindow.maybeReset {d limit now : Nat} {w : WindowState} {times : List Nat}
    (hd : 0 < d) (h : ToolWindow d limit now w times) :
    ToolWindow d limit now (w.maybeReset now d) times ∧ Running (w.maybeReset now d) now d := by
  unfold WindowState.maybeReset Running
  by_cases hexpired : d ≤ w.elapsed now
  · have hstart := h.started
    have hlong : w.windowStart + d ≤ now := by
      unfold WindowState.elapsed at hexpired
      omega
    have hempty := h.windowed.restart (decide_eq_true hexpired) hlong h.earlier fun t ht =>
      decide_eq_false (by omega)
    rw [if_pos hexpired]
    refine ⟨⟨hempty, Nat.le_refl now, h.earlier⟩, ?_⟩
    simp [WindowState.elapsed, hd]
  · rw [if_neg hexpired]
    exact ⟨h, Nat.lt_of_not_le hexpired⟩

private theorem ToolWindow.record {d limit now : Nat} {w : WindowState} {times : List Nat}
    (h : ToolWindow d limit now w times) (hrunning : Running w now d) (hroom : w.count < limit) :
    ToolWindow d limit now { w with count := w.count + 1 } (times ++ [now]) := by
  have hnow : decide (d ≤ now - w.windowStart) = false := decide_eq_false (Nat.not_le.mpr hrunning)
  refine ⟨h.windowed.record hroom hnow h.started, h.started, fun t ht => ?_⟩
  rcases List.mem_append.mp ht with ht | ht
  · exact h.earlier t ht
  · exact Nat.le_of_eq (List.mem_singleton.mp ht)

/-- Both windows of a tool behind the same times. -/
private structure ToolWindows (config : RateLimitConfig) (now : Nat) (s : ToolRateLimitState)
    (times : List Nat) : Prop where
  minute : ToolWindow (fromSecs 60) config.requestsPerMinute now s.minuteWindow times
  hour : ToolWindow (fromSecs 3600) config.requestsPerHour now s.hourWindow times

private theorem ToolWindows.mono {config : RateLimitConfig} {now later : Nat} {s : ToolRateLimitState}
    {times : List Nat} (h : ToolWindows config now s times) (hle : now ≤ later) :
    ToolWindows config later s times := ⟨h.minute.mono hle, h.hour.mono hle⟩

private theorem ToolWindows.new (config : RateLimitConfig) (now : Nat) :
    ToolWindows config now (.new now) [] :=
  ⟨⟨.fresh, Nat.le_refl now, by simp⟩, ⟨.fresh, Nat.le_refl now, by simp⟩⟩

/-- A call brings the windows up to date, and records its time if it is admitted. -/
private theorem ToolWindows.call {config : RateLimitConfig} {now : Nat} {s : ToolRateLimitState}
    {times : List Nat} (h : ToolWindows config now s times) :
    let recorded := (s.reset now).record now config
    ToolWindows config now recorded.1 (times ++ if recorded.2.isAllowed then [now] else []) := by
  obtain ⟨hminute, hminuteRuns⟩ := h.minute.maybeReset (by decide)
  obtain ⟨hhour, hhourRuns⟩ := h.hour.maybeReset (by decide)
  have hreset : ToolWindows config now (s.reset now) times := ⟨hminute, hhour⟩
  intro recorded
  by_cases hminuteFull : config.requestsPerMinute ≤ (s.reset now).minuteWindow.count
  · have hrecorded : recorded = (s.reset now, .limited
        ((s.reset now).minuteWindow.timeUntilReset now (fromSecs 60)) .perMinute) := if_pos hminuteFull
    simpa [hrecorded, RateLimitResult.isAllowed] using hreset
  · by_cases hhourFull : config.requestsPerHour ≤ (s.reset now).hourWindow.count
    · have hrecorded : recorded = (s.reset now, .limited
          ((s.reset now).hourWindow.timeUntilReset now (fromSecs 3600)) .perHour) := by
        unfold recorded ToolRateLimitState.record
        rw [if_neg hminuteFull, if_pos hhourFull]
      simpa [hrecorded, RateLimitResult.isAllowed] using hreset
    · have hadmitted : recorded.2.isAllowed = true := by
        unfold recorded ToolRateLimitState.record
        rw [if_neg hminuteFull, if_neg hhourFull]
        rfl
      have hstate : recorded.1 =
          ⟨{ (s.reset now).minuteWindow with count := (s.reset now).minuteWindow.count + 1 },
            { (s.reset now).hourWindow with count := (s.reset now).hourWindow.count + 1 }⟩ := by
        unfold recorded ToolRateLimitState.record
        rw [if_neg hminuteFull, if_neg hhourFull]
      rw [hadmitted, if_pos rfl, hstate]
      exact ⟨hminute.record hminuteRuns (Nat.lt_of_not_le hminuteFull),
        hhour.record hhourRuns (Nat.lt_of_not_le hhourFull)⟩

private theorem toolTimes_append (key : List Char × List Char) (log : List (ToolCall × RateLimitResult))
    (c : ToolCall) (r : RateLimitResult) :
    toolTimes key (log ++ [(c, r)]) =
      toolTimes key log ++ if c.key = key ∧ r.isAllowed = true then [c.now] else [] := by
  unfold toolTimes
  by_cases h : c.key = key ∧ r.isAllowed = true
  · simp [List.filter_append, h]
  · have hout : (decide (c.key = key) && r.isAllowed) = false := by
      simpa using fun hkey => eq_false_of_ne_true fun hallowed => h ⟨hkey, hallowed⟩
    simp [List.filter_append, h, hout]

/-- After every run the windows that the next call finds hold the times that were admitted. -/
private theorem toolWindows_of_run {calls : List ToolCall} {key : List Char × List Char}
    {config : RateLimitConfig} (hcalls : calls.Pairwise fun c d => c.now ≤ d.now)
    (hconfig : ∀ c ∈ calls, c.key = key → c.config = config) {now : Nat}
    (hnow : ∀ c ∈ calls, c.now ≤ now) :
    ToolWindows config now (((run toolStep .new calls).1.state key).getD (.new now))
      (toolTimes key (run toolStep .new calls).2) := by
  induction calls using List.reverseRecOn generalizing now with
  | nil => exact ToolWindows.new config now
  | append_singleton calls c ih =>
    obtain ⟨hearlier, -, hlast⟩ := List.pairwise_append.mp hcalls
    have hbefore (d : ToolCall) (hd : d ∈ calls) : d.now ≤ c.now :=
      hlast d hd c (List.mem_singleton.mpr rfl)
    have hsame (d : ToolCall) (hd : d ∈ calls) : d.key = key → d.config = config :=
      hconfig d (List.mem_append_left _ hd)
    have hc : c ∈ calls ++ [c] := List.mem_append_right _ (List.mem_singleton.mpr rfl)
    rw [run_concat]
    generalize hbeforeRun : run toolStep .new calls = reached at ih ⊢
    show ToolWindows config now
      ((if key = c.key then
          some ((reached.1.opened c.key c.now).record c.now c.config).1
        else reached.1.state key).getD (.new now))
      (toolTimes key (reached.2 ++ [(c, ((reached.1.opened c.key c.now).record c.now c.config).2)]))
    rw [toolTimes_append]
    by_cases hkey : c.key = key
    · have hcall := (ih hearlier hsame hbefore).call
      rw [hconfig c hc hkey, if_pos hkey.symm, Option.getD_some]
      simp only [hkey, true_and]
      exact hcall.mono (hnow c hc)
    · rw [if_neg (Ne.symm hkey)]
      simp only [hkey, false_and, if_false, List.append_nil]
      exact ih hearlier hsame fun d hd => hnow d (List.mem_append_left _ hd)

/-- A refused call leaves the windows as it found them, up to date. -/
private theorem record_refused {s : ToolRateLimitState} {now : Nat} {config : RateLimitConfig}
    (h : (s.record now config).2.isAllowed = false) : (s.record now config).1 = s := by
  unfold ToolRateLimitState.record at h ⊢
  split
  next => rfl
  next hminute =>
    rw [if_neg hminute] at h
    split
    next => rfl
    next hhour =>
      rw [if_neg hhour] at h
      cases h

private theorem maybeReset_running {w : WindowState} {now d : Nat} (h : Running w now d) :
    w.maybeReset now d = w := if_neg (Nat.not_le.mpr h)

end Tools

section Messages

/-- The recorded times behind a window of a channel, none of them in the future. -/
private structure EmitWindow (d limit now : Nat) (w : RateWindow) (times : List Nat) : Prop where
  duration : w.windowDurationMs = d
  windowed : Windowed (fun start now => decide (d < now - start)) d limit w.windowStart w.count times
  started : w.windowStart ≤ now
  earlier : ∀ t ∈ times, t ≤ now

private theorem EmitWindow.mono {d limit now later : Nat} {w : RateWindow} {times : List Nat}
    (h : EmitWindow d limit now w times) (hle : now ≤ later) : EmitWindow d limit later w times :=
  ⟨h.duration, h.windowed, Nat.le_trans h.started hle, fun t ht => Nat.le_trans (h.earlier t ht) hle⟩

private theorem EmitWindow.reset {d limit now : Nat} {w : RateWindow} {times : List Nat}
    (h : EmitWindow d limit now w times) :
    EmitWindow d limit now (w.reset now) times ∧ ¬ d < now - (w.reset now).windowStart := by
  obtain ⟨rfl, hwindowed, hstart, hearlier⟩ := h
  unfold RateWindow.reset
  by_cases hexpired : w.windowDurationMs < now - w.windowStart
  · have hlong : w.windowStart + w.windowDurationMs ≤ now := by omega
    have hempty := hwindowed.restart (decide_eq_true hexpired) hlong hearlier fun t ht =>
      decide_eq_false (by omega)
    rw [if_pos hexpired]
    exact ⟨⟨rfl, hempty, Nat.le_refl now, hearlier⟩, by simp⟩
  · rw [if_neg hexpired]
    exact ⟨⟨rfl, hwindowed, hstart, hearlier⟩, hexpired⟩

/-- A window takes a message it has room for, whether the other window refuses it or not. -/
private theorem EmitWindow.check {d limit now : Nat} {w : RateWindow} {times : List Nat}
    (h : EmitWindow d limit now w times) {admitted : Bool}
    (hadmitted : admitted = true → (w.checkAndRecord now limit).2 = true) :
    EmitWindow d limit now (w.checkAndRecord now limit).1
      (times ++ if admitted then [now] else []) := by
  obtain ⟨hreset, hrunning⟩ := h.reset
  by_cases hfull : limit ≤ (w.reset now).count
  · have hrefused : w.checkAndRecord now limit = (w.reset now, false) := if_pos hfull
    have hnone : admitted = false := by
      cases admitted with
      | false => rfl
      | true =>
        rw [hrefused] at hadmitted
        exact absurd (hadmitted rfl) Bool.false_ne_true
    simpa [hrefused, hnone] using hreset
  · have hroom : (w.reset now).count < limit := Nat.lt_of_not_le hfull
    have hcharged : w.checkAndRecord now limit =
        ({ w.reset now with count := (w.reset now).count + 1 }, true) := if_neg hfull
    rw [hcharged]
    cases admitted with
    | false =>
      rw [if_neg Bool.false_ne_true, List.append_nil]
      exact ⟨hreset.duration, hreset.windowed.charge hroom, hreset.started, hreset.earlier⟩
    | true =>
      rw [if_pos rfl]
      refine ⟨hreset.duration, ?_, hreset.started, fun t ht => ?_⟩
      · exact hreset.windowed.record hroom (decide_eq_false hrunning) hreset.started
      · rcases List.mem_append.mp ht with ht | ht
        · exact hreset.earlier t ht
        · exact Nat.le_of_eq (List.mem_singleton.mp ht)

private theorem emitTimes_append (log : List (Nat × Bool)) (now : Nat) (admitted : Bool) :
    emitTimes (log ++ [(now, admitted)]) = emitTimes log ++ if admitted then [now] else [] := by
  unfold emitTimes
  cases admitted <;> simp [List.filter_append]

/-- Both windows of a channel behind the same times. -/
private structure EmitWindows (config : EmitRateLimitConfig) (now : Nat) (l : ChannelEmitRateLimiter)
    (times : List Nat) : Prop where
  configured : l.config = config
  minute : EmitWindow 60000 config.messagesPerMinute now l.minuteWindow times
  hour : EmitWindow 3600000 config.messagesPerHour now l.hourWindow times

private theorem emitWindows_of_run {config : EmitRateLimitConfig} {emits : List Nat}
    (hemits : emits.Pairwise (· ≤ ·)) {now : Nat} (hnow : ∀ t ∈ emits, t ≤ now) :
    EmitWindows config now (run emitStep (.new config) emits).1
      (emitTimes (run emitStep (.new config) emits).2) := by
  induction emits using List.reverseRecOn generalizing now with
  | nil =>
    exact ⟨rfl, ⟨rfl, .fresh, Nat.zero_le now, by simp [emitTimes]⟩,
      ⟨rfl, .fresh, Nat.zero_le now, by simp [emitTimes]⟩⟩
  | append_singleton emits t ih =>
    obtain ⟨hearlier, -, hlast⟩ := List.pairwise_append.mp hemits
    have ht : t ≤ now := hnow t (List.mem_append_right _ (List.mem_singleton.mpr rfl))
    have hwindows := ih hearlier fun s hs => hlast s hs t (List.mem_singleton.mpr rfl)
    rw [run_concat]
    generalize run emitStep (.new config) emits = reached at hwindows ⊢
    obtain ⟨rfl, hminute, hhour⟩ := hwindows
    have htimes : emitTimes (reached.2 ++ (emitStep reached.1 t).2) =
        emitTimes reached.2 ++ if (reached.1.checkAndRecord t).2 then [t] else [] :=
      emitTimes_append _ _ _
    have hboth (h : (reached.1.checkAndRecord t).2 = true) :
        (reached.1.minuteWindow.checkAndRecord t reached.1.config.messagesPerMinute).2 = true ∧
          (reached.1.hourWindow.checkAndRecord t reached.1.config.messagesPerHour).2 = true :=
      Bool.and_eq_true_iff.mp h
    rw [htimes]
    exact ⟨rfl, (hminute.check fun h => (hboth h).1).mono ht, (hhour.check fun h => (hboth h).2).mono ht⟩

end Messages

/-- Some time is not before any of a list. -/
private theorem exists_later (times : List Nat) : ∃ now, ∀ t ∈ times, t ≤ now := by
  induction times with
  | nil => exact ⟨0, by simp⟩
  | cons t rest ih =>
    obtain ⟨now, hnow⟩ := ih
    refine ⟨max t now, fun s hs => ?_⟩
    rcases List.mem_cons.mp hs with rfl | hs
    · exact Nat.le_max_left _ _
    · exact Nat.le_trans (hnow s hs) (Nat.le_max_right _ _)

/-- Either limiter admits twice a limit at most in a minute or an hour, and the limit in each window of
its own; a call that a running limiter of tools refuses changes nothing, and any refused call does no
more than start the windows that have expired. -/
theorem fixed_windows_limit (calls : List ToolCall) (key : List Char × List Char) (config : RateLimitConfig)
    (emitConfig : EmitRateLimitConfig) (emits : List Nat) (l : RateLimiter) (c : ToolCall)
    (hcalls : calls.Pairwise fun c d => c.now ≤ d.now)
    (hconfig : ∀ c ∈ calls, c.key = key → c.config = config) (hemits : emits.Pairwise (· ≤ ·))
    (hrefused : (l.checkAndRecord c.now c.userId c.toolName c.config).2.isAllowed = false) :
    ToolLimited key config (run toolStep .new calls).1 (toolTimes key (run toolStep .new calls).2) ∧
      EmitLimited emitConfig (run emitStep (.new emitConfig) emits).1
        (emitTimes (run emitStep (.new emitConfig) emits).2) ∧
      (toolStep l c).1.state c.key = some (l.opened c.key c.now) ∧
      (∀ other ≠ c.key, (toolStep l c).1.state other = l.state other) ∧
      ∀ s, l.state c.key = some s → Running s.minuteWindow c.now (fromSecs 60) →
        Running s.hourWindow c.now (fromSecs 3600) →
        ∀ later, (run toolStep (toolStep l c).1 later).2 = (run toolStep l later).2 := by
  obtain ⟨now, hnow⟩ := exists_later (calls.map fun c => c.now)
  have htools := toolWindows_of_run hcalls hconfig fun c hc =>
    hnow c.now (List.mem_map.mpr ⟨c, hc, rfl⟩)
  obtain ⟨emitNow, hemitNow⟩ := exists_later emits
  have hmessages : EmitWindows emitConfig emitNow (run emitStep (.new emitConfig) emits).1
      (emitTimes (run emitStep (.new emitConfig) emits).2) := emitWindows_of_run hemits hemitNow
  have hopened : ((l.opened c.key c.now).record c.now c.config).1 = l.opened c.key c.now :=
    record_refused hrefused
  have hstate (other : List Char × List Char) : (toolStep l c).1.state other =
      if other = c.key then some (l.opened c.key c.now) else l.state other := by
    show (if other = c.key then some ((l.opened c.key c.now).record c.now c.config).1
      else l.state other) = _
    rw [hopened]
  refine ⟨⟨htools.minute.windowed.spread, htools.hour.windowed.spread, fun s hs => ?_, fun s hs => ?_⟩,
    ⟨hmessages.minute.windowed.spread, hmessages.hour.windowed.spread, ?_, ?_⟩, ?_, ?_, ?_⟩
  · rw [hs, Option.getD_some] at htools
    exact Nat.le_trans htools.minute.windowed.current htools.minute.windowed.full
  · rw [hs, Option.getD_some] at htools
    exact Nat.le_trans htools.hour.windowed.current htools.hour.windowed.full
  · exact Nat.le_trans hmessages.minute.windowed.current hmessages.minute.windowed.full
  · exact Nat.le_trans hmessages.hour.windowed.current hmessages.hour.windowed.full
  · rw [hstate, if_pos rfl]
  · intro other hother
    rw [hstate, if_neg hother]
  · intro s hs hminute hhour later
    have hsame : l.opened c.key c.now = s := by
      unfold RateLimiter.opened ToolRateLimitState.reset
      rw [hs, Option.getD_some, maybeReset_running hminute, maybeReset_running hhour]
    have hnothing : (toolStep l c).1 = l := by
      refine congrArg RateLimiter.mk (funext fun other => ?_)
      refine (hstate other).trans ?_
      by_cases hother : other = c.key
      · rw [if_pos hother, hother, hs, hsame]
      · rw [if_neg hother]
    rw [hnothing]

/-- A search at a second of the clock, two of them allowed in a minute. -/
private def search (perHour second : Nat) : ToolCall :=
  ⟨fromSecs second, "default".toList, "search".toList, ⟨2, perHour⟩⟩

theorem fixed_windows_limit_search :
    let calls := [search 3 0, search 3 59]
    ToolLimited (search 3 0).key ⟨2, 3⟩ (run toolStep .new calls).1
        (toolTimes (search 3 0).key (run toolStep .new calls).2) ∧
      EmitLimited ⟨1, 2⟩ (run emitStep (.new ⟨1, 2⟩) [0, 70000]).1
        (emitTimes (run emitStep (.new ⟨1, 2⟩) [0, 70000]).2) ∧
      (toolStep .new (search 0 0)).1.state (search 0 0).key =
        some (RateLimiter.new.opened (search 0 0).key (search 0 0).now) ∧
      (∀ other ≠ (search 0 0).key, (toolStep .new (search 0 0)).1.state other = RateLimiter.new.state other) ∧
      ∀ s, RateLimiter.new.state (search 0 0).key = some s →
        Running s.minuteWindow (search 0 0).now (fromSecs 60) →
        Running s.hourWindow (search 0 0).now (fromSecs 3600) →
        ∀ later, (run toolStep (toolStep .new (search 0 0)).1 later).2 =
          (run toolStep .new later).2 :=
  fixed_windows_limit [search 3 0, search 3 59] (search 3 0).key ⟨2, 3⟩ ⟨1, 2⟩ [0, 70000] .new (search 0 0)
    (by decide +kernel) (by decide +kernel) (by decide +kernel) (by decide +kernel)

/-- Two searches at the end of a window and one at the start of the next make three in two seconds; and
a search refused for the hour moves the window of the minute, so that a later one is admitted. -/
theorem burst_over_edge :
    within (toolTimes (search 100 0).key
        (run toolStep .new [search 100 0, search 100 59, search 100 60, search 100 61]).2)
        (fromSecs 59) (fromSecs 61) = 3 ∧
      ((run toolStep .new [search 3 0, search 3 1, search 3 61, search 3 3590]).2.map
        fun e => e.2.isAllowed) = [true, true, true, false] ∧
      ((run toolStep .new [search 3 0, search 3 1, search 3 61, search 3 3590, search 3 3600,
        search 3 3649, search 3 3650]).2.getLast?.map fun e => e.2.isAllowed) = some true ∧
      ((run toolStep .new [search 3 0, search 3 1, search 3 61, search 3 3600,
        search 3 3649, search 3 3650]).2.getLast?.map fun e => e.2.isAllowed) = some false := by
  decide +kernel

end Gyre.Channels.Wasm
