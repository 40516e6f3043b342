/- digest: When the fires of an event routine are a cooldown apart. -/

import Gyre.Agent.RoutineCounters
import Gyre.Agent.RoutineLimits

set_option autoImplicit false
set_option relaxedAutoImplicit false

namespace Gyre.Agent

open Gyre.Llm Gyre.Lib

/-- The event routines a check of a message has still to look at. -/
def TriggerCall.eventRoutines : TriggerCall → List Routine
  | event _ _ rest => rest
  | eventCounting _ _ r rest | eventFiring _ _ r rest => r :: rest
  | _ => []

/-- The event routine that has passed its cooldown check. -/
def TriggerCall.cooled : TriggerCall → Option Routine
  | eventCounting _ _ r _ | eventFiring _ _ r _ => some r
  | _ => none

def TriggerCall.eventFired : TriggerCall → Option Routine
  | eventFiring _ _ r _ => some r
  | _ => none

/-- The copies of routines that an update holds. -/
def UpdatePhase.copies : UpdatePhase → List Routine
  | writing routine _ => [routine]
  | caching events => events
  | _ => []

def UpdateAct.reading : UpdateAct → Option Int
  | engine act => act.reading
  | advance _ env => some env.now
  | routineUpdate _ => none

/-- The copy of an event routine that a step fires. -/
def UpdatesWorld.fired (w : UpdatesWorld) : UpdateAct → Option Routine
  | .engine (.advance i _) =>
    if w.engine.atCapacity then none else (w.engine.calls[i]?).bind TriggerCall.eventFired
  | _ => none

/-- The routines with the latest reading of the clock and the fires of event routines so far, each
with its time. -/
structure FiringWorld where
  world : UpdatesWorld
  latest : Int
  fires : List (Uuid × Int)

namespace FiringWorld

def step (f : FiringWorld) (act : UpdateAct) : FiringWorld where
  world := f.world.step act
  latest := act.reading.getD f.latest
  fires := f.fires ++ (f.world.fired act).toList.map fun r => (r.id, act.reading.getD f.latest)

/-- Two fires of a routine are at least its cooldown apart. -/
def CooledDown (routines : RoutineTable) (f : FiringWorld) : Prop :=
  f.fires.Pairwise fun earlier later => earlier.1 = later.1 →
    ∀ r ∈ routines.rows, r.id = later.1 →
      earlier.2 + (r.guardrails.cooldown : Int) * 1000000000 ≤ later.2

/-- The clock does not go back, and an event routine is fired by a copy whose last run is not before
any earlier fire of it, with a cooldown that `chrono` takes. -/
def ByLastRun (f : FiringWorld) (act : UpdateAct) : Prop :=
  (∀ now ∈ act.reading, f.latest ≤ now) ∧
    ∀ r ∈ f.world.fired act, r.guardrails.cooldown ≤ Routine.maxSeconds ∧
      ∀ fire ∈ f.fires, fire.1 = r.id → ∃ last ∈ r.lastRunAt, fire.2 ≤ last

/-- What keeps the fires apart. -/
structure Cooled (routines : RoutineTable) (f : FiringWorld) : Prop where
  table : f.world.engine.routines.limits = routines.limits
  cached : ∀ r ∈ f.world.engine.eventCache, (r.id, r.guardrails) ∈ routines.limits
  called : ∀ call ∈ f.world.engine.calls, ∀ r ∈ call.eventRoutines,
    (r.id, r.guardrails) ∈ routines.limits
  updating : ∀ u ∈ f.world.updates, ∀ r ∈ u.phase.copies, (r.id, r.guardrails) ∈ routines.limits
  checked : ∀ call ∈ f.world.engine.calls, ∀ r ∈ call.cooled, ∀ last ∈ r.lastRunAt,
    last + r.cooldownNanos ≤ f.latest
  apart : f.CooledDown routines

end FiringWorld

namespace RoutineWorld

/-- What a section of a call leaves: the cache, and calls that look at no other routine and fire none
that has not passed its check. -/
theorem advance_calls (w : RoutineWorld) (i : Nat) (env : Surroundings) (call : TriggerCall) :
    (w.advance i env call).eventCache = w.eventCache ∧
      ∀ call' ∈ (w.advance i env call).calls, call' ∈ w.calls ∨
        (∀ r ∈ call'.eventRoutines, r ∈ call.eventRoutines) ∧
          ∀ r ∈ call'.cooled, r ∈ call.cooled ∨ r.checkCooldown env.now = true := by
  -- a call that goes on to one that looks at no event routine
  have hplain (recorded : RoutineWorld) (call' : TriggerCall) (hcalls : recorded.calls = w.calls)
      (hroutines : ∀ r ∈ call'.eventRoutines, r ∈ call.eventRoutines)
      (hcooled : ∀ r ∈ call'.cooled, r ∈ call.cooled ∨ r.checkCooldown env.now = true) :
      ∀ other ∈ (recorded.goCall i call').calls, other ∈ w.calls ∨
        (∀ r ∈ other.eventRoutines, r ∈ call.eventRoutines) ∧
          ∀ r ∈ other.cooled, r ∈ call.cooled ∨ r.checkCooldown env.now = true := by
    intro other hother
    rcases List.mem_or_eq_of_mem_set hother with h | rfl
    · rw [hcalls] at h
      exact .inl h
    · exact .inr ⟨hroutines, hcooled⟩
  have hnone : ∀ r ∈ (none : Option Routine), r ∈ call.cooled ∨ r.checkCooldown env.now = true :=
    fun _ h => by cases h
  have hnil : ∀ r ∈ ([] : List Routine), r ∈ call.eventRoutines :=
    fun _ h => absurd h List.not_mem_nil
  cases call with
  | event channel content rest =>
    cases rest with
    | nil => exact ⟨rfl, hplain w .ended rfl hnil hnone⟩
    | cons r rest =>
      simp only [advance]
      split
      next hpassed =>
        refine ⟨rfl, hplain w _ rfl (fun _ h => h) fun other hother => .inr ?_⟩
        rw [← Option.some.inj hother]
        exact hpassed.2
      next => exact ⟨rfl, hplain w _ rfl (fun _ h => List.mem_cons_of_mem r h) hnone⟩
  | eventCounting channel content r rest =>
    simp only [advance]
    split
    · exact ⟨rfl, hplain w _ rfl (fun _ h => h) fun _ h => .inl h⟩
    · exact ⟨rfl, hplain w _ rfl (fun _ h => List.mem_cons_of_mem r h) hnone⟩
  | eventFiring channel content r rest =>
    simp only [advance]
    split
    · exact ⟨rfl, hplain w _ rfl (fun _ h => List.mem_cons_of_mem r h) hnone⟩
    · exact ⟨rfl, hplain _ _ rfl (fun _ h => List.mem_cons_of_mem r h) hnone⟩
  | cron rest =>
    cases rest with
    | nil => exact ⟨rfl, hplain w .ended rfl hnil hnone⟩
    | cons r rest =>
      simp only [advance]
      split_ifs <;> exact ⟨rfl, hplain w _ rfl hnil hnone⟩
  | cronListing | cronCounting | manualCounting =>
    simp only [advance]
    split_ifs <;> exact ⟨rfl, hplain w _ rfl hnil hnone⟩
  | cronFiring | dryRunning => exact ⟨rfl, hplain _ _ rfl hnil hnone⟩
  | manual | dryRun =>
    simp only [advance]
    split
    · split_ifs <;> exact ⟨rfl, hplain w _ rfl hnil hnone⟩
    · exact ⟨rfl, hplain w _ rfl hnil hnone⟩
  | manualRecording r =>
    simp only [advance]
    split
    next recorded hrecorded =>
      obtain ⟨runs, heq⟩ := createRun_eq w env.drawn r.id env
      rw [hrecorded] at heq
      have hsame : recorded = { w with runs := runs } := heq
      subst hsame
      exact ⟨rfl, hplain _ _ rfl hnil hnone⟩
    next => exact ⟨rfl, hplain w _ rfl hnil hnone⟩
  | ended => exact ⟨rfl, fun _ h => .inl h⟩

/-- A run has no part in the checks of messages. -/
theorem runTask_calls (w : RoutineWorld) (i : Nat) (t : RunTask) (env : Surroundings)
    (step : RunStep) :
    (w.runTask i t env step).eventCache = w.eventCache ∧
      (w.runTask i t env step).calls = w.calls := by
  cases step with
  | record =>
    simp only [runTask]
    split
    · split
      next recorded hrecorded =>
        obtain ⟨runs, heq⟩ := createRun_eq w t.run t.routine.id env
        rw [hrecorded] at heq
        have hsame : recorded = { w with runs := runs } := heq
        subst hsame
        exact ⟨rfl, rfl⟩
      next => exact ⟨rfl, rfl⟩
    · exact ⟨rfl, rfl⟩
  | begin | finish | panic =>
    simp only [runTask]
    split <;> exact ⟨rfl, rfl⟩
  | complete | compute =>
    simp only [runTask]
    split <;> exact ⟨rfl, rfl⟩
  | store =>
    simp only [runTask]
    split
    · split <;> exact ⟨rfl, rfl⟩
    · exact ⟨rfl, rfl⟩

/-- What a step adds to the cache are event routines of the table; a call it leaves looks at no
routine but those of the cache and of a call before it. -/
theorem step_calls (w : RoutineWorld) (act : RoutineAct) :
    (∀ r ∈ (w.step act).eventCache, r ∈ w.eventCache ∨ r ∈ w.routines.rows) ∧
      ∀ call' ∈ (w.step act).calls, call' ∈ w.calls ∨
        (call'.cooled = none ∧ ∀ r ∈ call'.eventRoutines, r ∈ w.eventCache) ∨
          ∃ i env call, act = .advance i env ∧ call ∈ w.calls ∧
            (∀ r ∈ call'.eventRoutines, r ∈ call.eventRoutines) ∧
              ∀ r ∈ call'.cooled, r ∈ call.cooled ∨ r.checkCooldown env.now = true := by
  -- a call that starts
  have hadd (call : TriggerCall) (hcooled : call.cooled = none)
      (hroutines : ∀ r ∈ call.eventRoutines, r ∈ w.eventCache) :
      ∀ call' ∈ w.calls ++ [call], call' ∈ w.calls ∨
        (call'.cooled = none ∧ ∀ r ∈ call'.eventRoutines, r ∈ w.eventCache) ∨
          ∃ i env call, act = .advance i env ∧ call ∈ w.calls ∧
            (∀ r ∈ call'.eventRoutines, r ∈ call.eventRoutines) ∧
              ∀ r ∈ call'.cooled, r ∈ call.cooled ∨ r.checkCooldown env.now = true := by
    intro call' hcall'
    rcases List.mem_append.mp hcall' with h | h
    · exact .inl h
    · rw [List.mem_singleton.mp h]
      exact .inr (.inl ⟨hcooled, hroutines⟩)
  cases act with
  | refresh =>
    simp only [step]
    split
    · exact ⟨fun _ h => .inl h, fun _ h => .inl h⟩
    · exact ⟨fun r h => .inr (List.mem_filter.mp h).1, fun _ h => .inl h⟩
  | message channel content => exact ⟨fun _ h => .inl h, hadd _ rfl fun _ h => h⟩
  | tick =>
    simp only [step]
    split
    · exact ⟨fun _ h => .inl h, fun _ h => .inl h⟩
    · exact ⟨fun _ h => .inl h, hadd _ rfl fun _ h => absurd h List.not_mem_nil⟩
  | fireManual | test =>
    exact ⟨fun _ h => .inl h, hadd _ rfl fun _ h => absurd h List.not_mem_nil⟩
  | advance i env =>
    simp only [step]
    split
    next call hcall =>
      obtain ⟨hcache, hcalls⟩ := advance_calls w i env call
      refine ⟨fun r hr => .inl ?_, fun call' hcall' => ?_⟩
      · rw [← hcache]
        exact hr
      · rcases hcalls call' hcall' with h | ⟨hroutines, hcooled⟩
        · exact .inl h
        · exact .inr (.inr ⟨i, env, call, rfl, List.mem_of_getElem? hcall, hroutines, hcooled⟩)
    next => exact ⟨fun _ h => .inl h, fun _ h => .inl h⟩
  | run i next env =>
    simp only [step]
    split
    next t ht =>
      obtain ⟨hcache, hcalls⟩ := runTask_calls w i t env next
      rw [hcache, hcalls]
      exact ⟨fun _ h => .inl h, fun _ h => .inl h⟩
    next => exact ⟨fun _ h => .inl h, fun _ h => .inl h⟩

theorem step_limits (w : RoutineWorld) (act : RoutineAct) :
    (w.step act).routines.limits = w.routines.limits := by
  rcases w.step_routines act with ⟨hsame, -⟩ | ⟨i, env, t, now, next, failures, -, -, -, hrows⟩
  · rw [hsame]
  · rw [hrows]
    exact limits_updateRuntime _ _ _ _ _ _

end RoutineWorld

/-- An update leaves the limits alone. -/
theorem RoutineTable.limits_updateRoutine {table : RoutineTable} {routine : Routine}
    (h : (routine.id, routine.guardrails) ∈ table.limits) :
    (table.updateRoutine routine).limits = table.limits := by
  unfold RoutineTable.limits RoutineTable.updateRoutine
  rw [List.map_map]
  apply List.map_congr_left
  intro r hr
  have hrow : (r.id, r.guardrails) ∈ table.limits := List.mem_map_of_mem hr
  show ((if r.id = routine.id then _ else r : Routine).id,
    (if r.id = routine.id then _ else r : Routine).guardrails) = (r.id, r.guardrails)
  split
  next hid =>
    rw [hid] at hrow ⊢
    rw [RoutineWorld.guardrails_unique hrow h]
  next => rfl

namespace UpdatesWorld

/-- The row with changes keeps its identifier and its limits. -/
theorem changed_limits {w : UpdatesWorld} {params : UpdateParams} {r routine : Routine} {now : Int}
    {text : RoutineText} (h : w.changed params r now = some (routine, text)) :
    routine.id = r.id ∧ routine.guardrails = r.guardrails := by
  simp only [changed] at h
  cases hschedule : params.schedule with
  | some schedule =>
    rw [hschedule] at h
    simp only at h
    split at h
    next =>
      cases h
      exact ⟨rfl, rfl⟩
    next => cases h
  | none =>
    rw [hschedule] at h
    cases h
    exact ⟨rfl, rfl⟩

/-- What a section of an update leaves: the calls of the engine, a cache with copies of its own, and
copies with the limits of rows. -/
theorem step_copies (w : UpdatesWorld) (i : Nat) (env : Surroundings) :
    (w.step (.advance i env)).engine.calls = w.engine.calls ∧
    (∀ r ∈ (w.step (.advance i env)).engine.eventCache, r ∈ w.engine.eventCache ∨
      ∃ u ∈ w.updates, r ∈ u.phase.copies) ∧
    ∀ u' ∈ (w.step (.advance i env)).updates, u' ∈ w.updates ∨
      ∀ r ∈ u'.phase.copies, (r.id, r.guardrails) ∈ w.engine.routines.limits := by
  -- an update that goes on to other copies
  have hgo (other : UpdatesWorld) (u : UpdateCall) (phase : UpdatePhase)
      (hupdates : other.updates = w.updates)
      (hcopies : ∀ r ∈ phase.copies, (r.id, r.guardrails) ∈ w.engine.routines.limits) :
      ∀ u' ∈ (other.goUpdate i u phase).updates, u' ∈ w.updates ∨
        ∀ r ∈ u'.phase.copies, (r.id, r.guardrails) ∈ w.engine.routines.limits := by
    intro u' hu'
    rcases List.mem_or_eq_of_mem_set hu' with h | rfl
    · rw [hupdates] at h
      exact .inl h
    · exact .inr hcopies
  have hnil : ∀ r ∈ ([] : List Routine), (r.id, r.guardrails) ∈ w.engine.routines.limits :=
    fun _ h => absurd h List.not_mem_nil
  simp only [step]
  split
  next u hu =>
    have hended := hgo w u .ended rfl hnil
    simp only [advance]
    split
    next =>
      split
      next r hr =>
        split
        · split
          next routine text hchanged =>
            obtain ⟨hid, hguardrails⟩ := changed_limits hchanged
            refine ⟨rfl, fun _ h => .inl h, hgo w u _ rfl fun copy hcopy => ?_⟩
            rw [List.mem_singleton.mp hcopy, hid, hguardrails]
            exact List.mem_map_of_mem (List.mem_of_find?_eq_some hr)
          next => exact ⟨rfl, fun _ h => .inl h, hended⟩
        · exact ⟨rfl, fun _ h => .inl h, hended⟩
      next => exact ⟨rfl, fun _ h => .inl h, hended⟩
    next routine text hphase =>
      split
      · exact ⟨rfl, fun _ h => .inl h, hgo w u .listing rfl hnil⟩
      · exact ⟨rfl, fun _ h => .inl h, hended⟩
    next =>
      split
      · refine ⟨rfl, fun _ h => .inl h, hgo w u _ rfl fun copy hcopy => ?_⟩
        exact List.mem_map_of_mem (List.mem_filter.mp hcopy).1
      · exact ⟨rfl, fun _ h => .inl h, hended⟩
    next events hphase =>
      split
      · exact ⟨rfl, fun _ h => .inl h, fun _ h => .inl h⟩
      · refine ⟨rfl, fun r hr => .inr ⟨u, List.mem_of_getElem? hu, ?_⟩, hended⟩
        rw [hphase]
        exact hr
    next => exact ⟨rfl, fun _ h => .inl h, fun _ h => .inl h⟩
  next => exact ⟨rfl, fun _ h => .inl h, fun _ h => .inl h⟩

end UpdatesWorld

namespace FiringWorld

section Steps

variable {routines : RoutineTable} {f : FiringWorld} {act : UpdateAct}

theorem latest_le_step (h : f.ByLastRun act) : f.latest ≤ (f.step act).latest := by
  show f.latest ≤ act.reading.getD f.latest
  cases hreading : act.reading with
  | none => exact Int.le_refl _
  | some now => exact h.1 now hreading

/-- What is fired has passed its check. -/
theorem fired_cooled {r : Routine} (h : r ∈ f.world.fired act) :
    ∃ call ∈ f.world.engine.calls, r ∈ call.eventRoutines ∧ r ∈ call.cooled := by
  cases act with
  | engine act =>
    cases act with
    | advance i env =>
      have hfired : f.world.fired (.engine (.advance i env)) = some r := h
      simp only [UpdatesWorld.fired] at hfired
      split at hfired
      next => cases hfired
      next =>
        obtain ⟨call, hcall, hr⟩ := Option.bind_eq_some_iff.mp hfired
        refine ⟨call, List.mem_of_getElem? hcall, ?_⟩
        cases call with
        | eventFiring channel content r' rest =>
          cases hr
          exact ⟨List.mem_cons_self, rfl⟩
        | event | eventCounting | cronListing | cron | cronCounting | cronFiring | manual
        | manualCounting | manualRecording | dryRun | dryRunning | ended => cases hr
    | refresh | message | tick | fireManual | test | run => cases h
  | routineUpdate | advance => cases h

/-- A fire comes a cooldown after every earlier one of its routine. -/
theorem Cooled.apart_step (hc : f.Cooled routines) (h : f.ByLastRun act) :
    (f.step act).CooledDown routines := by
  have hlater := latest_le_step h
  unfold CooledDown
  show (f.fires ++ (f.world.fired act).toList.map fun r => (r.id, (f.step act).latest)).Pairwise _
  cases hfired : f.world.fired act with
  | none =>
    rw [Option.toList_none, List.map_nil, List.append_nil]
    exact hc.apart
  | some r =>
    refine List.pairwise_append.mpr ⟨hc.apart, List.pairwise_singleton _ _, ?_⟩
    intro earlier hearlier later hlast hsame row hrow hid
    rw [List.mem_singleton.mp hlast] at hsame hid ⊢
    obtain ⟨hbound, hcovered⟩ := h.2 r hfired
    obtain ⟨last, hlast, hle⟩ := hcovered earlier hearlier hsame
    obtain ⟨call, hcall, hroutine, hcooled⟩ := fired_cooled hfired
    have hpassed := hc.checked call hcall r hcooled last hlast
    have hlimit := hc.called call hcall r hroutine
    have hrowLimit : (row.id, row.guardrails) ∈ routines.limits := List.mem_map_of_mem hrow
    rw [hid] at hrowLimit
    rw [RoutineWorld.guardrails_unique hrowLimit hlimit]
    unfold Routine.cooldownNanos at hpassed
    rw [if_pos hbound] at hpassed
    show earlier.2 + _ ≤ (f.step act).latest
    omega

theorem Cooled.step (hc : f.Cooled routines) (h : f.ByLastRun act) :
    (f.step act).Cooled routines := by
  have hlater := latest_le_step h
  have hapart := hc.apart_step h
  cases act with
  | routineUpdate params =>
    refine ⟨hc.table, hc.cached, hc.called, fun u hu => ?_, hc.checked, hapart⟩
    rcases List.mem_append.mp hu with hu | hu
    · exact hc.updating u hu
    · rw [List.mem_singleton.mp hu]
      exact fun _ h => absurd h List.not_mem_nil
  | engine act =>
    obtain ⟨hcache, hcalls⟩ := f.world.engine.step_calls act
    have hrow {r : Routine} (hr : r ∈ f.world.engine.routines.rows) :
        (r.id, r.guardrails) ∈ routines.limits := by
      rw [← hc.table]
      exact List.mem_map_of_mem hr
    refine ⟨?_, fun r hr => ?_, fun call' hcall' r hr => ?_, hc.updating,
      fun call' hcall' r hr last hlast => ?_, hapart⟩
    · show (f.world.engine.step act).routines.limits = routines.limits
      rw [RoutineWorld.step_limits]
      exact hc.table
    · rcases hcache r hr with h | h
      · exact hc.cached r h
      · exact hrow h
    · rcases hcalls call' hcall' with h | ⟨-, h⟩ | ⟨i, env, call, -, hcall, h, -⟩
      · exact hc.called call' h r hr
      · exact hc.cached r (h r hr)
      · exact hc.called call hcall r (h r hr)
    · rcases hcalls call' hcall' with h | ⟨h, -⟩ | ⟨i, env, call, rfl, hcall, -, h⟩
      · exact Int.le_trans (hc.checked call' h r hr last hlast) hlater
      · rw [h] at hr
        cases hr
      · rcases h r hr with hbefore | hpassed
        · exact Int.le_trans (hc.checked call hcall r hbefore last hlast) hlater
        · have hlastRun : r.lastRunAt = some last := hlast
          show last + r.cooldownNanos ≤ env.now
          unfold Routine.checkCooldown at hpassed
          rw [hlastRun] at hpassed
          simp only [Bool.not_eq_true', decide_eq_false_iff_not] at hpassed
          omega
  | advance i env =>
    obtain ⟨hcalls, hcache, hcopies⟩ := f.world.step_copies i env
    refine ⟨?_, fun r hr => ?_, ?_, fun u hu r hr => ?_, ?_, hapart⟩
    · obtain ⟨-, -, hsame | ⟨u, routine, text, hu, hphase, hrows⟩⟩ :=
        UpdatesWorld.step_advance f.world i env
      · show (f.world.step (.advance i env)).engine.routines.limits = _
        rw [hsame]
        exact hc.table
      · show (f.world.step (.advance i env)).engine.routines.limits = _
        have hcopy : routine ∈ u.phase.copies := by
          rw [hphase]
          exact List.mem_singleton.mpr rfl
        have hlimit := hc.updating u (List.mem_of_getElem? hu) routine hcopy
        rw [← hc.table] at hlimit
        rw [hrows, RoutineTable.limits_updateRoutine hlimit]
        exact hc.table
    · rcases hcache r hr with h | ⟨u, hu, h⟩
      · exact hc.cached r h
      · exact hc.updating u hu r h
    · show ∀ call ∈ (f.world.step (.advance i env)).engine.calls, _
      rw [hcalls]
      exact hc.called
    · rcases hcopies u hu with h | h
      · exact hc.updating u h r hr
      · rw [← hc.table]
        exact h r hr
    · show ∀ call ∈ (f.world.step (.advance i env)).engine.calls, _
      rw [hcalls]
      intro call hcall r hr last hlast
      exact Int.le_trans (hc.checked call hcall r hr last hlast) hlater

end Steps

end FiringWorld

/-- Where every event routine is fired by a copy that has the last of its earlier fires behind it, two
fires of a routine are at least its cooldown apart. -/
theorem event_fires_apart {maxConcurrentRoutines : Nat} {isMatch : String → String → Bool}
    {nextCronFire : String → Int → Option Int} {validSchedule : String → Bool}
    {routines : RoutineTable} {texts : Uuid → RoutineText} {runs : List RoutineRun} {start : Int}
    {f : FiringWorld}
    (hf : Reached FiringWorld.step FiringWorld.ByLastRun
      ⟨.new maxConcurrentRoutines isMatch nextCronFire validSchedule routines texts runs, start, []⟩
      f) : f.CooledDown routines := by
  have hc : f.Cooled routines := by
    apply hf.invariant (FiringWorld.Cooled routines)
    · exact ⟨rfl, fun _ h => absurd h List.not_mem_nil, fun _ h => absurd h List.not_mem_nil,
        fun _ h => absurd h List.not_mem_nil, fun _ h => absurd h List.not_mem_nil, List.Pairwise.nil⟩
    · exact fun _ _ hact hc => hc.step hact
  exact hc.apart

instance (f : FiringWorld) (act : UpdateAct) : Decidable (f.ByLastRun act) :=
  inferInstanceAs (Decidable ((∀ now ∈ act.reading, f.latest ≤ now) ∧
    ∀ r ∈ f.world.fired act, r.guardrails.cooldown ≤ Routine.maxSeconds ∧
      ∀ fire ∈ f.fires, fire.1 = r.id → ∃ last ∈ r.lastRunAt, fire.2 ≤ last))

/-- A routine that answers a word, at most every five minutes. -/
private def patient : Routine where
  id := .ofNat 1
  enabled := true
  trigger := .event none "hello"
  guardrails := ⟨300, 1⟩
  lastRunAt := none
  nextFireAt := none
  runCount := 0
  consecutiveFailures := 0

private def patientTable : RoutineTable := ⟨[patient], List.nodup_singleton _⟩

private def waiting : FiringWorld :=
  ⟨.new 9 (fun pattern content => pattern == content) (fun _ _ => none) (fun _ => true)
      patientTable (fun _ => ⟨"greet", "", .lightweight "Say hello."⟩) [], 0, []⟩

private def playFires (acts : List UpdateAct) : FiringWorld :=
  acts.foldl FiringWorld.step waiting

private def clockAt (second : Int) (drawn : Nat) : Surroundings :=
  ⟨second * 1000000000, .ofNat drawn, true⟩

/-- A message is checked, and the run it fires goes on to its end. -/
private def greeted (n : Nat) (second : Int) : List UpdateAct :=
  .engine (.message "cli" "hello") ::
    (List.replicate 4 (.engine (.advance n (clockAt second (10 + n)))) ++
      [RunStep.record, .begin, .finish .ok, .complete, .compute, .store].map fun step =>
        .engine (.run n step (clockAt (second + 1) 0)))

/-- The routine gets a description, and the cache is filled anew. -/
private def described (second : Int) : List UpdateAct :=
  .routineUpdate ⟨"greet", none, some "A greeting.", none, none⟩ ::
    List.replicate 4 (.advance 0 (clockAt second 0))

/-- Between two messages an update fills the cache anew. -/
private def greetedAnew : List UpdateAct :=
  .engine .refresh :: (greeted 0 1 ++ described 5 ++ greeted 1 302)

theorem event_fires_apart_anew :
    (playFires greetedAnew).fires = [(.ofNat 1, 1000000000), (.ofNat 1, 302000000000)] ∧
      (playFires greetedAnew).CooledDown patientTable := by
  have hreached : Reached FiringWorld.step FiringWorld.ByLastRun waiting (playFires greetedAnew) :=
    .foldl greetedAnew .start (by decide +kernel)
  exact ⟨by decide +kernel, event_fires_apart hreached⟩

/-- The second message comes after the run of the first has ended, and the cache still has the
routine without a run. -/
private def greetedTwice : List UpdateAct := .engine .refresh :: (greeted 0 1 ++ greeted 1 5)

/-- A routine with a cooldown of five minutes fires twice in four seconds. -/
theorem event_fires_within_cooldown :
    (playFires greetedTwice).fires = [(.ofNat 1, 1000000000), (.ofNat 1, 5000000000)] ∧
      ¬ (playFires greetedTwice).CooledDown patientTable := by
  have hfires : (playFires greetedTwice).fires =
      [(.ofNat 1, 1000000000), (.ofNat 1, 5000000000)] := by decide +kernel
  refine ⟨hfires, fun h => ?_⟩
  unfold FiringWorld.CooledDown at h
  rw [hfires] at h
  have happart := List.rel_of_pairwise_cons h List.mem_cons_self rfl patient List.mem_cons_self rfl
  revert happart
  decide

end Gyre.Agent
