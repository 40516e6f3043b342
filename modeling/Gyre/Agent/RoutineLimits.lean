/- digest: How many routine runs execute at once, over every interleaving. -/

import Mathlib.Data.List.Nodup
import Gyre.Agent.RoutineEngine
import Gyre.Lib.Counting
import Gyre.Lib.Reach

set_option autoImplicit false
set_option relaxedAutoImplicit false

namespace Gyre.Agent

open Gyre.Llm Gyre.Lib

def RunPhase.isExecuting : RunPhase → Bool
  | executing => true
  | _ => false

/-- A fired run takes up a place until its action is over. -/
def RunPhase.takesPlace : RunPhase → Bool
  | spawned | recorded | executing => true
  | _ => false

/-- The routines a call has read. -/
def TriggerCall.routines : TriggerCall → List Routine
  | event _ _ rest | cron rest => rest
  | eventCounting _ _ r rest | eventFiring _ _ r rest | cronCounting r rest | cronFiring r rest =>
    r :: rest
  | manualCounting r | manualRecording r | dryRunning r => [r]
  | cronListing | manual _ | dryRun _ | ended => []

/-- The limits of each routine; no run changes them. -/
def RoutineTable.limits (table : RoutineTable) : List (Uuid × RoutineGuardrails) :=
  table.rows.map fun r => (r.id, r.guardrails)

namespace RoutineWorld

def executing (w : RoutineWorld) : Nat :=
  w.tasks.countP fun t => t.phase.isExecuting

def executingOf (w : RoutineWorld) (id : Uuid) : Nat :=
  w.tasks.countP fun t => t.phase.isExecuting && t.routine.id == id

def places (w : RoutineWorld) : Nat :=
  w.tasks.countP fun t => t.phase.takesPlace

def placesOf (w : RoutineWorld) (id : Uuid) : Nat :=
  w.tasks.countP fun t => t.phase.takesPlace && t.routine.id == id

/-- The routine whose run the next section of a call fires. -/
def firing (w : RoutineWorld) : TriggerCall → Option Routine
  | .eventFiring _ _ r _ => if w.atCapacity then none else some r
  | .cronFiring r _ | .manualRecording r | .dryRunning r => some r
  | _ => none

/-- A run is fired only while runs that are fired or executing leave a place, both in all and of its
routine; no action panics. -/
def WithinLimits (w : RoutineWorld) : RoutineAct → Prop
  | .advance i _ => ∀ call r, w.calls[i]? = some call → w.firing call = some r →
      w.places < w.maxConcurrentRoutines ∧ w.placesOf r.id < r.guardrails.maxConcurrent
  | .run i .panic _ => ∀ t, w.tasks[i]? = some t → t.phase.isExecuting = false
  | _ => True

/-- The count is right, no limit is passed, and every routine read has the limits of its row. -/
structure Limited (cap : Nat) (limits : List (Uuid × RoutineGuardrails)) (w : RoutineWorld) :
    Prop where
  config : w.maxConcurrentRoutines = cap
  count : w.runningCount = w.executing
  total : w.places ≤ cap
  each : ∀ id guardrails, (id, guardrails) ∈ limits → w.placesOf id ≤ guardrails.maxConcurrent
  table : w.routines.limits = limits
  cached : ∀ r ∈ w.eventCache, (r.id, r.guardrails) ∈ limits
  called : ∀ call ∈ w.calls, ∀ r ∈ call.routines, (r.id, r.guardrails) ∈ limits

theorem executing_le_places (w : RoutineWorld) : w.executing ≤ w.places := by
  apply List.countP_mono_left
  intro t _ h
  cases hphase : t.phase with
  | executing => rfl
  | spawned | recorded | executed | completed | storing | stored | gone =>
    rw [hphase] at h
    cases h

theorem executingOf_le_placesOf (w : RoutineWorld) (id : Uuid) :
    w.executingOf id ≤ w.placesOf id := by
  apply List.countP_mono_left
  intro t _ h
  rw [Bool.and_eq_true] at h ⊢
  refine ⟨?_, h.2⟩
  cases hphase : t.phase with
  | executing => rfl
  | spawned | recorded | executed | completed | storing | stored | gone =>
    rw [hphase] at h
    cases h.1

/-- A row's limits are found under its identifier alone. -/
theorem guardrails_unique {table : RoutineTable} {id : Uuid} {g g' : RoutineGuardrails}
    (h : (id, g) ∈ table.limits) (h' : (id, g') ∈ table.limits) : g = g' := by
  obtain ⟨r, hr, heq⟩ := List.mem_map.mp h
  obtain ⟨r', hr', heq'⟩ := List.mem_map.mp h'
  cases heq
  have hid : r'.id = r.id := congrArg Prod.fst heq'
  have hsame : r' = r := List.inj_on_of_nodup_map table.distinct hr' hr hid
  subst hsame
  exact congrArg Prod.snd heq'

theorem limits_updateRuntime (table : RoutineTable) (id : Uuid) (lastRunAt : Int)
    (nextFireAt : Option Int) (runCount failures : Nat) :
    (table.updateRuntime id lastRunAt nextFireAt runCount failures).limits = table.limits := by
  unfold RoutineTable.limits RoutineTable.updateRuntime
  rw [List.map_map]
  apply List.map_congr_left
  intro r _
  show ((if r.id = id then _ else r : Routine).id, (if r.id = id then _ else r : Routine).guardrails)
    = (r.id, r.guardrails)
  split
  · rfl
  · rfl

section Frames

variable {cap : Nat} {limits : List (Uuid × RoutineGuardrails)} {w w' : RoutineWorld} {i : Nat} {t : RunTask}
  {r : Routine}

/-- The record of runs does not matter. -/
theorem Limited.congr (hl : w.Limited cap limits)
    (hmax : w'.maxConcurrentRoutines = w.maxConcurrentRoutines)
    (hcount : w'.runningCount = w.runningCount) (htasks : w'.tasks = w.tasks)
    (htable : w'.routines.limits = w.routines.limits) (hcache : w'.eventCache = w.eventCache)
    (hcalls : w'.calls = w.calls) : w'.Limited cap limits := by
  constructor
  · rw [hmax]
    exact hl.config
  · unfold executing
    rw [hcount, htasks]
    exact hl.count
  · unfold places
    rw [htasks]
    exact hl.total
  · unfold placesOf
    rw [htasks]
    exact hl.each
  · rw [htable]
    exact hl.table
  · rw [hcache]
    exact hl.cached
  · rw [hcalls]
    exact hl.called

theorem Limited.goCall (hl : w.Limited cap limits) {call : TriggerCall}
    (hcall : ∀ r ∈ call.routines, (r.id, r.guardrails) ∈ limits) :
    (w.goCall i call).Limited cap limits := by
  refine ⟨hl.config, hl.count, hl.total, hl.each, hl.table, hl.cached, fun other hother => ?_⟩
  rcases List.mem_or_eq_of_mem_set hother with h | rfl
  · exact hl.called other h
  · exact hcall

theorem Limited.addCall (hl : w.Limited cap limits) {call : TriggerCall}
    (hcall : ∀ r ∈ call.routines, (r.id, r.guardrails) ∈ limits) :
    Limited cap limits { w with calls := w.calls ++ [call] } := by
  refine ⟨hl.config, hl.count, hl.total, hl.each, hl.table, hl.cached, fun other hother => ?_⟩
  rcases List.mem_append.mp hother with h | h
  · exact hl.called other h
  · rw [List.mem_singleton.mp h]
    exact hcall

/-- A run is fired while there is a place for it. -/
theorem Limited.addTask (hl : w.Limited cap limits) (hr : (r.id, r.guardrails) ∈ limits)
    (htotal : w.places < w.maxConcurrentRoutines)
    (heach : w.placesOf r.id < r.guardrails.maxConcurrent) (kind : FireKind) (run : Uuid)
    {phase : RunPhase} (hphase : phase.takesPlace = true) {count : Nat}
    (hcount : count = w.runningCount + if phase.isExecuting then 1 else 0) :
    Limited cap limits { w.addTask r kind run phase with runningCount := count } := by
  have hplaces (id : Uuid) : placesOf { w.addTask r kind run phase with runningCount := count } id =
      w.placesOf id + if r.id = id then 1 else 0 := by
    show (w.tasks ++ [_]).countP _ = _
    rw [List.countP_append, List.countP_singleton, hphase, Bool.true_and]
    simp only [placesOf, beq_iff_eq]
  refine ⟨hl.config, ?_, ?_, ?_, hl.table, hl.cached, hl.called⟩
  · show count = (w.tasks ++ [_]).countP _
    rw [List.countP_append, List.countP_singleton, hcount, hl.count]
    rfl
  · show (w.tasks ++ [_]).countP _ ≤ cap
    rw [List.countP_append, List.countP_singleton, hphase, if_pos rfl, ← hl.config]
    exact htotal
  · intro id guardrails hid
    rw [hplaces]
    split
    next heq =>
      subst heq
      rw [← hl.table] at hid hr
      rw [guardrails_unique hid hr]
      exact heach
    next => exact hl.each id guardrails hid

/-- A run goes on; it takes a place only if it has had one. -/
theorem Limited.goTask (hl : w.Limited cap limits) (ht : w.tasks[i]? = some t) {phase : RunPhase}
    (hphase : phase.takesPlace = true → t.phase.takesPlace = true) {count : Nat}
    (hcount : count + (if t.phase.isExecuting then 1 else 0) =
      w.runningCount + if phase.isExecuting then 1 else 0) :
    Limited cap limits { w.goTask i t phase with runningCount := count } := by
  refine ⟨hl.config, ?_, ?_, ?_, hl.table, hl.cached, hl.called⟩
  · have hset := countP_set_add (p := fun t : RunTask => t.phase.isExecuting) ht
      { t with phase := phase }
    have hbefore := hl.count
    unfold executing at hbefore
    show count = (w.tasks.set i { t with phase := phase }).countP fun t => t.phase.isExecuting
    simp only at hset
    omega
  · have hset : (w.tasks.set i { t with phase := phase }).countP (fun t => t.phase.takesPlace) ≤
        w.tasks.countP fun t => t.phase.takesPlace := countP_set_le ht hphase
    exact Nat.le_trans hset hl.total
  · intro id guardrails hid
    have hset : (w.tasks.set i { t with phase := phase }).countP
        (fun t => t.phase.takesPlace && t.routine.id == id) ≤
          w.tasks.countP fun t => t.phase.takesPlace && t.routine.id == id := by
      apply countP_set_le ht
      intro h
      rw [Bool.and_eq_true] at h ⊢
      exact ⟨hphase h.1, h.2⟩
    exact Nat.le_trans hset (hl.each id guardrails hid)

end Frames

section Steps

variable {cap : Nat} {limits : List (Uuid × RoutineGuardrails)} {w : RoutineWorld} {i : Nat} {t : RunTask}

theorem Limited.createRun (hl : w.Limited cap limits) (id routineId : Uuid) (env : Surroundings) :
    (w.createRun id routineId env).1.Limited cap limits := by
  obtain ⟨runs, heq⟩ := createRun_eq w id routineId env
  rw [heq]
  exact hl.congr rfl rfl rfl rfl rfl rfl

theorem Limited.row (hl : w.Limited cap limits) {r : Routine} (hr : r ∈ w.routines.rows) :
    (r.id, r.guardrails) ∈ limits := by
  rw [← hl.table]
  exact List.mem_map_of_mem hr

/-- One section of a call. -/
theorem Limited.advance (hl : w.Limited cap limits) {call : TriggerCall}
    (hcall : w.calls[i]? = some call) (env : Surroundings)
    (hroom : ∀ r, w.firing call = some r → w.places < w.maxConcurrentRoutines ∧
      w.placesOf r.id < r.guardrails.maxConcurrent) : (w.advance i env call).Limited cap limits := by
  have hread := hl.called call (List.mem_of_getElem? hcall)
  have hnone : ∀ r ∈ TriggerCall.ended.routines, (r.id, r.guardrails) ∈ limits :=
    fun _ h => absurd h List.not_mem_nil
  have hover : (w.goCall i .ended).Limited cap limits := hl.goCall hnone
  cases call with
  | event channel content rest =>
    cases rest with
    | nil => exact hover
    | cons r rest =>
      simp only [RoutineWorld.advance]
      split
      next => exact hl.goCall hread
      next => exact hl.goCall fun r' hr' => hread r' (List.mem_cons_of_mem r hr')
  | eventCounting channel content r rest =>
    simp only [RoutineWorld.advance]
    split
    next => exact hl.goCall hread
    next => exact hl.goCall fun r' hr' => hread r' (List.mem_cons_of_mem r hr')
  | eventFiring channel content r rest =>
    have hrest : ∀ r' ∈ rest, (r'.id, r'.guardrails) ∈ limits :=
      fun r' hr' => hread r' (List.mem_cons_of_mem r hr')
    simp only [RoutineWorld.advance]
    split
    next => exact hl.goCall hrest
    next hfree =>
      obtain ⟨htotal, heach⟩ := hroom r (if_neg hfree)
      have hadded : (w.addTask r .event env.drawn .spawned).Limited cap limits :=
        hl.addTask (hread r List.mem_cons_self) htotal heach .event env.drawn rfl rfl
      exact hadded.goCall hrest
  | cronListing =>
    simp only [RoutineWorld.advance]
    split
    next => exact hl.goCall fun r hr => hl.row (List.mem_filter.mp hr).1
    next => exact hover
  | cron rest =>
    cases rest with
    | nil => exact hover
    | cons r rest =>
      simp only [RoutineWorld.advance]
      split
      next => exact hover
      next =>
        split
        next => exact hl.goCall hread
        next => exact hl.goCall fun r' hr' => hread r' (List.mem_cons_of_mem r hr')
  | cronCounting r rest =>
    simp only [RoutineWorld.advance]
    split
    next => exact hl.goCall hread
    next => exact hl.goCall fun r' hr' => hread r' (List.mem_cons_of_mem r hr')
  | cronFiring r rest =>
    obtain ⟨htotal, heach⟩ := hroom r rfl
    have hadded : (w.addTask r .cron env.drawn .spawned).Limited cap limits :=
      hl.addTask (hread r List.mem_cons_self) htotal heach .cron env.drawn rfl rfl
    exact hadded.goCall fun r' hr' => hread r' (List.mem_cons_of_mem r hr')
  | manual id =>
    simp only [RoutineWorld.advance]
    split
    next r hr =>
      split
      next =>
        refine hl.goCall fun r' hr' => ?_
        rw [List.mem_singleton.mp hr']
        exact hl.row (List.mem_of_find?_eq_some hr)
      next => exact hover
    next => exact hover
  | manualCounting r =>
    simp only [RoutineWorld.advance]
    split
    next => exact hl.goCall hread
    next => exact hover
  | manualRecording r =>
    obtain ⟨htotal, heach⟩ := hroom r rfl
    simp only [RoutineWorld.advance]
    split
    next recorded hrecorded =>
      have heq : recorded = (w.createRun env.drawn r.id env).1 := by rw [hrecorded]
      obtain ⟨runs, hruns⟩ := createRun_eq w env.drawn r.id env
      have hkept : recorded.Limited cap limits := by
        rw [heq]
        exact hl.createRun env.drawn r.id env
      rw [hruns] at heq
      subst heq
      have hadded := hkept.addTask (hread r List.mem_cons_self) htotal heach .manual env.drawn
        (show RunPhase.recorded.takesPlace = true from rfl) rfl
      exact hadded.goCall hnone
    next => exact hover
  | dryRun id =>
    simp only [RoutineWorld.advance]
    split
    next r hr =>
      split
      next =>
        refine hl.goCall fun r' hr' => ?_
        rw [List.mem_singleton.mp hr']
        exact hl.row (List.mem_of_find?_eq_some hr)
      next => exact hover
    next => exact hover
  | dryRunning r =>
    obtain ⟨htotal, heach⟩ := hroom r rfl
    have hadded := hl.addTask (hread r List.mem_cons_self) htotal heach .dryRun env.drawn
      (show RunPhase.executing.takesPlace = true from rfl) rfl
    exact hadded.goCall hnone
  | ended => exact hl

/-- One section of a run. -/
theorem Limited.runTask (hl : w.Limited cap limits) (ht : w.tasks[i]? = some t) (env : Surroundings)
    (step : RunStep) (hpanic : step = .panic → t.phase.isExecuting = false) :
    (w.runTask i t env step).Limited cap limits := by
  -- a phase in which the run is not counted, before and after
  have hmove {phase : RunPhase} (hphase : phase.takesPlace = true → t.phase.takesPlace = true)
      (hbefore : t.phase.isExecuting = false) (hafter : phase.isExecuting = false) :
      (w.goTask i t phase).Limited cap limits :=
    hl.goTask ht hphase (by rw [hbefore, hafter])
  cases step with
  | record =>
    simp only [RoutineWorld.runTask]
    split
    next hphase =>
      split
      next recorded hrecorded =>
        have heq : recorded = (w.createRun t.run t.routine.id env).1 := by rw [hrecorded]
        obtain ⟨runs, hruns⟩ := createRun_eq w t.run t.routine.id env
        rw [hruns] at heq
        subst heq
        have hmoved : (w.goTask i t .recorded).Limited cap limits :=
          hmove (fun _ => by rw [hphase]; rfl) (by rw [hphase]; rfl) rfl
        exact hmoved.congr rfl rfl rfl rfl rfl rfl
      next => exact hmove (absurd · Bool.false_ne_true) (by rw [hphase]; rfl) rfl
    next => exact hl
  | begin =>
    simp only [RoutineWorld.runTask]
    split
    next hphase =>
      apply hl.goTask ht (fun _ => by rw [hphase]; rfl)
      rw [hphase]
      rfl
    next => exact hl
  | finish status =>
    simp only [RoutineWorld.runTask]
    split
    next hphase =>
      have hcounted : 0 < w.runningCount := by
        rw [hl.count]
        show 0 < w.tasks.countP fun t => t.phase.isExecuting
        rw [List.countP_pos_iff]
        exact ⟨t, List.mem_of_getElem? ht, by rw [hphase]; rfl⟩
      have hone : w.runningCount - 1 + 1 = w.runningCount := by omega
      split
      next =>
        refine hl.goTask ht ?_ ?_
        · exact (absurd · Bool.false_ne_true)
        · rw [hphase]
          exact hone
      next =>
        refine hl.goTask ht ?_ ?_
        · exact (absurd · Bool.false_ne_true)
        · rw [hphase]
          exact hone
    next => exact hl
  | complete =>
    simp only [RoutineWorld.runTask]
    split
    next status hphase =>
      have hmoved : (w.goTask i t (.completed status)).Limited cap limits :=
        hmove (absurd · Bool.false_ne_true) (by rw [hphase]; rfl) rfl
      exact hmoved.congr rfl rfl rfl rfl rfl rfl
    next => exact hl
  | compute =>
    simp only [RoutineWorld.runTask]
    split
    next status hphase => exact hmove (absurd · Bool.false_ne_true) (by rw [hphase]; rfl) rfl
    next => exact hl
  | store =>
    simp only [RoutineWorld.runTask]
    split
    next now nextFire failures hphase =>
      split
      next =>
        have hmoved : (w.goTask i t .stored).Limited cap limits := hmove (absurd · Bool.false_ne_true) (by rw [hphase]; rfl) rfl
        exact hmoved.congr rfl rfl rfl (limits_updateRuntime _ _ _ _ _ _) rfl rfl
      next => exact hmove (absurd · Bool.false_ne_true) (by rw [hphase]; rfl) rfl
    next => exact hl
  | panic =>
    simp only [RoutineWorld.runTask]
    split
    next hphase =>
      have hnot := hpanic rfl
      rw [hphase] at hnot
      cases hnot
    next => exact hl

theorem Limited.step (hl : w.Limited cap limits) {act : RoutineAct} (hallowed : w.WithinLimits act) :
    (w.step act).Limited cap limits := by
  cases act with
  | refresh =>
    simp only [RoutineWorld.step]
    split
    next => exact hl
    next =>
      exact ⟨hl.config, hl.count, hl.total, hl.each, hl.table, fun r hr => hl.row (List.mem_filter.mp hr).1,
        hl.called⟩
  | message channel content => exact hl.addCall hl.cached
  | tick =>
    simp only [RoutineWorld.step]
    split
    next => exact hl
    next => exact hl.addCall fun _ h => absurd h List.not_mem_nil
  | fireManual id => exact hl.addCall fun _ h => absurd h List.not_mem_nil
  | test id => exact hl.addCall fun _ h => absurd h List.not_mem_nil
  | advance i env =>
    simp only [RoutineWorld.step]
    split
    next call hcall => exact hl.advance hcall env fun r hr => hallowed call r hcall hr
    next => exact hl
  | run i next env =>
    simp only [RoutineWorld.step]
    split
    next t ht =>
      refine hl.runTask ht env next fun hpanic => ?_
      subst hpanic
      exact hallowed t ht
    next => exact hl

end Steps

theorem new_limited (maxConcurrentRoutines : Nat) (isMatch : String → String → Bool)
    (nextCronFire : String → Int → Option Int) (routines : RoutineTable) (runs : List RoutineRun) :
    (new maxConcurrentRoutines isMatch nextCronFire routines runs).Limited maxConcurrentRoutines
      routines.limits :=
  ⟨rfl, rfl, Nat.zero_le _, fun _ _ _ => Nat.zero_le _, rfl,
    fun _ h => absurd h List.not_mem_nil, fun _ h => absurd h List.not_mem_nil⟩

end RoutineWorld

private def greeting (n : Nat) : Routine where
  id := .ofNat n
  enabled := true
  trigger := .event none "hello"
  guardrails := ⟨0, 1⟩
  lastRunAt := none
  nextFireAt := none
  runCount := 0
  consecutiveFailures := 0

private def answered (n : Nat) : Surroundings := ⟨0, .ofNat n, true⟩

private def engine (cap : Nat) : RoutineWorld :=
  .new cap (fun pattern content => pattern == content) (fun _ _ => none)
    ⟨[greeting 1, greeting 2], by decide +kernel⟩ []

private def playRoutines (cap : Nat) (acts : List RoutineAct) : RoutineWorld :=
  acts.foldl RoutineWorld.step (engine cap)

/-- A dry run that executes. -/
private def dryRunning : List RoutineAct :=
  [.test (.ofNat 1), .advance 0 (answered 10), .advance 0 (answered 10)]

private theorem dryRunning_reached :
    Reached RoutineWorld.step RoutineWorld.WithinLimits (engine 1) (playRoutines 1 dryRunning) := by
  have hread : Reached RoutineWorld.step RoutineWorld.WithinLimits (engine 1)
      (playRoutines 1 (dryRunning.take 2)) := by
    refine .next (RoutineAct.advance 0 (answered 10))
      (.next (RoutineAct.test (.ofNat 1)) .start trivial) ?_
    intro call r hcall hr
    have hfirst : (playRoutines 1 (dryRunning.take 1)).calls[0]? = some (.dryRun (.ofNat 1)) := by
      decide +kernel
    cases hfirst.symm.trans hcall
    cases hr
  refine .next (RoutineAct.advance 0 (answered 10)) hread ?_
  intro call r hcall hr
  have hsecond : (playRoutines 1 (dryRunning.take 2)).calls[0]? = some (.dryRunning (greeting 1)) := by
    decide +kernel
  cases hsecond.symm.trans hcall
  cases hr
  decide +kernel

/-- The check of a message that matches both routines, from its first section to its last. -/
private def checkedMessage (call first second : Nat) : List RoutineAct :=
  [.message "cli" "hello", .advance call (answered first), .advance call (answered first),
    .advance call (answered first), .advance call (answered second), .advance call (answered second),
    .advance call (answered second), .advance call (answered second)]

private def started (task : Nat) : List RoutineAct :=
  [.run task .record (answered 0), .run task .begin (answered 0)]

/-- One message matches two routines. -/
private def fired : List RoutineAct :=
  .refresh :: (checkedMessage 0 10 11 ++ started 0 ++ started 1)

/-- A second message comes before the runs of the first are on record. -/
private def firedTwice : List RoutineAct :=
  .refresh :: (checkedMessage 0 10 11 ++ checkedMessage 1 12 13 ++ started 0 ++ started 2)

end Gyre.Agent
