/- digest: Routine engine: trigger checks, runs and the routine tables of the database, section by section. -/

import Gyre.Llm.Value

/-!
The calls of the engine and the tasks it spawns run side by side. Between two sections of a call or
task anything else may happen; which comes next, what the clock shows and whether the database
answers is left to the environment. The regular expressions and the cron schedules are parameters.
-/

set_option autoImplicit false
set_option relaxedAutoImplicit false

namespace Gyre.Agent

open Gyre.Llm

inductive Trigger where
  | cron (schedule : String)
  | event (channel : Option String) (pattern : String)
  | webhook (path secret : Option String)
  | manual
  deriving DecidableEq, Repr

structure RoutineGuardrails where
  /-- In whole seconds, as the database keeps it. -/
  cooldown : Nat
  maxConcurrent : Nat
  deriving DecidableEq, Repr

/-- A routine; times are in nanoseconds. -/
structure Routine where
  id : Uuid
  enabled : Bool
  trigger : Trigger
  guardrails : RoutineGuardrails
  lastRunAt : Option Int
  nextFireAt : Option Int
  runCount : Nat
  consecutiveFailures : Nat
  deriving DecidableEq, Repr

inductive RunStatus where
  | running
  | ok
  | attention
  | failed
  deriving DecidableEq, Repr

/-- A row of the table of runs. -/
structure RoutineRun where
  id : Uuid
  routineId : Uuid
  status : RunStatus
  deriving DecidableEq, Repr

/-- The table of routines; its key is the identifier. -/
structure RoutineTable where
  rows : List Routine
  distinct : (rows.map (·.id)).Nodup

/-- What sets a run off. -/
inductive FireKind where
  | event
  | cron
  | manual
  | dryRun
  deriving DecidableEq, Repr

inductive RunPhase where
  /-- Fired; the record of the run comes next. -/
  | spawned
  /-- On record and not counted yet. -/
  | recorded
  /-- Counted; the routine's action is under way. -/
  | executing
  | executed (status : RunStatus)
  | completed (status : RunStatus)
  /-- The runtime state to be stored has been worked out. -/
  | storing (now : Int) (nextFire : Option Int) (failures : Nat)
  | stored
  /-- Ended without storing a runtime state. -/
  | gone
  deriving DecidableEq, Repr

/-- A run with the routine as it was read when the run was fired. -/
structure RunTask where
  routine : Routine
  kind : FireKind
  run : Uuid
  phase : RunPhase
  deriving DecidableEq, Repr

/-- A call of the engine that is under way. -/
inductive TriggerCall where
  /-- `check_event_triggers` at the head of its loop. -/
  | event (channel content : String) (rest : List Routine)
  | eventCounting (channel content : String) (routine : Routine) (rest : List Routine)
  | eventFiring (channel content : String) (routine : Routine) (rest : List Routine)
  /-- `check_cron_triggers` before it reads the due routines. -/
  | cronListing
  | cron (rest : List Routine)
  | cronCounting (routine : Routine) (rest : List Routine)
  | cronFiring (routine : Routine) (rest : List Routine)
  /-- `fire_manual`. -/
  | manual (routineId : Uuid)
  | manualCounting (routine : Routine)
  | manualRecording (routine : Routine)
  /-- `test_routine`. -/
  | dryRun (routineId : Uuid)
  | dryRunning (routine : Routine)
  | ended
  deriving DecidableEq, Repr

/-- What a section of a call or task meets. -/
structure Surroundings where
  now : Int
  /-- The identifier drawn for a new run. -/
  drawn : Uuid
  /-- The database answers. -/
  succeeds : Bool
  deriving DecidableEq, Repr

structure RoutineWorld where
  maxConcurrentRoutines : Nat
  isMatch : String → String → Bool
  /-- `next_cron_fire`, with none for a schedule that is not valid. -/
  nextCronFire : String → Int → Option Int
  routines : RoutineTable
  runs : List RoutineRun
  eventCache : List Routine
  runningCount : Nat
  calls : List TriggerCall
  tasks : List RunTask

inductive RunStep where
  | record
  | begin
  | finish (status : RunStatus)
  | complete
  | compute
  | store
  /-- The action panics, or its dry run is dropped. -/
  | panic
  deriving DecidableEq, Repr

inductive RoutineAct where
  | refresh
  | message (channel content : String)
  | tick
  | fireManual (routineId : Uuid)
  | test (routineId : Uuid)
  | advance (call : Nat) (env : Surroundings)
  | run (task : Nat) (step : RunStep) (env : Surroundings)
  deriving DecidableEq, Repr

def RunPhase.isStoring : RunPhase → Bool
  | storing _ _ _ => true
  | _ => false

theorem RunPhase.ne_storing {phase : RunPhase} (h : phase.isStoring = false) (time : Int)
    (next : Option Int) (failures : Nat) : phase ≠ storing time next failures := by
  rintro rfl
  cases h

/-- The reading of the clock in a step. -/
def RoutineAct.reading : RoutineAct → Option Int
  | advance _ env | run _ _ env => some env.now
  | _ => none

namespace RoutineTable

def get? (table : RoutineTable) (id : Uuid) : Option Routine :=
  table.rows.find? fun r => r.id == id

/-- `update_routine_runtime`. -/
def updateRuntime (table : RoutineTable) (id : Uuid) (lastRunAt : Int) (nextFireAt : Option Int)
    (runCount consecutiveFailures : Nat) : RoutineTable where
  rows := table.rows.map fun r =>
    if r.id = id then
      { r with
        lastRunAt := some lastRunAt
        nextFireAt := nextFireAt
        runCount := runCount
        consecutiveFailures := consecutiveFailures }
    else r
  distinct := by
    have hids : (table.rows.map fun r =>
        if r.id = id then
          { r with
            lastRunAt := some lastRunAt
            nextFireAt := nextFireAt
            runCount := runCount
            consecutiveFailures := consecutiveFailures }
        else r).map (·.id) = table.rows.map (·.id) := by
      rw [List.map_map]
      apply List.map_congr_left
      intro r _
      show (if r.id = id then _ else r : Routine).id = r.id
      split
      · rfl
      · rfl
    rw [hids]
    exact table.distinct

end RoutineTable

namespace Routine

/-- The longest duration in seconds that `chrono` takes. -/
def maxSeconds : Nat := 9223372036854775

def cooldownNanos (r : Routine) : Int :=
  if r.guardrails.cooldown ≤ maxSeconds then r.guardrails.cooldown * 1000000000
  else 300 * 1000000000

def checkCooldown (r : Routine) (now : Int) : Bool :=
  match r.lastRunAt with
  | some lastRun => !decide (now - lastRun < r.cooldownNanos)
  | none => true

/-- `list_due_cron_routines`. -/
def isDue (r : Routine) (now : Int) : Bool :=
  match r.trigger, r.nextFireAt with
  | .cron _, some nextFire => r.enabled && decide (nextFire ≤ now)
  | _, _ => false

/-- `list_event_routines`. -/
def isEvent (r : Routine) : Bool :=
  match r.trigger with
  | .event _ _ => r.enabled
  | _ => false

/-- The channel filter and the regular expression of an event trigger. -/
def isTriggeredBy (r : Routine) (isMatch : String → String → Bool) (channel content : String) :
    Bool :=
  match r.trigger with
  | .event (some filter) pattern => filter == channel && isMatch pattern content
  | .event none pattern => isMatch pattern content
  | _ => false

end Routine

def TriggerCall.isCron : TriggerCall → Bool
  | cronListing | cron _ | cronCounting _ _ | cronFiring _ _ => true
  | _ => false

def TriggerCall.isEvent : TriggerCall → Bool
  | event _ _ _ | eventCounting _ _ _ _ | eventFiring _ _ _ _ => true
  | _ => false

namespace RoutineWorld

def new (maxConcurrentRoutines : Nat) (isMatch : String → String → Bool)
    (nextCronFire : String → Int → Option Int) (routines : RoutineTable) (runs : List RoutineRun) :
    RoutineWorld where
  maxConcurrentRoutines := maxConcurrentRoutines
  isMatch := isMatch
  nextCronFire := nextCronFire
  routines := routines
  runs := runs
  eventCache := []
  runningCount := 0
  calls := []
  tasks := []

def countRunning (w : RoutineWorld) (id : Uuid) : Nat :=
  w.runs.countP fun run => run.routineId == id && run.status == .running

def checkConcurrent (w : RoutineWorld) (r : Routine) (env : Surroundings) : Bool :=
  env.succeeds && decide (w.countRunning r.id < r.guardrails.maxConcurrent)

def atCapacity (w : RoutineWorld) : Bool :=
  decide (w.maxConcurrentRoutines ≤ w.runningCount)

def addTask (w : RoutineWorld) (r : Routine) (kind : FireKind) (run : Uuid) (phase : RunPhase) :
    RoutineWorld :=
  { w with tasks := w.tasks ++ [⟨r, kind, run, phase⟩] }

def goCall (w : RoutineWorld) (i : Nat) (call : TriggerCall) : RoutineWorld :=
  { w with calls := w.calls.set i call }

def goTask (w : RoutineWorld) (i : Nat) (t : RunTask) (phase : RunPhase) : RoutineWorld :=
  { w with tasks := w.tasks.set i { t with phase := phase } }

/-- `create_routine_run`; a record's identifier is its key. -/
def createRun (w : RoutineWorld) (id routineId : Uuid) (env : Surroundings) : RoutineWorld × Bool :=
  if env.succeeds = true ∧ w.runs.all fun run => run.id != id then
    ({ w with runs := w.runs ++ [⟨id, routineId, .running⟩] }, true)
  else (w, false)

/-- The next section of a call. -/
def advance (w : RoutineWorld) (i : Nat) (env : Surroundings) : TriggerCall → RoutineWorld
  | .event channel content rest =>
    match rest with
    | [] => w.goCall i .ended
    | r :: rest =>
      if r.isTriggeredBy w.isMatch channel content = true ∧ r.checkCooldown env.now = true then
        w.goCall i (.eventCounting channel content r rest)
      else w.goCall i (.event channel content rest)
  | .eventCounting channel content r rest =>
    if w.checkConcurrent r env then w.goCall i (.eventFiring channel content r rest)
    else w.goCall i (.event channel content rest)
  | .eventFiring channel content r rest =>
    if w.atCapacity then w.goCall i (.event channel content rest)
    else (w.addTask r .event env.drawn .spawned).goCall i (.event channel content rest)
  | .cronListing =>
    if env.succeeds then w.goCall i (.cron (w.routines.rows.filter fun r => r.isDue env.now))
    else w.goCall i .ended
  | .cron rest =>
    match rest with
    | [] => w.goCall i .ended
    | r :: rest =>
      if w.atCapacity then w.goCall i .ended
      else if r.checkCooldown env.now then w.goCall i (.cronCounting r rest)
      else w.goCall i (.cron rest)
  | .cronCounting r rest =>
    if w.checkConcurrent r env then w.goCall i (.cronFiring r rest) else w.goCall i (.cron rest)
  | .cronFiring r rest => (w.addTask r .cron env.drawn .spawned).goCall i (.cron rest)
  | .manual id =>
    match w.routines.get? id with
    | some r =>
      if env.succeeds = true ∧ r.enabled = true then w.goCall i (.manualCounting r)
      else w.goCall i .ended
    | none => w.goCall i .ended
  | .manualCounting r =>
    if w.checkConcurrent r env then w.goCall i (.manualRecording r) else w.goCall i .ended
  | .manualRecording r =>
    match w.createRun env.drawn r.id env with
    | (recorded, true) => (recorded.addTask r .manual env.drawn .recorded).goCall i .ended
    | (_, false) => w.goCall i .ended
  | .dryRun id =>
    match w.routines.get? id with
    | some r => if env.succeeds then w.goCall i (.dryRunning r) else w.goCall i .ended
    | none => w.goCall i .ended
  | .dryRunning r =>
    { w.addTask r .dryRun env.drawn .executing with runningCount := w.runningCount + 1 }.goCall i
      .ended
  | .ended => w

/-- The runtime state after a run: when the routine fires next, and how often it has failed. -/
@[grind =] def runtimeOf (w : RoutineWorld) (r : Routine) (status : RunStatus) (now : Int) : RunPhase :=
  let nextFire := match r.trigger with
    | .cron schedule => w.nextCronFire schedule now
    | _ => none
  .storing now nextFire (if status = .failed then r.consecutiveFailures + 1 else 0)

/-- The next section of a run. -/
def runTask (w : RoutineWorld) (i : Nat) (t : RunTask) (env : Surroundings) : RunStep → RoutineWorld
  | .record =>
    if t.phase = .spawned then
      match w.createRun t.run t.routine.id env with
      | (recorded, true) => recorded.goTask i t .recorded
      | (_, false) => w.goTask i t .gone
    else w
  | .begin =>
    if t.phase = .recorded then
      { w.goTask i t .executing with runningCount := w.runningCount + 1 }
    else w
  | .finish status =>
    if t.phase = .executing then
      let next := if t.kind = .dryRun then .gone else .executed status
      { w.goTask i t next with runningCount := w.runningCount - 1 }
    else w
  | .complete =>
    match t.phase with
    | .executed status =>
      let runs := if env.succeeds then
          w.runs.map fun run => if run.id = t.run then { run with status := status } else run
        else w.runs
      { w.goTask i t (.completed status) with runs := runs }
    | _ => w
  | .compute =>
    match t.phase with
    | .completed status => w.goTask i t (w.runtimeOf t.routine status env.now)
    | _ => w
  | .store =>
    match t.phase with
    | .storing now nextFire failures =>
      if env.succeeds then
        { w.goTask i t .stored with
          routines := w.routines.updateRuntime t.routine.id now nextFire (t.routine.runCount + 1)
            failures }
      else w.goTask i t .gone
    | _ => w
  | .panic => if t.phase = .executing then w.goTask i t .gone else w

/-- A step of the engine. Checks of messages keep the event cache locked against a refresh, and the
ticker waits for a check to end before the next one. -/
def step (w : RoutineWorld) : RoutineAct → RoutineWorld
  | .refresh =>
    if w.calls.any TriggerCall.isEvent then w
    else { w with eventCache := w.routines.rows.filter Routine.isEvent }
  | .message channel content =>
    { w with calls := w.calls ++ [.event channel content w.eventCache] }
  | .tick => if w.calls.any TriggerCall.isCron then w else { w with calls := w.calls ++ [.cronListing] }
  | .fireManual id => { w with calls := w.calls ++ [.manual id] }
  | .test id => { w with calls := w.calls ++ [.dryRun id] }
  | .advance i env =>
    match w.calls[i]? with
    | some call => w.advance i env call
    | none => w
  | .run i next env =>
    match w.tasks[i]? with
    | some t => w.runTask i t env next
    | none => w

/-- A record of a run changes the table of runs only. -/
theorem createRun_eq (w : RoutineWorld) (id routineId : Uuid) (env : Surroundings) :
    ∃ runs, (w.createRun id routineId env).1 = { w with runs := runs } := by
  unfold createRun
  split
  · exact ⟨_, rfl⟩
  · exact ⟨w.runs, rfl⟩

theorem createRun_calls (w : RoutineWorld) (id routineId : Uuid) (env : Surroundings) :
    (w.createRun id routineId env).1.calls = w.calls := by
  obtain ⟨runs, heq⟩ := createRun_eq w id routineId env
  rw [heq]

theorem createRun_tasks (w : RoutineWorld) (id routineId : Uuid) (env : Surroundings) :
    (w.createRun id routineId env).1.tasks = w.tasks := by
  obtain ⟨runs, heq⟩ := createRun_eq w id routineId env
  rw [heq]

theorem createRun_routines (w : RoutineWorld) (id routineId : Uuid) (env : Surroundings) :
    (w.createRun id routineId env).1.routines = w.routines := by
  obtain ⟨runs, heq⟩ := createRun_eq w id routineId env
  rw [heq]

/-- No section of a call writes to the table of routines. -/
theorem advance_routines (w : RoutineWorld) (i : Nat) (env : Surroundings) (call : TriggerCall) :
    (w.advance i env call).routines = w.routines := by
  cases call with
  | event channel content rest | cron rest =>
    cases rest with
    | nil => rfl
    | cons r rest =>
      simp only [advance]
      split_ifs <;> rfl
  | eventCounting | eventFiring | cronListing | cronCounting | manualCounting =>
    simp only [advance]
    split_ifs <;> rfl
  | manual | dryRun =>
    simp only [advance]
    split
    · split_ifs <;> rfl
    · rfl
  | manualRecording r =>
    simp only [advance]
    split
    next recorded hrecorded =>
      have hsame := createRun_routines w env.drawn r.id env
      rw [hrecorded] at hsame
      exact hsame
    next => rfl
  | cronFiring | dryRunning | ended => rfl

/-- The table of routines changes only where a run stores its state and the database answers. -/
theorem step_routines (w : RoutineWorld) (act : RoutineAct) :
    (w.step act).routines = w.routines ∧ (∀ i env, act = .run i .store env → ∀ t ∈ w.tasks[i]?,
        t.phase.isStoring = true → env.succeeds = false) ∨
      ∃ i env t now next failures, act = .run i .store env ∧ w.tasks[i]? = some t ∧
        t.phase = .storing now next failures ∧
          (w.step act).routines = w.routines.updateRuntime t.routine.id now next
            (t.routine.runCount + 1) failures := by
  cases act with
  | refresh | tick =>
    simp only [step]
    split_ifs <;> exact .inl ⟨rfl, by rintro i env ⟨⟩⟩
  | message | fireManual | test => exact .inl ⟨rfl, by rintro i env ⟨⟩⟩
  | advance i env =>
    simp only [step]
    split
    · exact .inl ⟨advance_routines w i env _, by rintro i env ⟨⟩⟩
    · exact .inl ⟨rfl, by rintro i env ⟨⟩⟩
  | run i next env =>
    simp only [step]
    split
    next t ht =>
      cases next with
      | record =>
        simp only [runTask]
        split
        · split
          next recorded hrecorded =>
            have hsame := createRun_routines w t.run t.routine.id env
            rw [hrecorded] at hsame
            exact .inl ⟨hsame, by rintro i env ⟨⟩⟩
          next => exact .inl ⟨rfl, by rintro i env ⟨⟩⟩
        · exact .inl ⟨rfl, by rintro i env ⟨⟩⟩
      | begin | finish | panic =>
        simp only [runTask]
        split_ifs <;> exact .inl ⟨rfl, by rintro i env ⟨⟩⟩
      | complete | compute =>
        simp only [runTask]
        split <;> exact .inl ⟨rfl, by rintro i env ⟨⟩⟩
      | store =>
        simp only [runTask]
        split
        next now nextFire failures hphase =>
          split
          next => exact .inr ⟨i, env, t, now, nextFire, failures, rfl, ht, hphase, rfl⟩
          next hfails =>
            refine .inl ⟨rfl, ?_⟩
            rintro _ _ ⟨⟩ t' - -
            exact Bool.eq_false_iff.mpr hfails
        next hphase =>
          refine .inl ⟨rfl, ?_⟩
          rintro _ _ ⟨⟩ t' ht' hstoring
          cases Option.some.inj (ht.symm.trans ht')
          cases hother : t.phase with
          | storing now nextFire failures => exact absurd hother (hphase now nextFire failures)
          | spawned | recorded | executing | executed | completed | stored | gone =>
            rw [hother] at hstoring
            cases hstoring
    next hnone =>
      refine .inl ⟨rfl, ?_⟩
      rintro _ _ ⟨⟩ t ht
      cases hnone.symm.trans ht

end RoutineWorld

end Gyre.Agent
