/- digest: The routine_update tool beside the routine engine, and what finished runs leave of its changes. -/

import Gyre.Agent.RoutineEngine
import Gyre.Lib.Reach

/-!
An update reads the whole row of a routine, changes a part of it and writes back every column but
those of the runtime state; a run reads the row when it is fired and writes the runtime state when it
is over. Then an update reads the event routines again and puts them into the engine's cache.
-/

set_option autoImplicit false
set_option relaxedAutoImplicit false

namespace Gyre.Agent

open Gyre.Llm Gyre.Lib

/-- What a routine does, as far as an update touches it. -/
inductive RoutineAction where
  | lightweight (prompt : String)
  | fullJob (title description : String)
  deriving DecidableEq, Repr

/-- The columns of a routine that the engine's checks do not read. -/
structure RoutineText where
  name : String
  description : String
  action : RoutineAction
  deriving DecidableEq, Repr

/-- The parameters of `routine_update`. -/
structure UpdateParams where
  name : String
  enabled : Option Bool
  description : Option String
  prompt : Option String
  schedule : Option String
  deriving DecidableEq, Repr

inductive UpdatePhase where
  | reading
  | writing (routine : Routine) (text : RoutineText)
  /-- `refresh_event_cache` before it reads the event routines. -/
  | listing
  | caching (events : List Routine)
  | ended
  deriving DecidableEq, Repr

structure UpdateCall where
  params : UpdateParams
  phase : UpdatePhase
  deriving DecidableEq, Repr

structure UpdatesWorld where
  engine : RoutineWorld
  /-- Whether `next_cron_fire` takes a schedule. -/
  validSchedule : String → Bool
  texts : Uuid → RoutineText
  updates : List UpdateCall

inductive UpdateAct where
  | engine (act : RoutineAct)
  | routineUpdate (params : UpdateParams)
  | advance (update : Nat) (env : Surroundings)
  deriving DecidableEq, Repr

def RoutineAction.withPrompt (prompt : String) : RoutineAction → RoutineAction
  | lightweight _ => .lightweight prompt
  | fullJob title _ => .fullJob title prompt

def Trigger.isEvent : Trigger → Bool
  | event _ _ => true
  | _ => false

/-- When a routine with a trigger fires next; none if that is not up to a schedule. -/
def RoutineWorld.nextFire (w : RoutineWorld) (trigger : Trigger) (now : Int) : Option Int :=
  match trigger with
  | .cron schedule => w.nextCronFire schedule now
  | _ => none

namespace RoutineTable

/-- `update_routine`: the runtime state stays, `next_fire_at` apart. -/
def updateRoutine (table : RoutineTable) (routine : Routine) : RoutineTable where
  rows := table.rows.map fun r =>
    if r.id = routine.id then
      { routine with
        lastRunAt := r.lastRunAt
        runCount := r.runCount
        consecutiveFailures := r.consecutiveFailures }
    else r
  distinct := by
    have hids : (table.rows.map fun r =>
        if r.id = routine.id then
          { routine with
            lastRunAt := r.lastRunAt
            runCount := r.runCount
            consecutiveFailures := r.consecutiveFailures }
        else r).map (·.id) = table.rows.map (·.id) := by
      rw [List.map_map]
      apply List.map_congr_left
      intro r _
      show (if r.id = routine.id then _ else r : Routine).id = r.id
      split
      next hid => exact hid.symm
      next => rfl
    rw [hids]
    exact table.distinct

end RoutineTable

namespace UpdatesWorld

def new (maxConcurrentRoutines : Nat) (isMatch : String → String → Bool)
    (nextCronFire : String → Int → Option Int) (validSchedule : String → Bool)
    (routines : RoutineTable) (texts : Uuid → RoutineText) (runs : List RoutineRun) :
    UpdatesWorld where
  engine := .new maxConcurrentRoutines isMatch nextCronFire routines runs
  validSchedule := validSchedule
  texts := texts
  updates := []

/-- `get_routine_by_name`. -/
def byName (w : UpdatesWorld) (name : String) : Option Routine :=
  w.engine.routines.rows.find? fun r => (w.texts r.id).name == name

/-- The row with the changes asked for; none where the schedule is not valid. -/
def changed (w : UpdatesWorld) (params : UpdateParams) (r : Routine) (now : Int) :
    Option (Routine × RoutineText) :=
  let text := w.texts r.id
  let action := match params.prompt with
    | some prompt => text.action.withPrompt prompt
    | none => text.action
  let routine := { r with enabled := params.enabled.getD r.enabled }
  let changedText := { text with
    description := params.description.getD text.description
    action := action }
  match params.schedule with
  | some schedule =>
    if w.validSchedule schedule then
      some ({ routine with
        trigger := .cron schedule
        nextFireAt := w.engine.nextCronFire schedule now }, changedText)
    else none
  | none => some (routine, changedText)

def goUpdate (w : UpdatesWorld) (i : Nat) (u : UpdateCall) (phase : UpdatePhase) : UpdatesWorld :=
  { w with updates := w.updates.set i { u with phase := phase } }

/-- The next section of an update. -/
def advance (w : UpdatesWorld) (i : Nat) (u : UpdateCall) (env : Surroundings) : UpdatesWorld :=
  match u.phase with
  | .reading =>
    match w.byName u.params.name with
    | some r =>
      if env.succeeds then
        match w.changed u.params r env.now with
        | some (routine, text) => w.goUpdate i u (.writing routine text)
        | none => w.goUpdate i u .ended
      else w.goUpdate i u .ended
    | none => w.goUpdate i u .ended
  | .writing routine text =>
    if env.succeeds then
      { w.goUpdate i u .listing with
        engine := { w.engine with routines := w.engine.routines.updateRoutine routine }
        texts := fun id => if id = routine.id then text else w.texts id }
    else w.goUpdate i u .ended
  | .listing =>
    if env.succeeds then w.goUpdate i u (.caching (w.engine.routines.rows.filter Routine.isEvent))
    else w.goUpdate i u .ended
  | .caching events =>
    -- Checks of messages hold the cache's lock.
    if w.engine.calls.any TriggerCall.isEvent then w
    else { w.goUpdate i u .ended with engine := { w.engine with eventCache := events } }
  | .ended => w

def step (w : UpdatesWorld) : UpdateAct → UpdatesWorld
  | .engine act => { w with engine := w.engine.step act }
  | .routineUpdate params => { w with updates := w.updates ++ [⟨params, .reading⟩] }
  | .advance i env =>
    match w.updates[i]? with
    | some u => w.advance i u env
    | none => w

end UpdatesWorld

end Gyre.Agent
