/- digest: What runs that finish and updates of routines leave of each other's changes. -/

import Mathlib.Data.List.Nodup
import Gyre.Agent.RoutineUpdate

set_option autoImplicit false
set_option relaxedAutoImplicit false

namespace Gyre.Agent

open Gyre.Llm Gyre.Lib

/-- The routine of a run that is about to store its state, and whether the run failed. -/
def RunTask.ending (t : RunTask) : Option (Uuid × Bool) :=
  match t.phase with
  | .storing _ _ failures => some (t.routine.id, failures != 0)
  | _ => none

/-- The row that an update writes next. -/
def UpdatePhase.written : UpdatePhase → Option Routine
  | writing routine _ => some routine
  | _ => none

/-- The run that ends with a step. -/
def UpdatesWorld.ending (w : UpdatesWorld) : UpdateAct → Option (Uuid × Bool)
  | .engine (.run i .store _) => (w.engine.tasks[i]?).bind RunTask.ending
  | _ => none

/-- The routines with the runs that have ended since the start, in order. -/
structure CountedWorld where
  world : UpdatesWorld
  endings : List (Uuid × Bool)

/-- How many runs have failed since the last success; none has succeeded yet where some had failed
before. -/
def failuresSince (before : Nat) (endings : List Bool) : Nat :=
  endings.foldl (fun failures failed => if failed then failures + 1 else 0) before

namespace CountedWorld

def step (c : CountedWorld) (act : UpdateAct) : CountedWorld where
  world := c.world.step act
  endings := c.endings ++ (c.world.ending act).toList

/-- Whether the runs of a routine failed, in the order in which they ended. -/
def endingsOf (c : CountedWorld) (id : Uuid) : List Bool :=
  (c.endings.filter fun e => e.1 == id).map (·.2)

/-- The counters of every routine tell how its runs have ended. -/
def CountersRight (start : RoutineTable) (c : CountedWorld) : Prop :=
  ∀ r ∈ c.world.engine.routines.rows, ∀ r₀ ∈ start.rows, r₀.id = r.id →
    r.runCount = r₀.runCount + (c.endingsOf r.id).length ∧
      r.consecutiveFailures = failuresSince r₀.consecutiveFailures (c.endingsOf r.id)

end CountedWorld

namespace UpdatesWorld

/-- What a step of a run leaves alone is what updates write, and the other way round; an update
without a schedule leaves the kind of an event trigger alone. -/
def KeepsOthers (w : UpdatesWorld) (act : UpdateAct) : Prop :=
  ∀ r ∈ w.engine.routines.rows, ∀ r' ∈ (w.step act).engine.routines.rows, r'.id = r.id →
    match act with
    | .engine _ =>
      r'.enabled = r.enabled ∧ r'.trigger = r.trigger ∧ (w.step act).texts r.id = w.texts r.id ∧
        (r'.nextFireAt = r.nextFireAt ∨ ∃ now, r'.nextFireAt = w.engine.nextFire r.trigger now)
    | .routineUpdate _ => r' = r
    | .advance i _ =>
      r'.runCount = r.runCount ∧ r'.consecutiveFailures = r.consecutiveFailures ∧
        r'.lastRunAt = r.lastRunAt ∧
          ∀ u ∈ w.updates[i]?, u.params.schedule = none → r.trigger.isEvent = true →
            r'.trigger.isEvent = true

/-- A run that stores its state goes by the counters and the trigger the routine has now, and the
database answers; an update without a schedule writes the trigger the routine has now. -/
def UpToDate (w : UpdatesWorld) : UpdateAct → Prop
  | .engine (.run i .store env) =>
    ∀ t ∈ w.engine.tasks[i]?, t.phase.isStoring = true → env.succeeds = true ∧
      ∀ r ∈ w.engine.routines.rows, r.id = t.routine.id →
        r.trigger = t.routine.trigger ∧ r.runCount = t.routine.runCount ∧
          r.consecutiveFailures = t.routine.consecutiveFailures
  | .advance i _ =>
    ∀ u ∈ w.updates[i]?, u.params.schedule = none → ∀ routine ∈ u.phase.written,
      ∀ r ∈ w.engine.routines.rows, r.id = routine.id → r.trigger = routine.trigger
  | _ => True

instance UpToDate.decidable (w : UpdatesWorld) : ∀ act, Decidable (w.UpToDate act)
  | .engine (.run i .store env) =>
    inferInstanceAs (Decidable (∀ t ∈ w.engine.tasks[i]?, t.phase.isStoring = true →
      env.succeeds = true ∧ ∀ r ∈ w.engine.routines.rows, r.id = t.routine.id →
        r.trigger = t.routine.trigger ∧ r.runCount = t.routine.runCount ∧
          r.consecutiveFailures = t.routine.consecutiveFailures))
  | .advance i _ =>
    inferInstanceAs (Decidable (∀ u ∈ w.updates[i]?, u.params.schedule = none →
      ∀ routine ∈ u.phase.written, ∀ r ∈ w.engine.routines.rows, r.id = routine.id →
        r.trigger = routine.trigger))
  | .engine (.run _ .record _) | .engine (.run _ .begin _) | .engine (.run _ (.finish _) _)
  | .engine (.run _ .complete _) | .engine (.run _ .compute _) | .engine (.run _ .panic _)
  | .engine .refresh | .engine (.message _ _) | .engine .tick | .engine (.fireManual _)
  | .engine (.test _) | .engine (.advance _ _) | .routineUpdate _ => .isTrue trivial

end UpdatesWorld

section Tables

variable {table : RoutineTable} {r r' : Routine}

/-- A row is found by its identifier in a table with changed rows. -/
theorem RoutineTable.eq_of_mem_map {f : Routine → Routine} (hf : ∀ r, (f r).id = r.id)
    (hr : r ∈ table.rows) (hr' : r' ∈ table.rows.map f) (hid : r'.id = r.id) : r' = f r := by
  obtain ⟨s, hs, rfl⟩ := List.mem_map.mp hr'
  have hsame : s = r := by
    apply List.inj_on_of_nodup_map table.distinct hs hr
    rw [← hid, hf]
  rw [hsame]

theorem RoutineTable.mem_updateRuntime {id : Uuid} {lastRunAt : Int} {nextFireAt : Option Int}
    {runCount failures : Nat} (hr : r ∈ table.rows)
    (hr' : r' ∈ (table.updateRuntime id lastRunAt nextFireAt runCount failures).rows)
    (hid : r'.id = r.id) :
    r' = if r.id = id then
        { r with
          lastRunAt := some lastRunAt
          nextFireAt := nextFireAt
          runCount := runCount
          consecutiveFailures := failures }
      else r := by
  refine RoutineTable.eq_of_mem_map (f := fun r => if r.id = id then
        { r with
          lastRunAt := some lastRunAt
          nextFireAt := nextFireAt
          runCount := runCount
          consecutiveFailures := failures }
      else r) (fun s => ?_) hr hr' hid
  show (if s.id = id then _ else s : Routine).id = s.id
  split <;> rfl

theorem RoutineTable.mem_updateRoutine {routine : Routine} (hr : r ∈ table.rows)
    (hr' : r' ∈ (table.updateRoutine routine).rows) (hid : r'.id = r.id) :
    r' = if r.id = routine.id then
        { routine with
          lastRunAt := r.lastRunAt
          runCount := r.runCount
          consecutiveFailures := r.consecutiveFailures }
      else r := by
  refine RoutineTable.eq_of_mem_map (f := fun r => if r.id = routine.id then
        { routine with
          lastRunAt := r.lastRunAt
          runCount := r.runCount
          consecutiveFailures := r.consecutiveFailures }
      else r) (fun s => ?_) hr hr' hid
  show (if s.id = routine.id then _ else s : Routine).id = s.id
  split
  next h => exact h.symm
  next => rfl

theorem RoutineTable.same_of_mem (hr : r ∈ table.rows) (hr' : r' ∈ table.rows)
    (hid : r'.id = r.id) : r' = r :=
  List.inj_on_of_nodup_map table.distinct hr' hr hid

end Tables

namespace RoutineWorld

section Tasks

variable {w : RoutineWorld}

/-- What a run is about to store goes by its copy of the routine. -/
def Prepared (w : RoutineWorld) : Prop :=
  ∀ t ∈ w.tasks, ∀ now next failures, t.phase = .storing now next failures →
    next = w.nextFire t.routine.trigger now ∧
      (failures = 0 ∨ failures = t.routine.consecutiveFailures + 1)

theorem runtimeOf_storing {r : Routine} {status : RunStatus} {time now : Int} {next : Option Int}
    {failures : Nat} (h : w.runtimeOf r status time = .storing now next failures) :
    next = w.nextFire r.trigger now ∧ (failures = 0 ∨ failures = r.consecutiveFailures + 1) := by
  unfold runtimeOf at h
  obtain ⟨rfl, hnext, hfailures⟩ := RunPhase.storing.inj h
  refine ⟨?_, ?_⟩
  · rw [← hnext]
    cases r.trigger <;> rfl
  · rw [← hfailures]
    split
    · exact .inr rfl
    · exact .inl rfl

theorem Prepared.congr {w' : RoutineWorld} (hp : w.Prepared) (htasks : w'.tasks = w.tasks)
    (hnext : w'.nextCronFire = w.nextCronFire) : w'.Prepared := by
  have hfire (trigger : Trigger) (now : Int) : w'.nextFire trigger now = w.nextFire trigger now := by
    unfold nextFire
    rw [hnext]
  intro t ht now next failures hphase
  rw [htasks] at ht
  rw [hfire]
  exact hp t ht now next failures hphase

theorem Prepared.addTask (hp : w.Prepared) (r : Routine) (kind : FireKind) (run : Uuid)
    {phase : RunPhase} (hphase : phase.isStoring = false) :
    (w.addTask r kind run phase).Prepared := by
  intro t ht now next failures hstoring
  rcases List.mem_append.mp ht with h | h
  · exact hp t h now next failures hstoring
  · rw [List.mem_singleton.mp h] at hstoring
    exact absurd hstoring (RunPhase.ne_storing hphase now next failures)

theorem Prepared.goTask (hp : w.Prepared) {i : Nat} {t : RunTask} {phase : RunPhase}
    (hphase : ∀ now next failures, phase = .storing now next failures →
      next = w.nextFire t.routine.trigger now ∧
        (failures = 0 ∨ failures = t.routine.consecutiveFailures + 1)) :
    (w.goTask i t phase).Prepared := by
  intro other hother now next failures hstoring
  rcases List.mem_or_eq_of_mem_set hother with h | rfl
  · exact hp other h now next failures hstoring
  · exact hphase now next failures hstoring

theorem Prepared.pass (hp : w.Prepared) {i : Nat} {t : RunTask} {phase : RunPhase}
    (hphase : phase.isStoring = false) : (w.goTask i t phase).Prepared :=
  hp.goTask fun now next failures h => absurd h (RunPhase.ne_storing hphase now next failures)

theorem Prepared.createRun (hp : w.Prepared) (id routineId : Uuid) (env : Surroundings) :
    (w.createRun id routineId env).1.Prepared := by
  obtain ⟨runs, heq⟩ := createRun_eq w id routineId env
  rw [heq]
  exact hp.congr rfl rfl

theorem Prepared.advance (hp : w.Prepared) (i : Nat) (env : Surroundings) (call : TriggerCall) :
    (w.advance i env call).Prepared := by
  have hgo (call' : TriggerCall) : (w.goCall i call').Prepared := hp.congr rfl rfl
  cases call with
  | event channel content rest | cron rest =>
    cases rest with
    | nil => exact hgo _
    | cons r rest =>
      simp only [RoutineWorld.advance]
      split_ifs <;> exact hgo _
  | eventCounting | cronListing | cronCounting | manualCounting =>
    simp only [RoutineWorld.advance]
    split_ifs <;> exact hgo _
  | eventFiring channel content r rest =>
    simp only [RoutineWorld.advance]
    split
    · exact hgo _
    · exact (hp.addTask r .event env.drawn rfl).congr rfl rfl
  | cronFiring r rest => exact (hp.addTask r .cron env.drawn rfl).congr rfl rfl
  | manual | dryRun =>
    simp only [RoutineWorld.advance]
    split
    · split_ifs <;> exact hgo _
    · exact hgo _
  | manualRecording r =>
    simp only [RoutineWorld.advance]
    split
    next recorded hrecorded =>
      have hkept := hp.createRun env.drawn r.id env
      rw [hrecorded] at hkept
      exact (hkept.addTask r .manual env.drawn rfl).congr rfl rfl
    next => exact hgo _
  | dryRunning r => exact (hp.addTask r .dryRun env.drawn rfl).congr rfl rfl
  | ended => exact hp

theorem Prepared.runTask (hp : w.Prepared) (i : Nat) (t : RunTask) (env : Surroundings)
    (step : RunStep) : (w.runTask i t env step).Prepared := by
  cases step with
  | record =>
    simp only [RoutineWorld.runTask]
    split
    · split
      next recorded hrecorded =>
        have hkept := hp.createRun t.run t.routine.id env
        rw [hrecorded] at hkept
        exact hkept.pass rfl
      next => exact hp.pass rfl
    · exact hp
  | begin =>
    simp only [RoutineWorld.runTask]
    split
    · have hmoved : (w.goTask i t .executing).Prepared := hp.pass rfl
      exact hmoved.congr rfl rfl
    · exact hp
  | finish status =>
    simp only [RoutineWorld.runTask]
    split
    · have hphase : (if t.kind = .dryRun then RunPhase.gone else .executed status).isStoring =
          false := by
        split <;> rfl
      have hmoved := hp.pass (i := i) (t := t) hphase
      exact hmoved.congr rfl rfl
    · exact hp
  | complete =>
    simp only [RoutineWorld.runTask]
    split
    next status _ =>
      have hmoved : (w.goTask i t (.completed status)).Prepared := hp.pass rfl
      exact hmoved.congr rfl rfl
    next => exact hp
  | compute =>
    simp only [RoutineWorld.runTask]
    split
    next status _ => exact hp.goTask fun now next failures h => runtimeOf_storing h
    next => exact hp
  | store =>
    simp only [RoutineWorld.runTask]
    split
    next now nextFire failures hphase =>
      split
      · have hmoved : (w.goTask i t .stored).Prepared := hp.pass rfl
        exact hmoved.congr rfl rfl
      · exact hp.pass rfl
    next => exact hp
  | panic =>
    simp only [RoutineWorld.runTask]
    split
    · exact hp.pass rfl
    · exact hp

theorem Prepared.step (hp : w.Prepared) (act : RoutineAct) : (w.step act).Prepared := by
  cases act with
  | refresh | tick =>
    simp only [RoutineWorld.step]
    split
    · exact hp
    · exact hp.congr rfl rfl
  | message | fireManual | test => exact hp.congr rfl rfl
  | advance i env =>
    simp only [RoutineWorld.step]
    split
    · exact hp.advance i env _
    · exact hp
  | run i next env =>
    simp only [RoutineWorld.step]
    split
    · exact hp.runTask i _ env next
    · exact hp

end Tasks

end RoutineWorld

namespace UpdatesWorld

section Steps

variable {w : UpdatesWorld}

/-- A section of an update leaves the engine alone, a written row and the cache apart. -/
theorem step_advance (w : UpdatesWorld) (i : Nat) (env : Surroundings) :
    (w.step (.advance i env)).engine.tasks = w.engine.tasks ∧
    (w.step (.advance i env)).engine.nextCronFire = w.engine.nextCronFire ∧
      ((w.step (.advance i env)).engine.routines = w.engine.routines ∨
        ∃ u routine text, w.updates[i]? = some u ∧ u.phase = .writing routine text ∧
          (w.step (.advance i env)).engine.routines = w.engine.routines.updateRoutine routine) := by
  simp only [step]
  split
  next u hu =>
    simp only [advance]
    split
    next =>
      split
      · split
        · split
          · exact ⟨rfl, rfl, .inl rfl⟩
          · exact ⟨rfl, rfl, .inl rfl⟩
        · exact ⟨rfl, rfl, .inl rfl⟩
      · exact ⟨rfl, rfl, .inl rfl⟩
    next routine text hphase =>
      split
      · exact ⟨rfl, rfl, .inr ⟨u, routine, text, hu, hphase, rfl⟩⟩
      · exact ⟨rfl, rfl, .inl rfl⟩
    next =>
      split
      · exact ⟨rfl, rfl, .inl rfl⟩
      · exact ⟨rfl, rfl, .inl rfl⟩
    next =>
      split
      · exact ⟨rfl, rfl, .inl rfl⟩
      · exact ⟨rfl, rfl, .inl rfl⟩
    next => exact ⟨rfl, rfl, .inl rfl⟩
  next => exact ⟨rfl, rfl, .inl rfl⟩

theorem prepared_step (hp : w.engine.Prepared) (act : UpdateAct) : (w.step act).engine.Prepared := by
  cases act with
  | engine act => exact hp.step act
  | routineUpdate params => exact hp
  | advance i env =>
    obtain ⟨htasks, hnext, -⟩ := step_advance w i env
    exact hp.congr htasks hnext

/-- What a run finds where it stores its state, if it is up to date. -/
theorem UpToDate.row {i : Nat} {env : Surroundings} (h : w.UpToDate (.engine (.run i .store env)))
    {t : RunTask} (ht : w.engine.tasks[i]? = some t) {now : Int} {next : Option Int}
    {failures : Nat} (hphase : t.phase = .storing now next failures) {r : Routine}
    (hr : r ∈ w.engine.routines.rows) (hid : r.id = t.routine.id) :
    r.trigger = t.routine.trigger ∧ r.runCount = t.routine.runCount ∧
      r.consecutiveFailures = t.routine.consecutiveFailures := by
  have hstoring : t.phase.isStoring = true := by
    rw [hphase]
    rfl
  exact (h t ht hstoring).2 r hr hid

theorem UpToDate.keepsOthers (hp : w.engine.Prepared) {act : UpdateAct} (h : w.UpToDate act) :
    w.KeepsOthers act := by
  intro r hr r' hr' hid
  cases act with
  | routineUpdate params => exact RoutineTable.same_of_mem hr hr' hid
  | engine act =>
    show r'.enabled = r.enabled ∧ r'.trigger = r.trigger ∧ w.texts r.id = w.texts r.id ∧
      (r'.nextFireAt = r.nextFireAt ∨ ∃ now, r'.nextFireAt = w.engine.nextFire r.trigger now)
    rcases w.engine.step_routines act with
      ⟨hsame, -⟩ | ⟨i, env, t, now, next, failures, rfl, ht, hphase, hrows⟩
    · have hrows' : r' ∈ w.engine.routines.rows := by
        rw [← hsame]
        exact hr'
      rw [RoutineTable.same_of_mem hr hrows' hid]
      exact ⟨rfl, rfl, rfl, .inl rfl⟩
    · have hstored : r' ∈ (w.engine.routines.updateRuntime t.routine.id now next
          (t.routine.runCount + 1) failures).rows := by
        rw [← hrows]
        exact hr'
      rw [RoutineTable.mem_updateRuntime hr hstored hid]
      split
      next hown =>
        obtain ⟨htrigger, -⟩ := h.row ht hphase hr hown
        obtain ⟨hnext, -⟩ := hp t (List.mem_of_getElem? ht) now next failures hphase
        refine ⟨rfl, rfl, rfl, .inr ⟨now, ?_⟩⟩
        rw [htrigger]
        exact hnext
      next => exact ⟨rfl, rfl, rfl, .inl rfl⟩
  | advance i env =>
    obtain ⟨-, -, hsame | ⟨u, routine, text, hu, hphase, hrows⟩⟩ := step_advance w i env
    · have hrows' : r' ∈ w.engine.routines.rows := by
        rw [← hsame]
        exact hr'
      rw [RoutineTable.same_of_mem hr hrows' hid]
      exact ⟨rfl, rfl, rfl, fun _ _ _ h => h⟩
    · have hwritten : r' ∈ (w.engine.routines.updateRoutine routine).rows := by
        rw [← hrows]
        exact hr'
      rw [RoutineTable.mem_updateRoutine hr hwritten hid]
      by_cases hown : r.id = routine.id
      · rw [if_pos hown]
        refine ⟨rfl, rfl, rfl, fun other hother hschedule hevent => ?_⟩
        have hother' : other = u := Option.some.inj (hother.symm.trans hu)
        subst hother'
        have hwritten' : routine ∈ other.phase.written := by
          rw [hphase]
          rfl
        show routine.trigger.isEvent = true
        rw [← h other hu hschedule routine hwritten' r hr hown]
        exact hevent
      · rw [if_neg hown]
        exact ⟨rfl, rfl, rfl, fun _ _ _ h => h⟩

end Steps

end UpdatesWorld

namespace CountedWorld

section Steps

variable {start : RoutineTable} {c : CountedWorld}

theorem failuresSince_concat (before : Nat) (endings : List Bool) (failed : Bool) :
    failuresSince before (endings ++ [failed]) =
      if failed then failuresSince before endings + 1 else 0 := by
  unfold failuresSince
  rw [List.foldl_append]
  rfl

theorem endingsOf_step (c : CountedWorld) (act : UpdateAct) (id : Uuid) :
    (c.step act).endingsOf id = c.endingsOf id ++
      (((c.world.ending act).toList.filter fun e => e.1 == id).map (·.2)) := by
  unfold endingsOf
  show ((c.endings ++ (c.world.ending act).toList).filter _).map _ = _
  rw [List.filter_append, List.map_append]

/-- A step that ends no run and leaves the counters leaves them right. -/
theorem CountersRight.congr (h : c.CountersRight start) {act : UpdateAct}
    (hending : c.world.ending act = none)
    (hrows : ∀ r' ∈ (c.world.step act).engine.routines.rows,
      ∃ r ∈ c.world.engine.routines.rows, r'.id = r.id ∧ r'.runCount = r.runCount ∧
        r'.consecutiveFailures = r.consecutiveFailures) :
    (c.step act).CountersRight start := by
  intro r' hr' r₀ hr₀ hid
  obtain ⟨r, hr, hsame, hcount, hfailures⟩ := hrows r' hr'
  rw [endingsOf_step, hending, hsame, hcount, hfailures]
  have hright := h r hr r₀ hr₀ (hid.trans hsame)
  simpa using hright

theorem CountersRight.step (hp : c.world.engine.Prepared) (h : c.CountersRight start)
    {act : UpdateAct} (hact : c.world.UpToDate act) : (c.step act).CountersRight start := by
  cases act with
  | routineUpdate params => exact h.congr rfl fun r hr => ⟨r, hr, rfl, rfl, rfl⟩
  | advance i env =>
    refine h.congr rfl fun r' hr' => ?_
    obtain ⟨-, -, hsame | ⟨u, routine, text, hu, hphase, hrows⟩⟩ :=
      UpdatesWorld.step_advance c.world i env
    · rw [hsame] at hr'
      exact ⟨r', hr', rfl, rfl, rfl⟩
    · rw [hrows] at hr'
      obtain ⟨r, hr, rfl⟩ := List.mem_map.mp hr'
      refine ⟨r, hr, ?_⟩
      split
      next hid => exact ⟨hid.symm, rfl, rfl⟩
      next => exact ⟨rfl, rfl, rfl⟩
  | engine act =>
    rcases c.world.engine.step_routines act with
      ⟨hsame, hnone⟩ | ⟨i, env, t, now, next, failures, rfl, ht, hphase, hrows⟩
    · refine h.congr ?_ fun r hr => ?_
      · cases act with
        | run i next env =>
          cases next with
          | store =>
            show (c.world.engine.tasks[i]?).bind RunTask.ending = none
            rw [Option.bind_eq_none_iff]
            intro t ht
            cases hphase : t.phase with
            | storing now nextFire failures =>
              have hstoring : t.phase.isStoring = true := by
                rw [hphase]
                rfl
              have hfails := hnone i env rfl t ht hstoring
              rw [(hact t ht hstoring).1] at hfails
              cases hfails
            | spawned | recorded | executing | executed | completed | stored | gone =>
              unfold RunTask.ending
              rw [hphase]
          | record | begin | finish | complete | compute | panic => rfl
        | refresh | message | tick | fireManual | test | advance => rfl
      · have hr' : r ∈ c.world.engine.routines.rows := by
          rw [← hsame]
          exact hr
        exact ⟨r, hr', rfl, rfl, rfl⟩
    · have hending : c.world.ending (.engine (.run i .store env)) =
          some (t.routine.id, failures != 0) := by
        show (c.world.engine.tasks[i]?).bind RunTask.ending = _
        rw [ht]
        show t.ending = _
        unfold RunTask.ending
        rw [hphase]
      intro r' hr' r₀ hr₀ hid
      have hstored : r' ∈ (c.world.engine.routines.updateRuntime t.routine.id now next
          (t.routine.runCount + 1) failures).rows := by
        rw [← hrows]
        exact hr'
      obtain ⟨r, hr, hrr⟩ := List.mem_map.mp hstored
      have hsame : r'.id = r.id := by
        rw [← hrr]
        split <;> rfl
      obtain ⟨hcount, hfailures⟩ := h r hr r₀ hr₀ (hid.trans hsame)
      rw [endingsOf_step, hending, hsame, ← hrr]
      by_cases hown : r.id = t.routine.id
      · obtain ⟨-, hcopied, hfailed⟩ := hact.row ht hphase hr hown
        have hlog : ((some (t.routine.id, failures != 0)).toList.filter fun e => e.1 == r.id).map
            (·.2) = [failures != 0] := by
          simp [hown]
        rw [if_pos hown, hlog]
        refine ⟨?_, ?_⟩
        · show t.routine.runCount + 1 = _
          rw [List.length_append, ← hcopied, hcount, Nat.add_assoc]
          rfl
        · show failures = _
          rw [failuresSince_concat, ← hfailures, hfailed]
          -- a failure count that is not zero is one more than that of the copy
          obtain ⟨-, rfl | rfl⟩ := hp t (List.mem_of_getElem? ht) now next failures hphase
          · rfl
          · simp
      · have hlog : ((some (t.routine.id, failures != 0)).toList.filter fun e => e.1 == r.id).map
            (·.2) = [] := by
          simp [Ne.symm hown]
        rw [if_neg hown, hlog, List.append_nil]
        exact ⟨hcount, hfailures⟩

end Steps

end CountedWorld

/-- A routine that answers a word. -/
private def answering : Routine where
  id := .ofNat 1
  enabled := true
  trigger := .event none "hello"
  guardrails := ⟨0, 1⟩
  lastRunAt := none
  nextFireAt := none
  runCount := 0
  consecutiveFailures := 0

private def answeringTable : RoutineTable := ⟨[answering], List.nodup_singleton _⟩

/-- The engine with its cache filled, as it is when messages come in. -/
private def listening : CountedWorld :=
  ⟨(UpdatesWorld.new 9 (fun pattern content => pattern == content)
      (fun _ now => some (now + 60000000000)) (fun _ => true) answeringTable
      (fun _ => ⟨"greet", "", .lightweight "Say hello."⟩) []), []⟩

private def playUpdates (acts : List UpdateAct) : CountedWorld :=
  acts.foldl CountedWorld.step listening

private def meeting (second : Int) (drawn : Nat) : Surroundings :=
  ⟨second * 1000000000, .ofNat drawn, true⟩

/-- A message that fires the routine, from the check to the end of the check. -/
private def heard (call : Nat) (second : Int) (drawn : Nat) : List UpdateAct :=
  .engine (.message "cli" "hello") ::
    List.replicate 4 (.engine (.advance call (meeting second drawn)))

/-- A run from its record to the computation of the state to be stored. -/
private def worked (task : Nat) (second : Int) (status : RunStatus) : List UpdateAct :=
  [RunStep.record, .begin, .finish status, .complete, .compute].map fun step =>
    .engine (.run task step (meeting second 0))

private def kept (task : Nat) (second : Int) : UpdateAct :=
  .engine (.run task .store (meeting second 0))

/-- The routine gets a schedule in place of the word. -/
private def scheduled (second : Int) : List UpdateAct :=
  .routineUpdate ⟨"greet", none, none, none, some "0 * * * * *"⟩ ::
    List.replicate 4 (.advance 0 (meeting second 0))

/-- A run that fails, and an update after it. -/
private def failedThenScheduled : List UpdateAct :=
  .engine .refresh :: (heard 0 1 10 ++ worked 0 2 .failed ++ [kept 0 3] ++ scheduled 4)

/-- Two messages, each after the run of the one before has stored its state; the second one finds the
copy in the cache that the first one found. -/
private def heardTwice : List UpdateAct :=
  .engine .refresh :: (heard 0 1 10 ++ worked 0 2 .ok ++ [kept 0 3] ++
    heard 1 400 11 ++ worked 1 401 .ok ++ [kept 1 402])

/-- The schedule is set while a run of the routine is under way. -/
private def scheduledMeanwhile : List UpdateAct :=
  .engine .refresh :: (heard 0 1 10 ++ scheduled 2 ++ worked 0 3 .ok)

end Gyre.Agent
