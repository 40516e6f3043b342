/- digest: Scheduler, workers, self-repair and the job table of the database, section by section. -/

import Gyre.Context.Manager

/-!
A worker is the task that `schedule` spawns; its place in the list of workers is its handle. What it
does between two accesses of the shared tables is left to the environment, which picks the next
section. `stop` keeps the scheduler's map locked from its first section to its last, so no section
that needs the map runs in between. Writes to the database are tasks of their own.
-/

set_option autoImplicit false
set_option relaxedAutoImplicit false

namespace Gyre.Agent

open Gyre.Llm Gyre.Context

/-- Where a worker stands. -/
inductive TaskPhase where
  /-- Before it has received the start message. -/
  | waiting
  /-- In its execution loop. -/
  | working
  /-- The loop has returned an error; `mark_failed` comes next. -/
  | failing
  /-- A status has been set in memory; `persist_status` comes next. -/
  | persisting (status : JobState)
  /-- Nothing is left to do. -/
  | ending
  | finished
  deriving DecidableEq, Repr

def TaskPhase.isPersisting : TaskPhase → Bool
  | persisting _ => true
  | _ => false

structure WorkerTask where
  job : Uuid
  phase : TaskPhase
  /-- A stop message is in its channel. -/
  told : Bool
  aborted : Bool
  deriving DecidableEq, Repr

inductive StopPhase where
  /-- The worker has been sent the stop message. -/
  | waiting
  | cancelling
  /-- The job's state has been updated; the write to the database comes next. -/
  | persisting
  deriving DecidableEq, Repr

/-- A call of `stop` that has taken the job out of the map. -/
structure StopCall where
  job : Uuid
  worker : Nat
  phase : StopPhase
  deriving DecidableEq, Repr

inductive CleanerPhase where
  | polling
  /-- It has seen its job finished. -/
  | removing
  | done
  deriving DecidableEq, Repr

/-- The cleanup task of one `schedule`. -/
structure Cleaner where
  job : Uuid
  phase : CleanerPhase
  deriving DecidableEq, Repr

/-- A spawned write of a job's status. -/
inductive StatusWrite where
  /-- `save_job`: a new row, or the same row overwritten. -/
  | save (job : Uuid) (status : JobState)
  /-- `update_job_status`: nothing happens without a row. -/
  | update (job : Uuid) (status : JobState)
  deriving DecidableEq, Repr

/-- The statuses in the database after a write. -/
def StatusWrite.apply (db : Uuid → Option JobState) : StatusWrite → Uuid → Option JobState
  | save job status => Function.update db job (some status)
  | update job status => Function.update db job ((db job).map fun _ => status)

structure JobWorld where
  contexts : ContextManager
  maxParallelJobs : Nat
  maxRepairAttempts : Nat
  hasStore : Bool
  /-- The scheduler's map from jobs to the handles of their workers. -/
  jobs : AList fun _ : Uuid => Nat
  workers : List WorkerTask
  cleaners : List Cleaner
  /-- The call of `stop` that holds the map's lock. -/
  stopping : Option StopCall
  db : Uuid → Option JobState
  /-- The writes not carried out yet, oldest first. -/
  writes : List StatusWrite
  /-- The jobs whose `stop` has reported success. -/
  stopped : List Uuid

/-- What a worker does next. -/
inductive WorkerStep where
  | start
  | complete
  | stick (reason : String)
  | fail
  | markFailed (reason : String)
  | timeOut
  /-- It sees the stop message or the cancellation. -/
  | leave
  | persist
  | exit
  | panic
  /-- The runtime drops the aborted task. -/
  | die
  deriving DecidableEq, Repr

inductive JobAct where
  /-- A job is made, and its row saved, as the job command and full-job routines do. -/
  | create (job : Uuid) (userId title description : String) (now : Int)
  | schedule (job : Uuid) (clock : Clock)
  | worker (handle : Nat) (step : WorkerStep) (clock : Clock)
  | poll (cleaner : Nat)
  | clean (cleaner : Nat)
  | cleanupFinished
  | stop (job : Uuid)
  | stopNext (clock : Clock)
  | repair (job : Uuid) (attempts : Nat) (clock : Clock)
  /-- One of the pending writes is carried out, or fails. -/
  | write (n : Nat) (succeeds : Bool)
  deriving DecidableEq, Repr

namespace JobWorld

def new (maxJobs maxParallelJobs maxRepairAttempts : Nat) (hasStore : Bool) : JobWorld where
  contexts := .new maxJobs
  maxParallelJobs := maxParallelJobs
  maxRepairAttempts := maxRepairAttempts
  hasStore := hasStore
  jobs := ∅
  workers := []
  cleaners := []
  stopping := none
  db := fun _ => none
  writes := []
  stopped := []

def stateOf (w : JobWorld) (job : Uuid) : Option JobState :=
  (w.contexts.getContext job).map (·.state)

def isFinished (w : JobWorld) (handle : Nat) : Bool :=
  w.workers[handle]?.all fun t => t.phase == .finished

@[grind =] def goTo (w : JobWorld) (handle : Nat) (phase : TaskPhase) : JobWorld :=
  { w with workers := w.workers.modify handle fun t => { t with phase := phase } }

/-- Spawn a write when there is a store. -/
def spawnWrite (w : JobWorld) (write : StatusWrite) : JobWorld :=
  if w.hasStore then { w with writes := w.writes ++ [write] } else w

/-- `update_context` with a call of the job's state machine; whether it went through. -/
def update (w : JobWorld) (job : Uuid) (call : LifeCall) (clock : Clock) : JobWorld × Bool :=
  let result := w.contexts.updateContext job fun j => call.apply j clock
  ({ w with contexts := result.1 },
    match result.2 with
    | .ok (.ok ()) => true
    | _ => false)

@[grind =] def create (w : JobWorld) (job : Uuid) (userId title description : String) (now : Int) : JobWorld :=
  match w.contexts.createJobForUser job userId title description now with
  | (contexts, .ok _) =>
    { w with contexts := contexts.insertMemory job }.spawnWrite (.save job .pending)
  | (_, .error _) => w

/-- `schedule`; it returns early for a job in the map. -/
@[grind =] def schedule (w : JobWorld) (job : Uuid) (clock : Clock) : JobWorld :=
  match w.jobs.lookup job with
  | some _ => w
  | none =>
    if w.maxParallelJobs ≤ w.jobs.keys.length then w
    else
      match w.update job (.transitionTo .inProgress (some "Scheduled for execution")) clock with
      | (_, false) => w
      | (started, true) =>
        { started with
          workers := w.workers ++ [⟨job, .waiting, false, false⟩]
          jobs := w.jobs.insert job w.workers.length
          cleaners := w.cleaners ++ [⟨job, .polling⟩] }

/-- `mark_completed`, `mark_stuck` and `mark_failed`: the status is set, or the worker goes on as
told by `refused`. -/
def mark (w : JobWorld) (handle : Nat) (job : Uuid) (call : LifeCall) (clock : Clock)
    (refused : TaskPhase) : JobWorld :=
  match w.update job call clock with
  | (marked, true) => marked.goTo handle (.persisting call.target)
  | (_, false) => w.goTo handle refused

def completed : LifeCall := .transitionTo .completed (some "Job completed successfully")

/-- A section of a worker. A refused mark is an error of the loop, which `mark_failed` answers; the
worker ends when that is refused, too. Between setting a status and spawning its write a worker does
not wait, so it is not dropped there. -/
def runWorker (w : JobWorld) (handle : Nat) (t : WorkerTask) (clock : Clock) : WorkerStep → JobWorld
  | .start =>
    if t.phase = .waiting then
      if (w.stateOf t.job).isSome then w.goTo handle .working else w.goTo handle .ending
    else w
  | .complete => if t.phase = .working then w.mark handle t.job completed clock .failing else w
  | .stick reason =>
    if t.phase = .working then w.mark handle t.job (.markStuck reason) clock .failing else w
  | .fail => if t.phase = .working then w.goTo handle .failing else w
  | .markFailed reason =>
    if t.phase = .failing then
      w.mark handle t.job (.transitionTo .failed (some reason)) clock .ending
    else w
  | .timeOut =>
    if t.phase = .working then w.mark handle t.job (.markStuck "Execution timeout") clock .ending
    else w
  | .leave =>
    if t.phase = .working ∧ (t.told = true ∨ w.stateOf t.job = some .cancelled) then
      w.goTo handle .ending
    else w
  | .persist =>
    match t.phase with
    | .persisting status => (w.spawnWrite (.update t.job status)).goTo handle .ending
    | _ => w
  | .exit => if t.phase = .ending then w.goTo handle .finished else w
  | .panic => if t.phase.isPersisting then w else w.goTo handle .finished
  | .die => if t.aborted = true ∧ t.phase.isPersisting = false then w.goTo handle .finished else w

/-- What a cleanup task looks at: the worker in the map has finished, or there is none. -/
def seesFinished (w : JobWorld) (job : Uuid) : Bool :=
  (w.jobs.lookup job).all w.isFinished

@[grind =] def stop (w : JobWorld) (job : Uuid) : JobWorld :=
  match w.jobs.lookup job with
  | none => { w with stopped := job :: w.stopped }
  | some handle =>
    { w with
      jobs := w.jobs.erase job
      workers := w.workers.modify handle fun t => { t with told := true }
      stopping := some ⟨job, handle, .waiting⟩ }

/-- The next section of the call of `stop` under way. -/
@[grind =] def stopNext (w : JobWorld) (call : StopCall) (clock : Clock) : JobWorld :=
  match call.phase with
  | .waiting =>
    { w with
      workers := w.workers.modify call.worker fun t =>
        if t.phase = .finished then t else { t with aborted := true }
      stopping := some { call with phase := .cancelling } }
  | .cancelling =>
    if (w.stateOf call.job).isSome then
      { (w.update call.job (.transitionTo .cancelled (some "Stopped by scheduler")) clock).1 with
        stopping := some { call with phase := .persisting } }
    else { w with stopping := none }
  | .persisting =>
    { w.spawnWrite (.update call.job .cancelled) with
      stopping := none
      stopped := call.job :: w.stopped }

/-- `repair_stuck_job`; `attempts` were counted when the job was found stuck. -/
@[grind =] def repair (w : JobWorld) (job : Uuid) (attempts : Nat) (clock : Clock) : JobWorld :=
  if w.maxRepairAttempts ≤ attempts then
    let reason := s!"exceeded maximum repair attempts ({w.maxRepairAttempts})"
    match w.update job (.transitionTo .failed (some reason)) clock with
    | (failed, true) => failed.spawnWrite (.update job .failed)
    | (_, false) => w
  else (w.update job .attemptRecovery clock).1

def step (w : JobWorld) : JobAct → JobWorld
  | .create job userId title description now => w.create job userId title description now
  | .schedule job clock => if w.stopping = none then w.schedule job clock else w
  | .worker handle next clock =>
    match w.workers[handle]? with
    | some t => if t.phase = .finished then w else w.runWorker handle t clock next
    | none => w
  | .poll i =>
    match w.cleaners[i]? with
    | some cleaner =>
      if w.stopping = none ∧ cleaner.phase = .polling ∧ w.seesFinished cleaner.job then
        { w with cleaners := w.cleaners.set i { cleaner with phase := .removing } }
      else w
    | none => w
  | .clean i =>
    match w.cleaners[i]? with
    | some cleaner =>
      if w.stopping = none ∧ cleaner.phase = .removing then
        { w with
          jobs := w.jobs.erase cleaner.job
          cleaners := w.cleaners.set i { cleaner with phase := .done } }
      else w
    | none => w
  | .cleanupFinished =>
    if w.stopping = none then
      { w with
        jobs := (w.jobs.keys.filter w.seesFinished).foldl (fun jobs job => jobs.erase job) w.jobs }
    else w
  | .stop job => if w.stopping = none then w.stop job else w
  | .stopNext clock =>
    match w.stopping with
    | some call => w.stopNext call clock
    | none => w
  | .repair job attempts clock => w.repair job attempts clock
  | .write n succeeds =>
    match w.writes[n]? with
    | some write =>
      { w with
        writes := w.writes.eraseIdx n
        db := if succeeds then write.apply w.db else w.db }
    | none => w

section Updates

variable {w : JobWorld} {job other : Uuid} {call : LifeCall} {clock : Clock}

/-- An update goes through only along a transition of the state machine. -/
theorem update_allowed (h : (w.update job call clock).2 = true) :
    ∃ s, w.stateOf job = some s ∧ s.canTransitionTo call.target = true := by
  unfold update ContextManager.updateContext at h
  unfold stateOf
  cases hjob : w.contexts.getContext job with
  | none => simp [hjob] at h
  | some j =>
    refine ⟨j.state, rfl, ?_⟩
    rcases LifeCall.apply_cases j clock call with ⟨e, happly⟩ | ⟨hallowed, -⟩
    · simp [hjob, happly] at h
    · exact hallowed

/-- Updates other than a recovery go through whenever the state allows it. -/
theorem update_of_allowed (hcall : call ≠ .attemptRecovery) {s : JobState}
    (hs : w.stateOf job = some s) (hallowed : s.canTransitionTo call.target = true) :
    (w.update job call clock).2 = true := by
  unfold stateOf at hs
  obtain ⟨j, hjob, rfl⟩ := Option.map_eq_some_iff.mp hs
  have hok : (call.apply j clock).2 = .ok () := by
    cases call with
    | transitionTo target reason => exact JobRecord.transitionTo_ok_iff.mpr hallowed
    | markStuck reason => exact JobRecord.transitionTo_ok_iff.mpr hallowed
    | attemptRecovery => exact absurd rfl hcall
  simp only [update, ContextManager.updateContext, hjob, hok]

theorem stateOf_update (w : JobWorld) (job other : Uuid) (call : LifeCall) (clock : Clock) :
    (w.update job call clock).1.stateOf other =
      if other = job ∧ (w.update job call clock).2 = true then some call.target
      else w.stateOf other := by
  unfold update ContextManager.updateContext stateOf
  cases hjob : w.contexts.getContext job with
  | none => simp
  | some j =>
    by_cases hother : other = job
    · subst hother
      rcases LifeCall.apply_cases j clock call with ⟨e, happly⟩ | ⟨hallowed, attempts, happly⟩
      · simp [ContextManager.getContext, happly, hjob.symm]
      · have hok : ({ j with repairAttempts := attempts }.transitionTo call.target call.reason
            clock).2 = .ok () := JobRecord.transitionTo_ok_iff.mpr hallowed
        have hstate : ({ j with repairAttempts := attempts }.transitionTo call.target call.reason
            clock).1.state = call.target := JobRecord.transitionTo_state hallowed
        simp [ContextManager.getContext, happly, hok, hstate]
    · simp [ContextManager.getContext, hother, AList.lookup_insert_ne hother]

@[simp] theorem update_jobs : (w.update job call clock).1.jobs = w.jobs := rfl
@[simp] theorem update_workers : (w.update job call clock).1.workers = w.workers := rfl
@[simp] theorem update_stopping : (w.update job call clock).1.stopping = w.stopping := rfl

end Updates

end JobWorld

end Gyre.Agent
