/- digest: The database follows the jobs' states where writes keep their order and stops find work. -/

import Gyre.Agent.JobSchedule
import Gyre.Lib.WriteBehind

set_option autoImplicit false
set_option relaxedAutoImplicit false

namespace Gyre.Agent

open Gyre.Llm Gyre.Context Gyre.Lib

namespace StatusWrite

def job : StatusWrite → Uuid
  | save job _ | update job _ => job

def onRow : StatusWrite → Option JobState → Option JobState
  | save _ status, _ => some status
  | update _ status, row => row.map fun _ => status

theorem apply_eq (write : StatusWrite) (db : Uuid → Option JobState) :
    write.apply db = WriteBehind.carryOut job onRow db write := by
  cases write with
  | save job status => rfl
  | update job status => rfl

end StatusWrite

namespace JobWorld

/-- The job's status in the database once the pending writes have been carried out. -/
def settled (w : JobWorld) (job : Uuid) : Option JobState :=
  WriteBehind.settled StatusWrite.job StatusWrite.onRow w.writes w.db job

/-- A worker of the job has set the status and is to spawn its write. -/
def Persists (w : JobWorld) (job : Uuid) (status : JobState) : Prop :=
  ∃ (h : Nat) (t : WorkerTask), w.workers[h]? = some t ∧ t.job = job ∧ t.phase = .persisting status

/-- A `stop` has set the job's state and is to spawn its write. -/
def Cancels (w : JobWorld) (job : Uuid) : Prop :=
  ∃ call, w.stopping = some call ∧ call.job = job ∧ call.phase = .persisting

/-- What the database will hold of a job against what the memory holds. -/
structure Filed (w : JobWorld) (job : Uuid) : Prop where
  row : ∀ s, w.stateOf job = some s → ∃ r, w.settled job = some r
  same : ∀ s, w.stateOf job = some s → s ≠ .inProgress →
    w.settled job = some s ∨ (∃ status, w.Persists job status) ∨ w.Cancels job
  persists : ∀ status, w.Persists job status → w.stateOf job = some status ∧ status ≠ .cancelled
  cancels : w.Cancels job → w.stateOf job = some .cancelled
  stopped : job ∈ w.stopped → w.stateOf job = some .cancelled ∧ w.settled job = some .cancelled

/-- The steps that keep the database in line: writes of one job are carried out in their order, a
`stop` meets a registered job and ends it while it is unfinished, and neither `stop` nor self-repair
overtakes a worker that has a status to write. -/
def Orderly (w : JobWorld) (act : JobAct) : Prop :=
  Allowed w act ∧
    match act with
    | .stop job => w.stopping = none →
        (w.jobs.lookup job).isSome = true ∨ w.stateOf job = some .cancelled
    | .stopNext _ => ∀ call, w.stopping = some call → call.phase = .cancelling →
        (∃ s, w.stateOf call.job = some s ∧ s.isUnfinished = true) ∧
          ∀ status, ¬ w.Persists call.job status
    | .repair job attempts _ => w.maxRepairAttempts ≤ attempts → ∀ status, ¬ w.Persists job status
    | .write n succeeds => succeeds = true ∧ ∀ x, w.writes[n]? = some x →
        ∀ m y, m < n → w.writes[m]? = some y → y.job ≠ x.job
    | _ => True

section Frames

variable {w w' : JobWorld} {job : Uuid} {status : JobState} {handle : Nat} {t : WorkerTask}
  {phase : TaskPhase}

theorem Filed.congr (hf : w.Filed job) (hstate : w'.stateOf job = w.stateOf job)
    (hsettled : w'.settled job = w.settled job)
    (hpersists : ∀ status, w'.Persists job status ↔ w.Persists job status)
    (hcancels : w'.Cancels job ↔ w.Cancels job) (hstopped : job ∈ w'.stopped → job ∈ w.stopped) :
    w'.Filed job := by
  constructor
  · simpa only [hstate, hsettled] using hf.row
  · simpa only [hstate, hsettled, hpersists, hcancels] using hf.same
  · simpa only [hstate, hpersists] using hf.persists
  · simpa only [hstate, hcancels] using hf.cancels
  · intro h
    rw [hstate, hsettled]
    exact hf.stopped (hstopped h)

theorem settled_congr (hwrites : w'.writes = w.writes) (hdb : w'.db = w.db) (job : Uuid) :
    w'.settled job = w.settled job := by
  unfold settled
  rw [hwrites, hdb]

theorem settled_spawnWrite (w : JobWorld) (hstore : w.hasStore = true) (write : StatusWrite)
    (job : Uuid) :
    (w.spawnWrite write).settled job =
      if job = write.job then write.onRow (w.settled job) else w.settled job := by
  unfold spawnWrite
  rw [if_pos hstore]
  exact WriteBehind.settled_append

theorem settled_spawnWrite_update (w : JobWorld) (hstore : w.hasStore = true) (other job : Uuid)
    (status : JobState) : (w.spawnWrite (.update other status)).settled job =
      if job = other then (w.settled job).map fun _ => status else w.settled job :=
  settled_spawnWrite w hstore (.update other status) job

@[simp] theorem spawnWrite_workers (w : JobWorld) (write : StatusWrite) :
    (w.spawnWrite write).workers = w.workers := by
  obtain ⟨writes, heq⟩ := spawnWrite_eq w write
  rw [heq]

@[simp] theorem spawnWrite_hasStore (w : JobWorld) (write : StatusWrite) :
    (w.spawnWrite write).hasStore = w.hasStore := by
  obtain ⟨writes, heq⟩ := spawnWrite_eq w write
  rw [heq]

@[simp] theorem spawnWrite_stopping (w : JobWorld) (write : StatusWrite) :
    (w.spawnWrite write).stopping = w.stopping := by
  obtain ⟨writes, heq⟩ := spawnWrite_eq w write
  rw [heq]

@[simp] theorem spawnWrite_stopped (w : JobWorld) (write : StatusWrite) :
    (w.spawnWrite write).stopped = w.stopped := by
  obtain ⟨writes, heq⟩ := spawnWrite_eq w write
  rw [heq]

@[simp] theorem stateOf_spawnWrite (w : JobWorld) (write : StatusWrite) (job : Uuid) :
    (w.spawnWrite write).stateOf job = w.stateOf job := by
  obtain ⟨writes, heq⟩ := spawnWrite_eq w write
  rw [heq]
  rfl

theorem persists_congr (hworkers : w'.workers = w.workers) (job : Uuid) (status : JobState) :
    w'.Persists job status ↔ w.Persists job status := by
  unfold Persists
  rw [hworkers]

theorem cancels_congr (hstopping : w'.stopping = w.stopping) (job : Uuid) :
    w'.Cancels job ↔ w.Cancels job := by
  unfold Cancels
  rw [hstopping]

theorem not_cancels_of_free (hfree : w.stopping = none) (job : Uuid) : ¬ w.Cancels job := by
  rintro ⟨call, hcall, -⟩
  rw [hfree] at hcall
  cases hcall

theorem persists_goTo_of_ne (ht : w.workers[handle]? = some t) (hjob : job ≠ t.job) :
    (w.goTo handle phase).Persists job status ↔ w.Persists job status := by
  constructor
  · rintro ⟨k, t', ht', rfl, hphase⟩
    rw [goTo_getElem?] at ht'
    split at ht'
    next hk =>
      subst hk
      rw [ht, Option.map_some, Option.some.injEq] at ht'
      subst ht'
      exact absurd rfl hjob
    next => exact ⟨k, t', ht', rfl, hphase⟩
  · rintro ⟨k, t', ht', rfl, hphase⟩
    refine ⟨k, t', ?_, rfl, hphase⟩
    rw [goTo_getElem?, if_neg]
    · exact ht'
    · rintro rfl
      rw [ht, Option.some.injEq] at ht'
      exact hjob (congrArg WorkerTask.job ht'.symm)

/-- A job's unfinished worker is its only one, so its phase tells what is to be written. -/
theorem persists_iff (hs : w.Staffed) (ht : w.workers[handle]? = some t)
    (hunfinished : t.phase ≠ .finished) : w.Persists t.job status ↔ t.phase = .persisting status := by
  constructor
  · rintro ⟨k, t', ht', hjob, hphase⟩
    have hk := hs.unique k handle t' t ht' ht hjob (by rw [hphase]; nofun) hunfinished
    subst hk
    rw [ht, Option.some.injEq] at ht'
    rw [ht', hphase]
  · intro hphase
    exact ⟨handle, t, ht, rfl, hphase⟩

theorem persists_goTo (hs : w.Staffed) (ht : w.workers[handle]? = some t)
    (hunfinished : t.phase ≠ .finished) :
    (w.goTo handle phase).Persists t.job status ↔ phase = .persisting status := by
  constructor
  · rintro ⟨k, t', ht', hjob, hphase⟩
    rw [goTo_getElem?] at ht'
    split at ht'
    next hk =>
      subst hk
      rw [ht, Option.map_some, Option.some.injEq] at ht'
      subst ht'
      exact hphase
    next hk =>
      exact absurd (hs.unique k handle t' t ht' ht hjob (by rw [hphase]; nofun) hunfinished) hk
  · intro hphase
    refine ⟨handle, { t with phase := phase }, ?_, rfl, hphase⟩
    rw [goTo_getElem?, if_pos rfl, ht]
    rfl

/-- A worker goes on without a status to write before or after. -/
theorem Filed.goTo (hs : w.Staffed) (hf : w.Filed job) (ht : w.workers[handle]? = some t)
    (hunfinished : t.phase ≠ .finished) (hbefore : t.phase.isPersisting = false)
    (hafter : phase.isPersisting = false) : (w.goTo handle phase).Filed job := by
  refine hf.congr rfl (settled_congr rfl rfl job) (fun status => ?_) (cancels_congr rfl job) id
  by_cases hjob : job = t.job
  · subst hjob
    rw [persists_goTo hs ht hunfinished, persists_iff hs ht hunfinished]
    constructor
    · rintro rfl
      cases hafter
    · intro hphase
      rw [hphase] at hbefore
      cases hbefore
  · exact persists_goTo_of_ne ht hjob

/-- A worker's mark leaves what is in the database behind until its write. -/
theorem Filed.mark (hs : w.Staffed) (hf : w.Filed job) (ht : w.workers[handle]? = some t)
    (hunfinished : t.phase ≠ .finished) (hbefore : t.phase.isPersisting = false) (call : LifeCall)
    (hcall : call.target ≠ .cancelled) (clock : Clock) {refused : TaskPhase}
    (hrefused : refused.isPersisting = false) :
    (w.mark handle t.job call clock refused).Filed job := by
  cases hok : (w.update t.job call clock).2 with
  | false =>
    rw [mark_of_refused hok]
    exact hf.goTo hs ht hunfinished hbefore hrefused
  | true =>
    rw [mark_of_accepted hok]
    have hview : ((w.update t.job call clock).1.goTo handle (.persisting call.target)).stateOf job =
        (w.update t.job call clock).1.stateOf job := rfl
    have hworkers : ((w.update t.job call clock).1.goTo handle (.persisting call.target)).workers =
        (w.goTo handle (.persisting call.target)).workers := rfl
    rw [stateOf_update] at hview
    by_cases hjob : job = t.job
    · subst hjob
      obtain ⟨s, hstate, hallowed⟩ := update_allowed hok
      rw [if_pos ⟨rfl, hok⟩] at hview
      have hnot (hcancelled : w.stateOf t.job = some .cancelled) : False := by
        rw [hcancelled, Option.some.injEq] at hstate
        subst hstate
        cases hallowed
      have hpersists (status : JobState) :
          ((w.update t.job call clock).1.goTo handle (.persisting call.target)).Persists t.job
            status ↔ call.target = status := by
        rw [persists_congr hworkers, persists_goTo hs ht hunfinished, TaskPhase.persisting.injEq]
      refine ⟨fun _ _ => hf.row s hstate, fun _ _ _ => .inr (.inl ⟨call.target, ?_⟩), ?_, ?_, ?_⟩
      · rw [hpersists]
      · intro status hstatus
        rw [hpersists] at hstatus
        subst hstatus
        exact ⟨hview, hcall⟩
      · exact fun h => (hnot (hf.cancels h)).elim
      · exact fun h => (hnot (hf.stopped h).1).elim
    · rw [if_neg fun h => hjob h.1] at hview
      refine hf.congr hview (settled_congr rfl rfl job) (fun status => ?_) (cancels_congr rfl job) id
      rw [persists_congr hworkers, persists_goTo_of_ne ht hjob]

/-- A worker's write brings the database up to its job's state. -/
theorem Filed.persist (hs : w.Staffed) (hstore : w.hasStore = true) (hf : w.Filed job)
    (ht : w.workers[handle]? = some t) (hphase : t.phase = .persisting status) :
    ((w.spawnWrite (.update t.job status)).goTo handle .ending).Filed job := by
  have hunfinished : t.phase ≠ .finished := by
    rw [hphase]
    nofun
  have hstate : ((w.spawnWrite (.update t.job status)).goTo handle .ending).stateOf job =
      w.stateOf job := stateOf_spawnWrite w (.update t.job status) job
  have hworkers : ((w.spawnWrite (.update t.job status)).goTo handle .ending).workers =
      (w.goTo handle .ending).workers := by simp [JobWorld.goTo]
  have hcancels : ((w.spawnWrite (.update t.job status)).goTo handle .ending).Cancels job ↔
      w.Cancels job := cancels_congr (spawnWrite_stopping w (.update t.job status)) job
  have hstopped : ((w.spawnWrite (.update t.job status)).goTo handle .ending).stopped =
      w.stopped := spawnWrite_stopped w (.update t.job status)
  have hview : ((w.spawnWrite (.update t.job status)).goTo handle .ending).settled job =
      (w.spawnWrite (.update t.job status)).settled job := settled_congr rfl rfl job
  rw [settled_spawnWrite_update w hstore] at hview
  by_cases hjob : job = t.job
  · subst hjob
    obtain ⟨hsome, hne⟩ := hf.persists status ((persists_iff hs ht hunfinished).mpr hphase)
    obtain ⟨r, hr⟩ := hf.row status hsome
    rw [if_pos rfl, hr, Option.map_some] at hview
    refine ⟨fun _ _ => ⟨status, hview⟩, fun s hs' _ => .inl ?_, ?_, ?_, ?_⟩
    · rw [hstate, hsome] at hs'
      rw [hview, hs']
    · intro st hst
      rw [persists_congr hworkers, persists_goTo hs ht hunfinished] at hst
      cases hst
    · intro h
      rw [hstate]
      exact hf.cancels (hcancels.mp h)
    · intro h
      rw [hstopped] at h
      have hcancelled := (hf.stopped h).1
      rw [hsome, Option.some.injEq] at hcancelled
      exact absurd hcancelled hne
  · rw [if_neg hjob] at hview
    refine hf.congr hstate hview (fun st => ?_) hcancels fun h => by rwa [hstopped] at h
    rw [persists_congr hworkers, persists_goTo_of_ne ht hjob]

end Frames

section Steps

variable {w : JobWorld} {job other : Uuid} {handle : Nat} {t : WorkerTask} {clock : Clock}

theorem Filed.runWorker (hs : w.Staffed) (hstore : w.hasStore = true) (hf : w.Filed job)
    (ht : w.workers[handle]? = some t) (hunfinished : t.phase ≠ .finished) (step : WorkerStep) :
    (w.runWorker handle t clock step).Filed job := by
  have stuck_ne : JobState.stuck ≠ .cancelled := by decide
  have failed_ne : JobState.failed ≠ .cancelled := by decide
  cases step with
  | start =>
    simp only [JobWorld.runWorker]
    split
    next hphase =>
      have hbefore : t.phase.isPersisting = false := by rw [hphase]; rfl
      split
      next => exact hf.goTo hs ht hunfinished hbefore rfl
      next => exact hf.goTo hs ht hunfinished hbefore rfl
    next => exact hf
  | complete =>
    simp only [JobWorld.runWorker]
    split
    next hphase => exact hf.mark hs ht hunfinished (by rw [hphase]; rfl) completed (by decide) clock rfl
    next => exact hf
  | stick reason =>
    simp only [JobWorld.runWorker]
    split
    next hphase =>
      exact hf.mark hs ht hunfinished (by rw [hphase]; rfl) (.markStuck reason) stuck_ne clock rfl
    next => exact hf
  | fail =>
    simp only [JobWorld.runWorker]
    split
    next hphase => exact hf.goTo hs ht hunfinished (by rw [hphase]; rfl) rfl
    next => exact hf
  | markFailed reason =>
    simp only [JobWorld.runWorker]
    split
    next hphase =>
      exact hf.mark hs ht hunfinished (by rw [hphase]; rfl)
        (.transitionTo .failed (some reason)) failed_ne clock rfl
    next => exact hf
  | timeOut =>
    simp only [JobWorld.runWorker]
    split
    next hphase =>
      exact hf.mark hs ht hunfinished (by rw [hphase]; rfl)
        (.markStuck "Execution timeout") stuck_ne clock rfl
    next => exact hf
  | leave =>
    simp only [JobWorld.runWorker]
    split
    next hleaves => exact hf.goTo hs ht hunfinished (by rw [hleaves.1]; rfl) rfl
    next => exact hf
  | persist =>
    simp only [JobWorld.runWorker]
    split
    next status hphase => exact hf.persist hs hstore ht hphase
    next => exact hf
  | exit =>
    simp only [JobWorld.runWorker]
    split
    next hphase => exact hf.goTo hs ht hunfinished (by rw [hphase]; rfl) rfl
    next => exact hf
  | panic =>
    simp only [JobWorld.runWorker]
    split
    next => exact hf
    next hphase => exact hf.goTo hs ht hunfinished (by simpa using hphase) rfl
  | die =>
    simp only [JobWorld.runWorker]
    split
    next hphase => exact hf.goTo hs ht hunfinished hphase.2 rfl
    next => exact hf

/-- A new job comes with its row. -/
theorem Filed.create (hstore : w.hasStore = true) (hf : w.Filed job)
    (hnew : w.stateOf other = none) (userId title description : String) (now : Int) :
    (w.create other userId title description now).Filed job := by
  unfold JobWorld.create
  split
  next contexts created hcreated =>
    have hid := created_eq hcreated
    subst hid
    have hstate : (JobWorld.spawnWrite { w with contexts := contexts.insertMemory created }
        (.save created .pending)).stateOf job = if job = created then some .pending
          else w.stateOf job :=
      (stateOf_spawnWrite _ _ job).trans (stateOf_create_of_created hcreated job)
    have hsettled : (JobWorld.spawnWrite { w with contexts := contexts.insertMemory created }
        (.save created .pending)).settled job = if job = created then some .pending
          else w.settled job :=
      settled_spawnWrite { w with contexts := contexts.insertMemory created } hstore
        (.save created .pending) job
    have hpersists (status : JobState) : (JobWorld.spawnWrite { w with
        contexts := contexts.insertMemory created } (.save created .pending)).Persists job status ↔
          w.Persists job status := persists_congr (spawnWrite_workers _ _) job status
    have hcancels : (JobWorld.spawnWrite { w with
        contexts := contexts.insertMemory created } (.save created .pending)).Cancels job ↔
          w.Cancels job := cancels_congr (spawnWrite_stopping _ _) job
    have hstopped : (JobWorld.spawnWrite { w with
        contexts := contexts.insertMemory created } (.save created .pending)).stopped =
          w.stopped := spawnWrite_stopped _ _
    by_cases hjob : job = created
    · subst hjob
      have hnone {p : Prop} {s : JobState} (h : w.stateOf job = some s) : p := by
        rw [hnew] at h
        cases h
      rw [if_pos rfl] at hstate hsettled
      refine ⟨fun _ _ => ⟨_, hsettled⟩, fun s h _ => .inl ?_, fun status h => ?_, fun h => ?_,
        fun h => ?_⟩
      · rw [hsettled, ← hstate, h]
      · exact hnone (hf.persists status ((hpersists status).mp h)).1
      · exact hnone (hf.cancels (hcancels.mp h))
      · rw [hstopped] at h
        exact hnone (hf.stopped h).1
    · rw [if_neg hjob] at hstate hsettled
      exact hf.congr hstate hsettled hpersists hcancels fun h => by rwa [hstopped] at h
  next => exact hf

/-- A job that is started has no worker with a status left to write. -/
theorem Filed.schedule (hs : w.Staffed) (hf : w.Filed job) (hfree : w.stopping = none)
    (other : Uuid) (clock : Clock) : (w.schedule other clock).Filed job := by
  unfold JobWorld.schedule
  split
  next => exact hf
  next hentry =>
    split
    next => exact hf
    next =>
      split
      next => exact hf
      next started hstarted =>
        have hworld : started = (w.update other
          (.transitionTo .inProgress (some "Scheduled for execution")) clock).1 := by rw [hstarted]
        have hok : (w.update other
          (.transitionTo .inProgress (some "Scheduled for execution")) clock).2 = true := by
            rw [hstarted]
        subst hworld
        obtain ⟨s, hsome, hallowed⟩ := update_allowed hok
        have hstate := stateOf_update w other job
          (.transitionTo .inProgress (some "Scheduled for execution")) clock
        have hpersists (status : JobState) : (∃ (h : Nat) (t : WorkerTask),
            (w.workers ++ [⟨other, .waiting, false, false⟩])[h]? = some t ∧ t.job = job ∧
              t.phase = .persisting status) ↔ w.Persists job status := by
          constructor
          · rintro ⟨h, t, ht, hjob, hphase⟩
            rw [List.getElem?_append] at ht
            split at ht
            · exact ⟨h, t, ht, hjob, hphase⟩
            · rw [List.getElem?_singleton] at ht
              split at ht
              · cases ht
                cases hphase
              · cases ht
          · rintro ⟨h, t, ht, hjob, hphase⟩
            refine ⟨h, t, ?_, hjob, hphase⟩
            rw [List.getElem?_append_left (List.getElem?_eq_some_iff.mp ht).1]
            exact ht
        by_cases hjob : job = other
        · subst hjob
          rw [if_pos ⟨rfl, hok⟩] at hstate
          refine ⟨fun _ _ => hf.row s hsome, fun s' h hne => ?_, fun status h => ?_, fun h => ?_,
            fun h => ?_⟩
          · exact absurd (Option.some.inj (h.symm.trans hstate)) hne
          · obtain ⟨k, t, ht, hsame, hphase⟩ := (hpersists status).mp h
            have hunfinished : s.isUnfinished = true := by
              cases hs' : s.isUnfinished with
              | true => rfl
              | false => cases isUnfinished_of_transition hallowed hs'
            have hfinished := hs.nobody hfree hentry hsome hunfinished k t ht hsame
            rw [hfinished] at hphase
            cases hphase
          · exact absurd h (not_cancels_of_free hfree job)
          · have hcancelled := (hf.stopped h).1
            rw [hsome, Option.some.injEq] at hcancelled
            subst hcancelled
            cases hallowed
        · rw [if_neg fun h => hjob h.1] at hstate
          exact hf.congr hstate (settled_congr rfl rfl job) hpersists (cancels_congr rfl job) id

/-- Telling a worker something leaves its phase as it is. -/
private theorem persists_flag {f : WorkerTask → WorkerTask}
    (hf : ∀ t, (f t).job = t.job ∧ (f t).phase = t.phase) {w' : JobWorld}
    (hworkers : w'.workers = w.workers.modify handle f) (status : JobState) :
    w'.Persists job status ↔ w.Persists job status := by
  unfold Persists
  rw [hworkers]
  constructor
  · rintro ⟨k, t', ht', hjob, hphase⟩
    obtain ⟨t, ht, hsame, hsame', -⟩ := flag_getElem? hf ht'
    exact ⟨k, t, ht, hsame.symm.trans hjob, hsame'.symm.trans hphase⟩
  · rintro ⟨k, t, ht, hjob, hphase⟩
    obtain ⟨t', ht', hsame, hsame'⟩ := flag_getElem?_of hf ht
    exact ⟨k, t', ht', hsame.trans hjob, hsame'.trans hphase⟩

theorem Filed.stop (hf : w.Filed job) (hfree : w.stopping = none)
    (hstop : (w.jobs.lookup other).isSome = true ∨ w.stateOf other = some .cancelled) :
    (w.stop other).Filed job := by
  unfold JobWorld.stop
  split
  next hentry =>
    have hcancelled : w.stateOf other = some .cancelled := by
      rcases hstop with h | h
      · rw [hentry] at h
        cases h
      · exact h
    refine ⟨hf.row, hf.same, hf.persists, hf.cancels, fun h => ?_⟩
    rcases List.mem_cons.mp h with rfl | h
    · refine ⟨hcancelled, ?_⟩
      rcases hf.same .cancelled hcancelled nofun with h | ⟨status, h⟩ | h
      · exact h
      · obtain ⟨hstatus, hne⟩ := hf.persists status h
        rw [hcancelled, Option.some.injEq] at hstatus
        exact absurd hstatus.symm hne
      · exact absurd h (not_cancels_of_free hfree job)
    · exact hf.stopped h
  next handle hentry =>
    refine hf.congr rfl (settled_congr rfl rfl job) (persists_flag ?_ rfl) ?_ id
    · exact fun _ => ⟨rfl, rfl⟩
    · constructor
      · rintro ⟨call, ⟨⟩, -, hphase⟩
        cases hphase
      · exact fun h => absurd h (not_cancels_of_free hfree job)

/-- `stop` ends an unfinished job whose worker has nothing to write. -/
theorem Filed.stopNext (hstore : w.hasStore = true) (hf : w.Filed job) {call : StopCall}
    (hcall : w.stopping = some call)
    (hstop : call.phase = .cancelling →
      (∃ s, w.stateOf call.job = some s ∧ s.isUnfinished = true) ∧
        ∀ status, ¬ w.Persists call.job status) :
    (w.stopNext call clock).Filed job := by
  have hcancels : w.Cancels job ↔ call.job = job ∧ call.phase = .persisting := by
    unfold Cancels
    simp [hcall]
  unfold JobWorld.stopNext
  split
  next hphase =>
    refine hf.congr rfl (settled_congr rfl rfl job) (persists_flag abort_keeps rfl) ?_ id
    rw [hcancels, hphase]
    constructor
    · rintro ⟨call', ⟨⟩, -, hphase'⟩
      cases hphase'
    · exact fun h => nomatch h.2
  next hphase =>
    obtain ⟨⟨s, hsome, hunfinished⟩, hnothing⟩ := hstop hphase
    rw [if_pos (by rw [hsome]; rfl)]
    have hok : (w.update call.job (.transitionTo .cancelled (some "Stopped by scheduler"))
        clock).2 = true :=
      update_of_allowed nofun hsome (by cases s <;> first | rfl | cases hunfinished)
    have hstate := stateOf_update w call.job job
      (.transitionTo .cancelled (some "Stopped by scheduler")) clock
    by_cases hjob : job = call.job
    · subst hjob
      rw [if_pos ⟨rfl, hok⟩] at hstate
      refine ⟨fun _ _ => hf.row s hsome, fun _ _ _ => .inr (.inr ⟨_, rfl, rfl, rfl⟩),
        fun status h => absurd h (hnothing status), fun _ => hstate, fun h => ?_⟩
      exact ⟨hstate, (hf.stopped h).2⟩
    · rw [if_neg fun h => hjob h.1] at hstate
      refine hf.congr hstate (settled_congr rfl rfl job) (persists_congr rfl job) ?_ id
      rw [hcancels]
      constructor
      · rintro ⟨call', ⟨⟩, hsame, -⟩
        exact absurd hsame.symm hjob
      · exact fun h => absurd h.1.symm hjob
  next hphase =>
    have hsettled := settled_spawnWrite_update w hstore call.job job .cancelled
    have hstate := stateOf_spawnWrite w (.update call.job .cancelled) job
    have hpersists (status : JobState) : Persists { w.spawnWrite (.update call.job .cancelled) with
        stopping := none, stopped := call.job :: w.stopped } job status ↔ w.Persists job status :=
      persists_congr (spawnWrite_workers w _) job status
    have hnone : ¬ Cancels { w.spawnWrite (.update call.job .cancelled) with
        stopping := none, stopped := call.job :: w.stopped } job := not_cancels_of_free rfl job
    by_cases hjob : job = call.job
    · subst hjob
      have hcancelled := hf.cancels (hcancels.mpr ⟨rfl, hphase⟩)
      obtain ⟨r, hr⟩ := hf.row .cancelled hcancelled
      rw [if_pos rfl, hr, Option.map_some] at hsettled
      rw [hcancelled] at hstate
      refine ⟨fun _ _ => ⟨_, hsettled⟩, fun s' h _ => .inl ?_, fun status h => ?_,
        fun h => absurd h hnone, fun _ => ⟨hstate, hsettled⟩⟩
      · exact hsettled.trans (hstate.symm.trans h)
      · obtain ⟨hstatus, hne⟩ := hf.persists status ((hpersists status).mp h)
        exact ⟨hstate.trans (hcancelled.symm.trans hstatus), hne⟩
    · rw [if_neg hjob] at hsettled
      refine hf.congr hstate hsettled hpersists ?_ fun h => ?_
      · rw [hcancels]
        exact ⟨fun h => absurd h hnone, fun h => absurd h.1.symm hjob⟩
      · exact (List.mem_cons.mp h).resolve_left hjob

/-- A status set in memory and written at once. -/
private theorem Filed.updateAndWrite (hstore : w.hasStore = true) (hf : w.Filed job)
    {call : LifeCall} (hok : (w.update other call clock).2 = true)
    (hnothing : ∀ status, ¬ w.Persists other status) :
    ((w.update other call clock).1.spawnWrite (.update other call.target)).Filed job := by
  obtain ⟨s, hsome, hallowed⟩ := update_allowed hok
  have hstate := (stateOf_spawnWrite (w.update other call clock).1 (.update other call.target)
    job).trans (stateOf_update w other job call clock)
  have hsettled : ((w.update other call clock).1.spawnWrite (.update other call.target)).settled job =
      if job = other then (w.settled job).map fun _ => call.target else w.settled job :=
    settled_spawnWrite_update (w.update other call clock).1 hstore other job call.target
  have hpersists (status : JobState) := persists_congr
    (spawnWrite_workers (w.update other call clock).1 (.update other call.target)) job status
  have hcancels := cancels_congr
    (spawnWrite_stopping (w.update other call clock).1 (.update other call.target)) job
  have hstopped := spawnWrite_stopped (w.update other call clock).1 (.update other call.target)
  by_cases hjob : job = other
  · subst hjob
    have hnot (hcancelled : w.stateOf job = some .cancelled) : False := by
      rw [hcancelled, Option.some.injEq] at hsome
      subst hsome
      cases hallowed
    obtain ⟨r, hr⟩ := hf.row s hsome
    rw [if_pos ⟨rfl, hok⟩] at hstate
    rw [if_pos rfl, hr, Option.map_some] at hsettled
    refine ⟨fun _ _ => ⟨_, hsettled⟩, fun s' h _ => .inl ?_, fun status h => ?_, fun h => ?_,
      fun h => ?_⟩
    · exact hsettled.trans (hstate.symm.trans h)
    · exact absurd ((hpersists status).mp h) (hnothing status)
    · exact (hnot (hf.cancels (hcancels.mp h))).elim
    · rw [hstopped] at h
      exact (hnot (hf.stopped h).1).elim
  · rw [if_neg fun h => hjob h.1] at hstate
    rw [if_neg hjob] at hsettled
    exact hf.congr hstate hsettled hpersists hcancels fun h => by rwa [hstopped] at h

/-- Self-repair writes the end of a job it gives up. -/
theorem Filed.repair (hstore : w.hasStore = true) (hf : w.Filed job) {attempts : Nat}
    (hrepair : attempts < w.maxRepairAttempts → w.stateOf other ≠ some .stuck)
    (hnothing : w.maxRepairAttempts ≤ attempts → ∀ status, ¬ w.Persists other status) :
    (w.repair other attempts clock).Filed job := by
  unfold JobWorld.repair
  split
  next hmax =>
    dsimp only
    split
    next failed hfailed =>
      have hwritten := hf.updateAndWrite hstore (congrArg Prod.snd hfailed) (hnothing hmax)
      rw [hfailed] at hwritten
      exact hwritten
    next => exact hf
  next hmore =>
    have hstate := stateOf_update w other job .attemptRecovery clock
    rw [if_neg] at hstate
    · exact hf.congr hstate (settled_congr rfl rfl job) (persists_congr rfl job)
        (cancels_congr rfl job) id
    · exact fun h => hrepair (by omega) (update_recovery_iff.mp h.2)

/-- A write that is the oldest of its job does what was to be expected of it. -/
theorem settled_write {n : Nat} {write : StatusWrite} (hwrite : w.writes[n]? = some write)
    (hfirst : ∀ m y, m < n → w.writes[m]? = some y → y.job ≠ write.job) (job : Uuid) :
    settled { w with writes := w.writes.eraseIdx n, db := write.apply w.db } job = w.settled job := by
  unfold settled
  rw [StatusWrite.apply_eq]
  exact WriteBehind.settled_carryOut hwrite hfirst

theorem Filed.step (hs : w.Staffed) (hstore : w.hasStore = true) (hf : w.Filed job)
    {act : JobAct} (horderly : w.Orderly act) : (w.step act).Filed job := by
  obtain ⟨hallowed, hact⟩ := horderly
  have hsame {w' : JobWorld} (hcontexts : w'.contexts = w.contexts) (hwrites : w'.writes = w.writes)
      (hdb : w'.db = w.db) (hworkers : w'.workers = w.workers)
      (hstopping : w'.stopping = w.stopping) (hstopped : w'.stopped = w.stopped) :
      w'.Filed job :=
    hf.congr (by unfold stateOf; rw [hcontexts]) (settled_congr hwrites hdb job)
      (persists_congr hworkers job) (cancels_congr hstopping job) (by rw [hstopped]; exact id)
  cases act with
  | create other userId title description now =>
    exact hf.create hstore hallowed userId title description now
  | schedule other clock =>
    simp only [JobWorld.step]
    split
    next hfree => exact hf.schedule hs hfree other clock
    next => exact hf
  | worker handle next clock =>
    simp only [JobWorld.step]
    split
    next t ht =>
      split
      next => exact hf
      next hunfinished => exact hf.runWorker hs hstore ht hunfinished next
    next => exact hf
  | poll i =>
    simp only [JobWorld.step]
    split
    next =>
      split
      next => exact hsame rfl rfl rfl rfl rfl rfl
      next => exact hf
    next => exact hf
  | clean i =>
    simp only [JobWorld.step]
    split
    next =>
      split
      next => exact hsame rfl rfl rfl rfl rfl rfl
      next => exact hf
    next => exact hf
  | cleanupFinished =>
    simp only [JobWorld.step]
    split
    next => exact hsame rfl rfl rfl rfl rfl rfl
    next => exact hf
  | stop other =>
    simp only [JobWorld.step]
    split
    next hfree => exact hf.stop hfree (hact hfree)
    next => exact hf
  | stopNext clock =>
    simp only [JobWorld.step]
    split
    next call hcall => exact hf.stopNext hstore hcall (hact call hcall)
    next => exact hf
  | repair other attempts clock => exact hf.repair hstore hallowed hact
  | write n succeeds =>
    obtain ⟨rfl, hfirst⟩ := hact
    simp only [JobWorld.step]
    split
    next write hwrite =>
      exact hf.congr rfl (settled_write hwrite (hfirst write hwrite) job) (persists_congr rfl job)
        (cancels_congr rfl job) id
    next => exact hf

end Steps

section Runs

variable {w : JobWorld} {maxJobs maxParallelJobs maxRepairAttempts : Nat}

theorem mark_hasStore (w : JobWorld) (handle : Nat) (job : Uuid) (call : LifeCall) (clock : Clock)
    (refused : TaskPhase) : (w.mark handle job call clock refused).hasStore = w.hasStore := by
  cases hok : (w.update job call clock).2 with
  | true =>
    rw [mark_of_accepted hok]
    rfl
  | false =>
    rw [mark_of_refused hok]
    rfl

theorem runWorker_hasStore (w : JobWorld) (handle : Nat) (t : WorkerTask) (clock : Clock)
    (step : WorkerStep) : (w.runWorker handle t clock step).hasStore = w.hasStore := by
  cases step with
  | start | fail | leave | exit | panic | die =>
    simp only [runWorker]
    repeat' split
    all_goals rfl
  | complete | stick | markFailed | timeOut =>
    simp only [runWorker]
    split
    · exact mark_hasStore w handle t.job _ clock _
    · rfl
  | persist =>
    simp only [runWorker]
    split
    next status _ => exact spawnWrite_hasStore w (.update t.job status)
    next => rfl

/-- No step turns the database on or off. -/
theorem step_hasStore (w : JobWorld) (act : JobAct) : (w.step act).hasStore = w.hasStore := by
  cases act with
  | create job userId title description now =>
    simp only [JobWorld.step, create]
    split
    · exact spawnWrite_hasStore _ _
    · rfl
  | schedule job clock =>
    simp only [JobWorld.step, schedule]
    repeat' split
    all_goals first
      | rfl
      | (next started hstarted =>
          have hworld := congrArg (fun result => result.1.hasStore) hstarted
          exact hworld.symm)
  | worker handle next clock =>
    simp only [JobWorld.step]
    split
    next t _ =>
      split
      · rfl
      · exact runWorker_hasStore w handle t clock next
    next => rfl
  | poll | clean | cleanupFinished | write =>
    simp only [JobWorld.step]
    repeat' split
    all_goals rfl
  | stop job =>
    simp only [JobWorld.step, stop]
    repeat' split
    all_goals rfl
  | stopNext clock =>
    simp only [JobWorld.step, stopNext]
    repeat' split
    all_goals first
      | rfl
      | exact spawnWrite_hasStore _ _
  | repair job attempts clock =>
    simp only [JobWorld.step, repair]
    split
    · split
      next failed hfailed =>
        have hworld := congrArg (fun result => result.1.hasStore) hfailed
        exact (spawnWrite_hasStore failed _).trans hworld.symm
      next => rfl
    · rfl

theorem new_filed (job : Uuid) :
    (new maxJobs maxParallelJobs maxRepairAttempts true).Filed job := by
  refine ⟨?_, ?_, ?_, ?_, ?_⟩
  · intro s h
    cases h
  · intro s h
    cases h
  · rintro status ⟨h, t, ht, -⟩
    simp [new] at ht
  · rintro ⟨call, hcall, -⟩
    cases hcall
  · intro h
    cases h

theorem reached_filed
    (h : Reached step Orderly (new maxJobs maxParallelJobs maxRepairAttempts true) w) :
    w.Staffed ∧ w.hasStore = true ∧ ∀ job, w.Filed job := by
  refine h.invariant (fun w => w.Staffed ∧ w.hasStore = true ∧ ∀ job, w.Filed job)
    ⟨new_staffed .., rfl, new_filed⟩ ?_
  rintro w act horderly ⟨hs, hstore, hf⟩
  exact ⟨hs.step horderly.1, (step_hasStore w act).trans hstore,
    fun job => (hf job).step hs hstore horderly⟩

end Runs

end JobWorld

/-- In an orderly run the database has, once a job's writes are carried out, the state in memory of
every job whose workers have ended and of every job whose state is terminal; a `stop` that has
reported success leaves the job cancelled in both. -/
theorem job_statuses_persisted {maxJobs maxParallelJobs maxRepairAttempts : Nat} {w : JobWorld}
    (hw : Reached JobWorld.step JobWorld.Orderly
      (.new maxJobs maxParallelJobs maxRepairAttempts true) w) :
    (∀ job s, w.stateOf job = some s → ¬ w.StoppingJob job →
      (∀ (h : Nat) t, w.workers[h]? = some t → t.job = job → t.phase = .finished) →
        (∀ x ∈ w.writes, x.job ≠ job) → w.db job = some s) ∧
    (∀ job s, w.stateOf job = some s → s.isTerminal = true → ¬ w.StoppingJob job →
      (∀ status, ¬ w.Persists job status) → (∀ x ∈ w.writes, x.job ≠ job) → w.db job = some s) ∧
    ∀ job ∈ w.stopped, w.stateOf job = some .cancelled ∧
      ((∀ x ∈ w.writes, x.job ≠ job) → w.db job = some .cancelled) := by
  obtain ⟨hs, -, hf⟩ := JobWorld.reached_filed hw
  have hdb {job : Uuid} (hwritten : ∀ x ∈ w.writes, x.job ≠ job) : w.settled job = w.db job :=
    WriteBehind.settled_of_nothing_pending hwritten
  have hcarried {job : Uuid} {s : JobState} (hstate : w.stateOf job = some s) (hne : s ≠ .inProgress)
      (hstop : ¬ w.StoppingJob job) (hnothing : ∀ status, ¬ w.Persists job status)
      (hwritten : ∀ x ∈ w.writes, x.job ≠ job) : w.db job = some s := by
    rw [← hdb hwritten]
    rcases (hf job).same s hstate hne with h | ⟨status, h⟩ | ⟨call, hcall, hjob, -⟩
    · exact h
    · exact absurd h (hnothing status)
    · exact absurd ⟨call, hcall, hjob⟩ hstop
  refine ⟨fun job s hstate hstop hended hwritten => ?_,
    fun job s hstate hterminal hstop hnothing hwritten => ?_, fun job hstopped => ?_⟩
  · refine hcarried hstate ?_ hstop ?_ hwritten
    · -- a job in progress still has its worker
      rintro rfl
      obtain ⟨h, t, -, ht, hjob, hlive⟩ := hs.manned job ⟨hstate, hstop⟩
      rw [hended h t ht hjob] at hlive
      cases hlive
    · rintro status ⟨h, t, ht, hjob, hphase⟩
      rw [hended h t ht hjob] at hphase
      cases hphase
  · refine hcarried hstate ?_ hstop hnothing hwritten
    rintro rfl
    cases hterminal
  · obtain ⟨hstate, hsettled⟩ := (hf job).stopped hstopped
    exact ⟨hstate, fun hwritten => (hdb hwritten).symm.trans hsettled⟩

private def stamp : Clock := ⟨0, 0⟩

private def oneJob : Uuid := .ofNat 1

private def playAct (acts : List JobAct) : JobWorld :=
  acts.foldl JobWorld.step (.new 10 5 3 true)

/-- A job is made, scheduled and completed, and its worker ends. -/
private def workDone : List JobAct :=
  [.create oneJob "user" "title" "description" 0, .schedule oneJob stamp, .worker 0 .start stamp,
    .worker 0 .complete stamp, .worker 0 .persist stamp, .worker 0 .exit stamp]

private theorem workDone_reached :
    Reached JobWorld.step JobWorld.Orderly (.new 10 5 3 true) (playAct workDone) := by
  have hnew : (JobWorld.new 10 5 3 true).stateOf oneJob = none := by decide +kernel
  have hcreated : Reached JobWorld.step JobWorld.Orderly (.new 10 5 3 true)
      (playAct (workDone.take 1)) :=
    .next (JobAct.create oneJob "user" "title" "description" 0) .start ⟨hnew, trivial⟩
  have hstarted : Reached JobWorld.step JobWorld.Orderly (.new 10 5 3 true)
      (playAct (workDone.take 3)) :=
    .next (JobAct.worker 0 .start stamp)
      (.next (JobAct.schedule oneJob stamp) hcreated ⟨trivial, trivial⟩) ⟨trivial, trivial⟩
  exact .next (JobAct.worker 0 .exit stamp)
    (.next (JobAct.worker 0 .persist stamp)
      (.next (JobAct.worker 0 .complete stamp) hstarted ⟨trivial, trivial⟩) ⟨trivial, trivial⟩)
    ⟨trivial, trivial⟩

private def written : JobWorld := ((playAct workDone).step (.write 0 true)).step (.write 0 true)

private theorem written_reached :
    Reached JobWorld.step JobWorld.Orderly (.new 10 5 3 true) written := by
  have hfirst (w : JobWorld) : w.Orderly (.write 0 true) :=
    ⟨trivial, rfl, fun _ _ m _ hm => absurd hm (Nat.not_lt_zero m)⟩
  exact .next (JobAct.write 0 true) (.next (JobAct.write 0 true) workDone_reached (hfirst _))
    (hfirst _)

/-- A job that has been completed is so in the database. -/
theorem job_statuses_persisted_completed : written.db oneJob = some .completed := by
  refine (job_statuses_persisted written_reached).1 oneJob .completed (by decide +kernel) ?_ ?_ ?_
  · rintro ⟨call, hcall, -⟩
    have hfree : written.stopping = none := by decide +kernel
    rw [hfree] at hcall
    cases hcall
  · have hworkers : written.workers = [⟨oneJob, .finished, false, false⟩] := by decide +kernel
    intro h t ht _
    rw [hworkers, List.getElem?_singleton] at ht
    split at ht
    · cases ht
      rfl
    · cases ht
  · have hwrites : written.writes = [] := by decide +kernel
    intro x hx
    rw [hwrites] at hx
    cases hx

/-- `stop` comes after the worker has completed the job and before its entry is cleaned up. -/
private def stoppedLate : JobWorld :=
  playAct (workDone ++ [.stop oneJob, .stopNext stamp, .stopNext stamp, .stopNext stamp,
    .write 0 true, .write 0 true, .write 0 true])

/-- `stop` comes after the entry of a job that has timed out is cleaned up. -/
private def stoppedUnregistered : JobWorld :=
  playAct ([.create oneJob "user" "title" "description" 0, .schedule oneJob stamp,
    .worker 0 .start stamp, .worker 0 .timeOut stamp, .worker 0 .persist stamp, .worker 0 .exit stamp,
    .poll 0, .clean 0, .stop oneJob, .write 0 true, .write 0 true])

/-- A job that is completed in memory is cancelled in the database, and a `stop` that reports success
leaves a stuck job stuck. -/
theorem stop_reports_what_is_not :
    (stoppedLate.stateOf oneJob = some .completed ∧ stoppedLate.db oneJob = some .cancelled ∧
      stoppedLate.stopped = [oneJob] ∧ stoppedLate.writes = []) ∧
    stoppedUnregistered.stateOf oneJob = some .stuck ∧
      stoppedUnregistered.db oneJob = some .stuck ∧ stoppedUnregistered.stopped = [oneJob] ∧
        stoppedUnregistered.writes = [] := by
  decide +kernel

end Gyre.Agent
