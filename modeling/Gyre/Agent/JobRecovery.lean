/- digest: Recovered jobs are never run again; scheduler and jobs agree in all other runs. -/

import Gyre.Agent.JobSchedule

set_option autoImplicit false
set_option relaxedAutoImplicit false

namespace Gyre.Agent

open Gyre.Llm Gyre.Context Gyre.Lib

namespace JobWorld

/-- A new job's identifier is new. -/
def Fresh (w : JobWorld) : JobAct → Prop
  | .create job .. => w.stateOf job = none
  | _ => True

theorem Allowed.fresh {w : JobWorld} {act : JobAct} (h : Allowed w act) : Fresh w act := by
  cases act with
  | create => exact h
  | schedule | worker | poll | clean | cleanupFinished | stop | stopNext | repair | write => trivial

/-- What any step does to the jobs' states and to the workers that are still to do something. -/
structure Moved (w w' : JobWorld) : Prop where
  states : ∀ job, w'.stateOf job = w.stateOf job ∨ w.stateOf job = none ∨
    ∃ s s', w.stateOf job = some s ∧ w'.stateOf job = some s' ∧ s.canTransitionTo s' = true ∧
      (s' = .stuck → ∃ (h : Nat) (t : WorkerTask), w.workers[h]? = some t ∧ t.job = job ∧
        t.phase.isLive = true ∧ ∀ t', w'.workers[h]? = some t' → t'.phase.isLive = false)
  lives : ∀ (h : Nat) t', w'.workers[h]? = some t' → t'.phase.isLive = true →
    (∃ t, w.workers[h]? = some t ∧ t.job = t'.job ∧ t.phase.isLive = true) ∨
      h = w.workers.length ∧ w'.stateOf t'.job = some .inProgress ∧
        ∃ s, w.stateOf t'.job = some s ∧ s.canTransitionTo .inProgress = true

/-- A worker that has something to do is the only one of its job, which cannot be started. -/
structure Working (w : JobWorld) : Prop where
  started : ∀ (h : Nat) t, w.workers[h]? = some t → t.phase.isLive = true →
    ∃ s, w.stateOf t.job = some s ∧ s.canTransitionTo .inProgress = false
  alone : ∀ (h h' : Nat) t t', w.workers[h]? = some t → w.workers[h']? = some t' →
    t.job = t'.job → t.phase.isLive = true → t'.phase.isLive = true → h = h'

/-- Nobody runs the job, and nobody can start it. -/
structure Abandoned (w : JobWorld) (job : Uuid) : Prop where
  closed : ∃ s, w.stateOf job = some s ∧ s.canTransitionTo .inProgress = false
  idle : ∀ (h : Nat) t, w.workers[h]? = some t → t.job = job → t.phase.isLive = false

theorem stuck_of_startable {s s' : JobState} (h : s.canTransitionTo s' = true)
    (hs' : s'.canTransitionTo .inProgress = true) : s' = .stuck := by
  cases s' <;> first | rfl | (cases hs'; done) | (cases s <;> cases h)

section Moves

variable {w w' : JobWorld} {job : Uuid} {handle : Nat} {t : WorkerTask} {clock : Clock}

theorem Working.moved (hw : w.Working) (h : w.Moved w') : w'.Working := by
  constructor
  · intro k t' ht' hlive
    rcases h.lives k t' ht' hlive with ⟨t, ht, hjob, hlive₀⟩ | ⟨-, hstate, -⟩
    · obtain ⟨s₀, hs₀, hclosed⟩ := hw.started k t ht hlive₀
      rw [hjob] at hs₀
      rcases h.states t'.job with hsame | hnone | ⟨s, s', hs, hs', hallowed, hstuck⟩
      · exact ⟨s₀, hsame.trans hs₀, hclosed⟩
      · rw [hnone] at hs₀
        cases hs₀
      · refine ⟨s', hs', ?_⟩
        by_contra hstartable
        rw [Bool.not_eq_false] at hstartable
        obtain ⟨k₁, t₁, ht₁, hjob₁, hlive₁, hgone⟩ := hstuck (stuck_of_startable hallowed hstartable)
        have hk := hw.alone k k₁ t t₁ ht ht₁ (by rw [hjob, hjob₁]) hlive₀ hlive₁
        subst hk
        rw [hgone t' ht'] at hlive
        cases hlive
    · exact ⟨.inProgress, hstate, rfl⟩
  · intro k k' t₁ t₂ ht₁ ht₂ hjob hlive₁ hlive₂
    have hnew {a : Nat} {t : WorkerTask} {job : Uuid} (ht : w.workers[a]? = some t)
        (hsame : t.job = job) (hlive : t.phase.isLive = true)
        (hs : ∃ s, w.stateOf job = some s ∧ s.canTransitionTo .inProgress = true) : False := by
      obtain ⟨s₀, hs₀, hclosed⟩ := hw.started a t ht hlive
      obtain ⟨s, hs, hstartable⟩ := hs
      rw [hsame, hs, Option.some.injEq] at hs₀
      subst hs₀
      rw [hclosed] at hstartable
      cases hstartable
    rcases h.lives k t₁ ht₁ hlive₁ with ⟨u₁, hu₁, hjob₁, hold₁⟩ | ⟨hk, -, hstart₁⟩
    · rcases h.lives k' t₂ ht₂ hlive₂ with ⟨u₂, hu₂, hjob₂, hold₂⟩ | ⟨-, -, hstart₂⟩
      · exact hw.alone k k' u₁ u₂ hu₁ hu₂ (by rw [hjob₁, hjob, hjob₂]) hold₁ hold₂
      · exact (hnew hu₁ (hjob₁.trans hjob) hold₁ hstart₂).elim
    · rcases h.lives k' t₂ ht₂ hlive₂ with ⟨u₂, hu₂, hjob₂, hold₂⟩ | ⟨hk', -, -⟩
      · exact (hnew hu₂ (hjob₂.trans hjob.symm) hold₂ hstart₁).elim
      · rw [hk, hk']

theorem Abandoned.moved (ha : w.Abandoned job) (h : w.Moved w') : w'.Abandoned job := by
  obtain ⟨s₀, hs₀, hclosed⟩ := ha.closed
  constructor
  · rcases h.states job with hsame | hnone | ⟨s, s', hs, hs', hallowed, hstuck⟩
    · exact ⟨s₀, hsame.trans hs₀, hclosed⟩
    · rw [hnone] at hs₀
      cases hs₀
    · refine ⟨s', hs', ?_⟩
      by_contra hstartable
      rw [Bool.not_eq_false] at hstartable
      obtain ⟨k, t, ht, hjob, hlive, -⟩ := hstuck (stuck_of_startable hallowed hstartable)
      rw [ha.idle k t ht hjob] at hlive
      cases hlive
  · intro k t' ht' hjob
    by_contra hlive
    rw [Bool.not_eq_false] at hlive
    rcases h.lives k t' ht' hlive with ⟨t, ht, hsame, hlive₀⟩ | ⟨-, -, s, hs, hstartable⟩
    · rw [ha.idle k t ht (hsame.trans hjob)] at hlive₀
      cases hlive₀
    · rw [hjob, hs₀, Option.some.injEq] at hs
      subst hs
      rw [hclosed] at hstartable
      cases hstartable

/-- A stuck job has no worker that could still do something. -/
theorem Working.idle_of_stuck (hw : w.Working) (hstuck : w.stateOf job = some .stuck) (k : Nat)
    (t : WorkerTask) (ht : w.workers[k]? = some t) (hjob : t.job = job) :
    t.phase.isLive = false := by
  by_contra hlive
  rw [Bool.not_eq_false] at hlive
  obtain ⟨s, hs, hclosed⟩ := hw.started k t ht hlive
  rw [hjob, hstuck, Option.some.injEq] at hs
  subst hs
  cases hclosed

/-- No state changes, and no worker gets anything to do. -/
theorem Moved.of_same (hstate : ∀ job, w'.stateOf job = w.stateOf job)
    (hworkers : ∀ (h : Nat) t', w'.workers[h]? = some t' → t'.phase.isLive = true →
      ∃ t, w.workers[h]? = some t ∧ t.job = t'.job ∧ t.phase.isLive = true) : w.Moved w' :=
  ⟨fun job => .inl (hstate job), fun h t' ht' hlive => .inl (hworkers h t' ht' hlive)⟩

theorem Moved.refl (w : JobWorld) : w.Moved w :=
  .of_same (fun _ => rfl) fun _ t ht hlive => ⟨t, ht, rfl, hlive⟩

/-- What is behind a step does not show in the states and workers. -/
theorem Moved.congr {w'' : JobWorld} (h : w.Moved w') (hstate : ∀ job, w''.stateOf job = w'.stateOf job)
    (hworkers : w''.workers = w'.workers) : w.Moved w'' := by
  constructor
  · simpa only [hstate, hworkers] using h.states
  · simpa only [hstate, hworkers] using h.lives

theorem update_states (w : JobWorld) (job : Uuid) (call : LifeCall) (clock : Clock) (other : Uuid) :
    (w.update job call clock).1.stateOf other = w.stateOf other ∨
      ∃ s, w.stateOf other = some s ∧
        (w.update job call clock).1.stateOf other = some call.target ∧
          s.canTransitionTo call.target = true ∧ other = job := by
  rw [stateOf_update]
  split
  next hsame =>
    obtain ⟨rfl, hok⟩ := hsame
    obtain ⟨s, hs, hallowed⟩ := update_allowed hok
    exact .inr ⟨s, hs, rfl, hallowed, rfl⟩
  next => exact .inl rfl

/-- An update that does not make the job stuck. -/
theorem moved_update {call : LifeCall} (hcall : call.target ≠ .stuck) :
    w.Moved (w.update job call clock).1 := by
  refine ⟨fun other => ?_, fun _ t ht hlive => .inl ⟨t, ht, rfl, hlive⟩⟩
  rcases update_states w job call clock other with hsame | ⟨s, hs, hs', hallowed, -⟩
  · exact .inl hsame
  · exact .inr (.inr ⟨s, call.target, hs, hs', hallowed, fun h => absurd h hcall⟩)

private theorem goTo_lives (ht : w.workers[handle]? = some t) {phase : TaskPhase}
    (hphase : phase.isLive = true → t.phase.isLive = true) (k : Nat) (t' : WorkerTask)
    (ht' : (w.goTo handle phase).workers[k]? = some t') (hlive : t'.phase.isLive = true) :
    ∃ t, w.workers[k]? = some t ∧ t.job = t'.job ∧ t.phase.isLive = true := by
  rw [goTo_getElem?] at ht'
  split at ht'
  next hk =>
    subst hk
    rw [ht, Option.map_some, Option.some.injEq] at ht'
    subst ht'
    exact ⟨t, ht, rfl, hphase hlive⟩
  next => exact ⟨t', ht', rfl, hlive⟩

theorem moved_goTo (ht : w.workers[handle]? = some t) {phase : TaskPhase}
    (hphase : phase.isLive = true → t.phase.isLive = true) : w.Moved (w.goTo handle phase) :=
  .of_same (fun _ => rfl) (goTo_lives ht hphase)

/-- A worker that is at work sets its job's status, or goes on. -/
theorem moved_mark (ht : w.workers[handle]? = some t) (hlive : t.phase.isLive = true)
    (call : LifeCall) (refused : TaskPhase) :
    w.Moved (w.mark handle t.job call clock refused) := by
  cases hok : (w.update t.job call clock).2 with
  | true =>
    rw [mark_of_accepted hok]
    have hworkers : ((w.update t.job call clock).1.goTo handle (.persisting call.target)).workers =
        (w.goTo handle (.persisting call.target)).workers := rfl
    refine ⟨fun other => ?_, ?_⟩
    · rcases update_states w t.job call clock other with hsame | ⟨s, hs, hs', hallowed, hjob⟩
      · exact .inl hsame
      · refine .inr (.inr ⟨s, call.target, hs, hs', hallowed, fun _ => ?_⟩)
        refine ⟨handle, t, ht, hjob.symm, hlive, fun t' ht' => ?_⟩
        rw [hworkers, goTo_getElem?, if_pos rfl, ht] at ht'
        cases ht'
        rfl
    · rw [hworkers]
      exact fun k t' ht' hlive' => .inl (goTo_lives ht (fun _ => hlive) k t' ht' hlive')
  | false =>
    rw [mark_of_refused hok]
    exact moved_goTo ht fun _ => hlive

theorem moved_runWorker (ht : w.workers[handle]? = some t) (step : WorkerStep) :
    w.Moved (w.runWorker handle t clock step) := by
  have idle {phase : TaskPhase} (h : false = true) : phase.isLive = true := by cases h
  cases step with
  | start =>
    simp only [runWorker]
    split
    next hphase =>
      split
      next => exact moved_goTo ht fun _ => by rw [hphase]; rfl
      next => exact moved_goTo ht idle
    next => exact .refl w
  | complete =>
    simp only [runWorker]
    split
    next hphase => exact moved_mark ht (by rw [hphase]; rfl) completed .failing
    next => exact .refl w
  | stick reason =>
    simp only [runWorker]
    split
    next hphase => exact moved_mark ht (by rw [hphase]; rfl) (.markStuck reason) .failing
    next => exact .refl w
  | fail =>
    simp only [runWorker]
    split
    next hphase => exact moved_goTo ht fun _ => by rw [hphase]; rfl
    next => exact .refl w
  | markFailed reason =>
    simp only [runWorker]
    split
    next hphase =>
      exact moved_mark ht (by rw [hphase]; rfl) (.transitionTo .failed (some reason)) .ending
    next => exact .refl w
  | timeOut =>
    simp only [runWorker]
    split
    next hphase => exact moved_mark ht (by rw [hphase]; rfl) (.markStuck "Execution timeout") .ending
    next => exact .refl w
  | leave =>
    simp only [runWorker]
    split
    next => exact moved_goTo ht idle
    next => exact .refl w
  | persist =>
    simp only [runWorker]
    split
    next status hphase =>
      obtain ⟨writes, heq⟩ := spawnWrite_eq w (.update t.job status)
      rw [heq]
      have hended : w.Moved (w.goTo handle .ending) := moved_goTo ht idle
      exact hended.congr (fun _ => rfl) rfl
    next => exact .refl w
  | exit =>
    simp only [runWorker]
    split
    next => exact moved_goTo ht idle
    next => exact .refl w
  | panic =>
    simp only [runWorker]
    split
    next => exact .refl w
    next => exact moved_goTo ht idle
  | die =>
    simp only [runWorker]
    split
    next => exact moved_goTo ht idle
    next => exact .refl w

/-- A new job is nobody's work. -/
theorem moved_create (hnew : w.stateOf job = none) (userId title description : String) (now : Int) :
    w.Moved (w.create job userId title description now) := by
  unfold JobWorld.create
  split
  next contexts created hcreated =>
    have hid := created_eq hcreated
    subst hid
    have hstate := stateOf_create_of_created hcreated
    obtain ⟨writes, heq⟩ := spawnWrite_eq { w with contexts := contexts.insertMemory created }
      (.save created .pending)
    rw [heq]
    refine ⟨fun other => ?_, fun _ t ht hlive => .inl ⟨t, ht, rfl, hlive⟩⟩
    by_cases hother : other = created
    · subst hother
      exact .inr (.inl hnew)
    · exact .inl ((hstate other).trans (if_neg hother))
  next => exact .refl w

theorem moved_schedule (job : Uuid) (clock : Clock) : w.Moved (w.schedule job clock) := by
  unfold JobWorld.schedule
  split
  next => exact .refl w
  next =>
    split
    next => exact .refl w
    next =>
      split
      next => exact .refl w
      next started hstarted =>
        have hworld : started = (w.update job
          (.transitionTo .inProgress (some "Scheduled for execution")) clock).1 := by rw [hstarted]
        have hok : (w.update job
          (.transitionTo .inProgress (some "Scheduled for execution")) clock).2 = true := by
            rw [hstarted]
        subst hworld
        refine ⟨fun other => ?_, fun k t ht hlive => ?_⟩
        · rcases update_states w job (.transitionTo .inProgress (some "Scheduled for execution"))
            clock other with hsame | ⟨s, hs, hs', hallowed, -⟩
          · exact .inl hsame
          · exact .inr (.inr ⟨s, .inProgress, hs, hs', hallowed, nofun⟩)
        · have hlist : (w.workers ++ [⟨job, .waiting, false, false⟩])[k]? = some t := ht
          rw [List.getElem?_append] at hlist
          split at hlist
          · exact .inl ⟨t, hlist, rfl, hlive⟩
          next hlength =>
            rw [List.getElem?_singleton] at hlist
            split at hlist
            next hzero =>
              cases hlist
              refine .inr ⟨by omega, ?_, update_allowed hok⟩
              exact (stateOf_update w job job _ clock).trans (if_pos ⟨rfl, hok⟩)
            next => cases hlist

/-- Workers that are told something do not get anything more to do. -/
private theorem moved_flag {f : WorkerTask → WorkerTask}
    (hf : ∀ t, (f t).job = t.job ∧ (f t).phase = t.phase)
    (hstate : ∀ job, w'.stateOf job = w.stateOf job)
    (hworkers : w'.workers = w.workers.modify handle f) : w.Moved w' := by
  refine .of_same hstate fun k t' ht' hlive => ?_
  rw [hworkers] at ht'
  obtain ⟨t, ht, hjob, hphase, -⟩ := flag_getElem? hf ht'
  exact ⟨t, ht, hjob.symm, by rwa [← hphase]⟩

theorem moved_stopNext (call : StopCall) (clock : Clock) : w.Moved (w.stopNext call clock) := by
  unfold JobWorld.stopNext
  split
  next => exact moved_flag abort_keeps (fun _ => rfl) rfl
  next =>
    split
    next =>
      have hupdated : w.Moved (w.update call.job
        (.transitionTo .cancelled (some "Stopped by scheduler")) clock).1 := moved_update nofun
      exact hupdated.congr (fun _ => rfl) rfl
    next => exact (Moved.refl w).congr (fun _ => rfl) rfl
  next =>
    obtain ⟨writes, heq⟩ := spawnWrite_eq w (.update call.job .cancelled)
    rw [heq]
    exact (Moved.refl w).congr (fun _ => rfl) rfl

theorem moved_repair (job : Uuid) (attempts : Nat) (clock : Clock) :
    w.Moved (w.repair job attempts clock) := by
  unfold JobWorld.repair
  split
  next =>
    dsimp only
    split
    next failed hfailed =>
      have hupdated : w.Moved (w.update job (.transitionTo .failed
        (some s!"exceeded maximum repair attempts ({w.maxRepairAttempts})")) clock).1 :=
          moved_update nofun
      rw [hfailed] at hupdated
      obtain ⟨writes, heq⟩ := spawnWrite_eq failed (.update job .failed)
      rw [heq]
      exact hupdated.congr (fun _ => rfl) rfl
    next => exact .refl w
  next => exact moved_update nofun

theorem moved_step {act : JobAct} (hfresh : Fresh w act) : w.Moved (w.step act) := by
  cases act with
  | create job userId title description now =>
    exact moved_create hfresh userId title description now
  | schedule job clock =>
    simp only [JobWorld.step]
    split
    next => exact moved_schedule job clock
    next => exact .refl w
  | worker handle next clock =>
    simp only [JobWorld.step]
    split
    next t ht =>
      split
      next => exact .refl w
      next => exact moved_runWorker ht next
    next => exact .refl w
  | poll i =>
    simp only [JobWorld.step]
    split
    next =>
      split
      next => exact (Moved.refl w).congr (fun _ => rfl) rfl
      next => exact .refl w
    next => exact .refl w
  | clean i =>
    simp only [JobWorld.step]
    split
    next =>
      split
      next => exact (Moved.refl w).congr (fun _ => rfl) rfl
      next => exact .refl w
    next => exact .refl w
  | cleanupFinished =>
    simp only [JobWorld.step]
    split
    next => exact (Moved.refl w).congr (fun _ => rfl) rfl
    next => exact .refl w
  | stop job =>
    simp only [JobWorld.step]
    split
    next =>
      unfold JobWorld.stop
      split
      next => exact (Moved.refl w).congr (fun _ => rfl) rfl
      next =>
        refine moved_flag ?_ (fun _ => rfl) rfl
        exact fun _ => ⟨rfl, rfl⟩
    next => exact .refl w
  | stopNext clock =>
    simp only [JobWorld.step]
    split
    next call _ => exact moved_stopNext call clock
    next => exact .refl w
  | repair job attempts clock => exact moved_repair job attempts clock
  | write n succeeds =>
    simp only [JobWorld.step]
    split
    next => exact (Moved.refl w).congr (fun _ => rfl) rfl
    next => exact .refl w

end Moves

section Runs

variable {w w' : JobWorld} {maxJobs maxParallelJobs maxRepairAttempts : Nat} {hasStore : Bool}

theorem reached_staffed
    (h : Reached step Allowed (new maxJobs maxParallelJobs maxRepairAttempts hasStore) w) :
    w.Staffed :=
  h.invariant Staffed (new_staffed maxJobs maxParallelJobs maxRepairAttempts hasStore)
    fun _ _ hallowed hs => hs.step hallowed

theorem reached_working
    (h : Reached step Fresh (new maxJobs maxParallelJobs maxRepairAttempts hasStore) w) :
    w.Working := by
  refine h.invariant Working ⟨?_, ?_⟩ fun _ _ hfresh hw => hw.moved (moved_step hfresh)
  · intro k t ht
    simp [new] at ht
  · intro k k' t t' ht
    simp [new] at ht

theorem reached_abandoned {job : Uuid} (ha : w.Abandoned job) (h : Reached step Fresh w w') :
    w'.Abandoned job :=
  h.invariant (Abandoned · job) ha fun _ _ hfresh ha => ha.moved (moved_step hfresh)

/-- Self-repair leaves a stuck job to nobody. -/
theorem Working.abandoned_of_repair (hw : w.Working) {job : Uuid} {attempts : Nat}
    (hstuck : w.stateOf job = some .stuck) (hattempts : attempts < w.maxRepairAttempts)
    (clock : Clock) :
    (w.repair job attempts clock).stateOf job = some .inProgress ∧
      (w.repair job attempts clock).Abandoned job := by
  have hstate : (w.repair job attempts clock).stateOf job = some .inProgress := by
    unfold JobWorld.repair
    rw [if_neg (by omega), stateOf_update, if_pos ⟨rfl, update_recovery_iff.mpr hstuck⟩]
    rfl
  have hworkers : (w.repair job attempts clock).workers = w.workers := by
    unfold JobWorld.repair
    rw [if_neg (by omega), update_workers]
  refine ⟨hstate, ⟨.inProgress, hstate, rfl⟩, ?_⟩
  rw [hworkers]
  exact hw.idle_of_stuck hstuck

end Runs

end JobWorld

section Results

variable (maxJobs maxParallelJobs maxRepairAttempts : Nat) (hasStore : Bool)

/-- In runs without panics at work, late cleanups and recoveries, every job in progress has its
worker and no job has two. In all runs, a recovered job is in progress with nobody to run it, at once
and for ever. -/
theorem scheduler_and_jobs_agree :
    (∀ w, Reached JobWorld.step JobWorld.Allowed
        (.new maxJobs maxParallelJobs maxRepairAttempts hasStore) w →
      (∀ job, w.InProgress job → ∃ (h : Nat) (t : WorkerTask), w.jobs.lookup job = some h ∧
        w.workers[h]? = some t ∧ t.job = job ∧ t.phase.isLive = true) ∧
      ∀ (h h' : Nat) t t', w.workers[h]? = some t → w.workers[h']? = some t' → t.job = t'.job →
        t.phase ≠ .finished → t'.phase ≠ .finished → h = h') ∧
    ∀ w (job : Uuid) (attempts : Nat) (clock : Clock), Reached JobWorld.step JobWorld.Fresh
        (.new maxJobs maxParallelJobs maxRepairAttempts hasStore) w →
      w.stateOf job = some .stuck → attempts < w.maxRepairAttempts →
        (w.step (.repair job attempts clock)).stateOf job = some .inProgress ∧
          ∀ w', Reached JobWorld.step JobWorld.Fresh (w.step (.repair job attempts clock)) w' →
            ∀ (h : Nat) t, w'.workers[h]? = some t → t.job = job → t.phase.isLive = false := by
  refine ⟨fun w hw => ?_, fun w job attempts clock hw hstuck hattempts => ?_⟩
  · have hs := JobWorld.reached_staffed hw
    exact ⟨hs.manned, hs.unique⟩
  · obtain ⟨hstate, habandoned⟩ :=
      (JobWorld.reached_working hw).abandoned_of_repair hstuck hattempts clock
    exact ⟨hstate, fun w' hw' => (JobWorld.reached_abandoned habandoned hw').idle⟩

end Results

private def tick : Clock := ⟨0, 0⟩

private def jobId : Uuid := .ofNat 1

/-- A job is made and scheduled, and its worker is at work. -/
private def atWork : List JobAct :=
  [.create jobId "user" "title" "description" 0, .schedule jobId tick, .worker 0 .start tick]

private def playJobs (acts : List JobAct) : JobWorld :=
  acts.foldl JobWorld.step (.new 10 5 3 true)

private theorem atWork_reached :
    Reached JobWorld.step JobWorld.Allowed (.new 10 5 3 true) (playJobs atWork) := by
  have hnew : (JobWorld.new 10 5 3 true).stateOf jobId = none := by decide +kernel
  have hcreated : Reached JobWorld.step JobWorld.Allowed (.new 10 5 3 true)
      (playJobs (atWork.take 1)) :=
    .next (JobAct.create jobId "user" "title" "description" 0) .start hnew
  exact .next (JobAct.worker 0 .start tick)
    (.next (JobAct.schedule jobId tick) hcreated trivial) trivial

/-- The worker times out. -/
private def timedOut : List JobAct := atWork ++ [.worker 0 .timeOut tick]

private theorem timedOut_reached :
    Reached JobWorld.step JobWorld.Fresh (.new 10 5 3 true) (playJobs timedOut) :=
  .next (JobAct.worker 0 .timeOut tick) (atWork_reached.mono fun _ _ h => h.fresh) trivial

/-- The job at work has its worker; the one that has timed out and is recovered does not get one. -/
theorem scheduler_and_jobs_agree_one_job :
    (∃ (h : Nat) (t : WorkerTask), (playJobs atWork).jobs.lookup jobId = some h ∧
      (playJobs atWork).workers[h]? = some t ∧ t.job = jobId ∧ t.phase.isLive = true) ∧
    ((playJobs timedOut).step (.repair jobId 0 tick)).stateOf jobId = some .inProgress := by
  refine ⟨?_, ?_⟩
  · refine ((scheduler_and_jobs_agree 10 5 3 true).1 _ atWork_reached).1 jobId ⟨by decide +kernel, ?_⟩
    rintro ⟨call, hcall, -⟩
    have hfree : (playJobs atWork).stopping = none := by decide +kernel
    rw [hfree] at hcall
    cases hcall
  · exact ((scheduler_and_jobs_agree 10 5 3 true).2 _ jobId 0 tick timedOut_reached
      (by decide +kernel) (by decide +kernel)).1

/-- The worker times out, ends, and self-repair recovers the job. -/
private def recovered : JobWorld :=
  playJobs (atWork ++ [.worker 0 .timeOut tick, .worker 0 .persist tick, .worker 0 .exit tick,
    .poll 0, .clean 0, .repair jobId 0 tick, .schedule jobId tick])

/-- The worker panics at work. -/
private def panicked : JobWorld :=
  playJobs (atWork ++ [.worker 0 .panic tick, .poll 0, .clean 0, .schedule jobId tick])

/-- A recovered job and the job of a worker that has panicked are in progress without a worker, and
cannot be scheduled. -/
theorem recovered_job_is_left :
    recovered.stateOf jobId = some .inProgress ∧ recovered.stopping = none ∧
      recovered.jobs.lookup jobId = none ∧ recovered.workers.map (·.phase) = [.finished] ∧
    panicked.stateOf jobId = some .inProgress ∧ panicked.stopping = none ∧
      panicked.jobs.lookup jobId = none ∧ panicked.workers.map (·.phase) = [.finished] := by
  decide +kernel

end Gyre.Agent
