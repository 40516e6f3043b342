/- digest: Jobs in progress and the workers that run them, over every interleaving. -/

import Gyre.Agent.JobWorld
import Gyre.Lib.Reach
import Gyre.Lib.Tables

set_option autoImplicit false
set_option relaxedAutoImplicit false

namespace Gyre.Agent

open Gyre.Llm Gyre.Context Gyre.Lib

/-- Nothing but the worker stands between the job and its end. -/
def TaskPhase.isLive : TaskPhase → Bool
  | waiting | working | failing => true
  | _ => false

theorem isUnfinished_of_transition {s target : JobState}
    (h : s.canTransitionTo target = true) (hs : s.isUnfinished = false) :
    target.isUnfinished = false := by
  cases s with
  | pending | inProgress | stuck => cases hs
  | completed | submitted | accepted | failed | cancelled =>
    cases target <;> first | rfl | cases h

namespace JobWorld

/-- The job's state is known and leaves nothing to be done. -/
def Over (w : JobWorld) (job : Uuid) : Prop :=
  ∃ s, w.stateOf job = some s ∧ s.isUnfinished = false

/-- A `stop` of the job holds the scheduler's map. -/
def StoppingJob (w : JobWorld) (job : Uuid) : Prop :=
  ∃ call, w.stopping = some call ∧ call.job = job

/-- The job is in progress with nobody about to stop it. -/
def InProgress (w : JobWorld) (job : Uuid) : Prop :=
  w.stateOf job = some .inProgress ∧ ¬ w.StoppingJob job

/-- What holds in every state reached by steps that go right. -/
structure Staffed (w : JobWorld) : Prop where
  known : ∀ (h : Nat) t, w.workers[h]? = some t → (w.stateOf t.job).isSome = true
  entry : ∀ job (h : Nat), w.jobs.lookup job = some h → ∃ t, w.workers[h]? = some t ∧ t.job = job
  stopper : ∀ call, w.stopping = some call → w.jobs.lookup call.job = none ∧
    (∃ t, w.workers[call.worker]? = some t ∧ t.job = call.job) ∧
      (call.phase = .persisting → w.Over call.job)
  manned : ∀ job, w.InProgress job → ∃ (h : Nat) (t : WorkerTask), w.jobs.lookup job = some h ∧
    w.workers[h]? = some t ∧ t.job = job ∧ t.phase.isLive = true
  placed : ∀ (h : Nat) t, w.workers[h]? = some t → t.phase ≠ .finished →
    w.jobs.lookup t.job = some h ∨ (∃ call, w.stopping = some call ∧ call.worker = h) ∨ w.Over t.job
  flagged : ∀ (h : Nat) t, w.workers[h]? = some t → t.told = true ∨ t.aborted = true →
    w.StoppingJob t.job ∨ w.Over t.job
  unique : ∀ (h h' : Nat) t t', w.workers[h]? = some t → w.workers[h']? = some t' → t.job = t'.job →
    t.phase ≠ .finished → t'.phase ≠ .finished → h = h'

section Frames

variable {w w' : JobWorld} {job : Uuid} {handle : Nat} {t : WorkerTask}

theorem new_staffed (maxJobs maxParallelJobs maxRepairAttempts : Nat) (hasStore : Bool) :
    (new maxJobs maxParallelJobs maxRepairAttempts hasStore).Staffed := by
  refine ⟨?_, ?_, ?_, ?_, ?_, ?_, ?_⟩
  · intro h t ht
    simp [new] at ht
  · intro job h hentry
    simp [new] at hentry
  · intro call hcall
    cases hcall
  · intro job h
    cases h.1
  · intro h t ht
    simp [new] at ht
  · intro h t ht
    simp [new] at ht
  · intro h h' t t' ht
    simp [new] at ht

theorem Over.not_inProgress (h : w.Over job) : w.stateOf job ≠ some .inProgress := by
  obtain ⟨s, hs, hover⟩ := h
  rw [hs]
  rintro ⟨⟩
  cases hover

/-- The steps that touch neither a state nor the scheduler. -/
theorem Staffed.congr (hs : w.Staffed) (hstate : ∀ job, w'.stateOf job = w.stateOf job)
    (hjobs : w'.jobs = w.jobs) (hworkers : w'.workers = w.workers)
    (hstopping : w'.stopping = w.stopping) : w'.Staffed := by
  have hover (job : Uuid) : w'.Over job ↔ w.Over job := by
    unfold Over
    rw [hstate]
  have hstop (job : Uuid) : w'.StoppingJob job ↔ w.StoppingJob job := by
    unfold StoppingJob
    rw [hstopping]
  have hprogress (job : Uuid) : w'.InProgress job ↔ w.InProgress job := by
    unfold InProgress
    rw [hstate, hstop]
  constructor
  · simpa only [hworkers, hstate] using hs.known
  · simpa only [hworkers, hjobs] using hs.entry
  · simpa only [hworkers, hjobs, hstopping, hover] using hs.stopper
  · simpa only [hworkers, hjobs, hprogress] using hs.manned
  · simpa only [hworkers, hjobs, hstopping, hover] using hs.placed
  · simpa only [hworkers, hstop, hover] using hs.flagged
  · simpa only [hworkers] using hs.unique

theorem over_update {call : LifeCall} {clock : Clock} {other : Uuid} (h : w.Over other) :
    (w.update job call clock).1.Over other := by
  obtain ⟨s, hs, hover⟩ := h
  unfold Over
  rw [stateOf_update]
  split
  next hsame =>
    obtain ⟨rfl, hok⟩ := hsame
    obtain ⟨s', hs', hallowed⟩ := update_allowed hok
    rw [hs, Option.some.injEq] at hs'
    subst hs'
    exact ⟨call.target, rfl, isUnfinished_of_transition hallowed hover⟩
  next => exact ⟨s, hs, hover⟩

/-- An update that does not start the job. -/
theorem Staffed.update (hs : w.Staffed) {call : LifeCall} (clock : Clock)
    (hcall : (w.update job call clock).2 = true → call.target ≠ .inProgress) :
    (w.update job call clock).1.Staffed := by
  refine ⟨?_, hs.entry, ?_, ?_, ?_, ?_, hs.unique⟩
  · intro h t ht
    rw [stateOf_update]
    split
    · rfl
    · exact hs.known h t ht
  · intro stop hstop
    obtain ⟨hentry, hworker, hover⟩ := hs.stopper stop hstop
    exact ⟨hentry, hworker, fun hphase => over_update (hover hphase)⟩
  · rintro other ⟨hstate, hstop⟩
    rw [stateOf_update] at hstate
    split at hstate
    next hsame => exact absurd (Option.some.inj hstate) (hcall hsame.2)
    next => exact hs.manned other ⟨hstate, hstop⟩
  · intro h t ht hphase
    rcases hs.placed h t ht hphase with hplaced | hplaced | hplaced
    · exact .inl hplaced
    · exact .inr (.inl hplaced)
    · exact .inr (.inr (over_update hplaced))
  · intro h t ht hflag
    rcases hs.flagged h t ht hflag with hflagged | hflagged
    · exact .inl hflagged
    · exact .inr (over_update hflagged)

theorem goTo_getElem? (w : JobWorld) (handle : Nat) (phase : TaskPhase) (k : Nat) :
    (w.goTo handle phase).workers[k]? =
      if k = handle then w.workers[k]?.map fun t => { t with phase := phase }
      else w.workers[k]? := by
  unfold JobWorld.goTo
  by_cases h : k = handle
  · subst h
    simp
  · simp [List.getElem?_modify_ne _ _ (Ne.symm h), h]

/-- A worker goes on; when it is done with the job, the job is no longer in progress. -/
theorem Staffed.goTo (hs : w.Staffed) (ht : w.workers[handle]? = some t)
    (hunfinished : t.phase ≠ .finished) {phase : TaskPhase}
    (hdone : phase.isLive = false → ¬ w.InProgress t.job) : (w.goTo handle phase).Staffed := by
  have hworkers : ∀ (k : Nat) t', (w.goTo handle phase).workers[k]? = some t' →
      (k = handle ∧ t' = { t with phase := phase }) ∨ (k ≠ handle ∧ w.workers[k]? = some t') := by
    intro k t' h
    rw [goTo_getElem?] at h
    split at h
    next hk =>
      subst hk
      rw [ht, Option.map_some, Option.some.injEq] at h
      exact .inl ⟨rfl, h.symm⟩
    next hk => exact .inr ⟨hk, h⟩
  have hmoved : (w.goTo handle phase).workers[handle]? = some { t with phase := phase } := by
    rw [goTo_getElem?, if_pos rfl, ht]
    rfl
  have hkept : ∀ (k : Nat) t', w.workers[k]? = some t' →
      ∃ t'', (w.goTo handle phase).workers[k]? = some t'' ∧ t''.job = t'.job := by
    intro k t' h
    rw [goTo_getElem?, h]
    split
    · exact ⟨_, rfl, rfl⟩
    · exact ⟨_, rfl, rfl⟩
  refine ⟨?_, ?_, ?_, ?_, ?_, ?_, ?_⟩
  · intro k t' h
    rcases hworkers k t' h with ⟨rfl, rfl⟩ | ⟨-, h⟩
    · exact hs.known k t ht
    · exact hs.known k t' h
  · intro job k hentry
    obtain ⟨t', ht', hjob⟩ := hs.entry job k hentry
    obtain ⟨t'', ht'', hsame⟩ := hkept k t' ht'
    exact ⟨t'', ht'', hsame.trans hjob⟩
  · intro call hcall
    obtain ⟨hentry, ⟨t', ht', hjob⟩, hover⟩ := hs.stopper call hcall
    obtain ⟨t'', ht'', hsame⟩ := hkept _ t' ht'
    exact ⟨hentry, ⟨t'', ht'', hsame.trans hjob⟩, hover⟩
  · intro job hprogress
    obtain ⟨k, t', hentry, ht', hjob, hlive⟩ := hs.manned job hprogress
    by_cases hk : k = handle
    · subst hk
      rw [ht, Option.some.injEq] at ht'
      subst ht'
      cases hphase : phase.isLive with
      | true => exact ⟨k, _, hentry, hmoved, hjob, hphase⟩
      | false => exact absurd (hjob ▸ hprogress) (hdone hphase)
    · exact ⟨k, t', hentry, by rw [goTo_getElem?, if_neg hk]; exact ht', hjob, hlive⟩
  · intro k t' h hphase
    rcases hworkers k t' h with ⟨rfl, rfl⟩ | ⟨-, h⟩
    · exact hs.placed k t ht hunfinished
    · exact hs.placed k t' h hphase
  · intro k t' h hflag
    rcases hworkers k t' h with ⟨rfl, rfl⟩ | ⟨-, h⟩
    · exact hs.flagged k t ht hflag
    · exact hs.flagged k t' h hflag
  · intro k k' t₁ t₂ h₁ h₂ hjob hphase₁ hphase₂
    rcases hworkers k t₁ h₁ with ⟨rfl, rfl⟩ | ⟨-, hold₁⟩
    · rcases hworkers k' t₂ h₂ with ⟨rfl, rfl⟩ | ⟨-, hold₂⟩
      · rfl
      · exact hs.unique k k' t t₂ ht hold₂ hjob hunfinished hphase₂
    · rcases hworkers k' t₂ h₂ with ⟨rfl, rfl⟩ | ⟨-, hold₂⟩
      · exact hs.unique k k' t₁ t hold₁ ht hjob hphase₁ hunfinished
      · exact hs.unique k k' t₁ t₂ hold₁ hold₂ hjob hphase₁ hphase₂

/-- A worker that is done with its job has left nothing in progress. -/
theorem Staffed.done (hs : w.Staffed) (ht : w.workers[handle]? = some t)
    (hunfinished : t.phase ≠ .finished) (hlive : t.phase.isLive = false) :
    ¬ w.InProgress t.job := by
  intro hprogress
  obtain ⟨k, t', -, ht', hjob, hlive'⟩ := hs.manned t.job hprogress
  have hphase : t'.phase ≠ .finished := by
    intro h
    rw [h] at hlive'
    cases hlive'
  have hk := hs.unique k handle t' t ht' ht hjob hphase hunfinished
  subst hk
  rw [ht, Option.some.injEq] at ht'
  subst ht'
  rw [hlive] at hlive'
  cases hlive'

/-- Entries of workers that have finished leave the map. -/
theorem Staffed.erase (hs : w.Staffed) {jobs : AList fun _ : Uuid => Nat}
    (hlookup : ∀ job, jobs.lookup job = w.jobs.lookup job ∨
      jobs.lookup job = none ∧ w.seesFinished job = true) :
    Staffed { w with jobs := jobs } := by
  have hsub : ∀ job h, jobs.lookup job = some h → w.jobs.lookup job = some h := by
    intro job h hentry
    rcases hlookup job with hsame | ⟨hnone, -⟩
    · rw [← hsame, hentry]
    · rw [hnone] at hentry
      cases hentry
  have hkept : ∀ job (h : Nat) t, w.jobs.lookup job = some h → w.workers[h]? = some t →
      t.phase ≠ .finished → jobs.lookup job = some h := by
    intro job h t hentry ht hphase
    rcases hlookup job with hsame | ⟨-, hfinished⟩
    · rw [hsame, hentry]
    · simp [seesFinished, isFinished, hentry, ht, hphase] at hfinished
  refine ⟨hs.known, fun job h hentry => hs.entry job h (hsub job h hentry), ?_, ?_, ?_, hs.flagged,
    hs.unique⟩
  · intro call hcall
    obtain ⟨hentry, hworker, hover⟩ := hs.stopper call hcall
    refine ⟨?_, hworker, hover⟩
    cases hnew : jobs.lookup call.job with
    | none => rfl
    | some h =>
      have hold := hsub call.job h hnew
      rw [hentry] at hold
      cases hold
  · intro job hprogress
    obtain ⟨h, t, hentry, ht, hjob, hlive⟩ := hs.manned job hprogress
    refine ⟨h, t, hkept job h t hentry ht ?_, ht, hjob, hlive⟩
    intro hphase
    rw [hphase] at hlive
    cases hlive
  · intro h t ht hphase
    rcases hs.placed h t ht hphase with hplaced | hplaced
    · exact .inl (hkept t.job h t hplaced ht hphase)
    · exact .inr hplaced

end Frames

section Steps

variable {w : JobWorld} {job : Uuid} {handle : Nat} {t : WorkerTask} {clock : Clock}

/-- The steps that go right: a new job's identifier is new, no worker panics while its job is in
progress, a cleanup task takes out only a worker that has finished, and self-repair recovers no
job. -/
def Allowed (w : JobWorld) : JobAct → Prop
  | .create job .. => w.stateOf job = none
  | .worker handle .panic _ => ∀ t, w.workers[handle]? = some t → ¬ w.InProgress t.job
  | .clean i => ∀ cleaner, w.cleaners[i]? = some cleaner → cleaner.phase = .removing →
    w.seesFinished cleaner.job = true
  | .repair job attempts _ => attempts < w.maxRepairAttempts → w.stateOf job ≠ some .stuck
  | _ => True

theorem spawnWrite_eq (w : JobWorld) (write : StatusWrite) :
    ∃ writes, w.spawnWrite write = { w with writes := writes } := by
  unfold spawnWrite
  split
  · exact ⟨_, rfl⟩
  · exact ⟨w.writes, rfl⟩

theorem Staffed.spawnWrite (hs : w.Staffed) (write : StatusWrite) :
    (w.spawnWrite write).Staffed := by
  obtain ⟨writes, heq⟩ := spawnWrite_eq w write
  rw [heq]
  exact hs.congr (fun _ => rfl) rfl rfl rfl

theorem mark_of_accepted {call : LifeCall} {refused : TaskPhase}
    (h : (w.update job call clock).2 = true) :
    w.mark handle job call clock refused =
      (w.update job call clock).1.goTo handle (.persisting call.target) := by
  unfold mark
  generalize w.update job call clock = result at h
  obtain ⟨marked, ok⟩ := result
  cases h
  rfl

theorem mark_of_refused {call : LifeCall} {refused : TaskPhase}
    (h : (w.update job call clock).2 = false) :
    w.mark handle job call clock refused = w.goTo handle refused := by
  unfold mark
  generalize w.update job call clock = result at h
  obtain ⟨marked, ok⟩ := result
  cases h
  rfl

/-- A worker sets its job's status, or finds it out of progress. -/
theorem Staffed.mark (hs : w.Staffed) (ht : w.workers[handle]? = some t)
    (hunfinished : t.phase ≠ .finished) (call : LifeCall) (hcall : call ≠ .attemptRecovery)
    (htarget : call.target ≠ .inProgress)
    (hallowed : JobState.inProgress.canTransitionTo call.target = true) (clock : Clock)
    (refused : TaskPhase) : (w.mark handle t.job call clock refused).Staffed := by
  cases hok : (w.update t.job call clock).2 with
  | true =>
    rw [mark_of_accepted hok]
    refine (hs.update clock fun _ => htarget).goTo ht hunfinished fun _ hprogress => ?_
    have hstate := hprogress.1
    rw [stateOf_update, if_pos ⟨rfl, hok⟩, Option.some.injEq] at hstate
    exact htarget hstate
  | false =>
    rw [mark_of_refused hok]
    refine hs.goTo ht hunfinished fun _ hprogress => ?_
    rw [update_of_allowed hcall hprogress.1 hallowed] at hok
    cases hok

theorem Staffed.runWorker (hs : w.Staffed) (ht : w.workers[handle]? = some t)
    (hunfinished : t.phase ≠ .finished) (step : WorkerStep)
    (hpanic : step = .panic → ¬ w.InProgress t.job) : (w.runWorker handle t clock step).Staffed := by
  have hflagged (hflag : t.told = true ∨ t.aborted = true) : ¬ w.InProgress t.job := by
    rintro ⟨hstate, hstop⟩
    rcases hs.flagged handle t ht hflag with h | h
    · exact hstop h
    · exact h.not_inProgress hstate
  cases step with
  | start =>
    simp only [JobWorld.runWorker]
    split
    next =>
      rw [if_pos (hs.known handle t ht)]
      exact hs.goTo ht hunfinished nofun
    next => exact hs
  | complete =>
    simp only [JobWorld.runWorker]
    split
    next => exact hs.mark ht hunfinished completed nofun nofun rfl clock .failing
    next => exact hs
  | stick reason =>
    simp only [JobWorld.runWorker]
    split
    next => exact hs.mark ht hunfinished (.markStuck reason) nofun nofun rfl clock .failing
    next => exact hs
  | fail =>
    simp only [JobWorld.runWorker]
    split
    next => exact hs.goTo ht hunfinished nofun
    next => exact hs
  | markFailed reason =>
    simp only [JobWorld.runWorker]
    split
    next =>
      exact hs.mark ht hunfinished (.transitionTo .failed (some reason)) nofun nofun rfl clock .ending
    next => exact hs
  | timeOut =>
    simp only [JobWorld.runWorker]
    split
    next =>
      exact hs.mark ht hunfinished (.markStuck "Execution timeout") nofun nofun rfl clock .ending
    next => exact hs
  | leave =>
    simp only [JobWorld.runWorker]
    split
    next hleaves =>
      refine hs.goTo ht hunfinished fun _ hprogress => ?_
      rcases hleaves.2 with htold | hcancelled
      · exact hflagged (.inl htold) hprogress
      · rw [hprogress.1] at hcancelled
        cases hcancelled
    next => exact hs
  | persist =>
    simp only [JobWorld.runWorker]
    split
    next status hphase =>
      obtain ⟨writes, heq⟩ := spawnWrite_eq w (.update t.job status)
      rw [heq]
      have hwritten : Staffed { w with writes := writes } := hs.congr (fun _ => rfl) rfl rfl rfl
      refine hwritten.goTo ht hunfinished fun _ => hs.done ht hunfinished ?_
      rw [hphase]
      rfl
    next => exact hs
  | exit =>
    simp only [JobWorld.runWorker]
    split
    next hphase =>
      refine hs.goTo ht hunfinished fun _ => hs.done ht hunfinished ?_
      rw [hphase]
      rfl
    next => exact hs
  | panic =>
    simp only [JobWorld.runWorker]
    split
    next => exact hs
    next => exact hs.goTo ht hunfinished fun _ => hpanic rfl
  | die =>
    simp only [JobWorld.runWorker]
    split
    next haborted => exact hs.goTo ht hunfinished fun _ => hflagged (.inr haborted.1)
    next => exact hs

theorem created_eq {userId title description : String} {now : Int} {contexts : ContextManager}
    {created : Uuid}
    (h : w.contexts.createJobForUser job userId title description now = (contexts, .ok created)) :
    created = job := by
  unfold ContextManager.createJobForUser at h
  split at h
  · cases h
  · cases h
    rfl

theorem stateOf_create_of_created {userId title description : String} {now : Int}
    {contexts : ContextManager}
    (h : w.contexts.createJobForUser job userId title description now = (contexts, .ok job))
    (other : Uuid) :
    ((contexts.insertMemory job).getContext other).map (·.state) =
      if other = job then some .pending else w.stateOf other := by
  unfold ContextManager.createJobForUser at h
  split at h
  next => cases h
  next =>
    cases h
    by_cases hother : other = job
    · subst hother
      simp [ContextManager.getContext, ContextManager.insertMemory, JobRecord.withUser]
    · simp [ContextManager.getContext, ContextManager.insertMemory, stateOf, hother,
        AList.lookup_insert_ne hother]

/-- A job of a new identifier is nobody's. -/
theorem Staffed.create (hs : w.Staffed) (hnew : w.stateOf job = none)
    (userId title description : String) (now : Int) :
    (w.create job userId title description now).Staffed := by
  unfold JobWorld.create
  split
  next contexts created hcreated =>
    have hid := created_eq hcreated
    subst hid
    refine Staffed.spawnWrite ?_ _
    have hstate := stateOf_create_of_created hcreated
    have hsame {other : Uuid} (h : w.stateOf other ≠ none) :
        ((contexts.insertMemory created).getContext other).map (·.state) = w.stateOf other := by
      rw [hstate, if_neg]
      rintro rfl
      exact h hnew
    have hover {other : Uuid} (h : w.Over other) :
        Over { w with contexts := contexts.insertMemory created } other := by
      obtain ⟨s, hsome, hrest⟩ := h
      exact ⟨s, (hsame (by rw [hsome]; nofun)).trans hsome, hrest⟩
    refine ⟨?_, hs.entry, ?_, ?_, ?_, ?_, hs.unique⟩
    · intro h t ht
      have hknown := hs.known h t ht
      have hsome : w.stateOf t.job ≠ none := by
        intro hnone
        rw [hnone] at hknown
        cases hknown
      exact (congrArg Option.isSome (hsame hsome)).trans hknown
    · intro call hcall
      obtain ⟨hentry, hworker, hrest⟩ := hs.stopper call hcall
      exact ⟨hentry, hworker, fun hphase => hover (hrest hphase)⟩
    · rintro other ⟨hprogress, hstop⟩
      have hold := (hstate other).symm.trans hprogress
      split at hold
      · cases hold
      · exact hs.manned other ⟨hold, hstop⟩
    · intro h t ht hphase
      rcases hs.placed h t ht hphase with hplaced | hplaced | hplaced
      · exact .inl hplaced
      · exact .inr (.inl hplaced)
      · exact .inr (.inr (hover hplaced))
    · intro h t ht hflag
      rcases hs.flagged h t ht hflag with hflagged | hflagged
      · exact .inl hflagged
      · exact .inr (hover hflagged)
  next => exact hs

/-- No worker is left that could still be at an unfinished job outside the map. -/
theorem Staffed.nobody (hs : w.Staffed) (hfree : w.stopping = none)
    (hentry : w.jobs.lookup job = none) {s : JobState} (hsome : w.stateOf job = some s)
    (hunfinished : s.isUnfinished = true) (h : Nat) (t : WorkerTask)
    (ht : w.workers[h]? = some t) (hjob : t.job = job) : t.phase = .finished := by
  by_contra hphase
  rcases hs.placed h t ht hphase with hplaced | ⟨call, hcall, -⟩ | ⟨s', hs', hover⟩
  · rw [hjob, hentry] at hplaced
    cases hplaced
  · rw [hfree] at hcall
    cases hcall
  · rw [hjob, hsome, Option.some.injEq] at hs'
    subst hs'
    rw [hunfinished] at hover
    cases hover

/-- A started job gets a worker of its own. -/
theorem Staffed.schedule (hs : w.Staffed) (hfree : w.stopping = none) (job : Uuid) (clock : Clock) :
    (w.schedule job clock).Staffed := by
  unfold JobWorld.schedule
  split
  next => exact hs
  next hentry =>
    split
    next => exact hs
    next =>
      split
      next => exact hs
      next started hstarted =>
        have hworld : started = (w.update job
          (.transitionTo .inProgress (some "Scheduled for execution")) clock).1 := by rw [hstarted]
        have hok : (w.update job
          (.transitionTo .inProgress (some "Scheduled for execution")) clock).2 = true := by
            rw [hstarted]
        subst hworld
        obtain ⟨s, hsome, hallowed⟩ := update_allowed hok
        have hunfinished : s.isUnfinished = true := by
          cases hs' : s.isUnfinished with
          | true => rfl
          | false => cases isUnfinished_of_transition hallowed hs'
        have hnobody := hs.nobody hfree hentry hsome hunfinished
        have hlookup (other : Uuid) :
            (w.jobs.insert job w.workers.length).lookup other =
              if other = job then some w.workers.length else w.jobs.lookup other := by
          by_cases hother : other = job
          · subst hother
            simp
          · rw [if_neg hother, AList.lookup_insert_ne hother]
        have hworkers : ∀ (h : Nat) t,
            (w.workers ++ [⟨job, .waiting, false, false⟩])[h]? = some t →
              w.workers[h]? = some t ∨ h = w.workers.length ∧ t = ⟨job, .waiting, false, false⟩ := by
          intro h t ht
          rw [List.getElem?_append] at ht
          split at ht
          · exact .inl ht
          · next hlength =>
            rw [List.getElem?_singleton] at ht
            split at ht
            · exact .inr ⟨by omega, (Option.some.inj ht).symm⟩
            · cases ht
        have hkept : ∀ (h : Nat) t, w.workers[h]? = some t →
            (w.workers ++ [⟨job, .waiting, false, false⟩])[h]? = some t := by
          intro h t ht
          rw [List.getElem?_append_left (List.getElem?_eq_some_iff.mp ht).1]
          exact ht
        have hnew : (w.workers ++ [(⟨job, .waiting, false, false⟩ : WorkerTask)])[w.workers.length]? =
            some ⟨job, .waiting, false, false⟩ := by simp
        refine ⟨?_, ?_, ?_, ?_, ?_, ?_, ?_⟩
        · intro h t ht
          change ((w.update job _ clock).1.stateOf t.job).isSome = true
          rw [stateOf_update]
          split
          · rfl
          next hnot =>
            rcases hworkers h t ht with ht | ⟨-, rfl⟩
            · exact hs.known h t ht
            · exact absurd ⟨rfl, hok⟩ hnot
        · intro other h hother
          change (w.jobs.insert job w.workers.length).lookup other = some h at hother
          rw [hlookup] at hother
          split at hother
          next heq =>
            rw [Option.some.injEq] at hother
            subst hother heq
            exact ⟨_, hnew, rfl⟩
          next =>
            obtain ⟨t, ht, hjob⟩ := hs.entry other h hother
            exact ⟨t, hkept h t ht, hjob⟩
        · intro call hcall
          have hnone : w.stopping = some call := hcall
          rw [hfree] at hnone
          cases hnone
        · rintro other ⟨hprogress, hstop⟩
          change (w.update job _ clock).1.stateOf other = _ at hprogress
          by_cases hother : other = job
          · subst hother
            exact ⟨w.workers.length, _, (hlookup other).trans (if_pos rfl), hnew, rfl, rfl⟩
          · rw [stateOf_update, if_neg fun h => hother h.1] at hprogress
            obtain ⟨h, t, hother', ht, hjob, hlive⟩ := hs.manned other ⟨hprogress, hstop⟩
            exact ⟨h, t, (hlookup other).trans ((if_neg hother).trans hother'), hkept h t ht, hjob,
              hlive⟩
        · intro h t ht hphase
          rcases hworkers h t ht with ht | ⟨rfl, rfl⟩
          · rcases hs.placed h t ht hphase with hplaced | ⟨call, hcall, -⟩ | hplaced
            · have hother : t.job ≠ job := by
                intro heq
                rw [heq, hentry] at hplaced
                cases hplaced
              exact .inl ((hlookup t.job).trans ((if_neg hother).trans hplaced))
            · rw [hfree] at hcall
              cases hcall
            · exact .inr (.inr (over_update hplaced))
          · exact .inl ((hlookup job).trans (if_pos rfl))
        · intro h t ht hflag
          rcases hworkers h t ht with ht | ⟨rfl, rfl⟩
          · rcases hs.flagged h t ht hflag with ⟨call, hcall, -⟩ | hflagged
            · rw [hfree] at hcall
              cases hcall
            · exact .inr (over_update hflagged)
          · rcases hflag with hflag | hflag <;> cases hflag
        · intro h h' t t' ht ht' hjob hphase hphase'
          rcases hworkers h t ht with ht | ⟨rfl, rfl⟩
          · rcases hworkers h' t' ht' with ht' | ⟨rfl, rfl⟩
            · exact hs.unique h h' t t' ht ht' hjob hphase hphase'
            · exact absurd (hnobody h t ht hjob) hphase
          · rcases hworkers h' t' ht' with ht' | ⟨rfl, rfl⟩
            · exact absurd (hnobody h' t' ht' hjob.symm) hphase'
            · rfl

/-- A worker is told to stop or to be dropped. -/
theorem flag_getElem? {workers : List WorkerTask} {f : WorkerTask → WorkerTask}
    (hf : ∀ t, (f t).job = t.job ∧ (f t).phase = t.phase) {k : Nat} {t' : WorkerTask}
    (h : (workers.modify handle f)[k]? = some t') :
    ∃ t, workers[k]? = some t ∧ t'.job = t.job ∧ t'.phase = t.phase ∧ (k ≠ handle → t' = t) := by
  rw [List.getElem?_modify] at h
  obtain ⟨t, ht, rfl⟩ := Option.map_eq_some_iff.mp h
  refine ⟨t, ht, ?_⟩
  split
  next heq => exact ⟨(hf t).1, (hf t).2, fun hne => absurd heq.symm hne⟩
  next => exact ⟨rfl, rfl, fun _ => rfl⟩

theorem abort_keeps (t : WorkerTask) :
    (if t.phase = .finished then t else { t with aborted := true }).job = t.job ∧
      (if t.phase = .finished then t else { t with aborted := true }).phase = t.phase := by
  split
  · exact ⟨rfl, rfl⟩
  · exact ⟨rfl, rfl⟩

theorem flag_getElem?_of {workers : List WorkerTask} {f : WorkerTask → WorkerTask}
    (hf : ∀ t, (f t).job = t.job ∧ (f t).phase = t.phase) {k : Nat}
    (ht : workers[k]? = some t) : ∃ t', (workers.modify handle f)[k]? = some t' ∧
      t'.job = t.job ∧ t'.phase = t.phase := by
  rw [List.getElem?_modify, ht]
  refine ⟨_, rfl, ?_⟩
  split
  · exact hf t
  · exact ⟨rfl, rfl⟩

/-- The worker of a job that is being stopped is told so or dropped. -/
theorem Staffed.flag (hs : w.Staffed) {f : WorkerTask → WorkerTask}
    (hf : ∀ t, (f t).job = t.job ∧ (f t).phase = t.phase)
    (hstop : ∀ t, w.workers[handle]? = some t → w.StoppingJob t.job) :
    Staffed { w with workers := w.workers.modify handle f } := by
  refine ⟨?_, ?_, ?_, ?_, ?_, ?_, ?_⟩
  · intro h t' ht'
    obtain ⟨t, ht, hsame, -⟩ := flag_getElem? hf ht'
    rw [hsame]
    exact hs.known h t ht
  · intro other h hother
    obtain ⟨t, ht, hsame⟩ := hs.entry other h hother
    obtain ⟨t', ht', hsame', -⟩ := flag_getElem?_of hf ht
    exact ⟨t', ht', hsame'.trans hsame⟩
  · intro call hcall
    obtain ⟨hentry, ⟨t, ht, hsame⟩, hover⟩ := hs.stopper call hcall
    obtain ⟨t', ht', hsame', -⟩ := flag_getElem?_of hf ht
    exact ⟨hentry, ⟨t', ht', hsame'.trans hsame⟩, hover⟩
  · intro other hprogress
    obtain ⟨h, t, hplaced, ht, hsame, hlive⟩ := hs.manned other hprogress
    obtain ⟨t', ht', hsame', hphase⟩ := flag_getElem?_of hf ht
    exact ⟨h, t', hplaced, ht', hsame'.trans hsame, by rwa [hphase]⟩
  · intro h t' ht' hunfinished
    obtain ⟨t, ht, hsame, hphase, -⟩ := flag_getElem? hf ht'
    rw [hphase] at hunfinished
    rw [hsame]
    exact hs.placed h t ht hunfinished
  · intro h t' ht' hflag
    obtain ⟨t, ht, hsame, -, hkept⟩ := flag_getElem? hf ht'
    rw [hsame]
    by_cases hh : h = handle
    · subst hh
      exact .inl (hstop t ht)
    · rw [hkept hh] at hflag
      exact hs.flagged h t ht hflag
  · intro h h' t₁ t₂ ht₁ ht₂ hsame hphase₁ hphase₂
    obtain ⟨t₁', ht₁', hjob₁, hsame₁, -⟩ := flag_getElem? hf ht₁
    obtain ⟨t₂', ht₂', hjob₂, hsame₂, -⟩ := flag_getElem? hf ht₂
    rw [hsame₁] at hphase₁
    rw [hsame₂] at hphase₂
    exact hs.unique h h' t₁' t₂' ht₁' ht₂' (by rw [← hjob₁, hsame, hjob₂]) hphase₁ hphase₂

/-- `stop` takes the job out of the map, which it keeps locked. -/
private theorem Staffed.takeOut (hs : w.Staffed) (hfree : w.stopping = none)
    (hentry : w.jobs.lookup job = some handle) :
    Staffed { w with jobs := w.jobs.erase job, stopping := some ⟨job, handle, .waiting⟩ } := by
  have hlookup {other : Uuid} (h : other ≠ job) :
      (w.jobs.erase job).lookup other = w.jobs.lookup other := AList.lookup_erase_ne h
  have hnone {p : Prop} {call : StopCall} (hcall : w.stopping = some call) : p := by
    rw [hfree] at hcall
    cases hcall
  refine ⟨hs.known, ?_, ?_, ?_, ?_, ?_, hs.unique⟩
  · intro other h hother
    by_cases hsame : other = job
    · subst hsame
      rw [AList.lookup_erase] at hother
      cases hother
    · exact hs.entry other h ((hlookup hsame).symm.trans hother)
  · rintro call ⟨⟩
    exact ⟨AList.lookup_erase job w.jobs, hs.entry job handle hentry, nofun⟩
  · rintro other ⟨hstate, hstop⟩
    have hother : other ≠ job := by
      rintro rfl
      exact hstop ⟨_, rfl, rfl⟩
    obtain ⟨h, t, hplaced, hrest⟩ := hs.manned other ⟨hstate, fun ⟨_, hcall, _⟩ => hnone hcall⟩
    exact ⟨h, t, (hlookup hother).trans hplaced, hrest⟩
  · intro h t ht hunfinished
    rcases hs.placed h t ht hunfinished with hplaced | ⟨call, hcall, -⟩ | hplaced
    · by_cases hother : t.job = job
      · rw [hother, hentry, Option.some.injEq] at hplaced
        exact .inr (.inl ⟨_, rfl, hplaced⟩)
      · exact .inl ((hlookup hother).trans hplaced)
    · exact hnone hcall
    · exact .inr (.inr hplaced)
  · intro h t ht hflag
    rcases hs.flagged h t ht hflag with ⟨call, hcall, -⟩ | hflagged
    · exact hnone hcall
    · exact .inr hflagged

theorem Staffed.stop (hs : w.Staffed) (hfree : w.stopping = none) (job : Uuid) :
    (w.stop job).Staffed := by
  unfold JobWorld.stop
  split
  next => exact hs.congr (fun _ => rfl) rfl rfl rfl
  next handle hentry =>
    obtain ⟨worker, hworker, hjob⟩ := hs.entry job handle hentry
    refine (hs.takeOut hfree hentry).flag (fun _ => ⟨rfl, rfl⟩) fun t ht => ⟨_, rfl, ?_⟩
    have hsame : w.workers[handle]? = some t := ht
    rw [hworker, Option.some.injEq] at hsame
    rw [← hsame, hjob]

/-- The call of `stop` under way goes on. -/
private theorem Staffed.setStopping (hs : w.Staffed) {call : StopCall}
    (hcall : w.stopping = some call) {phase : StopPhase}
    (hover : phase = .persisting → w.Over call.job) :
    Staffed { w with stopping := some { call with phase := phase } } := by
  have hstop (job : Uuid) :
      StoppingJob { w with stopping := some { call with phase := phase } } job ↔
        w.StoppingJob job := by
    unfold StoppingJob
    simp [hcall]
  refine ⟨hs.known, hs.entry, ?_, ?_, ?_, ?_, hs.unique⟩
  · rintro _ ⟨⟩
    obtain ⟨hentry, hworker, -⟩ := hs.stopper call hcall
    exact ⟨hentry, hworker, hover⟩
  · rintro job ⟨hstate, hnot⟩
    exact hs.manned job ⟨hstate, fun h => hnot ((hstop job).mpr h)⟩
  · intro h t ht hphase
    rcases hs.placed h t ht hphase with hplaced | ⟨call', hcall', hplaced⟩ | hplaced
    · exact .inl hplaced
    · rw [hcall, Option.some.injEq] at hcall'
      subst hcall'
      exact .inr (.inl ⟨_, rfl, hplaced⟩)
    · exact .inr (.inr hplaced)
  · intro h t ht hflag
    exact (hs.flagged h t ht hflag).imp_left (hstop t.job).mpr

/-- The map is free again once the stopped job is over. -/
private theorem Staffed.release (hs : w.Staffed) {call : StopCall} (hcall : w.stopping = some call)
    (hphase : call.phase = .persisting) : Staffed { w with stopping := none } := by
  obtain ⟨-, ⟨worker, hworker, hjob⟩, hover⟩ := hs.stopper call hcall
  have hstopped (job : Uuid) (h : w.StoppingJob job) : w.Over job := by
    obtain ⟨call', hcall', rfl⟩ := h
    rw [hcall, Option.some.injEq] at hcall'
    exact hcall' ▸ hover hphase
  refine ⟨hs.known, hs.entry, nofun, ?_, ?_, ?_, hs.unique⟩
  · rintro job ⟨hstate, -⟩
    exact hs.manned job ⟨hstate, fun h => (hstopped job h).not_inProgress hstate⟩
  · intro h t ht hunfinished
    rcases hs.placed h t ht hunfinished with hplaced | ⟨call', hcall', rfl⟩ | hplaced
    · exact .inl hplaced
    · rw [hcall, Option.some.injEq] at hcall'
      subst hcall'
      rw [hworker, Option.some.injEq] at ht
      subst ht
      exact .inr (.inr (hjob ▸ hover hphase))
    · exact .inr (.inr hplaced)
  · intro h t ht hflag
    rcases hs.flagged h t ht hflag with hflagged | hflagged
    · exact .inr (hstopped t.job hflagged)
    · exact .inr hflagged

theorem Staffed.stopNext (hs : w.Staffed) {call : StopCall} (hcall : w.stopping = some call)
    (clock : Clock) : (w.stopNext call clock).Staffed := by
  obtain ⟨-, ⟨worker, hworker, hjob⟩, -⟩ := hs.stopper call hcall
  unfold JobWorld.stopNext
  split
  next =>
    have hwaiting : Staffed { w with stopping := some { call with phase := .cancelling } } :=
      hs.setStopping hcall nofun
    refine hwaiting.flag abort_keeps fun t ht => ⟨_, rfl, ?_⟩
    have hsame : w.workers[call.worker]? = some t := ht
    rw [hworker, Option.some.injEq] at hsame
    rw [← hsame, hjob]
  next =>
    have hknown := hs.known call.worker worker hworker
    rw [hjob] at hknown
    rw [if_pos hknown]
    obtain ⟨s, hstate⟩ := Option.isSome_iff_exists.mp hknown
    have hupdated : (w.update call.job (.transitionTo .cancelled (some "Stopped by scheduler"))
        clock).1.Staffed := hs.update clock fun _ => nofun
    refine hupdated.setStopping hcall fun _ => ?_
    cases hunfinished : s.isUnfinished with
    | true =>
      have hok : (w.update call.job (.transitionTo .cancelled (some "Stopped by scheduler"))
          clock).2 = true :=
        update_of_allowed nofun hstate (by cases s <;> first | rfl | cases hunfinished)
      exact ⟨.cancelled, by rw [stateOf_update, if_pos ⟨rfl, hok⟩]; rfl, rfl⟩
    | false => exact over_update ⟨s, hstate, hunfinished⟩
  next hphase =>
    obtain ⟨writes, heq⟩ := spawnWrite_eq w (.update call.job .cancelled)
    rw [heq]
    exact (hs.release hcall hphase).congr (fun _ => rfl) rfl rfl rfl

/-- A recovery goes through for stuck jobs only. -/
theorem update_recovery_iff :
    (w.update job .attemptRecovery clock).2 = true ↔ w.stateOf job = some .stuck := by
  unfold JobWorld.update ContextManager.updateContext stateOf
  cases hjob : w.contexts.getContext job with
  | none => simp
  | some j =>
    by_cases hstuck : j.state = .stuck
    · have hok : (JobRecord.transitionTo { j with repairAttempts := j.repairAttempts + 1 }
          .inProgress (some "Recovery attempt") clock).2 = .ok () :=
        JobRecord.transitionTo_ok_iff.mpr (by simp [hstuck]; rfl)
      simp [LifeCall.apply, JobRecord.attemptRecovery_of_stuck hstuck, hok, hstuck]
    · simp [LifeCall.apply, JobRecord.attemptRecovery_of_not_stuck hstuck, hstuck]

/-- Self-repair gives a job up. -/
theorem Staffed.repair (hs : w.Staffed) {attempts : Nat}
    (hrepair : attempts < w.maxRepairAttempts → w.stateOf job ≠ some .stuck) :
    (w.repair job attempts clock).Staffed := by
  unfold JobWorld.repair
  split
  next =>
    dsimp only
    split
    next failed hfailed =>
      have hworld : (w.update job (.transitionTo .failed
          (some s!"exceeded maximum repair attempts ({w.maxRepairAttempts})")) clock).1.Staffed :=
        hs.update clock fun _ => nofun
      rw [hfailed] at hworld
      exact hworld.spawnWrite _
    next => exact hs
  next hmore =>
    refine hs.update clock fun hok => ?_
    exact absurd (update_recovery_iff.mp hok) (hrepair (by omega))

theorem Staffed.step (hs : w.Staffed) {act : JobAct} (hallowed : Allowed w act) :
    (w.step act).Staffed := by
  cases act with
  | create job userId title description now => exact hs.create hallowed userId title description now
  | schedule job clock =>
    simp only [JobWorld.step]
    split
    next hfree => exact hs.schedule hfree job clock
    next => exact hs
  | worker handle next clock =>
    simp only [JobWorld.step]
    split
    next t ht =>
      split
      next => exact hs
      next hunfinished =>
        refine hs.runWorker ht hunfinished next fun hpanic => ?_
        subst hpanic
        exact hallowed t ht
    next => exact hs
  | poll i =>
    simp only [JobWorld.step]
    split
    next =>
      split
      next => exact hs.congr (fun _ => rfl) rfl rfl rfl
      next => exact hs
    next => exact hs
  | clean i =>
    simp only [JobWorld.step]
    split
    next cleaner hcleaner =>
      split
      next hready =>
        have herased : Staffed { w with jobs := w.jobs.erase cleaner.job } := by
          refine hs.erase fun job => ?_
          by_cases hjob : job = cleaner.job
          · subst hjob
            exact .inr ⟨AList.lookup_erase cleaner.job w.jobs,
              hallowed cleaner hcleaner hready.2⟩
          · exact .inl (AList.lookup_erase_ne hjob)
        exact herased.congr (fun _ => rfl) rfl rfl rfl
      next => exact hs
    next => exact hs
  | cleanupFinished =>
    simp only [JobWorld.step]
    split
    next =>
      refine hs.erase fun job => ?_
      rw [lookup_foldl_erase]
      split
      next hjob => exact .inr ⟨rfl, (List.mem_filter.mp hjob).2⟩
      next => exact .inl rfl
    next => exact hs
  | stop job =>
    simp only [JobWorld.step]
    split
    next hfree => exact hs.stop hfree job
    next => exact hs
  | stopNext clock =>
    simp only [JobWorld.step]
    split
    next call hcall => exact hs.stopNext hcall clock
    next => exact hs
  | repair job attempts clock => exact hs.repair hallowed
  | write n succeeds =>
    simp only [JobWorld.step]
    split
    next => exact hs.congr (fun _ => rfl) rfl rfl rfl
    next => exact hs

end Steps

end JobWorld

end Gyre.Agent
