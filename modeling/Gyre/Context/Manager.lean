/- digest: The context manager: who is admitted as a job, and when a job's slot is free again. -/

import Mathlib.Data.Finset.Erase
import Mathlib.Data.Finset.Insert
import Mathlib.Data.List.AList
import Gyre.Context.Lifecycle

/-!
Both tables are locked one at a time, so `create_job_for_user` and `remove_job` are two sections each:
one on the contexts, one on the memories. Every state change of the program goes through
`update_context` and a transition of the job.
-/

set_option autoImplicit false
set_option relaxedAutoImplicit false

namespace Gyre.Context

open Gyre.Llm Gyre.Lib

namespace JobState

/-- Work on the job is still to be done. -/
def isUnfinished : JobState → Bool
  | .pending | .inProgress | .stuck => true
  | _ => false

theorem isActive_iff (s : JobState) :
    s.isActive = true ↔ s.isUnfinished = true ∨ s = .completed ∨ s = .submitted := by
  cases s <;> decide

/-- No transition makes a job active again. -/
theorem isActive_of_canTransitionTo {s target : JobState}
    (h : s.canTransitionTo target = true) : s.isActive = true := by
  cases s <;> cases target <;> first | rfl | cases h

end JobState

inductive JobError where
  | maxJobsExceeded (max : Nat)
  | notFound (id : Uuid)
  | contextError (id : Uuid) (reason : String)
  deriving DecidableEq, Repr

structure ContextManager where
  contexts : AList fun _ : Uuid => JobRecord
  /-- The jobs that have a memory. -/
  memories : Finset Uuid
  maxJobs : Nat

namespace ContextManager

def new (maxJobs : Nat) : ContextManager := ⟨∅, ∅, maxJobs⟩

def getContext (m : ContextManager) (jobId : Uuid) : Option JobRecord := m.contexts.lookup jobId

/-- How many jobs are in a state of some kind. -/
def countWhere (m : ContextManager) (p : JobState → Bool) : Nat :=
  m.contexts.entries.countP fun entry => p entry.2.state

def activeCount (m : ContextManager) : Nat := m.countWhere JobState.isActive

/-- `create_job_for_user` under the lock of the contexts. -/
def createJobForUser (m : ContextManager) (jobId : Uuid) (userId title description : String)
    (now : Int) : ContextManager × Except JobError Uuid :=
  if m.maxJobs ≤ m.activeCount then (m, .error (.maxJobsExceeded m.maxJobs))
  else
    ({ m with
      contexts := m.contexts.insert jobId (.withUser jobId userId title description now) }, .ok jobId)

/-- The rest of `create_job_for_user`. -/
def insertMemory (m : ContextManager) (jobId : Uuid) : ContextManager :=
  { m with memories := insert jobId m.memories }

/-- `update_context` with a change that returns something. -/
def updateContext {α : Type} (m : ContextManager) (jobId : Uuid) (f : JobRecord → JobRecord × α) :
    ContextManager × Except JobError α :=
  match m.getContext jobId with
  | none => (m, .error (.notFound jobId))
  | some job => ({ m with contexts := m.contexts.insert jobId (f job).1 }, .ok (f job).2)

/-- `remove_job` under the lock of the contexts. -/
def removeContext (m : ContextManager) (jobId : Uuid) : ContextManager × Except JobError JobRecord :=
  match m.getContext jobId with
  | none => (m, .error (.notFound jobId))
  | some job => ({ m with contexts := m.contexts.erase jobId }, .ok job)

/-- The rest of `remove_job`. -/
def removeMemory (m : ContextManager) (jobId : Uuid) : ContextManager × Except JobError Unit :=
  if jobId ∈ m.memories then ({ m with memories := m.memories.erase jobId }, .ok ())
  else (m, .error (.notFound jobId))

section Counting

variable {m : ContextManager} {jobId : Uuid} {job : JobRecord}

/-- A job that is there counts beside all the others. -/
theorem countWhere_eq (p : JobState → Bool) (h : m.getContext jobId = some job) :
    m.countWhere p = (m.contexts.erase jobId).entries.countP (fun entry => p entry.2.state) +
      (if p job.state then 1 else 0) := by
  have hmem : (⟨jobId, job⟩ : (_ : Uuid) × JobRecord) ∈ m.contexts.entries :=
    List.of_mem_dlookup h
  have hkey : jobId ∈ m.contexts.entries.keys := List.mem_keys_of_mem hmem
  obtain ⟨b, before, after, hnot, hsplit, herase⟩ := List.exists_of_kerase hkey
  have hjob : b = job := by
    have hnodup := m.contexts.nodupKeys
    have hb : (⟨jobId, b⟩ : (_ : Uuid) × JobRecord) ∈ m.contexts.entries := by
      rw [hsplit]
      simp
    exact hnodup.eq_of_mk_mem hb hmem
  subst hjob
  change List.countP _ m.contexts.entries = List.countP _ (List.kerase jobId m.contexts.entries) + _
  rw [herase, hsplit]
  simp only [List.countP_append, List.countP_cons]
  omega

theorem countWhere_insert (p : JobState → Bool) (new : JobRecord) :
    countWhere { m with contexts := m.contexts.insert jobId new } p =
      (m.contexts.erase jobId).entries.countP (fun entry => p entry.2.state) +
        (if p new.state then 1 else 0) := by
  rw [countWhere, AList.entries_insert, List.countP_cons]
  rfl

theorem countWhere_erase_le (m : ContextManager) (jobId : Uuid) (p : JobState → Bool) :
    (m.contexts.erase jobId).entries.countP (fun entry => p entry.2.state) ≤ m.countWhere p :=
  (List.kerase_sublist jobId m.contexts.entries).countP_le

theorem countWhere_erase (p : JobState → Bool) :
    countWhere { m with contexts := m.contexts.erase jobId } p =
      (m.contexts.erase jobId).entries.countP (fun entry => p entry.2.state) := rfl

/-- The active jobs are the unfinished ones and those that wait for submission or acceptance. -/
theorem activeCount_eq (m : ContextManager) : m.activeCount = m.countWhere JobState.isUnfinished +
    m.countWhere fun s => s == .completed || s == .submitted := by
  unfold activeCount countWhere
  induction m.contexts.entries with
  | nil => rfl
  | cons entry rest ih =>
    simp only [List.countP_cons, ih]
    cases entry.2.state <;> simp [JobState.isActive, JobState.isTerminal, JobState.isUnfinished] <;>
      omega

/-- The unfinished jobs are all that is active exactly when no job waits for submission or
acceptance. -/
theorem activeCount_le_iff : m.activeCount ≤ m.countWhere JobState.isUnfinished ↔
    ∀ entry ∈ m.contexts.entries, entry.2.state ≠ .completed ∧ entry.2.state ≠ .submitted := by
  rw [activeCount_eq]
  constructor
  · intro hle
    have hzero : m.countWhere (fun s => s == .completed || s == .submitted) = 0 := by omega
    intro entry hentry
    have hnot := List.countP_eq_zero.mp hzero entry hentry
    simpa using hnot
  · intro hnone
    have hzero : m.countWhere (fun s => s == .completed || s == .submitted) = 0 :=
      List.countP_eq_zero.mpr fun entry hentry => by simpa using hnone entry hentry
    omega

end Counting

end ContextManager

/-- The sections that change the manager's tables. -/
inductive ContextOp where
  | createJob (jobId : Uuid) (userId title description : String) (now : Int)
  | insertMemory (jobId : Uuid)
  | update (jobId : Uuid) (call : LifeCall) (clock : Clock)
  | removeContext (jobId : Uuid)
  | removeMemory (jobId : Uuid)
  deriving DecidableEq, Repr

namespace ContextOp

open ContextManager

def step (m : ContextManager) : ContextOp → ContextManager × List Unit
  | createJob jobId userId title description now =>
    ((m.createJobForUser jobId userId title description now).1, [])
  | insertMemory jobId => (m.insertMemory jobId, [])
  | update jobId call clock => ((m.updateContext jobId fun j => call.apply j clock).1, [])
  | removeContext jobId => ((m.removeContext jobId).1, [])
  | removeMemory jobId => ((m.removeMemory jobId).1, [])

end ContextOp

section Admission

open ContextManager

variable {m : ContextManager} {jobId : Uuid} {job : JobRecord} {call : LifeCall} {clock : Clock}

/-- A call makes no job active that was not. -/
theorem LifeCall.apply_isActive (h : (call.apply job clock).1.state.isActive = true) :
    job.state.isActive = true := by
  rcases LifeCall.apply_cases job clock call with ⟨e, happly⟩ | ⟨hallowed, -, -⟩
  · rw [happly] at h
    exact h
  · exact JobState.isActive_of_canTransitionTo hallowed

private theorem step_admits (h : m.activeCount ≤ m.maxJobs) (op : ContextOp) :
    (ContextOp.step m op).1.activeCount ≤ (ContextOp.step m op).1.maxJobs ∧
      (ContextOp.step m op).1.maxJobs = m.maxJobs := by
  cases op with
  | createJob jobId userId title description now =>
    simp only [ContextOp.step, createJobForUser]
    split
    next => exact ⟨h, rfl⟩
    next hfree =>
      refine ⟨?_, rfl⟩
      have hothers := countWhere_erase_le m jobId JobState.isActive
      rw [activeCount, countWhere_insert]
      unfold activeCount at hfree
      split <;> simp only [] <;> omega
  | insertMemory jobId => exact ⟨h, rfl⟩
  | update jobId call clock =>
    simp only [ContextOp.step, updateContext]
    split
    next => exact ⟨h, rfl⟩
    next job hjob =>
      refine ⟨?_, rfl⟩
      have hbefore := countWhere_eq JobState.isActive hjob
      unfold activeCount at h ⊢
      rw [countWhere_insert]
      split
      next hactive =>
        rw [if_pos (LifeCall.apply_isActive hactive)] at hbefore
        simp only []
        omega
      next =>
        simp only []
        omega
  | removeContext jobId =>
    simp only [ContextOp.step, ContextManager.removeContext]
    split
    next => exact ⟨h, rfl⟩
    next =>
      refine ⟨?_, rfl⟩
      have hothers := countWhere_erase_le m jobId JobState.isActive
      rw [activeCount, countWhere_erase]
      exact hothers.trans h
  | removeMemory jobId =>
    simp only [ContextOp.step, ContextManager.removeMemory]
    split <;> exact ⟨h, rfl⟩

theorem run_admits (maxJobs : Nat) (ops : List ContextOp) :
    (run ContextOp.step (ContextManager.new maxJobs) ops).1.activeCount ≤ maxJobs ∧
      (run ContextOp.step (ContextManager.new maxJobs) ops).1.maxJobs = maxJobs := by
  refine run_invariant (fun (m : ContextManager) _ => m.activeCount ≤ maxJobs ∧ m.maxJobs = maxJobs)
    ⟨Nat.zero_le _, rfl⟩ ?_ ops
  intro m log op ⟨hcount, hmax⟩
  obtain ⟨hle, hsame⟩ := step_admits (hmax.symm ▸ hcount) op
  rw [hsame, hmax] at hle
  exact ⟨hle, hsame.trans hmax⟩

/-- The job ends its work by this call. -/
def EndsWork (job : JobRecord) (call : LifeCall) (clock : Clock) : Prop :=
  job.state.isUnfinished = true ∧ (call.apply job clock).2 = .ok () ∧
    (call.target = .completed ∨ call.target = .failed ∨ call.target = .cancelled)

/-- A job that ends its work frees its slot exactly when it does not complete. -/
theorem endsWork_frees_iff (hjob : m.getContext jobId = some job)
    (hends : EndsWork job call clock) :
    (m.updateContext jobId fun j => call.apply j clock).1.activeCount + 1 = m.activeCount ↔
      call.target ≠ .completed := by
  obtain ⟨hunfinished, hok, htarget⟩ := hends
  have hactive : job.state.isActive = true := (JobState.isActive_iff _).mpr (.inl hunfinished)
  have hstate : (call.apply job clock).1.state = call.target := by
    rcases LifeCall.apply_cases job clock call with ⟨e, happly⟩ | ⟨hallowed, attempts, happly⟩
    · rw [happly] at hok
      cases hok
    · rw [happly]
      exact JobRecord.transitionTo_state hallowed
  have hbefore := countWhere_eq JobState.isActive hjob
  rw [if_pos hactive] at hbefore
  have hafter : (m.updateContext jobId fun j => call.apply j clock).1.activeCount =
      (m.contexts.erase jobId).entries.countP (fun entry => entry.2.state.isActive) +
        if call.target.isActive then 1 else 0 := by
    simp only [updateContext, hjob]
    rw [activeCount, countWhere_insert, hstate]
  rw [hafter, activeCount, hbefore]
  rcases htarget with htarget | htarget | htarget <;>
    simp [htarget, JobState.isActive, JobState.isTerminal]

/-- After every run: at most `maxJobs` jobs are active, and so unfinished; a refusal means that
`maxJobs` jobs are unfinished exactly when no job waits for submission or acceptance while the
manager is full; and a job that ends its work frees its slot exactly when it does not complete. -/
theorem job_admission_iff (maxJobs : Nat) (ops : List ContextOp) :
    let m := (run ContextOp.step (ContextManager.new maxJobs) ops).1
    m.activeCount ≤ maxJobs ∧ m.countWhere JobState.isUnfinished ≤ maxJobs ∧
    (∀ (jobId : Uuid) (userId title description : String) (now : Int),
      ((m.createJobForUser jobId userId title description now).2 =
          .error (.maxJobsExceeded maxJobs) →
        maxJobs ≤ m.countWhere JobState.isUnfinished) ↔
      (m.activeCount < maxJobs ∨ ∀ entry ∈ m.contexts.entries,
        entry.2.state ≠ .completed ∧ entry.2.state ≠ .submitted)) ∧
    (∀ (jobId : Uuid) (job : JobRecord) (call : LifeCall) (clock : Clock),
      m.getContext jobId = some job → EndsWork job call clock →
      ((m.updateContext jobId fun j => call.apply j clock).1.activeCount + 1 = m.activeCount ↔
        call.target ≠ .completed)) := by
  obtain ⟨hcount, hmax⟩ := run_admits maxJobs ops
  refine ⟨hcount, ?_, ?_, fun jobId job call clock hjob hends => endsWork_frees_iff hjob hends⟩
  · have hactive := activeCount_eq (run ContextOp.step (ContextManager.new maxJobs) ops).1
    omega
  · intro jobId userId title description now
    have hrefused : ((run ContextOp.step (ContextManager.new maxJobs) ops).1.createJobForUser jobId
        userId title description now).2 = .error (.maxJobsExceeded maxJobs) ↔
          maxJobs ≤ (run ContextOp.step (ContextManager.new maxJobs) ops).1.activeCount := by
      unfold createJobForUser
      rw [hmax]
      split
      next hfull => simp [hfull]
      next hfree => simp [hfree]
    rw [hrefused, ← activeCount_le_iff]
    constructor
    · intro hreal
      by_cases hfull : maxJobs ≤ (run ContextOp.step (ContextManager.new maxJobs) ops).1.activeCount
      · exact .inr (hcount.trans (hreal hfull))
      · exact .inl (Nat.lt_of_not_le hfull)
    · rintro (hfree | hnone) hfull
      · omega
      · exact hfull.trans hnone

private def onlyJob : Uuid := .ofNat 1

/-- One job under a limit of one: made, started, completed. -/
private def completedJob : ContextManager :=
  (run ContextOp.step (ContextManager.new 1) [.createJob onlyJob "user" "title" "" 0,
    .insertMemory onlyJob, .update onlyJob (.transitionTo .inProgress none) ⟨1, 1⟩,
    .update onlyJob (.transitionTo .completed none) ⟨2, 2⟩]).1

/-- The job is done, no job is unfinished, and no other job is admitted. -/
theorem completed_job_keeps_slot :
    completedJob.countWhere JobState.isUnfinished = 0 ∧ completedJob.activeCount = 1 ∧
      (completedJob.createJobForUser (.ofNat 2) "user" "next" "" 3).2 =
        .error (.maxJobsExceeded 1) := by
  refine ⟨by decide +kernel, by decide +kernel, by rfl⟩

end Admission

end Gyre.Context
