/- digest: The life cycle of a job: its state machine, its clock marks and its capped history. -/

import Mathlib.Data.List.Chain
import Gyre.Lib.Runs
import Gyre.Llm.Value

set_option autoImplicit false
set_option relaxedAutoImplicit false

namespace Gyre.Context

open Gyre.Llm Gyre.Lib

inductive JobState where
  | pending
  | inProgress
  | completed
  | submitted
  | accepted
  | failed
  | stuck
  | cancelled
  deriving DecidableEq, Repr

structure JobContext where
  userId : String
  state : JobState
  deriving DecidableEq, Repr

namespace JobState

def canTransitionTo : JobState → JobState → Bool
  | .pending, .inProgress | .pending, .cancelled
  | .inProgress, .completed | .inProgress, .failed
  | .inProgress, .stuck | .inProgress, .cancelled
  | .completed, .submitted | .completed, .failed
  | .submitted, .accepted | .submitted, .failed
  | .stuck, .inProgress | .stuck, .failed | .stuck, .cancelled => true
  | _, _ => false

def isTerminal : JobState → Bool
  | .accepted | .failed | .cancelled => true
  | _ => false

def isActive (s : JobState) : Bool := !s.isTerminal

/-- The name `Display` prints. -/
def name : JobState → String
  | .pending => "pending"
  | .inProgress => "in_progress"
  | .completed => "completed"
  | .submitted => "submitted"
  | .accepted => "accepted"
  | .failed => "failed"
  | .stuck => "stuck"
  | .cancelled => "cancelled"

/-- The states whose entry sets `completed_at`. -/
def marksCompletion : JobState → Bool
  | .completed | .accepted | .failed | .cancelled => true
  | _ => false

theorem canTransitionTo_of_terminal {s : JobState} (h : s.isTerminal = true) (target : JobState) :
    s.canTransitionTo target = false := by
  cases s <;> first | rfl | cases h

theorem marksCompletion_iff (s : JobState) :
    s.marksCompletion = true ↔ s = .completed ∨ s.isTerminal = true := by
  cases s <;> decide

end JobState

/-- A state transition event. -/
structure StateTransition where
  source : JobState
  target : JobState
  timestamp : Int
  reason : Option String
  deriving DecidableEq, Repr

/-- `JobContext` with the fields its life cycle reads and writes. -/
structure JobRecord extends JobContext where
  jobId : Uuid
  title : String
  description : String
  createdAt : Int
  startedAt : Option Int
  completedAt : Option Int
  repairAttempts : Nat
  transitions : List StateTransition
  deriving DecidableEq, Repr

/-- The two clock readings of a transition: for its record, and for the job's marks. -/
structure Clock where
  recorded : Int
  marked : Int
  deriving DecidableEq, Repr

namespace JobRecord

def withUser (jobId : Uuid) (userId title description : String) (now : Int) : JobRecord where
  userId := userId
  state := .pending
  jobId := jobId
  title := title
  description := description
  createdAt := now
  startedAt := none
  completedAt := none
  repairAttempts := 0
  transitions := []

def maxTransitions : Nat := 200

/-- Add an entry to the history and drop the oldest ones over the cap. -/
def pushTransition (history : List StateTransition) (t : StateTransition) : List StateTransition :=
  let all := history ++ [t]
  all.drop (all.length - maxTransitions)

/-- `transition_to`: the context it leaves and what it returns. -/
def transitionTo (j : JobRecord) (newState : JobState) (reason : Option String) (clock : Clock) :
    JobRecord × Except String Unit :=
  if j.state.canTransitionTo newState = false then
    (j, .error s!"Cannot transition from {j.state.name} to {newState.name}")
  else
    ({ j with
      transitions := pushTransition j.transitions ⟨j.state, newState, clock.recorded, reason⟩
      state := newState
      startedAt :=
        if newState = .inProgress ∧ j.startedAt = none then some clock.marked else j.startedAt
      completedAt := if newState.marksCompletion then some clock.marked else j.completedAt }, .ok ())

def markStuck (j : JobRecord) (reason : String) (clock : Clock) : JobRecord × Except String Unit :=
  j.transitionTo .stuck (some reason) clock

def attemptRecovery (j : JobRecord) (clock : Clock) : JobRecord × Except String Unit :=
  if j.state ≠ .stuck then (j, .error "Job is not stuck")
  else
    { j with repairAttempts := j.repairAttempts + 1 }.transitionTo .inProgress
      (some "Recovery attempt") clock

section Transition

variable {j : JobRecord} {newState : JobState} {reason : Option String} {clock : Clock}

theorem transitionTo_refused (h : j.state.canTransitionTo newState = false) :
    j.transitionTo newState reason clock =
      (j, .error s!"Cannot transition from {j.state.name} to {newState.name}") := by
  unfold transitionTo
  rw [if_pos h]

theorem transitionTo_state (h : j.state.canTransitionTo newState = true) :
    (j.transitionTo newState reason clock).1.state = newState := by
  unfold transitionTo
  rw [if_neg (by simp [h])]

/-- A transition succeeds exactly when the state allows it. -/
theorem transitionTo_ok_iff :
    (j.transitionTo newState reason clock).2 = .ok () ↔
      j.state.canTransitionTo newState = true := by
  cases h : j.state.canTransitionTo newState with
  | false => simp [transitionTo_refused h]
  | true =>
    unfold transitionTo
    rw [if_neg (by simp [h])]
    simp

/-- A failed transition leaves the context as it was. -/
theorem transitionTo_unchanged (h : (j.transitionTo newState reason clock).2 ≠ .ok ()) :
    (j.transitionTo newState reason clock).1 = j := by
  rw [Ne, transitionTo_ok_iff, Bool.not_eq_true] at h
  rw [transitionTo_refused h]

/-- A recovery moves a stuck job back to work and counts the attempt. -/
theorem attemptRecovery_of_stuck (h : j.state = .stuck) :
    j.attemptRecovery clock =
      { j with repairAttempts := j.repairAttempts + 1 }.transitionTo .inProgress
        (some "Recovery attempt") clock := by
  unfold attemptRecovery
  rw [if_neg (by simp [h])]

theorem attemptRecovery_of_not_stuck (h : j.state ≠ .stuck) :
    j.attemptRecovery clock = (j, .error "Job is not stuck") := by
  unfold attemptRecovery
  rw [if_pos h]

end Transition

end JobRecord

/-- The calls that change a job's state. -/
inductive LifeCall where
  | transitionTo (newState : JobState) (reason : Option String)
  | markStuck (reason : String)
  | attemptRecovery
  deriving DecidableEq, Repr

/-- An entry into a state: the transition that is recorded, and the time the marks get. -/
structure Entry where
  transition : StateTransition
  marked : Int
  deriving DecidableEq, Repr

namespace LifeCall

def target : LifeCall → JobState
  | transitionTo newState _ => newState
  | markStuck _ => .stuck
  | attemptRecovery => .inProgress

def reason : LifeCall → Option String
  | transitionTo _ reason => reason
  | markStuck reason => some reason
  | attemptRecovery => some "Recovery attempt"

def apply (j : JobRecord) (clock : Clock) : LifeCall → JobRecord × Except String Unit
  | transitionTo newState reason => j.transitionTo newState reason clock
  | markStuck reason => j.markStuck reason clock
  | attemptRecovery => j.attemptRecovery clock

/-- One call; a call that succeeds enters its target. -/
def step (j : JobRecord) (call : LifeCall × Clock) : JobRecord × List Entry :=
  let result := call.1.apply j call.2
  (result.1,
    match result.2 with
    | .ok () => [⟨⟨j.state, call.1.target, call.2.recorded, call.1.reason⟩, call.2.marked⟩]
    | .error _ => [])

/-- A call fails and changes nothing, or makes an allowed transition. -/
theorem apply_cases (j : JobRecord) (clock : Clock) (call : LifeCall) :
    (∃ e, call.apply j clock = (j, .error e)) ∨
      j.state.canTransitionTo call.target = true ∧ ∃ attempts, call.apply j clock =
        { j with repairAttempts := attempts }.transitionTo call.target call.reason clock := by
  cases call with
  | transitionTo newState reason =>
    cases h : j.state.canTransitionTo newState with
    | false => exact .inl ⟨_, JobRecord.transitionTo_refused h⟩
    | true => exact .inr ⟨h, j.repairAttempts, rfl⟩
  | markStuck reason =>
    cases h : j.state.canTransitionTo .stuck with
    | false => exact .inl ⟨_, JobRecord.transitionTo_refused h⟩
    | true => exact .inr ⟨h, j.repairAttempts, rfl⟩
  | attemptRecovery =>
    by_cases h : j.state = .stuck
    · refine .inr ⟨?_, j.repairAttempts + 1, JobRecord.attemptRecovery_of_stuck h⟩
      rw [h]
      rfl
    · exact .inl ⟨_, JobRecord.attemptRecovery_of_not_stuck h⟩

end LifeCall

/-- The recorded transitions follow one another and end in the current state. -/
structure Contiguous (j : JobRecord) : Prop where
  chained : j.transitions.IsChain fun earlier later => earlier.target = later.source
  ends : ∀ t ∈ j.transitions.getLast?, t.target = j.state
  capped : j.transitions.length ≤ JobRecord.maxTransitions

/-- What a job shows of all the states it has entered since `start`. -/
structure LifeOf (start j : JobRecord) (entries : List Entry) : Prop where
  chained : (entries.map (·.transition)).IsChain fun earlier later => earlier.target = later.source
  begins : ∀ e ∈ entries.head?, e.transition.source = start.state
  ends : j.state = (entries.getLast?.map (·.transition.target)).getD start.state
  recorded : j.transitions =
    (entries.map (·.transition)).drop (entries.length - JobRecord.maxTransitions)
  started : j.startedAt =
    start.startedAt.or ((entries.find? (·.transition.target == .inProgress)).map (·.marked))
  completed : j.completedAt =
    ((entries.reverse.find? (·.transition.target.marksCompletion)).map (·.marked)).or
      start.completedAt

/-- What one call does to a job. -/
structure KeepsLife (j : JobRecord) (call : LifeCall) (clock : Clock) : Prop where
  succeeds : ∀ newState reason, call = .transitionTo newState reason →
    ((call.apply j clock).2 = .ok () ↔ j.state.canTransitionTo newState = true)
  unchanged : (call.apply j clock).2 ≠ .ok () → (call.apply j clock).1 = j
  terminal : j.state.isTerminal = true → (call.apply j clock).1.state = j.state
  started : ∀ time, j.startedAt = some time → (call.apply j clock).1.startedAt = some time
  completed : (call.apply j clock).1.completedAt =
    if (call.apply j clock).2 = .ok () ∧ (call.target = .completed ∨ call.target.isTerminal = true)
      then some clock.marked else j.completedAt

section Runs

variable {start j : JobRecord} {entries : List Entry}

private theorem drop_pushed {t : StateTransition} {all : List StateTransition} (cap : Nat) :
    ((all.drop (all.length - cap)) ++ [t]).drop ((all.drop (all.length - cap) ++ [t]).length - cap) =
      (all ++ [t]).drop ((all ++ [t]).length - cap) := by
  by_cases h : all.length ≤ cap
  · rw [Nat.sub_eq_zero_of_le h, List.drop_zero]
  · have hlast : all.drop (all.length - cap) ++ [t] = (all ++ [t]).drop (all.length - cap) := by
      rw [List.drop_append_of_le_length (Nat.sub_le _ _)]
    rw [hlast, List.drop_drop, List.length_drop, List.length_append, List.length_singleton]
    congr 1
    omega

theorem LifeOf.step (h : LifeOf start j entries) (call : LifeCall × Clock) :
    LifeOf start (LifeCall.step j call).1 (entries ++ (LifeCall.step j call).2) := by
  obtain ⟨call, clock⟩ := call
  rcases LifeCall.apply_cases j clock call with ⟨e, happly⟩ | ⟨hallowed, attempts, happly⟩
  · have hstep : LifeCall.step j (call, clock) = (j, []) := by
      simp only [LifeCall.step, happly]
    rw [hstep, List.append_nil]
    exact h
  · have hstep : LifeCall.step j (call, clock) =
        (({ j with repairAttempts := attempts }.transitionTo call.target call.reason clock).1,
          [⟨⟨j.state, call.target, clock.recorded, call.reason⟩, clock.marked⟩]) := by
      have hok : ({ j with repairAttempts := attempts }.transitionTo call.target call.reason
          clock).2 = .ok () := JobRecord.transitionTo_ok_iff.mpr hallowed
      simp only [LifeCall.step, happly, hok]
    rw [hstep]
    unfold JobRecord.transitionTo
    rw [if_neg (by simp [hallowed])]
    refine ⟨?_, ?_, ?_, ?_, ?_, ?_⟩
    · rw [List.map_append, List.isChain_append]
      refine ⟨h.chained, List.isChain_singleton _, ?_⟩
      intro last hlast next hnext
      simp only [List.map_cons, List.map_nil, List.head?_cons, Option.mem_def,
        Option.some.injEq] at hnext
      rw [← hnext]
      have hends := h.ends
      rw [List.getLast?_map, Option.mem_def] at hlast
      cases hl : entries.getLast? with
      | none => simp [hl] at hlast
      | some e =>
        rw [hl, Option.map_some, Option.some.injEq] at hlast
        simp only [hl, Option.map_some, Option.getD_some] at hends
        rw [hends, ← hlast]
    · intro e he
      cases entries with
      | nil =>
        simp only [List.nil_append, List.head?_cons, Option.mem_def, Option.some.injEq] at he
        rw [← he]
        exact h.ends
      | cons first rest => exact h.begins e he
    · simp
    · rw [List.map_append, List.length_append]
      have hlength : entries.length = (entries.map (·.transition)).length := by simp
      simp only [JobRecord.pushTransition, h.recorded, List.map_cons, List.map_nil]
      rw [hlength, drop_pushed, List.length_append]
      rfl
    · rw [List.find?_append, Option.map_or, ← Option.or_assoc, ← h.started]
      cases hstarted : j.startedAt with
      | some time => simp
      | none =>
        by_cases htarget : call.target = .inProgress <;> simp [htarget]
    · rw [List.reverse_append, List.find?_append]
      cases hmarks : call.target.marksCompletion with
      | true => simp [hmarks]
      | false => simp [hmarks, h.completed]

/-- A job as it is made or loaded, with no transition recorded. -/
theorem LifeOf.begin (j₀ : JobRecord) :
    LifeOf { j₀ with transitions := [] } { j₀ with transitions := [] } [] := by
  refine ⟨List.isChain_nil, ?_, rfl, rfl, ?_, rfl⟩
  · intro e he
    cases he
  · simp

theorem LifeOf.contiguous (h : LifeOf start j entries) : Contiguous j := by
  refine ⟨?_, ?_, ?_⟩
  · rw [h.recorded]
    exact h.chained.drop _
  · intro t ht
    rw [h.recorded, Option.mem_def, List.getLast?_drop] at ht
    split at ht
    next => cases ht
    next =>
      rw [List.getLast?_map] at ht
      obtain ⟨e, he, rfl⟩ := Option.map_eq_some_iff.mp ht
      rw [h.ends, he]
      rfl
  · rw [h.recorded, List.length_drop, List.length_map]
    omega

theorem keepsLife (j : JobRecord) (call : LifeCall) (clock : Clock) : KeepsLife j call clock := by
  refine ⟨?_, ?_, ?_, ?_, ?_⟩
  · rintro newState reason rfl
    exact JobRecord.transitionTo_ok_iff
  · intro hfailed
    rcases LifeCall.apply_cases j clock call with ⟨e, happly⟩ | ⟨hallowed, attempts, happly⟩
    · rw [happly]
    · rw [happly] at hfailed
      exact (hfailed (JobRecord.transitionTo_ok_iff.mpr hallowed)).elim
  · intro hterminal
    rcases LifeCall.apply_cases j clock call with ⟨e, happly⟩ | ⟨hallowed, attempts, happly⟩
    · rw [happly]
    · rw [JobState.canTransitionTo_of_terminal hterminal] at hallowed
      cases hallowed
  · intro time hstarted
    rcases LifeCall.apply_cases j clock call with ⟨e, happly⟩ | ⟨hallowed, attempts, happly⟩
    · rw [happly]
      exact hstarted
    · rw [happly, JobRecord.transitionTo, if_neg (by simp [hallowed])]
      simp [hstarted]
  · rcases LifeCall.apply_cases j clock call with ⟨e, happly⟩ | ⟨hallowed, attempts, happly⟩
    · simp [happly]
    · have hok : ({ j with repairAttempts := attempts }.transitionTo call.target call.reason
          clock).2 = .ok () := JobRecord.transitionTo_ok_iff.mpr hallowed
      rw [happly, hok]
      simp only [true_and, ← JobState.marksCompletion_iff]
      rw [JobRecord.transitionTo, if_neg (by simp [hallowed])]

/-- Over every run of calls on a job: the recorded transitions are the newest of all the transitions
made, follow one another and end in the current state; the job is started when it first enters
`InProgress` and marked complete at its last entry into a completed or terminal state; and every call
succeeds only as allowed, fails without effect and leaves no terminal state. -/
theorem job_life_cycle (j₀ : JobRecord) (calls : List (LifeCall × Clock)) :
    let start : JobRecord := { j₀ with transitions := [] }
    let result := run LifeCall.step start calls
    LifeOf start result.1 result.2 ∧ Contiguous result.1 ∧
      ∀ p ∈ visited LifeCall.step start calls, KeepsLife p.1 p.2.1 p.2.2 := by
  have hlife : LifeOf { j₀ with transitions := [] }
      (run LifeCall.step { j₀ with transitions := [] } calls).1
      (run LifeCall.step { j₀ with transitions := [] } calls).2 :=
    run_invariant _ (LifeOf.begin j₀) (fun _ _ call h => h.step call) calls
  exact ⟨hlife, hlife.contiguous, fun p _ => keepsLife p.1 p.2.1 p.2.2⟩

end Runs

end Gyre.Context
