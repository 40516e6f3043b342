/- digest: When the circuit breaker holds calls back and what closes it again. -/

import Mathlib.Data.List.Chain
import Gyre.Lib.Reach
import Gyre.Llm.CircuitBreaker

set_option autoImplicit false
set_option relaxedAutoImplicit false

namespace Gyre.Llm

open Gyre.Lib

/-- The calls admitted in a period. -/
def Period.probes (p : Period) : List Nat := p.admitted.map (·.1)

/-- A call is admitted a recovery timeout after the circuit has opened, at the earliest. -/
def Period.HoldsBack (timeout : Nat) (newer older : Period) : Prop :=
  older.state = .opened → ∀ a ∈ newer.admitted, older.since + timeout ≤ a.2

/-- A circuit that closes has been half open; enough of the calls admitted since then have succeeded
and none of them has failed. -/
def Period.Recovered (needed : Nat) (newer older : Period) : Prop :=
  newer.state = .closed → older.state = .halfOpen ∧
    needed ≤ older.succeeded.countP (older.probes.contains ·) ∧ ∀ i ∈ older.failed, i ∉ older.probes

namespace BreakerWorld

/-- The circuit keeps calls back while it is open and closes after enough of its probes. -/
structure Protects (w : BreakerWorld) : Prop where
  opened : ∀ p ∈ w.history, p.state = .opened → ∀ a ∈ p.admitted,
    p.since + w.config.recoveryTimeout ≤ a.2
  held : w.history.Pairwise (Period.HoldsBack w.config.recoveryTimeout)
  closed : w.history.IsChain (Period.Recovered w.config.halfOpenSuccessesNeeded)

/-- Time does not go back. No success is recorded while the circuit is open, and while it is half open
only that of a call admitted since then. -/
def RecordsProbes (w : BreakerWorld) : BreakerAct → Prop
  | .call => True
  | .check _ now | .answer _ (.error _) now => w.latest ≤ now
  | .answer i (.ok ()) now =>
    w.latest ≤ now ∧ w.breaker.state ≠ .opened ∧
      (w.breaker.state = .halfOpen → i ∈ w.current.probes)

instance RecordsProbes.decidable (w : BreakerWorld) : ∀ act, Decidable (w.RecordsProbes act)
  | .call => .isTrue trivial
  | .check _ now | .answer _ (.error _) now => inferInstanceAs (Decidable (w.latest ≤ now))
  | .answer i (.ok ()) now =>
    inferInstanceAs (Decidable (w.latest ≤ now ∧ w.breaker.state ≠ .opened ∧
      (w.breaker.state = .halfOpen → i ∈ w.current.probes)))

/-- What keeps the circuit's promises. -/
structure Guarded (w : BreakerWorld) : Prop where
  protects : w.Protects
  state : w.current.state = w.breaker.state
  since : w.current.since ≤ w.latest
  open_since : w.breaker.state = .opened →
    w.breaker.openedAt = some w.current.since ∧ w.current.admitted = []
  probing : w.breaker.state = .halfOpen → w.breaker.halfOpenSuccesses = w.current.succeeded.length ∧
    (∀ i ∈ w.current.succeeded, i ∈ w.current.probes) ∧ w.current.failed = []
  waited : ∀ p ∈ w.past, p.state = .opened →
    p.since + w.config.recoveryTimeout ≤ w.current.since

section Steps

variable {w : BreakerWorld} {b : BreakerState} {p : Period} {now : Nat}

/-- The period goes on; what is admitted anew comes a recovery timeout after each time the circuit has
opened. -/
theorem Protects.goesOn (h : w.Protects) (hstate : p.state = w.current.state)
    (hsince : p.since = w.current.since)
    (hadmitted : ∀ a ∈ p.admitted, a ∈ w.current.admitted ∨
      (p.state ≠ .opened ∧ ∀ older ∈ w.past, older.state = .opened →
        older.since + w.config.recoveryTimeout ≤ a.2))
    (calls : List CallPhase) (latest : Nat) :
    Protects { w with breaker := b, calls := calls, latest := latest, current := p } := by
  obtain ⟨hopened, hheld, hclosed⟩ := h
  constructor
  · intro q hq hstate' a ha
    rcases List.mem_cons.mp hq with rfl | hq
    · rcases hadmitted a ha with h | ⟨h, -⟩
      · show q.since + _ ≤ a.2
        rw [hsince]
        rw [hstate] at hstate'
        exact hopened w.current List.mem_cons_self hstate' a h
      · exact absurd hstate' h
    · exact hopened q (List.mem_cons_of_mem _ hq) hstate' a ha
  · obtain ⟨hnow, hpast⟩ := List.pairwise_cons.mp hheld
    refine List.pairwise_cons.mpr ⟨fun older holder hstate' a ha => ?_, hpast⟩
    rcases hadmitted a ha with h | ⟨-, h⟩
    · exact hnow older holder hstate' a h
    · exact h older holder hstate'
  · obtain ⟨hnow, hpast⟩ := List.isChain_cons.mp hclosed
    refine List.isChain_cons.mpr ⟨fun older holder hstate' => ?_, hpast⟩
    rw [hstate] at hstate'
    exact hnow older holder hstate'

/-- A new period begins, with no call in it yet. -/
theorem Protects.begins (h : w.Protects) {state : CircuitState}
    (hclosed : state = .closed →
      (Period.empty state now).Recovered w.config.halfOpenSuccessesNeeded w.current) :
    Protects
      { w with
        breaker := b
        latest := now
        current := .empty state now
        past := w.current :: w.past } := by
  obtain ⟨hopened, hheld, hchain⟩ := h
  constructor
  · intro q hq hstate a ha
    rcases List.mem_cons.mp hq with rfl | hq
    · exact absurd ha List.not_mem_nil
    · exact hopened q hq hstate a ha
  · exact List.pairwise_cons.mpr ⟨fun _ _ _ a ha => absurd ha List.not_mem_nil, hheld⟩
  · refine List.isChain_cons.mpr ⟨fun older holder hstate => ?_, hchain⟩
    cases holder
    exact hclosed hstate hstate

/-- A call is admitted to a circuit that is not open. -/
theorem Guarded.admit (h : w.Guarded) (hstate : w.breaker.state ≠ .opened) (hnow : w.latest ≤ now)
    (i : Nat) (calls : List CallPhase) :
    Guarded
      { w with
        latest := now
        calls := calls
        current := { w.current with admitted := w.current.admitted ++ [(i, now)] } } := by
  have hsince := h.since
  refine ⟨?_, h.state, Nat.le_trans hsince hnow, fun hopen => absurd hopen hstate, fun hhalf => ?_,
    h.waited⟩
  · refine h.protects.goesOn (p := { w.current with admitted := w.current.admitted ++ [(i, now)] })
      (b := w.breaker) rfl rfl (fun a ha => ?_) calls now
    rcases List.mem_append.mp ha with ha | ha
    · exact .inl ha
    · rw [List.mem_singleton.mp ha]
      refine .inr ⟨?_, fun older holder hopen => ?_⟩
      · show w.current.state ≠ .opened
        rw [h.state]
        exact hstate
      · have hwaited := h.waited older holder hopen
        show older.since + w.config.recoveryTimeout ≤ now
        omega
  · obtain ⟨hcount, hprobes, hfailed⟩ := h.probing hhalf
    refine ⟨hcount, fun j hj => ?_, hfailed⟩
    have hprobe := hprobes j hj
    show j ∈ (w.current.admitted ++ [(i, now)]).map (·.1)
    rw [List.map_append]
    exact List.mem_append_left _ hprobe

/-- Time passes without a change of the circuit. -/
theorem Guarded.later (h : w.Guarded) (hnow : w.latest ≤ now) (calls : List CallPhase) :
    Guarded { w with latest := now, calls := calls } :=
  ⟨h.protects.goesOn (b := w.breaker) rfl rfl (fun _ ha => .inl ha) calls now, h.state,
    Nat.le_trans h.since hnow, h.open_since, h.probing, h.waited⟩

/-- The circuit turns half open when the recovery timeout is over. -/
theorem Guarded.probe (h : w.Guarded)
    (hover : w.current.since + w.config.recoveryTimeout ≤ now) :
    Guarded
      { w with
        breaker := { w.breaker with state := .halfOpen, halfOpenSuccesses := 0 }
        latest := now
        current := .empty .halfOpen now
        past := w.current :: w.past } := by
  refine ⟨h.protects.begins nofun, rfl, Nat.le_refl _, nofun, fun _ => ?_, fun p hp hopen => ?_⟩
  · exact ⟨rfl, fun _ hi => absurd hi List.not_mem_nil, rfl⟩
  · show p.since + w.config.recoveryTimeout ≤ now
    rcases List.mem_cons.mp hp with rfl | hp
    · exact hover
    · have hwaited := h.waited p hp hopen
      omega

theorem Guarded.check (h : w.Guarded) (i : Nat) (hnow : w.latest ≤ now) :
    (w.step (.check i now)).Guarded := by
  by_cases harrived : w.calls[i]? = some .arrived
  · -- a circuit that is not open admits the call as it is
    have hplain (hstate : w.breaker.state ≠ .opened)
        (hallowed : w.breaker.checkAllowed w.config w.provider now = (.ok (), w.breaker)) :
        (w.step (.check i now)).Guarded := by
      simp only [step, harrived, hallowed]
      rw [turn, if_pos rfl]
      exact h.admit hstate hnow i _
    cases hstate : w.breaker.state with
    | closed =>
      refine hplain (by rw [hstate]; decide) ?_
      unfold BreakerState.checkAllowed
      rw [hstate]
    | halfOpen =>
      refine hplain (by rw [hstate]; decide) ?_
      unfold BreakerState.checkAllowed
      rw [hstate]
    | opened =>
      obtain ⟨hsince, -⟩ := h.open_since hstate
      simp only [step, harrived, BreakerState.checkAllowed, hstate, hsince]
      by_cases hover : w.config.recoveryTimeout ≤ now - w.current.since
      · simp only [if_pos hover]
        have hwaited : w.current.since + w.config.recoveryTimeout ≤ now := by
          have := h.since
          omega
        have hprobed := h.probe hwaited
        have hother : CircuitState.halfOpen ≠ w.breaker.state := by
          rw [hstate]
          decide
        have hprobing : CircuitState.halfOpen ≠ .opened := by decide
        rw [turn, if_neg hother]
        have hbreaker : { w.breaker with state := .halfOpen, halfOpenSuccesses := 0 } =
            (⟨.halfOpen, w.breaker.consecutiveFailures, some w.current.since, 0⟩ :
              BreakerState) := by
          rw [← hsince]
        rw [hbreaker] at hprobed
        exact hprobed.admit hprobing (Nat.le_refl _) i _
      · simp only [if_neg hover]
        rw [turn, if_pos rfl]
        exact h.later hnow _
  · simp only [step]
    exact h

/-- A success in a circuit that is not open; in a half open one it is that of a probe. -/
theorem Guarded.success (h : w.Guarded) (i : Nat) (hnow : w.latest ≤ now)
    (hstate : w.breaker.state ≠ .opened) (hprobe : w.breaker.state = .halfOpen → i ∈ w.current.probes)
    (calls : List CallPhase) :
    Guarded (turn { w with
      current := w.current.note i (.ok ())
      calls := calls } (w.breaker.recordSuccess w.config) now) := by
  have hnoted (b : BreakerState) (latest : Nat) := h.protects.goesOn (p := w.current.note i (.ok ()))
    (b := b) rfl rfl (fun _ ha => .inl ha) calls latest
  have hsince := Nat.le_trans h.since hnow
  unfold BreakerState.recordSuccess
  split
  next hclosed =>
    rw [turn, if_pos rfl]
    refine ⟨hnoted _ now, h.state, hsince, fun hopen => ?_, fun hhalf => ?_, h.waited⟩
    · cases hclosed.symm.trans hopen
    · cases hclosed.symm.trans hhalf
  next hhalf =>
    obtain ⟨hcount, hprobes, hfailed⟩ := h.probing hhalf
    have hall : ∀ j ∈ w.current.succeeded ++ [i], j ∈ w.current.probes := by
      intro j hj
      rcases List.mem_append.mp hj with hj | hj
      · exact hprobes j hj
      · rw [List.mem_singleton.mp hj]
        exact hprobe hhalf
    split
    next henough =>
      have hother : CircuitState.closed ≠ w.breaker.state := by
        rw [hhalf]
        decide
      rw [turn, if_neg hother]
      refine ⟨(hnoted w.breaker w.latest).begins fun _ _ => ⟨h.state.trans hhalf, ?_, ?_⟩, rfl,
        Nat.le_refl _, fun hopen => ?_, fun hprobing => ?_, fun p hp hopen => ?_⟩
      · show w.config.halfOpenSuccessesNeeded ≤
          (w.current.succeeded ++ [i]).countP (w.current.probes.contains ·)
        have hcountP : (w.current.succeeded ++ [i]).countP (w.current.probes.contains ·) =
            (w.current.succeeded ++ [i]).length := by
          rw [List.countP_eq_length]
          intro j hj
          exact List.contains_iff_mem.mpr (hall j hj)
        rw [hcountP, List.length_append, ← hcount]
        exact henough
      · show ∀ j ∈ w.current.failed, j ∉ w.current.probes
        rw [hfailed]
        exact fun _ hj => absurd hj List.not_mem_nil
      · cases hopen
      · cases hprobing
      · show p.since + w.config.recoveryTimeout ≤ now
        rcases List.mem_cons.mp hp with rfl | hp
        · have hopened : w.current.state = .opened := hopen
          rw [h.state] at hopened
          exact absurd hopened hstate
        · have hwaited := h.waited p hp hopen
          omega
    next =>
      rw [turn, if_pos rfl]
      refine ⟨hnoted _ now, h.state, hsince, fun hopen => absurd hopen hstate, fun _ => ?_, h.waited⟩
      refine ⟨?_, hall, hfailed⟩
      show w.breaker.halfOpenSuccesses + 1 = (w.current.succeeded ++ [i]).length
      rw [List.length_append, hcount]
      rfl
  next hopen => exact absurd hopen hstate

theorem Guarded.failure (h : w.Guarded) (i : Nat) (hnow : w.latest ≤ now) (err : LlmError)
    (calls : List CallPhase) :
    Guarded (turn { w with
      current := w.current.note i (.error err)
      calls := calls } (w.breaker.recordFailure w.config err now) now) := by
  have hsince := Nat.le_trans h.since hnow
  cases htransient : isTransient err with
  | false =>
    have hnote : w.current.note i (.error err) = w.current := by
      show (if isTransient err then _ else w.current) = w.current
      rw [htransient]
      rfl
    have hkept : w.breaker.recordFailure w.config err now = w.breaker := by
      unfold BreakerState.recordFailure
      rw [htransient]
      rfl
    rw [hnote, hkept, turn, if_pos rfl]
    exact h.later hnow calls
  | true =>
    have hnote : w.current.note i (.error err) =
        { w.current with failed := w.current.failed ++ [i] } := by
      show (if isTransient err then _ else w.current) = _
      rw [htransient]
      rfl
    have hnoted (b : BreakerState) (latest : Nat) := h.protects.goesOn
      (p := { w.current with failed := w.current.failed ++ [i] }) (b := b) rfl rfl
      (fun _ ha => .inl ha) calls latest
    -- the circuit opens
    have hopens (b : BreakerState) (hb : b.state = .opened) (hopenedAt : b.openedAt = some now)
        (hstate : w.breaker.state ≠ .opened) :
        Guarded (turn { w with
          current := { w.current with failed := w.current.failed ++ [i] }
          calls := calls } b now) := by
      have hother : b.state ≠ w.breaker.state := by
        rw [hb]
        exact hstate.symm
      rw [turn, if_neg hother]
      refine ⟨(hnoted w.breaker w.latest).begins fun hclosed => ?_, rfl, Nat.le_refl _,
        fun _ => ⟨hopenedAt, rfl⟩, fun hhalf => ?_, fun p hp hopen => ?_⟩
      · rw [hb] at hclosed
        cases hclosed
      · have hhalf' : b.state = .halfOpen := hhalf
        rw [hb] at hhalf'
        cases hhalf'
      · show p.since + w.config.recoveryTimeout ≤ now
        rcases List.mem_cons.mp hp with rfl | hp
        · have hopened : w.current.state = .opened := hopen
          rw [h.state] at hopened
          exact absurd hopened hstate
        · have hwaited := h.waited p hp hopen
          omega
    rw [hnote]
    cases hstate : w.breaker.state with
    | closed =>
      have hnot : w.breaker.state ≠ .opened := by
        rw [hstate]
        decide
      unfold BreakerState.recordFailure
      simp only [htransient, if_true, hstate]
      split
      next => exact hopens _ rfl rfl hnot
      next =>
        rw [turn, if_pos hstate.symm]
        refine ⟨hnoted _ now, h.state.trans hstate, hsince, fun hopen => ?_, fun hhalf => ?_, h.waited⟩
        · cases hopen
        · cases hhalf
    | halfOpen =>
      have hnot : w.breaker.state ≠ .opened := by
        rw [hstate]
        decide
      unfold BreakerState.recordFailure
      simp only [htransient, if_true, hstate]
      exact hopens _ rfl rfl hnot
    | opened =>
      have hkept : w.breaker.recordFailure w.config err now = w.breaker := by
        unfold BreakerState.recordFailure
        simp only [htransient, if_true, hstate]
      rw [hkept, turn, if_pos rfl]
      refine ⟨hnoted _ now, h.state, hsince, h.open_since, fun hhalf => ?_, h.waited⟩
      cases hstate.symm.trans hhalf

theorem Guarded.step (h : w.Guarded) {act : BreakerAct} (hact : w.RecordsProbes act) :
    (w.step act).Guarded := by
  cases act with
  | call => exact h.later (Nat.le_refl _) _
  | check i now => exact h.check i hact
  | answer i result now =>
    simp only [BreakerWorld.step]
    split
    next =>
      cases result with
      | ok _ => exact h.success i hact.1 hact.2.1 hact.2.2 _
      | error err => exact h.failure i hact err _
    next => exact h

theorem new_guarded (config : CircuitBreakerConfig) (provider : String) (start : Nat) :
    (BreakerWorld.new config provider start).Guarded := by
  refine ⟨⟨fun p hp hopen => ?_, List.pairwise_singleton _ _, List.isChain_singleton _⟩, rfl,
    Nat.le_refl _, nofun, nofun, fun _ hp => absurd hp List.not_mem_nil⟩
  rw [List.mem_singleton.mp hp] at hopen
  cases hopen

end Steps

end BreakerWorld

/-- Where no success is recorded while the circuit is open, and none but those of its probes while it
is half open, an open circuit admits no call before its timeout and closes after enough probes have
succeeded and none has failed. -/
theorem breaker_protects {config : CircuitBreakerConfig} {provider : String} {start : Nat}
    {w : BreakerWorld}
    (hw : Reached BreakerWorld.step BreakerWorld.RecordsProbes (.new config provider start) w) :
    w.Protects := by
  have hguarded : w.Guarded :=
    hw.invariant BreakerWorld.Guarded (BreakerWorld.new_guarded config provider start)
      fun _ _ hact h => h.step hact
  exact hguarded.protects

/-- One failure opens the circuit for thirty nanoseconds, two successes close it. -/
private def fragile : BreakerWorld := .new ⟨1, 30, 2⟩ "stub" 0

private def playBreaker (acts : List BreakerAct) : BreakerWorld :=
  acts.foldl BreakerWorld.step fragile

private def broken : Except LlmError Unit := .error (.requestFailed "stub" "down")

/-- The circuit opens, rejects a call, and closes after two probes. -/
private def recovery : List BreakerAct :=
  [.call, .check 0 1, .answer 0 broken 2, .call, .check 1 10, .call, .check 2 40, .call, .check 3 41,
    .answer 2 (.ok ()) 50, .answer 3 (.ok ()) 51]

theorem breaker_protects_recovery :
    (playBreaker recovery).history = [⟨.closed, 51, [], [], []⟩,
      ⟨.halfOpen, 40, [(2, 40), (3, 41)], [2, 3], []⟩, ⟨.opened, 2, [], [], []⟩,
        ⟨.closed, 0, [(0, 1)], [], [0]⟩] ∧ (playBreaker recovery).Protects := by
  have hreached : Reached BreakerWorld.step BreakerWorld.RecordsProbes fragile
      (playBreaker recovery) := .foldl recovery .start (by decide +kernel)
  exact ⟨by decide +kernel, breaker_protects hreached⟩

/-- A call admitted before the failure of another one succeeds after it. -/
private def lateSuccess : List BreakerAct :=
  [.call, .call, .check 0 1, .check 1 1, .answer 0 broken 2, .answer 1 (.ok ()) 3, .call, .check 2 4]

/-- Two calls admitted before the failure succeed while a probe is under way. -/
private def lateSuccesses : List BreakerAct :=
  [.call, .call, .call, .check 0 1, .check 1 1, .check 2 1, .answer 0 broken 2, .call, .check 3 40,
    .answer 1 (.ok ()) 41, .answer 2 (.ok ()) 42]

/-- A late success lets a call through two nanoseconds after the circuit has opened, and late successes
close a half open circuit without one of a probe. -/
theorem circuit_closed_by_late_success :
    (playBreaker lateSuccess).history = [⟨.closed, 3, [(2, 4)], [], []⟩, ⟨.opened, 2, [], [1], []⟩,
      ⟨.closed, 0, [(0, 1), (1, 1)], [], [0]⟩] ∧ ¬ (playBreaker lateSuccess).Protects ∧
    (playBreaker lateSuccesses).history = [⟨.closed, 42, [], [], []⟩,
      ⟨.halfOpen, 40, [(3, 40)], [1, 2], []⟩, ⟨.opened, 2, [], [], []⟩,
        ⟨.closed, 0, [(0, 1), (1, 1), (2, 1)], [], [0]⟩] ∧
      ¬ (playBreaker lateSuccesses).Protects := by
  have hfirst : (playBreaker lateSuccess).history = [⟨.closed, 3, [(2, 4)], [], []⟩,
      ⟨.opened, 2, [], [1], []⟩, ⟨.closed, 0, [(0, 1), (1, 1)], [], [0]⟩] := by decide +kernel
  have hsecond : (playBreaker lateSuccesses).history = [⟨.closed, 42, [], [], []⟩,
      ⟨.halfOpen, 40, [(3, 40)], [1, 2], []⟩, ⟨.opened, 2, [], [], []⟩,
        ⟨.closed, 0, [(0, 1), (1, 1), (2, 1)], [], [0]⟩] := by decide +kernel
  refine ⟨hfirst, fun h => ?_, hsecond, fun h => ?_⟩
  · have hheld := h.held
    rw [hfirst] at hheld
    have hlate : 2 + 30 ≤ 4 :=
      List.rel_of_pairwise_cons hheld List.mem_cons_self rfl (2, 4) List.mem_cons_self
    omega
  · have hclosed := h.closed
    rw [hsecond] at hclosed
    obtain ⟨-, hprobes, -⟩ := (List.isChain_cons_cons.mp hclosed).1 rfl
    revert hprobes
    decide

end Gyre.Llm
