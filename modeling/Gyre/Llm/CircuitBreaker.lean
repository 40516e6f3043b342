/- digest: The circuit breaker in front of a provider, and calls through it side by side. -/

import Mathlib.Data.List.Basic
import Gyre.Llm.Provider

/-!
A call is checked, goes to the inner provider, and has its outcome recorded. Check and record hold the
breaker's lock; between them other calls come and go. Instants are in nanoseconds.
-/

set_option autoImplicit false
set_option relaxedAutoImplicit false

namespace Gyre.Llm

structure CircuitBreakerConfig where
  /-- Consecutive transient failures before the circuit opens. -/
  failureThreshold : Nat
  recoveryTimeout : Nat
  /-- Successful probes needed in half-open to close the circuit. -/
  halfOpenSuccessesNeeded : Nat
  deriving DecidableEq, Repr

inductive CircuitState where
  | closed
  | opened
  | halfOpen
  deriving DecidableEq, Repr

structure BreakerState where
  state : CircuitState
  consecutiveFailures : Nat
  openedAt : Option Nat
  halfOpenSuccesses : Nat
  deriving DecidableEq, Repr

/-- Errors that indicate that the provider is degraded. -/
def isTransient : LlmError → Bool
  | .requestFailed _ _ | .rateLimited _ _ | .invalidResponse _ _ | .sessionExpired _
  | .sessionRenewalFailed _ _ | .http _ | .json _ | .io _ => true
  | .contextLengthExceeded _ _ | .modelNotAvailable _ _ | .authFailed _ => false

/-- A duration in whole seconds, as `{:.0}` rounds them. -/
def wholeSeconds (nanos : Nat) : Nat :=
  let seconds := nanos / 1000000000
  let rest := nanos % 1000000000
  if rest < 500000000 ∨ rest = 500000000 ∧ seconds % 2 = 0 then seconds else seconds + 1

namespace BreakerState

def new : BreakerState := ⟨.closed, 0, none, 0⟩

/-- `check_allowed`. -/
def checkAllowed (b : BreakerState) (config : CircuitBreakerConfig) (provider : String) (now : Nat) :
    Except LlmError Unit × BreakerState :=
  match b.state with
  | .closed | .halfOpen => (.ok (), b)
  | .opened =>
    match b.openedAt with
    | some openedAt =>
      if config.recoveryTimeout ≤ now - openedAt then
        (.ok (), { b with state := .halfOpen, halfOpenSuccesses := 0 })
      else
        let remaining := config.recoveryTimeout - (now - openedAt)
        let reason := s!"Circuit breaker open ({b.consecutiveFailures} consecutive failures, " ++
          s!"recovery in {wholeSeconds remaining}s)"
        (.error (.requestFailed provider reason), b)
    | none => (.ok (), { b with state := .closed })

/-- `record_success`. -/
def recordSuccess (b : BreakerState) (config : CircuitBreakerConfig) : BreakerState :=
  match b.state with
  | .closed => { b with consecutiveFailures := 0 }
  | .halfOpen =>
    if config.halfOpenSuccessesNeeded ≤ b.halfOpenSuccesses + 1 then
      ⟨.closed, 0, none, b.halfOpenSuccesses + 1⟩
    else { b with halfOpenSuccesses := b.halfOpenSuccesses + 1 }
  | .opened => { b with state := .closed, consecutiveFailures := 0, openedAt := none }

/-- `record_failure`. -/
def recordFailure (b : BreakerState) (config : CircuitBreakerConfig) (err : LlmError) (now : Nat) :
    BreakerState :=
  if isTransient err then
    match b.state with
    | .closed =>
      if config.failureThreshold ≤ b.consecutiveFailures + 1 then
        ⟨.opened, b.consecutiveFailures + 1, some now, b.halfOpenSuccesses⟩
      else { b with consecutiveFailures := b.consecutiveFailures + 1 }
    | .halfOpen => { b with state := .opened, openedAt := some now, halfOpenSuccesses := 0 }
    | .opened => b
  else b

end BreakerState

inductive CallPhase where
  | arrived
  /-- With the inner provider. -/
  | admitted
  | rejected (err : LlmError)
  | answered (result : Except LlmError Unit)

/-- A stretch of time in which the circuit keeps its state, and what happens in it. -/
structure Period where
  state : CircuitState
  since : Nat
  /-- The calls admitted, each with its time. -/
  admitted : List (Nat × Nat)
  succeeded : List Nat
  /-- The calls that failed with a transient error. -/
  failed : List Nat
  deriving DecidableEq, Repr

/-- The breaker, the calls through it, and the periods so far, the last one first. -/
structure BreakerWorld where
  config : CircuitBreakerConfig
  provider : String
  breaker : BreakerState
  calls : List CallPhase
  latest : Nat
  current : Period
  past : List Period

inductive BreakerAct where
  | call
  | check (call now : Nat)
  /-- The inner provider has answered, and the outcome is recorded. -/
  | answer (call : Nat) (result : Except LlmError Unit) (now : Nat)

def Period.empty (state : CircuitState) (since : Nat) : Period := ⟨state, since, [], [], []⟩

/-- The outcome of a call. -/
def Period.note (p : Period) (call : Nat) : Except LlmError Unit → Period
  | .ok () => { p with succeeded := p.succeeded ++ [call] }
  | .error err => if isTransient err then { p with failed := p.failed ++ [call] } else p

namespace BreakerWorld

def new (config : CircuitBreakerConfig) (provider : String) (start : Nat) : BreakerWorld where
  config := config
  provider := provider
  breaker := .new
  calls := []
  latest := start
  current := .empty .closed start
  past := []

def history (w : BreakerWorld) : List Period := w.current :: w.past

/-- The breaker after a section; a new period begins where its state changes. -/
def turn (w : BreakerWorld) (b : BreakerState) (now : Nat) : BreakerWorld :=
  if b.state = w.breaker.state then { w with breaker := b, latest := now }
  else
    { w with
      breaker := b
      latest := now
      current := .empty b.state now
      past := w.current :: w.past }

def step (w : BreakerWorld) : BreakerAct → BreakerWorld
  | .call => { w with calls := w.calls ++ [.arrived] }
  | .check i now =>
    match w.calls[i]? with
    | some .arrived =>
      match w.breaker.checkAllowed w.config w.provider now with
      | (.ok (), b) =>
        let turned := w.turn b now
        { turned with
          calls := w.calls.set i .admitted
          current := { turned.current with admitted := turned.current.admitted ++ [(i, now)] } }
      | (.error err, b) => { w.turn b now with calls := w.calls.set i (.rejected err) }
    | _ => w
  | .answer i result now =>
    match w.calls[i]? with
    | some .admitted =>
      let b := match result with
        | .ok () => w.breaker.recordSuccess w.config
        | .error err => w.breaker.recordFailure w.config err now
      let noted := { w with
        current := w.current.note i result
        calls := w.calls.set i (.answered result) }
      noted.turn b now
    | _ => w

end BreakerWorld

end Gyre.Llm
