/- digest: Failover over several providers, with a cooldown for those that fail repeatedly. -/

import Mathlib.Data.List.MinMax
import Mathlib.Order.Nat
import Gyre.Llm.Provider

set_option autoImplicit false
set_option relaxedAutoImplicit false

namespace Gyre.Llm

universe u

structure CooldownConfig where
  /-- In nanoseconds. -/
  cooldownDuration : Nat
  /-- Consecutive retryable failures before the cooldown is activated. -/
  failureThreshold : UInt32
  deriving DecidableEq, Repr

/-- Errors after which the next provider is tried. -/
def isRetryable : LlmError → Bool
  | .requestFailed _ _ | .rateLimited _ _ | .invalidResponse _ _ | .sessionRenewalFailed _ _
  | .modelNotAvailable _ _ | .http _ | .io _ => true
  | .contextLengthExceeded _ _ | .authFailed _ | .sessionExpired _ | .json _ => false

/-- `as_nanos() as u64`. -/
def nanos64 (nanos : Nat) : UInt64 := UInt64.ofNat nanos

structure ProviderCooldown where
  failureCount : UInt32
  /-- Zero means that the provider is not in cooldown. -/
  cooldownActivatedNanos : UInt64
  deriving DecidableEq, Repr

namespace ProviderCooldown

def new : ProviderCooldown := ⟨0, 0⟩

def isInCooldown (c : ProviderCooldown) (now cooldown : UInt64) : Bool :=
  c.cooldownActivatedNanos != 0 &&
    decide (now.toNat - c.cooldownActivatedNanos.toNat < cooldown.toNat)

/-- `record_failure`, with whether the threshold is reached. -/
def recordFailure (c : ProviderCooldown) (threshold : UInt32) : Bool × ProviderCooldown :=
  (decide (threshold ≤ c.failureCount + 1), { c with failureCount := c.failureCount + 1 })

def activateCooldown (c : ProviderCooldown) (now : UInt64) : ProviderCooldown :=
  { c with cooldownActivatedNanos := if now = 0 then 1 else now }

def reset : ProviderCooldown := ⟨0, 0⟩

end ProviderCooldown

/-- What a provider answers, and when, in nanoseconds since the epoch of the failover. -/
structure Answer (α : Type u) where
  result : Except LlmError α
  time : Nat

/-- The answer is returned; no other provider is tried. -/
def Answer.isFinal {α : Type u} (answer : Answer α) : Bool :=
  match answer.result with
  | .ok _ => true
  | .error err => !isRetryable err

/-- The state of a `FailoverProvider`, which has at least one provider. -/
structure Failover where
  config : CooldownConfig
  cooldowns : List ProviderCooldown
  lastUsed : Nat
  inhabited : 0 < cooldowns.length

namespace Failover

variable {α : Type u}

/-- `with_cooldown`. -/
def withCooldown (providers : Nat) (config : CooldownConfig) : Except LlmError Failover :=
  if h : 0 < providers then
    .ok ⟨config, List.replicate providers .new, 0, by rwa [List.length_replicate]⟩
  else .error (.requestFailed "failover" "FailoverProvider requires at least one provider")

def setCooldown (f : Failover) (i : Nat) (c : ProviderCooldown) : Failover :=
  { f with
    cooldowns := f.cooldowns.set i c
    inhabited := by
      rw [List.length_set]
      exact f.inhabited }

def cooldown (f : Failover) (i : Nat) : ProviderCooldown := f.cooldowns.getD i .new

def isCooling (f : Failover) (i : Nat) (now : Nat) : Bool :=
  (f.cooldown i).isInCooldown (nanos64 now) (nanos64 f.config.cooldownDuration)

/-- The provider with the oldest cooldown activation. -/
def oldest (f : Failover) : Option Nat :=
  (List.range f.cooldowns.length).argmin fun i => (f.cooldown i).cooldownActivatedNanos.toNat

/-- The providers a request tries, in order. -/
def available (f : Failover) (now : Nat) : List Nat :=
  let free := (List.range f.cooldowns.length).filter fun i => !f.isCooling i now
  if free.isEmpty then f.oldest.toList else free

/-- What a provider's answer leaves. -/
def record (f : Failover) (i : Nat) (answer : Answer α) : Failover :=
  match answer.result with
  | .ok _ => { f.setCooldown i .reset with lastUsed := i }
  | .error err =>
    if isRetryable err then
      match (f.cooldown i).recordFailure f.config.failureThreshold with
      | (true, c) => f.setCooldown i (c.activateCooldown (nanos64 answer.time))
      | (false, c) => f.setCooldown i c
    else f

/-- The error where no provider was tried. -/
def noProviderTried : LlmError :=
  .requestFailed "failover" ("Invariant violated in FailoverProvider: providers were exhausted but " ++
    "no last_error was recorded (this branch should be unreachable; possible causes: no provider " ++
      "attempts were made or `available` was unexpectedly empty).")

/-- The loop of `try_providers`: what it returns, the providers it calls and the state it leaves. -/
def tryEach (answers : Nat → Answer α) :
    (f : Failover) → (lastError : Option LlmError) → List Nat →
      Except LlmError α × List Nat × Failover
  | f, lastError, [] => (.error (lastError.getD noProviderTried), [], f)
  | f, _, i :: rest =>
    match (answers i).result with
    | .ok response => (.ok response, [i], f.record i (answers i))
    | .error err =>
      if isRetryable err then
        let (result, called, last) := tryEach answers (f.record i (answers i)) (some err) rest
        (result, i :: called, last)
      else (.error err, [i], f)

/-- `try_providers`, for a request at a time. -/
def tryProviders (f : Failover) (now : Nat) (answers : Nat → Answer α) :
    Except LlmError α × List Nat × Failover :=
  tryEach answers f none (f.available now)

end Failover

end Gyre.Llm
