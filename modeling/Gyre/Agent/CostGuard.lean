/- digest: The guard of the daily budget and the hourly rate of model calls. -/

import Gyre.Llm.Costs
import Mathlib.Algebra.Group.Nat.Defs

/-!
The guard keeps the total of one day and a flag that this total has reached the limit. Recording a
call moves both to the current day; checking looks at them as they are.
-/

set_option autoImplicit false
set_option relaxedAutoImplicit false

namespace Gyre.Agent

open Gyre.Llm.Costs

/-- `date_naive`: the day of a point in time, which is a number of nanoseconds since the start of
1970 (UTC). -/
def dateOf (now : Nat) : Nat := now / (86400 * 10 ^ 9)

def anHour : Nat := 3600 * 10 ^ 9

structure CostGuardConfig where
  maxCostPerDayCents : Option UInt64
  maxActionsPerHour : Option UInt64
  deriving DecidableEq, Repr

inductive CostLimitExceeded where
  | dailyBudget (spentCents limitCents : Nat)
  | hourlyRate (actions limit : Nat)
  deriving DecidableEq, Repr

/-- Cents as dollars with two digits, rounding in floating point aside. -/
def dollars (cents : Nat) : String :=
  s!"{cents / 100}.{cents % 100 / 10}{cents % 10}"

def CostLimitExceeded.display : CostLimitExceeded → String
  | .dailyBudget spentCents limitCents =>
    s!"Daily cost limit exceeded: spent ${dollars spentCents} of ${dollars limitCents} allowed"
  | .hourlyRate actions limit =>
    s!"Hourly action limit exceeded: {actions} actions of {limit} allowed per hour"

structure CostGuard where
  total : Nat
  resetDate : Nat
  actionWindow : List Nat
  budgetExceeded : Bool
  deriving DecidableEq, Repr

namespace CostGuard

def new (now : Nat) : CostGuard := ⟨0, dateOf now, [], false⟩

end CostGuard

/-- Whole cents of an amount. -/
def cents (usd : Nat) : Nat := usd / 10 ^ 6

/-- `to_cents`: an amount of cents that does not fit 64 bits counts as none. -/
def toCents (usd : Nat) : Nat := if cents usd < 2 ^ 64 then cents usd else 0

/-- The hourly part of `check_allowed`. -/
def checkHourly (config : CostGuardConfig) (s : CostGuard) (now : Nat) :
    CostGuard × Except CostLimitExceeded Unit :=
  match config.maxActionsPerHour with
  | none => (s, .ok ())
  | some limit =>
    let window := s.actionWindow.dropWhile fun t => decide (t < now - anHour)
    let s := { s with actionWindow := window }
    if window.length ≥ limit.toNat then (s, .error (.hourlyRate window.length limit.toNat))
    else (s, .ok ())

/-- `check_allowed`. -/
def checkAllowed (config : CostGuardConfig) (s : CostGuard) (now : Nat) :
    CostGuard × Except CostLimitExceeded Unit :=
  if s.budgetExceeded then
    (s, .error (.dailyBudget (toCents s.total) (config.maxCostPerDayCents.getD 0).toNat))
  else
    match config.maxCostPerDayCents with
    | none => checkHourly config s now
    | some limit =>
      if toCents s.total ≥ limit.toNat then
        ({ s with budgetExceeded := true },
          .error (.dailyBudget (toCents s.total) limit.toNat))
      else checkHourly config s now

/-- The total moves to the current day. -/
def rollOver (s : CostGuard) (now : Nat) : CostGuard :=
  if dateOf now ≠ s.resetDate then
    { s with total := 0, resetDate := dateOf now, budgetExceeded := false }
  else s

/-- `record_llm_call`. -/
def recordLlmCall (config : CostGuardConfig) (s : CostGuard) (now : Nat) (cost : Nat) :
    CostGuard :=
  let s := rollOver s now
  let total := s.total + cost
  let crossed :=
    match config.maxCostPerDayCents with
    | none => false
    | some limit => decide (toCents total ≥ limit.toNat)
  { s with
    total := total
    budgetExceeded := s.budgetExceeded || crossed
    actionWindow := s.actionWindow ++ [now] }

/-- `daily_spend`. -/
def dailySpend (s : CostGuard) (now : Nat) : Nat :=
  if dateOf now ≠ s.resetDate then 0 else s.total

inductive GuardOp where
  | check (now : Nat)
  | record (now : Nat) (model : String) (inputTokens outputTokens : UInt32)
  deriving DecidableEq, Repr

def GuardOp.time : GuardOp → Nat
  | .check now => now
  | .record now _ _ _ => now

def guardStep (config : CostGuardConfig) (s : CostGuard) :
    GuardOp → CostGuard × List (Except CostLimitExceeded Unit)
  | .check now =>
    let checked := checkAllowed config s now
    (checked.1, [checked.2])
  | .record now model inputTokens outputTokens =>
    (recordLlmCall config s now (callCost model inputTokens outputTokens), [])

end Gyre.Agent
