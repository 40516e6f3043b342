/- digest: The parameters of built-in tools and the errors of calling one. -/

import Gyre.Llm.Value
import Mathlib.Algebra.Group.Int.Defs
import Mathlib.Algebra.Group.Nat.Defs

set_option autoImplicit false
set_option relaxedAutoImplicit false

namespace Gyre.Tools.Builtin

open Gyre.Llm

/-- `ToolError`, with the variants the file and shell tools build. -/
inductive CallError where
  | invalidParameters (reason : String)
  | executionFailed (reason : String)
  | timeout (seconds : Nat)
  | notAuthorized (reason : String)
  deriving DecidableEq, Repr

/-- `require_str`. -/
def requireStr (params : Json) (name : String) : Except CallError String :=
  match (params.get name).bind Json.asStr with
  | some s => .ok s
  | none => .error (.invalidParameters s!"missing '{name}' parameter")

/-- `Value::as_u64`. -/
def asU64 : Json → Option Nat
  | .number (.int n) => if 0 ≤ n ∧ n < 2 ^ 64 then some n.toNat else none
  | _ => none

theorem asU64_lt {v : Json} {n : Nat} (h : asU64 v = some n) : n < 2 ^ 64 := by
  unfold asU64 at h
  split at h
  · split at h
    · cases h
      omega
    · cases h
  · cases h

end Gyre.Tools.Builtin
