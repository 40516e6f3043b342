/- digest: Validation of user input and of the strings inside tool parameters. -/

import Gyre.Lib.Text
import Gyre.Llm.Value

set_option autoImplicit false
set_option relaxedAutoImplicit false

namespace Gyre.Safety

open Gyre.Llm

inductive ValidationErrorCode where
  | empty
  | tooLong
  | tooShort
  | invalidEncoding
  deriving DecidableEq, Repr

structure ValidationError where
  field : String
  message : String
  code : ValidationErrorCode
  deriving DecidableEq, Repr

structure ValidationResult where
  isValid : Bool
  errors : List ValidationError
  warnings : List String
  deriving DecidableEq, Repr

namespace ValidationResult

def ok : ValidationResult := ⟨true, [], []⟩

def error (e : ValidationError) : ValidationResult := ⟨false, [e], []⟩

def withWarning (r : ValidationResult) (warning : String) : ValidationResult :=
  { r with warnings := r.warnings ++ [warning] }

def merge (a b : ValidationResult) : ValidationResult :=
  ⟨a.isValid && b.isValid, a.errors ++ b.errors, a.warnings ++ b.warnings⟩

end ValidationResult

/-- `Validator`; no caller forbids any pattern, so the set of forbidden patterns is left out. -/
structure Validator where
  maxLength : Nat
  minLength : Nat
  deriving DecidableEq, Repr

/-- The longest run of one character, and the length of the run the text starts with. -/
def repetition : List Char → Nat × Nat
  | [] => (1, 0)
  | [_] => (1, 1)
  | c :: d :: rest =>
    let (best, current) := repetition (d :: rest)
    let current := if c = d then current + 1 else 1
    (max best current, current)

/-- More than twenty equal characters in a row, in a text of at least fifty bytes. -/
def hasExcessiveRepetition (s : String) : Bool :=
  decide (50 ≤ s.utf8ByteSize) && decide (20 < (repetition s.toList).1)

namespace Validator

def new : Validator := ⟨100000, 1⟩

/-- Validate input text. The whitespace ratio is compared as an exact fraction. -/
def validate (v : Validator) (input : String) : ValidationResult :=
  let bytes := input.utf8ByteSize
  if bytes = 0 then .error ⟨"input", "Input cannot be empty", .empty⟩
  else
    let check (failed : Bool) (e : ValidationError) (r : ValidationResult) :=
      if failed then r.merge (.error e) else r
    let r := check (decide (v.maxLength < bytes))
      ⟨"input", s!"Input too long: {bytes} bytes (max {v.maxLength})", .tooLong⟩ .ok
    let r := check (decide (bytes < v.minLength))
      ⟨"input", s!"Input too short: {bytes} bytes (min {v.minLength})", .tooShort⟩ r
    let r := check (input.toList.contains '\x00')
      ⟨"input", "Input contains null bytes", .invalidEncoding⟩ r
    let r :=
      if 9 * bytes < 10 * input.toList.countP Lib.Text.isWhitespace ∧ 100 < bytes then
        r.withWarning "Input has unusually high whitespace ratio"
      else r
    if hasExcessiveRepetition input then
      r.withWarning "Input has excessive character repetition"
    else r

mutual

/-- `check_strings`: every string inside a JSON value, in order. -/
def checkStrings (v : Validator) (result : ValidationResult) : Json → ValidationResult
  | .string s => result.merge (v.validate s)
  | .array items => v.checkItems result items
  | .object fields => v.checkFields result fields
  | .null | .bool _ | .number _ => result

def checkItems (v : Validator) (result : ValidationResult) : List Json → ValidationResult
  | [] => result
  | item :: rest => v.checkItems (v.checkStrings result item) rest

def checkFields (v : Validator) (result : ValidationResult) :
    List (String × Json) → ValidationResult
  | [] => result
  | (_, value) :: rest => v.checkFields (v.checkStrings result value) rest

end

/-- Validate tool parameters. -/
def validateToolParams (v : Validator) (params : Json) : ValidationResult :=
  v.checkStrings .ok params

end Validator

end Gyre.Safety
