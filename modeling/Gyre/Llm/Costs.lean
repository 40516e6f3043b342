/- digest: What a call to a model costs, from the table of known prices. -/

import Gyre.Lib.Text

set_option autoImplicit false
set_option relaxedAutoImplicit false

namespace Gyre.Llm.Costs

open Gyre.Lib

/-- The part of an identifier after its last slash. -/
def withoutProvider (modelId : List Char) : List Char :=
  (modelId.reverse.takeWhile (· != '/')).reverse

def localPrefixes : List String :=
  ["llama", "mistral", "mixtral", "phi", "gemma", "qwen", "codellama", "deepseek", "starcoder",
    "vicuna", "yi"]

/-- `is_local_model`. -/
def isLocalModel (modelId : List Char) : Bool :=
  let lower := Text.toLowercase modelId
  localPrefixes.any (fun p => p.toList.isPrefixOf lower) ||
    Text.contains ":latest".toList lower || Text.contains ":instruct".toList lower

/-- Known costs of an input and an output token. An amount of dollars is an exact number of
hundred-millionths here, the last digit that any of these prices has. -/
def modelCost (modelId : String) : Option (Nat × Nat) :=
  let id := withoutProvider modelId.toList
  match String.ofList id with
  | "gpt-4o" | "gpt-4o-2024-11-20" | "gpt-4o-2024-08-06" => some (250, 1000)
  | "gpt-4o-mini" | "gpt-4o-mini-2024-07-18" => some (15, 60)
  | "gpt-4-turbo" | "gpt-4-turbo-2024-04-09" => some (1000, 3000)
  | "gpt-4" | "gpt-4-0613" => some (3000, 6000)
  | "gpt-3.5-turbo" | "gpt-3.5-turbo-0125" => some (50, 150)
  | "o1" | "o1-2024-12-17" => some (1500, 6000)
  | "o1-mini" | "o1-mini-2024-09-12" => some (300, 1200)
  | "o3-mini" | "o3-mini-2025-01-31" => some (110, 440)
  | "claude-3-5-sonnet-20241022" | "claude-3-5-sonnet-latest" | "claude-sonnet-4-20250514" =>
    some (300, 1500)
  | "claude-3-5-haiku-20241022" | "claude-3-5-haiku-latest" => some (80, 400)
  | "claude-3-opus-20240229" | "claude-3-opus-latest" | "claude-opus-4-20250514" =>
    some (1500, 7500)
  | "claude-3-haiku-20240307" => some (25, 125)
  | _ => if isLocalModel id then some (0, 0) else none

/-- The costs assumed for a model that is not in the table. -/
def defaultCost : Nat × Nat := (250, 1000)

/-- The cost of a call. -/
def callCost (modelId : String) (inputTokens outputTokens : UInt32) : Nat :=
  let rates := (modelCost modelId).getD defaultCost
  rates.1 * inputTokens.toNat + rates.2 * outputTokens.toNat

end Gyre.Llm.Costs
