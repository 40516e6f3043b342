/- digest: Tools, the registry that holds them, and what running one of them ends in. -/

import Gyre.Hooks.Registry
import Gyre.Llm.Provider
import Gyre.Safety.Validator

set_option autoImplicit false
set_option relaxedAutoImplicit false

namespace Gyre.Tools

open Gyre.Llm Gyre.Hooks Gyre.Safety

/-- A tool, as far as its callers look at it: `requiresApprovalFor` is asked about the parameters of
a call that would otherwise be auto-approved, and `executionTimeout` is the printed duration. -/
structure Tool where
  name : String
  description : String
  parametersSchema : Json
  requiresApproval : Bool
  requiresApprovalFor : Json → Bool
  executionTimeout : String

/-- The registered tools, one for each name. -/
structure ToolRegistry where
  tools : List Tool
  nodup : (tools.map (·.name)).Nodup

namespace ToolRegistry

def empty : ToolRegistry := ⟨[], List.nodup_nil⟩

def get (r : ToolRegistry) (name : String) : Option Tool :=
  r.tools.find? fun tool => decide (tool.name = name)

@[grind =] def toolDefinitions (r : ToolRegistry) : List ToolDefinition :=
  r.tools.map fun tool => ⟨tool.name, tool.description, tool.parametersSchema⟩

end ToolRegistry

/-- `ToolError`, with the variants the execution paths build. -/
inductive ToolError where
  | notFound (name : String)
  | executionFailed (name reason : String)
  | timeout (name duration : String)
  | invalidParameters (name reason : String)
  | authRequired (name : String)
  deriving DecidableEq, Repr

def ToolError.display : ToolError → String
  | .notFound name => s!"Tool {name} not found"
  | .executionFailed name reason => s!"Tool {name} execution failed: {reason}"
  | .timeout name duration => s!"Tool {name} timed out after {duration}"
  | .invalidParameters name reason => s!"Invalid parameters for tool {name}: {reason}"
  | .authRequired name => s!"Tool {name} requires authentication"

/-- What executing a tool ends in. -/
inductive ToolRun where
  | completed (result : Json)
  | failed (error : String)
  | timedOut
  deriving DecidableEq, Repr

/-- What the loops and execution paths do that can be seen from outside. -/
inductive LoopEvent where
  | requested (messages : List ChatMessage) (tools : List ToolDefinition)
  | hookRan (event : HookEvent) (answer : Except HookError HookOutcome)
  | executed (toolName : String) (params : Json)
  | callRecorded (toolName : String) (params : Json)
  | outcomeRecorded (outcome : Except String String)
  | authModeEntered (extension : String)
  deriving DecidableEq

/-- The validation errors as one text. -/
def validationDetails (r : ValidationResult) : String :=
  "; ".intercalate (r.errors.map fun e => e.field ++ ": " ++ e.message)

/-- The parameters a tool call goes on with: the hooks' replacement, unless it is not JSON. -/
def hookedParameters (serde : Serde) (params : Json) : HookOutcome → Json
  | .proceed (some newParams) => (serde.fromStr newParams).getD params
  | _ => params

/-- The end of every execution path: run the tool and print its result. -/
def runTool (serde : Serde) (tool : Tool) (toolName : String) : ToolRun → Except ToolError String
  | .completed result => .ok (serde.toStrPretty result)
  | .failed error => .error (.executionFailed toolName error)
  | .timedOut => .error (.timeout toolName tool.executionTimeout)

end Gyre.Tools
