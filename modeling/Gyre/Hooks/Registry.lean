/- digest: Lifecycle hooks and the chain the registry runs for an event. -/

import Gyre.Llm.Value

set_option autoImplicit false
set_option relaxedAutoImplicit false

namespace Gyre.Hooks

open Gyre.Llm

/-- Points in the agent lifecycle where hooks can be attached. -/
inductive HookPoint where
  | beforeInbound
  | beforeToolCall
  | beforeOutbound
  | onSessionStart
  | onSessionEnd
  | transformResponse
  deriving DecidableEq, Repr

inductive HookEvent where
  | inbound (userId channel content : String) (threadId : Option String)
  | toolCall (toolName : String) (parameters : Json) (userId context : String)
  | outbound (userId channel content : String) (threadId : Option String)
  | sessionStart (userId sessionId : String)
  | sessionEnd (userId sessionId : String) (threadIds : List Uuid)
  | responseTransform (userId threadId response : String)
  deriving DecidableEq, Repr

namespace HookEvent

def hookPoint : HookEvent → HookPoint
  | .inbound .. => .beforeInbound
  | .toolCall .. => .beforeToolCall
  | .outbound .. => .beforeOutbound
  | .sessionStart .. => .onSessionStart
  | .sessionEnd .. => .onSessionEnd
  | .responseTransform .. => .transformResponse

/-- Replace the primary content of an event; text that is not JSON leaves a tool call as it was, and
session events have nothing to replace. -/
def applyModification (serde : Serde) (modified : String) : HookEvent → HookEvent
  | .inbound user channel _ thread => .inbound user channel modified thread
  | .outbound user channel _ thread => .outbound user channel modified thread
  | .toolCall tool parameters user context =>
    .toolCall tool ((serde.fromStr modified).getD parameters) user context
  | .responseTransform user thread _ => .responseTransform user thread modified
  | .sessionStart user session => .sessionStart user session
  | .sessionEnd user session threads => .sessionEnd user session threads

/-- `extract_content`: the primary content of an event as text. -/
def extractContent (serde : Serde) : HookEvent → String
  | .inbound _ _ content _ => content
  | .outbound _ _ content _ => content
  | .toolCall _ parameters _ _ => serde.toStr parameters
  | .responseTransform _ _ response => response
  | .sessionStart _ session => session
  | .sessionEnd _ session _ => session

end HookEvent

inductive HookOutcome where
  | proceed (modified : Option String)
  | reject (reason : String)
  deriving DecidableEq, Repr

inductive HookFailureMode where
  | failOpen
  | failClosed
  deriving DecidableEq, Repr

/-- Why a chain stopped; a timeout keeps the text its duration prints as. -/
inductive HookError where
  | executionFailed (reason : String)
  | timeout (after : String)
  | rejected (reason : String)
  deriving DecidableEq, Repr

def HookError.display : HookError → String
  | .executionFailed reason => s!"Hook execution failed: {reason}"
  | .timeout after => s!"Hook timed out after {after}"
  | .rejected reason => s!"Hook rejected: {reason}"

/-- What waiting for one hook ends in. -/
inductive HookRun where
  | finished (outcome : HookOutcome)
  | failed (error : HookError)
  | timedOut
  deriving DecidableEq, Repr

/-- A lifecycle hook. `timeout` is the printed form of the time it is given; whether it runs out is
part of what `execute` answers. -/
structure Hook where
  name : String
  hookPoints : List HookPoint
  failureMode : HookFailureMode
  timeout : String
  trustedTools : List String
  execute : HookEvent → HookRun

/-- The registered hooks in priority order. -/
abbrev HookRegistry := List Hook

/-- Whether any registered hook vouches for the tool. -/
def isToolTrusted (hooks : HookRegistry) (toolName : String) : Bool :=
  hooks.any fun hook => hook.trustedTools.any (· == toolName)

/-- Feed the event through the hooks, each seeing it as its predecessors left it. -/
def runChain (serde : Serde) : List Hook → HookEvent → Except HookError HookEvent
  | [], event => .ok event
  | hook :: rest, event =>
    match hook.execute event with
    | .finished (.reject reason) => .error (.rejected reason)
    | .finished (.proceed (some value)) => runChain serde rest (event.applyModification serde value)
    | .finished (.proceed none) => runChain serde rest event
    | .failed err =>
      match hook.failureMode with
      | .failOpen => runChain serde rest event
      | .failClosed =>
        .error (.executionFailed s!"Hook '{hook.name}' failed: {err.display}")
    | .timedOut =>
      match hook.failureMode with
      | .failOpen => runChain serde rest event
      | .failClosed => .error (.timeout hook.timeout)

/-- `HookRegistry::run`: the outcome carries the event's final content when it differs from the
original. -/
def run (serde : Serde) (hooks : HookRegistry) (event : HookEvent) : Except HookError HookOutcome :=
  let relevant := hooks.filter fun hook => hook.hookPoints.contains event.hookPoint
  match runChain serde relevant event with
  | .error err => .error err
  | .ok final =>
    let modified := final.extractContent serde
    if modified ≠ event.extractContent serde then .ok (.proceed (some modified))
    else .ok (.proceed none)

/-- With nothing registered an event passes unchanged. -/
@[simp] theorem run_nil (serde : Serde) (event : HookEvent) :
    run serde [] event = .ok (.proceed none) := by
  simp [run, runChain]

end Gyre.Hooks
