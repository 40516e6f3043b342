/- digest: The worker that runs inside a container: its tool calls and its loop. -/

import Gyre.Llm.Reasoning
import Gyre.Tools.Tool
import Gyre.Util

set_option autoImplicit false
set_option relaxedAutoImplicit false

namespace Gyre.Worker

open Gyre.Llm Gyre.Tools

/-- What one tool call meets in the container, where there are no hooks and no approvals. -/
structure CallWorld where
  tools : ToolRegistry
  run : ToolRun

/-- `WorkerRuntime::execute_tool`. -/
def executeTool (deps : Deps) (w : CallWorld) (toolName : String) (params : Json) :
    Except String String × List LoopEvent :=
  match w.tools.get toolName with
  | none => (.error s!"tool '{toolName}' not found", [])
  | some _ =>
    let validation := deps.validator.validateToolParams params
    if !validation.isValid then
      let details := validationDetails validation
      (.error s!"invalid parameters: {details}", [])
    else
      match w.run with
      | .completed result => (.ok (deps.serde.toStrPretty result), [.executed toolName params])
      | .failed error => (.error error, [.executed toolName params])
      | .timedOut => (.error "tool execution timed out", [.executed toolName params])

/-- `process_result`: what the model gets to see of an outcome. -/
def resultContent (deps : Deps) (toolName : String) : Except String String → String
  | .ok output => deps.wrapToolOutput toolName output
  | .error e => s!"Error: {e}"

/-- The local variables of the loop. -/
structure RuntimeState where
  context : List ChatMessage
  iteration : Nat
  lastOutput : String

inductive RuntimePhase where
  | running (st : RuntimeState)
  | ended (result : Except String String)

/-- What one iteration meets; `prompt` is a follow-up of the user that was waiting. -/
structure RuntimeWorld where
  prompt : Option String
  tools : ToolRegistry
  systemPrompt : String
  selectAnswer : LlmAnswer
  respondAnswer : LlmAnswer
  calls : Nat → CallWorld

/-- `poll_and_inject_prompt`. -/
def injectPrompt (context : List ChatMessage) : Option String → List ChatMessage
  | some prompt => context ++ [.user prompt]
  | none => context

/-- Execute selections in order, adding results to the context and keeping the last output. -/
@[grind =] def runSelections (deps : Deps) (worlds : Nat → CallWorld) :
    Nat → RuntimeState → List ToolSelection → RuntimeState × List LoopEvent
  | _, st, [] => (st, [])
  | i, st, selection :: rest =>
    let executed := executeTool deps (worlds i) selection.toolName selection.parameters
    let result := ChatMessage.toolResult selection.toolCallId selection.toolName
      (resultContent deps selection.toolName executed.1)
    let lastOutput :=
      match executed.1 with
      | .ok output => output
      | .error _ => st.lastOutput
    let after := runSelections deps worlds (i + 1)
      { st with context := st.context ++ [result], lastOutput := lastOutput } rest
    (after.1, executed.2 ++ after.2)

/-- What the loop does when no tool was selected and the model was asked directly. -/
@[grind =] def handleAnswer (deps : Deps) (st : RuntimeState) (calls : Nat → CallWorld) :
    RespondResult → RuntimePhase × List LoopEvent
  | .text response =>
    if Util.llmSignalsCompletion response then
      (.ended (.ok (if st.lastOutput.isEmpty then response else st.lastOutput)), [])
    else (.running { st with context := st.context ++ [.assistant response] }, [])
  | .toolCalls toolCalls content =>
    let batch := runSelections deps calls 0
      { st with context := st.context ++ [.assistantWithToolCalls content toolCalls] }
      (toolCalls.map fun tc => ⟨tc.name, tc.arguments, "", tc.id⟩)
    (.running batch.1, batch.2)

/-- One iteration of `WorkerRuntime::execution_loop`. -/
def runtimeIteration (deps : Deps) (maxIterations : Nat) (st : RuntimeState) (w : RuntimeWorld) :
    RuntimePhase × List LoopEvent :=
  if st.iteration ≥ maxIterations then
    (.ended (.error s!"Worker execution failed: max iterations ({maxIterations}) exceeded"), [])
  else
    let st := { st with
      iteration := st.iteration + 1, context := injectPrompt st.context w.prompt }
    let tools := w.tools.toolDefinitions
    let selecting := if tools.isEmpty then [] else [LoopEvent.requested st.context tools]
    match selectTools tools w.selectAnswer with
    | .error e =>
      (.ended (.error s!"Worker execution failed: tool selection failed: {e}"),
        selecting)
    | .ok [] =>
      let request := LoopEvent.requested (.system w.systemPrompt :: st.context) tools
      match respondWithTools deps tools w.respondAnswer with
      | .error e =>
        (.ended (.error s!"Worker execution failed: respond_with_tools failed: {e}"),
          selecting ++ [request])
      | .ok result =>
        let handled := handleAnswer deps st w.calls result
        (handled.1, selecting ++ request :: handled.2)
    | .ok selections =>
      let batch := runSelections deps w.calls 0 st selections
      (.running batch.1, selecting ++ batch.2)

def runtimeStep (deps : Deps) (maxIterations : Nat) :
    RuntimePhase → RuntimeWorld → RuntimePhase × List LoopEvent
  | .running st, w => runtimeIteration deps maxIterations st w
  | .ended result, _ => (.ended result, [])

/-- The container's loop before its first iteration. -/
def runtimeStart (title description : String) : RuntimePhase :=
  .running ⟨[.system ("You are an autonomous agent running inside a Docker container.\n\n" ++
    s!"Job: {title}\nDescription: {description}\n\n" ++
    "You have tools for shell commands, file operations, and code editing.\n" ++
    "Work independently to complete this job. Report when done.")], 0, ""⟩

end Gyre.Worker
