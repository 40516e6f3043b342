/- digest: The background worker: its gate before a tool call, its loop and its plans, and the scheduler's subtasks. -/

import Gyre.Context.Lifecycle
import Gyre.Llm.Reasoning
import Gyre.Tools.Tool
import Gyre.Util

/-!
One pass through the loop is one step, and the whole plan is one step. Calls that run in parallel
keep the order of their selections in the context; their events are listed in that order too.
-/

set_option autoImplicit false
set_option relaxedAutoImplicit false

namespace Gyre.Agent

open Gyre.Llm Gyre.Hooks Gyre.Tools Gyre.Context

/-- Why a tool call of a job has no result. -/
inductive ExecutionError where
  | tool (error : ToolError)
  | jobNotFound (id : Uuid)
  deriving DecidableEq

def ExecutionError.display : ExecutionError → String
  | .tool error => s!"Tool error: {error.display}"
  | .jobNotFound id => s!"Job error: Job {id.toString} not found"

/-- What one tool call of a job meets. -/
structure JobCallWorld where
  tools : ToolRegistry
  hooks : HookRegistry
  jobContext : Option JobContext
  run : ToolRun

/-- Whether a job may not call the tool without a person: no hook vouches for it, or the parameters
always need the user. -/
def blockedInJob (hooks : HookRegistry) (tool : Tool) (toolName : String) (params : Json) : Bool :=
  tool.requiresApproval && (!isToolTrusted hooks toolName || tool.requiresApprovalFor params)

/-- The validation of the parameters on the two job paths. -/
def validatedParams (deps : Deps) (toolName : String) (params : Json) : Except ToolError Unit :=
  let validation := deps.validator.validateToolParams params
  if !validation.isValid then
    let details := validationDetails validation
    .error (.invalidParameters toolName s!"Invalid tool parameters: {details}")
  else .ok ()

/-- `Worker::execute_tool_inner`. -/
def executeToolInner (deps : Deps) (jobId : Uuid) (w : JobCallWorld) (toolName : String)
    (params : Json) : Except ExecutionError String × List LoopEvent :=
  match w.tools.get toolName with
  | none => (.error (.tool (.notFound toolName)), [])
  | some tool =>
    if blockedInJob w.hooks tool toolName params then
      (.error (.tool (.authRequired toolName)), [])
    else
      match w.jobContext with
      | none => (.error (.jobNotFound jobId), [])
      | some jobContext =>
        let event := HookEvent.toolCall toolName params jobContext.userId s!"job:{jobId.toString}"
        let answer := Hooks.run deps.serde w.hooks event
        match answer with
        | .error (.rejected reason) =>
          (.error (.tool (.executionFailed toolName s!"Blocked by hook: {reason}")),
            [.hookRan event answer])
        | .error err =>
          (.error (.tool (.executionFailed toolName
            s!"Blocked by hook failure mode: {err.display}")), [.hookRan event answer])
        | .ok outcome =>
          let params := hookedParameters deps.serde params outcome
          if jobContext.state = .cancelled then
            (.error (.tool (.executionFailed toolName "Job is cancelled")),
              [.hookRan event answer])
          else
            match validatedParams deps toolName params with
            | .error e => (.error (.tool e), [.hookRan event answer])
            | .ok () =>
              ((runTool deps.serde tool toolName w.run).mapError .tool,
                [.hookRan event answer, .executed toolName params])

/-- `process_tool_result`: what the model gets to see of an outcome. -/
def jobToolResultContent (deps : Deps) (toolName : String) :
    Except ExecutionError String → String
  | .ok output => deps.wrapToolOutput toolName output
  | .error e => s!"Error: {e.display}"

/-- Execute selections in order and add their results to the context. -/
@[grind =] def runSelections (deps : Deps) (jobId : Uuid) (worlds : Nat → JobCallWorld) :
    Nat → List ChatMessage → List ToolSelection → List ChatMessage × List LoopEvent
  | _, context, [] => (context, [])
  | i, context, selection :: rest =>
    let executed := executeToolInner deps jobId (worlds i) selection.toolName selection.parameters
    let result := ChatMessage.toolResult selection.toolCallId selection.toolName
      (jobToolResultContent deps selection.toolName executed.1)
    let after := runSelections deps jobId worlds (i + 1) (context ++ [result]) rest
    (after.1, executed.2 ++ after.2)

/-- The selection made up for a call that `respond_with_tools` returned. -/
def callSelection (tc : ToolCall) : ToolSelection :=
  ⟨tc.name, tc.arguments, "", tc.id⟩

/-- How a worker ends. -/
inductive WorkerEnd where
  | stopped
  | cancelled
  | completed
  | stuck (reason : String)
  | failed (error : String)
  deriving DecidableEq, Repr

structure WorkerState where
  context : List ChatMessage
  iteration : Nat

inductive WorkerPhase where
  | planning (context : List ChatMessage)
  | running (st : WorkerState)
  | ended (result : WorkerEnd)

/-- What one pass through the worker's loop meets. -/
structure WorkerWorld where
  stop : Bool
  cancelled : Bool
  tools : ToolRegistry
  systemPrompt : String
  selectAnswer : LlmAnswer
  respondAnswer : LlmAnswer
  calls : Nat → JobCallWorld

/-- What planning and the execution of a plan meet; the plan is the answer as it was parsed. -/
structure PlanWorld where
  jobDescription : String
  tools : ToolRegistry
  planningPrompt : String
  planAnswer : Except String ActionPlan
  stops : Nat → Bool
  calls : Nat → JobCallWorld
  systemPrompt : String
  respondAnswer : LlmAnswer

def maxWorkerIterations : Nat := 50

def stuckPrompt : ChatMessage :=
  .user "Are you stuck? Do you need help completing this job?"

def planDonePrompt : ChatMessage :=
  .user ("All planned actions have been executed. Is the job complete? " ++
    "If not, what else needs to be done?")

/-- The request of `select_tools`. -/
def selectRequest (context : List ChatMessage) (tools : List ToolDefinition) : List LoopEvent :=
  if tools.isEmpty then [] else [.requested context tools]

/-- What the worker does when no tool was selected and the model was asked directly. -/
@[grind =] def handleWorkerAnswer (deps : Deps) (jobId : Uuid) (st : WorkerState)
    (calls : Nat → JobCallWorld) : RespondResult → WorkerPhase × List LoopEvent
  | .text response =>
    if Util.llmSignalsCompletion response then (.ended .completed, [])
    else
      let context := st.context ++ [.assistant response]
      if st.iteration > 3 ∧ st.iteration % 5 = 0 then
        (.running { st with context := context ++ [stuckPrompt] }, [])
      else (.running { st with context := context }, [])
  | .toolCalls toolCalls content =>
    let batch := runSelections deps jobId calls 0
      (st.context ++ [.assistantWithToolCalls content toolCalls])
      (toolCalls.map callSelection)
    (.running { st with context := batch.1 }, batch.2)

/-- One pass through the loop of `Worker::execution_loop`. -/
def workerIteration (deps : Deps) (jobId : Uuid) (st : WorkerState) (w : WorkerWorld) :
    WorkerPhase × List LoopEvent :=
  if w.stop then (.ended .stopped, [])
  else if w.cancelled then (.ended .cancelled, [])
  else
    let st := { st with iteration := st.iteration + 1 }
    if st.iteration > maxWorkerIterations then
      (.ended (.stuck "Maximum iterations exceeded"), [])
    else
      let tools := w.tools.toolDefinitions
      let selecting := selectRequest st.context tools
      match selectTools tools w.selectAnswer with
      | .error e => (.ended (.failed s!"LLM error: {e}"), selecting)
      | .ok [] =>
        let request := LoopEvent.requested (.system w.systemPrompt :: st.context) tools
        match respondWithTools deps tools w.respondAnswer with
        | .error e => (.ended (.failed s!"LLM error: {e}"), selecting ++ [request])
        | .ok result =>
          let handled := handleWorkerAnswer deps jobId st w.calls result
          (handled.1, selecting ++ request :: handled.2)
      | .ok selections =>
        let batch := runSelections deps jobId w.calls 0 st.context selections
        (.running { st with context := batch.1 }, selecting ++ batch.2)

/-- The plan as the worker tells it to the model. -/
def planText (plan : ActionPlan) : String :=
  let steps := "\n".intercalate
    (plan.actions.mapIdx fun i a => s!"{i + 1}. {a.toolName} - {a.reasoning}")
  s!"I've created a plan to accomplish this goal: {plan.goal}\n\nSteps:\n{steps}"

/-- The selection made up for an action of a plan. -/
def plannedSelection (jobId : Uuid) (i : Nat) (action : PlannedAction) : ToolSelection :=
  ⟨action.toolName, action.parameters, action.reasoning, s!"plan_{jobId.toString}_{i}"⟩

/-- The actions of a plan up to the first one before which the worker was told to stop; `none`
stands for a plan that was stopped. -/
@[grind =] def runPlan (deps : Deps) (jobId : Uuid) (w : PlanWorld) :
    Nat → List ChatMessage → List PlannedAction → Option (List ChatMessage) × List LoopEvent
  | _, context, [] => (some context, [])
  | i, context, action :: rest =>
    if w.stops i then (none, [])
    else
      let selection := plannedSelection jobId i action
      let executed := executeToolInner deps jobId (w.calls i) action.toolName action.parameters
      let result := ChatMessage.toolResult selection.toolCallId selection.toolName
        (jobToolResultContent deps selection.toolName executed.1)
      let after := runPlan deps jobId w (i + 1) (context ++ [result]) rest
      (after.1, executed.2 ++ after.2)

/-- Planning and `Worker::execute_plan`; a plan that cannot be made leaves the work to the loop. -/
def workerPlan (deps : Deps) (jobId : Uuid) (context : List ChatMessage) (w : PlanWorld) :
    WorkerPhase × List LoopEvent :=
  let planning := LoopEvent.requested (.system w.planningPrompt :: context ++
    [.user s!"Please create a plan to complete this job:\n\n{w.jobDescription}"]) []
  match w.planAnswer with
  | .error _ => (.running ⟨context, 0⟩, [planning])
  | .ok plan =>
    match runPlan deps jobId w 0 (context ++ [.assistant (planText plan)]) plan.actions with
    | (none, events) => (.ended .stopped, planning :: events)
    | (some context, events) =>
      let context := context ++ [planDonePrompt]
      let tools := w.tools.toolDefinitions
      let request := LoopEvent.requested (.system w.systemPrompt :: context) tools
      match respond deps tools w.respondAnswer with
      | .error e => (.ended (.failed s!"LLM error: {e}"), planning :: events ++ [request])
      | .ok response =>
        (.ended (if Util.llmSignalsCompletion response then .completed
          else .stuck "Plan completed but job incomplete - needs re-planning"),
          planning :: events ++ [request])

inductive WorkerOp where
  | plan (world : PlanWorld)
  | iterate (world : WorkerWorld)

def workerStep (deps : Deps) (jobId : Uuid) : WorkerPhase → WorkerOp → WorkerPhase × List LoopEvent
  | .planning context, .plan w => workerPlan deps jobId context w
  | .running st, .iterate w => workerIteration deps jobId st w
  | phase, _ => (phase, [])

/-- The message a worker's context starts with. -/
def workerPrompt (title description : String) : ChatMessage :=
  .system ("You are an autonomous agent working on a job.\n\n" ++
    s!"Job: {title}\nDescription: {description}\n\n" ++
    "You have access to tools to complete this job. " ++
    "Plan your approach and execute tools as needed.\n" ++
    "You may request multiple tools at once if they can be executed in parallel.\n" ++
    "Report when the job is complete or if you encounter issues you cannot resolve.")

/-- A worker before its first pass. -/
def workerStart (usePlanning : Bool) (title description : String) : WorkerPhase :=
  if usePlanning then .planning [workerPrompt title description]
  else .running ⟨[workerPrompt title description], 0⟩

/-- `Scheduler::execute_tool_task`. -/
def executeToolTask (deps : Deps) (jobId : Uuid) (w : JobCallWorld) (toolName : String)
    (params : Json) : Except ExecutionError Json × List LoopEvent :=
  match w.tools.get toolName with
  | none => (.error (.tool (.notFound toolName)), [])
  | some tool =>
    match w.jobContext with
    | none => (.error (.jobNotFound jobId), [])
    | some jobContext =>
      if jobContext.state = .cancelled then
        (.error (.tool (.executionFailed toolName "Job is cancelled")), [])
      else if blockedInJob w.hooks tool toolName params then
        (.error (.tool (.authRequired toolName)), [])
      else
        match validatedParams deps toolName params with
        | .error e => (.error (.tool e), [])
        | .ok () =>
          match w.run with
          | .completed result => (.ok result, [.executed toolName params])
          | .failed error =>
            (.error (.tool (.executionFailed toolName error)), [.executed toolName params])
          | .timedOut =>
            (.error (.tool (.timeout toolName tool.executionTimeout)), [.executed toolName params])

end Gyre.Agent
