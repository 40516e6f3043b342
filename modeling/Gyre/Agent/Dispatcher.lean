/- digest: The chat loop: requests to the model, the gate before each tool call, and its results. -/

import Gyre.Agent.ThreadOps
import Gyre.Skills.Attenuation
import Gyre.Tools.Tool

/-!
One iteration of the loop is one step: what it meets outside (the registries, the hooks, the answer
of the model, what the tools do) arrives as its argument. A call reads the registries once, before it
is held, blocked or executed.
-/

set_option autoImplicit false
set_option relaxedAutoImplicit false

namespace Gyre.Agent

open Gyre.Llm Gyre.Hooks Gyre.Tools Gyre.Skills

/-- What one tool call of an answer meets. -/
structure CallWorld where
  tools : ToolRegistry
  hooks : HookRegistry
  autoApprovedTools : Finset String
  requestId : Uuid
  run : ToolRun

/-- Auto-approved for this session or vouched for by a hook, unless the parameters are of the kind
that always needs the user. -/
def autoApproved (w : CallWorld) (tool : Tool) (tc : ToolCall) : Bool :=
  (decide (tc.name ∈ w.autoApprovedTools) || isToolTrusted w.hooks tc.name) &&
    !tool.requiresApprovalFor tc.arguments

/-- The tool of a call that has to wait for the user. -/
@[grind =] def awaitsUser (w : CallWorld) (tc : ToolCall) : Option Tool :=
  (w.tools.get tc.name).filter fun tool => tool.requiresApproval && !autoApproved w tool tc

/-- Execute a tool for chat. -/
@[grind =] def executeChatTool (deps : Deps) (tools : ToolRegistry) (toolName : String) (params : Json)
    (run : ToolRun) : Except ToolError String × List LoopEvent :=
  match tools.get toolName with
  | none => (.error (.notFound toolName), [])
  | some tool =>
    let validation := deps.validator.validateToolParams params
    if !validation.isValid then
      let details := validationDetails validation
      (.error (.invalidParameters toolName s!"Invalid tool parameters: {details}"), [])
    else (runTool deps.serde tool toolName run, [.executed toolName params])

/-- What becomes of one tool call. -/
inductive ChatCall where
  | held (pending : PendingApproval)
  | blocked (content : String)
  | ran (result : Except ToolError String)

/-- The approval check, the hook and the execution of one tool call of the chat loop. -/
@[grind =] def chatToolCall (deps : Deps) (userId : String) (w : CallWorld) (context : List ChatMessage)
    (tc : ToolCall) : ChatCall × List LoopEvent :=
  match awaitsUser w tc with
  | some tool =>
    (.held ⟨w.requestId, tc.name, tc.arguments, tool.description, tc.id, context⟩, [])
  | none =>
    let event := HookEvent.toolCall tc.name tc.arguments userId "chat"
    let answer := Hooks.run deps.serde w.hooks event
    match answer with
    | .error (.rejected reason) =>
      (.blocked s!"Tool call rejected by hook: {reason}", [.hookRan event answer])
    | .error err =>
      (.blocked s!"Tool call blocked by hook policy: {err.display}", [.hookRan event answer])
    | .ok outcome =>
      let executed := executeChatTool deps w.tools tc.name
        (hookedParameters deps.serde tc.arguments outcome) w.run
      (.ran executed.1, .hookRan event answer :: executed.2)

/-- The parameters pass the validation of the safety layer. -/
def ValidParams (deps : Deps) (params : Json) : Prop :=
  (deps.validator.validateToolParams params).isValid = true

/-- Nothing is executed. -/
def ExecutesNothing (events : List LoopEvent) : Prop :=
  ∀ toolName params, .executed toolName params ∉ events

theorem executeChatTool_cases (deps : Deps) (tools : ToolRegistry) (toolName : String)
    (params : Json) (run : ToolRun) :
    (((tools.get toolName).isSome → ¬ ValidParams deps params) ∧
      (executeChatTool deps tools toolName params run).2 = []) ∨
    ((tools.get toolName).isSome ∧ ValidParams deps params ∧
      (executeChatTool deps tools toolName params run).2 = [.executed toolName params]) := by
  unfold executeChatTool ValidParams
  cases htool : tools.get toolName with
  | none => exact Or.inl ⟨by simp, rfl⟩
  | some tool =>
    cases hvalid : (deps.validator.validateToolParams params).isValid with
    | false => exact Or.inl ⟨by simp, by simp [hvalid]⟩
    | true => exact Or.inr ⟨rfl, rfl, by simp [hvalid]⟩

/-- What the chat loop does with a call. -/
theorem chatToolCall_cases (deps : Deps) (userId : String) (world : CallWorld)
    (context : List ChatMessage) (tc : ToolCall) :
    (ExecutesNothing (chatToolCall deps userId world context tc).2 ∧
      ∀ tool outcome, world.tools.get tc.name = some tool → awaitsUser world tc = none →
        Hooks.run deps.serde world.hooks (.toolCall tc.name tc.arguments userId "chat") =
          .ok outcome →
        ¬ ValidParams deps (hookedParameters deps.serde tc.arguments outcome)) ∨
    ∃ tool outcome, world.tools.get tc.name = some tool ∧ awaitsUser world tc = none ∧
      Hooks.run deps.serde world.hooks (.toolCall tc.name tc.arguments userId "chat") =
        .ok outcome ∧
      ValidParams deps (hookedParameters deps.serde tc.arguments outcome) ∧
      (chatToolCall deps userId world context tc).2 =
        [.hookRan (.toolCall tc.name tc.arguments userId "chat") (.ok outcome),
          .executed tc.name (hookedParameters deps.serde tc.arguments outcome)] := by
  unfold chatToolCall
  cases hawait : awaitsUser world tc with
  | some tool => exact Or.inl ⟨by simp [ExecutesNothing], by simp⟩
  | none =>
    cases hhook : Hooks.run deps.serde world.hooks
        (.toolCall tc.name tc.arguments userId "chat") with
    | error err => cases err <;> exact Or.inl ⟨by simp [ExecutesNothing, hhook], by simp⟩
    | ok outcome =>
      obtain ⟨hstop, hnone⟩ | ⟨hsome, hvalid, hrun⟩ := executeChatTool_cases deps world.tools
        tc.name (hookedParameters deps.serde tc.arguments outcome) world.run
      · refine Or.inl ⟨by simp [ExecutesNothing, hhook, hnone], ?_⟩
        intro tool outcome' htool _ houtcome
        cases houtcome
        exact hstop (by simp [htool])
      · obtain ⟨tool, htool⟩ := Option.isSome_iff_exists.mp hsome
        exact Or.inr ⟨tool, outcome, htool, rfl, rfl, hvalid, by simp [hhook, hrun]⟩

/-- A tool's outcome with its error as the agent prints it. -/
@[grind =] def printedOutcome : Except ToolError String → Except String String
  | .ok output => .ok output
  | .error e => .error s!"Tool error: {e.display}"

/-- How the calls of one answer end. -/
inductive BatchEnd where
  | answered (context : List ChatMessage)
  | held (pending : PendingApproval)
  | askedForToken (extension instructions : String)

/-- Execute the calls of an answer one after the other; `i` counts the calls so far. -/
@[grind =] def runToolCalls (deps : Deps) (userId : String) (worlds : Nat → CallWorld) :
    Nat → List ChatMessage → List ToolCall → BatchEnd × List LoopEvent
  | _, context, [] => (.answered context, [])
  | i, context, tc :: rest =>
    match chatToolCall deps userId (worlds i) context tc with
    | (.held pending, events) => (.held pending, events)
    | (.blocked content, events) =>
      let after := runToolCalls deps userId worlds (i + 1)
        (context ++ [.toolResult tc.id tc.name content]) rest
      (after.1, events ++ after.2)
    | (.ran result, events) =>
      let outcome := printedOutcome result
      let recorded := events ++ [.outcomeRecorded outcome]
      match detectAuthAwaiting deps.serde tc.name outcome with
      | some (extension, instructions) =>
        (.askedForToken extension instructions, recorded ++ [.authModeEntered extension])
      | none =>
        let content := toolResultContent deps tc.name outcome
        let after := runToolCalls deps userId worlds (i + 1)
          (context ++ [.toolResult tc.id tc.name content]) rest
        (after.1, recorded ++ after.2)

/-- What the loop was called for. -/
structure ChatTurn where
  userId : String
  thread : Uuid
  activeSkills : List LoadedSkill

/-- The local variables of the loop. -/
structure LoopState where
  context : List ChatMessage
  iteration : Nat
  toolsExecuted : Bool

inductive LoopPhase where
  | running (st : LoopState)
  | ended (result : Except String AgenticLoopResult)

/-- What one iteration meets. -/
structure IterationWorld where
  interrupted : Bool
  costLimit : Option String
  tools : ToolRegistry
  systemPrompt : String
  answer : LlmAnswer
  calls : Nat → CallWorld

def maxToolIterations : Nat := 10

def useToolsPrompt : ChatMessage :=
  .user "Please proceed and use the available tools to complete this task."

/-- The tool definitions an iteration offers. -/
@[grind =] def offeredTools (turn : ChatTurn) (w : IterationWorld) : List ToolDefinition :=
  if turn.activeSkills.isEmpty then w.tools.toolDefinitions
  else (attenuateTools w.tools.toolDefinitions turn.activeSkills).tools

/-- The state after an answer's calls. -/
def afterBatch (iteration : Nat) : BatchEnd → LoopPhase
  | .answered context => .running ⟨context, iteration, true⟩
  | .held pending => .ended (.ok (.needApproval pending))
  | .askedForToken _ instructions => .ended (.ok (.response instructions))

/-- What the loop does with an answer. -/
@[grind =] def handleAnswer (deps : Deps) (turn : ChatTurn) (st : LoopState) (calls : Nat → CallWorld) :
    RespondResult → LoopPhase × List LoopEvent
  | .text text =>
    if !st.toolsExecuted && decide (st.iteration < 3) then
      (.running { st with context := st.context ++ [.assistant text, useToolsPrompt] }, [])
    else (.ended (.ok (.response text)), [])
  | .toolCalls toolCalls content =>
    let batch := runToolCalls deps turn.userId calls 0
      (st.context ++ [.assistantWithToolCalls content toolCalls]) toolCalls
    (afterBatch st.iteration batch.1,
      toolCalls.map (fun tc => .callRecorded tc.name tc.arguments) ++ batch.2)

/-- One iteration of `run_agentic_loop`. -/
def chatIteration (deps : Deps) (turn : ChatTurn) (st : LoopState) (w : IterationWorld) :
    LoopPhase × List LoopEvent :=
  let st := { st with iteration := st.iteration + 1 }
  if st.iteration > maxToolIterations then
    (.ended (.error ("LLM error: Invalid response from agent: " ++
      s!"Exceeded maximum tool iterations ({maxToolIterations})")), [])
  else if w.interrupted then
    (.ended (.error s!"Job error: Job {turn.thread.toString} context error: Interrupted"), [])
  else
    match w.costLimit with
    | some limit => (.ended (.error s!"LLM error: Invalid response from agent: {limit}"), [])
    | none =>
      let tools := offeredTools turn w
      let request := LoopEvent.requested (.system w.systemPrompt :: st.context) tools
      match respondWithTools deps tools w.answer with
      | .error e => (.ended (.error s!"LLM error: {e}"), [request])
      | .ok result =>
        let handled := handleAnswer deps turn st w.calls result
        (handled.1, request :: handled.2)

/-- The loop stops before the model is asked. -/
def Halts (st : LoopState) (w : IterationWorld) : Prop :=
  maxToolIterations ≤ st.iteration ∨ w.interrupted = true ∨ w.costLimit.isSome

section Iteration

variable (deps : Deps) (turn : ChatTurn)

theorem chatIteration_of_halts {st : LoopState} {w : IterationWorld} (h : Halts st w) :
    ∃ error, chatIteration deps turn st w = (.ended (.error error), []) := by
  dsimp only [chatIteration]
  split
  · exact ⟨_, rfl⟩
  next hiteration =>
    split
    · exact ⟨_, rfl⟩
    next hinterrupted =>
      cases hlimit : w.costLimit with
      | some limit => exact ⟨_, rfl⟩
      | none =>
        rcases h with h | h | h
        · omega
        · exact absurd h hinterrupted
        · simp [hlimit] at h

/-- An iteration that asks the model. -/
theorem chatIteration_of_asks {st : LoopState} {w : IterationWorld} (h : ¬ Halts st w) :
    chatIteration deps turn st w =
      match respondWithTools deps (offeredTools turn w) w.answer with
      | .error e =>
        (.ended (.error s!"LLM error: {e}"),
          [.requested (.system w.systemPrompt :: st.context) (offeredTools turn w)])
      | .ok result =>
        ((handleAnswer deps turn { st with iteration := st.iteration + 1 } w.calls result).1,
          .requested (.system w.systemPrompt :: st.context) (offeredTools turn w) ::
            (handleAnswer deps turn { st with iteration := st.iteration + 1 } w.calls result).2) := by
  obtain ⟨hiteration, hinterrupted, hlimit⟩ : st.iteration < maxToolIterations ∧
      w.interrupted = false ∧ w.costLimit = none := by
    simpa [Halts] using h
  have hin : ¬ st.iteration + 1 > maxToolIterations := by omega
  simp only [chatIteration, hin, hinterrupted, hlimit]
  rfl

theorem chatIteration_failed {st : LoopState} {w : IterationWorld} {e : String}
    (hasks : ¬ Halts st w)
    (h : respondWithTools deps (offeredTools turn w) w.answer = .error e) :
    chatIteration deps turn st w = (.ended (.error s!"LLM error: {e}"),
      [.requested (.system w.systemPrompt :: st.context) (offeredTools turn w)]) := by
  rw [chatIteration_of_asks deps turn hasks, h]

theorem chatIteration_answered {st : LoopState} {w : IterationWorld}
    {result : RespondResult} (hasks : ¬ Halts st w)
    (h : respondWithTools deps (offeredTools turn w) w.answer = .ok result) :
    chatIteration deps turn st w =
      ((handleAnswer deps turn { st with iteration := st.iteration + 1 } w.calls result).1,
        .requested (.system w.systemPrompt :: st.context) (offeredTools turn w) ::
          (handleAnswer deps turn { st with iteration := st.iteration + 1 } w.calls result).2) := by
  rw [chatIteration_of_asks deps turn hasks, h]

end Iteration

/-- The loop as a system: an iteration while it runs, nothing after its end. -/
def loopStep (deps : Deps) (turn : ChatTurn) : LoopPhase → IterationWorld → LoopPhase × List LoopEvent
  | .running st, w => chatIteration deps turn st w
  | .ended result, _ => (.ended result, [])

/-- `process_approval` from the approval to the resumed loop: the held call is executed as it was
held, and its result joins the saved context. -/
def resumeApproved (deps : Deps) (pending : PendingApproval) (tools : ToolRegistry)
    (run : ToolRun) : LoopPhase × List LoopEvent :=
  let executed := executeChatTool deps tools pending.toolName pending.parameters run
  let outcome := printedOutcome executed.1
  let recorded := executed.2 ++ [.outcomeRecorded outcome]
  match detectAuthAwaiting deps.serde pending.toolName outcome with
  | some (extension, instructions) =>
    (.ended (.ok (.response instructions)), recorded ++ [.authModeEntered extension])
  | none =>
    let context := pending.contextMessages ++ [.toolResult pending.toolCallId pending.toolName
      (toolResultContent deps pending.toolName outcome)]
    (.running ⟨context, 0, true⟩, recorded)

/-- What happens to a message's turn: iterations of its loop, and approvals of the call it waits
for. -/
inductive ChatOp where
  | iterate (turn : ChatTurn) (world : IterationWorld)
  | approve (tools : ToolRegistry) (run : ToolRun)

def chatStep (deps : Deps) : LoopPhase → ChatOp → LoopPhase × List LoopEvent
  | phase, .iterate turn w => loopStep deps turn phase w
  | .ended (.ok (.needApproval pending)), .approve tools run =>
    resumeApproved deps pending tools run
  | phase, .approve .. => (phase, [])

end Gyre.Agent
