/- digest: Message handlers over a session: turns, approvals, undo, interruption and their events. -/

import Mathlib.Logic.Function.Basic
import Gyre.Agent.Compaction
import Gyre.Agent.Undo
import Gyre.Hooks.Registry
import Gyre.Llm.Reasoning

/-!
A handler that waits for the model or for a tool is split where it waits: the part before the wait
leaves a `Running` call behind, and the part after it is a separate operation that any other
operation may overtake. Answers from outside (the model, tools, hooks, the clock's identifiers)
arrive as arguments.
-/

set_option autoImplicit false
set_option relaxedAutoImplicit false

namespace Gyre.Agent

open Gyre.Llm Gyre.Hooks

structure IncomingMessage where
  userId : String
  channel : String
  deriving DecidableEq, Repr

/-- What a handler tells the channel. -/
inductive SubmissionResult where
  | response (content : String)
  | needApproval (requestId : Uuid) (toolName description : String) (parameters : Json)
  | ok (message : Option String)
  | error (message : String)
  | interrupted
  deriving DecidableEq, Repr

/-- A handler's return value; `notFound` is the error for a thread that is not in the session. -/
inductive Reply where
  | result (result : SubmissionResult)
  | notFound (thread : Uuid)
  deriving DecidableEq, Repr

inductive AgenticLoopResult where
  | response (text : String)
  | needApproval (pending : PendingApproval)
  deriving DecidableEq, Repr

/-- What can be seen of the handlers from outside, in the order it happens. -/
inductive Event where
  | threadCreated (thread : Uuid)
  | turnStarted (thread : Uuid) (userInput : String)
  | responseTransformed (thread : Uuid) (original transformed : String)
  | turnCompleted (thread : Uuid) (userInput : Option String) (response : String)
  | turnFailed (thread : Uuid) (error : String)
  | turnPersisted (thread : Uuid) (channel userId userInput : String) (response : Option String)
  | approvalAwaited (thread : Uuid) (pending : PendingApproval)
  | toolExecuted (thread : Uuid) (pending : PendingApproval) (addressed : Uuid)
      (requestId : Option Uuid)
  | approvalRejected (thread : Uuid) (pending : PendingApproval)
  | turnInterrupted (thread : Uuid)
  | threadRestored (thread : Uuid)
  | threadCleared (thread : Uuid)
  | replied (reply : Reply)
  deriving DecidableEq, Repr

/-- A handler that is waiting. -/
inductive Running where
  /-- `process_user_input`, for the agentic loop. -/
  | turn (message : IncomingMessage) (thread : Uuid) (content : String)
      (turnMessages : List ChatMessage)
  /-- `process_approval`, for the approved tool. -/
  | tool (message : IncomingMessage) (thread : Uuid) (pending : PendingApproval)
  /-- `process_approval`, for the resumed loop. -/
  | resumed (message : IncomingMessage) (thread : Uuid) (contextMessages : List ChatMessage)
  deriving DecidableEq, Repr

/-- One session, the undo history of its threads, and the handlers that are waiting. A thread
without an entry has the empty undo history that `get_undo_manager` makes for it. -/
structure AgentState where
  session : Session
  undo : Uuid → UndoManager
  running : List Running

namespace AgentState

def new (sessionId : Uuid) (userId : String) : AgentState :=
  ⟨.new sessionId userId, fun _ => .new, []⟩

def thread? (s : AgentState) (id : Uuid) : Option Thread := s.session.thread? id

def setThread (s : AgentState) (id : Uuid) (t : Thread) : AgentState :=
  { s with session := s.session.setThread id t }

def setUndo (s : AgentState) (id : Uuid) (m : UndoManager) : AgentState :=
  { s with undo := Function.update s.undo id m }

def start (s : AgentState) (r : Running) : AgentState :=
  { s with running := s.running ++ [r] }

end AgentState

def replyOk (message : String) : Event := .replied (.result (.ok (some message)))

def replyError (message : String) : Event := .replied (.result (.error message))

/-- What `process_user_input` meets before it starts the turn. -/
structure InputChecks where
  /-- `validate_input`'s errors, as field and message. -/
  validationErrors : List (String × String)
  /-- Some violated policy rule has the action `Block`. -/
  policyBlocks : Bool
  /-- The reply of the command handler, when the router recognises an explicit command. -/
  command : Option Reply
  monitor : ContextMonitor
  compaction : CompactionWorld
  checkpointId : Uuid

/-- Automatic compaction before a turn; a failed one is only logged. -/
def autoCompact (checks : InputChecks) (t : Thread) : Thread :=
  match checks.monitor.suggestCompaction t.messages with
  | some strategy => (compact checks.compaction t strategy).1
  | none => t

/-- `process_user_input` up to the agentic loop. -/
def processUserInput (s : AgentState) (message : IncomingMessage) (thread : Uuid)
    (content : String) (checks : InputChecks) : AgentState × List Event :=
  match s.thread? thread with
  | none => (s, [.replied (.notFound thread)])
  | some t =>
    match t.state with
    | .processing => (s, [replyError "Turn in progress. Use /interrupt to cancel."])
    | .awaitingApproval => (s, [replyError "Waiting for approval. Use /interrupt to cancel."])
    | .completed => (s, [replyError "Thread completed. Use /thread new."])
    | .idle | .interrupted =>
      if checks.validationErrors ≠ [] then
        let details := "; ".intercalate (checks.validationErrors.map fun e => e.1 ++ ": " ++ e.2)
        (s, [replyError s!"Input rejected by safety validation: {details}"])
      else if checks.policyBlocks then
        (s, [replyError "Input rejected by safety policy."])
      else
        match checks.command with
        | some reply => (s, [.replied reply])
        | none =>
          let t := autoCompact checks t
          let undo := (s.undo thread).checkpoint
            ⟨checks.checkpointId, t.turnNumber, t.messages, s!"Before turn {t.turnNumber}"⟩
          let t := t.startTurn content
          (((s.setUndo thread undo).setThread thread t).start
              (.turn message thread content t.messages),
            [.turnStarted thread content])

/-- The `TransformResponse` hook: what the final response becomes. -/
def transformResponse (serde : Serde) (hooks : HookRegistry) (userId : String) (thread : Uuid)
    (response : String) : String :=
  match Hooks.run serde hooks (.responseTransform userId thread.toString response) with
  | .error (.rejected reason) => s!"[Response filtered: {reason}]"
  | .error err => s!"[Response blocked by hook policy: {err.display}]"
  | .ok (.proceed (some newResponse)) => newResponse
  | _ => response

/-- `persist_response_chain`: keep the provider's response id, when there is one. -/
def persistResponseChain (t : Thread) (responseId : Option String) : Thread :=
  match responseId with
  | some id => { t with lastResponseId := some id }
  | none => t

/-- `complete_turn` and what it means to the outside. -/
def completedEvent (thread : Uuid) (t : Thread) (response : String) : Event :=
  .turnCompleted thread (t.lastTurn.map (·.userInput)) response

def needApprovalReply (pending : PendingApproval) : Event :=
  .replied (.result (.needApproval pending.requestId pending.toolName pending.description
    pending.parameters))

/-- `process_user_input` once the agentic loop is over. -/
def processUserInputLoopDone (deps : Deps) (s : AgentState) (message : IncomingMessage)
    (thread : Uuid) (content : String) (result : Except String AgenticLoopResult)
    (hooks : HookRegistry) (responseId : Option String) : AgentState × List Event :=
  match s.thread? thread with
  | none => (s, [.replied (.notFound thread)])
  | some t =>
    if t.state = .interrupted then (s, [.replied (.result .interrupted)])
    else
      match result with
      | .ok (.response original) =>
        let response := transformResponse deps.serde hooks message.userId thread original
        (s.setThread thread (persistResponseChain (t.completeTurn response) responseId),
          [.responseTransformed thread original response,
            completedEvent thread t response,
            .turnPersisted thread message.channel message.userId content (some response),
            .replied (.result (.response response))])
      | .ok (.needApproval pending) =>
        (s.setThread thread (t.awaitApproval pending),
          [.approvalAwaited thread pending, needApprovalReply pending])
      | .error e =>
        (s.setThread thread (t.failTurn e),
          [.turnFailed thread e,
            .turnPersisted thread message.channel message.userId content none,
            replyError e])

def noPendingApproval : Event := replyError "No pending approval request."

/-- `process_approval` up to the execution of the approved tool. -/
def processApproval (s : AgentState) (message : IncomingMessage) (addressed : Uuid)
    (requestId : Option Uuid) (approved always : Bool) : AgentState × List Event :=
  match s.session.resolveApprovalThread addressed requestId with
  | .notFound => (s, [noPendingApproval])
  | .ambiguous _ =>
    (s, [replyError ("Multiple approvals are pending. Include the request ID " ++
      "to say which one you are answering.")])
  | .found thread =>
    match s.thread? thread with
    | none => (s, [.replied (.notFound thread)])
    | some t =>
      if t.state ≠ .awaitingApproval then (s, [noPendingApproval])
      else
        match t.pendingApproval with
        | none => (s, [noPendingApproval])
        | some pending =>
          let t := t.takePendingApproval
          if requestId.any (fun id => decide (id ≠ pending.requestId)) then
            (s.setThread thread (t.awaitApproval pending),
              [.approvalAwaited thread pending,
                replyError "Request ID mismatch. Use the correct request ID."])
          else if approved then
            let session := if always then s.session.autoApproveTool pending.toolName else s.session
            ((({ s with session := session }).setThread thread { t with state := .processing }).start
                (.tool message thread pending),
              [.toolExecuted thread pending addressed requestId])
          else
            (s.setThread thread t.clearPendingApproval,
              [.approvalRejected thread pending,
                .replied (.result (.response (s!"Tool '{pending.toolName}' was rejected. " ++
                  "The agent will not execute this tool.\n\n" ++
                  "You can continue the conversation or try a different approach.")))])

/-- Whether a tool's answer asks for an authentication token: the extension and the text for the
user. -/
@[grind =] def detectAuthAwaiting (serde : Serde) (toolName : String) (result : Except String String) :
    Option (String × String) :=
  if toolName ≠ "tool_auth" ∧ toolName ≠ "tool_activate" then none
  else
    match result with
    | .error _ => none
    | .ok output =>
      match serde.fromStr output with
      | none => none
      | some parsed =>
        if parsed.get "awaiting_token" ≠ some (.bool true) then none
        else
          match (parsed.get "name").bind Json.asStr with
          | none => none
          | some name =>
            some (name, ((parsed.get "instructions").bind Json.asStr).getD
              "Please provide your API token/key.")

/-- The outcome of a tool call as it is kept on the turn. -/
def recordToolOutcome (result : Except String String) (turn : Turn) : Turn :=
  match result with
  | .ok output => turn.recordToolResult (.string output)
  | .error e => turn.recordToolError e

/-- The outcome of a tool call as the model gets to see it. -/
def toolResultContent (deps : Deps) (toolName : String) : Except String String → String
  | .ok output => deps.wrapToolOutput toolName output
  | .error e => s!"Error: {e}"

/-- `process_approval` once the approved tool has answered: either the turn ends asking for a token,
or the agentic loop resumes with the result in its context. -/
def processApprovalToolDone (deps : Deps) (s : AgentState) (message : IncomingMessage)
    (thread : Uuid) (pending : PendingApproval) (result : Except String String) :
    AgentState × List Event :=
  let s := { s with
    session := s.session.modifyThread thread (·.modifyLastTurn (recordToolOutcome result)) }
  match detectAuthAwaiting deps.serde pending.toolName result with
  | some (extension, instructions) =>
    let finish (t : Thread) := (t.enterAuthMode extension).completeTurn instructions
    match s.thread? thread with
    | some t =>
      (s.setThread thread (finish t),
        [completedEvent thread t instructions, .replied (.result (.response instructions))])
    | none => (s, [.replied (.result (.response instructions))])
  | none =>
    let context := pending.contextMessages ++ [.toolResult pending.toolCallId pending.toolName
      (toolResultContent deps pending.toolName result)]
    (s.start (.resumed message thread context), [])

/-- `process_approval` once the resumed loop is over. -/
def processApprovalLoopDone (s : AgentState) (thread : Uuid)
    (result : Except String AgenticLoopResult) (responseId : Option String) :
    AgentState × List Event :=
  match s.thread? thread with
  | none => (s, [.replied (.notFound thread)])
  | some t =>
    match result with
    | .ok (.response response) =>
      (s.setThread thread (persistResponseChain (t.completeTurn response) responseId),
        [completedEvent thread t response, .replied (.result (.response response))])
    | .ok (.needApproval pending) =>
      (s.setThread thread (t.awaitApproval pending),
        [.approvalAwaited thread pending, needApprovalReply pending])
    | .error e => (s.setThread thread (t.failTurn e), [.turnFailed thread e, replyError e])

def processUndo (s : AgentState) (thread freshId : Uuid) : AgentState × List Event :=
  let mgr := s.undo thread
  if !mgr.canUndo then (s, [replyOk "Nothing to undo."])
  else
    match s.thread? thread with
    | none => (s, [.replied (.notFound thread)])
    | some t =>
      match mgr.undo freshId t.turnNumber t.messages with
      | (mgr, some checkpoint) =>
        ((s.setUndo thread mgr).setThread thread (t.restoreFromMessages checkpoint.messages),
          [.threadRestored thread, replyOk
            s!"Undone to turn {checkpoint.turnNumber}. {mgr.undoStack.length} undo(s) remaining."])
      | (mgr, none) => (s.setUndo thread mgr, [replyError "Undo failed."])

def processRedo (s : AgentState) (thread freshId : Uuid) : AgentState × List Event :=
  let mgr := s.undo thread
  if !mgr.canRedo then (s, [replyOk "Nothing to redo."])
  else
    match s.thread? thread with
    | none => (s, [.replied (.notFound thread)])
    | some t =>
      match mgr.redo freshId t.turnNumber t.messages with
      | (mgr, some checkpoint) =>
        ((s.setUndo thread mgr).setThread thread (t.restoreFromMessages checkpoint.messages),
          [.threadRestored thread, replyOk s!"Redone to turn {checkpoint.turnNumber}."])
      | (mgr, none) => (s.setUndo thread mgr, [replyError "Redo failed."])

@[grind =] def processInterrupt (s : AgentState) (thread : Uuid) : AgentState × List Event :=
  match s.thread? thread with
  | none => (s, [.replied (.notFound thread)])
  | some t =>
    match t.state with
    | .processing | .awaitingApproval =>
      (s.setThread thread t.interrupt, [.turnInterrupted thread, replyOk "Interrupted."])
    | _ => (s, [replyOk "Nothing to interrupt."])

def compactionReport (monitor : ContextMonitor) (before after : Thread) (r : CompactionPartial) :
    String :=
  let tokensBefore := monitor.totalTokens before.messages
  let tokensAfter := monitor.totalTokens after.messages
  let usage := monitor.usagePercent before.messages
  s!"Compacted: {r.turnsRemoved} turns removed, {tokensBefore} → {tokensAfter} tokens (was {usage}% full)"
    ++ (if r.summaryWritten then ", summary saved to workspace" else "")

@[grind =] def processCompact (s : AgentState) (thread : Uuid) (monitor : ContextMonitor)
    (world : CompactionWorld) : AgentState × List Event :=
  match s.thread? thread with
  | none => (s, [.replied (.notFound thread)])
  | some t =>
    let strategy := (monitor.suggestCompaction t.messages).getD (.summarize 5)
    let after := compact world t strategy
    match after.2 with
    | .ok r => (s.setThread thread after.1, [replyOk (compactionReport monitor t after.1 r)])
    | .error e => (s.setThread thread after.1, [replyError s!"Compaction failed: {e}"])

@[grind =] def processClear (s : AgentState) (thread : Uuid) : AgentState × List Event :=
  match s.thread? thread with
  | none => (s, [.replied (.notFound thread)])
  | some t =>
    ((s.setThread thread { t with turns := [], state := .idle }).setUndo thread
        (s.undo thread).clear,
      [.threadCleared thread, replyOk "Thread cleared."])

/-- `process_resume`: the manager forgets the later checkpoints before the thread is looked up. -/
@[grind =] def processResume (s : AgentState) (thread checkpointId : Uuid) : AgentState × List Event :=
  match (s.undo thread).restore checkpointId with
  | (mgr, some checkpoint) =>
    let s := s.setUndo thread mgr
    match s.thread? thread with
    | none => (s, [.replied (.notFound thread)])
    | some t =>
      (s.setThread thread (t.restoreFromMessages checkpoint.messages),
        [.threadRestored thread, replyOk s!"Resumed from checkpoint: {checkpoint.description}"])
  | (mgr, none) => (s.setUndo thread mgr, [replyError "Checkpoint not found."])

/-- What the credential store answers to a token. -/
inductive AuthOutcome where
  | noManager
  | activated (toolsLoaded : List String)
  | activationFailed (error : String)
  | invalid (instructions : Option String)
  | failed (error : String)
  deriving DecidableEq, Repr

def AuthOutcome.text (extension : String) : AuthOutcome → String
  | .noManager => "Extension manager not available."
  | .activated tools =>
    s!"{extension} authenticated and activated ({tools.length} tools loaded)." ++
      (if tools.isEmpty then "" else "\n\nTools: " ++ ", ".intercalate tools)
  | .activationFailed e =>
    s!"{extension} authenticated successfully, but activation failed: {e}. " ++
      "Try activating manually."
  | .invalid instructions => instructions.getD "Invalid token. Please try again."
  | .failed e => s!"Authentication failed for {extension}: {e}"

/-- `process_auth_token`: the thread leaves auth mode, and enters it again when the token is not
accepted. -/
def processAuthToken (s : AgentState) (thread : Uuid) (pending : PendingAuth)
    (outcome : AuthOutcome) : AgentState × List Event :=
  let cleared := s.session.modifyThread thread Thread.takePendingAuth
  let session :=
    match outcome with
    | .invalid _ => cleared.modifyThread thread (·.enterAuthMode pending.extensionName)
    | _ => cleared
  ({ s with session := session },
    [.replied (.result (.response (outcome.text pending.extensionName)))])

/-- `maybe_hydrate_thread` for a thread that is not in memory yet. -/
@[grind =] def hydrateThread (s : AgentState) (thread : Uuid) (messages : List ChatMessage)
    (responseId : Option String) : AgentState × List Event :=
  match s.thread? thread with
  | some _ => (s, [])
  | none =>
    let t := Thread.withId thread s.session.id
    let t := if messages.isEmpty then t else t.restoreFromMessages messages
    let t := persistResponseChain t responseId
    ({ s with session := { s.session.setThread thread t with activeThread := some thread } },
      [.threadCreated thread])

def processNewThread (s : AgentState) (freshId : Uuid) : AgentState × List Event :=
  ({ s with session := s.session.createThread freshId },
    [.threadCreated freshId, replyOk s!"New thread: {freshId.toString}"])

@[grind =] def processSwitchThread (s : AgentState) (target : Uuid) : AgentState × List Event :=
  match s.session.switchThread target with
  | some session =>
    ({ s with session := session }, [replyOk s!"Switched to thread {target.toString}"])
  | none => (s, [replyError "Thread not found."])

/-- What a running agentic loop does to its thread before it is over. -/
inductive LoopEffect where
  | recordToolCall (name : String) (params : Json)
  | recordToolOutcome (result : Except String String)
  | enterAuthMode (extension : String)

def LoopEffect.apply : LoopEffect → Thread → Thread
  | .recordToolCall name params, t => t.modifyLastTurn (·.recordToolCall name params)
  | .recordToolOutcome result, t => t.modifyLastTurn (Agent.recordToolOutcome result)
  | .enterAuthMode extension, t => t.enterAuthMode extension

/-- The operations on a session: messages as they come in, and the ends of what handlers wait for;
`index` picks one of the waiting handlers. -/
inductive Op where
  | newThread (freshId : Uuid)
  | hydrate (thread : Uuid) (messages : List ChatMessage) (responseId : Option String)
  | switchThread (target : Uuid)
  | userInput (message : IncomingMessage) (thread : Uuid) (content : String)
      (checks : InputChecks)
  | loopEffect (index : Nat) (effect : LoopEffect)
  | loopDone (index : Nat) (result : Except String AgenticLoopResult) (hooks : HookRegistry)
      (responseId : Option String)
  | approval (message : IncomingMessage) (thread : Uuid) (requestId : Option Uuid)
      (approved always : Bool)
  | toolDone (index : Nat) (result : Except String String)
  | undo (thread freshId : Uuid)
  | redo (thread freshId : Uuid)
  | interrupt (thread : Uuid)
  | compact (thread : Uuid) (monitor : ContextMonitor) (world : CompactionWorld)
  | clear (thread : Uuid)
  | resume (thread checkpointId : Uuid)
  | authToken (thread : Uuid) (pending : PendingAuth) (outcome : AuthOutcome)
  | cancelAuth (thread : Uuid)

def Running.thread : Running → Uuid
  | .turn _ thread .. => thread
  | .tool _ thread _ => thread
  | .resumed _ thread _ => thread

/-- The state without the waiting handler an operation ends. -/
def AgentState.finish (s : AgentState) (index : Nat) : AgentState :=
  { s with running := s.running.eraseIdx index }

@[grind =] def step (deps : Deps) (s : AgentState) : Op → AgentState × List Event
  | .newThread freshId => processNewThread s freshId
  | .hydrate thread messages responseId => hydrateThread s thread messages responseId
  | .switchThread target => processSwitchThread s target
  | .userInput message thread content checks => processUserInput s message thread content checks
  | .loopEffect index effect =>
    match s.running[index]? with
    | some (.turn _ thread ..) | some (.resumed _ thread _) =>
      ({ s with session := s.session.modifyThread thread effect.apply }, [])
    | _ => (s, [])
  | .loopDone index result hooks responseId =>
    match s.running[index]? with
    | some (.turn message thread content _) =>
      processUserInputLoopDone deps (s.finish index) message thread content result hooks responseId
    | some (.resumed _ thread _) =>
      processApprovalLoopDone (s.finish index) thread result responseId
    | _ => (s, [])
  | .approval message thread requestId approved always =>
    processApproval s message thread requestId approved always
  | .toolDone index result =>
    match s.running[index]? with
    | some (.tool message thread pending) =>
      processApprovalToolDone deps (s.finish index) message thread pending result
    | _ => (s, [])
  | .undo thread freshId => processUndo s thread freshId
  | .redo thread freshId => processRedo s thread freshId
  | .interrupt thread => processInterrupt s thread
  | .compact thread monitor world => processCompact s thread monitor world
  | .clear thread => processClear s thread
  | .resume thread checkpointId => processResume s thread checkpointId
  | .authToken thread pending outcome => processAuthToken s thread pending outcome
  | .cancelAuth thread =>
    ({ s with session := s.session.modifyThread thread Thread.takePendingAuth }, [])

section UndoHandlers

variable {s : AgentState} {thread : Uuid} {t : Thread} {before : List Checkpoint} {c : Checkpoint}

/-- What an undo or a redo saves of the current state. -/
def Thread.snapshot (t : Thread) (freshId : Uuid) : Checkpoint :=
  ⟨freshId, t.turnNumber, t.messages, s!"Turn {t.turnNumber}"⟩

theorem processUndo_of_empty (h : (s.undo thread).undoStack = []) (freshId : Uuid) :
    processUndo s thread freshId = (s, [replyOk "Nothing to undo."]) := by
  simp [processUndo, UndoManager.canUndo, h]

theorem processUndo_of_missing (h : (s.undo thread).undoStack ≠ []) (ht : s.thread? thread = none)
    (freshId : Uuid) : processUndo s thread freshId = (s, [.replied (.notFound thread)]) := by
  simp [processUndo, UndoManager.canUndo, h, ht]

theorem processUndo_of_checkpoint (h : (s.undo thread).undoStack = before ++ [c])
    (ht : s.thread? thread = some t) (freshId : Uuid) :
    processUndo s thread freshId =
      ((s.setUndo thread { s.undo thread with
          undoStack := before, redoStack := (s.undo thread).redoStack ++ [t.snapshot freshId] }
        ).setThread thread (t.restoreFromMessages c.messages),
        [.threadRestored thread, replyOk
          s!"Undone to turn {c.turnNumber}. {before.length} undo(s) remaining."]) := by
  simp [processUndo, UndoManager.canUndo, UndoManager.undo, h, ht, Thread.snapshot]

theorem processRedo_of_empty (h : (s.undo thread).redoStack = []) (freshId : Uuid) :
    processRedo s thread freshId = (s, [replyOk "Nothing to redo."]) := by
  simp [processRedo, UndoManager.canRedo, h]

theorem processRedo_of_missing (h : (s.undo thread).redoStack ≠ []) (ht : s.thread? thread = none)
    (freshId : Uuid) : processRedo s thread freshId = (s, [.replied (.notFound thread)]) := by
  simp [processRedo, UndoManager.canRedo, h, ht]

theorem processRedo_of_checkpoint (h : (s.undo thread).redoStack = before ++ [c])
    (ht : s.thread? thread = some t) (freshId : Uuid) :
    processRedo s thread freshId =
      ((s.setUndo thread { (s.undo thread).pushUndo (t.snapshot freshId) with
          redoStack := before }).setThread thread (t.restoreFromMessages c.messages),
        [.threadRestored thread, replyOk s!"Redone to turn {c.turnNumber}."]) := by
  simp [processRedo, UndoManager.canRedo, UndoManager.redo, h, ht, Thread.snapshot]

end UndoHandlers

end Gyre.Agent
