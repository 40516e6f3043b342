/- digest: Sessions, threads and turns, with the operations that change them. -/

import Mathlib.Data.Finset.Insert
import Mathlib.Data.List.AList
import Gyre.Llm.Provider

set_option autoImplicit false
set_option relaxedAutoImplicit false

namespace Gyre.Agent

open Gyre.Llm

inductive ThreadState where
  | idle
  | processing
  | awaitingApproval
  | completed
  | interrupted
  deriving DecidableEq, Repr

inductive TurnState where
  | processing
  | completed
  | failed
  | interrupted
  deriving DecidableEq, Repr

/-- Record of a tool call made during a turn. -/
structure TurnToolCall where
  name : String
  parameters : Json
  result : Option Json
  error : Option String
  deriving DecidableEq, Repr

/-- A single request/response pair of a thread. -/
structure Turn where
  turnNumber : Nat
  userInput : String
  response : Option String
  toolCalls : List TurnToolCall
  state : TurnState
  error : Option String
  deriving DecidableEq, Repr

namespace Turn

@[grind =] def new (turnNumber : Nat) (userInput : String) : Turn :=
  ⟨turnNumber, userInput, none, [], .processing, none⟩

@[grind =] def complete (t : Turn) (response : String) : Turn :=
  { t with response := some response, state := .completed }

def fail (t : Turn) (error : String) : Turn :=
  { t with error := some error, state := .failed }

def interrupt (t : Turn) : Turn :=
  { t with state := .interrupted }

def recordToolCall (t : Turn) (name : String) (params : Json) : Turn :=
  { t with toolCalls := t.toolCalls ++ [⟨name, params, none, none⟩] }

/-- The result goes to the call recorded last, whichever call produced it. -/
def recordToolResult (t : Turn) (result : Json) : Turn :=
  { t with toolCalls := t.toolCalls.modifyLast (fun c => { c with result := some result }) }

def recordToolError (t : Turn) (error : String) : Turn :=
  { t with toolCalls := t.toolCalls.modifyLast (fun c => { c with error := some error }) }

end Turn

/-- An extension waiting for its token. -/
structure PendingAuth where
  extensionName : String
  deriving DecidableEq, Repr

/-- A tool call held until the user answers. -/
structure PendingApproval where
  requestId : Uuid
  toolName : String
  parameters : Json
  description : String
  toolCallId : String
  contextMessages : List ChatMessage
  deriving DecidableEq, Repr

/-- A conversation thread within a session. -/
structure Thread where
  id : Uuid
  sessionId : Uuid
  state : ThreadState
  turns : List Turn
  pendingApproval : Option PendingApproval
  pendingAuth : Option PendingAuth
  lastResponseId : Option String
  deriving DecidableEq, Repr

/-- The turns a checkpoint's messages stand for: every user message opens a turn, and an assistant
message right after it is that turn's response. -/
@[grind =] def turnsFromMessages (turnNumber : Nat) : List ChatMessage → List Turn
  | [] => []
  | msg :: rest =>
    if msg.role = .user then
      match rest with
      | next :: rest' =>
        if next.role = .assistant then
          (Turn.new turnNumber msg.content).complete next.content ::
            turnsFromMessages (turnNumber + 1) rest'
        else
          Turn.new turnNumber msg.content :: turnsFromMessages (turnNumber + 1) (next :: rest')
      | [] => [Turn.new turnNumber msg.content]
    else
      turnsFromMessages turnNumber rest

namespace Thread

/-- `Thread::with_id`; `Thread::new` is the same with a fresh identifier. -/
def withId (id sessionId : Uuid) : Thread :=
  ⟨id, sessionId, .idle, [], none, none, none⟩

def turnNumber (t : Thread) : Nat := t.turns.length + 1

def lastTurn (t : Thread) : Option Turn := t.turns.getLast?

/-- `last_turn_mut`, as an update of the last turn. -/
def modifyLastTurn (t : Thread) (f : Turn → Turn) : Thread :=
  { t with turns := t.turns.modifyLast f }

def startTurn (t : Thread) (userInput : String) : Thread :=
  { t with turns := t.turns ++ [Turn.new t.turns.length userInput], state := .processing }

def completeTurn (t : Thread) (response : String) : Thread :=
  { t.modifyLastTurn (·.complete response) with state := .idle }

def failTurn (t : Thread) (error : String) : Thread :=
  { t.modifyLastTurn (·.fail error) with state := .idle }

def awaitApproval (t : Thread) (pending : PendingApproval) : Thread :=
  { t with state := .awaitingApproval, pendingApproval := some pending }

/-- The thread left behind by `take_pending_approval`. -/
def takePendingApproval (t : Thread) : Thread :=
  { t with pendingApproval := none }

def clearPendingApproval (t : Thread) : Thread :=
  { t with pendingApproval := none, state := .idle }

def enterAuthMode (t : Thread) (extensionName : String) : Thread :=
  { t with pendingAuth := some ⟨extensionName⟩ }

/-- The thread with auth mode cleared. -/
def takePendingAuth (t : Thread) : Thread :=
  { t with pendingAuth := none }

def interrupt (t : Thread) : Thread :=
  { t.modifyLastTurn Turn.interrupt with state := .interrupted }

/-- Resume after interruption. -/
def resume (t : Thread) : Thread :=
  if t.state = .interrupted then { t with state := .idle } else t

/-- All messages for context building. -/
def messages (t : Thread) : List ChatMessage :=
  t.turns.flatMap fun turn =>
    ChatMessage.user turn.userInput ::
      match turn.response with
      | some response => [ChatMessage.assistant response]
      | none => []

/-- Keep the most recent turns and number them from zero again. -/
def truncateTurns (t : Thread) (keep : Nat) : Thread :=
  if t.turns.length > keep then
    let kept := t.turns.drop (t.turns.length - keep)
    { t with turns := kept.mapIdx (fun i turn => { turn with turnNumber := i }) }
  else t

def restoreFromMessages (t : Thread) (messages : List ChatMessage) : Thread :=
  { t with turns := turnsFromMessages 0 messages, state := .idle }

end Thread

/-- A session containing one or more threads. The thread table is a hash map in the source; no
operation depends on its order. -/
structure Session where
  id : Uuid
  userId : String
  activeThread : Option Uuid
  threads : AList fun _ : Uuid => Thread
  autoApprovedTools : Finset String

/-- Outcome of `resolve_approval_thread`. -/
inductive ApprovalThreadResolution where
  | found (thread : Uuid)
  | notFound
  | ambiguous (threads : List Uuid)
  deriving DecidableEq, Repr

namespace Session

@[grind =] def new (id : Uuid) (userId : String) : Session :=
  ⟨id, userId, none, ∅, ∅⟩

def isToolAutoApproved (s : Session) (toolName : String) : Bool :=
  decide (toolName ∈ s.autoApprovedTools)

def autoApproveTool (s : Session) (toolName : String) : Session :=
  { s with autoApprovedTools := insert toolName s.autoApprovedTools }

def thread? (s : Session) (id : Uuid) : Option Thread := s.threads.lookup id

/-- Put a thread back under a key of the table. -/
def setThread (s : Session) (id : Uuid) (t : Thread) : Session :=
  { s with threads := s.threads.insert id t }

/-- `threads.get_mut` followed by an update; a missing thread is left missing. -/
def modifyThread (s : Session) (id : Uuid) (f : Thread → Thread) : Session :=
  match s.thread? id with
  | some t => s.setThread id (f t)
  | none => s

/-- Whether a thread holds an approval the answer can be for. -/
def holdsApproval (requestId : Option Uuid) (t : Thread) : Bool :=
  decide (t.state = .awaitingApproval) &&
    match t.pendingApproval, requestId with
    | some p, some rid => decide (p.requestId = rid)
    | some _, none => true
    | none, _ => false

/-- Which thread holds the pending approval an incoming answer is for. Only an answer with a
request id may be matched against threads other than the addressed one. -/
def resolveApprovalThread (s : Session) (addressed : Uuid) (requestId : Option Uuid) :
    ApprovalThreadResolution :=
  if (s.thread? addressed).any (holdsApproval requestId) then
    .found addressed
  else
    match requestId with
    | none => .notFound
    | some rid =>
      match (s.threads.entries.filter fun e => holdsApproval (some rid) e.2).map (·.2.id) with
      | [only] => .found only
      | [] => .notFound
      | candidates => .ambiguous candidates

/-- `create_thread` with the identifier the generator handed out. -/
def createThread (s : Session) (id : Uuid) : Session :=
  { s.setThread id (Thread.withId id s.id) with activeThread := some id }

def switchThread (s : Session) (id : Uuid) : Option Session :=
  if (s.thread? id).isSome then some { s with activeThread := some id } else none

@[simp] theorem thread?_setThread (s : Session) (id : Uuid) (t : Thread) :
    (s.setThread id t).thread? id = some t := by
  simp [thread?, setThread]

@[simp] theorem thread?_setThread_ne (s : Session) {id other : Uuid} (t : Thread)
    (h : other ≠ id) : (s.setThread id t).thread? other = s.thread? other := by
  simp [thread?, setThread, AList.lookup_insert_ne h]

end Session

end Gyre.Agent
