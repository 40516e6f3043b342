/- digest: Messages between agents as tasks in the receiver's research queue. -/

import Gyre.Cognitive.ResearchQueue

set_option autoImplicit false
set_option relaxedAutoImplicit false

namespace Gyre.Cognitive

open Gyre.Lib Gyre.Llm

/-- `char::is_alphanumeric`, with a table for what is not ASCII. -/
def isAlphanumeric (table : Char → Bool) (c : Char) : Bool :=
  if c.toNat < 128 then c.isAlphanum else table c

def validateAgentId (table : Char → Bool) (agentId : List Char) : Except String Unit :=
  let length := (agentId.map Char.utf8Size).sum
  if agentId.isEmpty then .error "agent_id must not be empty"
  else if 64 < length then .error s!"agent_id too long ({length} chars, max 64)"
  else if !agentId.all (fun c => isAlphanumeric table c || c == '-' || c == '_') then
    .error (s!"agent_id '{String.ofList agentId}' contains invalid characters " ++
      "(alphanumeric, hyphens, underscores only)")
  else .ok ()

structure A2AMessage where
  fromAgent : List Char
  toAgent : List Char
  task : List Char
  priority : Rat
  deriving DecidableEq, Repr

/-- The base directory, and the agents that have a box in it. -/
structure A2ARouter where
  table : Char → Bool
  baseDir : String
  boxes : List (List Char)

namespace A2ARouter

/-- Where the box of an agent would be. -/
def boxPath (r : A2ARouter) (agentId : List Char) : String :=
  s!"{r.baseDir}/{String.ofList agentId}_box"

def validateSender (r : A2ARouter) (fromAgent : List Char) : Except String Unit :=
  match validateAgentId r.table fromAgent with
  | .error e => .error e
  | .ok () =>
    if r.boxes.contains fromAgent then .ok ()
    else .error (s!"Sender agent '{String.ofList fromAgent}' not found " ++
      s!"(no box at {r.boxPath fromAgent})")

def formattedTask (fromAgent task : List Char) : List Char :=
  "[FROM:".toList ++ fromAgent ++ "] ".toList ++ task

/-- What is checked before the receiver's queue is opened. -/
def validate (r : A2ARouter) (msg : A2AMessage) : Except String Unit :=
  match validateAgentId r.table msg.fromAgent with
  | .error e => .error e
  | .ok () =>
    match validateAgentId r.table msg.toAgent with
    | .error e => .error e
    | .ok () =>
      match r.validateSender msg.fromAgent with
      | .error e => .error e
      | .ok () =>
        if r.boxes.contains msg.toAgent then .ok ()
        else .error (s!"Agent '{String.ofList msg.toAgent}' not found " ++
          s!"(no box at {r.boxPath msg.toAgent})")

/-- `send`, into the queue of the receiver. -/
def send (r : A2ARouter) (target : ResearchQueue) (id : Uuid) (now : Int) (msg : A2AMessage) :
    ResearchQueue × Except String Unit :=
  match r.validate msg with
  | .error e => (target, .error e)
  | .ok () =>
    match target.push id now (formattedTask msg.fromAgent msg.task) msg.priority "a2a" with
    | (after, .error e) => (after, .error s!"Failed to push A2A task: {e}")
    | (after, .ok _) => (after, .ok ())

end A2ARouter

/-- `pending_messages`, of the agent whose queue this is. -/
def pendingMessages (order : PriorityOrder) (q : ResearchQueue) : List ResearchTask :=
  (q.peek order 100).filter (·.source == "a2a")

end Gyre.Cognitive
