/- digest: Chat messages and tool calls exchanged with a language model, and what goes wrong with a call to it. -/

import Gyre.Llm.Value

set_option autoImplicit false
set_option relaxedAutoImplicit false

namespace Gyre.Llm

inductive Role where
  | system
  | user
  | assistant
  | tool
  deriving DecidableEq, Repr

/-- A tool call requested by the model. -/
structure ToolCall where
  id : String
  name : String
  arguments : Json
  deriving DecidableEq, Repr

/-- What the model is told about a tool. -/
structure ToolDefinition where
  name : String
  description : String
  parameters : Json
  deriving DecidableEq, Repr

/-- A message in a conversation. -/
structure ChatMessage where
  role : Role
  content : String
  toolCallId : Option String
  name : Option String
  toolCalls : Option (List ToolCall)
  deriving DecidableEq, Repr

namespace ChatMessage

def system (content : String) : ChatMessage :=
  ⟨.system, content, none, none, none⟩

@[grind =] def user (content : String) : ChatMessage :=
  ⟨.user, content, none, none, none⟩

@[grind =] def assistant (content : String) : ChatMessage :=
  ⟨.assistant, content, none, none, none⟩

/-- An assistant message carrying tool calls; an empty list is sent as no list at all. -/
@[grind =] def assistantWithToolCalls (content : Option String) (toolCalls : List ToolCall) : ChatMessage :=
  ⟨.assistant, content.getD "", none, none, if toolCalls.isEmpty then none else some toolCalls⟩

def toolResult (toolCallId name content : String) : ChatMessage :=
  ⟨.tool, content, some toolCallId, some name, none⟩

end ChatMessage

/-- The errors of other libraries are their texts; a duration is in nanoseconds. -/
inductive LlmError where
  | requestFailed (provider reason : String)
  | rateLimited (provider : String) (retryAfter : Option Nat)
  | invalidResponse (provider reason : String)
  | contextLengthExceeded (used limit : Nat)
  | modelNotAvailable (provider model : String)
  | authFailed (provider : String)
  | sessionExpired (provider : String)
  | sessionRenewalFailed (provider reason : String)
  | http (error : String)
  | json (error : String)
  | io (error : String)
  deriving DecidableEq, Repr

end Gyre.Llm
