/- digest: The chat completions of the OpenAI-compatible API, answered at once or in chunks. -/

import Gyre.Lib.Text
import Gyre.Llm.ResponseCache

/-!
The provider has no streaming: both answers are made from its complete response. The printed form of
an error, the id and the time of an answer come from outside.
-/

set_option autoImplicit false
set_option relaxedAutoImplicit false

namespace Gyre.Channels.Web

open Gyre.Lib Gyre.Llm

section Requests

structure OpenAiToolCallFunction where
  name : String
  arguments : String
  deriving DecidableEq, Repr

structure OpenAiToolCall where
  id : String
  callType : String
  function : OpenAiToolCallFunction
  deriving DecidableEq, Repr

structure OpenAiMessage where
  role : String
  content : Option String
  name : Option String
  toolCallId : Option String
  toolCalls : Option (List OpenAiToolCall)
  deriving DecidableEq, Repr

structure OpenAiFunction where
  name : String
  description : Option String
  parameters : Option Json
  deriving DecidableEq, Repr

structure OpenAiTool where
  toolType : String
  function : OpenAiFunction
  deriving DecidableEq, Repr

/-- The temperature is the bits of an `f32`. -/
structure OpenAiChatRequest where
  model : String
  messages : List OpenAiMessage
  temperature : Option UInt32
  maxTokens : Option UInt32
  stream : Option Bool
  tools : Option (List OpenAiTool)
  toolChoice : Option Json
  stop : Option Json
  deriving DecidableEq, Repr

structure ToolCompletionRequest where
  messages : List ChatMessage
  tools : List ToolDefinition
  maxTokens : Option UInt32
  temperature : Option UInt32
  toolChoice : Option String
  metadata : List (String × String)
  deriving DecidableEq, Repr

structure ToolCompletionResponse where
  content : Option String
  toolCalls : List ToolCall
  inputTokens : UInt32
  outputTokens : UInt32
  finishReason : FinishReason
  responseId : Option String
  deriving DecidableEq, Repr

end Requests

section Responses

structure OpenAiChoice where
  index : Nat
  message : OpenAiMessage
  finishReason : String
  deriving DecidableEq, Repr

structure OpenAiUsage where
  promptTokens : UInt32
  completionTokens : UInt32
  totalTokens : UInt32
  deriving DecidableEq, Repr

structure OpenAiChatResponse where
  id : String
  object : String
  created : Nat
  model : String
  choices : List OpenAiChoice
  usage : OpenAiUsage
  deriving DecidableEq, Repr

structure OpenAiToolCallFunctionDelta where
  name : Option String
  arguments : Option String
  deriving DecidableEq, Repr

structure OpenAiToolCallDelta where
  index : UInt32
  id : Option String
  callType : Option String
  function : Option OpenAiToolCallFunctionDelta
  deriving DecidableEq, Repr

structure OpenAiDelta where
  role : Option String
  content : Option String
  toolCalls : Option (List OpenAiToolCallDelta)
  deriving DecidableEq, Repr

structure OpenAiChunkChoice where
  index : Nat
  delta : OpenAiDelta
  finishReason : Option String
  deriving DecidableEq, Repr

structure OpenAiChatChunk where
  id : String
  object : String
  created : Nat
  model : String
  choices : List OpenAiChunkChoice
  deriving DecidableEq, Repr

structure OpenAiErrorDetail where
  message : String
  errorType : String
  param : Option String
  code : Option String
  deriving DecidableEq, Repr

/-- What is sent on the stream: a chunk, or the `[DONE]` at its end. -/
inductive StreamEvent where
  | chunk (c : OpenAiChatChunk)
  | done
  deriving DecidableEq, Repr

/-- How the handler ends. A sum that overflows where overflow is checked ends it without an answer. -/
inductive Answer where
  | error (status : Nat) (detail : OpenAiErrorDetail)
  | json (response : OpenAiChatResponse)
  | stream (events : List StreamEvent)
  | panicked
  deriving DecidableEq, Repr

/-- What the provider is asked. -/
inductive ProviderCall where
  | complete (request : CompletionRequest)
  | completeWithTools (request : ToolCompletionRequest)
  deriving DecidableEq, Repr

end Responses

section Conversion

def parseRole (s : String) : Except String Role :=
  if s = "system" then .ok .system
  else if s = "user" then .ok .user
  else if s = "assistant" then .ok .assistant
  else if s = "tool" then .ok .tool
  else .error s!"Unknown role: '{s}'"

/-- A call of an assistant message; arguments that are not JSON become an empty object. -/
def convertToolCall (serde : Serde) (tc : OpenAiToolCall) : ToolCall :=
  ⟨tc.id, tc.function.name, (serde.fromStr tc.function.arguments).getD (.object [])⟩

def convertMessage (serde : Serde) (i : Nat) (m : OpenAiMessage) : Except String ChatMessage :=
  match parseRole m.role with
  | .error e => .error s!"messages[{i}]: {e}"
  | .ok .tool =>
    match m.toolCallId with
    | none => .error s!"messages[{i}]: tool message requires 'tool_call_id'"
    | some toolCallId =>
      match m.name with
      | none => .error s!"messages[{i}]: tool message requires 'name'"
      | some name => .ok (.toolResult toolCallId name (m.content.getD ""))
  | .ok .assistant =>
    match m.toolCalls with
    | some tcs => .ok (.assistantWithToolCalls m.content (tcs.map (convertToolCall serde)))
    | none => .ok (.assistant (m.content.getD ""))
  | .ok role => .ok ⟨role, m.content.getD "", none, m.name, none⟩

/-- `convert_messages`, from a position on: the first message that cannot be converted ends it. -/
def convertMessages (serde : Serde) : Nat → List OpenAiMessage → Except String (List ChatMessage)
  | _, [] => .ok []
  | i, m :: rest =>
    match convertMessage serde i m with
    | .error e => .error e
    | .ok message => (convertMessages serde (i + 1) rest).map (message :: ·)

def convertTools (tools : List OpenAiTool) : List ToolDefinition :=
  (tools.filter (·.toolType == "function")).map fun t =>
    ⟨t.function.name, t.function.description.getD "",
      t.function.parameters.getD (.object [("type", .string "object"), ("properties", .object [])])⟩

def convertToolCallsToOpenai (serde : Serde) (calls : List ToolCall) : List OpenAiToolCall :=
  calls.map fun tc => ⟨tc.id, "function", ⟨tc.name, serde.toStr tc.arguments⟩⟩

def finishReasonStr : FinishReason → String
  | .stop => "stop"
  | .length => "length"
  | .toolUse => "tool_calls"
  | .contentFilter => "content_filter"
  | .unknown => "stop"

def normalizeToolChoice (val : Json) : Option String :=
  match val with
  | .string s => some s
  | .object _ =>
    if (val.get "function").isSome then some "required" else (val.get "type").bind Json.asStr
  | _ => none

/-- Extract stop sequences from the flexible `stop` field. -/
def parseStop : Json → Option (List String)
  | .string s => some [s]
  | .array items =>
    let strs := items.filterMap Json.asStr
    if strs.isEmpty then none else some strs
  | _ => none

/-- `map_llm_error`; `text` is the printed error. -/
def mapLlmError (text : LlmError → String) (err : LlmError) : Answer :=
  let (status, errorType, code) :=
    match err with
    | .authFailed _ | .sessionExpired _ => (401, "authentication_error", "auth_error")
    | .rateLimited _ _ => (429, "rate_limit_error", "rate_limit")
    | .contextLengthExceeded _ _ => (400, "invalid_request_error", "context_length_exceeded")
    | .modelNotAvailable _ _ => (404, "invalid_request_error", "model_not_found")
    | _ => (500, "server_error", "internal_error")
  .error status ⟨text err, errorType, none, some code⟩

def openaiError (status : Nat) (message errorType : String) : Answer :=
  .error status ⟨message, errorType, none, none⟩

end Conversion

section Building

def completionRequestNew (messages : List ChatMessage) : CompletionRequest :=
  ⟨messages, none, none, none, []⟩

def toolCompletionRequestNew (messages : List ChatMessage) (tools : List ToolDefinition) :
    ToolCompletionRequest :=
  ⟨messages, tools, none, none, none, []⟩

/-- `if let Some(v) = value { request = set(request, v) }`. -/
def setting {ρ α : Type} (value : Option α) (set : ρ → α → ρ) (request : ρ) : ρ :=
  match value with
  | some v => set request v
  | none => request

end Building

/-- What a request meets: the rate limiter, the provider with the two answers it would give, and
whether the build checks sums for overflow. -/
structure CompletionsWorld where
  serde : Serde
  errorText : LlmError → String
  allowed : Bool
  configured : Bool
  activeModelName : String
  modelName : String
  id : String
  created : Nat
  answer : Except LlmError CompletionResponse
  toolsAnswer : Except LlmError ToolCompletionResponse
  overflowChecks : Bool

/-- The sum of two `u32`; where overflow is checked there is none beyond the type. -/
def addTokens (overflowChecks : Bool) (a b : UInt32) : Option UInt32 :=
  if overflowChecks && decide (2 ^ 32 ≤ a.toNat + b.toNat) then none else some (a + b)

section Streaming

/-- `str::split_inclusive` at white space. -/
def splitInclusive : List Char → List (List Char)
  | [] => []
  | c :: rest =>
    if Text.isWhitespace c then [c] :: splitInclusive rest
    else
      match splitInclusive rest with
      | [] => [[c]]
      | word :: words => (c :: word) :: words

/-- The loop of `stream_content_chunks`: words are gathered to pieces of at least 20 bytes. -/
def contentPieces : (buf : List Char) → List (List Char) → List (List Char)
  | buf, [] => if buf.isEmpty then [] else [buf]
  | buf, word :: rest =>
    let buf := buf ++ word
    if (buf.map Char.utf8Size).sum ≥ 20 then buf :: contentPieces [] rest
    else contentPieces buf rest

/-- A chunk with one choice. -/
def chunkOf (w : CompletionsWorld) (delta : OpenAiDelta) (finishReason : Option String) : StreamEvent :=
  .chunk ⟨w.id, "chat.completion.chunk", w.created, w.modelName, [⟨0, delta, finishReason⟩]⟩

def streamContentChunks (w : CompletionsWorld) (content : String) : List StreamEvent :=
  (contentPieces [] (splitInclusive content.toList)).map fun piece =>
    chunkOf w ⟨none, some (String.ofList piece), none⟩ none

def sendFinishChunk (w : CompletionsWorld) (reason : FinishReason) : StreamEvent :=
  chunkOf w ⟨none, none, none⟩ (some (finishReasonStr reason))

def toolCallDeltas (serde : Serde) (calls : List ToolCall) : List OpenAiToolCallDelta :=
  calls.mapIdx fun i tc =>
    ⟨UInt32.ofNat i, some tc.id, some "function", some ⟨some tc.name, some (serde.toStr tc.arguments)⟩⟩

/-- `handle_streaming`: the provider answers before the stream begins. -/
def handleStreaming (w : CompletionsWorld) (req : OpenAiChatRequest) (hasTools : Bool) :
    List ProviderCall × Answer :=
  match convertMessages w.serde 0 req.messages with
  | .error e => ([], openaiError 400 e "invalid_request_error")
  | .ok messages =>
    let roleChunk := chunkOf w ⟨some "assistant", none, none⟩ none
    if hasTools then
      let toolReq := toolCompletionRequestNew messages (convertTools (req.tools.getD []))
      let toolReq := setting req.temperature (fun r t => { r with temperature := some t }) toolReq
      let toolReq := setting req.maxTokens (fun r mt => { r with maxTokens := some mt }) toolReq
      let toolReq := setting (req.toolChoice.bind normalizeToolChoice)
        (fun r choice => { r with toolChoice := some choice }) toolReq
      match w.toolsAnswer with
      | .error e => ([.completeWithTools toolReq], mapLlmError w.errorText e)
      | .ok resp =>
        let contentChunks := (resp.content.map (streamContentChunks w)).getD []
        let toolChunks :=
          if resp.toolCalls.isEmpty then []
          else [chunkOf w ⟨none, none, some (toolCallDeltas w.serde resp.toolCalls)⟩ none]
        ([.completeWithTools toolReq],
          .stream (roleChunk :: contentChunks ++ toolChunks ++
            [sendFinishChunk w resp.finishReason, .done]))
    else
      let compReq := completionRequestNew messages
      let compReq := setting req.temperature (fun r t => { r with temperature := some t }) compReq
      let compReq := setting req.maxTokens (fun r mt => { r with maxTokens := some mt }) compReq
      let compReq := setting req.stop (fun r v => { r with stopSequences := parseStop v }) compReq
      match w.answer with
      | .error e => ([.complete compReq], mapLlmError w.errorText e)
      | .ok resp =>
        ([.complete compReq],
          .stream (roleChunk :: streamContentChunks w resp.content ++
            [sendFinishChunk w resp.finishReason, .done]))

end Streaming

/-- The response to a request that does not stream. -/
def chatResponse (w : CompletionsWorld) (content : Option String)
    (toolCalls : Option (List OpenAiToolCall)) (finishReason : FinishReason)
    (inputTokens outputTokens : UInt32) : Answer :=
  match addTokens w.overflowChecks inputTokens outputTokens with
  | none => .panicked
  | some totalTokens =>
    .json ⟨w.id, "chat.completion", w.created, w.modelName,
      [⟨0, ⟨"assistant", content, none, none, toolCalls⟩, finishReasonStr finishReason⟩],
      ⟨inputTokens, outputTokens, totalTokens⟩⟩

/-- The path of `chat_completions_handler` that does not stream. -/
def answerAtOnce (w : CompletionsWorld) (req : OpenAiChatRequest) (hasTools : Bool) :
    List ProviderCall × Answer :=
  match convertMessages w.serde 0 req.messages with
  | .error e => ([], openaiError 400 e "invalid_request_error")
  | .ok messages =>
    if hasTools then
      let toolReq := toolCompletionRequestNew messages (convertTools (req.tools.getD []))
      let toolReq := setting req.temperature (fun r t => { r with temperature := some t }) toolReq
      let toolReq := setting req.maxTokens (fun r mt => { r with maxTokens := some mt }) toolReq
      let toolReq := setting (req.toolChoice.bind normalizeToolChoice)
        (fun r choice => { r with toolChoice := some choice }) toolReq
      match w.toolsAnswer with
      | .error e => ([.completeWithTools toolReq], mapLlmError w.errorText e)
      | .ok resp =>
        let toolCallsOpenai :=
          if resp.toolCalls.isEmpty then none
          else some (convertToolCallsToOpenai w.serde resp.toolCalls)
        ([.completeWithTools toolReq],
          chatResponse w resp.content toolCallsOpenai resp.finishReason resp.inputTokens
            resp.outputTokens)
    else
      let compReq := completionRequestNew messages
      let compReq := setting req.temperature (fun r t => { r with temperature := some t }) compReq
      let compReq := setting req.maxTokens (fun r mt => { r with maxTokens := some mt }) compReq
      let compReq := setting req.stop (fun r v => { r with stopSequences := parseStop v }) compReq
      match w.answer with
      | .error e => ([.complete compReq], mapLlmError w.errorText e)
      | .ok resp =>
        ([.complete compReq],
          chatResponse w (some resp.content) none resp.finishReason resp.inputTokens
            resp.outputTokens)

/-- There are tools in the request. -/
def OpenAiChatRequest.hasTools (req : OpenAiChatRequest) : Bool :=
  (req.tools.map fun tools => !tools.isEmpty).getD false

/-- `chat_completions_handler`. -/
def chatCompletionsHandler (w : CompletionsWorld) (req : OpenAiChatRequest) :
    List ProviderCall × Answer :=
  if !w.allowed then
    ([], openaiError 429 "Rate limit exceeded. Please try again later." "rate_limit_error")
  else if !w.configured then ([], openaiError 503 "LLM provider not configured" "server_error")
  else if req.messages.isEmpty then
    ([], openaiError 400 "messages must not be empty" "invalid_request_error")
  else if req.model ≠ w.activeModelName then
    ([], .error 404
      ⟨s!"Model '{req.model}' not found. The active model is '{w.activeModelName}'.",
        "invalid_request_error", some "model", some "model_not_found"⟩)
  else if req.stream.getD false then handleStreaming w req req.hasTools
  else answerAtOnce w req req.hasTools

end Gyre.Channels.Web
