/- digest: From the model's answers to text, tool calls and tool selections. -/

import Gyre.Llm.Provider
import Gyre.Safety.Validator

set_option autoImplicit false
set_option relaxedAutoImplicit false

namespace Gyre.Llm

open Gyre.Lib

/-- The parts of the agent its loops call without waiting: the JSON reader, the cleaning of the
model's text, the safety layer's validator, and the sanitised and wrapped form in which a tool's
output reaches the model. -/
structure Deps where
  serde : Serde
  cleanResponse : String → String
  validator : Safety.Validator
  wrapToolOutput : String → String → String

structure ToolCompletionResponse where
  content : Option String
  toolCalls : List ToolCall
  deriving DecidableEq, Repr

/-- An answer of the provider, for whichever of its two methods is called. -/
structure LlmAnswer where
  complete : Except String String
  completeWithTools : Except String ToolCompletionResponse

inductive RespondResult where
  | text (text : String)
  | toolCalls (toolCalls : List ToolCall) (content : Option String)
  deriving DecidableEq, Repr

structure ToolSelection where
  toolName : String
  parameters : Json
  reasoning : String
  toolCallId : String
  deriving DecidableEq, Repr

structure PlannedAction where
  toolName : String
  parameters : Json
  reasoning : String
  deriving DecidableEq, Repr

structure ActionPlan where
  goal : String
  actions : List PlannedAction
  deriving DecidableEq, Repr

/-- The tags some models write tool calls in. -/
def toolCallTags : List (String × String) :=
  [("<tool_call>", "</tool_call>"),
    ("<|tool_call|>", "<|/tool_call|>"),
    ("<function_call>", "</function_call>"),
    ("<|function_call|>", "<|/function_call|>")]

/-- The trimmed bodies of the tagged blocks of a text, from left to right. Every block takes at
least one character, so the length of the text is fuel enough. -/
def taggedBodies (opening closing : List Char) : Nat → List Char → List (List Char)
  | 0, _ => []
  | fuel + 1, remaining =>
    match Text.splitFirst opening remaining with
    | none => []
    | some (_, after) =>
      match Text.splitFirst closing after with
      | none => []
      | some (inner, rest) => Text.trim inner :: taggedBodies opening closing fuel rest

/-- The name and arguments a block asks for: a JSON object that names a tool, or a bare name. -/
def recoveredCall (serde : Serde) (toolNames : List String) (inner : String) :
    Option (String × Json) :=
  let named := (serde.fromStr inner).bind fun parsed =>
    match (parsed.get "name").bind Json.asStr with
    | some name =>
      if name ∈ toolNames then some (name, (parsed.get "arguments").getD (.object [])) else none
    | none => none
  match named with
  | some call => some call
  | none => if inner ∈ toolNames then some (inner, .object []) else none

/-- Add the call of one block, when there is one. -/
def recoverBlock (serde : Serde) (toolNames : List String) (calls : List ToolCall)
    (inner : List Char) : List ToolCall :=
  if inner.isEmpty then calls
  else
    match recoveredCall serde toolNames (String.ofList inner) with
    | some (name, arguments) => calls ++ [⟨s!"recovered_{calls.length}", name, arguments⟩]
    | none => calls

/-- Tool calls that the model wrote into its text. -/
def recoverToolCallsFromContent (serde : Serde) (content : String)
    (availableTools : List ToolDefinition) : List ToolCall :=
  toolCallTags.foldl (fun calls tags =>
    (taggedBodies tags.1.toList tags.2.toList (content.toList.length + 1) content.toList).foldl
      (recoverBlock serde (availableTools.map (·.name))) calls) []

/-- `respond_with_tools`, after the request: without tools to offer, the answer is only ever
text. -/
def respondWithTools (deps : Deps) (availableTools : List ToolDefinition) (answer : LlmAnswer) :
    Except String RespondResult :=
  if availableTools.isEmpty then
    match answer.complete with
    | .error e => .error e
    | .ok content => .ok (.text (deps.cleanResponse content))
  else
    match answer.completeWithTools with
    | .error e => .error e
    | .ok response =>
      if !response.toolCalls.isEmpty then .ok (.toolCalls response.toolCalls response.content)
      else
        let content := response.content.getD "I'm not sure how to respond to that."
        let recovered := recoverToolCallsFromContent deps.serde content availableTools
        if !recovered.isEmpty then
          let cleaned := deps.cleanResponse content
          .ok (.toolCalls recovered (if cleaned.isEmpty then none else some cleaned))
        else .ok (.text (deps.cleanResponse content))

/-- An answer with no tools on offer is never a tool call. -/
theorem offered_of_toolCalls {deps : Deps} {tools : List ToolDefinition} {answer : LlmAnswer}
    {calls : List ToolCall} {content : Option String}
    (h : respondWithTools deps tools answer = .ok (.toolCalls calls content)) :
    tools ≠ [] ∧ calls ≠ [] := by
  unfold respondWithTools at h
  split at h
  · split at h <;> cases h
  next hoffered =>
    refine ⟨by simpa using hoffered, ?_⟩
    split at h
    · cases h
    · split at h
      next hcalls =>
        cases h
        simpa using hcalls
      · dsimp only at h
        split at h
        next hrecovered =>
          cases h
          simpa using hrecovered
        · cases h

/-- With tools on offer, the model can answer with any calls. -/
theorem respondWithTools_calls (deps : Deps) {tools : List ToolDefinition} (hoffered : tools ≠ [])
    {calls : List ToolCall} (hcalls : calls ≠ []) (content : Option String)
    (complete : Except String String) :
    respondWithTools deps tools ⟨complete, .ok ⟨content, calls⟩⟩ =
      .ok (.toolCalls calls content) := by
  simp [respondWithTools, hoffered, hcalls]

/-- `respond`: tool calls are only put into words. -/
def respond (deps : Deps) (availableTools : List ToolDefinition) (answer : LlmAnswer) :
    Except String String :=
  match respondWithTools deps availableTools answer with
  | .error e => .error e
  | .ok (.text text) => .ok text
  | .ok (.toolCalls calls _) =>
    let info := ", ".intercalate
      (calls.map fun tc => s!"`{tc.name}({deps.serde.toStr tc.arguments})`")
    .ok s!"[Calling tools: {info}]"

/-- `select_tools`, after the request, which is only sent when there are tools. -/
def selectTools (availableTools : List ToolDefinition) (answer : LlmAnswer) :
    Except String (List ToolSelection) :=
  if availableTools.isEmpty then .ok []
  else
    match answer.completeWithTools with
    | .error e => .error e
    | .ok response =>
      .ok (response.toolCalls.map fun tc =>
        ⟨tc.name, tc.arguments, response.content.getD "", tc.id⟩)

end Gyre.Llm
