/- digest: A streamed chat completion against the same completion answered at once. -/

import Gyre.Channels.Web.OpenaiCompat

set_option autoImplicit false
set_option relaxedAutoImplicit false

namespace Gyre.Channels.Web

open Gyre.Lib Gyre.Llm

section Collecting

/-- The deltas of an event. -/
def StreamEvent.deltas : StreamEvent → List OpenAiDelta
  | .chunk c => c.choices.map (·.delta)
  | .done => []

def StreamEvent.finishReasons : StreamEvent → List String
  | .chunk c => c.choices.filterMap (·.finishReason)
  | .done => []

/-- A call put together from its delta. -/
def OpenAiToolCallDelta.call (d : OpenAiToolCallDelta) : OpenAiToolCall :=
  ⟨d.id.getD "", d.callType.getD "",
    ⟨(d.function.bind (·.name)).getD "", (d.function.bind (·.arguments)).getD ""⟩⟩

/-- What a client makes of a stream: the content deltas one after the other, the calls with their
indices, and the finish reasons it was told. -/
def collectedText (events : List StreamEvent) : List Char :=
  (events.flatMap (·.deltas)).flatMap fun d => (d.content.getD "").toList

def collectedCalls (events : List StreamEvent) : List (UInt32 × OpenAiToolCall) :=
  (events.flatMap (·.deltas)).flatMap fun d =>
    (d.toolCalls.getD []).map fun call => (call.index, call.call)

def collectedReasons (events : List StreamEvent) : List String :=
  events.flatMap (·.finishReasons)

/-- What a client makes of some events. -/
structure Collects (events : List StreamEvent) (text : List Char)
    (calls : List (UInt32 × OpenAiToolCall)) (reasons : List String) : Prop where
  text : collectedText events = text
  calls : collectedCalls events = calls
  reasons : collectedReasons events = reasons

theorem Collects.append {a b : List StreamEvent} {s t : List Char}
    {calls calls' : List (UInt32 × OpenAiToolCall)} {reasons reasons' : List String}
    (ha : Collects a s calls reasons) (hb : Collects b t calls' reasons') :
    Collects (a ++ b) (s ++ t) (calls ++ calls') (reasons ++ reasons') where
  text := by
    rw [← ha.text, ← hb.text, collectedText, List.flatMap_append, List.flatMap_append]
    rfl
  calls := by
    rw [← ha.calls, ← hb.calls, collectedCalls, List.flatMap_append, List.flatMap_append]
    rfl
  reasons := by
    rw [← ha.reasons, ← hb.reasons, collectedReasons, List.flatMap_append]
    rfl

end Collecting

section Pieces

theorem splitInclusive_flatten (s : List Char) : (splitInclusive s).flatten = s := by
  induction s with
  | nil => rfl
  | cons c rest ih =>
    rw [splitInclusive]
    split
    · rw [List.flatten_cons, ih, List.singleton_append]
    · cases hrest : splitInclusive rest with
      | nil =>
        rw [hrest] at ih
        rw [← ih]
        rfl
      | cons word words =>
        rw [hrest, List.flatten_cons] at ih
        rw [← ih]
        rfl

theorem contentPieces_flatten (words : List (List Char)) (buf : List Char) :
    (contentPieces buf words).flatten = buf ++ words.flatten := by
  induction words generalizing buf with
  | nil =>
    cases buf with
    | nil => rfl
    | cons c rest => simp [contentPieces]
  | cons word words ih =>
    rw [contentPieces, List.flatten_cons]
    split
    · rw [List.flatten_cons, ih, List.nil_append, List.append_assoc]
    · rw [ih, List.append_assoc]

end Pieces

section Chunks

variable (w : CompletionsWorld)

theorem collects_chunkOf (delta : OpenAiDelta) (finishReason : Option String) :
    Collects [chunkOf w delta finishReason] (delta.content.getD "").toList
      ((delta.toolCalls.getD []).map fun call => (call.index, call.call)) finishReason.toList := by
  constructor
  · simp [collectedText, chunkOf, StreamEvent.deltas]
  · simp [collectedCalls, chunkOf, StreamEvent.deltas]
  · cases finishReason <;> rfl

/-- The content chunks are the content cut in pieces, and nothing else. -/
theorem collects_streamContentChunks (content : String) :
    Collects (streamContentChunks w content) content.toList [] [] := by
  have hpieces (pieces : List (List Char)) :
      Collects (pieces.map fun piece => chunkOf w ⟨none, some (String.ofList piece), none⟩ none)
        pieces.flatten [] [] := by
    induction pieces with
    | nil => exact ⟨rfl, rfl, rfl⟩
    | cons piece pieces ih =>
      have hchunk := collects_chunkOf w ⟨none, some (String.ofList piece), none⟩ none
      have hall := hchunk.append ih
      rw [Option.getD_some, String.toList_ofList] at hall
      exact hall
  have hcontent := hpieces (contentPieces [] (splitInclusive content.toList))
  rw [contentPieces_flatten, splitInclusive_flatten, List.nil_append] at hcontent
  exact hcontent

/-- The calls of an answer at once, numbered in their order. -/
def numbered (calls : List OpenAiToolCall) : List (UInt32 × OpenAiToolCall) :=
  calls.mapIdx fun i call => (UInt32.ofNat i, call)

theorem toolCallDeltas_calls (serde : Serde) (calls : List ToolCall) :
    (toolCallDeltas serde calls).map (fun call => (call.index, call.call)) =
      numbered (convertToolCallsToOpenai serde calls) := by
  unfold toolCallDeltas numbered convertToolCallsToOpenai
  apply List.ext_getElem?
  intro i
  simp only [List.getElem?_map, List.getElem?_mapIdx, Option.map_map]
  rfl

/-- The chunks between the one with the role and the end of the stream. -/
theorem collects_stream (content : Option String) (calls : List ToolCall) (reason : FinishReason) :
    Collects
      (chunkOf w ⟨some "assistant", none, none⟩ none ::
        (content.map (streamContentChunks w)).getD [] ++
          (if calls.isEmpty then []
            else [chunkOf w ⟨none, none, some (toolCallDeltas w.serde calls)⟩ none]) ++
          [sendFinishChunk w reason, .done])
      (content.getD "").toList
      (numbered ((if calls.isEmpty then none
        else some (convertToolCallsToOpenai w.serde calls)).getD []))
      [finishReasonStr reason] := by
  have hrole := collects_chunkOf w ⟨some "assistant", none, none⟩ none
  have hcontent : Collects ((content.map (streamContentChunks w)).getD [])
      (content.getD "").toList [] [] := by
    cases content with
    | none => exact ⟨rfl, rfl, rfl⟩
    | some content => exact collects_streamContentChunks w content
  have hcalls : Collects (if calls.isEmpty then []
      else [chunkOf w ⟨none, none, some (toolCallDeltas w.serde calls)⟩ none]) []
      (numbered ((if calls.isEmpty then none
        else some (convertToolCallsToOpenai w.serde calls)).getD [])) [] := by
    by_cases hempty : calls.isEmpty = true
    · rw [if_pos hempty, if_pos hempty]
      exact ⟨rfl, rfl, rfl⟩
    · rw [if_neg hempty, if_neg hempty, Option.getD_some, ← toolCallDeltas_calls]
      exact collects_chunkOf w ⟨none, none, some (toolCallDeltas w.serde calls)⟩ none
  have hdone : Collects [.done] [] [] [] := ⟨rfl, rfl, rfl⟩
  have hend : Collects [sendFinishChunk w reason, .done] [] [] [finishReasonStr reason] :=
    (collects_chunkOf w ⟨none, none, none⟩ (some (finishReasonStr reason))).append hdone
  have hall := ((hrole.append hcontent).append hcalls).append hend
  simp only [Option.getD_none, List.map_nil, Option.toList_none, List.nil_append, List.append_nil]
    at hall
  exact hall

/-- The stream of an answer that is text only. -/
theorem collects_textStream (content : String) (reason : FinishReason) :
    Collects
      (chunkOf w ⟨some "assistant", none, none⟩ none :: streamContentChunks w content ++
        [sendFinishChunk w reason, .done])
      ((some content).getD "").toList (numbered []) [finishReasonStr reason] := by
  have hstream := collects_stream w (some content) [] reason
  simp only [List.isEmpty_nil, if_true, List.append_nil, Option.map_some, Option.getD_some,
    Option.getD_none] at hstream
  exact hstream

end Chunks

/-- The two answers say the same: the same error, or the same content, the same calls in the same
order and one finish reason, the same. -/
def Matches : Answer → Answer → Prop
  | .error status detail, .error status' detail' => status = status' ∧ detail = detail'
  | .stream events, .json response =>
    ∃ choice, response.choices = [choice] ∧
      String.ofList (collectedText events) = choice.message.content.getD "" ∧
        collectedCalls events = numbered (choice.message.toolCalls.getD []) ∧
          collectedReasons events = [choice.finishReason]
  | _, _ => False

/-- The tokens of the provider's answer, when it has one for the request. -/
def usedTokens (w : CompletionsWorld) (req : OpenAiChatRequest) : Option (UInt32 × UInt32) :=
  if req.hasTools then w.toolsAnswer.toOption.map fun r => (r.inputTokens, r.outputTokens)
  else w.answer.toOption.map fun r => (r.inputTokens, r.outputTokens)

/-- Sums are not checked for overflow, or this one does not overflow. -/
def TokensFit (w : CompletionsWorld) (req : OpenAiChatRequest) : Prop :=
  w.overflowChecks = true → ∀ tokens ∈ usedTokens w req,
    tokens.1.toNat + tokens.2.toNat < 2 ^ 32

/-- The endpoint accepts the request. -/
structure Accepted (w : CompletionsWorld) (req : OpenAiChatRequest) : Prop where
  allowed : w.allowed = true
  configured : w.configured = true
  messages : req.messages ≠ []
  model : req.model = w.activeModelName
  converted : ∃ messages, convertMessages w.serde 0 req.messages = .ok messages

section Answers

variable {w : CompletionsWorld} {req : OpenAiChatRequest}

theorem handler_accepted (h : Accepted w req) (stream : Option Bool) :
    chatCompletionsHandler w { req with stream := stream } =
      if stream.getD false then handleStreaming w { req with stream := stream } req.hasTools
      else answerAtOnce w { req with stream := stream } req.hasTools := by
  have hmessages : req.messages.isEmpty = false := List.isEmpty_eq_false_iff.mpr h.messages
  unfold chatCompletionsHandler
  simp [h.allowed, h.configured, hmessages, h.model, OpenAiChatRequest.hasTools]

/-- The provider is asked the same on both paths. -/
theorem same_calls (stream stream' : Option Bool) (hasTools : Bool) :
    (handleStreaming w { req with stream := stream } hasTools).1 =
      (answerAtOnce w { req with stream := stream' } hasTools).1 := by
  unfold handleStreaming answerAtOnce
  cases convertMessages w.serde 0 req.messages with
  | error e => rfl
  | ok messages =>
    cases hasTools with
    | true => cases w.toolsAnswer <;> rfl
    | false => cases w.answer <;> rfl

theorem matches_chatResponse_iff {events : List StreamEvent} {content : Option String}
    {toolCalls : Option (List OpenAiToolCall)} {reason : FinishReason}
    (h : Collects events (content.getD "").toList (numbered (toolCalls.getD []))
      [finishReasonStr reason]) (inputTokens outputTokens : UInt32) :
    Matches (.stream events)
        (chatResponse w content toolCalls reason inputTokens outputTokens) ↔
      (w.overflowChecks = true → inputTokens.toNat + outputTokens.toNat < 2 ^ 32) := by
  unfold chatResponse addTokens
  by_cases hover :
      (w.overflowChecks && decide (2 ^ 32 ≤ inputTokens.toNat + outputTokens.toNat)) = true
  · rw [if_pos hover]
    rw [Bool.and_eq_true, decide_eq_true_eq] at hover
    constructor
    · exact False.elim
    · intro hfits
      have hlt := hfits hover.1
      omega
  · rw [if_neg hover]
    rw [Bool.and_eq_true, decide_eq_true_eq, not_and] at hover
    constructor
    · intro _ hchecked
      have hle := hover hchecked
      omega
    · intro _
      refine ⟨_, rfl, ?_, h.calls, h.reasons⟩
      rw [h.text, String.ofList_toList]

theorem matches_mapLlmError (e : LlmError) :
    Matches (mapLlmError w.errorText e) (mapLlmError w.errorText e) := by
  cases e <;> exact ⟨rfl, rfl⟩

theorem matches_iff (h : Accepted w req) (stream stream' : Option Bool) :
    Matches (handleStreaming w { req with stream := stream } req.hasTools).2
        (answerAtOnce w { req with stream := stream' } req.hasTools).2 ↔ TokensFit w req := by
  obtain ⟨messages, hconverted⟩ := h.converted
  unfold handleStreaming answerAtOnce TokensFit usedTokens
  simp only [hconverted]
  cases req.hasTools with
  | true =>
    cases htools : w.toolsAnswer with
    | error e =>
      refine iff_of_true (matches_mapLlmError e) fun _ tokens htokens => ?_
      cases htokens
    | ok resp =>
      have hcollects := collects_stream w resp.content resp.toolCalls resp.finishReason
      refine (matches_chatResponse_iff hcollects resp.inputTokens resp.outputTokens).trans ?_
      exact imp_congr_right fun _ => by simp [Except.toOption]
  | false =>
    cases hanswer : w.answer with
    | error e =>
      refine iff_of_true (matches_mapLlmError e) fun _ tokens htokens => ?_
      cases htokens
    | ok resp =>
      have hcollects := collects_textStream w resp.content resp.finishReason
      have hiff : _ ↔ (w.overflowChecks = true →
          resp.inputTokens.toNat + resp.outputTokens.toNat < 2 ^ 32) :=
        @matches_chatResponse_iff w _ _ none _ hcollects resp.inputTokens resp.outputTokens
      refine hiff.trans ?_
      exact imp_congr_right fun _ => by simp [Except.toOption]

end Answers

/-- Whether a request streams or not, the provider is asked the same, and the answers say the same
exactly when the sum of the tokens does not overflow where that is checked. -/
theorem streaming_matches_iff (w : CompletionsWorld) (req : OpenAiChatRequest) (h : Accepted w req)
    (off : Option Bool) (hoff : off ≠ some true) :
    let streamed := chatCompletionsHandler w { req with stream := some true }
    let plain := chatCompletionsHandler w { req with stream := off }
    streamed.1 = plain.1 ∧ (Matches streamed.2 plain.2 ↔ TokensFit w req) := by
  have hplain : off.getD false = false := by
    cases off with
    | none => rfl
    | some on =>
      cases on with
      | false => rfl
      | true => exact absurd rfl hoff
  intro streamed plain
  have hstreamed : streamed = handleStreaming w { req with stream := some true } req.hasTools := by
    rw [show streamed = _ from handler_accepted h (some true), Option.getD_some, if_pos rfl]
  have hatOnce : plain = answerAtOnce w { req with stream := off } req.hasTools := by
    rw [show plain = _ from handler_accepted h off, hplain, if_neg Bool.false_ne_true]
  rw [hstreamed, hatOnce]
  exact ⟨same_calls (some true) off req.hasTools, matches_iff h (some true) off⟩

section Example

/-- A build that checks sums for overflow, and a provider that greets. -/
private def greetingWorld (inputTokens outputTokens : UInt32) : CompletionsWorld where
  serde := ⟨fun _ => "null", fun _ => "null", fun _ => none⟩
  errorText _ := ""
  allowed := true
  configured := true
  activeModelName := "gyre"
  modelName := "gyre"
  id := "chatcmpl-1"
  created := 0
  answer := .ok ⟨"Good morning to you, how are you?", inputTokens, outputTokens, .stop, none⟩
  toolsAnswer := .error (.authFailed "gyre")
  overflowChecks := true

private def greeting : OpenAiChatRequest :=
  ⟨"gyre", [⟨"user", some "Hello", none, none, none⟩], none, none, none, none, none, none⟩

private theorem greeting_accepted (inputTokens outputTokens : UInt32) :
    Accepted (greetingWorld inputTokens outputTokens) greeting :=
  ⟨rfl, rfl, List.cons_ne_nil _ _, rfl, _, rfl⟩

theorem streaming_matches_iff_greeting :
    Matches (chatCompletionsHandler (greetingWorld 9 8) { greeting with stream := some true }).2
      (chatCompletionsHandler (greetingWorld 9 8) { greeting with stream := none }).2 := by
  refine (streaming_matches_iff (greetingWorld 9 8) greeting (greeting_accepted 9 8) none
    nofun).2.mpr ?_
  intro _ tokens htokens
  cases htokens
  decide

/-- The counts are those of the provider's answer; the sum is one beyond the type. -/
theorem plain_answer_lost :
    (chatCompletionsHandler (greetingWorld 4294967295 1) greeting).2 = .panicked ∧
      ¬ Matches
        (chatCompletionsHandler (greetingWorld 4294967295 1) { greeting with stream := some true }).2
        (chatCompletionsHandler (greetingWorld 4294967295 1) greeting).2 := by
  have hplain : (chatCompletionsHandler (greetingWorld 4294967295 1) greeting).2 = .panicked := by
    decide +kernel
  refine ⟨hplain, ?_⟩
  rw [hplain]
  cases (chatCompletionsHandler (greetingWorld 4294967295 1) { greeting with stream := some true }).2
    <;> exact id

end Example

end Gyre.Channels.Web
