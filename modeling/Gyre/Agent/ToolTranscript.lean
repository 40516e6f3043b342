/- digest: Exactly when the loops send the model well-formed transcripts of calls and results. -/

import Gyre.Agent.Dispatcher
import Gyre.Agent.Worker
import Gyre.Lib.Runs
import Gyre.Lib.Transcript
import Gyre.Worker.Runtime

/-!
Every loop keeps one list of messages and sends it again and again. The chat loop drops the calls
after one that waits for the user; the two workers add the results of selected tools, and of planned
actions, without the message that called them.
-/

set_option autoImplicit false
set_option relaxedAutoImplicit false

namespace Gyre.Agent

open Gyre.Llm Gyre.Tools Gyre.Lib Gyre.Lib.Transcript

/-- What a message is to the calls and results around it. -/
@[grind =] def transcriptEntry (m : ChatMessage) : Entry String :=
  match m.role with
  | .system => .aside
  | .user => .text
  | .assistant =>
    match m.toolCalls with
    | some calls => .calls (calls.map (·.id))
    | none => .text
  | .tool =>
    match m.toolCallId with
    | some id => .result id
    | none => .aside

@[grind =] def transcript (messages : List ChatMessage) : List (Entry String) :=
  messages.map transcriptEntry

/-- Every tool call is answered by exactly one result before the next assistant or user message, and
every result refers to a call of an earlier assistant message. -/
def TranscriptOk (messages : List ChatMessage) : Prop :=
  WellFormed [] (transcript messages)

instance (messages : List ChatMessage) : Decidable (TranscriptOk messages) :=
  inferInstanceAs (Decidable (WellFormed _ _))

/-- Everything sent to the provider is well formed. -/
@[grind =] def SendsOk (events : List LoopEvent) : Prop :=
  ∀ messages tools, .requested messages tools ∈ events → TranscriptOk messages

/-- One event's part in `SendsOk`. -/
private def EventOk : LoopEvent → Prop
  | .requested messages _ => TranscriptOk messages
  | _ => True

private instance : DecidablePred EventOk := fun e => by
  cases e <;> unfold EventOk <;> infer_instance

instance (events : List LoopEvent) : Decidable (SendsOk events) :=
  decidable_of_iff (∀ e ∈ events, EventOk e) <| by
    constructor
    · intro h messages tools hmem
      exact h _ hmem
    · intro h e hmem
      cases e with
      | requested messages tools => exact h messages tools hmem
      | _ => trivial

/-- A run of a loop sends well-formed transcripts, and the one it would send next is well formed
after every step. -/
def TranscriptsOk {σ ω : Type} (step : σ → ω → σ × List LoopEvent) (NextOk : σ → Prop) (start : σ)
    (ops : List ω) : Prop :=
  SendsOk (run step start ops).2 ∧ ∀ v ∈ visited step start ops, NextOk (step v.1 v.2).1

/-- A result that can be added at the end: its call is known and nothing else has answered it since
it was made. -/
@[grind =] def ResultFits (context : List ChatMessage) (id : String) : Prop :=
  id ∈ knownIds (transcript context) ∧ id ∉ openIds (transcript context)

section Messages

variable {context : List ChatMessage}

@[simp] private theorem transcript_append (a b : List ChatMessage) :
    transcript (a ++ b) = transcript a ++ transcript b :=
  List.map_append

private theorem transcriptOk_system (prompt : String) :
    TranscriptOk (.system prompt :: context) ↔ TranscriptOk context := Iff.rfl

private theorem transcriptOk_text {m : ChatMessage} (h : transcriptEntry m = .text) :
    TranscriptOk (context ++ [m]) ↔ TranscriptOk context := by
  unfold TranscriptOk
  rw [transcript_append]
  have hm : transcript [m] = [.text] := by simp [transcript, h]
  rw [hm, wellFormed_append_closing (closing_text [])]
  exact and_iff_left trivial

private theorem transcript_calls (content : Option String) {calls : List ToolCall}
    (h : calls ≠ []) :
    transcript [.assistantWithToolCalls content calls] = [.calls (calls.map (·.id))] := by
  simp [transcript, transcriptEntry, ChatMessage.assistantWithToolCalls, h]

/-- An answer's calls with the results that were added after them. -/
private theorem transcriptOk_batch (hok : TranscriptOk context) (content : Option String)
    {calls : List ToolCall} (hcalls : calls ≠ []) {context' : List ChatMessage}
    {answered : List String} (hanswered : ∀ id ∈ answered, id ∈ calls.map (·.id))
    (h : transcript context' =
      transcript (context ++ [.assistantWithToolCalls content calls]) ++
        answered.map Entry.result) :
    TranscriptOk context' ↔ ∀ tc ∈ calls, answered.count tc.id = 1 := by
  unfold TranscriptOk at hok ⊢
  have hshape : transcript context' = transcript context ++
      .calls (calls.map (·.id)) :: answered.map Entry.result := by
    rw [h, transcript_append, transcript_calls content hcalls, List.append_assoc]
    rfl
  rw [hshape, wellFormed_append_closing (closing_calls _ _), wellFormed_batch, and_iff_right hok,
    List.forall_mem_map]
  refine and_iff_left fun id hid => ?_
  exact List.mem_append_right _ (hanswered id hid)

private theorem transcriptOk_results (hok : TranscriptOk context) {context' : List ChatMessage}
    {answered : List String}
    (h : transcript context' = transcript context ++ answered.map Entry.result) :
    TranscriptOk context' ↔ ∀ id ∈ answered, ResultFits context id := by
  unfold TranscriptOk
  rw [h, wellFormed_append_results _ hok]
  simp [ResultFits]

private theorem transcriptOk_threadMessages (t : Thread) : TranscriptOk t.messages := by
  have htext : ∀ m ∈ t.messages, transcriptEntry m = .text := by
    intro m hm
    obtain ⟨turn, -, hm⟩ := List.mem_flatMap.mp hm
    rcases List.mem_cons.mp hm with rfl | hm
    · rfl
    · cases hresponse : turn.response with
      | none => simp [hresponse] at hm
      | some response =>
        simp only [hresponse, List.mem_singleton] at hm
        rw [hm]
        rfl
  generalize t.messages = messages at htext
  unfold TranscriptOk
  induction messages with
  | nil => trivial
  | cons m rest ih =>
    have hm := htext m List.mem_cons_self
    have hrest := ih fun n hn => htext n (List.mem_cons_of_mem _ hn)
    simpa [transcript, hm, WellFormed] using hrest

end Messages

/-- A run is as good as its steps. -/
private theorem transcriptsOk_iff {σ ω : Type} {step : σ → ω → σ × List LoopEvent}
    {NextOk : σ → Prop} {Answered : σ → ω → Prop} {start : σ} (hstart : NextOk start)
    (hstep : ∀ s o, NextOk s →
      (SendsOk (step s o).2 ∧ NextOk (step s o).1 ↔ Answered s o)) (ops : List ω) :
    TranscriptsOk step NextOk start ops ↔ ∀ v ∈ visited step start ops, Answered v.1 v.2 := by
  rw [← visited_keeps_iff hstart (fun _ _ h => h.2) hstep ops]
  unfold TranscriptsOk SendsOk
  rw [run_log]
  constructor
  · rintro ⟨hsends, hnext⟩ v hv
    exact ⟨fun messages tools h => hsends messages tools (List.mem_flatMap.mpr ⟨v, hv, h⟩),
      hnext v hv⟩
  · intro h
    refine ⟨?_, fun v hv => (h v hv).2⟩
    intro messages tools hmem
    obtain ⟨v, hv, hsent⟩ := List.mem_flatMap.mp hmem
    exact (h v hv).1 messages tools hsent

private theorem sendsOk_nil : SendsOk [] := fun _ _ h => nomatch h

private theorem sendsOk_cons {messages : List ChatMessage} {tools : List ToolDefinition}
    {events : List LoopEvent} :
    SendsOk (.requested messages tools :: events) ↔ TranscriptOk messages ∧ SendsOk events := by
  constructor
  · intro h
    exact ⟨h messages tools List.mem_cons_self,
      fun messages' tools' hmem => h messages' tools' (List.mem_cons_of_mem _ hmem)⟩
  · rintro ⟨hfirst, hrest⟩ messages' tools' hmem
    rcases List.mem_cons.mp hmem with hsame | hmem
    · cases hsame
      exact hfirst
    · exact hrest messages' tools' hmem

private theorem sendsOk_append {a b : List LoopEvent} :
    SendsOk (a ++ b) ↔ SendsOk a ∧ SendsOk b := by
  simp only [SendsOk, List.mem_append]
  constructor
  · intro h
    exact ⟨fun m t hm => h m t (Or.inl hm), fun m t hm => h m t (Or.inr hm)⟩
  · rintro ⟨ha, hb⟩ m t (hm | hm)
    · exact ha m t hm
    · exact hb m t hm

/-- Events without a request. -/
@[grind =] private def Local (events : List LoopEvent) : Prop :=
  ∀ messages tools, .requested messages tools ∉ events

private theorem Local.sendsOk {events : List LoopEvent} (h : Local events) : SendsOk events :=
  fun messages tools hmem => absurd hmem (h messages tools)

private theorem local_append {a b : List LoopEvent} (ha : Local a) (hb : Local b) :
    Local (a ++ b) := by
  intro messages tools hmem
  exact (List.mem_append.mp hmem).elim (ha messages tools) (hb messages tools)

section Chat

variable (deps : Deps) (userId : String)

/-- Whether the call is executed and its tool asks for an authentication token, which ends the
loop. -/
@[grind =] def asksForToken (w : CallWorld) (tc : ToolCall) : Bool :=
  match (chatToolCall deps userId w [] tc).1 with
  | .ran result => (detectAuthAwaiting deps.serde tc.name (printedOutcome result)).isSome
  | _ => false

/-- The ids of the calls that will have a result when the model is asked again: all up to the first
one that waits for the user. `none` when the loop ends with a request for a token. -/
@[grind =] def answeredIds (worlds : Nat → CallWorld) : Nat → List ToolCall → Option (List String)
  | _, [] => some []
  | i, tc :: rest =>
    if (awaitsUser (worlds i) tc).isSome then some [tc.id]
    else if asksForToken deps userId (worlds i) tc then none
    else (answeredIds worlds (i + 1) rest).map (tc.id :: ·)

private theorem answeredIds_subset (worlds : Nat → CallWorld) (calls : List ToolCall) :
    ∀ (i : Nat) (ids : List String), answeredIds deps userId worlds i calls = some ids →
      ∀ id ∈ ids, id ∈ calls.map (·.id) := by
  induction calls with
  | nil =>
    intro i ids h
    cases h
    simp
  | cons tc rest ih =>
    intro i ids h
    unfold answeredIds at h
    split at h
    · cases h
      simp
    · split at h
      · cases h
      · obtain ⟨later, hlater, rfl⟩ := Option.map_eq_some_iff.mp h
        intro id hid
        rcases List.mem_cons.mp hid with rfl | hid
        · simp
        · exact List.mem_cons_of_mem _ (ih (i + 1) later hlater id hid)

/-- What the calls of an answer leave for the next request. -/
@[grind =] private def BatchAnswered (context : List ChatMessage) : BatchEnd → Option (List String) → Prop
  | .answered context', some ids =>
    transcript context' = transcript context ++ ids.map Entry.result
  | .held pending, some ids =>
    ∀ content, transcript (pending.contextMessages ++
      [.toolResult pending.toolCallId pending.toolName content]) =
        transcript context ++ ids.map Entry.result
  | .askedForToken _ _, none => True
  | _, _ => False

private theorem batchAnswered_cons {context : List ChatMessage} {tc : ToolCall} {content : String}
    {batch : BatchEnd} {ids : Option (List String)}
    (h : BatchAnswered (context ++ [.toolResult tc.id tc.name content]) batch ids) :
    BatchAnswered context batch (ids.map (tc.id :: ·)) := by
  have hentry : transcript [.toolResult tc.id tc.name content] = [Entry.result tc.id] := rfl
  cases batch <;> cases ids <;> simp_all [BatchAnswered, List.append_assoc]

private theorem runToolCalls_answered (worlds : Nat → CallWorld) (calls : List ToolCall) :
    ∀ (i : Nat) (context : List ChatMessage),
      BatchAnswered context (runToolCalls deps userId worlds i context calls).1
        (answeredIds deps userId worlds i calls) := by
  induction calls with
  | nil =>
    intro i context
    simp [runToolCalls, answeredIds, BatchAnswered]
  | cons tc rest ih =>
    intro i context
    cases hawait : awaitsUser (worlds i) tc with
    | some tool =>
      simp [runToolCalls, chatToolCall, answeredIds, hawait, BatchAnswered]
      exact fun _ => rfl
    | none =>
      have hany : chatToolCall deps userId (worlds i) [] tc =
          chatToolCall deps userId (worlds i) context tc := by simp [chatToolCall, hawait]
      simp only [runToolCalls, answeredIds, asksForToken, hawait, hany]
      generalize hcall : chatToolCall deps userId (worlds i) context tc = outcome
      obtain ⟨call, events⟩ := outcome
      cases call with
      | held pending =>
        simp only [chatToolCall, hawait] at hcall
        split at hcall <;> cases hcall
      | blocked content => exact batchAnswered_cons (ih (i + 1) _)
      | ran result =>
        cases hauth : detectAuthAwaiting deps.serde tc.name (printedOutcome result) with
        | some asked =>
          simp [hauth]
          trivial
        | none =>
          simp only [hauth]
          exact batchAnswered_cons (ih (i + 1) _)

private theorem executeChatTool_local (tools : ToolRegistry) (toolName : String) (params : Json)
    (toolRun : ToolRun) : Local (executeChatTool deps tools toolName params toolRun).2 := by
  rcases executeChatTool_cases deps tools toolName params toolRun with ⟨-, h⟩ | ⟨-, -, h⟩ <;>
    simp [h, Local]

private theorem chatToolCall_local (w : CallWorld) (context : List ChatMessage) (tc : ToolCall) :
    Local (chatToolCall deps userId w context tc).2 := by
  unfold chatToolCall
  split
  · simp [Local]
  · dsimp only
    split
    · simp [Local]
    · simp [Local]
    · intro messages tools hmem
      rcases List.mem_cons.mp hmem with h | hmem
      · cases h
      · exact executeChatTool_local deps _ _ _ _ messages tools hmem

private theorem runToolCalls_local (worlds : Nat → CallWorld) (calls : List ToolCall) :
    ∀ (i : Nat) (context : List ChatMessage),
      Local (runToolCalls deps userId worlds i context calls).2 := by
  induction calls with
  | nil => simp [runToolCalls, Local]
  | cons tc rest ih =>
    intro i context
    have hcall := chatToolCall_local deps userId (worlds i) context tc
    simp only [runToolCalls]
    generalize chatToolCall deps userId (worlds i) context tc = outcome at hcall
    obtain ⟨call, events⟩ := outcome
    cases call with
    | held pending => exact hcall
    | blocked content => exact local_append hcall (ih _ _)
    | ran result =>
      have hrecorded : Local (events ++ [.outcomeRecorded (printedOutcome result)]) :=
        local_append hcall (by simp [Local])
      dsimp only
      split
      · exact local_append hrecorded (by simp [Local])
      · exact local_append hrecorded (ih _ _)

/-- The transcript a phase of a message's turn would send next is well formed: its context, or the
saved context of a held call with the result of that call. -/
def LoopPhase.NextOk : LoopPhase → Prop
  | .running st => TranscriptOk st.context
  | .ended (.ok (.needApproval pending)) =>
    ∀ content, TranscriptOk (pending.contextMessages ++
      [.toolResult pending.toolCallId pending.toolName content])
  | .ended _ => True

/-- Every tool call of the answer will have exactly one result when the model is asked again. -/
def AnswersCalls : LoopPhase → ChatOp → Prop
  | .running st, .iterate turn w =>
    ¬ Halts st w → ∀ calls content ids,
      respondWithTools deps (offeredTools turn w) w.answer = .ok (.toolCalls calls content) →
      answeredIds deps turn.userId w.calls 0 calls = some ids →
        ∀ tc ∈ calls, ids.count tc.id = 1
  | _, _ => True

/-- The calls of an answer leave a well-formed transcript exactly when each has its result. -/
private theorem afterBatch_next (iteration : Nat) {context : List ChatMessage}
    (hok : TranscriptOk context) (content : Option String) {calls : List ToolCall}
    (hcalls : calls ≠ []) (worlds : Nat → CallWorld) :
    (afterBatch iteration (runToolCalls deps userId worlds 0
        (context ++ [.assistantWithToolCalls content calls]) calls).1).NextOk ↔
      ∀ ids, answeredIds deps userId worlds 0 calls = some ids →
        ∀ tc ∈ calls, ids.count tc.id = 1 := by
  have hbatch := runToolCalls_answered deps userId worlds calls 0
    (context ++ [.assistantWithToolCalls content calls])
  have hsubset := answeredIds_subset deps userId worlds calls 0
  generalize (runToolCalls deps userId worlds 0
    (context ++ [.assistantWithToolCalls content calls]) calls).1 = batch at hbatch ⊢
  generalize answeredIds deps userId worlds 0 calls = answered at hbatch hsubset ⊢
  cases answered with
  | none =>
    cases batch with
    | answered context' => exact hbatch.elim
    | held pending => exact hbatch.elim
    | askedForToken extension instructions => exact iff_of_true trivial (fun _ h => nomatch h)
  | some ids =>
    have hids := hsubset ids rfl
    simp only [Option.some.injEq, forall_eq']
    cases batch with
    | answered context' => exact transcriptOk_batch hok content hcalls hids hbatch
    | held pending =>
      constructor
      · intro h
        exact (transcriptOk_batch hok content hcalls hids (hbatch "")).mp (h "")
      · intro h result
        exact (transcriptOk_batch hok content hcalls hids (hbatch result)).mpr h
    | askedForToken extension instructions => exact hbatch.elim

private theorem chatIteration_next (turn : ChatTurn) {st : LoopState} (w : IterationWorld)
    (hok : TranscriptOk st.context) :
    (SendsOk (chatIteration deps turn st w).2 ∧ (chatIteration deps turn st w).1.NextOk) ↔
      AnswersCalls deps (.running st) (.iterate turn w) := by
  by_cases hhalts : Halts st w
  · obtain ⟨error, hended⟩ := chatIteration_of_halts deps turn hhalts
    rw [hended]
    exact iff_of_true ⟨sendsOk_nil, trivial⟩ (fun hasks => absurd hhalts hasks)
  · have hrequest : TranscriptOk (.system w.systemPrompt :: st.context) := hok
    cases hanswer : respondWithTools deps (offeredTools turn w) w.answer with
    | error e =>
      rw [chatIteration_failed deps turn hhalts hanswer]
      refine iff_of_true ⟨sendsOk_cons.mpr ⟨hrequest, sendsOk_nil⟩, trivial⟩ ?_
      intro _ calls content ids hcalls
      cases hanswer.symm.trans hcalls
    | ok result =>
      rw [chatIteration_answered deps turn hhalts hanswer]
      cases result with
      | text text =>
        have hno : AnswersCalls deps (.running st) (.iterate turn w) := by
          intro _ calls content ids hcalls
          cases hanswer.symm.trans hcalls
        refine iff_of_true ?_ hno
        simp only [handleAnswer]
        split
        · refine ⟨sendsOk_cons.mpr ⟨hrequest, sendsOk_nil⟩, ?_⟩
          have hsplit : st.context ++ [.assistant text, useToolsPrompt] =
              st.context ++ [.assistant text] ++ [useToolsPrompt] := by simp
          change TranscriptOk (st.context ++ [.assistant text, useToolsPrompt])
          rw [hsplit, transcriptOk_text rfl, transcriptOk_text rfl]
          exact hok
        · exact ⟨sendsOk_cons.mpr ⟨hrequest, sendsOk_nil⟩, trivial⟩
      | toolCalls calls content =>
        have hcalls := (offered_of_toolCalls hanswer).2
        have hlocal : Local (handleAnswer deps turn
            { st with iteration := st.iteration + 1 } w.calls (.toolCalls calls content)).2 :=
          local_append (by simp [Local]) (runToolCalls_local deps turn.userId w.calls calls 0 _)
        have hnext := afterBatch_next deps turn.userId (st.iteration + 1) hok content hcalls w.calls
        rw [and_iff_right (sendsOk_cons.mpr ⟨hrequest, hlocal.sendsOk⟩)]
        refine hnext.trans ?_
        constructor
        · intro h _ calls' content' ids hsame hids
          cases hanswer.symm.trans hsame
          exact h ids hids
        · intro h ids hids
          exact h hhalts calls content ids hanswer hids

private theorem resumeApproved_next {pending : PendingApproval} (tools : ToolRegistry)
    (toolRun : ToolRun) (hok : LoopPhase.NextOk (.ended (.ok (.needApproval pending)))) :
    SendsOk (resumeApproved deps pending tools toolRun).2 ∧
      (resumeApproved deps pending tools toolRun).1.NextOk := by
  have hlocal := executeChatTool_local deps tools pending.toolName pending.parameters toolRun
  unfold resumeApproved
  dsimp only
  split
  · exact ⟨(local_append (local_append hlocal (by simp [Local])) (by simp [Local])).sendsOk,
      trivial⟩
  · exact ⟨(local_append hlocal (by simp [Local])).sendsOk, hok _⟩

private theorem chatStep_next (phase : LoopPhase) (op : ChatOp) (hok : phase.NextOk) :
    (SendsOk (chatStep deps phase op).2 ∧ (chatStep deps phase op).1.NextOk) ↔
      AnswersCalls deps phase op := by
  cases phase with
  | running st =>
    cases op with
    | iterate turn w => exact chatIteration_next deps turn w hok
    | approve tools toolRun => exact iff_of_true ⟨sendsOk_nil, hok⟩ trivial
  | ended result =>
    cases op with
    | iterate turn w => exact iff_of_true ⟨sendsOk_nil, hok⟩ trivial
    | approve tools toolRun =>
      refine iff_of_true ?_ trivial
      cases result with
      | error e => exact ⟨sendsOk_nil, hok⟩
      | ok answer =>
        cases answer with
        | response text => exact ⟨sendsOk_nil, hok⟩
        | needApproval pending => exact resumeApproved_next deps tools toolRun hok

end Chat

section Job

variable (deps : Deps) (jobId : Uuid)

/-- The answers of a pass through a worker's loop keep the transcript well formed: the results of
selected tools fit at its end, and the calls of an answer have distinct ids. -/
@[grind =] def SelectionsFit (context : List ChatMessage) (tools : List ToolDefinition)
    (selectAnswer respondAnswer : LlmAnswer) : Prop :=
  ∀ selections, selectTools tools selectAnswer = .ok selections →
    (∀ selection ∈ selections, ResultFits context selection.toolCallId) ∧
    (selections = [] → ∀ calls content,
      respondWithTools deps tools respondAnswer = .ok (.toolCalls calls content) →
        (calls.map (·.id)).Nodup)

private theorem executeToolInner_local (w : JobCallWorld) (toolName : String) (params : Json) :
    Local (executeToolInner deps jobId w toolName params).2 := by
  unfold executeToolInner
  dsimp only
  repeat' split
  all_goals simp [Local]

private theorem runSelections_spec (worlds : Nat → JobCallWorld) (selections : List ToolSelection) :
    ∀ (i : Nat) (context : List ChatMessage),
      transcript (runSelections deps jobId worlds i context selections).1 =
          transcript context ++ (selections.map (·.toolCallId)).map Entry.result ∧
        Local (runSelections deps jobId worlds i context selections).2 := by
  induction selections with
  | nil => simp [runSelections, Local]
  | cons selection rest ih =>
    intro i context
    obtain ⟨hcontext, hlocal⟩ := ih (i + 1) (context ++ [.toolResult selection.toolCallId
      selection.toolName (jobToolResultContent deps selection.toolName
        (executeToolInner deps jobId (worlds i) selection.toolName selection.parameters).1)])
    refine ⟨?_, local_append (executeToolInner_local deps jobId _ _ _) hlocal⟩
    simp only [runSelections]
    rw [hcontext, transcript_append, List.append_assoc]
    rfl

/-- The transcript a worker would send next is well formed; before planning, nothing has been
called. -/
def WorkerPhase.NextOk : WorkerPhase → Prop
  | .planning context => TranscriptOk context ∧ knownIds (transcript context) = []
  | .running st => TranscriptOk st.context
  | .ended _ => True

/-- A pass of the worker that asks the model keeps the transcript well formed, and a plan has no
action or is stopped before its end. -/
@[grind =] def WorkerAnswersCalls : WorkerPhase → WorkerOp → Prop
  | .planning _, .plan w =>
    ∀ plan, w.planAnswer = .ok plan →
      plan.actions = [] ∨ ∃ i < plan.actions.length, w.stops i = true
  | .running st, .iterate w =>
    w.stop = false → w.cancelled = false → st.iteration < maxWorkerIterations →
      SelectionsFit deps st.context w.tools.toolDefinitions w.selectAnswer w.respondAnswer
  | _, _ => True

/-- Calls that are all answered in a row. -/
private theorem transcriptOk_allAnswered {context context' : List ChatMessage}
    (hok : TranscriptOk context) (content : Option String) {calls : List ToolCall}
    (hcalls : calls ≠ [])
    (h : transcript context' =
      transcript (context ++ [.assistantWithToolCalls content calls]) ++
        (calls.map (·.id)).map Entry.result) :
    TranscriptOk context' ↔ (calls.map (·.id)).Nodup := by
  rw [transcriptOk_batch hok content hcalls (fun _ hid => hid) h, List.nodup_iff_count_eq_one,
    List.forall_mem_map]

private theorem handleWorkerAnswer_local (st : WorkerState) (worlds : Nat → JobCallWorld)
    (result : RespondResult) : Local (handleWorkerAnswer deps jobId st worlds result).2 := by
  cases result with
  | text response =>
    simp only [handleWorkerAnswer]
    repeat' split
    all_goals simp [Local]
  | toolCalls calls content => exact (runSelections_spec deps jobId worlds _ 0 _).2

private theorem handleWorkerAnswer_text (st : WorkerState) (hok : TranscriptOk st.context)
    (worlds : Nat → JobCallWorld) (response : String) :
    (handleWorkerAnswer deps jobId st worlds (.text response)).1.NextOk := by
  have hsaid : TranscriptOk (st.context ++ [.assistant response]) := (transcriptOk_text rfl).mpr hok
  simp only [handleWorkerAnswer]
  split
  · trivial
  · split
    · exact (transcriptOk_text rfl).mpr hsaid
    · exact hsaid

private theorem handleWorkerAnswer_calls (st : WorkerState) (hok : TranscriptOk st.context)
    (worlds : Nat → JobCallWorld) {calls : List ToolCall} (hcalls : calls ≠ [])
    (content : Option String) :
    (handleWorkerAnswer deps jobId st worlds (.toolCalls calls content)).1.NextOk ↔
      (calls.map (·.id)).Nodup := by
  have hcontext := (runSelections_spec deps jobId worlds (calls.map callSelection) 0
    (st.context ++ [.assistantWithToolCalls content calls])).1
  have hids : (calls.map callSelection).map (·.toolCallId) = calls.map (·.id) := by
    rw [List.map_map]
    rfl
  rw [hids] at hcontext
  exact transcriptOk_allAnswered hok content hcalls hcontext

private theorem selectRequest_sendsOk {context : List ChatMessage} (hok : TranscriptOk context)
    (tools : List ToolDefinition) : SendsOk (selectRequest context tools) := by
  unfold selectRequest
  split
  · exact sendsOk_nil
  · exact sendsOk_cons.mpr ⟨hok, sendsOk_nil⟩

private theorem workerIteration_next {st : WorkerState} (w : WorkerWorld)
    (hok : TranscriptOk st.context) :
    (SendsOk (workerIteration deps jobId st w).2 ∧ (workerIteration deps jobId st w).1.NextOk) ↔
      WorkerAnswersCalls deps (.running st) (.iterate w) := by
  unfold workerIteration
  cases hstop : w.stop with
  | true => exact iff_of_true ⟨sendsOk_nil, trivial⟩ (by simp [WorkerAnswersCalls, hstop])
  | false =>
    cases hcancelled : w.cancelled with
    | true => exact iff_of_true ⟨sendsOk_nil, trivial⟩ (by simp [WorkerAnswersCalls, hcancelled])
    | false =>
      by_cases hlimit : st.iteration + 1 > maxWorkerIterations
      · simp only [hlimit]
        refine iff_of_true ⟨sendsOk_nil, trivial⟩ ?_
        intro _ _ hless
        omega
      · have hless : st.iteration < maxWorkerIterations := by omega
        have hpass : WorkerAnswersCalls deps (.running st) (.iterate w) ↔
            SelectionsFit deps st.context w.tools.toolDefinitions w.selectAnswer
              w.respondAnswer := by
          simp [WorkerAnswersCalls, hstop, hcancelled, hless]
        have hselecting := selectRequest_sendsOk hok w.tools.toolDefinitions
        have hasked {events : List LoopEvent} (hlocal : Local events) :
            SendsOk (selectRequest st.context w.tools.toolDefinitions ++
              .requested (.system w.systemPrompt :: st.context) w.tools.toolDefinitions ::
                events) :=
          sendsOk_append.mpr ⟨hselecting, sendsOk_cons.mpr ⟨hok, hlocal.sendsOk⟩⟩
        rw [hpass]
        simp only [hlimit, SelectionsFit]
        cases hselect : selectTools w.tools.toolDefinitions w.selectAnswer with
        | error e => exact iff_of_true ⟨hselecting, trivial⟩ (by simp)
        | ok selections =>
          simp only [Except.ok.injEq, forall_eq']
          cases selections with
          | cons selection rest =>
            obtain ⟨hcontext, hlocal⟩ := runSelections_spec deps jobId w.calls
              (selection :: rest) 0 st.context
            have hresults := transcriptOk_results hok hcontext
            rw [List.forall_mem_map] at hresults
            refine (and_iff_right (sendsOk_append.mpr ⟨hselecting, hlocal.sendsOk⟩)).trans
              (hresults.trans ?_)
            exact (and_iff_left (by simp)).symm
          | nil =>
            simp only [List.not_mem_nil, false_imp_iff, implies_true, true_and, forall_const]
            cases hanswer : respondWithTools deps w.tools.toolDefinitions w.respondAnswer with
            | error e =>
              exact iff_of_true ⟨hasked (by simp [Local]), trivial⟩ (by simp)
            | ok result =>
              refine (and_iff_right (hasked (handleWorkerAnswer_local deps jobId
                { st with iteration := st.iteration + 1 } w.calls result))).trans ?_
              cases result with
              | text response =>
                exact iff_of_true (handleWorkerAnswer_text deps jobId
                  { st with iteration := st.iteration + 1 } hok w.calls response)
                  (by simp)
              | toolCalls calls content =>
                refine (handleWorkerAnswer_calls deps jobId { st with iteration := st.iteration + 1 }
                  hok w.calls (offered_of_toolCalls hanswer).2 content).trans ?_
                simp

/-- A plan is stopped, or it adds one result for each of its actions. -/
private theorem runPlan_spec (w : PlanWorld) (actions : List PlannedAction) :
    ∀ (i : Nat) (context : List ChatMessage),
      Local (runPlan deps jobId w i context actions).2 ∧
        (((runPlan deps jobId w i context actions).1 = none ∧
            ∃ j < actions.length, w.stops (i + j) = true) ∨
          ((∀ j < actions.length, w.stops (i + j) = false) ∧
            ∃ (context' : List ChatMessage) (ids : List String), (runPlan deps jobId w i context actions).1 = some context' ∧
              ids.length = actions.length ∧
              transcript context' = transcript context ++ ids.map Entry.result)) := by
  induction actions with
  | nil =>
    intro i context
    exact ⟨by simp [runPlan, Local], Or.inr ⟨by simp, context, [], rfl, rfl, by simp⟩⟩
  | cons action rest ih =>
    intro i context
    cases hstop : w.stops i with
    | true =>
      refine ⟨by simp [runPlan, hstop, Local], Or.inl ⟨by simp [runPlan, hstop], 0, ?_⟩⟩
      simpa using hstop
    | false =>
      obtain ⟨hlocal, hrest⟩ := ih (i + 1) (context ++ [.toolResult
        (plannedSelection jobId i action).toolCallId action.toolName
        (jobToolResultContent deps action.toolName
          (executeToolInner deps jobId (w.calls i) action.toolName action.parameters).1)])
      simp only [runPlan, hstop, Bool.false_eq_true, if_false]
      refine ⟨local_append (executeToolInner_local deps jobId _ _ _) hlocal, ?_⟩
      rcases hrest with ⟨hnone, j, hj, hstops⟩ | ⟨hgoes, context', ids, hsome, hlength, hcontext⟩
      · refine Or.inl ⟨hnone, j + 1, by simpa using hj, ?_⟩
        rwa [← Nat.add_assoc, Nat.add_right_comm]
      · refine Or.inr ⟨?_, context', (plannedSelection jobId i action).toolCallId :: ids, hsome,
          by simp [hlength], ?_⟩
        · intro j hj
          cases j with
          | zero => exact hstop
          | succ j =>
            have hnext := hgoes j (by simpa using hj)
            rwa [← Nat.add_assoc, Nat.add_right_comm]
        · rw [hcontext, transcript_append, List.append_assoc]
          rfl

/-- Where nothing has been called, no result fits. -/
private theorem transcriptOk_planned {context context' : List ChatMessage} {text : String}
    {ids : List String} (hok : TranscriptOk context)
    (hnone : knownIds (transcript context) = [])
    (h : transcript context' = transcript (context ++ [.assistant text]) ++ ids.map Entry.result) :
    TranscriptOk context' ↔ ids = [] := by
  have hsaid : TranscriptOk (context ++ [.assistant text]) := (transcriptOk_text rfl).mpr hok
  rw [transcriptOk_results hsaid h]
  have hknown : knownIds (transcript (context ++ [.assistant text])) = [] := by
    rw [transcript_append]
    exact (knownIds_append _ _).trans (by rw [hnone]; rfl)
  constructor
  · intro hfits
    refine List.eq_nil_iff_forall_not_mem.mpr fun id hid => ?_
    have hmem := (hfits id hid).1
    rw [hknown] at hmem
    cases hmem
  · rintro rfl
    simp

private theorem workerPlan_next {context : List ChatMessage} (w : PlanWorld)
    (hok : (WorkerPhase.planning context).NextOk) :
    (SendsOk (workerPlan deps jobId context w).2 ∧ (workerPlan deps jobId context w).1.NextOk) ↔
      WorkerAnswersCalls deps (.planning context) (.plan w) := by
  obtain ⟨hcontext, hnone⟩ := hok
  have hplanning : TranscriptOk (.system w.planningPrompt :: context ++
      [.user s!"Please create a plan to complete this job:\n\n{w.jobDescription}"]) :=
    (transcriptOk_text rfl).mpr hcontext
  unfold workerPlan
  generalize .system w.planningPrompt :: context ++ [.user
    s!"Please create a plan to complete this job:\n\n{w.jobDescription}"] = planning at hplanning ⊢
  cases hanswer : w.planAnswer with
  | error e =>
    exact iff_of_true ⟨sendsOk_cons.mpr ⟨hplanning, sendsOk_nil⟩, hcontext⟩
      (by simp [WorkerAnswersCalls, hanswer])
  | ok plan =>
    have hcond : WorkerAnswersCalls deps (.planning context) (.plan w) ↔
        plan.actions = [] ∨ ∃ i < plan.actions.length, w.stops i = true := by
      simp [WorkerAnswersCalls, hanswer]
    rw [hcond]
    obtain ⟨hlocal, hrun⟩ := runPlan_spec deps jobId w plan.actions 0
      (context ++ [.assistant (planText plan)])
    dsimp only
    generalize runPlan deps jobId w 0 (context ++ [.assistant (planText plan)]) plan.actions =
      planned at hlocal hrun
    obtain ⟨result, events⟩ := planned
    simp only [Nat.zero_add] at hrun
    rcases hrun with ⟨rfl, hstops⟩ | ⟨hgoes, context', ids, rfl, hlength, hresults⟩
    · exact iff_of_true ⟨sendsOk_cons.mpr ⟨hplanning, hlocal.sendsOk⟩, trivial⟩ (Or.inr hstops)
    · have hnever : ¬ ∃ i < plan.actions.length, w.stops i = true := by
        rintro ⟨i, hi, hstop⟩
        simp [hgoes i hi] at hstop
      have hempty : ids = [] ↔ plan.actions = [] := by
        rw [← List.length_eq_zero_iff, hlength, List.length_eq_zero_iff]
      rw [or_iff_left hnever, ← hempty, ← transcriptOk_planned hcontext hnone hresults]
      have hasked : SendsOk ((.requested planning [] :: events) ++
          [.requested (.system w.systemPrompt :: (context' ++ [planDonePrompt]))
            w.tools.toolDefinitions]) ↔ TranscriptOk context' := by
        rw [sendsOk_append, and_iff_right (sendsOk_cons.mpr ⟨hplanning, hlocal.sendsOk⟩),
          sendsOk_cons, and_iff_left sendsOk_nil, transcriptOk_system, transcriptOk_text rfl]
      dsimp only
      cases respond deps w.tools.toolDefinitions w.respondAnswer with
      | error e => exact (and_iff_left trivial).trans hasked
      | ok response => exact (and_iff_left trivial).trans hasked

private theorem workerStep_next (phase : WorkerPhase) (op : WorkerOp) (hok : phase.NextOk) :
    (SendsOk (workerStep deps jobId phase op).2 ∧ (workerStep deps jobId phase op).1.NextOk) ↔
      WorkerAnswersCalls deps phase op := by
  cases phase with
  | planning context =>
    cases op with
    | plan w => exact workerPlan_next deps jobId w hok
    | iterate w => exact iff_of_true ⟨sendsOk_nil, hok⟩ trivial
  | running st =>
    cases op with
    | plan w => exact iff_of_true ⟨sendsOk_nil, hok⟩ trivial
    | iterate w => exact workerIteration_next deps jobId w hok
  | ended result => cases op <;> exact iff_of_true ⟨sendsOk_nil, trivial⟩ trivial

end Job

section Container

open Worker (RuntimePhase RuntimeState RuntimeWorld injectPrompt)

variable (deps : Deps)

private theorem containerExecuteTool_local (w : Worker.CallWorld) (toolName : String)
    (params : Json) : Local (Worker.executeTool deps w toolName params).2 := by
  unfold Worker.executeTool
  dsimp only
  repeat' split
  all_goals simp [Local]

private theorem containerSelections_spec (worlds : Nat → Worker.CallWorld)
    (selections : List ToolSelection) :
    ∀ (i : Nat) (st : RuntimeState),
      transcript (Worker.runSelections deps worlds i st selections).1.context =
          transcript st.context ++ (selections.map (·.toolCallId)).map Entry.result ∧
        Local (Worker.runSelections deps worlds i st selections).2 := by
  induction selections with
  | nil => simp [Worker.runSelections, Local]
  | cons selection rest ih =>
    intro i st
    simp only [Worker.runSelections]
    refine ⟨?_, local_append (containerExecuteTool_local deps _ _ _) (ih _ _).2⟩
    rw [(ih _ _).1, transcript_append, List.append_assoc]
    rfl

/-- The transcript a container's loop would send next is well formed. -/
def RuntimeNextOk : RuntimePhase → Prop
  | .running st => TranscriptOk st.context
  | .ended _ => True

/-- An iteration of the container's loop keeps the transcript well formed. -/
@[grind =] def RuntimeAnswersCalls (maxIterations : Nat) : RuntimePhase → RuntimeWorld → Prop
  | .running st, w =>
    st.iteration < maxIterations →
      SelectionsFit deps (injectPrompt st.context w.prompt) w.tools.toolDefinitions w.selectAnswer
        w.respondAnswer
  | .ended _, _ => True

private theorem injectPrompt_ok {context : List ChatMessage} (hok : TranscriptOk context)
    (prompt : Option String) : TranscriptOk (injectPrompt context prompt) := by
  cases prompt with
  | none => exact hok
  | some text => exact (transcriptOk_text rfl).mpr hok

private theorem handleAnswer_local (st : RuntimeState) (worlds : Nat → Worker.CallWorld)
    (result : RespondResult) : Local (Worker.handleAnswer deps st worlds result).2 := by
  cases result with
  | text response =>
    simp only [Worker.handleAnswer]
    split <;> simp [Local]
  | toolCalls calls content => exact (containerSelections_spec deps worlds _ 0 _).2

private theorem handleAnswer_calls (st : RuntimeState) (hok : TranscriptOk st.context)
    (worlds : Nat → Worker.CallWorld) {calls : List ToolCall} (hcalls : calls ≠ [])
    (content : Option String) :
    RuntimeNextOk (Worker.handleAnswer deps st worlds (.toolCalls calls content)).1 ↔
      (calls.map (·.id)).Nodup := by
  have hcontext := (containerSelections_spec deps worlds
    (calls.map fun tc => ⟨tc.name, tc.arguments, "", tc.id⟩) 0
    { st with context := st.context ++ [.assistantWithToolCalls content calls] }).1
  have hids : (calls.map fun tc => (⟨tc.name, tc.arguments, "", tc.id⟩ : ToolSelection)).map
      (·.toolCallId) = calls.map (·.id) := by
    rw [List.map_map]
    rfl
  rw [hids] at hcontext
  exact transcriptOk_allAnswered hok content hcalls hcontext

private theorem runtimeIteration_next (maxIterations : Nat) {st : RuntimeState} (w : RuntimeWorld)
    (hok : TranscriptOk st.context) :
    (SendsOk (Worker.runtimeIteration deps maxIterations st w).2 ∧
        RuntimeNextOk (Worker.runtimeIteration deps maxIterations st w).1) ↔
      RuntimeAnswersCalls deps maxIterations (.running st) w := by
  unfold Worker.runtimeIteration
  by_cases hlimit : st.iteration ≥ maxIterations
  · simp only [hlimit]
    refine iff_of_true ⟨sendsOk_nil, trivial⟩ ?_
    intro hless
    omega
  · have hpass : RuntimeAnswersCalls deps maxIterations (.running st) w ↔
        SelectionsFit deps (injectPrompt st.context w.prompt) w.tools.toolDefinitions
          w.selectAnswer w.respondAnswer := by
      simp only [RuntimeAnswersCalls]
      exact ⟨fun h => h (by omega), fun h _ => h⟩
    have hprompted := injectPrompt_ok hok w.prompt
    have hselecting : SendsOk (if w.tools.toolDefinitions.isEmpty then [] else
        [LoopEvent.requested (injectPrompt st.context w.prompt) w.tools.toolDefinitions]) :=
      selectRequest_sendsOk hprompted w.tools.toolDefinitions
    have hasked {events : List LoopEvent} (hlocal : Local events) :
        SendsOk ((if w.tools.toolDefinitions.isEmpty then [] else
            [LoopEvent.requested (injectPrompt st.context w.prompt) w.tools.toolDefinitions]) ++
          .requested (.system w.systemPrompt :: injectPrompt st.context w.prompt)
            w.tools.toolDefinitions :: events) :=
      sendsOk_append.mpr ⟨hselecting, sendsOk_cons.mpr ⟨hprompted, hlocal.sendsOk⟩⟩
    rw [hpass]
    simp only [hlimit, if_false, SelectionsFit]
    cases hselect : selectTools w.tools.toolDefinitions w.selectAnswer with
    | error e => exact iff_of_true ⟨hselecting, trivial⟩ (by simp)
    | ok selections =>
      simp only [Except.ok.injEq, forall_eq']
      cases selections with
      | cons selection rest =>
        obtain ⟨hcontext, hlocal⟩ := containerSelections_spec deps w.calls (selection :: rest) 0
          { st with iteration := st.iteration + 1, context := injectPrompt st.context w.prompt }
        have hresults := transcriptOk_results hprompted hcontext
        rw [List.forall_mem_map] at hresults
        refine (and_iff_right (sendsOk_append.mpr ⟨hselecting, hlocal.sendsOk⟩)).trans
          (hresults.trans ?_)
        exact (and_iff_left (by simp)).symm
      | nil =>
        simp only [List.not_mem_nil, false_imp_iff, implies_true, true_and, forall_const]
        cases hanswer : respondWithTools deps w.tools.toolDefinitions w.respondAnswer with
        | error e => exact iff_of_true ⟨hasked (by simp [Local]), trivial⟩ (by simp)
        | ok result =>
          refine (and_iff_right (hasked (handleAnswer_local deps { st with
            iteration := st.iteration + 1, context := injectPrompt st.context w.prompt }
            w.calls result))).trans ?_
          cases result with
          | text response =>
            refine iff_of_true ?_ (by simp)
            simp only [Worker.handleAnswer]
            split
            · trivial
            · exact (transcriptOk_text rfl).mpr hprompted
          | toolCalls calls content =>
            refine (handleAnswer_calls deps { st with
              iteration := st.iteration + 1, context := injectPrompt st.context w.prompt }
              hprompted w.calls (offered_of_toolCalls hanswer).2 content).trans ?_
            simp

private theorem runtimeStep_next (maxIterations : Nat) (phase : RuntimePhase) (w : RuntimeWorld)
    (hok : RuntimeNextOk phase) :
    (SendsOk (Worker.runtimeStep deps maxIterations phase w).2 ∧
        RuntimeNextOk (Worker.runtimeStep deps maxIterations phase w).1) ↔
      RuntimeAnswersCalls deps maxIterations phase w := by
  cases phase with
  | running st => exact runtimeIteration_next deps maxIterations w hok
  | ended result => exact iff_of_true ⟨sendsOk_nil, trivial⟩ trivial

end Container

/-- A message's turn before the model has been asked for the first time. -/
def chatStart (t : Thread) : LoopPhase := .running ⟨t.messages, 0, false⟩

/-- The chat loop with its approvals, the background worker and the container worker send
well-formed transcripts exactly when every step answers its calls. -/
theorem transcripts_ok_iff_calls_answered (deps : Deps) :
    (∀ t ops, TranscriptsOk (chatStep deps) LoopPhase.NextOk (chatStart t) ops ↔
      ∀ v ∈ visited (chatStep deps) (chatStart t) ops, AnswersCalls deps v.1 v.2) ∧
    (∀ jobId usePlanning title description ops,
      TranscriptsOk (workerStep deps jobId) WorkerPhase.NextOk
          (workerStart usePlanning title description) ops ↔
        ∀ v ∈ visited (workerStep deps jobId) (workerStart usePlanning title description) ops,
          WorkerAnswersCalls deps v.1 v.2) ∧
    (∀ maxIterations title description ops,
      TranscriptsOk (Worker.runtimeStep deps maxIterations) RuntimeNextOk
          (Worker.runtimeStart title description) ops ↔
        ∀ v ∈ visited (Worker.runtimeStep deps maxIterations)
          (Worker.runtimeStart title description) ops,
          RuntimeAnswersCalls deps maxIterations v.1 v.2) := by
  refine ⟨?_, ?_, ?_⟩
  · intro t ops
    have hstart : (chatStart t).NextOk := transcriptOk_threadMessages t
    exact transcriptsOk_iff hstart (chatStep_next deps) ops
  · intro jobId usePlanning title description ops
    have hstart : (workerStart usePlanning title description).NextOk := by
      cases usePlanning
      · exact trivial
      · exact ⟨trivial, rfl⟩
    exact transcriptsOk_iff hstart (workerStep_next deps jobId) ops
  · intro maxIterations title description ops
    have hstart : RuntimeNextOk (Worker.runtimeStart title description) := trivial
    exact transcriptsOk_iff hstart (runtimeStep_next deps maxIterations) ops

section Dangling

private def transcriptDeps : Deps where
  serde := ⟨fun _ => "null", fun _ => "null", fun _ => none⟩
  cleanResponse text := text
  validator := .new
  wrapToolOutput tool output :=
    s!"<tool_output name=\"{tool}\" sanitized=\"false\">\n{output}\n</tool_output>"

private def guardedTools : ToolRegistry :=
  ⟨[⟨"echo", "Echo a message", .object [], false, fun _ => false, "60s"⟩,
    ⟨"shell", "Execute shell commands", .object [], true, fun _ => false, "60s"⟩], by decide⟩

private def callsAnswer (calls : List ToolCall) : LlmAnswer :=
  ⟨.error "", .ok ⟨none, calls⟩⟩

private def shellCall : ToolCall := ⟨"call_1", "shell", .object [("command", .string "ls")]⟩

private def echoCall : ToolCall := ⟨"call_2", "echo", .object [("message", .string "hi")]⟩

private def twoCallsWorld : IterationWorld :=
  ⟨false, none, guardedTools, "", callsAnswer [shellCall, echoCall],
    fun _ => ⟨guardedTools, [], ∅, .ofNat 9, .completed .null⟩⟩

private def chatRun : List ChatOp :=
  [.iterate ⟨"user", .ofNat 1, []⟩ twoCallsWorld, .approve guardedTools (.completed .null),
    .iterate ⟨"user", .ofNat 1, []⟩ twoCallsWorld]

private def selectingWorld : WorkerWorld :=
  ⟨false, false, guardedTools, "", callsAnswer [echoCall], callsAnswer [echoCall],
    fun _ => ⟨guardedTools, [], some ⟨"user", .inProgress⟩, .completed .null⟩⟩

private def oneStepPlan : PlanWorld :=
  ⟨"", guardedTools, "", .ok ⟨"say hi", [⟨"echo", .object [("message", .string "hi")], ""⟩]⟩,
    fun _ => false,
    fun _ => ⟨guardedTools, [], some ⟨"user", .inProgress⟩, .completed .null⟩, "",
    callsAnswer []⟩

private def containerWorld : Worker.RuntimeWorld :=
  ⟨none, guardedTools, "", callsAnswer [echoCall], callsAnswer [echoCall],
    fun _ => ⟨guardedTools, .completed .null⟩⟩

/-- A call after one that was held has no result once the held one is approved, and the results of
selected tools and of planned actions have no call. -/
theorem dangling_ids_sent :
    ¬ SendsOk (run (chatStep transcriptDeps) (chatStart ⟨.ofNat 1, .ofNat 2, .processing, [.new 0 "list the files"], none, none, none⟩)
        chatRun).2 ∧
      ¬ SendsOk (run (workerStep transcriptDeps (.ofNat 2)) (workerStart false "job" "say hi")
        [.iterate selectingWorld, .iterate selectingWorld]).2 ∧
      ¬ SendsOk (run (workerStep transcriptDeps (.ofNat 2)) (workerStart true "job" "say hi")
        [.plan oneStepPlan]).2 ∧
      ¬ SendsOk (run (Worker.runtimeStep transcriptDeps 50) (Worker.runtimeStart "job" "say hi")
        [containerWorld, containerWorld]).2 := by
  refine ⟨by decide +kernel, by decide +kernel, by decide +kernel, by decide +kernel⟩

end Dangling

end Gyre.Agent
