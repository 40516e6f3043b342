/- digest: Exactly when the completed turns of a run are transformed, persisted once and replied. -/

import Mathlib.Data.List.ModifyLast
import Gyre.Agent.ThreadOps
import Gyre.Lib.Runs

/-!
Only the direct ending of a turn runs the response hook and persists the turn. The two endings
behind an approval (the tool that asks for a token, the resumed loop that answers) complete the turn
in memory and reply, and nothing is handed to the store.
-/

set_option autoImplicit false
set_option relaxedAutoImplicit false

namespace Gyre.Agent

open Gyre.Llm Gyre.Hooks Gyre.Lib

/-- The thread, user input and response of a turn that an event completes. -/
def Event.completion : Event → Option (Uuid × Option String × String)
  | .turnCompleted thread userInput response => some (thread, userInput, response)
  | _ => none

/-- The thread, user input and response of a turn that an event hands to the store. -/
def Event.persistence : Event → Option (Uuid × Option String × String)
  | .turnPersisted thread _ _ userInput (some response) => some (thread, some userInput, response)
  | _ => none

/-- The turn an operation completes was open, is the one of the message that started it, gets the
response as the hook returned it, and is persisted and replied with that text. -/
def CompletesPersisted (deps : Deps) (s : AgentState) (o : Op) : Prop :=
  ∀ thread userInput response,
    .turnCompleted thread userInput response ∈ (step deps s o).2 →
      ∃ (message : IncomingMessage) (content original : String) (index : Nat)
        (hooks : HookRegistry) (responseId : Option String) (turn : Turn),
        o = .loopDone index (.ok (.response original)) hooks responseId ∧
        response = transformResponse deps.serde hooks message.userId thread original ∧
        (step deps s o).2 =
          [.responseTransformed thread original response,
            .turnCompleted thread userInput response,
            .turnPersisted thread message.channel message.userId content (some response),
            .replied (.result (.response response))] ∧
        userInput = some content ∧
        (s.thread? thread).bind Thread.lastTurn = some turn ∧
        turn.state = .processing ∧ turn.userInput = content ∧
        ((step deps s o).1.thread? thread).bind Thread.lastTurn = some (turn.complete response)

/-- The completed turns of a run are persisted, each exactly once, as they were completed. -/
def TurnsPersisted (deps : Deps) (sessionId : Uuid) (userId : String) (ops : List Op) : Prop :=
  (run (step deps) (AgentState.new sessionId userId) ops).2.filterMap Event.completion =
      (run (step deps) (AgentState.new sessionId userId) ops).2.filterMap Event.persistence ∧
    ∀ v ∈ visited (step deps) (AgentState.new sessionId userId) ops,
      CompletesPersisted deps v.1 v.2

/-- An operation ends no turn behind an approval, and a message's loop only ends the open turn that
the message started. -/
def EndsDirectly (deps : Deps) (s : AgentState) : Op → Prop
  | .loopDone index (.ok (.response _)) _ _ =>
    match s.running[index]? with
    | some (.turn _ thread content _) =>
      ∀ t, s.thread? thread = some t → t.state ≠ .interrupted →
        ∃ turn, t.lastTurn = some turn ∧ turn.state = .processing ∧ turn.userInput = content
    | some (.resumed _ thread _) => s.thread? thread = none
    | _ => True
  | .toolDone index result =>
    match s.running[index]? with
    | some (.tool _ thread pending) =>
      detectAuthAwaiting deps.serde pending.toolName result = none ∨ s.thread? thread = none
    | _ => True
  | _ => True

/-- Events that neither complete a turn nor hand a completed one to the store. -/
private def EndsNoTurn (events : List Event) : Prop :=
  ∀ e ∈ events, e.completion = none ∧ e.persistence = none

private theorem EndsNoTurn.filterMap_eq {events : List Event} (h : EndsNoTurn events) :
    events.filterMap Event.completion = events.filterMap Event.persistence := by
  rw [List.filterMap_eq_nil_iff.mpr fun e he => (h e he).1,
    List.filterMap_eq_nil_iff.mpr fun e he => (h e he).2]

private theorem EndsNoTurn.completesPersisted {deps : Deps} {s : AgentState} {o : Op}
    (h : EndsNoTurn (step deps s o).2) : CompletesPersisted deps s o := by
  intro thread userInput response he
  cases (h _ he).1

section Quiet

variable (s : AgentState)

private theorem processUserInput_endsNoTurn (message : IncomingMessage) (thread : Uuid)
    (content : String) (checks : InputChecks) :
    EndsNoTurn (processUserInput s message thread content checks).2 := by
  unfold processUserInput
  repeat' split
  all_goals simp [EndsNoTurn, Event.completion, Event.persistence, replyError]

private theorem processApproval_endsNoTurn (message : IncomingMessage) (addressed : Uuid)
    (requestId : Option Uuid) (approved always : Bool) :
    EndsNoTurn (processApproval s message addressed requestId approved always).2 := by
  unfold processApproval
  repeat' split
  all_goals simp [EndsNoTurn, Event.completion, Event.persistence, replyError, noPendingApproval]

private theorem processUndo_endsNoTurn (thread freshId : Uuid) :
    EndsNoTurn (processUndo s thread freshId).2 := by
  unfold processUndo
  dsimp only
  repeat' split
  all_goals simp [EndsNoTurn, Event.completion, Event.persistence, replyOk, replyError]

private theorem processRedo_endsNoTurn (thread freshId : Uuid) :
    EndsNoTurn (processRedo s thread freshId).2 := by
  unfold processRedo
  dsimp only
  repeat' split
  all_goals simp [EndsNoTurn, Event.completion, Event.persistence, replyOk, replyError]

private theorem processResume_endsNoTurn (thread checkpointId : Uuid) :
    EndsNoTurn (processResume s thread checkpointId).2 := by
  unfold processResume
  dsimp only
  repeat' split
  all_goals simp [EndsNoTurn, Event.completion, Event.persistence, replyOk, replyError]

private theorem processInterrupt_endsNoTurn (thread : Uuid) :
    EndsNoTurn (processInterrupt s thread).2 := by
  unfold processInterrupt
  repeat' split
  all_goals simp [EndsNoTurn, Event.completion, Event.persistence, replyOk]

private theorem processCompact_endsNoTurn (thread : Uuid) (monitor : ContextMonitor)
    (world : CompactionWorld) : EndsNoTurn (processCompact s thread monitor world).2 := by
  unfold processCompact
  dsimp only
  repeat' split
  all_goals simp [EndsNoTurn, Event.completion, Event.persistence, replyOk, replyError]

private theorem processClear_endsNoTurn (thread : Uuid) :
    EndsNoTurn (processClear s thread).2 := by
  unfold processClear
  split
  all_goals simp [EndsNoTurn, Event.completion, Event.persistence, replyOk]

private theorem hydrateThread_endsNoTurn (thread : Uuid) (messages : List ChatMessage)
    (responseId : Option String) :
    EndsNoTurn (hydrateThread s thread messages responseId).2 := by
  unfold hydrateThread
  split
  all_goals simp [EndsNoTurn, Event.completion, Event.persistence]

private theorem processSwitchThread_endsNoTurn (target : Uuid) :
    EndsNoTurn (processSwitchThread s target).2 := by
  unfold processSwitchThread
  split
  all_goals simp [EndsNoTurn, Event.completion, Event.persistence, replyOk, replyError]

end Quiet

/-- A turn ends only where a waiting handler goes on. -/
private theorem step_endsNoTurn (deps : Deps) (s : AgentState) (o : Op)
    (hloop : ∀ index original hooks responseId,
      o ≠ .loopDone index (.ok (.response original)) hooks responseId)
    (htool : ∀ index result, o ≠ .toolDone index result) : EndsNoTurn (step deps s o).2 := by
  cases o with
  | newThread freshId =>
    simp [step, processNewThread, EndsNoTurn, Event.completion, Event.persistence, replyOk]
  | hydrate thread messages responseId => exact hydrateThread_endsNoTurn s thread messages responseId
  | switchThread target => exact processSwitchThread_endsNoTurn s target
  | userInput message thread content checks =>
    exact processUserInput_endsNoTurn s message thread content checks
  | loopEffect index effect =>
    simp only [step]
    split <;> simp [EndsNoTurn]
  | loopDone index result hooks responseId =>
    -- what is left is a loop that failed or asks for an approval
    simp only [step, processUserInputLoopDone, processApprovalLoopDone]
    repeat' split
    all_goals first
      | exact absurd rfl (hloop _ _ _ _)
      | simp [EndsNoTurn, Event.completion, Event.persistence, replyError, needApprovalReply]
  | approval message thread requestId approved always =>
    exact processApproval_endsNoTurn s message thread requestId approved always
  | toolDone index result => exact absurd rfl (htool index result)
  | undo thread freshId => exact processUndo_endsNoTurn s thread freshId
  | redo thread freshId => exact processRedo_endsNoTurn s thread freshId
  | interrupt thread => exact processInterrupt_endsNoTurn s thread
  | compact thread monitor world => exact processCompact_endsNoTurn s thread monitor world
  | clear thread => exact processClear_endsNoTurn s thread
  | resume thread checkpointId => exact processResume_endsNoTurn s thread checkpointId
  | authToken thread pending outcome =>
    simp [step, processAuthToken, EndsNoTurn, Event.completion, Event.persistence]
  | cancelAuth thread => simp [step, EndsNoTurn]

private theorem lastTurn_completeTurn {t : Thread} {turn : Turn} (h : t.lastTurn = some turn)
    (response : String) : (t.completeTurn response).lastTurn = some (turn.complete response) := by
  obtain ⟨turns, hturns⟩ := List.getLast?_eq_some_iff.mp h
  simp [Thread.completeTurn, Thread.modifyLastTurn, Thread.lastTurn, hturns,
    List.modifyLast_concat]

private theorem lastTurn_persistResponseChain (t : Thread) (responseId : Option String) :
    (persistResponseChain t responseId).lastTurn = t.lastTurn := by
  cases responseId <;> rfl

section Ending

variable {deps : Deps} {s : AgentState} {index : Nat} {message : IncomingMessage} {thread : Uuid}

/-- The direct ending of a turn that is still the message's own. -/
private theorem loopDone_turn_persists {content original : String}
    {turnMessages : List ChatMessage} {hooks : HookRegistry} {responseId : Option String}
    (hrun : s.running[index]? = some (.turn message thread content turnMessages))
    (hopen : ∀ t, s.thread? thread = some t → t.state ≠ .interrupted →
      ∃ turn, t.lastTurn = some turn ∧ turn.state = .processing ∧ turn.userInput = content) :
    CompletesPersisted deps s (.loopDone index (.ok (.response original)) hooks responseId) ∧
      (step deps s (.loopDone index (.ok (.response original)) hooks responseId)).2.filterMap
          Event.completion =
        (step deps s (.loopDone index (.ok (.response original)) hooks responseId)).2.filterMap
          Event.persistence := by
  have hthread : (s.finish index).thread? thread = s.thread? thread := rfl
  cases ht : s.thread? thread with
  | none =>
    have hquiet : EndsNoTurn
        (step deps s (.loopDone index (.ok (.response original)) hooks responseId)).2 := by
      simp [step, hrun, processUserInputLoopDone, hthread, ht, EndsNoTurn, Event.completion,
        Event.persistence]
    exact ⟨hquiet.completesPersisted, hquiet.filterMap_eq⟩
  | some t =>
    by_cases hstate : t.state = .interrupted
    · have hquiet : EndsNoTurn
          (step deps s (.loopDone index (.ok (.response original)) hooks responseId)).2 := by
        simp [step, hrun, processUserInputLoopDone, hthread, ht, hstate, EndsNoTurn,
          Event.completion, Event.persistence]
      exact ⟨hquiet.completesPersisted, hquiet.filterMap_eq⟩
    · obtain ⟨turn, hlast, hprocessing, hinput⟩ := hopen t ht hstate
      let response := transformResponse deps.serde hooks message.userId thread original
      have hstep : step deps s (.loopDone index (.ok (.response original)) hooks responseId) =
          ((s.finish index).setThread thread
              (persistResponseChain (t.completeTurn response) responseId),
            [.responseTransformed thread original response,
              .turnCompleted thread (some content) response,
              .turnPersisted thread message.channel message.userId content (some response),
              .replied (.result (.response response))]) := by
        simp [step, hrun, processUserInputLoopDone, hthread, ht, hstate, completedEvent, hlast,
          hinput, response]
      refine ⟨?_, ?_⟩
      · intro thread' userInput' response' he
        rw [hstep] at he ⊢
        have he : thread' = thread ∧ userInput' = some content ∧ response' = response := by
          simpa using he
        obtain ⟨rfl, rfl, rfl⟩ := he
        refine ⟨message, content, original, index, hooks, responseId, turn, rfl, rfl, rfl, rfl,
          ?_, hprocessing, hinput, ?_⟩
        · simp [ht, hlast]
        · simp [AgentState.setThread, AgentState.thread?, lastTurn_persistResponseChain,
            lastTurn_completeTurn hlast]
      · rw [hstep]
        rfl

/-- A resumed loop's answer completes a turn that nothing persists. -/
private theorem loopDone_resumed_completes (deps : Deps) (original : String) {context : List ChatMessage}
    (hooks : HookRegistry) (responseId : Option String) {t : Thread}
    (hrun : s.running[index]? = some (.resumed message thread context))
    (ht : s.thread? thread = some t) :
    (step deps s (.loopDone index (.ok (.response original)) hooks responseId)).2 =
      [.turnCompleted thread (t.lastTurn.map (·.userInput)) original,
        .replied (.result (.response original))] := by
  have hthread : (s.finish index).thread? thread = s.thread? thread := rfl
  simp [step, hrun, processApprovalLoopDone, hthread, ht, completedEvent]

private theorem thread?_modifyThread (session : Session) (f : Thread → Thread) :
    (session.modifyThread thread f).thread? thread = (session.thread? thread).map f := by
  unfold Session.modifyThread
  cases h : session.thread? thread <;> simp [h]

/-- An approved tool that asks for no token, or whose thread is gone, ends no turn. -/
private theorem toolDone_endsNoTurn {pending : PendingApproval} {result : Except String String}
    (hrun : s.running[index]? = some (.tool message thread pending))
    (h : detectAuthAwaiting deps.serde pending.toolName result = none ∨ s.thread? thread = none) :
    EndsNoTurn (step deps s (.toolDone index result)).2 := by
  simp only [step, hrun, processApprovalToolDone]
  split
  next extension instructions hauth =>
    have hgone : s.thread? thread = none := h.resolve_left (by simp [hauth])
    have hmissing : (s.finish index).session.thread? thread = none := hgone
    simp [AgentState.thread?, thread?_modifyThread, hmissing, EndsNoTurn, Event.completion,
      Event.persistence]
  · simp [EndsNoTurn]

/-- An approved tool that asks for a token completes a turn that nothing persists. -/
private theorem toolDone_auth_completes {pending : PendingApproval}
    {result : Except String String} {t : Thread} {extension instructions : String}
    (hrun : s.running[index]? = some (.tool message thread pending))
    (hauth : detectAuthAwaiting deps.serde pending.toolName result = some (extension, instructions))
    (ht : s.thread? thread = some t) :
    ∃ userInput, (step deps s (.toolDone index result)).2 =
      [.turnCompleted thread userInput instructions,
        .replied (.result (.response instructions))] := by
  have hfound : (s.finish index).session.thread? thread = some t := ht
  refine ⟨((t.modifyLastTurn (recordToolOutcome result)).lastTurn.map (·.userInput)), ?_⟩
  simp [step, hrun, processApprovalToolDone, hauth, AgentState.thread?, thread?_modifyThread,
    hfound, completedEvent]

end Ending

/-- What an operation under the condition completes is persisted, and nothing else is. -/
private theorem endsDirectly_persists (deps : Deps) (s : AgentState) (o : Op)
    (h : EndsDirectly deps s o) :
    CompletesPersisted deps s o ∧
      (step deps s o).2.filterMap Event.completion =
        (step deps s o).2.filterMap Event.persistence := by
  have hquiet (hq : EndsNoTurn (step deps s o).2) :
      CompletesPersisted deps s o ∧
        (step deps s o).2.filterMap Event.completion =
          (step deps s o).2.filterMap Event.persistence :=
    ⟨hq.completesPersisted, hq.filterMap_eq⟩
  cases o with
  | loopDone index result hooks responseId =>
    cases result with
    | error e => exact hquiet (step_endsNoTurn deps s _ (by simp) (by simp))
    | ok answer =>
      cases answer with
      | needApproval pending => exact hquiet (step_endsNoTurn deps s _ (by simp) (by simp))
      | response original =>
        cases hrun : s.running[index]? with
        | none => exact hquiet (by simp [step, hrun, EndsNoTurn])
        | some running =>
          cases running with
          | turn message thread content turnMessages =>
            exact loopDone_turn_persists hrun (by simpa [EndsDirectly, hrun] using h)
          | tool message thread pending => exact hquiet (by simp [step, hrun, EndsNoTurn])
          | resumed message thread context =>
            have hgone : s.thread? thread = none := by simpa [EndsDirectly, hrun] using h
            have hmissing : (s.finish index).thread? thread = none := hgone
            refine hquiet ?_
            simp [step, hrun, processApprovalLoopDone, hmissing, EndsNoTurn, Event.completion,
              Event.persistence]
  | toolDone index result =>
    cases hrun : s.running[index]? with
    | none => exact hquiet (by simp [step, hrun, EndsNoTurn])
    | some running =>
      cases running with
      | tool message thread pending =>
        exact hquiet (toolDone_endsNoTurn hrun (by simpa [EndsDirectly, hrun] using h))
      | turn message thread content turnMessages => exact hquiet (by simp [step, hrun, EndsNoTurn])
      | resumed message thread context => exact hquiet (by simp [step, hrun, EndsNoTurn])
  | _ => exact hquiet (step_endsNoTurn deps s _ (by simp) (by simp))

/-- Outside the condition a turn is completed and not persisted, or it is not the open turn of the
message. -/
private theorem endsDirectly_of_completesPersisted (deps : Deps) (s : AgentState) (o : Op)
    (h : CompletesPersisted deps s o) : EndsDirectly deps s o := by
  cases o with
  | loopDone index result hooks responseId =>
    cases result with
    | error e => trivial
    | ok answer =>
      cases answer with
      | needApproval pending => trivial
      | response original =>
        cases hrun : s.running[index]? with
        | none => simp [EndsDirectly, hrun]
        | some running =>
          cases running with
          | tool message thread pending => simp [EndsDirectly, hrun]
          | turn message thread content turnMessages =>
            simp only [EndsDirectly, hrun]
            intro t ht hstate
            have hthread : (s.finish index).thread? thread = some t := ht
            obtain ⟨message', content', original', index', hooks', responseId', turn, ho, -, hevents,
              hinput, hlast, hprocessing, hcontent, -⟩ := h thread (t.lastTurn.map (·.userInput))
                (transformResponse deps.serde hooks message.userId thread original)
                (by simp [step, hrun, processUserInputLoopDone, hthread, hstate, completedEvent])
            have hlast : t.lastTurn = some turn := by simpa [ht] using hlast
            refine ⟨turn, hlast, hprocessing, ?_⟩
            have hcontents : content = content' := by
              simp only [step, hrun, processUserInputLoopDone, hthread, hstate] at hevents
              simp at hevents
              exact hevents.2.2.2.2
            rw [hcontent, hcontents]
          | resumed message thread context =>
            simp only [EndsDirectly, hrun]
            cases ht : s.thread? thread with
            | none => rfl
            | some t =>
              have hevents := loopDone_resumed_completes deps original hooks responseId hrun ht
              obtain ⟨_, _, _, _, _, _, _, -, -, hfour, -⟩ :=
                h thread (t.lastTurn.map (·.userInput)) original (by simp [hevents])
              simp [hevents] at hfour
  | toolDone index result =>
    cases hrun : s.running[index]? with
    | none => simp [EndsDirectly, hrun]
    | some running =>
      cases running with
      | turn message thread content turnMessages => simp [EndsDirectly, hrun]
      | resumed message thread context => simp [EndsDirectly, hrun]
      | tool message thread pending =>
        simp only [EndsDirectly, hrun]
        cases hauth : detectAuthAwaiting deps.serde pending.toolName result with
        | none => exact Or.inl rfl
        | some asked =>
          cases ht : s.thread? thread with
          | none => exact Or.inr rfl
          | some t =>
            obtain ⟨userInput, hevents⟩ := toolDone_auth_completes hrun hauth ht
            obtain ⟨_, _, _, _, _, _, _, ho, -⟩ :=
              h thread userInput asked.2 (by simp [hevents])
            cases ho
  | _ => trivial

/-- In a run, every completed turn is transformed, persisted once and replied with the same text
exactly when every operation of the run ends its turn directly. -/
theorem turns_persisted_iff_ended_directly (deps : Deps) (sessionId : Uuid) (userId : String)
    (ops : List Op) :
    TurnsPersisted deps sessionId userId ops ↔
      ∀ v ∈ visited (step deps) (AgentState.new sessionId userId) ops,
        EndsDirectly deps v.1 v.2 := by
  constructor
  · intro h v hv
    exact endsDirectly_of_completesPersisted deps v.1 v.2 (h.2 v hv)
  · intro h
    refine ⟨?_, fun v hv => (endsDirectly_persists deps v.1 v.2 (h v hv)).1⟩
    rw [run_log, List.filterMap_flatMap, List.filterMap_flatMap]
    exact List.flatMap_congr fun v hv => (endsDirectly_persists deps v.1 v.2 (h v hv)).2

section Approved

private def plainDeps : Deps where
  serde := ⟨fun _ => "\x7b\x7d", fun _ => "\x7b\x7d", fun _ => none⟩
  cleanResponse text := text
  validator := .new
  wrapToolOutput tool output :=
    s!"<tool_output name=\"{tool}\" sanitized=\"false\">\n{output}\n</tool_output>"

private def plainChecks : InputChecks :=
  ⟨[], false, none, ⟨fun _ => none, fun _ => "0.0", fun _ => 0⟩, ⟨.ok "", none⟩, .ofNat 7⟩

private def shellRequest : PendingApproval :=
  ⟨.ofNat 9, "shell", .object [], "Run a command", "call_1", [.user "clean up"]⟩

/-- A message whose turn asks for one approval, gets it, and is then answered. -/
private def approvedTurn : List Op :=
  [.newThread (.ofNat 1),
    .userInput ⟨"user", "repl"⟩ (.ofNat 1) "clean up" plainChecks,
    .loopDone 0 (.ok (.needApproval shellRequest)) [] none,
    .approval ⟨"user", "repl"⟩ (.ofNat 1) none true false,
    .toolDone 0 (.ok "removed 3 files"),
    .loopDone 0 (.ok (.response "Done.")) [] none]

/-- The turn answered after an approval is completed and never persisted. -/
theorem approved_turn_not_persisted :
    ¬ TurnsPersisted plainDeps (.ofNat 0) "user" approvedTurn := by
  intro h
  have hlists : [(Uuid.ofNat 1, some "clean up", "Done.")] = [] := h.1
  cases hlists

end Approved

end Gyre.Agent
