/- digest: The tool calls on a turn's record, and which call each outcome is attached to. -/

import Mathlib.Data.List.ModifyLast
import Gyre.Agent.Dispatcher
import Gyre.Lib.Runs

/-!
The calls of an answer are recorded before the first of them is looked at; outcomes then go to the
call recorded last. What each call ought to show is kept beside the thread, place by place.
-/

set_option autoImplicit false
set_option relaxedAutoImplicit false

namespace Gyre.Agent

open Gyre.Llm Gyre.Hooks Gyre.Tools

/-- What an event of the loop does to its thread. -/
def LoopEvent.effect : LoopEvent → Option LoopEffect
  | .callRecorded name params => some (.recordToolCall name params)
  | .outcomeRecorded outcome => some (.recordToolOutcome outcome)
  | .authModeEntered extension => some (.enterAuthMode extension)
  | _ => none

def noteEvent (t : Thread) (e : LoopEvent) : Thread :=
  match LoopEvent.effect e with
  | some effect => effect.apply t
  | none => t

/-- A recorded call with the outcome of its own execution. -/
@[grind =] def showing (name : String) (params : Json) : Option (Except String String) → TurnToolCall
  | none => ⟨name, params, none, none⟩
  | some (.ok output) => ⟨name, params, some (.string output), none⟩
  | some (.error e) => ⟨name, params, none, some e⟩

section Own

variable (deps : Deps) (userId : String) (worlds : Nat → CallWorld)

/-- What the hooks answer for a call of the chat loop. -/
def hookAnswer (w : CallWorld) (tc : ToolCall) : Except HookError HookOutcome :=
  Hooks.run deps.serde w.hooks (.toolCall tc.name tc.arguments userId "chat")

/-- The outcome of executing a call as the hooks left it. -/
def executionOf (w : CallWorld) (tc : ToolCall) (outcome : HookOutcome) : Except String String :=
  printedOutcome (executeChatTool deps w.tools tc.name
    (hookedParameters deps.serde tc.arguments outcome) w.run).1

/-- The outcome of each call of an answer, of those that are executed; `i` counts the calls so
far. -/
@[grind =] def ownOutcomes : Nat → List ToolCall → List (Option (Except String String))
  | _, [] => []
  | i, tc :: rest =>
    match awaitsUser (worlds i) tc with
    | some _ => none :: rest.map fun _ => none
    | none =>
      match hookAnswer deps userId (worlds i) tc with
      | .error _ => none :: ownOutcomes (i + 1) rest
      | .ok outcome =>
        let own := executionOf deps (worlds i) tc outcome
        some own ::
          if (detectAuthAwaiting deps.serde tc.name own).isSome then rest.map fun _ => none
          else ownOutcomes (i + 1) rest

/-- The place of the call that an answer leaves waiting for the user. -/
@[grind =] def heldPlace : Nat → List ToolCall → Option Nat
  | _, [] => none
  | i, tc :: rest =>
    match awaitsUser (worlds i) tc with
    | some _ => some 0
    | none =>
      match hookAnswer deps userId (worlds i) tc with
      | .error _ => (heldPlace (i + 1) rest).map (· + 1)
      | .ok outcome =>
        if (detectAuthAwaiting deps.serde tc.name (executionOf deps (worlds i) tc outcome)).isSome then
          none
        else (heldPlace (i + 1) rest).map (· + 1)

/-- How the calls of an answer ought to show. -/
def owedFor (calls : List ToolCall) : List TurnToolCall :=
  List.zipWith (fun tc own => showing tc.name tc.arguments own) calls
    (ownOutcomes deps userId worlds 0 calls)

/-- Up to the first call that waits for the user, the hooks reject each call but the last. -/
@[grind =] def OnlyLastRuns : Nat → List ToolCall → Prop
  | _, [] => True
  | i, tc :: rest =>
    rest = [] ∨ (awaitsUser (worlds i) tc).isSome ∨
      (hookAnswer deps userId (worlds i) tc).isOk = false ∧ OnlyLastRuns (i + 1) rest

end Own

/-- The loop with its thread; `owed` is how the calls on the turn ought to show, and `held` the place
among them of the call that waits. -/
structure Recording where
  phase : LoopPhase
  thread : Thread
  owed : List TurnToolCall
  held : Nat

namespace Recording

/-- A turn that has just begun. -/
def start (t : Thread) (userInput : String) : Recording :=
  ⟨.running ⟨(t.startTurn userInput).messages, 0, false⟩, t.startTurn userInput, [], 0⟩

/-- The turn shows each recorded call with its own outcome. -/
def Attributed (s : Recording) : Prop :=
  s.thread.lastTurn.map (·.toolCalls) = some s.owed

instance (s : Recording) : Decidable s.Attributed := inferInstanceAs (Decidable (_ = _))

end Recording

instance (st : LoopState) (w : IterationWorld) : Decidable (Halts st w) :=
  inferInstanceAs (Decidable (_ ∨ _ ∨ _))

/-- The calls of an iteration's answer. -/
@[grind =] def answeredCalls (deps : Deps) (turn : ChatTurn) (st : LoopState) (w : IterationWorld) :
    List ToolCall :=
  if Halts st w then []
  else
    match respondWithTools deps (offeredTools turn w) w.answer with
    | .ok (.toolCalls calls _) => calls
    | _ => []

/-- The outcome of the call that waits, once it is approved. -/
def approvedOutcome (deps : Deps) (pending : PendingApproval) (tools : ToolRegistry) (run : ToolRun) :
    Except String String :=
  printedOutcome (executeChatTool deps tools pending.toolName pending.parameters run).1

def recordStep (deps : Deps) (s : Recording) (op : ChatOp) : Recording × List LoopEvent :=
  let next := chatStep deps s.phase op
  let s' := { s with phase := next.1, thread := next.2.foldl noteEvent s.thread }
  (match s.phase, op with
    | .running st, .iterate turn w =>
      let calls := answeredCalls deps turn st w
      { s' with
        owed := s.owed ++ owedFor deps turn.userId w.calls calls
        held := s.owed.length + (heldPlace deps turn.userId w.calls 0 calls).getD 0 }
    | .ended (.ok (.needApproval pending)), .approve tools run =>
      { s' with
        owed := s.owed.set s.held (showing pending.toolName pending.parameters
          (some (approvedOutcome deps pending tools run))) }
    | _, _ => s',
    next.2)

/-- The outcomes of a step are those of the call recorded last. -/
def OwnCallLast (deps : Deps) (s : Recording) (op : ChatOp) : Prop :=
  match s.phase, op with
  | .running st, .iterate turn w =>
    OnlyLastRuns deps turn.userId w.calls 0 (answeredCalls deps turn st w)
  | .ended (.ok (.needApproval _)), .approve .. => s.held + 1 = s.owed.length
  | _, _ => True

section Notes

/-- An outcome on a recorded call. -/
def attach (outcome : Except String String) (c : TurnToolCall) : TurnToolCall :=
  match outcome with
  | .ok output => { c with result := some (.string output) }
  | .error e => { c with error := some e }

/-- What an event does to the calls of the last turn. -/
@[grind =] def noteCalls (calls : List TurnToolCall) : LoopEvent → List TurnToolCall
  | .callRecorded name params => calls ++ [showing name params none]
  | .outcomeRecorded outcome => calls.modifyLast (attach outcome)
  | _ => calls

theorem attach_showing (name : String) (params : Json) (outcome : Except String String) :
    attach outcome (showing name params none) = showing name params (some outcome) := by
  cases outcome <;> rfl

theorem showing_injective (name : String) (params : Json) :
    Function.Injective (showing name params) := by
  intro a b h
  rcases a with _ | (_ | _) <;> rcases b with _ | (_ | _) <;> simp_all [showing]

theorem lastTurn_modifyLastTurn (t : Thread) (f : Turn → Turn) :
    (t.modifyLastTurn f).lastTurn = t.lastTurn.map f := by
  unfold Thread.modifyLastTurn Thread.lastTurn
  rcases List.eq_nil_or_concat t.turns with hnil | ⟨earlier, turn, hturns⟩
  · rw [hnil]
    rfl
  · rw [hturns, List.concat_eq_append, List.modifyLast_concat]
    simp

theorem toolCalls_noteEvent (t : Thread) (e : LoopEvent) :
    (noteEvent t e).lastTurn.map (·.toolCalls) =
      (t.lastTurn.map (·.toolCalls)).map fun calls => noteCalls calls e := by
  cases e with
  | callRecorded name params =>
    change ((t.modifyLastTurn _).lastTurn).map _ = _
    rw [lastTurn_modifyLastTurn, Option.map_map, Option.map_map]
    rfl
  | outcomeRecorded outcome =>
    change ((t.modifyLastTurn _).lastTurn).map _ = _
    rw [lastTurn_modifyLastTurn, Option.map_map, Option.map_map]
    cases outcome <;> rfl
  | authModeEntered extension => exact Option.map_id'.symm
  | requested messages tools => exact Option.map_id'.symm
  | hookRan event answer => exact Option.map_id'.symm
  | executed toolName params => exact Option.map_id'.symm

theorem toolCalls_noted (events : List LoopEvent) (t : Thread) :
    (events.foldl noteEvent t).lastTurn.map (·.toolCalls) =
      (t.lastTurn.map (·.toolCalls)).map fun calls => events.foldl noteCalls calls := by
  induction events generalizing t with
  | nil => exact Option.map_id'.symm
  | cons e rest ih =>
    rw [List.foldl_cons, ih, toolCalls_noteEvent, Option.map_map]
    rfl

theorem noteCalls_recorded (calls : List ToolCall) (before : List TurnToolCall) :
    (calls.map fun tc => LoopEvent.callRecorded tc.name tc.arguments).foldl noteCalls before =
      before ++ calls.map fun tc => showing tc.name tc.arguments none := by
  induction calls generalizing before with
  | nil => exact (List.append_nil before).symm
  | cons tc rest ih =>
    rw [List.map_cons, List.foldl_cons, ih, List.map_cons]
    exact List.append_assoc before _ _

/-- Events that are no records leave the calls alone. -/
theorem foldl_noteCalls_quiet {events : List LoopEvent}
    (h : ∀ e ∈ events, (∃ event answer, e = .hookRan event answer) ∨
      ∃ toolName params, e = .executed toolName params) (calls : List TurnToolCall) :
    events.foldl noteCalls calls = calls := by
  induction events with
  | nil => rfl
  | cons e rest ih =>
    obtain ⟨hfirst, hrest⟩ := List.forall_mem_cons.mp h
    have hsame : noteCalls calls e = calls := by
      rcases hfirst with ⟨event, answer, rfl⟩ | ⟨toolName, params, rfl⟩ <;> rfl
    rw [List.foldl_cons, hsame]
    exact ih hrest

end Notes

section Batch

variable (deps : Deps) (userId : String) (worlds : Nat → CallWorld)

theorem executeChatTool_quiet (tools : ToolRegistry) (toolName : String) (params : Json)
    (run : ToolRun) (calls : List TurnToolCall) :
    (executeChatTool deps tools toolName params run).2.foldl noteCalls calls = calls := by
  apply foldl_noteCalls_quiet
  intro e he
  rcases executeChatTool_cases deps tools toolName params run with ⟨-, hnone⟩ | ⟨-, -, hone⟩
  · rw [hnone] at he
    exact absurd he List.not_mem_nil
  · rw [hone] at he
    exact Or.inr ⟨toolName, params, List.mem_singleton.mp he⟩

theorem chatToolCall_held {w : CallWorld} {tc : ToolCall} {tool : Tool}
    (h : awaitsUser w tc = some tool) (context : List ChatMessage) :
    chatToolCall deps userId w context tc =
      (.held ⟨w.requestId, tc.name, tc.arguments, tool.description, tc.id, context⟩, []) := by
  unfold chatToolCall
  rw [h]

theorem chatToolCall_blocked {w : CallWorld} {tc : ToolCall} {e : HookError}
    (h : awaitsUser w tc = none) (hhook : hookAnswer deps userId w tc = .error e)
    (context : List ChatMessage) :
    ∃ content event answer, chatToolCall deps userId w context tc =
      (.blocked content, [.hookRan event answer]) := by
  unfold hookAnswer at hhook
  unfold chatToolCall
  simp only [h, hhook]
  cases e <;> exact ⟨_, _, _, rfl⟩

theorem chatToolCall_ran {w : CallWorld} {tc : ToolCall} {outcome : HookOutcome}
    (h : awaitsUser w tc = none) (hhook : hookAnswer deps userId w tc = .ok outcome)
    (context : List ChatMessage) :
    ∃ result events, chatToolCall deps userId w context tc = (.ran result, events) ∧
      printedOutcome result = executionOf deps w tc outcome ∧
      ∀ calls, events.foldl noteCalls calls = calls := by
  unfold hookAnswer at hhook
  unfold chatToolCall
  simp only [h, hhook]
  refine ⟨_, _, rfl, rfl, fun calls => ?_⟩
  rw [List.foldl_cons]
  exact executeChatTool_quiet deps _ _ _ _ calls

/-- The records of a batch change the last call alone. -/
theorem batch_keeps_earlier (calls : List ToolCall) (i : Nat) (context : List ChatMessage)
    (recorded : List TurnToolCall) (c : TurnToolCall) :
    ∃ c', (runToolCalls deps userId worlds i context calls).2.foldl noteCalls (recorded ++ [c]) =
      recorded ++ [c'] := by
  induction calls generalizing i context c with
  | nil => exact ⟨c, rfl⟩
  | cons tc rest ih =>
    unfold runToolCalls
    cases hawait : awaitsUser (worlds i) tc with
    | some tool =>
      rw [chatToolCall_held deps userId hawait]
      exact ⟨c, rfl⟩
    | none =>
      cases hhook : hookAnswer deps userId (worlds i) tc with
      | error e =>
        obtain ⟨content, event, answer, hblocked⟩ :=
          chatToolCall_blocked deps userId hawait hhook context
        rw [hblocked]
        exact ih (i + 1) _ c
      | ok outcome =>
        obtain ⟨result, events, hran, hown, hquiet⟩ :=
          chatToolCall_ran deps userId hawait hhook context
        rw [hran]
        dsimp only
        cases hauth : detectAuthAwaiting deps.serde tc.name (printedOutcome result) with
        | some asked =>
          refine ⟨attach (printedOutcome result) c, ?_⟩
          simp only [List.foldl_append, hquiet, List.foldl_cons, List.foldl_nil, noteCalls,
            List.modifyLast_concat]
        | none =>
          obtain ⟨c', hrest⟩ := ih (i + 1) (context ++ [.toolResult tc.id tc.name
            (toolResultContent deps tc.name (printedOutcome result))])
              (attach (printedOutcome result) c)
          refine ⟨c', ?_⟩
          simp only [List.foldl_append, hquiet, List.foldl_cons, List.foldl_nil, noteCalls,
            List.modifyLast_concat]
          exact hrest

theorem zipWith_none (calls : List ToolCall) :
    List.zipWith (fun tc own => showing tc.name tc.arguments own) calls (calls.map fun _ => none) =
      calls.map fun tc => showing tc.name tc.arguments none := by
  induction calls with
  | nil => rfl
  | cons tc rest ih => rw [List.map_cons, List.zipWith_cons_cons, ih, List.map_cons]

/-- A call that is executed while another one is recorded after it never gets its outcome. -/
theorem batch_loses_outcome {i : Nat} {tc : ToolCall} {rest : List ToolCall} (hrest : rest ≠ [])
    (context : List ChatMessage) (recorded after : List TurnToolCall)
    (own : Except String String) :
    (runToolCalls deps userId worlds i context (tc :: rest)).2.foldl noteCalls
        (recorded ++ (tc :: rest).map fun tc => showing tc.name tc.arguments none) ≠
      recorded ++ showing tc.name tc.arguments (some own) :: after := by
  obtain ⟨earlier, last, rfl⟩ := (List.eq_nil_or_concat' rest).resolve_left hrest
  intro heq
  have hsplit : recorded ++ (tc :: (earlier ++ [last])).map
      (fun tc => showing tc.name tc.arguments none) =
        (recorded ++ showing tc.name tc.arguments none ::
          earlier.map fun tc => showing tc.name tc.arguments none) ++
            [showing last.name last.arguments none] := by simp
  obtain ⟨c', hkept⟩ := batch_keeps_earlier deps userId worlds (tc :: (earlier ++ [last])) i context
    (recorded ++ showing tc.name tc.arguments none ::
      earlier.map fun tc => showing tc.name tc.arguments none)
        (showing last.name last.arguments none)
  rw [hsplit, hkept, List.append_assoc, List.append_cancel_left_eq, List.cons_append,
    List.cons.injEq] at heq
  cases showing_injective tc.name tc.arguments heq.1

/-- The calls of an answer end up with their own outcomes exactly if only the last of them ran. -/
theorem batch_attributed_iff (calls : List ToolCall) (i : Nat) (context : List ChatMessage)
    (recorded : List TurnToolCall) :
    (runToolCalls deps userId worlds i context calls).2.foldl noteCalls
        (recorded ++ calls.map fun tc => showing tc.name tc.arguments none) =
      recorded ++ List.zipWith (fun tc own => showing tc.name tc.arguments own) calls
        (ownOutcomes deps userId worlds i calls) ↔
    OnlyLastRuns deps userId worlds i calls := by
  induction calls generalizing i context recorded with
  | nil => exact iff_of_true rfl trivial
  | cons tc rest ih =>
    cases hawait : awaitsUser (worlds i) tc with
    | some tool =>
      have hone : OnlyLastRuns deps userId worlds i (tc :: rest) :=
        Or.inr (Or.inl (by rw [hawait]; rfl))
      refine iff_of_true ?_ hone
      rw [runToolCalls, chatToolCall_held deps userId hawait, ownOutcomes, hawait]
      dsimp only
      rw [List.zipWith_cons_cons, zipWith_none]
      rfl
    | none =>
      cases hhook : hookAnswer deps userId (worlds i) tc with
      | error e =>
        obtain ⟨content, event, answer, hblocked⟩ :=
          chatToolCall_blocked deps userId hawait hhook context
        have hshift : recorded ++ (tc :: rest).map (fun tc => showing tc.name tc.arguments none) =
            (recorded ++ [showing tc.name tc.arguments none]) ++
              rest.map fun tc => showing tc.name tc.arguments none := by simp
        have hlast : OnlyLastRuns deps userId worlds i (tc :: rest) ↔
            OnlyLastRuns deps userId worlds (i + 1) rest := by
          simp only [OnlyLastRuns, hawait, hhook]
          constructor
          · rintro (rfl | hheld | ⟨-, hrest⟩)
            · trivial
            · cases hheld
            · exact hrest
          · exact fun hrest => Or.inr (Or.inr ⟨rfl, hrest⟩)
        rw [hlast, ← ih (i + 1) (context ++ [.toolResult tc.id tc.name content])
          (recorded ++ [showing tc.name tc.arguments none]), hshift, runToolCalls, hblocked, ownOutcomes,
          hawait]
        simp only [hhook, List.zipWith_cons_cons, List.append_assoc, List.singleton_append]
        rfl
      | ok outcome =>
        obtain ⟨result, events, hran, hown, hquiet⟩ :=
          chatToolCall_ran deps userId hawait hhook context
        by_cases hrest : rest = []
        · subst hrest
          refine iff_of_true ?_ (Or.inl rfl)
          rw [runToolCalls, hran, ownOutcomes, hawait]
          simp only [hhook, hown, List.map_cons, List.map_nil]
          cases hauth : detectAuthAwaiting deps.serde tc.name (executionOf deps (worlds i) tc outcome) <;>
            simp only [List.foldl_append, hquiet, List.foldl_cons, List.foldl_nil, noteCalls,
              List.modifyLast_concat, attach_showing, runToolCalls, ownOutcomes] <;> rfl
        · refine iff_of_false ?_ ?_
          · rw [ownOutcomes, hawait]
            simp only [hhook, List.zipWith_cons_cons]
            exact batch_loses_outcome deps userId worlds hrest context recorded _ _
          · rintro (hnil | hheld | ⟨hfails, -⟩)
            · exact hrest hnil
            · rw [hawait] at hheld
              cases hheld
            · rw [hhook] at hfails
              cases hfails

/-- The call that an answer leaves waiting owes nothing yet. -/
theorem heldPlace_of_held {calls : List ToolCall} {i : Nat} {context : List ChatMessage}
    {pending : PendingApproval}
    (h : (runToolCalls deps userId worlds i context calls).1 = .held pending) :
    ∃ place, heldPlace deps userId worlds i calls = some place ∧
      (List.zipWith (fun tc own => showing tc.name tc.arguments own) calls
        (ownOutcomes deps userId worlds i calls))[place]? =
          some (showing pending.toolName pending.parameters none) := by
  induction calls generalizing i context with
  | nil => cases h
  | cons tc rest ih =>
    rw [runToolCalls] at h
    rw [heldPlace, ownOutcomes]
    cases hawait : awaitsUser (worlds i) tc with
    | some tool =>
      rw [chatToolCall_held deps userId hawait] at h
      cases h
      exact ⟨0, rfl, rfl⟩
    | none =>
      cases hhook : hookAnswer deps userId (worlds i) tc with
      | error e =>
        obtain ⟨content, event, answer, hblocked⟩ :=
          chatToolCall_blocked deps userId hawait hhook context
        rw [hblocked] at h
        obtain ⟨place, hplace, howed⟩ := ih h
        exact ⟨place + 1, by simp only [hplace, Option.map_some], howed⟩
      | ok outcome =>
        obtain ⟨result, events, hran, hown, -⟩ :=
          chatToolCall_ran deps userId hawait hhook context
        simp only [hran, hown] at h
        cases hauth : detectAuthAwaiting deps.serde tc.name
            (executionOf deps (worlds i) tc outcome) with
        | some asked =>
          rw [hauth] at h
          cases h
        | none =>
          rw [hauth] at h
          obtain ⟨place, hplace, howed⟩ := ih h
          refine ⟨place + 1, ?_, ?_⟩
          · simp only [hauth, hplace, Option.map_some]
            rfl
          · simp only [hauth]
            exact howed

end Batch

section Steps

variable (deps : Deps)

/-- The turn shows what it owes, and the call that waits is among the recorded ones, still open. -/
def Recording.Sound (s : Recording) : Prop :=
  s.Attributed ∧ ∀ pending, s.phase = .ended (.ok (.needApproval pending)) →
    s.owed[s.held]? = some (showing pending.toolName pending.parameters none)

theorem attributed_noted {s : Recording} (hs : s.Attributed) (events : List LoopEvent)
    (next : LoopPhase) (owed : List TurnToolCall) (held : Nat) :
    Recording.Attributed ⟨next, events.foldl noteEvent s.thread, owed, held⟩ ↔
      events.foldl noteCalls s.owed = owed := by
  unfold Recording.Attributed at hs ⊢
  rw [toolCalls_noted, hs, Option.map_some, Option.some.injEq]

/-- What an iteration records, and what it ends in when a call has to wait. -/
theorem chatIteration_records (turn : ChatTurn) (st : LoopState) (w : IterationWorld)
    (recorded : List TurnToolCall) :
    ∃ context, (chatIteration deps turn st w).2.foldl noteCalls recorded =
        (runToolCalls deps turn.userId w.calls 0 context (answeredCalls deps turn st w)).2.foldl
          noteCalls (recorded ++ (answeredCalls deps turn st w).map fun tc =>
            showing tc.name tc.arguments none) ∧
      ∀ pending, (chatIteration deps turn st w).1 = .ended (.ok (.needApproval pending)) →
        (runToolCalls deps turn.userId w.calls 0 context (answeredCalls deps turn st w)).1 =
          .held pending := by
  by_cases hhalts : Halts st w
  · obtain ⟨error, hended⟩ := chatIteration_of_halts deps turn hhalts
    have hcalls : answeredCalls deps turn st w = [] := if_pos hhalts
    rw [hended, hcalls]
    exact ⟨[], (List.append_nil recorded).symm, fun pending h => by cases h⟩
  · cases hanswer : respondWithTools deps (offeredTools turn w) w.answer with
    | error e =>
      have hcalls : answeredCalls deps turn st w = [] := by
        rw [answeredCalls, if_neg hhalts, hanswer]
      rw [chatIteration_failed deps turn hhalts hanswer, hcalls]
      exact ⟨[], (List.append_nil recorded).symm, fun pending h => by cases h⟩
    | ok result =>
      rw [chatIteration_answered deps turn hhalts hanswer]
      cases result with
      | text text =>
        have hcalls : answeredCalls deps turn st w = [] := by
          rw [answeredCalls, if_neg hhalts, hanswer]
        rw [hcalls]
        refine ⟨[], ?_, fun pending h => ?_⟩
        · simp only [handleAnswer]
          split <;> exact (List.append_nil recorded).symm
        · simp only [handleAnswer] at h
          split at h <;> cases h
      | toolCalls calls content =>
        have hcalls : answeredCalls deps turn st w = calls := by
          rw [answeredCalls, if_neg hhalts, hanswer]
        rw [hcalls]
        refine ⟨st.context ++ [.assistantWithToolCalls content calls], ?_, fun pending h => ?_⟩
        · rw [List.foldl_cons]
          change ((calls.map _) ++ _).foldl noteCalls recorded = _
          rw [List.foldl_append, noteCalls_recorded]
        · simp only [handleAnswer] at h
          cases hbatch : (runToolCalls deps turn.userId w.calls 0
              (st.context ++ [.assistantWithToolCalls content calls]) calls).1 with
          | answered context =>
            rw [hbatch] at h
            cases h
          | held pending' =>
            rw [hbatch] at h
            cases h
            rfl
          | askedForToken extension instructions =>
            rw [hbatch] at h
            cases h

/-- What an approved call records. -/
theorem resumeApproved_records (pending : PendingApproval) (tools : ToolRegistry) (run : ToolRun)
    (recorded : List TurnToolCall) :
    (resumeApproved deps pending tools run).2.foldl noteCalls recorded =
        recorded.modifyLast (attach (approvedOutcome deps pending tools run)) ∧
      ∀ other, (resumeApproved deps pending tools run).1 ≠ .ended (.ok (.needApproval other)) := by
  unfold resumeApproved approvedOutcome
  dsimp only
  split <;>
    simp [List.foldl_append, executeChatTool_quiet, noteCalls]

/-- An approved call shows its outcome exactly if it was recorded last. -/
theorem modifyLast_eq_set_iff {recorded : List TurnToolCall} {place : Nat} {name : String}
    {params : Json} (hopen : recorded[place]? = some (showing name params none))
    (own : Except String String) :
    recorded.modifyLast (attach own) = recorded.set place (showing name params (some own)) ↔
      place + 1 = recorded.length := by
  obtain ⟨hplace, hget⟩ := List.getElem?_eq_some_iff.mp hopen
  have hne : recorded ≠ [] := List.ne_nil_of_length_pos (by omega)
  obtain ⟨earlier, last, rfl⟩ := (List.eq_nil_or_concat' recorded).resolve_left hne
  rw [List.modifyLast_concat, List.length_append, List.length_singleton]
  rw [List.length_append, List.length_singleton] at hplace
  by_cases hlast : place = earlier.length
  · subst hlast
    have hshows : last = showing name params none := by simpa using hget
    refine iff_of_true ?_ rfl
    rw [List.set_append_right _ _ le_rfl, Nat.sub_self, List.set_cons_zero, hshows, attach_showing]
  · have hbefore : place < earlier.length := by omega
    refine iff_of_false (fun heq => ?_) (by omega)
    rw [List.set_append_left _ _ hbefore] at heq
    have hsame : earlier = earlier.set place (showing name params (some own)) :=
      (List.append_inj' heq rfl).1
    have hthere : earlier[place]? = some (showing name params none) := by
      rwa [List.getElem?_append_left hbefore] at hopen
    rw [hsame, List.getElem?_set_self hbefore, Option.some.injEq] at hthere
    cases showing_injective name params hthere

theorem recordStep_iterate (st : LoopState) (thread : Thread) (owed : List TurnToolCall) (held : Nat)
    (hs : Recording.Attributed ⟨.running st, thread, owed, held⟩) (turn : ChatTurn)
    (w : IterationWorld) :
    ((recordStep deps ⟨.running st, thread, owed, held⟩ (.iterate turn w)).1.Attributed ↔
      OnlyLastRuns deps turn.userId w.calls 0 (answeredCalls deps turn st w)) ∧
    ∀ pending, (recordStep deps ⟨.running st, thread, owed, held⟩ (.iterate turn w)).1.phase =
        .ended (.ok (.needApproval pending)) →
      (recordStep deps ⟨.running st, thread, owed, held⟩ (.iterate turn w)).1.owed[
        (recordStep deps ⟨.running st, thread, owed, held⟩ (.iterate turn w)).1.held]? =
          some (showing pending.toolName pending.parameters none) := by
  obtain ⟨context, hrecords, hheld⟩ := chatIteration_records deps turn st w owed
  constructor
  · rw [← batch_attributed_iff deps turn.userId w.calls (answeredCalls deps turn st w) 0 context owed,
      ← hrecords]
    exact attributed_noted hs _ _ _ _
  · intro pending hphase
    obtain ⟨place, hplace, howed⟩ := heldPlace_of_held deps turn.userId w.calls (hheld pending hphase)
    change (owed ++ owedFor deps turn.userId w.calls (answeredCalls deps turn st w))[owed.length +
      (heldPlace deps turn.userId w.calls 0 (answeredCalls deps turn st w)).getD 0]? = _
    rw [hplace, Option.getD_some, List.getElem?_append_right (Nat.le_add_right _ _),
      Nat.add_sub_cancel_left]
    exact howed

theorem recordStep_approve (pending : PendingApproval) (thread : Thread) (owed : List TurnToolCall)
    (held : Nat)
    (hs : Recording.Sound ⟨.ended (.ok (.needApproval pending)), thread, owed, held⟩)
    (tools : ToolRegistry) (run : ToolRun) :
    ((recordStep deps ⟨.ended (.ok (.needApproval pending)), thread, owed, held⟩
        (.approve tools run)).1.Attributed ↔ held + 1 = owed.length) ∧
    ∀ other, (recordStep deps ⟨.ended (.ok (.needApproval pending)), thread, owed, held⟩
      (.approve tools run)).1.phase ≠ .ended (.ok (.needApproval other)) := by
  obtain ⟨hrecords, hphase⟩ := resumeApproved_records deps pending tools run owed
  refine ⟨?_, hphase⟩
  rw [← modifyLast_eq_set_iff (hs.2 pending rfl) (approvedOutcome deps pending tools run), ← hrecords]
  exact attributed_noted hs.1 _ _ _ _

/-- A step keeps every call with its own outcome exactly if its outcomes are those of the call
recorded last. -/
theorem recordStep_spec {s : Recording} (hs : s.Sound) (op : ChatOp) :
    ((recordStep deps s op).1.Attributed ↔ OwnCallLast deps s op) ∧
      (OwnCallLast deps s op → (recordStep deps s op).1.Sound) := by
  obtain ⟨phase, thread, owed, held⟩ := s
  have hidle (result : Except String AgenticLoopResult)
      (hsame : recordStep deps ⟨.ended result, thread, owed, held⟩ op =
        (⟨.ended result, thread, owed, held⟩, []))
      (hsound : Recording.Sound ⟨.ended result, thread, owed, held⟩)
      (hmet : OwnCallLast deps ⟨.ended result, thread, owed, held⟩ op) :
      ((recordStep deps ⟨.ended result, thread, owed, held⟩ op).1.Attributed ↔
          OwnCallLast deps ⟨.ended result, thread, owed, held⟩ op) ∧
        (OwnCallLast deps ⟨.ended result, thread, owed, held⟩ op →
          (recordStep deps ⟨.ended result, thread, owed, held⟩ op).1.Sound) := by
    rw [hsame]
    exact ⟨iff_of_true hsound.1 hmet, fun _ => hsound⟩
  cases phase with
  | running st =>
    cases op with
    | iterate turn w =>
      obtain ⟨hiff, hopen⟩ := recordStep_iterate deps st thread owed held hs.1 turn w
      exact ⟨hiff, fun hmet => ⟨hiff.mpr hmet, hopen⟩⟩
    | approve tools run => exact ⟨iff_of_true hs.1 trivial, fun _ => hs⟩
  | ended result =>
    cases result with
    | error e => cases op <;> exact hidle _ rfl hs trivial
    | ok ending =>
      cases ending with
      | response text => cases op <;> exact hidle _ rfl hs trivial
      | needApproval pending =>
        cases op with
        | iterate turn w => exact hidle _ rfl hs trivial
        | approve tools run =>
          obtain ⟨hiff, hphase⟩ := recordStep_approve deps pending thread owed held hs tools run
          exact ⟨hiff, fun hmet =>
            ⟨hiff.mpr hmet, fun other hother => absurd hother (hphase other)⟩⟩

end Steps

theorem start_sound (t : Thread) (userInput : String) : (Recording.start t userInput).Sound := by
  refine ⟨?_, fun pending h => by cases h⟩
  unfold Recording.Attributed Recording.start Thread.startTurn Thread.lastTurn
  rw [List.getLast?_concat]
  rfl

/-- Every recorded call shows its own outcome after each step of a turn, exactly if in every answer
only the last call is executed and every approved call was recorded last. -/
theorem tool_results_attributed_iff (deps : Deps) (t : Thread) (userInput : String)
    (ops : List ChatOp) :
    (∀ v ∈ Lib.visited (recordStep deps) (.start t userInput) ops,
      (recordStep deps v.1 v.2).1.Attributed) ↔
    ∀ v ∈ Lib.visited (recordStep deps) (.start t userInput) ops, OwnCallLast deps v.1 v.2 :=
  Lib.visited_iff (start_sound t userInput)
    (fun _ op hs hmet => (recordStep_spec deps hs op).2 hmet)
    (fun _ op hs => (recordStep_spec deps hs op).1) ops

section Misplaced

private def recordDeps : Deps where
  serde := ⟨fun _ => "null", fun _ => "null", fun _ => none⟩
  cleanResponse text := text
  validator := .new
  wrapToolOutput _ output := output

private def openTools : ToolRegistry :=
  ⟨[⟨"echo", "Echo a message", .object [], false, fun _ => false, "60s"⟩,
    ⟨"fetch", "Fetch a page", .object [], false, fun _ => false, "60s"⟩], by decide⟩

private def pairAnswer : IterationWorld :=
  ⟨false, none, openTools, "",
    ⟨.error "", .ok ⟨none, [⟨"call_1", "fetch", .object []⟩, ⟨"call_2", "echo", .object []⟩]⟩⟩,
    fun i => ⟨openTools, [], ∅, .ofNat 9, if i = 0 then .failed "no route" else .completed .null⟩⟩

/-- A fetch that fails and an echo that answers: both outcomes stand on the echo. -/
theorem outcomes_misplaced :
    let s := (Lib.run (recordStep recordDeps) (.start (.withId (.ofNat 1) (.ofNat 2)) "go")
      [.iterate ⟨"user", .ofNat 1, []⟩ pairAnswer]).1
    s.thread.lastTurn.map (·.toolCalls) =
        some [⟨"fetch", .object [], none, none⟩,
          ⟨"echo", .object [], some (.string "null"),
            some "Tool error: Tool fetch execution failed: no route"⟩] ∧
      ¬ s.Attributed := by
  decide +kernel

end Misplaced

end Gyre.Agent
