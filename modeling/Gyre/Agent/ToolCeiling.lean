/- digest: What an installed skill's tool ceiling keeps from being executed, and what it does not. -/

import Mathlib.Data.Fintype.EquivFin
import Gyre.Agent.Dispatcher
import Gyre.Lib.Runs

/-!
The ceiling filters the tool definitions that are offered; the executor looks names up in the whole
registry. So an iteration stays below the ceiling for every answer of the model only when nothing is
offered at all or nothing else can be executed. More skills never let more be executed.
-/

set_option autoImplicit false
set_option relaxedAutoImplicit false

namespace Gyre.Agent

open Gyre.Llm Gyre.Tools Gyre.Skills Gyre.Lib

/-- The tools that were executed, in order. -/
@[grind =] def executedNames (events : List LoopEvent) : List String :=
  events.filterMap fun
    | .executed toolName _ => some toolName
    | _ => none

/-- A call of a tool that the registry, the approval check, the hooks and the validation let
through. -/
def CanExecute (deps : Deps) (userId : String) (w : CallWorld) (toolName : String) (args : Json) :
    Prop :=
  ∃ tool outcome, w.tools.get toolName = some tool ∧ awaitsUser w ⟨"", toolName, args⟩ = none ∧
    Hooks.run deps.serde w.hooks (.toolCall toolName args userId "chat") = .ok outcome ∧
    ValidParams deps (hookedParameters deps.serde args outcome)

/-- No read-only tool is registered, so that nothing is offered, or nothing but read-only tools can
be executed. -/
def UnderCeiling (deps : Deps) (userId : String) (w : IterationWorld) : Prop :=
  (∀ tool ∈ w.tools.tools, tool.name ∉ readOnlyTools) ∨
    ∀ i toolName args, CanExecute deps userId (w.calls i) toolName args → toolName ∈ readOnlyTools

def IterationWorld.answered (w : IterationWorld) (answer : LlmAnswer) : IterationWorld :=
  { w with answer := answer }

/-- Whatever the model answers, an iteration executes read-only tools only. -/
def ExecutesReadOnly (deps : Deps) (turn : ChatTurn) (st : LoopState) (w : IterationWorld) : Prop :=
  ∀ answer, ∀ toolName ∈ executedNames (chatIteration deps turn st (w.answered answer)).2,
    toolName ∈ readOnlyTools

/-- The tools that some answers of the model get executed in a turn. -/
def ExecutableInTurn (deps : Deps) (turn : ChatTurn) (phase : LoopPhase)
    (worlds : List IterationWorld) : Set String :=
  {toolName | ∃ answered,
    List.Forall₂ (fun w w' => ∃ answer, w' = IterationWorld.answered w answer) worlds answered ∧
      toolName ∈ executedNames (run (loopStep deps turn) phase answered).2}

@[simp] private theorem executedNames_append (a b : List LoopEvent) :
    executedNames (a ++ b) = executedNames a ++ executedNames b :=
  List.filterMap_append

private theorem executedNames_recorded (calls : List ToolCall) :
    executedNames (calls.map fun tc => .callRecorded tc.name tc.arguments) = [] := by
  simp [executedNames]

section Calls

variable (deps : Deps) (userId : String)

/-- A call does not look at the context. -/
private theorem chatToolCall_of_not_held {w : CallWorld} {tc : ToolCall}
    (h : awaitsUser w tc = none) (context context' : List ChatMessage) :
    chatToolCall deps userId w context tc = chatToolCall deps userId w context' tc := by
  simp [chatToolCall, h]

/-- A call executes its own tool, if any. -/
private theorem executedNames_chatToolCall (w : CallWorld) (context : List ChatMessage)
    (tc : ToolCall) :
    executedNames (chatToolCall deps userId w context tc).2 = [] ∨
      (CanExecute deps userId w tc.name tc.arguments ∧
        executedNames (chatToolCall deps userId w context tc).2 = [tc.name]) := by
  obtain ⟨hnothing, -⟩ | ⟨tool, outcome, htool, hawait, hhook, hvalid, hevents⟩ :=
    chatToolCall_cases deps userId w context tc
  · refine Or.inl (List.filterMap_eq_nil_iff.mpr ?_)
    intro e he
    cases e with
    | executed toolName params => exact absurd he (hnothing toolName params)
    | _ => rfl
  · exact Or.inr ⟨⟨tool, outcome, htool, hawait, hhook, hvalid⟩, by simp [hevents, executedNames]⟩

/-- What can be executed is executed. -/
private theorem executes_of_canExecute {w : CallWorld} {toolName : String} {args : Json}
    (h : CanExecute deps userId w toolName args) (context : List ChatMessage) (id : String) :
    executedNames (chatToolCall deps userId w context ⟨id, toolName, args⟩).2 = [toolName] := by
  obtain ⟨tool, outcome, htool, hawait, hhook, hvalid⟩ := h
  obtain ⟨-, hstop⟩ | ⟨_, _, _, _, _, _, hevents⟩ :=
    chatToolCall_cases deps userId w context ⟨id, toolName, args⟩
  · exact absurd hvalid (hstop tool outcome htool hawait hhook)
  · simp [hevents, executedNames]

/-- Ends that lead to the same control flow. -/
@[grind =] private def BatchEnd.Alike : BatchEnd → BatchEnd → Prop
  | .answered _, .answered _ => True
  | .held _, .held _ => True
  | .askedForToken _ _, .askedForToken _ _ => True
  | _, _ => False

/-- The calls of an answer do the same in every context. -/
private theorem runToolCalls_alike (worlds : Nat → CallWorld) (calls : List ToolCall) :
    ∀ (i : Nat) (context context' : List ChatMessage),
      (runToolCalls deps userId worlds i context calls).2 =
          (runToolCalls deps userId worlds i context' calls).2 ∧
        (runToolCalls deps userId worlds i context calls).1.Alike
          (runToolCalls deps userId worlds i context' calls).1 := by
  induction calls with
  | nil => exact fun _ _ _ => ⟨rfl, trivial⟩
  | cons tc rest ih =>
    intro i context context'
    cases hawait : awaitsUser (worlds i) tc with
    | some tool => simp [runToolCalls, chatToolCall, hawait, BatchEnd.Alike]
    | none =>
      simp only [runToolCalls]
      rw [chatToolCall_of_not_held deps userId hawait context context']
      generalize chatToolCall deps userId (worlds i) context' tc = outcome
      obtain ⟨call, events⟩ := outcome
      cases call with
      | held pending => exact ⟨rfl, trivial⟩
      | blocked content =>
        obtain ⟨hevents, halike⟩ := ih (i + 1) (context ++ [.toolResult tc.id tc.name content])
          (context' ++ [.toolResult tc.id tc.name content])
        exact ⟨by simp [hevents], halike⟩
      | ran result =>
        dsimp only
        split
        · exact ⟨rfl, trivial⟩
        · obtain ⟨hevents, halike⟩ := ih (i + 1)
            (context ++ [.toolResult tc.id tc.name
              (toolResultContent deps tc.name (printedOutcome result))])
            (context' ++ [.toolResult tc.id tc.name
              (toolResultContent deps tc.name (printedOutcome result))])
          exact ⟨by simp [hevents], halike⟩

/-- Every tool that the calls of an answer execute can be executed. -/
private theorem canExecute_of_runToolCalls (worlds : Nat → CallWorld) {toolName : String}
    (calls : List ToolCall) :
    ∀ (i : Nat) (context : List ChatMessage),
      toolName ∈ executedNames (runToolCalls deps userId worlds i context calls).2 →
        ∃ j args, CanExecute deps userId (worlds j) toolName args := by
  induction calls with
  | nil => exact fun _ _ h => nomatch h
  | cons tc rest ih =>
    intro i context h
    have hcall := executedNames_chatToolCall deps userId (worlds i) context tc
    have hown : toolName ∈ executedNames (chatToolCall deps userId (worlds i) context tc).2 →
        ∃ j args, CanExecute deps userId (worlds j) toolName args := by
      intro hmem
      rcases hcall with hnone | ⟨hcan, hone⟩
      · simp [hnone] at hmem
      · rw [hone, List.mem_singleton] at hmem
        exact ⟨i, tc.arguments, hmem ▸ hcan⟩
    simp only [runToolCalls] at h
    generalize chatToolCall deps userId (worlds i) context tc = outcome at h hown
    obtain ⟨call, events⟩ := outcome
    cases call with
    | held pending => exact hown h
    | blocked content =>
      rw [executedNames_append, List.mem_append] at h
      exact h.elim hown (ih _ _)
    | ran result =>
      dsimp only at h
      split at h
      · simp [executedNames] at h
        exact hown (by simpa [executedNames] using h)
      · simp only [executedNames_append, List.mem_append] at h
        rcases h with (h | h) | h
        · exact hown h
        · cases h
        · exact ih _ _ h

/-- A call of a tool that is not registered executes nothing, and the next call is looked at. -/
private theorem runToolCalls_unregistered (worlds : Nat → CallWorld) (i : Nat)
    (context : List ChatMessage) {tc : ToolCall} (h : (worlds i).tools.get tc.name = none)
    (rest : List ToolCall) :
    executedNames (runToolCalls deps userId worlds i context (tc :: rest)).2 =
      executedNames (runToolCalls deps userId worlds (i + 1) context rest).2 := by
  have hawait : awaitsUser (worlds i) tc = none := by simp [awaitsUser, h]
  have hcontext (context' : List ChatMessage) :=
    (runToolCalls_alike deps userId worlds rest (i + 1) context' context).1
  cases hhook : Hooks.run deps.serde (worlds i).hooks
      (.toolCall tc.name tc.arguments userId "chat") with
  | error err =>
    cases err <;> simp [runToolCalls, chatToolCall, hawait, hhook, hcontext, executedNames]
  | ok outcome =>
    have hauth : detectAuthAwaiting deps.serde tc.name
        (printedOutcome (.error (.notFound tc.name))) = none := by
      simp [detectAuthAwaiting, printedOutcome]
    simp [runToolCalls, chatToolCall, hawait, hhook, executeChatTool, h, hauth, hcontext,
      executedNames]

/-- No registry knows every name. -/
private theorem exists_unregistered (tools : ToolRegistry) :
    ∃ toolName, tools.get toolName = none := by
  obtain ⟨toolName, hfresh⟩ := Infinite.exists_notMem_finset (tools.tools.map (·.name)).toFinset
  refine ⟨toolName, List.find?_eq_none.mpr ?_⟩
  intro tool htool hname
  refine hfresh (List.mem_toFinset.mpr (List.mem_map.mpr ⟨tool, htool, ?_⟩))
  simpa using hname

/-- What the first call executes is among what the answer executes. -/
private theorem executedNames_first (worlds : Nat → CallWorld) (i : Nat)
    (context : List ChatMessage) (tc : ToolCall) (rest : List ToolCall) :
    ∀ toolName ∈ executedNames (chatToolCall deps userId (worlds i) context tc).2,
      toolName ∈ executedNames (runToolCalls deps userId worlds i context (tc :: rest)).2 := by
  intro toolName hmem
  simp only [runToolCalls]
  generalize chatToolCall deps userId (worlds i) context tc = outcome at hmem
  obtain ⟨call, events⟩ := outcome
  cases call with
  | held pending => exact hmem
  | blocked content => simp [hmem]
  | ran result =>
    dsimp only
    split <;> simp [hmem]

/-- Whatever can be executed in the world of some call, an answer gets executed. -/
private theorem exists_calls_of_canExecute (worlds : Nat → CallWorld) {toolName : String}
    {args : Json} (k : Nat) :
    ∀ (i : Nat) (context : List ChatMessage),
      CanExecute deps userId (worlds (i + k)) toolName args →
        ∃ calls, calls ≠ [] ∧
          toolName ∈ executedNames (runToolCalls deps userId worlds i context calls).2 := by
  induction k with
  | zero =>
    intro i context h
    refine ⟨[⟨"", toolName, args⟩], by simp, ?_⟩
    have hcan : CanExecute deps userId (worlds i) toolName args := h
    apply executedNames_first
    rw [executes_of_canExecute deps userId hcan context ""]
    exact List.mem_singleton_self _
  | succ k ih =>
    intro i context h
    -- calls of unregistered names lead past the worlds before
    obtain ⟨fresh, hfresh⟩ := exists_unregistered (worlds i).tools
    have hshift : i + (k + 1) = i + 1 + k := by omega
    obtain ⟨calls, -, hmem⟩ := ih (i + 1) context (hshift ▸ h)
    refine ⟨⟨"", fresh, .null⟩ :: calls, by simp, ?_⟩
    rw [runToolCalls_unregistered deps userId worlds i context hfresh calls]
    exact hmem

end Calls

section Iterations

variable (deps : Deps) (turn : ChatTurn)

/-- The tools an iteration executes are those of the calls it is answered with. -/
private theorem mem_executedNames_chatIteration {st : LoopState} {w : IterationWorld}
    {toolName : String} :
    toolName ∈ executedNames (chatIteration deps turn st w).2 ↔
      ¬ Halts st w ∧ ∃ calls content,
        respondWithTools deps (offeredTools turn w) w.answer = .ok (.toolCalls calls content) ∧
        toolName ∈ executedNames (runToolCalls deps turn.userId w.calls 0 [] calls).2 := by
  by_cases hhalts : Halts st w
  · obtain ⟨result, hended⟩ := chatIteration_of_halts deps turn hhalts
    simp [hended, hhalts, executedNames]
  · rw [chatIteration_of_asks deps turn hhalts]
    cases hanswer : respondWithTools deps (offeredTools turn w) w.answer with
    | error e => simp [executedNames]
    | ok result =>
      cases result with
      | text text =>
        simp only [handleAnswer]
        split <;> simp [executedNames]
      | toolCalls calls content =>
        have hcontext := (runToolCalls_alike deps turn.userId w.calls calls 0
          (st.context ++ [.assistantWithToolCalls content calls]) []).1
        have hrecorded := executedNames_recorded calls
        simp only [handleAnswer, hcontext]
        constructor
        · intro h
          refine ⟨hhalts, calls, content, rfl, ?_⟩
          have hcons : toolName ∈ executedNames
              ((calls.map fun tc => LoopEvent.callRecorded tc.name tc.arguments) ++
                (runToolCalls deps turn.userId w.calls 0 [] calls).2) := h
          rwa [executedNames_append, hrecorded, List.nil_append] at hcons
        · rintro ⟨-, calls', content', hsame, hmem⟩
          cases hsame
          change toolName ∈ executedNames
            ((calls.map fun tc => LoopEvent.callRecorded tc.name tc.arguments) ++ _)
          rwa [executedNames_append, hrecorded, List.nil_append]

/-- What an installed skill leaves on offer. -/
private theorem offeredTools_eq_nil_iff (hinstalled : ∃ s ∈ turn.activeSkills, s.trust = .installed)
    (w : IterationWorld) :
    offeredTools turn w = [] ↔ ∀ tool ∈ w.tools.tools, tool.name ∉ readOnlyTools := by
  have hactive : turn.activeSkills.isEmpty = false := by
    obtain ⟨s, hs, -⟩ := hinstalled
    exact List.isEmpty_eq_false_iff.mpr (List.ne_nil_of_mem hs)
  simp [offeredTools, hactive, attenuateTools_of_installed hinstalled,
    ToolRegistry.toolDefinitions, List.filter_eq_nil_iff]

/-- For every answer, an iteration stays below the ceiling exactly when it does not get to ask the
model or its world is under the ceiling. -/
private theorem executesReadOnly_iff (hinstalled : ∃ s ∈ turn.activeSkills, s.trust = .installed)
    (st : LoopState) (w : IterationWorld) :
    ExecutesReadOnly deps turn st w ↔ Halts st w ∨ UnderCeiling deps turn.userId w := by
  constructor
  · intro h
    by_contra hnot
    obtain ⟨hasks, hceiling⟩ := not_or.mp hnot
    obtain ⟨hregistered, hexecutable⟩ := not_or.mp hceiling
    have hoffered := mt (offeredTools_eq_nil_iff turn hinstalled w).mp hregistered
    simp only [not_forall, exists_prop] at hexecutable
    obtain ⟨i, toolName, args, hcan, hwrites⟩ := hexecutable
    obtain ⟨calls, hcalls, hmem⟩ := exists_calls_of_canExecute deps turn.userId w.calls i 0 []
      (by rwa [Nat.zero_add])
    refine hwrites (h ⟨.ok "", .ok ⟨none, calls⟩⟩ toolName ?_)
    rw [mem_executedNames_chatIteration]
    exact ⟨hasks, calls, none, respondWithTools_calls deps hoffered hcalls none _, hmem⟩
  · rintro h answer toolName hmem
    obtain ⟨hasks, calls, content, hanswer, hcalled⟩ :=
      (mem_executedNames_chatIteration deps turn).mp hmem
    rcases h.resolve_left hasks with hunregistered | hreadOnly
    · have hnothing := (offeredTools_eq_nil_iff turn hinstalled w).mpr hunregistered
      exact absurd hnothing (offered_of_toolCalls hanswer).1
    · obtain ⟨j, args, hcan⟩ := canExecute_of_runToolCalls deps turn.userId w.calls calls 0 []
        hcalled
      exact hreadOnly j toolName args hcan

/-- A turn whose iterations are all under the ceiling. -/
private theorem executableInTurn_readOnly
    (hinstalled : ∃ s ∈ turn.activeSkills, s.trust = .installed) {worlds : List IterationWorld}
    (h : ∀ w ∈ worlds, UnderCeiling deps turn.userId w) (phase : LoopPhase) :
    ∀ toolName ∈ ExecutableInTurn deps turn phase worlds, toolName ∈ readOnlyTools := by
  rintro toolName ⟨answered, hanswered, hmem⟩
  induction hanswered generalizing phase with
  | nil => cases hmem
  | @cons w w' worlds answered hanswer _ ih =>
    obtain ⟨answer, rfl⟩ := hanswer
    simp only [run, executedNames_append, List.mem_append] at hmem
    rcases hmem with hmem | hmem
    · cases phase with
      | ended result => cases hmem
      | running st =>
        have hceiling := h w List.mem_cons_self
        exact (executesReadOnly_iff deps turn hinstalled st w).mpr (Or.inr hceiling) answer
          toolName hmem
    · exact ih (fun w hw => h w (List.mem_cons_of_mem _ hw)) _ hmem

end Iterations

section Antitone

variable (deps : Deps) (turn : ChatTurn) {more : List LoadedSkill}

/-- Phases that only differ in what the model has been told. -/
private def LoopPhase.Alike : LoopPhase → LoopPhase → Prop
  | .running st, .running st' =>
    st.iteration = st'.iteration ∧ st.toolsExecuted = st'.toolsExecuted
  | .ended _, .ended _ => True
  | _, _ => False

private theorem afterBatch_alike {batch batch' : BatchEnd} (h : batch.Alike batch')
    (iteration : Nat) :
    LoopPhase.Alike (afterBatch iteration batch) (afterBatch iteration batch') := by
  cases batch <;> cases batch' <;> first | exact h.elim | trivial

/-- More skills leave something on offer only where fewer do. -/
private theorem offeredTools_ne_nil_of_more (hmore : turn.activeSkills ⊆ more)
    {w : IterationWorld} (h : offeredTools { turn with activeSkills := more } w ≠ []) :
    offeredTools turn w ≠ [] := by
  by_cases hinstalled : ∃ s ∈ turn.activeSkills, s.trust = .installed
  · obtain ⟨s, hs, htrust⟩ := hinstalled
    rw [Ne, offeredTools_eq_nil_iff turn ⟨s, hs, htrust⟩]
    rwa [Ne, offeredTools_eq_nil_iff { turn with activeSkills := more } ⟨s, hmore hs, htrust⟩] at h
  · have hall : offeredTools turn w = w.tools.toolDefinitions := by
      simp [offeredTools, attenuateTools_of_not_installed hinstalled]
    intro hnone
    have hempty : w.tools.toolDefinitions = [] := hall.symm.trans hnone
    refine h ?_
    simp only [offeredTools, hempty]
    split
    · rfl
    · by_cases hmoreInstalled : ∃ s ∈ more, s.trust = .installed
      · simp [attenuateTools_of_installed hmoreInstalled]
      · simp [attenuateTools_of_not_installed hmoreInstalled]

private theorem recovered_nil (tools : List ToolDefinition) :
    recoverToolCallsFromContent deps.serde "" tools = [] := by
  rfl

/-- The model can always answer with text. -/
private theorem exists_text_answer (tools : List ToolDefinition) :
    ∃ answer text, respondWithTools deps tools answer = .ok (.text text) := by
  refine ⟨⟨.ok "", .ok ⟨some "", []⟩⟩, deps.cleanResponse "", ?_⟩
  cases tools with
  | nil => rfl
  | cons tool rest => simp [respondWithTools, recovered_nil]

/-- With fewer skills, some answer leads to the same executions and the same control flow. -/
private theorem chatIteration_simulates (hmore : turn.activeSkills ⊆ more) {st st' : LoopState}
    (hiteration : st.iteration = st'.iteration) (htools : st.toolsExecuted = st'.toolsExecuted)
    (w : IterationWorld) (answer' : LlmAnswer) :
    ∃ answer,
      LoopPhase.Alike (chatIteration deps turn st (w.answered answer)).1
          (chatIteration deps { turn with activeSkills := more } st' (w.answered answer')).1 ∧
        executedNames (chatIteration deps turn st (w.answered answer)).2 =
          executedNames
            (chatIteration deps { turn with activeSkills := more } st' (w.answered answer')).2 := by
  by_cases hhalts : Halts st w
  · have hhalts' : Halts st' (w.answered answer') := by rwa [Halts, ← hiteration]
    obtain ⟨result, hended⟩ := chatIteration_of_halts deps turn
      (show Halts st (w.answered answer') from hhalts)
    obtain ⟨result', hended'⟩ := chatIteration_of_halts deps
      { turn with activeSkills := more } hhalts'
    refine ⟨answer', ?_⟩
    rw [hended, hended']
    exact ⟨trivial, rfl⟩
  · have hasks (answer : LlmAnswer) : ¬ Halts st (w.answered answer) := hhalts
    have hasks' : ¬ Halts st' (w.answered answer') := by rwa [Halts, ← hiteration]
    cases hanswer : respondWithTools deps (offeredTools { turn with activeSkills := more } w)
        answer' with
    | error e =>
      have hfailed : respondWithTools deps (offeredTools turn w) ⟨.error "", .error ""⟩ =
          .error "" := by
        unfold respondWithTools
        split <;> rfl
      refine ⟨⟨.error "", .error ""⟩, ?_⟩
      rw [chatIteration_failed deps _ hasks' hanswer,
        chatIteration_failed deps turn (hasks ⟨.error "", .error ""⟩) hfailed]
      exact ⟨trivial, rfl⟩
    | ok result' =>
      cases result' with
      | text text' =>
        obtain ⟨answer, text, htext⟩ := exists_text_answer deps (offeredTools turn w)
        refine ⟨answer, ?_⟩
        rw [chatIteration_answered deps _ hasks' hanswer,
          chatIteration_answered deps turn (hasks answer) htext]
        simp only [handleAnswer, hiteration, htools]
        split
        · exact ⟨⟨rfl, rfl⟩, rfl⟩
        · exact ⟨trivial, rfl⟩
      | toolCalls calls content =>
        obtain ⟨hoffered', hcalls⟩ := offered_of_toolCalls hanswer
        have hoffered := offeredTools_ne_nil_of_more turn hmore hoffered'
        refine ⟨⟨.ok "", .ok ⟨none, calls⟩⟩, ?_⟩
        rw [chatIteration_answered deps _ hasks' hanswer,
          chatIteration_answered deps turn (hasks ⟨.ok "", .ok ⟨none, calls⟩⟩)
            (respondWithTools_calls deps hoffered hcalls none _)]
        obtain ⟨hevents, halike⟩ := runToolCalls_alike deps turn.userId w.calls calls 0
          (st.context ++ [.assistantWithToolCalls none calls])
          (st'.context ++ [.assistantWithToolCalls content calls])
        refine ⟨?_, ?_⟩
        · simp only [handleAnswer, hiteration]
          exact afterBatch_alike halike _
        · simp only [handleAnswer]
          change executedNames (_ ++ (runToolCalls deps turn.userId w.calls 0 _ calls).2) =
            executedNames (_ ++ (runToolCalls deps turn.userId w.calls 0 _ calls).2)
          rw [hevents]

private theorem loopStep_simulates (hmore : turn.activeSkills ⊆ more) {phase phase' : LoopPhase}
    (halike : phase.Alike phase') (w : IterationWorld) (answer' : LlmAnswer) :
    ∃ answer,
      LoopPhase.Alike (loopStep deps turn phase (w.answered answer)).1
          (loopStep deps { turn with activeSkills := more } phase' (w.answered answer')).1 ∧
        executedNames (loopStep deps turn phase (w.answered answer)).2 =
          executedNames
            (loopStep deps { turn with activeSkills := more } phase' (w.answered answer')).2 := by
  cases phase <;> cases phase'
  case running.running st st' =>
    exact chatIteration_simulates deps turn hmore halike.1 halike.2 w answer'
  case running.ended => exact halike.elim
  case ended.running => exact halike.elim
  case ended.ended => exact ⟨answer', trivial, rfl⟩

/-- More skills never let more tools be executed. -/
private theorem executableInTurn_antitone (hmore : turn.activeSkills ⊆ more) (phase : LoopPhase)
    (worlds : List IterationWorld) :
    ExecutableInTurn deps { turn with activeSkills := more } phase worlds ⊆
      ExecutableInTurn deps turn phase worlds := by
  have hrun (worlds answered' : List IterationWorld)
      (h : List.Forall₂ (fun w w' => ∃ answer, w' = IterationWorld.answered w answer) worlds
        answered') (phase phase' : LoopPhase) (halike : phase.Alike phase') :
      ∃ answered, List.Forall₂ (fun w w' => ∃ answer, w' = IterationWorld.answered w answer) worlds
          answered ∧
        executedNames (run (loopStep deps turn) phase answered).2 =
          executedNames
            (run (loopStep deps { turn with activeSkills := more }) phase' answered').2 := by
    induction h generalizing phase phase' with
    | nil => exact ⟨[], .nil, rfl⟩
    | @cons w w' worlds answered' hanswer _ ih =>
      obtain ⟨answer', rfl⟩ := hanswer
      obtain ⟨answer, hnext, hexecuted⟩ := loopStep_simulates deps turn hmore halike w answer'
      obtain ⟨answered, hanswered, hrest⟩ := ih _ _ hnext
      refine ⟨w.answered answer :: answered, .cons ⟨answer, rfl⟩ hanswered, ?_⟩
      simp only [run, executedNames_append, hexecuted, hrest]
  have hrefl : phase.Alike phase := by
    cases phase <;> trivial
  rintro toolName ⟨answered', hanswered', hmem⟩
  obtain ⟨answered, hanswered, hsame⟩ := hrun worlds answered' hanswered' phase phase hrefl
  exact ⟨answered, hanswered, hsame ▸ hmem⟩

end Antitone

/-- With an installed skill active, an iteration executes read-only tools only, whatever the model
answers, exactly when it does not ask the model or its world is under the ceiling, and so does a turn
of such iterations. More active skills never let more tools be executed in a turn. -/
theorem skill_ceiling_on_execution (deps : Deps) (turn : ChatTurn) :
    ((∃ s ∈ turn.activeSkills, s.trust = .installed) →
      (∀ st w, ExecutesReadOnly deps turn st w ↔ Halts st w ∨ UnderCeiling deps turn.userId w) ∧
      ∀ worlds, (∀ w ∈ worlds, UnderCeiling deps turn.userId w) →
        ∀ phase, ∀ toolName ∈ ExecutableInTurn deps turn phase worlds,
          toolName ∈ readOnlyTools) ∧
    ∀ more, turn.activeSkills ⊆ more → ∀ phase worlds,
      ExecutableInTurn deps { turn with activeSkills := more } phase worlds ⊆
        ExecutableInTurn deps turn phase worlds := by
  refine ⟨?_, ?_⟩
  · intro hinstalled
    refine ⟨executesReadOnly_iff deps turn hinstalled, ?_⟩
    intro worlds h phase
    exact executableInTurn_readOnly deps turn hinstalled h phase
  · intro more hmore phase worlds
    exact executableInTurn_antitone deps turn hmore phase worlds

section Escape

private def ceilingDeps : Deps where
  serde := ⟨fun _ => "null", fun _ => "null", fun _ => none⟩
  cleanResponse text := text
  validator := .new
  wrapToolOutput tool output :=
    s!"<tool_output name=\"{tool}\" sanitized=\"false\">\n{output}\n</tool_output>"

private def echoAndWrite : ToolRegistry :=
  ⟨[⟨"echo", "Echo a message", .object [], false, fun _ => false, "60s"⟩,
    ⟨"memory_write", "Write to memory", .object [], false, fun _ => false, "60s"⟩], by decide⟩

private def installedSkill : LoadedSkill :=
  ⟨⟨"notes", "1.0.0", "", ⟨["note"], [], [], 2000⟩, none⟩, "Take notes.", .installed,
    .user "/home/user/.gyre/skills/notes"⟩

private def skilledTurn : ChatTurn := ⟨"user", .ofNat 1, [installedSkill]⟩

private def writeAnswer : LlmAnswer :=
  ⟨.error "", .ok ⟨none, [⟨"call_1", "memory_write", .object [("content", .string "hi")]⟩]⟩⟩

private def writingWorld : IterationWorld :=
  ⟨false, none, echoAndWrite, "", writeAnswer,
    fun _ => ⟨echoAndWrite, [], ∅, .ofNat 9, .completed .null⟩⟩

/-- With an installed skill active, the model names a tool it was not offered and gets it
executed. -/
theorem unoffered_tool_executed :
    (offeredTools skilledTurn writingWorld).map (·.name) = ["echo"] ∧
      ¬ ExecutesReadOnly ceilingDeps skilledTurn ⟨[.user "note this"], 0, false⟩ writingWorld := by
  refine ⟨by decide, ?_⟩
  intro h
  have hexecuted : executedNames (chatIteration ceilingDeps skilledTurn
      ⟨[.user "note this"], 0, false⟩ (writingWorld.answered writeAnswer)).2 =
        ["memory_write"] := by rfl
  have hread := h writeAnswer "memory_write" (by simp [hexecuted])
  revert hread
  decide

end Escape

end Gyre.Agent
