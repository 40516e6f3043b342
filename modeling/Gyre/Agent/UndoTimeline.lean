/- digest: Undo and redo of a thread move along one timeline of message lists. -/

import Gyre.Agent.ThreadOps
import Gyre.Lib.Runs
import Gyre.Lib.Timeline

/-!
The message lists of a thread form a timeline: what the checkpoints of its undo stack hold, what the
thread holds, and what its redo stack holds. A turn saves the message list it starts from. Bringing
a checkpoint back rebuilds turns from messages, which loses all but the messages.
-/

set_option autoImplicit false
set_option relaxedAutoImplicit false

namespace Gyre.Agent

open Gyre.Llm Gyre.Lib

section RoundTrip

/-- The messages of one turn. -/
@[grind =] private def turnMessages (turn : Turn) : List ChatMessage :=
  ChatMessage.user turn.userInput ::
    match turn.response with
    | some response => [ChatMessage.assistant response]
    | none => []

private theorem turns_of_answered (n : Nat) (input response : String) (rest : List ChatMessage) :
    turnsFromMessages n (.user input :: .assistant response :: rest) =
      (Turn.new n input).complete response :: turnsFromMessages (n + 1) rest := by
  rw [turnsFromMessages]
  simp [ChatMessage.user, ChatMessage.assistant]

private theorem turns_of_unanswered (n : Nat) (input : String) {rest : List ChatMessage}
    (h : ∀ next, rest.head? = some next → next.role ≠ .assistant) :
    turnsFromMessages n (.user input :: rest) =
      Turn.new n input :: turnsFromMessages (n + 1) rest := by
  cases rest with
  | nil => simp [turnsFromMessages, ChatMessage.user]
  | cons next rest =>
    rw [turnsFromMessages]
    simp [ChatMessage.user, h next rfl]

private theorem head_turnMessages {turns : List Turn} {next : ChatMessage}
    (h : (turns.flatMap turnMessages).head? = some next) : next.role ≠ .assistant := by
  cases turns with
  | nil => cases h
  | cons turn rest =>
    simp only [List.flatMap_cons, turnMessages, List.cons_append, List.head?_cons] at h
    rw [← Option.some.inj h]
    simp [ChatMessage.user]

/-- Turns rebuilt from the messages of turns have the same messages. -/
private theorem turnsFromMessages_messages (n : Nat) (turns : List Turn) :
    (turnsFromMessages n (turns.flatMap turnMessages)).flatMap turnMessages =
      turns.flatMap turnMessages := by
  induction turns generalizing n with
  | nil => rfl
  | cons turn rest ih =>
    cases hresponse : turn.response with
    | some response =>
      have hturn : turnMessages turn = [.user turn.userInput, .assistant response] := by
        simp [turnMessages, hresponse]
      rw [List.flatMap_cons, hturn, List.cons_append, List.cons_append, List.nil_append,
        turns_of_answered, List.flatMap_cons, ih]
      rfl
    | none =>
      have hturn : turnMessages turn = [.user turn.userInput] := by
        simp [turnMessages, hresponse]
      rw [List.flatMap_cons, hturn, List.cons_append, List.nil_append,
        turns_of_unanswered n turn.userInput fun _ => head_turnMessages, List.flatMap_cons, ih]
      rfl

/-- A message list that some thread has had. -/
def Replayable (messages : List ChatMessage) : Prop := ∃ t : Thread, messages = t.messages

theorem restoreFromMessages_messages {messages : List ChatMessage} (h : Replayable messages)
    (t : Thread) : (t.restoreFromMessages messages).messages = messages := by
  obtain ⟨u, rfl⟩ := h
  exact turnsFromMessages_messages 0 u.turns

end RoundTrip

/-- The messages of a thread; a thread that is not there has none. -/
@[grind =] def AgentState.messagesOf (s : AgentState) (thread : Uuid) : List ChatMessage :=
  ((s.thread? thread).map Thread.messages).getD []

/-- The timeline that a thread and its undo history stand for. -/
@[grind =] def AgentState.timeline (s : AgentState) (thread : Uuid) : Timeline (List ChatMessage) where
  past := (s.undo thread).undoStack.map (·.messages)
  present := s.messagesOf thread
  future := (s.undo thread).redoStack.map (·.messages)

/-- The thread as a message's turn starts on it, when the message is accepted. -/
def acceptedTurn (s : AgentState) (thread : Uuid) (checks : InputChecks) : Option Thread :=
  match s.thread? thread with
  | none => none
  | some t =>
    if (t.state = .idle ∨ t.state = .interrupted) ∧ checks.validationErrors = [] ∧
        checks.policyBlocks = false ∧ checks.command = none then some (autoCompact checks t)
    else none

section Handlers

variable {s r : AgentState} {thread target : Uuid} {t : Thread}

private theorem processUserInput_accepted {checks : InputChecks}
    (h : acceptedTurn s thread checks = some t) (message : IncomingMessage) (content : String) :
    processUserInput s message thread content checks =
      (((s.setUndo thread ((s.undo thread).checkpoint
          ⟨checks.checkpointId, t.turnNumber, t.messages, s!"Before turn {t.turnNumber}"⟩)).setThread
            thread (t.startTurn content)).start
          (.turn message thread content (t.startTurn content).messages),
        [.turnStarted thread content]) := by
  unfold acceptedTurn at h
  unfold processUserInput
  cases ht : s.thread? thread with
  | none => simp [ht] at h
  | some u =>
    simp only [ht, Option.ite_none_right_eq_some, Option.some.injEq] at h
    obtain ⟨⟨hstate, hvalid, hpolicy, hcommand⟩, rfl⟩ := h
    rcases hstate with hstate | hstate
    · simp [hstate, hvalid, hpolicy, hcommand]
    · simp [hstate, hvalid, hpolicy, hcommand]

private theorem processUserInput_refused {checks : InputChecks}
    (h : acceptedTurn s thread checks = none) (message : IncomingMessage) (content : String) :
    (processUserInput s message thread content checks).1 = s := by
  unfold acceptedTurn at h
  unfold processUserInput
  cases ht : s.thread? thread with
  | none => rfl
  | some u =>
    simp only [ht, ite_eq_right_iff, reduceCtorEq, imp_false] at h
    simp only []
    split
    next => rfl
    next => rfl
    next => rfl
    all_goals
      next hstate =>
        split
        · rfl
        · next hvalid =>
          split
          · rfl
          · next hpolicy =>
            split
            · rfl
            · next hcommand =>
              refine absurd ⟨?_, not_not.mp hvalid, Bool.eq_false_iff.mpr hpolicy, hcommand⟩ h
              simp [hstate]

/-- The move of a thread's timeline that an operation is. -/
@[grind =] def moveOf (deps : Deps) (s : AgentState) (thread : Uuid) (op : Op) :
    Timeline.Move (List ChatMessage) :=
  let after := (step deps s op).1.messagesOf thread
  match op with
  | .userInput _ target content checks =>
    if target = thread then
      match acceptedTurn s thread checks with
      | some t => .advance t.messages (t.startTurn content).messages
      | none => .write after
    else .write after
  | .undo target _ => if target = thread ∧ (s.thread? thread).isSome then .back else .write after
  | .redo target _ => if target = thread ∧ (s.thread? thread).isSome then .forward else .write after
  | .clear target => if target = thread ∧ (s.thread? thread).isSome then .forget after else .write after
  | .resume target checkpointId =>
    if target = thread then
      match (s.undo thread).undoStack.findIdx? (·.id == checkpointId) with
      | some pos => .cut pos after
      | none => .write after
    else .write after
  | _ => .write after

/-- An undo history with the limit of the handlers, of message lists that threads have had. -/
structure KeepsHistory (m : UndoManager) : Prop where
  limit : m.maxCheckpoints = UndoManager.defaultMaxCheckpoints
  undone : ∀ c ∈ m.undoStack, Replayable c.messages
  redone : ∀ c ∈ m.redoStack, Replayable c.messages

/-- What an operation does to a thread's timeline. -/
structure Moves (s r : AgentState) (thread : Uuid) (m : Timeline.Move (List ChatMessage)) : Prop where
  timeline : r.timeline thread = m.apply UndoManager.defaultMaxCheckpoints (s.timeline thread)
  history : KeepsHistory (r.undo thread)

/-- An operation that leaves the undo history of a thread alone. -/
private theorem moves_write (h : KeepsHistory (s.undo thread)) (hundo : r.undo thread = s.undo thread) :
    Moves s r thread (.write (r.messagesOf thread)) := by
  refine ⟨?_, hundo ▸ h⟩
  unfold AgentState.timeline
  rw [hundo]
  rfl

private theorem messagesOf_of_thread (h : s.thread? thread = some t) :
    s.messagesOf thread = t.messages := by
  rw [AgentState.messagesOf, h]
  rfl

private theorem messagesOf_put (h : r.thread? = (s.setThread thread t).thread?) :
    r.messagesOf thread = t.messages := by
  refine messagesOf_of_thread ?_
  rw [h]
  exact Session.thread?_setThread _ _ _

private theorem timeline_of {m : UndoManager} {messages : List ChatMessage}
    (hundo : r.undo thread = m) (hmessages : r.messagesOf thread = messages) :
    r.timeline thread = ⟨m.undoStack.map (·.messages), messages, m.redoStack.map (·.messages)⟩ := by
  rw [AgentState.timeline, hundo, hmessages]

/-- The undo history of a thread after it is put back. -/
private theorem undo_put (m : UndoManager) : ((s.setUndo thread m).setThread thread t).undo thread = m :=
  Function.update_self _ _ _

private theorem pushUndo_map (m : UndoManager) (c : Checkpoint) :
    (m.pushUndo c).undoStack.map (·.messages) =
      Timeline.keepLast m.maxCheckpoints (m.undoStack.map (·.messages) ++ [c.messages]) := by
  unfold UndoManager.pushUndo Timeline.keepLast
  rw [List.map_drop, List.map_append]
  simp

private theorem pushUndo_replayable {m : UndoManager} {c : Checkpoint}
    (h : ∀ d ∈ m.undoStack, Replayable d.messages) (hc : Replayable c.messages) :
    ∀ d ∈ (m.pushUndo c).undoStack, Replayable d.messages := by
  intro d hd
  rcases List.mem_append.mp (List.mem_of_mem_drop hd) with hd | hd
  · exact h d hd
  · rw [List.mem_singleton.mp hd]
    exact hc

private theorem moves_userInput (h : KeepsHistory (s.undo thread)) {checks : InputChecks}
    (haccepted : acceptedTurn s thread checks = some t) (message : IncomingMessage)
    (content : String) :
    Moves s (processUserInput s message thread content checks).1 thread
      (.advance t.messages (t.startTurn content).messages) := by
  rw [processUserInput_accepted haccepted]
  generalize hc : (⟨checks.checkpointId, t.turnNumber, t.messages,
    s!"Before turn {t.turnNumber}"⟩ : Checkpoint) = c
  have hmessages : c.messages = t.messages := by rw [← hc]
  have hundo : (((s.setUndo thread ((s.undo thread).checkpoint c)).setThread thread
      (t.startTurn content)).start (.turn message thread content
        (t.startTurn content).messages)).undo thread = (s.undo thread).checkpoint c :=
    Function.update_self _ _ _
  refine ⟨?_, ?_⟩
  · rw [timeline_of hundo (messagesOf_put rfl)]
    unfold UndoManager.checkpoint
    rw [pushUndo_map, hmessages]
    simp only [h.limit]
    rfl
  · rw [hundo]
    exact ⟨h.limit, pushUndo_replayable h.undone ⟨t, hmessages⟩, List.forall_mem_nil _⟩

private theorem moves_undo (h : KeepsHistory (s.undo thread)) (ht : s.thread? thread = some t)
    (freshId : Uuid) : Moves s (processUndo s thread freshId).1 thread .back := by
  rcases List.eq_nil_or_concat' (s.undo thread).undoStack with hnil | ⟨before, c, hstack⟩
  · rw [processUndo_of_empty hnil]
    refine ⟨?_, h⟩
    simp [Timeline.Move.apply, Timeline.back, AgentState.timeline, hnil]
  · rw [processUndo_of_checkpoint hstack ht]
    have hc : Replayable c.messages := h.undone c (by simp [hstack])
    have hpast : (s.timeline thread).past = before.map (·.messages) ++ [c.messages] := by
      simp [AgentState.timeline, hstack]
    refine ⟨?_, ⟨?_, ?_, ?_⟩⟩
    · rw [timeline_of (undo_put _) (messagesOf_put rfl), restoreFromMessages_messages hc,
        Timeline.Move.apply, Timeline.back_of_past hpast]
      simp [AgentState.timeline, messagesOf_of_thread ht, Thread.snapshot]
    · rw [undo_put]
      exact h.limit
    · rw [undo_put]
      intro d hd
      exact h.undone d (by simp [hstack, hd])
    · rw [undo_put]
      intro d hd
      rcases List.mem_append.mp hd with hd | hd
      · exact h.redone d hd
      · rw [List.mem_singleton.mp hd]
        exact ⟨t, rfl⟩

private theorem moves_redo (h : KeepsHistory (s.undo thread)) (ht : s.thread? thread = some t)
    (freshId : Uuid) : Moves s (processRedo s thread freshId).1 thread .forward := by
  rcases List.eq_nil_or_concat' (s.undo thread).redoStack with hnil | ⟨before, c, hstack⟩
  · rw [processRedo_of_empty hnil]
    refine ⟨?_, h⟩
    simp [Timeline.Move.apply, Timeline.forward, AgentState.timeline, hnil]
  · rw [processRedo_of_checkpoint hstack ht]
    have hc : Replayable c.messages := h.redone c (by simp [hstack])
    have hfuture : (s.timeline thread).future = before.map (·.messages) ++ [c.messages] := by
      simp [AgentState.timeline, hstack]
    refine ⟨?_, ⟨?_, ?_, ?_⟩⟩
    · rw [timeline_of (undo_put _) (messagesOf_put rfl), restoreFromMessages_messages hc,
        Timeline.Move.apply, Timeline.forward_of_future hfuture]
      simp only [pushUndo_map, h.limit]
      simp [AgentState.timeline, messagesOf_of_thread ht, Thread.snapshot]
    · rw [undo_put]
      exact h.limit
    · rw [undo_put]
      exact pushUndo_replayable h.undone ⟨t, rfl⟩
    · rw [undo_put]
      intro d hd
      exact h.redone d (by simp [hstack, hd])

private theorem moves_clear (h : KeepsHistory (s.undo thread)) (ht : s.thread? thread = some t) :
    Moves s (processClear s thread).1 thread
      (.forget ((processClear s thread).1.messagesOf thread)) := by
  have hundo : (processClear s thread).1.undo thread = (s.undo thread).clear := by
    unfold processClear
    rw [ht]
    exact Function.update_self _ _ _
  refine ⟨timeline_of hundo rfl, ?_⟩
  rw [hundo]
  exact ⟨h.limit, List.forall_mem_nil _, List.forall_mem_nil _⟩

private theorem resume_undo (s : AgentState) (thread checkpointId : Uuid) :
    (processResume s thread checkpointId).1.undo thread =
      ((s.undo thread).restore checkpointId).1 := by
  unfold processResume
  split
  next mgr checkpoint hrestore =>
    rw [hrestore]
    simp only []
    split <;> exact Function.update_self _ _ _
  next mgr hrestore =>
    rw [hrestore]
    exact Function.update_self _ _ _

private theorem moves_resume (h : KeepsHistory (s.undo thread)) (checkpointId : Uuid) :
    Moves s (processResume s thread checkpointId).1 thread
      (match (s.undo thread).undoStack.findIdx? (·.id == checkpointId) with
      | some pos => .cut pos ((processResume s thread checkpointId).1.messagesOf thread)
      | none => .write ((processResume s thread checkpointId).1.messagesOf thread)) := by
  have hundo := resume_undo s thread checkpointId
  unfold UndoManager.restore at hundo
  cases hpos : (s.undo thread).undoStack.findIdx? (·.id == checkpointId) with
  | none =>
    rw [hpos] at hundo
    exact moves_write h hundo
  | some pos =>
    rw [hpos] at hundo
    refine ⟨?_, ?_⟩
    · rw [timeline_of hundo rfl]
      simp only [List.map_take, List.map_nil]
      rfl
    · rw [hundo]
      exact ⟨h.limit, fun c hc => h.undone c (List.mem_of_mem_take hc), List.forall_mem_nil _⟩

/-- The operations that have to do with the undo history of a thread. -/
def touchesHistory : Op → Option Uuid
  | .userInput _ target _ _ | .undo target _ | .redo target _ | .clear target | .resume target _ =>
    some target
  | _ => none

private theorem loopDone_undo (deps : Deps) (message : IncomingMessage) (content : String)
    (result : Except String AgenticLoopResult) (hooks : Hooks.HookRegistry)
    (responseId : Option String) :
    (processUserInputLoopDone deps s message thread content result hooks responseId).1.undo =
      s.undo := by
  unfold processUserInputLoopDone
  split
  · rfl
  · split
    · rfl
    · split <;> rfl

private theorem resumedDone_undo (result : Except String AgenticLoopResult)
    (responseId : Option String) :
    (processApprovalLoopDone s thread result responseId).1.undo = s.undo := by
  unfold processApprovalLoopDone
  split
  · rfl
  · split <;> rfl

private theorem toolDone_undo (deps : Deps) (message : IncomingMessage) (pending : PendingApproval)
    (result : Except String String) :
    (processApprovalToolDone deps s message thread pending result).1.undo = s.undo := by
  unfold processApprovalToolDone
  simp only []
  split
  · split <;> rfl
  · rfl

private theorem approval_undo (message : IncomingMessage) (requestId : Option Uuid)
    (approved always : Bool) :
    (processApproval s message thread requestId approved always).1.undo = s.undo := by
  unfold processApproval
  split
  · rfl
  · rfl
  · split
    · rfl
    · split
      · rfl
      · split
        · rfl
        · simp only []
          split
          · rfl
          · split <;> rfl

/-- Every other operation leaves all undo histories alone. -/
private theorem step_undo (deps : Deps) {op : Op} (h : touchesHistory op = none) :
    (step deps s op).1.undo = s.undo := by
  cases op with
  | newThread => rfl
  | hydrate =>
    simp only [step, hydrateThread]
    split <;> rfl
  | switchThread =>
    simp only [step, processSwitchThread]
    split <;> rfl
  | loopEffect index effect =>
    simp only [step]
    split <;> rfl
  | loopDone index result hooks responseId =>
    simp only [step]
    split
    · exact loopDone_undo deps _ _ result hooks responseId
    · exact resumedDone_undo result responseId
    · rfl
  | approval message target requestId approved always =>
    exact approval_undo message requestId approved always
  | toolDone index result =>
    simp only [step]
    split
    · exact toolDone_undo deps _ _ result
    · rfl
  | interrupt =>
    simp only [step, processInterrupt]
    split
    · rfl
    · split <;> rfl
  | compact =>
    simp only [step, processCompact]
    split
    · rfl
    · split <;> rfl
  | authToken => rfl
  | cancelAuth => rfl
  | userInput => cases h
  | undo => cases h
  | redo => cases h
  | clear => cases h
  | resume => cases h

/-- An operation on another thread leaves the undo history alone. -/
private theorem step_undo_other (deps : Deps) {op : Op} (h : touchesHistory op = some target)
    (hne : target ≠ thread) : (step deps s op).1.undo thread = s.undo thread := by
  have hput (m : UndoManager) : (s.setUndo target m).undo thread = s.undo thread :=
    Function.update_of_ne (Ne.symm hne) _ _
  cases op with
  | userInput message target' content checks =>
    cases h
    simp only [step]
    cases haccepted : acceptedTurn s target checks with
    | none => rw [processUserInput_refused haccepted]
    | some t =>
      rw [processUserInput_accepted haccepted]
      exact hput _
  | undo target' freshId =>
    cases h
    simp only [step, processUndo]
    split
    · rfl
    · split
      · rfl
      · split <;> exact hput _
  | redo target' freshId =>
    cases h
    simp only [step, processRedo]
    split
    · rfl
    · split
      · rfl
      · split <;> exact hput _
  | clear target' =>
    cases h
    simp only [step, processClear]
    split
    · rfl
    · exact hput _
  | resume target' checkpointId =>
    cases h
    simp only [step, processResume]
    split
    · split <;> exact hput _
    · exact hput _
  | _ => cases h

/-- One operation moves the timeline of a thread. -/
theorem step_moves (deps : Deps) (h : KeepsHistory (s.undo thread)) (op : Op) :
    Moves s (step deps s op).1 thread (moveOf deps s thread op) := by
  cases op with
  | userInput message target content checks =>
    simp only [moveOf]
    split
    next htarget =>
      subst htarget
      cases haccepted : acceptedTurn s target checks with
      | none =>
        refine moves_write h ?_
        simp only [step]
        rw [processUserInput_refused haccepted]
      | some t => exact moves_userInput h haccepted message content
    next htarget => exact moves_write h (step_undo_other deps rfl htarget)
  | undo target freshId =>
    simp only [moveOf]
    split
    next htarget =>
      obtain ⟨rfl, hthread⟩ := htarget
      obtain ⟨t, ht⟩ := Option.isSome_iff_exists.mp hthread
      exact moves_undo h ht freshId
    next htarget =>
      refine moves_write h ?_
      by_cases heq : target = thread
      · subst heq
        have ht : s.thread? target = none := by simpa using htarget
        simp only [step, processUndo, ht]
        split <;> rfl
      · exact step_undo_other deps rfl heq
  | redo target freshId =>
    simp only [moveOf]
    split
    next htarget =>
      obtain ⟨rfl, hthread⟩ := htarget
      obtain ⟨t, ht⟩ := Option.isSome_iff_exists.mp hthread
      exact moves_redo h ht freshId
    next htarget =>
      refine moves_write h ?_
      by_cases heq : target = thread
      · subst heq
        have ht : s.thread? target = none := by simpa using htarget
        simp only [step, processRedo, ht]
        split <;> rfl
      · exact step_undo_other deps rfl heq
  | clear target =>
    simp only [moveOf]
    split
    next htarget =>
      obtain ⟨rfl, hthread⟩ := htarget
      obtain ⟨t, ht⟩ := Option.isSome_iff_exists.mp hthread
      exact moves_clear h ht
    next htarget =>
      refine moves_write h ?_
      by_cases heq : target = thread
      · subst heq
        have ht : s.thread? target = none := by simpa using htarget
        simp only [step, processClear, ht]
      · exact step_undo_other deps rfl heq
  | resume target checkpointId =>
    simp only [moveOf]
    split
    next htarget =>
      subst htarget
      exact moves_resume h checkpointId
    next htarget => exact moves_write h (step_undo_other deps rfl htarget)
  | newThread freshId => exact moves_write h (congrFun (step_undo deps rfl) thread)
  | hydrate => exact moves_write h (congrFun (step_undo deps rfl) thread)
  | switchThread => exact moves_write h (congrFun (step_undo deps rfl) thread)
  | loopEffect => exact moves_write h (congrFun (step_undo deps rfl) thread)
  | loopDone => exact moves_write h (congrFun (step_undo deps rfl) thread)
  | approval => exact moves_write h (congrFun (step_undo deps rfl) thread)
  | toolDone => exact moves_write h (congrFun (step_undo deps rfl) thread)
  | interrupt => exact moves_write h (congrFun (step_undo deps rfl) thread)
  | compact => exact moves_write h (congrFun (step_undo deps rfl) thread)
  | authToken => exact moves_write h (congrFun (step_undo deps rfl) thread)
  | cancelAuth => exact moves_write h (congrFun (step_undo deps rfl) thread)

end Handlers

/-- The moves of a thread's timeline in a run. -/
def movesOf (deps : Deps) (s : AgentState) (thread : Uuid) (ops : List Op) :
    List (Timeline.Move (List ChatMessage)) :=
  (visited (step deps) s ops).map fun p => moveOf deps p.1 thread p.2

/-- A number of undos, each with the identifier that the saved state gets. -/
def undoTimes (s : AgentState) (thread : Uuid) (ids : List Uuid) : AgentState :=
  ids.foldl (fun s id => (processUndo s thread id).1) s

def redoTimes (s : AgentState) (thread : Uuid) (ids : List Uuid) : AgentState :=
  ids.foldl (fun s id => (processRedo s thread id).1) s

/-- The number of states that undo and redo have in store. -/
@[grind =] def AgentState.historyCount (s : AgentState) (thread : Uuid) : Nat :=
  (s.undo thread).undoStack.length + (s.undo thread).redoStack.length

section Runs

variable {s : AgentState} {thread : Uuid}

private theorem historyCount_eq : s.historyCount thread = (s.timeline thread).count := by
  simp [AgentState.historyCount, Timeline.count, AgentState.timeline]

private theorem keepsHistory_new (sessionId : Uuid) (userId : String) (thread : Uuid) :
    KeepsHistory ((AgentState.new sessionId userId).undo thread) :=
  ⟨rfl, List.forall_mem_nil _, List.forall_mem_nil _⟩

/-- A run replays its moves on the timeline of a thread. -/
theorem run_moves (deps : Deps) (h : KeepsHistory (s.undo thread)) (ops : List Op) :
    (run (step deps) s ops).1.timeline thread =
        (s.timeline thread).replay UndoManager.defaultMaxCheckpoints (movesOf deps s thread ops) ∧
      KeepsHistory ((run (step deps) s ops).1.undo thread) := by
  induction ops generalizing s with
  | nil => exact ⟨rfl, h⟩
  | cons op ops ih =>
    have hmoves := step_moves deps h op
    obtain ⟨htimeline, hhistory⟩ := ih hmoves.history
    refine ⟨?_, hhistory⟩
    simp only [run]
    rw [htimeline, hmoves.timeline]
    rfl

/-- The undo history of a thread after a run, and its room. -/
private theorem reached_history (deps : Deps) (sessionId : Uuid) (userId : String) (thread : Uuid)
    (ops : List Op) :
    KeepsHistory ((run (step deps) (.new sessionId userId) ops).1.undo thread) ∧
      ((run (step deps) (.new sessionId userId) ops).1.timeline thread).count ≤
        UndoManager.defaultMaxCheckpoints := by
  obtain ⟨htimeline, hhistory⟩ := run_moves deps (keepsHistory_new sessionId userId thread) ops
  refine ⟨hhistory, ?_⟩
  rw [htimeline]
  exact Timeline.count_replay_le (Nat.zero_le _) _

/-- A number of undos on a thread that is there. -/
private theorem undoTimes_timeline (h : KeepsHistory (s.undo thread))
    (ht : (s.thread? thread).isSome) (ids : List Uuid) :
    (undoTimes s thread ids).timeline thread = Timeline.back^[ids.length] (s.timeline thread) ∧
      KeepsHistory ((undoTimes s thread ids).undo thread) ∧
      ((undoTimes s thread ids).thread? thread).isSome := by
  induction ids generalizing s with
  | nil => exact ⟨rfl, h, ht⟩
  | cons id ids ih =>
    obtain ⟨t, hthread⟩ := Option.isSome_iff_exists.mp ht
    have hmoves := moves_undo h hthread id
    have hstays : ((processUndo s thread id).1.thread? thread).isSome := by
      rcases List.eq_nil_or_concat' (s.undo thread).undoStack with hnil | ⟨before, c, hstack⟩
      · rw [processUndo_of_empty hnil]
        exact ht
      · rw [processUndo_of_checkpoint hstack hthread]
        exact Option.isSome_of_eq_some (Session.thread?_setThread _ _ _)
    obtain ⟨htimeline, hrest⟩ := ih hmoves.history hstays
    refine ⟨?_, hrest⟩
    rw [List.length_cons, Function.iterate_succ_apply]
    exact htimeline.trans (congrArg _ hmoves.timeline)

private theorem redoTimes_timeline (h : KeepsHistory (s.undo thread))
    (ht : (s.thread? thread).isSome) (ids : List Uuid) :
    (redoTimes s thread ids).timeline thread =
      (Timeline.forward UndoManager.defaultMaxCheckpoints)^[ids.length] (s.timeline thread) := by
  induction ids generalizing s with
  | nil => rfl
  | cons id ids ih =>
    obtain ⟨t, hthread⟩ := Option.isSome_iff_exists.mp ht
    have hmoves := moves_redo h hthread id
    have hstays : ((processRedo s thread id).1.thread? thread).isSome := by
      rcases List.eq_nil_or_concat' (s.undo thread).redoStack with hnil | ⟨before, c, hstack⟩
      · rw [processRedo_of_empty hnil]
        exact ht
      · rw [processRedo_of_checkpoint hstack hthread]
        exact Option.isSome_of_eq_some (Session.thread?_setThread _ _ _)
    rw [List.length_cons, Function.iterate_succ_apply]
    exact (ih hmoves.history hstays).trans (congrArg _ hmoves.timeline)

end Runs

/-- Undo and redo of a thread in one state of a session. -/
structure LinearHistory (deps : Deps) (s : AgentState) (thread : Uuid) : Prop where
  /-- As many redos as undos, with as many checkpoints there, bring the messages back. -/
  roundTrip : ∀ t, s.thread? thread = some t → ∀ undoIds redoIds : List Uuid,
    redoIds.length = undoIds.length → undoIds.length ≤ (s.undo thread).undoStack.length →
    (redoTimes (undoTimes s thread undoIds) thread redoIds).messagesOf thread = t.messages
  /-- However the run goes on: where a turn's own checkpoint is the next one, an undo restores the
  messages the thread had as the turn started. -/
  undoesTurn : ∀ message content checks t, acceptedTurn s thread checks = some t → ∀ rest freshId,
    let started := (processUserInput s message thread content checks).1
    let later := (run (step deps) started rest).1
    (later.timeline thread).past = (started.timeline thread).past →
      (later.thread? thread).isSome →
      (processUndo later thread freshId).1.messagesOf thread = t.messages
  undoKeepsCount : ∀ freshId,
    (processUndo s thread freshId).1.historyCount thread = s.historyCount thread
  redoKeepsCount : ∀ freshId,
    (processRedo s thread freshId).1.historyCount thread = s.historyCount thread
  bounded : s.historyCount thread ≤ (s.undo thread).maxCheckpoints
  turnEndsRedo : ∀ message content checks t, acceptedTurn s thread checks = some t →
    ((processUserInput s message thread content checks).1.undo thread).canRedo = false

section Linear

variable {deps : Deps} {s : AgentState} {thread : Uuid}

private theorem roundTrip_of (h : KeepsHistory (s.undo thread))
    (hfits : (s.timeline thread).count ≤ UndoManager.defaultMaxCheckpoints) {t : Thread}
    (ht : s.thread? thread = some t) {undoIds redoIds : List Uuid}
    (hlength : redoIds.length = undoIds.length)
    (hk : undoIds.length ≤ (s.undo thread).undoStack.length) :
    (redoTimes (undoTimes s thread undoIds) thread redoIds).timeline thread = s.timeline thread := by
  obtain ⟨hback, hhistory, hstays⟩ :=
    undoTimes_timeline h (Option.isSome_of_eq_some ht) undoIds
  have hpast : undoIds.length ≤ (s.timeline thread).past.length := by
    rw [AgentState.timeline, List.length_map]
    exact hk
  rw [redoTimes_timeline hhistory hstays, hback, hlength,
    Timeline.forward_iterate_back hfits undoIds.length hpast]

private theorem undo_historyCount (h : KeepsHistory (s.undo thread)) (freshId : Uuid) :
    (processUndo s thread freshId).1.historyCount thread = s.historyCount thread := by
  cases ht : s.thread? thread with
  | none =>
    by_cases hstack : (s.undo thread).undoStack = []
    · rw [processUndo_of_empty hstack]
    · rw [processUndo_of_missing hstack ht]
  | some t =>
    rw [historyCount_eq, (moves_undo h ht freshId).timeline, historyCount_eq]
    exact Timeline.count_back _

private theorem redo_historyCount (h : KeepsHistory (s.undo thread))
    (hfits : (s.timeline thread).count ≤ UndoManager.defaultMaxCheckpoints) (freshId : Uuid) :
    (processRedo s thread freshId).1.historyCount thread = s.historyCount thread := by
  cases ht : s.thread? thread with
  | none =>
    by_cases hstack : (s.undo thread).redoStack = []
    · rw [processRedo_of_empty hstack]
    · rw [processRedo_of_missing hstack ht]
  | some t =>
    rw [historyCount_eq, (moves_redo h ht freshId).timeline, historyCount_eq]
    exact Timeline.count_forward hfits

private theorem undoesTurn_of (h : KeepsHistory (s.undo thread)) {checks : InputChecks} {t : Thread}
    (haccepted : acceptedTurn s thread checks = some t) (message : IncomingMessage)
    (content : String) {rest : List Op} (freshId : Uuid)
    (hpast : ((run (step deps) (processUserInput s message thread content checks).1 rest).1.timeline
        thread).past =
      ((processUserInput s message thread content checks).1.timeline thread).past)
    (hthere : ((run (step deps) (processUserInput s message thread content checks).1 rest).1.thread?
      thread).isSome) :
    (processUndo (run (step deps) (processUserInput s message thread content checks).1 rest).1
      thread freshId).1.messagesOf thread = t.messages := by
  have hstart := moves_userInput h haccepted message content
  obtain ⟨-, hlater⟩ := run_moves deps hstart.history rest
  obtain ⟨u, hu⟩ := Option.isSome_iff_exists.mp hthere
  have hundo := (moves_undo hlater hu freshId).timeline
  rw [hstart.timeline] at hpast
  have hpresent := congrArg Timeline.present hundo
  exact hpresent.trans (Timeline.back_of_advance (by decide) hpast)

private theorem turn_ends_redo {checks : InputChecks} {t : Thread}
    (haccepted : acceptedTurn s thread checks = some t) (message : IncomingMessage)
    (content : String) :
    ((processUserInput s message thread content checks).1.undo thread).canRedo = false := by
  rw [processUserInput_accepted haccepted]
  have hundo (m : UndoManager) : (s.setUndo thread m).undo thread = m := Function.update_self _ _ _
  exact congrArg UndoManager.canRedo (hundo _)

end Linear

/-- In every run of a session, the undo history of a thread is a linear timeline: it replays the
moves of the run, and undo, redo and new turns move along it. -/
theorem undo_history_is_linear (deps : Deps) (sessionId : Uuid) (userId : String) (ops : List Op)
    (thread : Uuid) :
    (run (step deps) (.new sessionId userId) ops).1.timeline thread =
        ((AgentState.new sessionId userId).timeline thread).replay UndoManager.defaultMaxCheckpoints
          (movesOf deps (.new sessionId userId) thread ops) ∧
      LinearHistory deps (run (step deps) (.new sessionId userId) ops).1 thread := by
  obtain ⟨hhistory, hfits⟩ := reached_history deps sessionId userId thread ops
  refine ⟨(run_moves deps (keepsHistory_new sessionId userId thread) ops).1, ?_⟩
  refine ⟨?_, ?_, undo_historyCount hhistory, redo_historyCount hhistory hfits, ?_, ?_⟩
  · intro t ht undoIds redoIds hlength hk
    have htimeline := roundTrip_of hhistory hfits ht hlength hk
    exact (congrArg Timeline.present htimeline).trans (messagesOf_of_thread ht)
  · intro message content checks t haccepted rest freshId
    exact undoesTurn_of hhistory haccepted message content freshId
  · rw [historyCount_eq, hhistory.limit]
    exact hfits
  · intro message content checks t haccepted
    exact turn_ends_redo haccepted message content

end Gyre.Agent
