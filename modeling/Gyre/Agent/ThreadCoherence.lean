/- digest: Exactly when the handlers keep a thread's state, its approval and its open turn in agreement. -/

import Gyre.Agent.ThreadOps
import Gyre.Lib.Runs
import Mathlib.Data.List.ModifyLast

/-!
The state of a thread says whether an approval is pending and whether its last turn may still be
open. The handlers write the three independently. Those that end a turn or bring back an earlier one
do not look at a pending approval, and a rejection does not end the turn.
-/

set_option autoImplicit false
set_option relaxedAutoImplicit false

namespace Gyre.Agent

open Gyre.Llm Gyre.Hooks Gyre.Lib

namespace Thread

/-- A turn is being worked on. -/
def Busy (t : Thread) : Prop := t.state = .processing ∨ t.state = .awaitingApproval

/-- The last turn has no end yet. -/
def HasOpenTurn (t : Thread) : Prop := ∃ turn, t.lastTurn = some turn ∧ turn.state = .processing

/-- The state, the pending approval and the turns agree. -/
structure Coherent (t : Thread) : Prop where
  approval : t.pendingApproval.isSome ↔ t.state = .awaitingApproval
  earlier : ∀ turn ∈ t.turns.dropLast, turn.state ≠ .processing
  current : t.HasOpenTurn → t.Busy

end Thread

/-- Every user message is directly followed by an assistant message. -/
def Answered : List ChatMessage → Prop
  | [] => True
  | msg :: rest =>
    (msg.role = .user → ∃ next, rest.head? = some next ∧ next.role = .assistant) ∧ Answered rest

section Turns

variable {t : Thread}

/-- Every turn has ended. -/
def AllEnded (turns : List Turn) : Prop := ∀ turn ∈ turns, turn.state ≠ .processing

private theorem allEnded_iff_dropLast {turns : List Turn} :
    AllEnded turns ↔
      AllEnded turns.dropLast ∧ ∀ turn, turns.getLast? = some turn → turn.state ≠ .processing := by
  rcases List.eq_nil_or_concat' turns with rfl | ⟨before, last, rfl⟩
  · simp [AllEnded]
  · simp [AllEnded, or_imp, forall_and]

private theorem allEnded_modifyLast {turns : List Turn} {f : Turn → Turn}
    (h : AllEnded turns.dropLast) (hf : ∀ turn, (f turn).state ≠ .processing) :
    AllEnded (turns.modifyLast f) := by
  rcases List.eq_nil_or_concat' turns with rfl | ⟨before, last, rfl⟩
  · simp [AllEnded, List.modifyLast, List.modifyLast.go]
  · rw [List.modifyLast_concat]
    intro turn hturn
    rcases List.mem_append.mp hturn with hturn | hturn
    · exact h turn (by simpa using hturn)
    · rw [List.mem_singleton.mp hturn]
      exact hf last

/-- A thread that nobody works on is coherent when nothing is left open on it. -/
private theorem coherent_iff_of_not_busy (h : ¬ t.Busy) :
    t.Coherent ↔ t.pendingApproval = none ∧ AllEnded t.turns := by
  have hstate : t.state ≠ .awaitingApproval := fun hs => h (.inr hs)
  constructor
  · rintro ⟨happroval, hearlier, hcurrent⟩
    constructor
    · cases hp : t.pendingApproval with
      | none => rfl
      | some p => exact absurd (happroval.mp (by rw [hp]; rfl)) hstate
    · rw [allEnded_iff_dropLast]
      exact ⟨hearlier, fun turn hturn hopen => h (hcurrent ⟨turn, hturn, hopen⟩)⟩
  · rintro ⟨hnone, hended⟩
    obtain ⟨hearlier, hlast⟩ := allEnded_iff_dropLast.mp hended
    refine ⟨?_, hearlier, ?_⟩
    · rw [hnone]
      exact ⟨fun hp => absurd hp (by simp), fun hs => absurd hs hstate⟩
    · rintro ⟨turn, hturn, hopen⟩
      exact absurd hopen (hlast turn hturn)

private theorem Thread.Coherent.pendingApproval_eq_none_iff (h : t.Coherent) :
    t.pendingApproval = none ↔ t.state ≠ .awaitingApproval := by
  rw [ne_eq, ← h.approval]
  cases t.pendingApproval <;> simp

private theorem Thread.Coherent.allEnded (h : t.Coherent) (hbusy : ¬ t.Busy) : AllEnded t.turns :=
  ((coherent_iff_of_not_busy hbusy).mp h).2

private theorem turnsFromMessages_ended (n : Nat) (messages : List ChatMessage) :
    AllEnded (turnsFromMessages n messages) ↔ Answered messages := by
  fun_induction turnsFromMessages n messages with
  | case1 => simp [AllEnded, Answered]
  | case2 n msg huser next rest hnext ih =>
    simp only [AllEnded, List.forall_mem_cons] at ih ⊢
    simp [Answered, huser, hnext, Turn.complete, ih]
  | case3 n msg huser next rest hnext ih =>
    simp [AllEnded, Answered, huser, hnext, Turn.new]
  | case4 n msg huser =>
    simp [AllEnded, Answered, huser, Turn.new]
  | case5 n msg rest huser ih =>
    rw [ih]
    simp [Answered, huser]

end Turns

namespace Thread

section Operations

variable {t : Thread}

theorem withId_coherent (id sessionId : Uuid) : (withId id sessionId).Coherent := by
  rw [coherent_iff_of_not_busy (by simp [Busy, withId])]
  exact ⟨rfl, by simp [AllEnded, withId]⟩

/-- A new turn needs a thread that nobody works on. -/
theorem startTurn_coherent (h : t.Coherent) (hbusy : ¬ t.Busy) (input : String) :
    (t.startTurn input).Coherent := by
  obtain ⟨hnone, hended⟩ := (coherent_iff_of_not_busy hbusy).mp h
  refine ⟨?_, ?_, fun _ => .inl rfl⟩
  · simp [startTurn, hnone]
  · simpa [startTurn, AllEnded] using hended

/-- An operation that leaves the approval alone and ends every turn. -/
private theorem coherent_iff_of_ended {u : Thread} (h : t.Coherent) (hbusy : ¬ u.Busy)
    (hpending : u.pendingApproval = t.pendingApproval) (hended : AllEnded u.turns) :
    u.Coherent ↔ t.state ≠ .awaitingApproval := by
  rw [coherent_iff_of_not_busy hbusy, hpending, h.pendingApproval_eq_none_iff]
  exact and_iff_left hended

theorem completeTurn_coherent_iff (h : t.Coherent) (response : String) :
    (t.completeTurn response).Coherent ↔ t.state ≠ .awaitingApproval := by
  refine coherent_iff_of_ended h (by simp [Busy, completeTurn]) rfl ?_
  refine allEnded_modifyLast h.earlier fun turn => ?_
  simp [Turn.complete]

theorem failTurn_coherent_iff (h : t.Coherent) (error : String) :
    (t.failTurn error).Coherent ↔ t.state ≠ .awaitingApproval := by
  refine coherent_iff_of_ended h (by simp [Busy, failTurn]) rfl ?_
  refine allEnded_modifyLast h.earlier fun turn => ?_
  simp [Turn.fail]

theorem interrupt_coherent_iff (h : t.Coherent) :
    t.interrupt.Coherent ↔ t.state ≠ .awaitingApproval := by
  refine coherent_iff_of_ended h (by simp [Busy, interrupt]) rfl ?_
  refine allEnded_modifyLast h.earlier fun turn => ?_
  simp [Turn.interrupt]

theorem awaitApproval_coherent (h : t.Coherent) (pending : PendingApproval) :
    (t.awaitApproval pending).Coherent := by
  refine ⟨?_, h.earlier, fun _ => .inr rfl⟩
  simp [awaitApproval]

/-- The approved tool is about to run. -/
theorem takePendingApproval_coherent (h : t.Coherent) :
    ({ t.takePendingApproval with state := .processing } : Thread).Coherent := by
  refine ⟨?_, h.earlier, fun _ => .inl rfl⟩
  simp [takePendingApproval]

/-- A rejection leaves the turn as it is. -/
theorem clearPendingApproval_coherent_iff (h : t.Coherent) :
    t.clearPendingApproval.Coherent ↔ ¬ t.HasOpenTurn := by
  rw [coherent_iff_of_not_busy (by simp [Busy, clearPendingApproval])]
  constructor
  · rintro ⟨-, hended⟩ ⟨turn, hturn, hopen⟩
    exact hended turn (List.mem_of_getLast? hturn) hopen
  · intro hclosed
    refine ⟨rfl, allEnded_iff_dropLast.mpr ⟨h.earlier, fun turn hturn hopen => ?_⟩⟩
    exact hclosed ⟨turn, hturn, hopen⟩

theorem resume_coherent (h : t.Coherent) : t.resume.Coherent := by
  unfold resume
  split
  next hstate =>
    have hbusy : ¬ t.Busy := by simp [Busy, hstate]
    rw [coherent_iff_of_not_busy (by simp [Busy])]
    exact (coherent_iff_of_not_busy hbusy).mp h
  next => exact h

theorem restoreFromMessages_coherent_iff (h : t.Coherent) (messages : List ChatMessage) :
    (t.restoreFromMessages messages).Coherent ↔
      t.state ≠ .awaitingApproval ∧ Answered messages := by
  rw [coherent_iff_of_not_busy (by simp [Busy, restoreFromMessages]),
    ← h.pendingApproval_eq_none_iff, ← turnsFromMessages_ended 0]
  rfl

theorem cleared_coherent_iff (h : t.Coherent) :
    ({ t with turns := [], state := .idle } : Thread).Coherent ↔ t.state ≠ .awaitingApproval :=
  coherent_iff_of_ended h (by simp [Busy]) rfl (by simp [AllEnded])

/-- Only the states of the turns count, and earlier turns may go. -/
private theorem coherent_of_states_suffix {u : Thread} (h : t.Coherent)
    (hpending : u.pendingApproval = t.pendingApproval) (hstate : u.state = t.state)
    (hsuffix : u.turns.map (·.state) <:+ t.turns.map (·.state)) : u.Coherent := by
  refine ⟨by rw [hpending, hstate]; exact h.approval, ?_, ?_⟩
  · intro turn hturn hopen
    have hmem : TurnState.processing ∈ (t.turns.map (·.state)).dropLast := by
      have hown : TurnState.processing ∈ (u.turns.map (·.state)).dropLast := by
        rw [← List.map_dropLast]
        exact List.mem_map.mpr ⟨turn, hturn, hopen⟩
      obtain ⟨before, hbefore⟩ := hsuffix
      have hne : u.turns.map (·.state) ≠ [] := by
        intro hnil
        simp [hnil] at hown
      rw [← hbefore, List.dropLast_append_of_ne_nil hne]
      exact List.mem_append_right _ hown
    rw [← List.map_dropLast] at hmem
    obtain ⟨other, hother, hstill⟩ := List.mem_map.mp hmem
    exact h.earlier other hother hstill
  · rintro ⟨turn, hturn, hopen⟩
    have hlast : (u.turns.map (·.state)).getLast? = some .processing := by
      rw [List.getLast?_map]
      unfold lastTurn at hturn
      rw [hturn, Option.map_some, hopen]
    obtain ⟨before, hbefore⟩ := hsuffix
    have hsame : (t.turns.map (·.state)).getLast? = some .processing := by
      rw [← hbefore, List.getLast?_append, hlast]
      rfl
    rw [List.getLast?_map] at hsame
    obtain ⟨other, hother, hstill⟩ := Option.map_eq_some_iff.mp hsame
    have hbusy := h.current ⟨other, hother, hstill⟩
    unfold Busy at hbusy ⊢
    rw [hstate]
    exact hbusy

/-- An operation on the last turn that does not end it. -/
theorem modifyLastTurn_coherent (h : t.Coherent) {f : Turn → Turn}
    (hf : ∀ turn, (f turn).state = turn.state) : (t.modifyLastTurn f).Coherent := by
  refine coherent_of_states_suffix h rfl rfl ?_
  have hstates : (t.turns.modifyLast f).map (·.state) = t.turns.map (·.state) := by
    rcases List.eq_nil_or_concat' t.turns with hnil | ⟨before, last, hlast⟩
    · rw [hnil]
      rfl
    · rw [hlast, List.modifyLast_concat]
      simp [hf]
  exact hstates ▸ List.suffix_rfl

theorem enterAuthMode_coherent (h : t.Coherent) (extensionName : String) :
    (t.enterAuthMode extensionName).Coherent := ⟨h.approval, h.earlier, h.current⟩

theorem takePendingAuth_coherent (h : t.Coherent) : t.takePendingAuth.Coherent :=
  ⟨h.approval, h.earlier, h.current⟩

/-- Dropping the oldest turns and numbering the others again. -/
theorem truncateTurns_coherent (t : Thread) (h : t.Coherent) (keep : Nat) : (t.truncateTurns keep).Coherent := by
  unfold truncateTurns
  split
  next =>
    refine coherent_of_states_suffix h rfl rfl ?_
    have hstates : ((t.turns.drop (t.turns.length - keep)).mapIdx
        fun i turn => { turn with turnNumber := i }).map (·.state) =
        (t.turns.map (·.state)).drop (t.turns.length - keep) := by
      rw [← List.map_drop]
      refine List.ext_getElem? fun i => ?_
      simp only [List.getElem?_map, List.getElem?_mapIdx, Option.map_map]
      rfl
    rw [hstates]
    exact List.drop_suffix _ _
  next => exact h

end Operations

end Thread

section Compaction

variable {t : Thread}

private theorem compact_coherent (h : t.Coherent) (world : CompactionWorld)
    (strategy : CompactionStrategy) : (compact world t strategy).1.Coherent := by
  cases strategy with
  | summarize keep =>
    simp only [compact, compactWithSummary]
    split
    · exact h
    · split
      · exact h
      · exact t.truncateTurns_coherent h keep
  | truncate keep => exact t.truncateTurns_coherent h keep
  | moveToWorkspace =>
    simp only [compact, compactToWorkspace]
    split
    · exact t.truncateTurns_coherent h 5
    · split
      · exact h
      · exact t.truncateTurns_coherent h 10

private theorem compact_state (world : CompactionWorld) (t : Thread)
    (strategy : CompactionStrategy) : t.state = (compact world t strategy).1.state := by
  obtain ⟨turns, hturns⟩ := compact_frame world t strategy
  rw [hturns]

end Compaction

/-- Every thread of the session is coherent. -/
def AgentState.Coherent (s : AgentState) : Prop := ∀ id t, s.thread? id = some t → t.Coherent

/-- A thread that is in the session holds no approval. -/
def AgentState.NotAwaiting (s : AgentState) (thread : Uuid) : Prop :=
  ∀ t, s.thread? thread = some t → t.state ≠ .awaitingApproval

/-- A loop's result that ends the turn. -/
def EndsTurn : Except String AgenticLoopResult → Prop
  | .ok (.needApproval _) => False
  | _ => True

/-- A checkpoint can be brought back to a thread. -/
def AgentState.CanRestore (s : AgentState) (thread : Uuid) (checkpoint : Option Checkpoint) : Prop :=
  ∀ t c, s.thread? thread = some t → checkpoint = some c →
    t.state ≠ .awaitingApproval ∧ Answered c.messages

/-- When an operation keeps all threads coherent, by the state it finds: the turn it ends or the
checkpoint it brings back meets no pending approval, no message brought back is unanswered, and no
turn is open where an approval is refused. -/
def KeepsCoherent (deps : Deps) (s : AgentState) : Op → Prop
  | .hydrate thread messages _ => s.thread? thread = none → Answered messages
  | .loopDone index result _ _ =>
    match s.running[index]? with
    | some (.turn _ thread ..) | some (.resumed _ thread _) => EndsTurn result → s.NotAwaiting thread
    | _ => True
  | .toolDone index result =>
    match s.running[index]? with
    | some (.tool _ thread pending) =>
      (detectAuthAwaiting deps.serde pending.toolName result).isSome → s.NotAwaiting thread
    | _ => True
  | .approval _ addressed requestId approved _ =>
    ∀ thread, s.session.resolveApprovalThread addressed requestId = .found thread →
      ∀ t, s.thread? thread = some t → t.state = .awaitingApproval →
      ∀ p, t.pendingApproval = some p → ¬ requestId.any (fun id => decide (id ≠ p.requestId)) →
        approved = false → ¬ t.HasOpenTurn
  | .undo thread _ => s.CanRestore thread (s.undo thread).undoStack.getLast?
  | .redo thread _ => s.CanRestore thread (s.undo thread).redoStack.getLast?
  | .resume thread checkpointId =>
    s.CanRestore thread ((s.undo thread).undoStack.find? (·.id == checkpointId))
  | .interrupt thread | .clear thread => s.NotAwaiting thread
  | _ => True

section Handlers

variable {s r : AgentState} {thread : Uuid} {t u : Thread}

private theorem coherent_new (sessionId : Uuid) (userId : String) :
    (AgentState.new sessionId userId).Coherent := by
  intro id t ht
  simp [AgentState.new, AgentState.thread?, Session.thread?, Session.new] at ht

private theorem coherent_congr (h : r.thread? = s.thread?) : r.Coherent ↔ s.Coherent := by
  unfold AgentState.Coherent
  rw [h]

private theorem coherent_same (hs : s.Coherent) (h : r.thread? = s.thread?) : r.Coherent :=
  (coherent_congr h).mpr hs

/-- A handler that puts one thread back. -/
private theorem coherent_iff_of_put (hs : s.Coherent) (thread : Uuid)
    (h : r.thread? = (s.setThread thread u).thread?) : r.Coherent ↔ u.Coherent := by
  rw [coherent_congr h]
  constructor
  · intro hr
    exact hr thread u (Session.thread?_setThread _ _ _)
  · intro hu id t ht
    by_cases hid : id = thread
    · rw [hid] at ht
      have hsame : some u = some t :=
        (Session.thread?_setThread s.session thread u).symm.trans ht
      exact Option.some.inj hsame ▸ hu
    · exact hs id t ((Session.thread?_setThread_ne s.session u hid).symm.trans ht)

/-- An update of one thread that keeps it coherent. -/
private theorem coherent_modifyThread {f : Thread → Thread} (hs : s.Coherent)
    (h : r.session = s.session.modifyThread thread f)
    (hf : ∀ t, s.thread? thread = some t → t.Coherent → (f t).Coherent) : r.Coherent := by
  unfold Session.modifyThread at h
  cases ht : s.session.thread? thread with
  | none =>
    rw [ht] at h
    refine coherent_same hs ?_
    unfold AgentState.thread?
    rw [h]
  | some t =>
    rw [ht] at h
    have hput : r.thread? = (s.setThread thread (f t)).thread? := by
      unfold AgentState.thread?
      rw [h]
      rfl
    exact (coherent_iff_of_put hs thread hput).mpr (hf t ht (hs thread t ht))

private theorem notAwaiting_iff (ht : s.thread? thread = some t) :
    s.NotAwaiting thread ↔ t.state ≠ .awaitingApproval := by
  constructor
  · intro h
    exact h t ht
  · intro h u hu
    obtain rfl := Option.some.inj (ht.symm.trans hu)
    exact h

private theorem canRestore_iff {checkpoint : Checkpoint} (ht : s.thread? thread = some t) :
    s.CanRestore thread (some checkpoint) ↔
      t.state ≠ .awaitingApproval ∧ Answered checkpoint.messages := by
  constructor
  · intro h
    exact h t checkpoint ht rfl
  · intro h u c hu hc
    obtain rfl := Option.some.inj (ht.symm.trans hu)
    obtain rfl := Option.some.inj hc
    exact h

private theorem canRestore_of_missing {checkpoint : Option Checkpoint}
    (ht : s.thread? thread = none) : s.CanRestore thread checkpoint := by
  intro u c hu
  rw [ht] at hu
  cases hu

private theorem processUserInput_coherent (hs : s.Coherent) (message : IncomingMessage)
    (thread : Uuid) (content : String) (checks : InputChecks) :
    (processUserInput s message thread content checks).1.Coherent := by
  unfold processUserInput
  split
  next => exact hs
  next t ht =>
    have hcompact : t.state = (autoCompact checks t).state ∧ (autoCompact checks t).Coherent := by
      unfold autoCompact
      split
      next strategy _ =>
        exact ⟨compact_state checks.compaction t strategy,
          compact_coherent (hs thread t ht) checks.compaction strategy⟩
      next => exact ⟨rfl, hs thread t ht⟩
    have hstart (hbusy : ¬ t.Busy) : ((autoCompact checks t).startTurn content).Coherent := by
      refine Thread.startTurn_coherent hcompact.2 ?_ content
      unfold Thread.Busy at hbusy ⊢
      rw [← hcompact.1]
      exact hbusy
    split
    next => exact hs
    next => exact hs
    next => exact hs
    all_goals
      next hstate =>
        have hbusy : ¬ t.Busy := by simp [Thread.Busy, hstate]
        split
        · exact hs
        · split
          · exact hs
          · split
            · exact hs
            · exact (coherent_iff_of_put hs thread rfl).mpr (hstart hbusy)

private theorem persistResponseChain_coherent_iff (responseId : Option String) :
    (persistResponseChain t responseId).Coherent ↔ t.Coherent := by
  unfold persistResponseChain
  split
  · exact ⟨fun h => ⟨h.approval, h.earlier, h.current⟩, fun h => ⟨h.approval, h.earlier, h.current⟩⟩
  · exact Iff.rfl

private theorem loopDone_coherent_iff (deps : Deps) (hs : s.Coherent) (message : IncomingMessage)
    (thread : Uuid) (content : String) (result : Except String AgenticLoopResult)
    (hooks : HookRegistry) (responseId : Option String) :
    (processUserInputLoopDone deps s message thread content result hooks responseId).1.Coherent ↔
      (EndsTurn result → s.NotAwaiting thread) := by
  unfold processUserInputLoopDone
  split
  next ht =>
    refine iff_of_true hs fun _ u hu => ?_
    rw [ht] at hu
    cases hu
  next t ht =>
    have hcoherent := hs thread t ht
    rw [notAwaiting_iff ht]
    split
    next hinterrupted =>
      refine iff_of_true hs fun _ => ?_
      rw [hinterrupted]
      decide
    next =>
      split
      next original =>
        rw [coherent_iff_of_put hs thread rfl, persistResponseChain_coherent_iff,
          Thread.completeTurn_coherent_iff hcoherent]
        exact (true_imp_iff).symm
      next pending =>
        rw [coherent_iff_of_put hs thread rfl]
        exact iff_of_true (Thread.awaitApproval_coherent hcoherent pending) fun h => h.elim
      next e =>
        rw [coherent_iff_of_put hs thread rfl, Thread.failTurn_coherent_iff hcoherent]
        exact (true_imp_iff).symm

private theorem resumedDone_coherent_iff (hs : s.Coherent) (thread : Uuid)
    (result : Except String AgenticLoopResult) (responseId : Option String) :
    (processApprovalLoopDone s thread result responseId).1.Coherent ↔
      (EndsTurn result → s.NotAwaiting thread) := by
  unfold processApprovalLoopDone
  split
  next ht =>
    refine iff_of_true hs fun _ u hu => ?_
    rw [ht] at hu
    cases hu
  next t ht =>
    have hcoherent := hs thread t ht
    rw [notAwaiting_iff ht]
    split
    next response =>
      rw [coherent_iff_of_put hs thread rfl, persistResponseChain_coherent_iff,
        Thread.completeTurn_coherent_iff hcoherent]
      exact (true_imp_iff).symm
    next pending =>
      rw [coherent_iff_of_put hs thread rfl]
      exact iff_of_true (Thread.awaitApproval_coherent hcoherent pending) fun h => h.elim
    next e =>
      rw [coherent_iff_of_put hs thread rfl, Thread.failTurn_coherent_iff hcoherent]
      exact (true_imp_iff).symm

private theorem recordToolOutcome_state (result : Except String String) (turn : Turn) :
    (recordToolOutcome result turn).state = turn.state := by
  unfold recordToolOutcome
  split <;> rfl

/-- Whether an approval is pending does not depend on what an update leaves alone. -/
private theorem notAwaiting_modifyThread {f : Thread → Thread}
    (h : r.session = s.session.modifyThread thread f) (hf : ∀ t, (f t).state = t.state) :
    r.NotAwaiting thread ↔ s.NotAwaiting thread := by
  unfold AgentState.NotAwaiting AgentState.thread?
  rw [h]
  unfold Session.modifyThread
  cases ht : s.session.thread? thread with
  | none =>
    simp only [ht]
  | some t =>
    simp only [Session.thread?_setThread, Option.some.injEq, forall_eq', hf]

private theorem toolDone_coherent_iff (deps : Deps) (hs : s.Coherent) (message : IncomingMessage)
    (thread : Uuid) (pending : PendingApproval) (result : Except String String) :
    (processApprovalToolDone deps s message thread pending result).1.Coherent ↔
      ((detectAuthAwaiting deps.serde pending.toolName result).isSome → s.NotAwaiting thread) := by
  have hrecorded : AgentState.Coherent { s with
      session := s.session.modifyThread thread (·.modifyLastTurn (recordToolOutcome result)) } :=
    coherent_modifyThread hs rfl fun t _ ht =>
      t.modifyLastTurn_coherent ht (recordToolOutcome_state result)
  have hawaiting : AgentState.NotAwaiting { s with
      session := s.session.modifyThread thread (·.modifyLastTurn (recordToolOutcome result)) }
        thread ↔ s.NotAwaiting thread :=
    notAwaiting_modifyThread rfl fun t => rfl
  rw [← hawaiting]
  unfold processApprovalToolDone
  simp only []
  generalize ({ s with
    session := s.session.modifyThread thread (·.modifyLastTurn (recordToolOutcome result)) } :
      AgentState) = recorded at hrecorded ⊢
  split
  next hdetect =>
    rw [hdetect]
    split
    next t ht =>
      rw [notAwaiting_iff ht, coherent_iff_of_put hrecorded thread rfl,
        Thread.completeTurn_coherent_iff (t.enterAuthMode_coherent (hrecorded thread t ht) _)]
      exact ⟨fun h _ => h, fun h => h rfl⟩
    next ht =>
      refine iff_of_true hrecorded fun _ u hu => ?_
      rw [ht] at hu
      cases hu
  next hdetect =>
    rw [hdetect]
    exact iff_of_true hrecorded fun h => absurd h (by simp)

private theorem approval_coherent_iff (hs : s.Coherent) (message : IncomingMessage)
    (addressed : Uuid) (requestId : Option Uuid) (approved always : Bool) :
    (processApproval s message addressed requestId approved always).1.Coherent ↔
      ∀ thread, s.session.resolveApprovalThread addressed requestId = .found thread →
        ∀ t, s.thread? thread = some t → t.state = .awaitingApproval →
        ∀ p, t.pendingApproval = some p → ¬ requestId.any (fun id => decide (id ≠ p.requestId)) →
          approved = false → ¬ t.HasOpenTurn := by
  unfold processApproval
  split
  next hfound =>
    refine iff_of_true hs fun thread h => ?_
    rw [hfound] at h
    cases h
  next hfound =>
    refine iff_of_true hs fun thread h => ?_
    rw [hfound] at h
    cases h
  next thread hfound =>
    rw [hfound]
    simp only [ApprovalThreadResolution.found.injEq, forall_eq']
    split
    next ht => exact iff_of_true hs fun t h => absurd (ht.symm.trans h) (by simp)
    next t ht =>
      have hcoherent := hs thread t ht
      simp only [ht, Option.some.injEq, forall_eq']
      split
      next hstate => exact iff_of_true hs fun h => absurd h hstate
      next hstate =>
        split
        next hnone => exact iff_of_true hs fun _ p h => absurd (hnone.symm.trans h) (by simp)
        next pending hpending =>
          simp only [hpending, Option.some.injEq, forall_eq']
          have hput (u : Thread) {q : AgentState} (h : q.thread? = (s.setThread thread u).thread?) :
              q.Coherent ↔ u.Coherent := coherent_iff_of_put hs thread h
          split
          next hmismatch =>
            rw [hput _ rfl]
            refine iff_of_true ?_ fun _ h => absurd hmismatch h
            refine ⟨by simp [Thread.awaitApproval], hcoherent.earlier, fun _ => .inr rfl⟩
          next hmatch =>
            split
            next happroved =>
              rw [hput { t.takePendingApproval with state := .processing } ?_]
              · refine iff_of_true (Thread.takePendingApproval_coherent hcoherent) fun _ _ h => ?_
                rw [happroved] at h
                cases h
              · cases always <;> rfl
            next hrejected =>
              have hsame : t.takePendingApproval.clearPendingApproval = t.clearPendingApproval := rfl
              rw [hput _ rfl, hsame, Thread.clearPendingApproval_coherent_iff hcoherent]
              refine ⟨fun h _ _ _ => h, fun h => h (not_not.mp hstate) hmatch ?_⟩
              simpa using hrejected

private theorem undo_coherent_iff (hs : s.Coherent) (thread freshId : Uuid) :
    (processUndo s thread freshId).1.Coherent ↔
      s.CanRestore thread (s.undo thread).undoStack.getLast? := by
  rcases List.eq_nil_or_concat' (s.undo thread).undoStack with hnil | ⟨before, c, hstack⟩
  · rw [processUndo_of_empty hnil, hnil]
    exact iff_of_true hs fun t c _ hc => by cases hc
  · rw [hstack, List.getLast?_append_of_ne_nil _ (List.cons_ne_nil _ _)]
    cases ht : s.thread? thread with
    | none =>
      rw [processUndo_of_missing (by simp [hstack]) ht]
      exact iff_of_true hs (canRestore_of_missing ht)
    | some t =>
      rw [processUndo_of_checkpoint hstack ht]
      refine (coherent_iff_of_put hs thread rfl).trans ?_
      rw [Thread.restoreFromMessages_coherent_iff (hs thread t ht)]
      exact (canRestore_iff ht).symm

private theorem redo_coherent_iff (hs : s.Coherent) (thread freshId : Uuid) :
    (processRedo s thread freshId).1.Coherent ↔
      s.CanRestore thread (s.undo thread).redoStack.getLast? := by
  rcases List.eq_nil_or_concat' (s.undo thread).redoStack with hnil | ⟨before, c, hstack⟩
  · rw [processRedo_of_empty hnil, hnil]
    exact iff_of_true hs fun t c _ hc => by cases hc
  · rw [hstack, List.getLast?_append_of_ne_nil _ (List.cons_ne_nil _ _)]
    cases ht : s.thread? thread with
    | none =>
      rw [processRedo_of_missing (by simp [hstack]) ht]
      exact iff_of_true hs (canRestore_of_missing ht)
    | some t =>
      rw [processRedo_of_checkpoint hstack ht]
      refine (coherent_iff_of_put hs thread rfl).trans ?_
      rw [Thread.restoreFromMessages_coherent_iff (hs thread t ht)]
      exact (canRestore_iff ht).symm

/-- `restore` hands out the first checkpoint with the identifier. -/
private theorem restore_eq_find? (m : UndoManager) (checkpointId : Uuid) :
    (m.restore checkpointId).2 = m.undoStack.find? (·.id == checkpointId) := by
  unfold UndoManager.restore
  cases hpos : m.undoStack.findIdx? (·.id == checkpointId) with
  | none =>
    rw [List.findIdx?_eq_none_iff] at hpos
    refine (List.find?_eq_none.mpr fun c hc => ?_).symm
    simp [hpos c hc]
  | some pos =>
    obtain ⟨hpos, hhit, hbefore⟩ := List.findIdx?_eq_some_iff_getElem.mp hpos
    simp only [List.getElem?_eq_getElem hpos]
    symm
    rw [List.find?_eq_some_iff_getElem]
    exact ⟨hhit, pos, hpos, rfl, fun j hj => by simpa using hbefore j hj⟩

private theorem resume_coherent_iff (hs : s.Coherent) (thread checkpointId : Uuid) :
    (processResume s thread checkpointId).1.Coherent ↔
      s.CanRestore thread ((s.undo thread).undoStack.find? (·.id == checkpointId)) := by
  rw [← restore_eq_find?]
  unfold processResume
  split
  next mgr checkpoint hrestore =>
    rw [hrestore]
    have hthread : (s.setUndo thread mgr).thread? thread = s.thread? thread := rfl
    simp only [hthread]
    split
    next ht => exact iff_of_true hs (canRestore_of_missing ht)
    next t ht =>
      rw [canRestore_iff ht]
      refine (coherent_iff_of_put hs thread rfl).trans ?_
      rw [Thread.restoreFromMessages_coherent_iff (hs thread t ht)]
  next mgr hrestore =>
    rw [hrestore]
    refine iff_of_true hs fun t c _ hc => ?_
    cases hc

private theorem interrupt_coherent_iff (hs : s.Coherent) (thread : Uuid) :
    (processInterrupt s thread).1.Coherent ↔ s.NotAwaiting thread := by
  unfold processInterrupt
  split
  next ht =>
    refine iff_of_true hs fun u hu => ?_
    rw [ht] at hu
    cases hu
  next t ht =>
    rw [notAwaiting_iff ht]
    split
    next hstate =>
      rw [coherent_iff_of_put hs thread rfl,
        Thread.interrupt_coherent_iff (hs thread t ht)]
    next hstate =>
      rw [coherent_iff_of_put hs thread rfl,
        Thread.interrupt_coherent_iff (hs thread t ht)]
    next hprocessing hawaiting =>
      exact iff_of_true hs hawaiting

private theorem clear_coherent_iff (hs : s.Coherent) (thread : Uuid) :
    (processClear s thread).1.Coherent ↔ s.NotAwaiting thread := by
  unfold processClear
  split
  next ht =>
    refine iff_of_true hs fun u hu => ?_
    rw [ht] at hu
    cases hu
  next t ht =>
    rw [notAwaiting_iff ht]
    refine (coherent_iff_of_put hs thread rfl).trans ?_
    rw [Thread.cleared_coherent_iff (hs thread t ht)]

private theorem compact_handler_coherent (hs : s.Coherent) (thread : Uuid)
    (monitor : ContextMonitor) (world : CompactionWorld) :
    (processCompact s thread monitor world).1.Coherent := by
  unfold processCompact
  split
  next => exact hs
  next t ht =>
    have hcompact := compact_coherent (hs thread t ht) world
      ((monitor.suggestCompaction t.messages).getD (.summarize 5))
    simp only []
    split
    next => exact (coherent_iff_of_put hs thread rfl).mpr hcompact
    next => exact (coherent_iff_of_put hs thread rfl).mpr hcompact

private theorem hydrate_coherent_iff (hs : s.Coherent) (thread : Uuid)
    (messages : List ChatMessage) (responseId : Option String) :
    (hydrateThread s thread messages responseId).1.Coherent ↔
      (s.thread? thread = none → Answered messages) := by
  unfold hydrateThread
  split
  next t ht =>
    refine iff_of_true hs fun h => ?_
    rw [ht] at h
    cases h
  next ht =>
    refine (coherent_iff_of_put hs thread rfl).trans ?_
    rw [persistResponseChain_coherent_iff]
    split
    next hempty =>
      refine iff_of_true (Thread.withId_coherent _ _) fun _ => ?_
      rw [List.isEmpty_iff.mp hempty]
      trivial
    next =>
      rw [Thread.restoreFromMessages_coherent_iff (Thread.withId_coherent _ _)]
      have hidle : (Thread.withId thread s.session.id).state ≠ .awaitingApproval := by
        simp [Thread.withId]
      exact ⟨fun h _ => h.2, fun h => ⟨hidle, h ht⟩⟩

private theorem authToken_coherent (hs : s.Coherent) (thread : Uuid) (pending : PendingAuth)
    (outcome : AuthOutcome) : (processAuthToken s thread pending outcome).1.Coherent := by
  have hcleared : AgentState.Coherent
      { s with session := s.session.modifyThread thread Thread.takePendingAuth } :=
    coherent_modifyThread hs rfl fun t _ ht => t.takePendingAuth_coherent ht
  unfold processAuthToken
  simp only []
  split
  next => exact coherent_modifyThread hcleared rfl fun t _ ht => t.enterAuthMode_coherent ht _
  next => exact hcleared

private theorem loopEffect_coherent (h : t.Coherent) (effect : LoopEffect) :
    (effect.apply t).Coherent := by
  cases effect with
  | recordToolCall name params => exact t.modifyLastTurn_coherent h fun _ => rfl
  | recordToolOutcome result => exact t.modifyLastTurn_coherent h (recordToolOutcome_state result)
  | enterAuthMode extension => exact t.enterAuthMode_coherent h extension

end Handlers

/-- One operation on coherent threads. -/
theorem step_coherent_iff (deps : Deps) {s : AgentState} (hs : s.Coherent) (op : Op) :
    (step deps s op).1.Coherent ↔ KeepsCoherent deps s op := by
  cases op with
  | newThread freshId =>
    exact iff_of_true ((coherent_iff_of_put hs freshId rfl).mpr
      (Thread.withId_coherent _ _)) trivial
  | hydrate thread messages responseId => exact hydrate_coherent_iff hs thread messages responseId
  | switchThread target =>
    refine iff_of_true ?_ trivial
    simp only [step, processSwitchThread, Session.switchThread]
    split
    next session h =>
      split at h
      · obtain rfl := Option.some.inj h
        exact hs
      · cases h
    next => exact hs
  | userInput message thread content checks =>
    exact iff_of_true (processUserInput_coherent hs message thread content checks) trivial
  | loopEffect index effect =>
    refine iff_of_true ?_ trivial
    simp only [step]
    split
    · exact coherent_modifyThread hs rfl fun t _ ht => loopEffect_coherent ht effect
    · exact coherent_modifyThread hs rfl fun t _ ht => loopEffect_coherent ht effect
    · exact hs
  | loopDone index result hooks responseId =>
    have hfinish : (s.finish index).Coherent := hs
    simp only [step, KeepsCoherent]
    cases hrunning : s.running[index]? with
    | none => exact iff_of_true hs trivial
    | some r =>
      cases r with
      | turn message thread content turnMessages =>
        exact loopDone_coherent_iff deps hfinish message thread content result hooks responseId
      | tool => exact iff_of_true hs trivial
      | resumed message thread context =>
        exact resumedDone_coherent_iff hfinish thread result responseId
  | approval message thread requestId approved always =>
    exact approval_coherent_iff hs message thread requestId approved always
  | toolDone index result =>
    have hfinish : (s.finish index).Coherent := hs
    simp only [step, KeepsCoherent]
    cases hrunning : s.running[index]? with
    | none => exact iff_of_true hs trivial
    | some r =>
      cases r with
      | turn => exact iff_of_true hs trivial
      | tool message thread pending =>
        exact toolDone_coherent_iff deps hfinish message thread pending result
      | resumed => exact iff_of_true hs trivial
  | undo thread freshId => exact undo_coherent_iff hs thread freshId
  | redo thread freshId => exact redo_coherent_iff hs thread freshId
  | interrupt thread => exact interrupt_coherent_iff hs thread
  | compact thread monitor world =>
    exact iff_of_true (compact_handler_coherent hs thread monitor world) trivial
  | clear thread => exact clear_coherent_iff hs thread
  | resume thread checkpointId => exact resume_coherent_iff hs thread checkpointId
  | authToken thread pending outcome =>
    exact iff_of_true (authToken_coherent hs thread pending outcome) trivial
  | cancelAuth thread =>
    exact iff_of_true (coherent_modifyThread hs rfl fun t _ ht => t.takePendingAuth_coherent ht)
      trivial

/-- The threads are coherent in every state a session reaches, exactly when every operation of the
run keeps them so. -/
theorem threads_coherent_iff_operations_keep (deps : Deps) (sessionId : Uuid) (userId : String)
    (ops : List Op) :
    (∀ p ∈ visited (step deps) (.new sessionId userId) ops, (step deps p.1 p.2).1.Coherent) ↔
      ∀ p ∈ visited (step deps) (.new sessionId userId) ops, KeepsCoherent deps p.1 p.2 :=
  visited_keeps_iff (coherent_new sessionId userId) (fun _ _ h => h)
    (fun _ op hs => step_coherent_iff deps hs op) ops

section LeftBehind

private def echoDeps : Deps where
  serde := ⟨fun _ => "null", fun _ => "null", fun _ => none⟩
  cleanResponse text := text
  validator := .new
  wrapToolOutput _ output := output

private def passedChecks : InputChecks :=
  ⟨[], false, none, ⟨fun _ => none, fun _ => "0.0", fun _ => 0⟩, ⟨.ok "", none⟩, .ofNat 7⟩

private def deleteRequest : PendingApproval :=
  ⟨.ofNat 9, "shell", .object [], "Run a command", "call_1", [.user "clean up"]⟩

/-- A message whose turn asks for an approval. -/
private def askingTurn : List Op :=
  [.newThread (.ofNat 1),
    .userInput ⟨"user", "repl"⟩ (.ofNat 1) "clean up" passedChecks,
    .loopDone 0 (.ok (.needApproval deleteRequest)) [] none]

private def coherenceRun (ops : List Op) : AgentState :=
  (run (step echoDeps) (.new (.ofNat 0) "user") (askingTurn ++ ops)).1

/-- An interrupt leaves the approval behind; a rejection leaves the turn open, and the next turn then
follows an open one; an undo leaves the approval behind, and brings back a message without its
answer as an open turn. -/
theorem approval_and_turn_left_behind :
    ((coherenceRun [.interrupt (.ofNat 1)]).thread? (.ofNat 1)).map
        (fun t => (t.state, t.pendingApproval.isSome)) = some (.interrupted, true) ∧
      ((coherenceRun [.approval ⟨"user", "repl"⟩ (.ofNat 1) none false false]).thread? (.ofNat 1)).map
        (fun t => (t.state, t.turns.map (·.state))) = some (.idle, [.processing]) ∧
      ((coherenceRun [.approval ⟨"user", "repl"⟩ (.ofNat 1) none false false,
          .userInput ⟨"user", "repl"⟩ (.ofNat 1) "again" passedChecks]).thread? (.ofNat 1)).map
        (fun t => (t.state, t.turns.map (·.state))) =
          some (.processing, [.processing, .processing]) ∧
      ((coherenceRun [.undo (.ofNat 1) (.ofNat 8), .redo (.ofNat 1) (.ofNat 10)]).thread?
          (.ofNat 1)).map
        (fun t => (t.state, t.pendingApproval.isSome, t.turns.map (·.state))) =
          some (.idle, true, [.processing]) ∧
      ¬ ∀ ops, (coherenceRun ops).Coherent := by
  refine ⟨by decide +kernel, by decide +kernel, by decide +kernel, by decide +kernel, ?_⟩
  intro h
  have hinterrupt : ((coherenceRun [.interrupt (.ofNat 1)]).thread? (.ofNat 1)).map
      (fun t => (t.state, t.pendingApproval.isSome)) = some (.interrupted, true) := by
    decide +kernel
  obtain ⟨t, ht, heq⟩ := Option.map_eq_some_iff.mp hinterrupt
  obtain ⟨hstate, hpending⟩ := Prod.mk.inj heq
  have hawaiting := (h [.interrupt (.ofNat 1)] _ t ht).approval.mp hpending
  rw [hstate] at hawaiting
  cases hawaiting

end LeftBehind

end Gyre.Agent
