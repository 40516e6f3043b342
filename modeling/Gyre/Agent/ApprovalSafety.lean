/- digest: An approved tool runs once, for the latest open request of its thread, in every run. -/

import Gyre.Agent.ThreadOps
import Gyre.Lib.Grants
import Gyre.Lib.Runs

/-!
The pending approvals of a session are one-shot grants, one for each thread. A thread holds its
grant only while it awaits approval: the request that an interrupt, an undo or a clear leaves on the
thread is no longer held, and every handler refines a move of the grants.
-/

set_option autoImplicit false
set_option relaxedAutoImplicit false

namespace Gyre.Agent

open Gyre.Llm Gyre.Lib
open Gyre.Lib.Grants (Move)

/-- The approval a thread can still be given. -/
def Thread.heldApproval (t : Thread) : Option PendingApproval :=
  if t.state = .awaitingApproval then t.pendingApproval else none

/-- The approvals of a session that can still be given. -/
def AgentState.heldApprovals (s : AgentState) (thread : Uuid) : Option PendingApproval :=
  (s.thread? thread).bind Thread.heldApproval

/-- What an event does to the approval of a thread. -/
def approvalMove : Event → Option (Move Uuid PendingApproval)
  | .approvalAwaited thread pending => some (.ask thread pending)
  | .toolExecuted thread pending _ _ => some (.use thread pending)
  | .threadCreated thread | .turnStarted thread _ | .turnCompleted thread _ _
  | .turnFailed thread _ | .approvalRejected thread _ | .turnInterrupted thread
  | .threadRestored thread | .threadCleared thread => some (.withdraw thread)
  | .responseTransformed .. | .turnPersisted .. | .replied _ => none

def approvalMoves (log : List Event) : List (Move Uuid PendingApproval) :=
  log.filterMap approvalMove

/-- The thread whose approval an event asks for, gives, refuses or makes void. -/
def Event.settles (e : Event) : Option Uuid := (approvalMove e).map Move.key

/-- Whether an event is the execution of an approved tool for a thread's request. -/
def Event.executes (thread : Uuid) (pending : PendingApproval) : Event → Bool
  | .toolExecuted t p _ _ => decide (t = thread ∧ p = pending)
  | _ => false

/-- An answer given on another thread than the one that asked names the request. -/
def Event.Named : Event → Prop
  | .toolExecuted thread pending addressed requestId =>
    addressed ≠ thread → requestId = some pending.requestId
  | _ => True

/-- Every thread is filed under its own identifier. -/
def AgentState.Keyed (s : AgentState) : Prop :=
  ∀ id t, s.thread? id = some t → t.id = id

/-- A handler's outcome refines moves of the grants and keeps the thread table in order. -/
structure Refines (s : AgentState) (r : AgentState × List Event) : Prop where
  keyed : r.1.Keyed
  held : r.1.heldApprovals = Grants.replay s.heldApprovals (approvalMoves r.2)
  valid : Grants.Valid s.heldApprovals (approvalMoves r.2)
  single : (approvalMoves r.2).length ≤ 1
  named : ∀ e ∈ r.2, e.Named

/-- Only an execution has to be named. -/
private theorem named_of_no_use {log : List Event}
    (h : ∀ thread pending, Move.use thread pending ∉ approvalMoves log) :
    ∀ e ∈ log, e.Named := by
  intro e he
  cases e with
  | toolExecuted thread pending addressed requestId =>
    have huse : Move.use thread pending ∈ approvalMoves log :=
      List.mem_filterMap.mpr ⟨_, he, rfl⟩
    exact absurd huse (h thread pending)
  | _ => trivial

section Table

variable {s : AgentState} {r : AgentState × List Event} {thread : Uuid} {t t' : Thread}

private theorem thread?_insert (h : r.1.session.threads = s.session.threads.insert thread t') :
    r.1.thread? = Function.update s.thread? thread (some t') := by
  funext id
  by_cases hid : id = thread
  · subst hid
    simp [AgentState.thread?, Session.thread?, h]
  · rw [Function.update_of_ne hid]
    simp [AgentState.thread?, Session.thread?, h, AList.lookup_insert_ne hid]

private theorem heldApprovals_insert
    (h : r.1.session.threads = s.session.threads.insert thread t') :
    r.1.heldApprovals = Function.update s.heldApprovals thread t'.heldApproval := by
  funext id
  unfold AgentState.heldApprovals
  rw [thread?_insert h]
  by_cases hid : id = thread
  · subst hid
    simp
  · rw [Function.update_of_ne hid, Function.update_of_ne hid]

private theorem keyed_insert (hs : s.Keyed)
    (h : r.1.session.threads = s.session.threads.insert thread t') (hid : t'.id = thread) :
    r.1.Keyed := by
  intro id u hu
  rw [thread?_insert h] at hu
  by_cases he : id = thread
  · subst he
    rw [Function.update_self] at hu
    rw [← Option.some.inj hu]
    exact hid
  · rw [Function.update_of_ne he] at hu
    exact hs id u hu

/-- A handler that leaves the threads alone and settles nothing. -/
private theorem refines_unchanged (hs : s.Keyed) (h : r.1.session.threads = s.session.threads)
    (hm : approvalMoves r.2 = []) : Refines s r := by
  have hthread : r.1.thread? = s.thread? := by
    funext id
    simp [AgentState.thread?, Session.thread?, h]
  refine ⟨?_, ?_, ?_, by simp [hm], named_of_no_use (by simp [hm])⟩
  · intro id u hu
    exact hs id u (hthread ▸ hu)
  · rw [hm]
    funext id
    simp [AgentState.heldApprovals, hthread]
  · rw [hm]
    trivial

/-- A handler that changes a thread without touching its approval. -/
private theorem refines_frame (hs : s.Keyed) (ht : s.thread? thread = some t)
    (h : r.1.session.threads = s.session.threads.insert thread t') (hid : t'.id = t.id)
    (hheld : t'.heldApproval = t.heldApproval) (hm : approvalMoves r.2 = []) : Refines s r := by
  refine ⟨keyed_insert hs h (hid.trans (hs _ _ ht)), ?_, ?_, by simp [hm],
    named_of_no_use (by simp [hm])⟩
  · have hsame : s.heldApprovals thread = t.heldApproval := by
      simp [AgentState.heldApprovals, ht]
    rw [heldApprovals_insert h, hm, hheld, ← hsame, Function.update_eq_self]
    rfl
  · rw [hm]
    trivial

/-- A handler that makes the approval of a thread void. -/
private theorem refines_withdraw (hs : s.Keyed)
    (h : r.1.session.threads = s.session.threads.insert thread t') (hid : t'.id = thread)
    (hheld : t'.heldApproval = none) (hm : approvalMoves r.2 = [.withdraw thread]) :
    Refines s r := by
  refine ⟨keyed_insert hs h hid, ?_, ?_, by simp [hm], named_of_no_use (by simp [hm])⟩
  · rw [heldApprovals_insert h, hm, hheld]
    rfl
  · rw [hm]
    exact ⟨trivial, trivial⟩

/-- A handler that asks for an approval. -/
private theorem refines_ask {pending : PendingApproval} (hs : s.Keyed)
    (h : r.1.session.threads = s.session.threads.insert thread t') (hid : t'.id = thread)
    (hheld : t'.heldApproval = some pending) (hm : approvalMoves r.2 = [.ask thread pending]) :
    Refines s r := by
  refine ⟨keyed_insert hs h hid, ?_, ?_, by simp [hm], named_of_no_use (by simp [hm])⟩
  · rw [heldApprovals_insert h, hm, hheld]
    rfl
  · rw [hm]
    exact ⟨trivial, trivial⟩

/-- A handler that uses the approval a thread holds. -/
private theorem refines_use {pending : PendingApproval} (hs : s.Keyed)
    (ht : s.thread? thread = some t) (hopen : t.heldApproval = some pending)
    (h : r.1.session.threads = s.session.threads.insert thread t') (hid : t'.id = thread)
    (hheld : t'.heldApproval = none) (hm : approvalMoves r.2 = [.use thread pending])
    (hnamed : ∀ e ∈ r.2, e.Named) : Refines s r := by
  refine ⟨keyed_insert hs h hid, ?_, ?_, by simp [hm], hnamed⟩
  · rw [heldApprovals_insert h, hm, hheld]
    rfl
  · rw [hm]
    exact ⟨by simpa [Grants.Allowed, AgentState.heldApprovals, ht] using hopen, trivial⟩

/-- Silent work before a handler's own moves. -/
private theorem Refines.andThen {s' : AgentState} (h : Refines s (s', [])) (hr : Refines s' r) :
    Refines s r := by
  have hheld : s'.heldApprovals = s.heldApprovals := h.held
  exact ⟨hr.keyed, hheld ▸ hr.held, hheld ▸ hr.valid, hr.single, hr.named⟩

end Table

private theorem compact_approval (world : CompactionWorld) (t : Thread)
    (strategy : CompactionStrategy) :
    (compact world t strategy).1.id = t.id ∧
      (compact world t strategy).1.heldApproval = t.heldApproval := by
  obtain ⟨turns, h⟩ := compact_frame world t strategy
  rw [h]
  exact ⟨rfl, rfl⟩

private theorem persistResponseChain_approval (t : Thread) (responseId : Option String) :
    (persistResponseChain t responseId).id = t.id ∧
      (persistResponseChain t responseId).heldApproval = t.heldApproval := by
  cases responseId <;> exact ⟨rfl, rfl⟩

/-- An update that keeps the identifier and the approval of whichever thread it meets. -/
private theorem modifyThread_refines {s : AgentState} {r : AgentState × List Event} {thread : Uuid}
    {f : Thread → Thread} (hs : s.Keyed)
    (h : r.1.session.threads = (s.session.modifyThread thread f).threads)
    (hf : ∀ t, (f t).id = t.id ∧ (f t).heldApproval = t.heldApproval)
    (hm : approvalMoves r.2 = []) : Refines s r := by
  unfold Session.modifyThread at h
  cases ht : s.session.thread? thread with
  | none =>
    rw [ht] at h
    exact refines_unchanged hs h hm
  | some t =>
    rw [ht] at h
    exact refines_frame hs ht h (hf t).1 (hf t).2 hm

section Handlers

variable {s : AgentState}

private theorem processUserInput_refines (hs : s.Keyed) (message : IncomingMessage) (thread : Uuid)
    (content : String) (checks : InputChecks) :
    Refines s (processUserInput s message thread content checks) := by
  unfold processUserInput
  split
  · exact refines_unchanged hs rfl rfl
  next t ht =>
    split
    · exact refines_unchanged hs rfl rfl
    · exact refines_unchanged hs rfl rfl
    · exact refines_unchanged hs rfl rfl
    all_goals
      split
      · exact refines_unchanged hs rfl rfl
      split
      · exact refines_unchanged hs rfl rfl
      split
      · exact refines_unchanged hs rfl rfl
      · refine refines_withdraw hs rfl ?_ rfl rfl
        change (autoCompact checks t).id = thread
        unfold autoCompact
        split
        · exact (compact_approval _ _ _).1.trans (hs _ _ ht)
        · exact hs _ _ ht

private theorem processUserInputLoopDone_refines (hs : s.Keyed) (deps : Deps)
    (message : IncomingMessage) (thread : Uuid) (content : String)
    (result : Except String AgenticLoopResult) (hooks : Hooks.HookRegistry)
    (responseId : Option String) :
    Refines s
      (processUserInputLoopDone deps s message thread content result hooks responseId) := by
  unfold processUserInputLoopDone
  split
  · exact refines_unchanged hs rfl rfl
  next t ht =>
    split
    · exact refines_unchanged hs rfl rfl
    · have hid : t.id = thread := hs _ _ ht
      split
      · exact refines_withdraw hs rfl ((persistResponseChain_approval _ _).1.trans hid)
          (persistResponseChain_approval _ _).2 rfl
      · exact refines_ask hs rfl hid rfl rfl
      · exact refines_withdraw hs rfl hid rfl rfl

private theorem processApprovalLoopDone_refines (hs : s.Keyed) (thread : Uuid)
    (result : Except String AgenticLoopResult) (responseId : Option String) :
    Refines s (processApprovalLoopDone s thread result responseId) := by
  unfold processApprovalLoopDone
  split
  · exact refines_unchanged hs rfl rfl
  next t ht =>
    have hid : t.id = thread := hs _ _ ht
    split
    · exact refines_withdraw hs rfl ((persistResponseChain_approval _ _).1.trans hid)
        (persistResponseChain_approval _ _).2 rfl
    · exact refines_ask hs rfl hid rfl rfl
    · exact refines_withdraw hs rfl hid rfl rfl

private theorem processApprovalToolDone_refines (hs : s.Keyed) (deps : Deps)
    (message : IncomingMessage) (thread : Uuid) (pending : PendingApproval)
    (result : Except String String) :
    Refines s (processApprovalToolDone deps s message thread pending result) := by
  let session := s.session.modifyThread thread (·.modifyLastTurn (recordToolOutcome result))
  have hrecord : Refines s (⟨session, s.undo, s.running⟩, []) :=
    modifyThread_refines hs rfl (fun t => ⟨rfl, rfl⟩) rfl
  refine hrecord.andThen ?_
  unfold processApprovalToolDone
  have hrec := hrecord.keyed
  dsimp only
  split
  · split
    next t ht =>
      have hid : t.id = thread := hrec thread t ht
      refine refines_withdraw hrec rfl hid rfl rfl
    · exact refines_unchanged hrec rfl rfl
  · exact refines_unchanged hrec rfl rfl

/-- The thread an answer is resolved to holds an approval it fits, and an answer from elsewhere
carries a request id. -/
private theorem resolveApprovalThread_found (hs : s.Keyed) {addressed thread : Uuid}
    {requestId : Option Uuid}
    (h : s.session.resolveApprovalThread addressed requestId = .found thread) :
    ∃ t, s.thread? thread = some t ∧ Session.holdsApproval requestId t = true ∧
      (addressed ≠ thread → requestId.isSome) := by
  unfold Session.resolveApprovalThread at h
  split at h
  next hholds =>
    cases h
    obtain ⟨t, ht, hh⟩ := Option.any_eq_true _ _ |>.mp hholds
    exact ⟨t, ht, hh, fun hne => absurd rfl hne⟩
  · cases requestId with
    | none => cases h
    | some rid =>
      dsimp only at h
      split at h
      next only honly =>
        cases h
        have hmem : thread ∈ (s.session.threads.entries.filter fun e =>
            Session.holdsApproval (some rid) e.2).map (·.2.id) := by
          rw [honly]
          exact List.mem_singleton_self _
        obtain ⟨e, he, rfl⟩ := List.mem_map.mp hmem
        obtain ⟨he, hh⟩ := List.mem_filter.mp he
        have hlookup : s.thread? e.1 = some e.2 := AList.mem_lookup_iff.mpr he
        rw [hs e.1 e.2 hlookup]
        exact ⟨e.2, hlookup, hh, fun _ => rfl⟩
      · cases h
      · cases h

/-- What it means that a thread holds the approval an answer is for. -/
private theorem holdsApproval_iff {requestId : Option Uuid} {t : Thread} :
    Session.holdsApproval requestId t = true ↔
      ∃ pending, t.heldApproval = some pending ∧ ∀ rid ∈ requestId, pending.requestId = rid := by
  unfold Session.holdsApproval Thread.heldApproval
  by_cases hstate : t.state = .awaitingApproval
  · cases hp : t.pendingApproval <;> cases requestId <;> simp [hstate]
  · simp [hstate]

private theorem heldApproval_eq_some {t : Thread} {pending : PendingApproval} :
    t.heldApproval = some pending ↔
      t.state = .awaitingApproval ∧ t.pendingApproval = some pending := by
  unfold Thread.heldApproval
  by_cases hstate : t.state = .awaitingApproval <;> simp [hstate]

private theorem processApproval_refines (hs : s.Keyed) (message : IncomingMessage)
    (addressed : Uuid) (requestId : Option Uuid) (approved always : Bool) :
    Refines s (processApproval s message addressed requestId approved always) := by
  unfold processApproval
  split
  · exact refines_unchanged hs rfl rfl
  · exact refines_unchanged hs rfl rfl
  next thread hfound =>
    obtain ⟨t, ht, hholds, hother⟩ := resolveApprovalThread_found hs hfound
    obtain ⟨pending, hheld, hrid⟩ := holdsApproval_iff.mp hholds
    obtain ⟨hstate, hpending⟩ := heldApproval_eq_some.mp hheld
    have hid : t.id = thread := hs thread t ht
    -- the put-back branch is dead: resolution has compared the request ids already
    have hmatch : requestId.any (fun id => decide (id ≠ pending.requestId)) = false := by
      cases requestId with
      | none => rfl
      | some rid => simp [hrid rid rfl]
    simp only [ht, hstate, hpending, hmatch]
    cases approved with
    | true =>
      have hnamed : (Event.toolExecuted thread pending addressed requestId).Named := by
        intro hne
        obtain ⟨rid, rfl⟩ := Option.isSome_iff_exists.mp (hother hne)
        rw [hrid rid rfl]
      cases always <;>
        exact refines_use hs ht hheld rfl hid rfl rfl
          (fun e he => List.mem_singleton.mp he ▸ hnamed)
    | false => exact refines_withdraw hs rfl hid rfl rfl

private theorem restore_held (t : Thread) (messages : List ChatMessage) :
    (t.restoreFromMessages messages).heldApproval = none := rfl

private theorem processUndo_refines (hs : s.Keyed) (thread freshId : Uuid) :
    Refines s (processUndo s thread freshId) := by
  unfold processUndo
  dsimp only
  split
  · exact refines_unchanged hs rfl rfl
  · split
    · exact refines_unchanged hs rfl rfl
    next t ht =>
      have hid : t.id = thread := hs thread t ht
      split
      · exact refines_withdraw hs rfl hid rfl rfl
      · exact refines_unchanged hs rfl rfl

private theorem processRedo_refines (hs : s.Keyed) (thread freshId : Uuid) :
    Refines s (processRedo s thread freshId) := by
  unfold processRedo
  dsimp only
  split
  · exact refines_unchanged hs rfl rfl
  · split
    · exact refines_unchanged hs rfl rfl
    next t ht =>
      have hid : t.id = thread := hs thread t ht
      split
      · exact refines_withdraw hs rfl hid rfl rfl
      · exact refines_unchanged hs rfl rfl

private theorem processInterrupt_refines (hs : s.Keyed) (thread : Uuid) :
    Refines s (processInterrupt s thread) := by
  unfold processInterrupt
  split
  · exact refines_unchanged hs rfl rfl
  next t ht =>
    have hid : t.id = thread := hs thread t ht
    split
    · exact refines_withdraw hs rfl hid rfl rfl
    · exact refines_withdraw hs rfl hid rfl rfl
    · exact refines_unchanged hs rfl rfl

private theorem processCompact_refines (hs : s.Keyed) (thread : Uuid) (monitor : ContextMonitor)
    (world : CompactionWorld) : Refines s (processCompact s thread monitor world) := by
  unfold processCompact
  split
  · exact refines_unchanged hs rfl rfl
  next t ht =>
    have happroval := compact_approval world t
      ((monitor.suggestCompaction t.messages).getD (.summarize 5))
    dsimp only
    split
    · exact refines_frame hs ht rfl happroval.1 happroval.2 rfl
    · exact refines_frame hs ht rfl happroval.1 happroval.2 rfl

private theorem processClear_refines (hs : s.Keyed) (thread : Uuid) :
    Refines s (processClear s thread) := by
  unfold processClear
  split
  · exact refines_unchanged hs rfl rfl
  next t ht =>
    have hid : t.id = thread := hs thread t ht
    exact refines_withdraw hs rfl hid rfl rfl

private theorem processResume_refines (hs : s.Keyed) (thread checkpointId : Uuid) :
    Refines s (processResume s thread checkpointId) := by
  unfold processResume
  split
  · dsimp only
    split
    · exact refines_unchanged hs rfl rfl
    next t ht =>
      have hid : t.id = thread := hs thread t ht
      exact refines_withdraw hs rfl hid rfl rfl
  · exact refines_unchanged hs rfl rfl

private theorem processAuthToken_refines (hs : s.Keyed) (thread : Uuid) (pending : PendingAuth)
    (outcome : AuthOutcome) : Refines s (processAuthToken s thread pending outcome) := by
  have hcleared : Refines s
      (⟨s.session.modifyThread thread Thread.takePendingAuth, s.undo, s.running⟩, []) :=
    modifyThread_refines hs rfl (fun t => ⟨rfl, rfl⟩) rfl
  refine hcleared.andThen ?_
  unfold processAuthToken
  cases outcome with
  | invalid instructions =>
    exact modifyThread_refines hcleared.keyed rfl (fun t => ⟨rfl, rfl⟩) rfl
  | _ => exact refines_unchanged hcleared.keyed rfl rfl

private theorem hydrateThread_refines (hs : s.Keyed) (thread : Uuid) (messages : List ChatMessage)
    (responseId : Option String) : Refines s (hydrateThread s thread messages responseId) := by
  unfold hydrateThread
  split
  · exact refines_unchanged hs rfl rfl
  · dsimp only
    refine refines_withdraw hs rfl ?_ ?_ rfl
    · rw [(persistResponseChain_approval _ _).1]
      split <;> rfl
    · rw [(persistResponseChain_approval _ _).2]
      split <;> rfl

private theorem processSwitchThread_refines (hs : s.Keyed) (target : Uuid) :
    Refines s (processSwitchThread s target) := by
  unfold processSwitchThread Session.switchThread
  by_cases h : (s.session.thread? target).isSome
  · simp only [h, if_true]
    exact refines_unchanged hs rfl rfl
  · simp only [h]
    exact refines_unchanged hs rfl rfl

private theorem loopEffect_approval (effect : LoopEffect) (t : Thread) :
    (effect.apply t).id = t.id ∧ (effect.apply t).heldApproval = t.heldApproval := by
  cases effect <;> exact ⟨rfl, rfl⟩

end Handlers

/-- Every operation refines moves of the grants. -/
private theorem step_refines (deps : Deps) (s : AgentState) (hs : s.Keyed) (o : Op) :
    Refines s (step deps s o) := by
  cases o with
  | newThread freshId => exact refines_withdraw hs rfl rfl rfl rfl
  | hydrate thread messages responseId => exact hydrateThread_refines hs thread messages responseId
  | switchThread target => exact processSwitchThread_refines hs target
  | userInput message thread content checks =>
    exact processUserInput_refines hs message thread content checks
  | loopEffect index effect =>
    simp only [step]
    split
    · exact modifyThread_refines hs rfl (loopEffect_approval effect) rfl
    · exact modifyThread_refines hs rfl (loopEffect_approval effect) rfl
    · exact refines_unchanged hs rfl rfl
  | loopDone index result hooks responseId =>
    have hfinish : Refines s (s.finish index, []) := refines_unchanged hs rfl rfl
    simp only [step]
    split
    · exact hfinish.andThen (processUserInputLoopDone_refines hfinish.keyed _ _ _ _ _ _ _)
    · exact hfinish.andThen (processApprovalLoopDone_refines hfinish.keyed _ _ _)
    · exact refines_unchanged hs rfl rfl
  | approval message thread requestId approved always =>
    exact processApproval_refines hs message thread requestId approved always
  | toolDone index result =>
    have hfinish : Refines s (s.finish index, []) := refines_unchanged hs rfl rfl
    simp only [step]
    split
    · exact hfinish.andThen (processApprovalToolDone_refines hfinish.keyed _ _ _ _ _)
    · exact refines_unchanged hs rfl rfl
  | undo thread freshId => exact processUndo_refines hs thread freshId
  | redo thread freshId => exact processRedo_refines hs thread freshId
  | interrupt thread => exact processInterrupt_refines hs thread
  | compact thread monitor world => exact processCompact_refines hs thread monitor world
  | clear thread => exact processClear_refines hs thread
  | resume thread checkpointId => exact processResume_refines hs thread checkpointId
  | authToken thread pending outcome => exact processAuthToken_refines hs thread pending outcome
  | cancelAuth thread => exact modifyThread_refines hs rfl (fun t => ⟨rfl, rfl⟩) rfl

/-- What every run keeps: the log replays to the approvals held, and uses them rightly. -/
structure Safe (s : AgentState) (log : List Event) : Prop where
  keyed : s.Keyed
  held : s.heldApprovals = Grants.replay (fun _ => none) (approvalMoves log)
  valid : Grants.Valid (fun _ => none) (approvalMoves log)
  named : ∀ e ∈ log, e.Named

theorem safe_new (sessionId : Uuid) (userId : String) :
    Safe (AgentState.new sessionId userId) [] where
  keyed id t h := by cases h
  held := rfl
  valid := trivial
  named e he := by cases he

theorem safe_step (deps : Deps) {s : AgentState} {log : List Event} (h : Safe s log)
    (o : Op) : Safe (step deps s o).1 (log ++ (step deps s o).2) := by
  have hr := step_refines deps s h.keyed o
  have hmoves : approvalMoves (log ++ (step deps s o).2) =
      approvalMoves log ++ approvalMoves (step deps s o).2 := List.filterMap_append
  refine ⟨hr.keyed, ?_, ?_, ?_⟩
  · rw [hmoves, Grants.replay_append, ← h.held]
    exact hr.held
  · rw [hmoves, Grants.valid_append, ← h.held]
    exact ⟨h.valid, hr.valid⟩
  · intro e he
    rcases List.mem_append.mp he with he | he
    · exact h.named e he
    · exact hr.named e he

private theorem safe_run (deps : Deps) (sessionId : Uuid) (userId : String) (ops : List Op) :
    Safe (run (step deps) (AgentState.new sessionId userId) ops).1
      (run (step deps) (AgentState.new sessionId userId) ops).2 :=
  run_invariant Safe (safe_new sessionId userId) (fun _ _ o h => safe_step deps h o) ops

private theorem keyed_visited (deps : Deps) (sessionId : Uuid) (userId : String) (ops : List Op) :
    ∀ v ∈ visited (step deps) (AgentState.new sessionId userId) ops, v.1.Keyed :=
  visited_invariant AgentState.Keyed (safe_new sessionId userId).keyed
    (fun s o hs => (step_refines deps s hs o).keyed) ops

/-- An execution uses the approval its thread holds. -/
private theorem held_of_executed {s : AgentState} {r : AgentState × List Event} (h : Refines s r)
    {thread addressed : Uuid} {pending : PendingApproval} {requestId : Option Uuid}
    (he : Event.toolExecuted thread pending addressed requestId ∈ r.2) :
    ∃ t, s.thread? thread = some t ∧ t.state = .awaitingApproval ∧
      t.pendingApproval = some pending := by
  have huse : Move.use thread pending ∈ approvalMoves r.2 := List.mem_filterMap.mpr ⟨_, he, rfl⟩
  have honly : approvalMoves r.2 = [.use thread pending] := by
    obtain ⟨m, hm⟩ := List.length_eq_one_iff.mp
      (Nat.le_antisymm h.single (List.length_pos_of_mem huse))
    rw [hm] at huse ⊢
    rw [List.mem_singleton.mp huse]
  have hheld : s.heldApprovals thread = some pending := (honly ▸ h.valid).1
  obtain ⟨t, ht, hp⟩ := Option.bind_eq_some_iff.mp hheld
  obtain ⟨hstate, hpending⟩ := heldApproval_eq_some.mp hp
  exact ⟨t, ht, hstate, hpending⟩

private theorem eq_ask_of_approvalMove {e : Event} {thread : Uuid} {pending : PendingApproval}
    (h : approvalMove e = some (.ask thread pending)) : e = .approvalAwaited thread pending := by
  cases e with
  | approvalAwaited thread' pending' =>
    cases h
    rfl
  | _ => cases h

/-- The request an execution answers is the last thing that happened to its thread's approval. -/
theorem awaited_of_executed {before after : List Event} {thread addressed : Uuid}
    {pending : PendingApproval} {requestId : Option Uuid}
    (hvalid : Grants.Valid (fun _ => none)
      (approvalMoves (before ++ .toolExecuted thread pending addressed requestId :: after))) :
    ∃ older newer, before = older ++ .approvalAwaited thread pending :: newer ∧
      ∀ e ∈ newer, e.settles ≠ some thread := by
  have hmoves : approvalMoves
      (before ++ .toolExecuted thread pending addressed requestId :: after) =
      approvalMoves before ++ .use thread pending :: approvalMoves after := List.filterMap_append
  obtain ⟨older, newer, hsplit, hnewer⟩ := Grants.use_of_latest_ask hvalid hmoves
  obtain ⟨old, rest, rfl, -, hrest⟩ := List.filterMap_eq_append_iff.mp hsplit
  obtain ⟨skipped, e, new, rfl, hskipped, he, hnew⟩ := List.filterMap_eq_cons_iff.mp hrest
  refine ⟨old ++ skipped, new, ?_, ?_⟩
  · rw [eq_ask_of_approvalMove he]
    simp
  · intro e' he' hsettles
    obtain ⟨m, hm, hkey⟩ := Option.map_eq_some_iff.mp hsettles
    have hmem : m ∈ newer := hnew ▸ List.mem_filterMap.mpr ⟨e', he', hm⟩
    exact hnewer m hmem hkey

private theorem countP_executes (log : List Event) (thread : Uuid) (pending : PendingApproval) :
    log.countP (Event.executes thread pending) =
      (approvalMoves log).count (.use thread pending) := by
  rw [approvalMoves, List.count_filterMap]
  congr 1
  funext e
  rw [Bool.eq_iff_iff]
  cases e <;> simp [approvalMove, Event.executes]

private theorem count_awaited (log : List Event) (thread : Uuid) (pending : PendingApproval) :
    log.count (.approvalAwaited thread pending) =
      (approvalMoves log).count (.ask thread pending) := by
  rw [approvalMoves, List.count_filterMap, List.count]
  congr 1
  funext e
  rw [Bool.eq_iff_iff]
  cases e <;> simp [approvalMove]

/-- In every run of a session, an approved tool is executed only for a thread that awaits approval,
only for the request that thread was asked last and that nothing has settled since, at most once for
each time it was asked, and from another thread only by an answer that names the request. -/
theorem approved_tool_runs_once_for_the_open_request (deps : Deps) (sessionId : Uuid)
    (userId : String) (ops : List Op) :
    (∀ before after thread pending addressed requestId,
      (run (step deps) (AgentState.new sessionId userId) ops).2 =
          before ++ .toolExecuted thread pending addressed requestId :: after →
        (∃ older newer, before = older ++ .approvalAwaited thread pending :: newer ∧
          ∀ e ∈ newer, e.settles ≠ some thread) ∧
        (addressed ≠ thread → requestId = some pending.requestId)) ∧
    (∀ thread pending,
      (run (step deps) (AgentState.new sessionId userId) ops).2.countP
          (Event.executes thread pending) ≤
        (run (step deps) (AgentState.new sessionId userId) ops).2.count
          (.approvalAwaited thread pending)) ∧
    (∀ v ∈ visited (step deps) (AgentState.new sessionId userId) ops,
      ∀ thread pending addressed requestId,
        .toolExecuted thread pending addressed requestId ∈ (step deps v.1 v.2).2 →
          ∃ t, v.1.thread? thread = some t ∧ t.state = .awaitingApproval ∧
            t.pendingApproval = some pending) := by
  have hsafe := safe_run deps sessionId userId ops
  refine ⟨?_, ?_, ?_⟩
  · intro before after thread pending addressed requestId hlog
    refine ⟨awaited_of_executed (hlog ▸ hsafe.valid), ?_⟩
    exact hsafe.named (.toolExecuted thread pending addressed requestId) (by simp [hlog])
  · intro thread pending
    rw [countP_executes, count_awaited]
    exact Grants.count_use_le_ask thread pending _ hsafe.valid
  · intro v hv thread pending addressed requestId he
    exact held_of_executed (step_refines deps v.1 (keyed_visited deps sessionId userId ops v hv) v.2)
      he

end Gyre.Agent
