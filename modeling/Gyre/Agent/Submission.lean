/- digest: Messages as submissions: what a text is parsed into, what meets it before its handler, and approvals. -/

import Gyre.Agent.ApprovalSafety
import Gyre.Agent.Dispatcher
import Gyre.Lib.Logs

/-!
`handle_message` is one step up to where its handler waits; the rest of the handler follows later, as in
`ThreadOps`. What the message meets on its way (the hooks, the thread it is resolved to, the credential
store, the answers of commands that leave the session alone) comes with it.
-/

set_option autoImplicit false
set_option relaxedAutoImplicit false

namespace Gyre.Agent

open Gyre.Llm Gyre.Hooks Gyre.Lib

inductive Submission where
  | userInput (content : String)
  | execApproval (requestId : Uuid) (approved always : Bool)
  | approvalResponse (approved always : Bool)
  | interrupt
  | compact
  | undo
  | redo
  | resume (checkpointId : Uuid)
  | clear
  | switchThread (threadId : Uuid)
  | newThread
  | heartbeat
  | summarize
  | suggest
  | quit
  | systemCommand (command : String) (args : List String)
  deriving DecidableEq, Repr

/-- What parsing rests on: the string functions of the standard library, and the readers of identifiers and
of a submission in JSON. -/
structure Formats where
  trim : String → String
  toLowercase : String → String
  splitWhitespace : String → List String
  parseUuid : String → Option Uuid
  readSubmission : String → Option Submission

namespace Submission

/-- The commands that are recognised by their whole text. -/
def commands : List (List String × Submission) :=
  [(["/undo"], .undo), (["/redo"], .redo), (["/interrupt", "/stop"], .interrupt), (["/compact"], .compact),
    (["/clear"], .clear), (["/heartbeat"], .heartbeat), (["/summarize", "/summary"], .summarize),
    (["/suggest"], .suggest), (["/thread new", "/new"], .newThread),
    (["/help", "/?"], .systemCommand "help" []), (["/version"], .systemCommand "version" []),
    (["/tools"], .systemCommand "tools" []), (["/ping"], .systemCommand "ping" []),
    (["/debug"], .systemCommand "debug" [])]

def stripPrefix (start text : String) : Option String :=
  if start.toList.isPrefixOf text.toList then some (String.ofList (text.toList.drop start.length)) else none

/-- `/thread <uuid>`. -/
def switchCommand (f : Formats) (lower : String) : Option Submission :=
  match stripPrefix "/thread " lower with
  | none => none
  | some rest => if f.trim rest = "new" then none else (f.parseUuid (f.trim rest)).map .switchThread

/-- `/resume <uuid>`. -/
def resumeCommand (f : Formats) (lower : String) : Option Submission :=
  match stripPrefix "/resume " lower with
  | none => none
  | some rest => (f.parseUuid (f.trim rest)).map .resume

/-- The approval that the web gateway sends. -/
def approvalJson (f : Formats) (trimmed : String) : Option Submission :=
  if trimmed.toList.head? = some '\x7b' then
    match f.readSubmission trimmed with
    | some (.execApproval requestId approved always) => some (.execApproval requestId approved always)
    | _ => none
  else none

/-- The words that answer an approval request. -/
def approvalWord (lower : String) : Option Submission :=
  if lower ∈ ["yes", "y", "approve", "ok"] then some (.approvalResponse true false)
  else if lower ∈ ["always", "yes always", "approve always"] then some (.approvalResponse true true)
  else if lower ∈ ["no", "n", "deny", "reject", "cancel"] then some (.approvalResponse false false)
  else none

/-- `SubmissionParser::parse`. -/
def parse (f : Formats) (content : String) : Submission :=
  let trimmed := f.trim content
  let lower := f.toLowercase trimmed
  match commands.find? fun command => command.1.contains lower with
  | some command => command.2
  | none =>
    if (stripPrefix "/model" lower).isSome then .systemCommand "model" ((f.splitWhitespace trimmed).drop 1)
    else if lower ∈ ["/quit", "/exit", "/shutdown"] then .quit
    else
      match switchCommand f lower with
      | some submission => submission
      | none =>
        match resumeCommand f lower with
        | some submission => submission
        | none =>
          match approvalJson f trimmed with
          | some submission => submission
          | none => (approvalWord lower).getD (.userInput content)

/-- A submission that lets the tool run which the request is about, or the one that is pending. -/
def Assents (requestId : Option Uuid) : Submission → Prop
  | .execApproval id approved _ => approved = true ∧ requestId = some id
  | .approvalResponse approved _ => approved = true ∧ requestId = none
  | _ => False

end Submission

/-- A text that lets a tool run: one of seven words, or the JSON of an approval that names the request. -/
def SaysYes (f : Formats) (content : String) : Option Uuid → Prop
  | none => f.toLowercase (f.trim content) ∈
      ["yes", "y", "approve", "ok", "always", "yes always", "approve always"]
  | some requestId => (f.trim content).toList.head? = some '\x7b' ∧
      ∃ always, f.readSubmission (f.trim content) = some (.execApproval requestId true always)

/-- A message, and what it meets: the hooks, the thread it is resolved to with its stored conversation, the
credential store's answer, the reply of a command that leaves the session alone, and what handlers need. -/
structure Inbound where
  message : IncomingMessage
  threadId : Option String
  content : String
  hooks : HookRegistry
  thread : Uuid
  history : List ChatMessage
  responseId : Option String
  auth : AuthOutcome
  answer : Reply
  checks : InputChecks
  freshId : Uuid
  monitor : ContextMonitor
  compaction : CompactionWorld

namespace Inbound

/-- The submission after the `BeforeInbound` hooks, which see user input alone; or the text that a message
is turned away with. -/
def submission (f : Formats) (serde : Serde) (m : Inbound) : Except String Submission :=
  match Submission.parse f m.content with
  | .userInput content =>
    match Hooks.run serde m.hooks (.inbound m.message.userId m.message.channel content m.threadId) with
    | .error (.rejected reason) => .error s!"[Message rejected: {reason}]"
    | .error err => .error s!"[Message blocked by hook policy: {err.display}]"
    | .ok (.proceed (some modified)) => .ok (.userInput modified)
    | .ok _ => .ok (.userInput content)
  | submission => .ok submission

/-- The handler of a submission. -/
def dispatch (s : AgentState) (m : Inbound) : Submission → AgentState × List Event
  | .userInput content => processUserInput s m.message m.thread content m.checks
  | .undo => processUndo s m.thread m.freshId
  | .redo => processRedo s m.thread m.freshId
  | .interrupt => processInterrupt s m.thread
  | .compact => processCompact s m.thread m.monitor m.compaction
  | .clear => processClear s m.thread
  | .newThread => processNewThread s m.freshId
  | .switchThread target => processSwitchThread s target
  | .resume checkpointId => processResume s m.thread checkpointId
  | .execApproval requestId approved always =>
    processApproval s m.message m.thread (some requestId) approved always
  | .approvalResponse approved always => processApproval s m.message m.thread none approved always
  | .quit => (s, [])
  | .systemCommand .. | .heartbeat | .summarize | .suggest => (s, [.replied m.answer])

/-- Auth mode: user input is a token for the credential store, anything else ends the mode. -/
def intercept (s : AgentState) (m : Inbound) (submission : Submission) : AgentState × List Event :=
  match (s.thread? m.thread).bind (·.pendingAuth) with
  | none => dispatch s m submission
  | some pending =>
    match submission with
    | .userInput _ => processAuthToken s m.thread pending m.auth
    | submission =>
      dispatch { s with session := s.session.modifyThread m.thread Thread.takePendingAuth } m submission

/-- `handle_message`. -/
def handle (f : Formats) (deps : Deps) (s : AgentState) (m : Inbound) : AgentState × List Event :=
  match m.submission f deps.serde with
  | .error text => (s, [.replied (.result (.response text))])
  | .ok submission =>
    let hydrated := hydrateThread s m.thread m.history m.responseId
    let handled := intercept hydrated.1 m submission
    (handled.1, hydrated.2 ++ handled.2)

end Inbound

/-- How a handler goes on that waits for the model or for a tool. -/
def Op.Resumes : Op → Prop
  | .loopEffect .. | .loopDone .. | .toolDone .. => True
  | _ => False

inductive LoopInput where
  | message (m : Inbound)
  | resumed (o : Op) (h : o.Resumes)

/-- The message loop; every event is noted with what it comes from. -/
def loopTurn (f : Formats) (deps : Deps) (s : AgentState) (input : LoopInput) :
    AgentState × List (LoopInput × Event) :=
  let next :=
    match input with
    | .message m => m.handle f deps s
    | .resumed o _ => step deps s o
  (next.1, next.2.map fun e => (input, e))

section Words

variable {f : Formats} {requestId : Option Uuid}

private theorem command_refuses {command : List String × Submission} (h : command ∈ Submission.commands) :
    ¬ command.2.Assents requestId := by
  intro hassents
  simp only [Submission.commands, List.mem_cons, List.not_mem_nil, or_false] at h
  rcases h with rfl | rfl | rfl | rfl | rfl | rfl | rfl | rfl | rfl | rfl | rfl | rfl | rfl | rfl
  all_goals exact hassents

private theorem switchCommand_refuses {lower : String} {submission : Submission}
    (h : Submission.switchCommand f lower = some submission) : ¬ submission.Assents requestId := by
  unfold Submission.switchCommand at h
  split at h
  · cases h
  split at h
  · cases h
  obtain ⟨target, -, rfl⟩ := Option.map_eq_some_iff.mp h
  exact not_false

private theorem resumeCommand_refuses {lower : String} {submission : Submission}
    (h : Submission.resumeCommand f lower = some submission) : ¬ submission.Assents requestId := by
  unfold Submission.resumeCommand at h
  split at h
  · cases h
  obtain ⟨checkpoint, -, rfl⟩ := Option.map_eq_some_iff.mp h
  exact not_false

private theorem approvalJson_cases {trimmed : String} {submission : Submission}
    (h : Submission.approvalJson f trimmed = some submission) :
    trimmed.toList.head? = some '\x7b' ∧ f.readSubmission trimmed = some submission ∧
      ∃ id approved always, submission = .execApproval id approved always := by
  unfold Submission.approvalJson at h
  split at h
  · next hbrace =>
    split at h
    · next id approved always hread =>
      cases h
      exact ⟨hbrace, hread, id, approved, always, rfl⟩
    · cases h
  · cases h

private theorem approvalWord_cases {lower content : String}
    (h : ((Submission.approvalWord lower).getD (.userInput content)).Assents requestId) :
    requestId = none ∧ lower ∈ ["yes", "y", "approve", "ok", "always", "yes always", "approve always"] := by
  unfold Submission.approvalWord at h
  split at h
  · next hyes =>
    exact ⟨h.2, List.mem_append_left ["always", "yes always", "approve always"] hyes⟩
  split at h
  · next halways =>
    exact ⟨h.2, List.mem_append_right ["yes", "y", "approve", "ok"] halways⟩
  split at h
  · cases h.1
  · exact h.elim

/-- Only a text that says so is parsed into an assent. -/
theorem saysYes_of_parse {content : String} (h : (Submission.parse f content).Assents requestId) :
    SaysYes f content requestId := by
  unfold Submission.parse at h
  dsimp only at h
  split at h
  · next command hfound => exact absurd h (command_refuses (List.mem_of_find?_eq_some hfound))
  split at h
  · exact h.elim
  split at h
  · exact h.elim
  split at h
  · next submission hswitch => exact absurd h (switchCommand_refuses hswitch)
  split at h
  · next submission hresume => exact absurd h (resumeCommand_refuses hresume)
  split at h
  · next submission hjson =>
    obtain ⟨hbrace, hread, id, approved, always, rfl⟩ := approvalJson_cases hjson
    obtain ⟨rfl, rfl⟩ := h
    exact ⟨hbrace, always, hread⟩
  · obtain ⟨rfl, hword⟩ := approvalWord_cases h
    exact hword

/-- No hook makes an assent of anything else. -/
theorem parse_of_assents {serde : Serde} {m : Inbound} {submission : Submission}
    (h : m.submission f serde = .ok submission) (hassents : submission.Assents requestId) :
    Submission.parse f m.content = submission := by
  unfold Inbound.submission at h
  split at h
  · split at h
    · cases h
    · cases h
    · cases h
      exact hassents.elim
    · cases h
      exact hassents.elim
  · cases h
    rfl

end Words

section Operations

variable {deps : Deps} {s : AgentState} {m : Inbound} {submission : Submission} {o : Op}
  {log : List Event} {thread addressed : Uuid} {pending : PendingApproval} {requestId : Option Uuid}

/-- The operation on the session that a submission comes to, if it comes to one. -/
def Inbound.operation (m : Inbound) : Submission → Option Op
  | .userInput content => some (.userInput m.message m.thread content m.checks)
  | .undo => some (.undo m.thread m.freshId)
  | .redo => some (.redo m.thread m.freshId)
  | .interrupt => some (.interrupt m.thread)
  | .compact => some (.compact m.thread m.monitor m.compaction)
  | .clear => some (.clear m.thread)
  | .newThread => some (.newThread m.freshId)
  | .switchThread target => some (.switchThread target)
  | .resume checkpointId => some (.resume m.thread checkpointId)
  | .execApproval requestId approved always =>
    some (.approval m.message m.thread (some requestId) approved always)
  | .approvalResponse approved always => some (.approval m.message m.thread none approved always)
  | .quit | .systemCommand .. | .heartbeat | .summarize | .suggest => none

theorem dispatch_of_operation (h : m.operation submission = some o) :
    m.dispatch s submission = step deps s o := by
  cases submission <;> cases h <;> rfl

theorem dispatch_of_none (h : m.operation submission = none) :
    (m.dispatch s submission).1 = s ∧ ∀ e ∈ (m.dispatch s submission).2, ∃ reply, e = .replied reply := by
  cases submission with
  | quit => exact ⟨rfl, fun e he => by cases he⟩
  | systemCommand | heartbeat | summarize | suggest =>
    exact ⟨rfl, fun e he => ⟨m.answer, List.mem_singleton.mp he⟩⟩
  | _ => cases h

def Event.isExecution : Event → Bool
  | .toolExecuted .. => true
  | _ => false

def Op.isApproval : Op → Bool
  | .approval .. => true
  | _ => false

/-- Whatever is not an approval executes nothing. -/
private theorem quiet_step (deps : Deps) (s : AgentState) {o : Op} (h : o.isApproval = false) :
    (step deps s o).2.any Event.isExecution = false := by
  cases o with
  | approval => cases h
  | newThread | authToken | cancelAuth => rfl
  | loopEffect =>
    unfold step
    dsimp only
    split <;> rfl
  | hydrate =>
    unfold step hydrateThread
    dsimp only
    split <;> rfl
  | switchThread =>
    unfold step processSwitchThread
    dsimp only
    split <;> rfl
  | userInput =>
    unfold step processUserInput
    dsimp only
    (repeat' split) <;> rfl
  | loopDone =>
    unfold step processUserInputLoopDone processApprovalLoopDone
    dsimp only
    (repeat' split) <;> rfl
  | toolDone =>
    unfold step processApprovalToolDone
    dsimp only
    (repeat' split) <;> rfl
  | undo =>
    unfold step processUndo
    dsimp only
    (repeat' split) <;> rfl
  | redo =>
    unfold step processRedo
    dsimp only
    (repeat' split) <;> rfl
  | interrupt =>
    unfold step processInterrupt
    dsimp only
    (repeat' split) <;> rfl
  | compact =>
    unfold step processCompact
    dsimp only
    (repeat' split) <;> rfl
  | clear =>
    unfold step processClear
    dsimp only
    (repeat' split) <;> rfl
  | resume =>
    unfold step processResume
    dsimp only
    (repeat' split) <;> rfl

/-- A tool is executed by the operation that approves it alone. -/
theorem approval_of_executed
    (h : Event.toolExecuted thread pending addressed requestId ∈ (step deps s o).2) :
    ∃ message always, o = .approval message addressed requestId true always := by
  by_cases happroves : o.isApproval = true
  · cases o with
    | approval message thread' requestId' approved always =>
      change _ ∈ (processApproval s message thread' requestId' approved always).2 at h
      unfold processApproval at h
      split at h
      · simp [noPendingApproval, replyError] at h
      · simp [replyError] at h
      split at h
      · simp at h
      split at h
      · simp [noPendingApproval, replyError] at h
      split at h
      · simp [noPendingApproval, replyError] at h
      dsimp only at h
      split at h
      · simp [replyError] at h
      split at h
      · next happroved =>
        simp only [List.mem_singleton, Event.toolExecuted.injEq] at h
        obtain ⟨-, -, rfl, rfl⟩ := h
        exact ⟨message, always, by rw [happroved]⟩
      · simp at h
    | _ => cases happroves
  · have hexecutes : (step deps s o).2.any Event.isExecution = true := List.any_eq_true.mpr ⟨_, h, rfl⟩
    rw [quiet_step deps s (Bool.eq_false_iff.mpr happroves)] at hexecutes
    cases hexecutes

/-- A submission that has a tool executed assents to it, and answers in the thread it came to. -/
theorem assents_of_executed (deps : Deps)
    (h : Event.toolExecuted thread pending addressed requestId ∈ (m.dispatch s submission).2) :
    submission.Assents requestId ∧ addressed = m.thread := by
  cases hoperation : m.operation submission with
  | none =>
    obtain ⟨reply, hreply⟩ := (dispatch_of_none hoperation).2 _ h
    cases hreply
  | some o =>
    rw [@dispatch_of_operation deps s m submission o hoperation] at h
    obtain ⟨message, always, rfl⟩ := approval_of_executed h
    cases submission <;> cases hoperation
    · exact ⟨⟨rfl, rfl⟩, rfl⟩
    · exact ⟨⟨rfl, rfl⟩, rfl⟩

private theorem intercept_executed (deps : Deps)
    (h : Event.toolExecuted thread pending addressed requestId ∈ (m.intercept s submission).2) :
    submission.Assents requestId ∧ addressed = m.thread := by
  unfold Inbound.intercept at h
  split at h
  · exact assents_of_executed deps h
  split at h
  · simp [processAuthToken] at h
  · exact assents_of_executed deps h

/-- A message that has a tool executed says so in its text. -/
theorem saysYes_of_executed {f : Formats}
    (h : Event.toolExecuted thread pending addressed requestId ∈ (m.handle f deps s).2) :
    SaysYes f m.content requestId ∧ addressed = m.thread := by
  unfold Inbound.handle at h
  split at h
  · simp at h
  · next submission hsubmission =>
    rcases List.mem_append.mp h with hhydrated | hhandled
    · obtain ⟨message, always, ho⟩ := @approval_of_executed deps s
        (.hydrate m.thread m.history m.responseId) _ _ _ _ hhydrated
      cases ho
    · obtain ⟨hassents, haddressed⟩ := intercept_executed deps hhandled
      have hparse := parse_of_assents hsubmission hassents
      exact ⟨saysYes_of_parse (hparse ▸ hassents), haddressed⟩

private theorem safe_said {said : List Event} (h : Safe s log)
    (hsaid : ∀ e ∈ said, ∃ reply, e = .replied reply) : Safe s (log ++ said) := by
  have hnone : approvalMoves said = [] := by
    refine List.filterMap_eq_nil_iff.mpr fun e he => ?_
    obtain ⟨reply, rfl⟩ := hsaid e he
    rfl
  have hmoves : approvalMoves (log ++ said) = approvalMoves log := by
    rw [approvalMoves, List.filterMap_append]
    exact (congrArg _ hnone).trans (List.append_nil _)
  refine ⟨h.keyed, hmoves ▸ h.held, hmoves ▸ h.valid, fun e he => ?_⟩
  rcases List.mem_append.mp he with hbefore | hnow
  · exact h.named e hbefore
  · obtain ⟨reply, rfl⟩ := hsaid e hnow
    trivial

private theorem safe_dispatch (deps : Deps) (h : Safe s log) (m : Inbound) (submission : Submission) :
    Safe (m.dispatch s submission).1 (log ++ (m.dispatch s submission).2) := by
  cases hoperation : m.operation submission with
  | none =>
    obtain ⟨hstate, hsaid⟩ := @dispatch_of_none s m submission hoperation
    rw [hstate]
    exact safe_said h hsaid
  | some o =>
    rw [@dispatch_of_operation deps s m submission o hoperation]
    exact safe_step deps h o

private theorem safe_intercept (deps : Deps) (h : Safe s log) (m : Inbound) (submission : Submission) :
    Safe (m.intercept s submission).1 (log ++ (m.intercept s submission).2) := by
  unfold Inbound.intercept
  split
  · exact safe_dispatch deps h m submission
  · next pending hpending =>
    split
    · exact safe_step deps h (.authToken m.thread pending m.auth)
    · have hcancelled := safe_step deps h (.cancelAuth m.thread)
      rw [show (step deps s (.cancelAuth m.thread)).2 = [] from rfl, List.append_nil] at hcancelled
      exact safe_dispatch deps hcancelled m submission

/-- A message keeps the log to the approvals that are held. -/
theorem safe_handle (f : Formats) (deps : Deps) (h : Safe s log) (m : Inbound) :
    Safe (m.handle f deps s).1 (log ++ (m.handle f deps s).2) := by
  unfold Inbound.handle
  split
  · exact safe_said h fun e he => ⟨_, List.mem_singleton.mp he⟩
  · next submission hsubmission =>
    have hhydrated := safe_step deps h (.hydrate m.thread m.history m.responseId)
    have hhandled := safe_intercept deps hhydrated m submission
    rw [List.append_assoc] at hhandled
    exact hhandled

private theorem noted_events (f : Formats) (deps : Deps) (s : AgentState) (input : LoopInput) :
    (loopTurn f deps s input).2.map Prod.snd =
      match input with
      | .message m => (m.handle f deps s).2
      | .resumed o _ => (step deps s o).2 := by
  unfold loopTurn
  rw [List.map_map]
  cases input <;> exact List.map_id _

private theorem safe_turn (f : Formats) (deps : Deps) (input : LoopInput) (h : Safe s log) :
    Safe (loopTurn f deps s input).1 (log ++ (loopTurn f deps s input).2.map Prod.snd) := by
  rw [noted_events]
  cases input with
  | message m => exact safe_handle f deps h m
  | resumed o ho => exact safe_step deps h o

end Operations

/-- What is so wherever a tool is executed: a message has come to the thread it is addressed to which says
yes to it, and the request it answers is the last thing that happened to the approval of the tool's thread;
from another thread only an answer that names the request will do. -/
def OnAssent (f : Formats) (before : List (LoopInput × Event)) (entry : LoopInput × Event) : Prop :=
  ∀ thread pending addressed requestId, entry.2 = .toolExecuted thread pending addressed requestId →
    (∃ m, entry.1 = .message m ∧ m.thread = addressed ∧ SaysYes f m.content requestId) ∧
      (addressed ≠ thread → requestId = some pending.requestId) ∧
        ∃ older newer, before.map Prod.snd = older ++ .approvalAwaited thread pending :: newer ∧
          ∀ e ∈ newer, e.settles ≠ some thread

end Gyre.Agent
