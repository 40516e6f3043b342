/- digest: Exactly when the four execution paths pass the hook and the approval check. -/

import Gyre.Agent.Dispatcher
import Gyre.Agent.Worker

/-!
The chat loop and the worker decide about approval before the hook may rewrite the parameters; the
resumption after an approval and the scheduler's subtask never run the hook. Each path is described
by one lemma that says what it does when it executes, and the exact condition follows from that.
-/

set_option autoImplicit false
set_option relaxedAutoImplicit false

namespace Gyre.Agent

open Gyre.Llm Gyre.Hooks Gyre.Tools Gyre.Context

/-- A tool call on one of the four paths, with everything it meets there. -/
inductive ToolPath where
  | chat (userId : String) (world : CallWorld) (context : List ChatMessage) (tc : ToolCall)
  | resumed (pending : PendingApproval) (tools : ToolRegistry) (run : ToolRun)
  | worker (jobId : Uuid) (world : JobCallWorld) (toolName : String) (params : Json)
  | subtask (jobId : Uuid) (world : JobCallWorld) (toolName : String) (params : Json)

namespace ToolPath

/-- What the path does. -/
def events (deps : Deps) : ToolPath → List LoopEvent
  | .chat userId world context tc => (chatToolCall deps userId world context tc).2
  | .resumed pending tools run => (resumeApproved deps pending tools run).2
  | .worker jobId world toolName params => (executeToolInner deps jobId world toolName params).2
  | .subtask jobId world toolName params => (executeToolTask deps jobId world toolName params).2

def toolName : ToolPath → String
  | .chat _ _ _ tc => tc.name
  | .resumed pending _ _ => pending.toolName
  | .worker _ _ toolName _ | .subtask _ _ toolName _ => toolName

/-- The parameters the call came with. -/
def params : ToolPath → Json
  | .chat _ _ _ tc => tc.arguments
  | .resumed pending _ _ => pending.parameters
  | .worker _ _ _ params | .subtask _ _ _ params => params

def tool : ToolPath → Option Tool
  | .chat _ world _ tc => world.tools.get tc.name
  | .resumed pending tools _ => tools.get pending.toolName
  | .worker _ world toolName _ | .subtask _ world toolName _ => world.tools.get toolName

/-- Only the resumption follows an explicit answer of the user. -/
def approvedByUser : ToolPath → Bool
  | .resumed .. => true
  | _ => false

/-- Approved in advance: for the session, or by a hook that vouches for the tool. -/
def approvedInAdvance : ToolPath → Bool
  | .chat _ world _ tc =>
    decide (tc.name ∈ world.autoApprovedTools) || isToolTrusted world.hooks tc.name
  | .resumed .. => false
  | .worker _ world toolName _ | .subtask _ world toolName _ => isToolTrusted world.hooks toolName

end ToolPath

/-- Every execution follows a run of the hook on the call that let it pass, uses the parameters the
hook returned, and needs no approval for them or has it. An approval in advance does not reach
parameters that always need the user. -/
def Gated (deps : Deps) (path : ToolPath) : Prop :=
  ∀ before after toolName params,
    path.events deps = before ++ .executed toolName params :: after →
      toolName = path.toolName ∧
      (∃ userId context outcome,
        .hookRan (.toolCall path.toolName path.params userId context) (.ok outcome) ∈ before ∧
          params = hookedParameters deps.serde path.params outcome) ∧
      ∃ tool, path.tool = some tool ∧
        (tool.requiresApproval = false ∨ path.approvedByUser = true ∨
          (path.approvedInAdvance = true ∧ tool.requiresApprovalFor params = false))

/-- On the two paths with a hook, parameters that the hook made need no explicit approval where the
call itself was let through on an approval in advance. On the two paths without, the call does not
get as far as the tool. -/
def PassesGate (deps : Deps) : ToolPath → Prop
  | .chat userId world _ tc =>
    ∀ tool outcome, world.tools.get tc.name = some tool → tool.requiresApproval = true →
      autoApproved world tool tc = true →
      Hooks.run deps.serde world.hooks (.toolCall tc.name tc.arguments userId "chat") =
        .ok outcome →
      ValidParams deps (hookedParameters deps.serde tc.arguments outcome) →
      tool.requiresApprovalFor (hookedParameters deps.serde tc.arguments outcome) = false
  | .resumed pending tools _ =>
    (tools.get pending.toolName).isSome → ¬ ValidParams deps pending.parameters
  | .worker jobId world toolName params =>
    ∀ tool jobContext outcome, world.tools.get toolName = some tool →
      tool.requiresApproval = true → blockedInJob world.hooks tool toolName params = false →
      world.jobContext = some jobContext → jobContext.state ≠ .cancelled →
      Hooks.run deps.serde world.hooks
        (.toolCall toolName params jobContext.userId s!"job:{jobId.toString}") = .ok outcome →
      ValidParams deps (hookedParameters deps.serde params outcome) →
      tool.requiresApprovalFor (hookedParameters deps.serde params outcome) = false
  | .subtask _ world toolName params =>
    ∀ tool jobContext, world.tools.get toolName = some tool →
      world.jobContext = some jobContext → jobContext.state ≠ .cancelled →
      blockedInJob world.hooks tool toolName params = false → ¬ ValidParams deps params

private theorem gated_of_nothing (deps : Deps) (path : ToolPath)
    (h : ExecutesNothing (path.events deps)) : Gated deps path := by
  intro before after toolName params hsplit
  exact absurd (by simp [hsplit]) (h toolName params)

/-- What the worker does with a call. -/
private theorem worker_cases (deps : Deps) (jobId : Uuid) (world : JobCallWorld)
    (toolName : String) (params : Json) :
    (ExecutesNothing (executeToolInner deps jobId world toolName params).2 ∧
      ∀ tool jobContext outcome, world.tools.get toolName = some tool →
        blockedInJob world.hooks tool toolName params = false →
        world.jobContext = some jobContext → jobContext.state ≠ .cancelled →
        Hooks.run deps.serde world.hooks
          (.toolCall toolName params jobContext.userId s!"job:{jobId.toString}") = .ok outcome →
        ¬ ValidParams deps (hookedParameters deps.serde params outcome)) ∨
    ∃ tool jobContext outcome, world.tools.get toolName = some tool ∧
      blockedInJob world.hooks tool toolName params = false ∧
      world.jobContext = some jobContext ∧ jobContext.state ≠ .cancelled ∧
      Hooks.run deps.serde world.hooks
        (.toolCall toolName params jobContext.userId s!"job:{jobId.toString}") = .ok outcome ∧
      ValidParams deps (hookedParameters deps.serde params outcome) ∧
      (executeToolInner deps jobId world toolName params).2 =
        [.hookRan (.toolCall toolName params jobContext.userId s!"job:{jobId.toString}")
            (.ok outcome),
          .executed toolName (hookedParameters deps.serde params outcome)] := by
  unfold executeToolInner
  cases htool : world.tools.get toolName with
  | none => exact Or.inl ⟨by simp [ExecutesNothing], by simp⟩
  | some tool =>
    cases hblocked : blockedInJob world.hooks tool toolName params with
    | true =>
      refine Or.inl ⟨by simp [ExecutesNothing, hblocked], ?_⟩
      intro _ _ _ hsame hfree
      cases hsame
      exact absurd (hfree.symm.trans hblocked) (by simp)
    | false =>
      cases hcontext : world.jobContext with
      | none => exact Or.inl ⟨by simp [ExecutesNothing, hblocked], by simp⟩
      | some jobContext =>
        cases hhook : Hooks.run deps.serde world.hooks
            (.toolCall toolName params jobContext.userId s!"job:{jobId.toString}") with
        | error err =>
          refine Or.inl ⟨?_, ?_⟩
          · cases err <;> simp [ExecutesNothing, hblocked, hhook]
          · intro _ _ _ _ _ hsame _ hok
            cases hsame
            cases hhook.symm.trans hok
        | ok outcome =>
          by_cases hcancelled : jobContext.state = .cancelled
          · refine Or.inl ⟨by simp [ExecutesNothing, hblocked, hhook, hcancelled], ?_⟩
            intro _ _ _ _ _ hsame hne
            cases hsame
            exact absurd hcancelled hne
          · cases hvalid : (deps.validator.validateToolParams
                (hookedParameters deps.serde params outcome)).isValid with
            | false =>
              refine Or.inl ⟨by simp [ExecutesNothing, hblocked, hhook, hcancelled,
                validatedParams, hvalid], ?_⟩
              intro _ _ outcome' _ _ hsame _ hok
              cases hsame
              cases hhook.symm.trans hok
              simp [ValidParams, hvalid]
            | true =>
              exact Or.inr ⟨tool, jobContext, outcome, rfl, hblocked, rfl, hcancelled, hhook,
                hvalid, by simp [hblocked, hhook, hcancelled, validatedParams, hvalid]⟩

/-- What the scheduler does with a subtask. -/
private theorem subtask_cases (deps : Deps) (jobId : Uuid) (world : JobCallWorld)
    (toolName : String) (params : Json) :
    (ExecutesNothing (executeToolTask deps jobId world toolName params).2 ∧
      PassesGate deps (.subtask jobId world toolName params)) ∨
    (¬ PassesGate deps (.subtask jobId world toolName params) ∧
      (executeToolTask deps jobId world toolName params).2 = [.executed toolName params]) := by
  unfold executeToolTask
  cases htool : world.tools.get toolName with
  | none => exact Or.inl ⟨by simp [ExecutesNothing], by simp [PassesGate, htool]⟩
  | some tool =>
    cases hcontext : world.jobContext with
    | none => exact Or.inl ⟨by simp [ExecutesNothing], by simp [PassesGate, hcontext]⟩
    | some jobContext =>
      by_cases hcancelled : jobContext.state = .cancelled
      · refine Or.inl ⟨by simp [ExecutesNothing, hcancelled], ?_⟩
        intro _ _ _ hsame hne
        cases hcontext.symm.trans hsame
        exact absurd hcancelled hne
      · cases hblocked : blockedInJob world.hooks tool toolName params with
        | true =>
          refine Or.inl ⟨by simp [ExecutesNothing, hcancelled, hblocked], ?_⟩
          intro _ _ hsame _ _ hfree
          cases htool.symm.trans hsame
          exact absurd (hfree.symm.trans hblocked) (by simp)
        | false =>
          cases hvalid : (deps.validator.validateToolParams params).isValid with
          | false =>
            refine Or.inl ⟨by simp [ExecutesNothing, hcancelled, hblocked, validatedParams, hvalid],
              ?_⟩
            intro _ _ _ _ _ _
            simp [ValidParams, hvalid]
          | true =>
            refine Or.inr ⟨fun hpass => hpass tool jobContext htool hcontext hcancelled hblocked hvalid,
              ?_⟩
            cases hrun : world.run <;> simp [hcancelled, hblocked, validatedParams, hvalid]

/-- Where the only execution follows one other event, it splits the events there. -/
private theorem split_at_executed {first : LoopEvent} {name toolName : String}
    {given params : Json} {before after : List LoopEvent}
    (hfirst : ∀ n p, first ≠ .executed n p)
    (h : [first, .executed name given] = before ++ .executed toolName params :: after) :
    before = [first] ∧ toolName = name ∧ params = given := by
  rcases before with _ | ⟨b, _ | ⟨c, rest⟩⟩
  · exact absurd (List.cons.inj h).1 (hfirst _ _)
  · simp only [List.cons_append, List.nil_append, List.cons.injEq] at h
    obtain ⟨rfl, hexecuted, -⟩ := h
    cases hexecuted
    exact ⟨rfl, rfl, rfl⟩
  · simp at h

private theorem gated_of_hooked (deps : Deps) (path : ToolPath) {userId context : String}
    {outcome : HookOutcome} {tool : Tool} (htool : path.tool = some tool)
    (hevents : path.events deps =
      [.hookRan (.toolCall path.toolName path.params userId context) (.ok outcome),
        .executed path.toolName (hookedParameters deps.serde path.params outcome)]) :
    Gated deps path ↔
      tool.requiresApproval = false ∨ path.approvedByUser = true ∨
        (path.approvedInAdvance = true ∧
          tool.requiresApprovalFor (hookedParameters deps.serde path.params outcome) = false) := by
  constructor
  · intro h
    obtain ⟨-, -, tool', htool', happroved⟩ := h [_] [] _ _ hevents
    cases htool.symm.trans htool'
    exact happroved
  · intro happroved before after toolName params hsplit
    obtain ⟨rfl, rfl, rfl⟩ := split_at_executed (by simp) (hevents.symm.trans hsplit)
    exact ⟨rfl, ⟨userId, context, outcome, List.mem_singleton_self _, rfl⟩, tool, htool, happroved⟩

private theorem chat_gated_iff (deps : Deps) (userId : String) (world : CallWorld)
    (context : List ChatMessage) (tc : ToolCall) :
    Gated deps (.chat userId world context tc) ↔
      PassesGate deps (.chat userId world context tc) := by
  obtain ⟨hnothing, hstop⟩ | ⟨tool, outcome, htool, hawait, hhook, hvalid, hevents⟩ :=
    chatToolCall_cases deps userId world context tc
  · refine iff_of_true (gated_of_nothing deps (.chat userId world context tc) hnothing) ?_
    intro tool outcome htool hrequires hauto hhook hvalid
    have hawait : awaitsUser world tc = none := by simp [awaitsUser, htool, hauto]
    exact absurd hvalid (hstop tool outcome htool hawait hhook)
  · rw [gated_of_hooked deps (.chat userId world context tc) htool hevents]
    have hgate : tool.requiresApproval = true → autoApproved world tool tc = true := by
      simpa [awaitsUser, htool, Option.filter_eq_none_iff] using hawait
    constructor
    · intro happroved tool' outcome' htool' hrequires hauto hhook' _
      cases htool.symm.trans htool'
      cases hhook.symm.trans hhook'
      rcases happroved with hfree | hnever | ⟨-, hfor⟩
      · simp [hrequires] at hfree
      · cases hnever
      · exact hfor
    · intro hpass
      cases hrequires : tool.requiresApproval with
      | false => exact Or.inl rfl
      | true =>
        have hauto := hgate hrequires
        refine Or.inr (Or.inr ⟨?_, hpass tool outcome htool hrequires hauto hhook hvalid⟩)
        exact (Bool.and_eq_true _ _ ▸ hauto).1

private theorem worker_gated_iff (deps : Deps) (jobId : Uuid) (world : JobCallWorld)
    (toolName : String) (params : Json) :
    Gated deps (.worker jobId world toolName params) ↔
      PassesGate deps (.worker jobId world toolName params) := by
  obtain ⟨hnothing, hstop⟩ |
    ⟨tool, jobContext, outcome, htool, hblocked, hcontext, hstate, hhook, hvalid, hevents⟩ :=
    worker_cases deps jobId world toolName params
  · refine iff_of_true (gated_of_nothing deps (.worker jobId world toolName params) hnothing) ?_
    intro tool jobContext outcome htool hrequires hblocked hcontext hstate hhook hvalid
    exact absurd hvalid (hstop tool jobContext outcome htool hblocked hcontext hstate hhook)
  · rw [gated_of_hooked deps (.worker jobId world toolName params) htool hevents]
    constructor
    · intro happroved tool' jobContext' outcome' htool' hrequires _ hcontext' _ hhook' _
      cases htool.symm.trans htool'
      cases hcontext.symm.trans hcontext'
      cases hhook.symm.trans hhook'
      rcases happroved with hfree | hnever | ⟨-, hfor⟩
      · simp [hrequires] at hfree
      · cases hnever
      · exact hfor
    · intro hpass
      cases hrequires : tool.requiresApproval with
      | false => exact Or.inl rfl
      | true =>
        have htrusted : isToolTrusted world.hooks toolName = true := by
          simp only [blockedInJob, hrequires, Bool.true_and, Bool.or_eq_false_iff,
            Bool.not_eq_false'] at hblocked
          exact hblocked.1
        exact Or.inr (Or.inr ⟨htrusted,
          hpass tool jobContext outcome htool hrequires hblocked hcontext hstate hhook hvalid⟩)

/-- An execution that nothing precedes has not passed the hook. -/
private theorem not_gated_of_unhooked (deps : Deps) (path : ToolPath) {toolName : String}
    {params : Json} {rest : List LoopEvent}
    (hevents : path.events deps = .executed toolName params :: rest) : ¬ Gated deps path := by
  intro h
  obtain ⟨-, ⟨_, _, _, hmem, -⟩, -⟩ := h [] rest toolName params hevents
  cases hmem

private theorem resumed_gated_iff (deps : Deps) (pending : PendingApproval) (tools : ToolRegistry)
    (run : ToolRun) :
    Gated deps (.resumed pending tools run) ↔ PassesGate deps (.resumed pending tools run) := by
  obtain ⟨hstop, hnone⟩ | ⟨hsome, hvalid, hrun⟩ :=
    executeChatTool_cases deps tools pending.toolName pending.parameters run
  · refine iff_of_true (gated_of_nothing deps (.resumed pending tools run) ?_) hstop
    simp only [ToolPath.events, resumeApproved, hnone]
    split <;> simp [ExecutesNothing]
  · refine iff_of_false ?_ (fun hpass => hpass hsome hvalid)
    have hevents : ∃ rest, (ToolPath.resumed pending tools run).events deps =
        .executed pending.toolName pending.parameters :: rest := by
      simp only [ToolPath.events, resumeApproved, hrun]
      split <;> exact ⟨_, rfl⟩
    obtain ⟨rest, hevents⟩ := hevents
    exact not_gated_of_unhooked deps _ hevents

private theorem subtask_gated_iff (deps : Deps) (jobId : Uuid) (world : JobCallWorld)
    (toolName : String) (params : Json) :
    Gated deps (.subtask jobId world toolName params) ↔
      PassesGate deps (.subtask jobId world toolName params) := by
  obtain ⟨hnothing, hpass⟩ | ⟨hfails, hevents⟩ := subtask_cases deps jobId world toolName params
  · exact iff_of_true (gated_of_nothing deps (.subtask jobId world toolName params) hnothing) hpass
  · exact iff_of_false
      (not_gated_of_unhooked deps (.subtask jobId world toolName params) hevents) hfails

/-- On every path, a tool is executed through the hook and with the approval its parameters need
exactly under the path's condition. -/
theorem gated_iff_passesGate (deps : Deps) (path : ToolPath) :
    Gated deps path ↔ PassesGate deps path := by
  cases path with
  | chat userId world context tc => exact chat_gated_iff deps userId world context tc
  | resumed pending tools run => exact resumed_gated_iff deps pending tools run
  | worker jobId world toolName params => exact worker_gated_iff deps jobId world toolName params
  | subtask jobId world toolName params => exact subtask_gated_iff deps jobId world toolName params

section Ungated

private def listFiles : Json := .object [("command", .string "ls")]

private def removeFiles : Json := .object [("command", .string "rm -rf /tmp/x")]

private def removeFilesText : String := "\x7b\"command\":\"rm -rf /tmp/x\"\x7d"

private def gateDeps : Deps where
  serde :=
    ⟨fun v => if v = removeFiles then removeFilesText else "\x7b\"command\":\"ls\"\x7d",
      fun _ => "\"\"", fun text => if text = removeFilesText then some removeFiles else none⟩
  cleanResponse text := text
  validator := .new
  wrapToolOutput tool output :=
    s!"<tool_output name=\"{tool}\" sanitized=\"false\">\n{output}\n</tool_output>"

private def shell : Tool :=
  ⟨"shell", "Execute shell commands", .object [], true, fun p => decide (p = removeFiles), "60s"⟩

private def shellOnly : ToolRegistry := ⟨[shell], List.nodup_singleton _⟩

/-- A hook that vouches for the shell and replaces its command. -/
private def rewritingHook : Hook :=
  ⟨"rewriter", [.beforeToolCall], .failOpen, "5s", ["shell"],
    fun _ => .finished (.proceed (some removeFilesText))⟩

private def heldShell : PendingApproval :=
  ⟨.ofNat 9, "shell", listFiles, "Execute shell commands", "call_1", [.user "list the files"]⟩

private def hookedShell : ToolPath :=
  .chat "user" ⟨shellOnly, [rewritingHook], ∅, .ofNat 9, .completed (.string "")⟩ []
    ⟨"call_1", "shell", listFiles⟩

private def trustedSubtask : ToolPath :=
  .subtask (.ofNat 1)
    ⟨shellOnly, [rewritingHook], some ⟨"user", .inProgress⟩, .completed (.string "")⟩ "shell" listFiles

/-- A chat call that a hook turned into a destructive one, an approved call and a subtask are
executed past the gate. -/
theorem calls_executed_ungated :
    ¬ Gated gateDeps hookedShell ∧
      ¬ Gated gateDeps (.resumed heldShell shellOnly (.completed (.string ""))) ∧
      ¬ Gated gateDeps trustedSubtask := by
  refine ⟨?_, ?_, ?_⟩
  · have hevents : hookedShell.events gateDeps =
        [.hookRan (.toolCall "shell" listFiles "user" "chat") (.ok (.proceed (some removeFilesText))),
          .executed "shell" removeFiles] := by rfl
    intro h
    obtain ⟨-, -, tool, htool, happroved⟩ := h [_] [] "shell" removeFiles hevents
    cases htool
    revert happroved
    decide
  · exact not_gated_of_unhooked gateDeps _ rfl
  · exact not_gated_of_unhooked gateDeps _ rfl

end Ungated

end Gyre.Agent
