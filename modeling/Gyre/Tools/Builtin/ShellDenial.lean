/- digest: Exactly when the shell tool's lists keep a command from being run. -/

import Gyre.Tools.Builtin.Shell

/-!
A command is compared in lower case. One entry of the list of blocked commands has a capital, so
nothing in lower case contains it.
-/

set_option autoImplicit false
set_option relaxedAutoImplicit false

namespace Gyre.Tools.Builtin

open Gyre.Lib Gyre.Llm

/-- A command contains an entry of a list, the case of letters aside. -/
def ContainsIgnoringCase (cmd : List Char) (entry : String) : Prop :=
  Text.toLowercase entry.toList <:+: Text.toLowercase cmd

/-- The entry of the blocked commands that has a capital. -/
def capitalEntry : String := "chmod -R 777 /"

/-- One of the lists, or the detection of injections, is against a command. -/
def Denied (t : ShellTool) (cmd : List Char) : Prop :=
  (∃ entry ∈ blockedCommands, ContainsIgnoringCase cmd entry) ∨
    (t.allowDangerous = false ∧ ∃ entry ∈ dangerousPatterns, ContainsIgnoringCase cmd entry) ∨
    detectCommandInjection cmd ≠ none

/-- Something other than the entry with a capital is against a command. -/
def OtherwiseDenied (t : ShellTool) (cmd : List Char) : Prop :=
  (∃ entry ∈ blockedCommands, entry ≠ capitalEntry ∧ ContainsIgnoringCase cmd entry) ∨
    (t.allowDangerous = false ∧ ∃ entry ∈ dangerousPatterns, ContainsIgnoringCase cmd entry) ∨
    detectCommandInjection cmd ≠ none

/-- What is denied is not run, and what must not be approved automatically is asked about. -/
structure ListsEffective (t : ShellTool) (w : ShellWorld) (serde : Serde) (cmd : String)
    (workdir : Option String) (timeout : Option Nat) (extraEnv : List (String × String)) : Prop where
  denied : Denied t cmd.toList → (t.executeCommand w cmd.toList workdir timeout extraEnv).2 = []
  asked : (∃ entry ∈ neverAutoApprovePatterns, ContainsIgnoringCase cmd.toList entry) →
    ∀ params, commandOf serde params = some cmd → requiresApprovalFor serde params = true

section Lists

variable {t : ShellTool} {cmd : List Char}

theorem has_iff {text : List Char} {pattern : String} : has text pattern = true ↔ pattern.toList <:+: text :=
  Text.contains_eq_true_iff

theorem requiresExplicitApproval_iff :
    requiresExplicitApproval cmd = true ↔
      ∃ entry ∈ neverAutoApprovePatterns, ContainsIgnoringCase cmd entry := by
  simp only [requiresExplicitApproval, List.any_eq_true, Text.contains_eq_true_iff, ContainsIgnoringCase]

private theorem dangerousPatterns_lower :
    ∀ entry ∈ dangerousPatterns, Text.toLowercase entry.toList = entry.toList := by decide

private theorem blockedCommands_lower :
    ∀ entry ∈ blockedCommands, entry ≠ capitalEntry →
      Text.toLowercase entry.toList = entry.toList := by decide

theorem any_has_dangerousPatterns :
    dangerousPatterns.any (has (Text.toLowercase cmd)) = true ↔
      ∃ entry ∈ dangerousPatterns, ContainsIgnoringCase cmd entry := by
  rw [List.any_eq_true]
  refine exists_congr fun entry => and_congr_right fun hentry => ?_
  rw [has_iff, ContainsIgnoringCase, dangerousPatterns_lower entry hentry]

/-- Nothing in lower case contains the entry with a capital. -/
theorem not_has_capitalEntry : has (Text.toLowercase cmd) capitalEntry = false := by
  refine Bool.eq_false_iff.mpr fun h => ?_
  have hcapital : 'R' ∈ Text.toLowercase cmd := (has_iff.mp h).subset (by decide)
  exact absurd (Text.not_isUpper_of_mem_toLowercase hcapital) (by decide)

theorem any_has_blockedCommands :
    blockedCommands.any (has (Text.toLowercase cmd)) = true ↔
      ∃ entry ∈ blockedCommands, entry ≠ capitalEntry ∧ ContainsIgnoringCase cmd entry := by
  rw [List.any_eq_true]
  refine exists_congr fun entry => and_congr_right fun hentry => ?_
  by_cases hcapital : entry = capitalEntry
  · subst hcapital
    refine iff_of_false ?_ fun h => h.1 rfl
    rw [not_has_capitalEntry]
    exact Bool.false_ne_true
  · rw [has_iff, ContainsIgnoringCase, blockedCommands_lower entry hentry hcapital]
    exact (and_iff_right hcapital).symm

/-- A command is refused when something other than the entry with a capital is against it, and run
when nothing is. -/
theorem executeCommand_runs_iff (w : ShellWorld) (workdir : Option String) (timeout : Option Nat)
    (extraEnv : List (String × String)) :
    (t.executeCommand w cmd workdir timeout extraEnv).2 = [] ↔ OtherwiseDenied t cmd := by
  have hblocked : t.isBlocked cmd ≠ none ∨ detectCommandInjection cmd ≠ none ↔ OtherwiseDenied t cmd := by
    rw [OtherwiseDenied, ← or_assoc]
    refine or_congr_left ?_
    rw [ShellTool.isBlocked, ← any_has_blockedCommands, ← any_has_dangerousPatterns]
    cases blockedCommands.any (has (Text.toLowercase cmd)) with
    | true => simp
    | false =>
      cases t.allowDangerous <;> cases dangerousPatterns.any (has (Text.toLowercase cmd)) <;> simp
  have hrun (workdir : String) (timeout : Nat) :
      (t.executeSandboxed w cmd workdir timeout).2 ≠ [] ∧
        (ShellTool.executeDirect w cmd workdir timeout extraEnv).2 ≠ [] := by
    constructor
    · unfold ShellTool.executeSandboxed
      dsimp only
      split <;> exact List.cons_ne_nil _ _
    · unfold ShellTool.executeDirect
      dsimp only
      split
      · exact List.cons_ne_nil _ _
      · split <;> exact List.cons_ne_nil _ _
  rw [← hblocked, ShellTool.executeCommand]
  split
  next reason hreason => exact iff_of_true rfl (.inl (by rw [hreason]; exact Option.some_ne_none _))
  next hallowed =>
    split
    next reason hreason => exact iff_of_true rfl (.inr (by rw [hreason]; exact Option.some_ne_none _))
    next hclean =>
      refine iff_of_false ?_ fun h => h.elim (· hallowed) (· hclean)
      dsimp only
      split
      · split
        · exact (hrun _ _).1
        · exact (hrun _ _).2
      · exact (hrun _ _).2

end Lists

/-- The lists of the shell tool are effective for a command, under every configuration and in every
environment, exactly if something else denies it when it contains the entry with a capital. -/
theorem lists_effective_iff (t : ShellTool) (w : ShellWorld) (serde : Serde) (cmd : String)
    (workdir : Option String) (timeout : Option Nat) (extraEnv : List (String × String)) :
    ListsEffective t w serde cmd workdir timeout extraEnv ↔
      (ContainsIgnoringCase cmd.toList capitalEntry → OtherwiseDenied t cmd.toList) := by
  have hlisted : capitalEntry ∈ blockedCommands := by decide
  constructor
  · intro h hcapital
    exact (executeCommand_runs_iff w workdir timeout extraEnv).mp
      (h.denied (.inl ⟨capitalEntry, hlisted, hcapital⟩))
  · intro h
    constructor
    · intro hdenied
      refine (executeCommand_runs_iff w workdir timeout extraEnv).mpr ?_
      rcases hdenied with ⟨entry, hentry, hcontains⟩ | hdenied
      · by_cases hcapital : entry = capitalEntry
        · exact h (hcapital ▸ hcontains)
        · exact .inl ⟨entry, hentry, hcapital, hcontains⟩
      · exact .inr hdenied
    · intro hlist params hparams
      rw [requiresApprovalFor, hparams]
      exact requiresExplicitApproval_iff.mpr hlist

/-- The tool as it is by default. -/
private def plainShell : ShellTool := ⟨none, 120, false, none, .readOnly⟩

private def quietWorld : ShellWorld := ⟨false, some "/home/user", fun _ => none, none, fun _ => .finished [] 0⟩

/-- Everything on the host is made writable by a command as it stands in the list. -/
theorem blocked_command_runs :
    (plainShell.executeCommand quietWorld capitalEntry.toList none none []).2 =
        [.direct "sh" ["-c".toList, "chmod -R 777 /".toList] [] "/home/user"] ∧
      ¬ ListsEffective plainShell quietWorld ⟨fun _ => "", fun _ => "", fun _ => none⟩ capitalEntry none none
        [] := by
  have hruns : (plainShell.executeCommand quietWorld capitalEntry.toList none none []).2 =
      [.direct "sh" ["-c".toList, "chmod -R 777 /".toList] [] "/home/user"] := by decide +kernel
  refine ⟨hruns, fun h => ?_⟩
  have hnone := h.denied (.inl ⟨capitalEntry, by decide, List.infix_refl _⟩)
  rw [hruns] at hnone
  cases hnone

end Gyre.Tools.Builtin
