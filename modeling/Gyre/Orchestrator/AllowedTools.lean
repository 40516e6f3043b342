/- digest: Exactly when the tools a container may use are those its job was allowed. -/

import Gyre.Lib.Lines

/-!
The configured tools and those a job asks for are intersected on the host, joined by commas into an
environment variable and split again in the container.
-/

set_option autoImplicit false
set_option relaxedAutoImplicit false

namespace Gyre.Orchestrator.AllowedTools

open Gyre.Lib

abbrev ToolName := List Char

/-- `effective_allowed_tools`: a request only narrows the configured list. -/
def effectiveAllowedTools (configured : List ToolName) : Option (List ToolName) → List ToolName
  | none => configured
  | some req => configured.filter fun t => req.contains t

/-- The value of `CLAUDE_CODE_ALLOWED_TOOLS`. -/
def envValue (configured : List ToolName) (allowedTools : Option (List ToolName)) : List Char :=
  let effectiveTools := effectiveAllowedTools configured allowedTools
  if effectiveTools.isEmpty then [','] else [','].intercalate effectiveTools

/-- `optional_env` of a variable that is set; an empty one counts as unset. -/
def optionalEnv (val : List Char) (injected : Option (List Char)) : Option (List Char) :=
  if val.isEmpty then injected else some val

def parseAllowedTools (s : List Char) : List ToolName :=
  ((s.splitOn ',').map Text.trim).filter fun t => !t.isEmpty

def defaultClaudeCodeAllowedTools : List ToolName :=
  ["Read(*)", "Write(*)", "Edit(*)", "Glob(*)", "Grep(*)", "NotebookEdit(*)", "Bash(*)", "Task(*)",
    "WebFetch(*)", "WebSearch(*)"].map String.toList

/-- The tools of the container's configuration. -/
def resolveAllowedTools (val : List Char) (injected : Option (List Char)) : List ToolName :=
  ((optionalEnv val injected).map parseAllowedTools).getD defaultClaudeCodeAllowedTools

/-- The list that the container uses for a job. -/
def containerTools (configured : List ToolName) (requested : Option (List ToolName))
    (injected : Option (List Char)) : List ToolName :=
  resolveAllowedTools (envValue configured requested) injected

/-- A configured tool that was also requested, where a request was made. -/
def Allowed (configured : List ToolName) (requested : Option (List ToolName)) (t : ToolName) : Prop :=
  t ∈ configured ∧ ∀ req ∈ requested, t ∈ req

/-- The container's list denotes the allowed tools. -/
structure Narrows (configured : List ToolName) (requested : Option (List ToolName))
    (injected : Option (List Char)) : Prop where
  same : ∀ t, t ∈ containerTools configured requested injected ↔ Allowed configured requested t
  never_wider : ∀ t ∈ containerTools configured requested injected, t ∈ configured
  empty : (∀ t, ¬ Allowed configured requested t) → containerTools configured requested injected = []

/-- A name that the list in the variable can carry. -/
structure Plain (t : ToolName) : Prop where
  nonempty : t ≠ []
  unsplit : ',' ∉ t
  trimmed : Text.trim t = t

section Lists

variable {configured : List ToolName} {requested : Option (List ToolName)} {t : ToolName}

theorem mem_effectiveAllowedTools :
    t ∈ effectiveAllowedTools configured requested ↔ Allowed configured requested t := by
  unfold Allowed
  cases requested with
  | none => simp [effectiveAllowedTools]
  | some req => simp [effectiveAllowedTools]

/-- Whatever is parsed is plain. -/
theorem plain_of_mem_parseAllowedTools {s : List Char} (h : t ∈ parseAllowedTools s) : Plain t := by
  obtain ⟨hmem, hne⟩ := List.mem_filter.mp h
  obtain ⟨piece, hpiece, rfl⟩ := List.mem_map.mp hmem
  refine ⟨?_, fun hcomma => ?_, Text.trim_trim piece⟩
  · rwa [Bool.not_eq_true', List.isEmpty_eq_false_iff] at hne
  · exact Text.notMem_of_mem_splitOn hpiece ((Text.trim_sublist piece).subset hcomma)

theorem plain_of_mem_default (h : t ∈ defaultClaudeCodeAllowedTools) : Plain t := by
  have hall : defaultClaudeCodeAllowedTools.all (fun t =>
      !t.isEmpty && !t.contains ',' && decide (Text.trim t = t)) = true := by
    decide +kernel
  have hone := List.all_eq_true.mp hall t h
  simp only [Bool.and_eq_true, Bool.not_eq_true', List.isEmpty_eq_false_iff, decide_eq_true_eq] at hone
  obtain ⟨⟨hne, hcomma⟩, htrim⟩ := hone
  refine ⟨hne, fun hmem => ?_, htrim⟩
  rw [List.contains_iff_mem.mpr hmem] at hcomma
  cases hcomma

/-- The container's list has plain names only, whatever the variable says. -/
theorem plain_of_mem_resolveAllowedTools {val : List Char} {injected : Option (List Char)}
    (h : t ∈ resolveAllowedTools val injected) : Plain t := by
  unfold resolveAllowedTools at h
  cases hval : optionalEnv val injected with
  | none =>
    rw [hval] at h
    exact plain_of_mem_default h
  | some s =>
    rw [hval] at h
    exact plain_of_mem_parseAllowedTools h

/-- Plain names come back as they were. -/
theorem parseAllowedTools_intercalate {names : List ToolName} (hne : names ≠ [])
    (hplain : ∀ t ∈ names, Plain t) : parseAllowedTools ([','].intercalate names) = names := by
  have hsplit : ([','].intercalate names).splitOn ',' = names :=
    List.splitOn_intercalate ',' (fun t ht => (hplain t ht).unsplit) hne
  have htrim : names.map Text.trim = names.map id :=
    List.map_inj_left.mpr fun t ht => (hplain t ht).trimmed
  unfold parseAllowedTools
  rw [hsplit, htrim, List.map_id]
  refine List.filter_eq_self.mpr fun t ht => ?_
  rw [Bool.not_eq_true', List.isEmpty_eq_false_iff]
  exact (hplain t ht).nonempty

end Lists

section Boundary

variable {configured : List ToolName} {requested : Option (List ToolName)}
  {injected : Option (List Char)}

private theorem begins_intercalate (t : ToolName) (rest : List ToolName) :
    t <+: [','].intercalate (t :: rest) := by
  cases rest with
  | nil => simp
  | cons u rest =>
    rw [List.intercalate_cons_cons, List.append_assoc]
    exact List.prefix_append t _

theorem containerTools_of_plain (hplain : ∀ t, Allowed configured requested t → Plain t) :
    containerTools configured requested injected = effectiveAllowedTools configured requested := by
  have hnames : ∀ t ∈ effectiveAllowedTools configured requested, Plain t :=
    fun t ht => hplain t (mem_effectiveAllowedTools.mp ht)
  unfold containerTools resolveAllowedTools envValue
  generalize effectiveAllowedTools configured requested = names at hnames
  cases names with
  | nil => rfl
  | cons t rest =>
    have hvalue : [','].intercalate (t :: rest) ≠ [] := by
      intro hnil
      have hbegins := begins_intercalate t rest
      rw [hnil] at hbegins
      exact (hnames t List.mem_cons_self).nonempty (List.prefix_nil.mp hbegins)
    have hset : optionalEnv ([','].intercalate (t :: rest)) injected =
        some ([','].intercalate (t :: rest)) := by
      unfold optionalEnv
      rw [if_neg]
      rwa [List.isEmpty_iff]
    dsimp only [List.isEmpty_cons]
    rw [if_neg Bool.false_ne_true, hset, Option.map_some, Option.getD_some,
      parseAllowedTools_intercalate (List.cons_ne_nil t rest) hnames]

/-- The container is allowed what was configured and requested exactly if each of these names can be
carried in the list: it is not empty, has no comma, and no blank at its ends. -/
theorem narrows_iff (configured : List ToolName) (requested : Option (List ToolName))
    (injected : Option (List Char)) :
    Narrows configured requested injected ↔ ∀ t, Allowed configured requested t → Plain t := by
  constructor
  · intro h t ht
    exact plain_of_mem_resolveAllowedTools ((h.same t).mpr ht)
  · intro hplain
    have hsame : ∀ t, t ∈ containerTools configured requested injected ↔
        Allowed configured requested t := by
      intro t
      rw [containerTools_of_plain hplain, mem_effectiveAllowedTools]
    refine ⟨hsame, fun t ht => ((hsame t).mp ht).1, fun hnone => ?_⟩
    exact List.eq_nil_iff_forall_not_mem.mpr fun t ht => hnone t ((hsame t).mp ht)

/-- A rule with a comma in it is taken apart, and what comes of it was never configured. -/
theorem comma_widens : ¬ Narrows ["Bash(ls:*,cat:*)".toList] none none := by
  intro h
  have hpart : "cat:*)".toList ∈ containerTools ["Bash(ls:*,cat:*)".toList] none none := by
    decide +kernel
  have hconfigured := h.never_wider _ hpart
  exact absurd hconfigured (by decide +kernel)

end Boundary

end Gyre.Orchestrator.AllowedTools
