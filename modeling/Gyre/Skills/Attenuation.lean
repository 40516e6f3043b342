/- digest: Filtering of the offered tools by the least trusted active skill. -/

import Gyre.Llm.Provider
import Gyre.Skills.Skill

set_option autoImplicit false
set_option relaxedAutoImplicit false

namespace Gyre.Skills

open Gyre.Llm

/-- Tools that are read-only and free of side effects. -/
def readOnlyTools : List String :=
  ["memory_search", "memory_read", "memory_tree", "time", "echo", "json", "skill_list",
    "skill_search"]

structure AttenuationResult where
  tools : List ToolDefinition
  minTrust : SkillTrust
  explanation : String
  removedTools : List String
  deriving DecidableEq, Repr

/-- The minimum trust level of the active skills. -/
def minTrust (activeSkills : List LoadedSkill) : SkillTrust :=
  activeSkills.foldr (fun s least => s.trust.min least) .trusted

/-- Filter tool definitions by the trust level of the active skills. -/
def attenuateTools (tools : List ToolDefinition) (activeSkills : List LoadedSkill) :
    AttenuationResult :=
  if activeSkills.isEmpty then
    ⟨tools, .trusted, "No skills active, all tools available", []⟩
  else
    match minTrust activeSkills with
    | .trusted =>
      ⟨tools, .trusted, "All active skills are trusted (full trust), all tools available", []⟩
    | .installed =>
      let removed := (tools.filter fun t => !readOnlyTools.contains t.name).map (·.name)
      let names := ", ".intercalate removed
      ⟨tools.filter fun t => readOnlyTools.contains t.name, .installed,
        s!"Installed skill present: restricted to read-only tools, removed {removed.length} tool(s): {names}",
        removed⟩

theorem minTrust_eq_installed {activeSkills : List LoadedSkill} :
    minTrust activeSkills = .installed ↔ ∃ s ∈ activeSkills, s.trust = .installed := by
  induction activeSkills with
  | nil => simp [minTrust]
  | cons s rest ih =>
    have hcons : minTrust (s :: rest) = s.trust.min (minTrust rest) := rfl
    rw [hcons]
    simp only [List.mem_cons, exists_eq_or_imp]
    rw [← ih]
    cases s.trust <;> cases minTrust rest <;> simp [SkillTrust.min]

/-- What an installed skill leaves to offer. -/
theorem attenuateTools_of_installed {tools : List ToolDefinition}
    {activeSkills : List LoadedSkill} (h : ∃ s ∈ activeSkills, s.trust = .installed) :
    (attenuateTools tools activeSkills).tools =
      tools.filter fun t => readOnlyTools.contains t.name := by
  have hne : activeSkills.isEmpty = false := by
    obtain ⟨s, hs, -⟩ := h
    exact List.isEmpty_eq_false_iff.mpr (List.ne_nil_of_mem hs)
  simp [attenuateTools, hne, minTrust_eq_installed.mpr h]

/-- Trusted skills leave everything. -/
theorem attenuateTools_of_not_installed {tools : List ToolDefinition}
    {activeSkills : List LoadedSkill} (h : ¬ ∃ s ∈ activeSkills, s.trust = .installed) :
    (attenuateTools tools activeSkills).tools = tools := by
  have htrusted : minTrust activeSkills = .trusted := by
    cases hmin : minTrust activeSkills with
    | installed => exact absurd (minTrust_eq_installed.mp hmin) h
    | trusted => rfl
  unfold attenuateTools
  split
  · rfl
  · simp [htrusted]

end Gyre.Skills
