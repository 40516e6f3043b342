/- digest: When the protected names and the built-in tools resolve as they should, over every run. -/

import Gyre.Lib.Runs
import Gyre.Tools.Registry

/-!
A name is protected by a mark that `register_sync` sets. A built-in tool that comes by `register`, as the
software builder does, or before its table is free, is not marked; and nothing marks a name that no tool
has yet.
-/

set_option autoImplicit false
set_option relaxedAutoImplicit false

namespace Gyre.Tools.Registry

open Gyre.Lib

/-- A call on the registry. -/
inductive Call where
  | registerSync (t : BuiltinTool) (toolsFree namesFree : Bool)
  | registerBuiltin (t : BuiltinTool)
  | registerDynamic (t : DynamicTool)
  | unregister (name : String)

/-- The registry, with the tool last registered as built-in under each name. -/
structure Ledger where
  registry : ToolRegistry
  builtins : String → Option BuiltinTool

namespace Ledger

def new : Ledger := ⟨.new, fun _ => none⟩

/-- A tool becomes the built-in one of its name. -/
def note (s : Ledger) (t : BuiltinTool) : String → Option BuiltinTool :=
  fun name => if name = t.name then some t else s.builtins name

end Ledger

def step (s : Ledger) : Call → Ledger × List Empty
  | .registerSync t toolsFree namesFree =>
    (⟨s.registry.registerSync toolsFree namesFree t.toDynTool, s.note t⟩, [])
  | .registerBuiltin t => (⟨s.registry.register t.toDynTool, s.note t⟩, [])
  | .registerDynamic t => (⟨s.registry.register t.toDynTool, s.builtins⟩, [])
  | .unregister name => (⟨(s.registry.unregister name).1, s.builtins⟩, [])

/-- No protected name stands for a dynamic tool, and every name registered as built-in stands for that
tool. -/
structure Resolves (s : Ledger) : Prop where
  guarded : ∀ name ∈ protectedToolNames, ∀ t, s.registry.get name = some t → t.origin = .builtin
  kept : ∀ name t, s.builtins name = some t → s.registry.get name = some t.toDynTool

/-- A call does not touch what is protected. -/
def Harmless (s : Ledger) : Call → Prop
  | .registerSync t toolsFree _ => toolsFree = true ∨ s.registry.get t.name = some t.toDynTool
  | .registerBuiltin t => t.name ∉ s.registry.builtinNames ∨ s.registry.get t.name = some t.toDynTool
  | .registerDynamic t => t.name ∈ s.registry.builtinNames ∨
      t.name ∉ protectedToolNames ∧ s.builtins t.name = none
  | .unregister name => s.builtins name = none

section Steps

variable {s : Ledger}

/-- A built-in tool is resolved after its registration if it takes its place, or has it already. -/
private theorem resolves_builtin_iff {r : ToolRegistry} {t : BuiltinTool} {taken : Prop} [Decidable taken]
    (hs : Resolves s) (hget : ∀ name, r.get name =
      if taken ∧ name = t.name then some t.toDynTool else s.registry.get name) :
    Resolves ⟨r, s.note t⟩ ↔ taken ∨ s.registry.get t.name = some t.toDynTool := by
  constructor
  · intro h
    have hkept := h.kept t.name t (if_pos rfl)
    by_cases htaken : taken
    · exact .inl htaken
    · rw [hget, if_neg fun hboth => htaken hboth.1] at hkept
      exact .inr hkept
  · intro h
    have hself : r.get t.name = some t.toDynTool := by
      rw [hget]
      rcases h with htaken | hsame
      · exact if_pos ⟨htaken, rfl⟩
      · split
        · rfl
        · exact hsame
    have hother {name : String} (hname : name ≠ t.name) : r.get name = s.registry.get name := by
      rw [hget, if_neg fun hboth => hname hboth.2]
    refine ⟨fun name hprotected found hfound => ?_, fun name found hfound => ?_⟩
    · by_cases hname : name = t.name
      · rw [hname, hself] at hfound
        exact Option.some.inj hfound ▸ t.builtin
      · rw [hother hname] at hfound
        exact hs.guarded name hprotected found hfound
    · by_cases hname : name = t.name
      · have hnoted : s.note t name = some t := if_pos hname
        obtain rfl := Option.some.inj (hnoted.symm.trans hfound)
        rw [hname, hself]
      · have hnoted : s.note t name = s.builtins name := if_neg hname
        rw [hother hname]
        exact hs.kept name found (hnoted.symm.trans hfound)

private theorem resolves_dynamic_iff {t : DynamicTool} (hs : Resolves s) :
    Resolves ⟨s.registry.register t.toDynTool, s.builtins⟩ ↔ Harmless s (.registerDynamic t) := by
  have hget (name : String) := s.registry.get_register t.toDynTool name
  show _ ↔ t.name ∈ s.registry.builtinNames ∨ t.name ∉ protectedToolNames ∧ s.builtins t.name = none
  by_cases hmarked : t.name ∈ s.registry.builtinNames
  · have hsame : s.registry.register t.toDynTool = s.registry := by
      unfold ToolRegistry.register
      exact if_pos (List.contains_iff_mem.mpr hmarked)
    rw [hsame]
    exact iff_of_true hs (.inl hmarked)
  · have hself : (s.registry.register t.toDynTool).get t.name = some t.toDynTool := by
      rw [hget]
      exact if_pos ⟨hmarked, rfl⟩
    constructor
    · intro h
      refine .inr ⟨fun hprotected => t.dynamic (h.guarded t.name hprotected _ hself), ?_⟩
      cases hbuiltin : s.builtins t.name with
      | none => rfl
      | some b =>
        have hkept := h.kept t.name b hbuiltin
        rw [hself] at hkept
        exact absurd ((congrArg DynTool.origin (Option.some.inj hkept)).trans b.builtin) t.dynamic
    · intro h
      obtain ⟨hfree, hnone⟩ := h.resolve_left hmarked
      have hother {name : String} (hname : name ≠ t.name) :
          (s.registry.register t.toDynTool).get name = s.registry.get name := by
        rw [hget]
        exact if_neg fun hboth => hname hboth.2
      refine ⟨fun name hprotected found hfound => ?_, fun name found hfound => ?_⟩
      · have hname : name ≠ t.name := fun heq => hfree (heq ▸ hprotected)
        rw [hother hname] at hfound
        exact hs.guarded name hprotected found hfound
      · have hname : name ≠ t.name := by
          rintro rfl
          exact absurd (hnone.symm.trans hfound) (by simp)
        rw [hother hname]
        exact hs.kept name found hfound

private theorem resolves_unregister_iff {name : String} (hs : Resolves s) :
    Resolves ⟨(s.registry.unregister name).1, s.builtins⟩ ↔ s.builtins name = none := by
  have hget (other : String) := s.registry.get_unregister name other
  constructor
  · intro h
    cases hbuiltin : s.builtins name with
    | none => rfl
    | some b =>
      have hkept := h.kept name b hbuiltin
      rw [hget, if_pos rfl] at hkept
      cases hkept
  · intro hnone
    refine ⟨fun other hprotected found hfound => ?_, fun other found hfound => ?_⟩
    · rw [hget] at hfound
      split at hfound
      · cases hfound
      · exact hs.guarded other hprotected found hfound
    · have hother : other ≠ name := by
        rintro rfl
        exact absurd (hnone.symm.trans hfound) (by simp)
      rw [hget, if_neg hother]
      exact hs.kept other found hfound

/-- From a registry that resolves as it should, a call leads to another exactly if it is harmless. -/
private theorem resolves_step_iff (c : Call) (hs : Resolves s) :
    Resolves (step s c).1 ↔ Harmless s c := by
  cases c with
  | registerSync t toolsFree namesFree =>
    exact resolves_builtin_iff hs fun name => s.registry.get_registerSync toolsFree namesFree _ name
  | registerBuiltin t => exact resolves_builtin_iff hs fun name => s.registry.get_register _ name
  | registerDynamic t => exact resolves_dynamic_iff hs
  | unregister name => exact resolves_unregister_iff hs

end Steps

/-- The calls of the software builder. -/
def builderCalls (toolsFree namesFree : Bool) (devTools : List BuiltinTool) (buildSoftware : BuiltinTool) :
    List Call :=
  devTools.map (fun t => .registerSync t toolsFree namesFree) ++ [.registerBuiltin buildSoftware]

theorem run_builderCalls (s : Ledger) (toolsFree namesFree : Bool) (devTools : List BuiltinTool)
    (buildSoftware : BuiltinTool) :
    (run step s (builderCalls toolsFree namesFree devTools buildSoftware)).1.registry =
      s.registry.registerBuilderTool toolsFree namesFree (devTools.map (·.toDynTool))
        buildSoftware.toDynTool := by
  have hdev (s : Ledger) : (run step s (devTools.map fun t => .registerSync t toolsFree namesFree)).1.registry =
      (devTools.map (·.toDynTool)).foldl (fun r t => r.registerSync toolsFree namesFree t) s.registry := by
    induction devTools generalizing s with
    | nil => rfl
    | cons t rest ih => exact ih (step s (.registerSync t toolsFree namesFree)).1
  unfold builderCalls ToolRegistry.registerBuilderTool
  rw [run_append, ← hdev]
  rfl

/-- In a run every state resolves as it should exactly if every call of it is harmless. -/
theorem protected_names_iff (calls : List Call) :
    (∀ p ∈ visited step .new calls, Resolves (step p.1 p.2).1) ↔
      ∀ p ∈ visited step .new calls, Harmless p.1 p.2 := by
  have hnew : Resolves .new := by
    refine ⟨fun name _ t h => ?_, fun name t h => ?_⟩
    · cases h
    · cases h
  have hkeeps (s : Ledger) (c : Call) (h : Resolves (step s c).1) : Resolves (step s c).1 := h
  exact visited_keeps_iff hnew hkeeps (fun _ c hs => resolves_step_iff c hs) calls

private def named (name : String) : Tool := ⟨name, "", .object [], false, fun _ => false, "60s"⟩

private def builtinNamed (name : String) : BuiltinTool := ⟨⟨named name, .builtin⟩, rfl⟩

/-- A tool of an MCP server that calls itself `build_software`. -/
private def mcpBuilder : DynamicTool := ⟨⟨named "build_software", .mcp⟩, by decide⟩

private def builderThenMcp : List Call :=
  builderCalls true true
    (["shell", "read_file", "write_file", "list_dir", "apply_patch"].map builtinNamed)
    (builtinNamed "build_software") ++ [.registerDynamic mcpBuilder]

/-- After the builder has registered itself, an MCP tool takes its protected name. -/
theorem build_software_shadowed :
    "build_software" ∈ protectedToolNames ∧
      ((run step .new builderThenMcp).1.registry.get "build_software").map (·.origin) = some .mcp ∧
      ¬ ∀ p ∈ visited step .new builderThenMcp, Resolves (step p.1 p.2).1 := by
  have hname : "build_software" ∈ protectedToolNames := by decide
  have horigin : ((run step .new builderThenMcp).1.registry.get "build_software").map (·.origin) =
      some .mcp := by decide
  refine ⟨hname, horigin, fun hall => ?_⟩
  have hlast : ((run step .new (builderThenMcp.dropLast)).1, .registerDynamic mcpBuilder) ∈
      visited step .new builderThenMcp :=
    mem_visited_iff.mpr ⟨builderThenMcp.dropLast, [], rfl, rfl⟩
  obtain ⟨t, ht, hmcp⟩ := Option.map_eq_some_iff.mp horigin
  have hguarded := (hall _ hlast).guarded _ hname t ht
  exact absurd (hguarded.symm.trans hmcp) (by decide)

end Gyre.Tools.Registry
