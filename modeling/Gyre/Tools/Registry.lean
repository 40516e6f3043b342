/- digest: The registry of tools by name, and the names that dynamic registrations are kept from. -/

import Gyre.Tools.Tool

set_option autoImplicit false
set_option relaxedAutoImplicit false

namespace Gyre.Tools.Registry

/-- Names of built-in tools that cannot be shadowed by dynamic registrations. -/
def protectedToolNames : List String :=
  ["echo", "time", "json", "http", "shell", "read_file", "write_file", "list_dir", "apply_patch",
    "memory_search", "memory_write", "memory_read", "memory_tree", "create_job", "list_jobs",
    "job_status", "cancel_job", "build_software", "tool_search", "tool_install", "tool_auth",
    "tool_activate", "tool_list", "tool_remove", "routine_create", "routine_list", "routine_update",
    "routine_delete", "routine_history", "routine_test", "sessions_send", "sessions_list", "skill_list",
    "skill_search", "skill_install", "skill_remove"]

/-- What stands behind a tool object. -/
inductive Origin where
  | builtin
  | mcp
  | wasm
  | built
  deriving DecidableEq, Repr

/-- A tool object, `Arc<dyn Tool>`. -/
structure DynTool where
  tool : Tool
  origin : Origin

def DynTool.name (t : DynTool) : String := t.tool.name

structure BuiltinTool extends DynTool where
  builtin : origin = .builtin

structure DynamicTool extends DynTool where
  dynamic : origin ≠ .builtin

structure ToolRegistry where
  tools : String → Option DynTool
  builtinNames : List String

namespace ToolRegistry

def new : ToolRegistry := ⟨fun _ => none, []⟩

/-- `tools.insert`. -/
def insert (r : ToolRegistry) (t : DynTool) : ToolRegistry :=
  { r with tools := fun name => if name = t.name then some t else r.tools name }

/-- `register`: rejects a tool whose name is marked as built-in. -/
def register (r : ToolRegistry) (t : DynTool) : ToolRegistry :=
  if r.builtinNames.contains t.name then r else r.insert t

/-- `register_sync`; either table may be locked by someone else, and is left alone then. -/
def registerSync (r : ToolRegistry) (toolsFree namesFree : Bool) (t : DynTool) : ToolRegistry :=
  if toolsFree then
    let inserted := r.insert t
    if protectedToolNames.contains t.name && namesFree then
      { inserted with builtinNames := t.name :: inserted.builtinNames }
    else inserted
  else r

/-- `unregister`; the mark of the name stays. -/
def unregister (r : ToolRegistry) (name : String) : ToolRegistry × Option DynTool :=
  ({ r with tools := fun other => if other = name then none else r.tools other }, r.tools name)

def get (r : ToolRegistry) (name : String) : Option DynTool := r.tools name

/-- `register_builder_tool`: the development tools are marked, the builder itself is not. -/
def registerBuilderTool (r : ToolRegistry) (toolsFree namesFree : Bool) (devTools : List DynTool)
    (buildSoftware : DynTool) : ToolRegistry :=
  (devTools.foldl (fun r t => r.registerSync toolsFree namesFree t) r).register buildSoftware

theorem get_insert (r : ToolRegistry) (t : DynTool) (name : String) :
    (r.insert t).get name = if name = t.name then some t else r.get name := rfl

theorem get_register (r : ToolRegistry) (t : DynTool) (name : String) :
    (r.register t).get name =
      if t.name ∉ r.builtinNames ∧ name = t.name then some t else r.get name := by
  unfold register
  by_cases hmarked : t.name ∈ r.builtinNames
  · simp [hmarked]
  · simp [hmarked, get_insert]

theorem get_registerSync (r : ToolRegistry) (toolsFree namesFree : Bool) (t : DynTool) (name : String) :
    (r.registerSync toolsFree namesFree t).get name =
      if toolsFree = true ∧ name = t.name then some t else r.get name := by
  unfold registerSync
  cases toolsFree with
  | false => simp
  | true =>
    have hget : ((r.insert t).get name) = if name = t.name then some t else r.get name := rfl
    by_cases hmark : (protectedToolNames.contains t.name && namesFree) = true
    · simp only [if_true, hmark, true_and]
      exact hget
    · simp only [if_true, hmark, true_and]
      exact hget

theorem get_unregister (r : ToolRegistry) (name other : String) :
    (r.unregister name).1.get other = if other = name then none else r.get other := rfl

end ToolRegistry

end Gyre.Tools.Registry
