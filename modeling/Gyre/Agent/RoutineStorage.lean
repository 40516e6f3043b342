/- digest: Exactly when a stored routine definition is read back as it was. -/

import Gyre.Agent.RoutineEngine
import Gyre.Tools.Builtin.Call

/-!
Triggers and actions are stored as a tag and a JSON configuration, written and read field by field.
-/

set_option autoImplicit false
set_option relaxedAutoImplicit false

namespace Gyre.Agent

open Gyre.Llm
open Gyre.Tools.Builtin (asU64)

namespace Trigger

def typeTag : Trigger → String
  | .cron _ => "cron"
  | .event _ _ => "event"
  | .webhook _ _ => "webhook"
  | .manual => "manual"

def fromDb (triggerType : String) (config : Json) : Except String Trigger :=
  match triggerType with
  | "cron" =>
    match (config.get "schedule").bind Json.asStr with
    | some schedule => .ok (.cron schedule)
    | none => .error "cron trigger missing 'schedule'"
  | "event" =>
    match (config.get "pattern").bind Json.asStr with
    | some pattern => .ok (.event ((config.get "channel").bind Json.asStr) pattern)
    | none => .error "event trigger missing 'pattern'"
  | "webhook" =>
    .ok (.webhook ((config.get "path").bind Json.asStr) ((config.get "secret").bind Json.asStr))
  | "manual" => .ok .manual
  | other => .error s!"unknown trigger type: {other}"

/-- An optional string in `json!`. -/
def optional (s : Option String) : Json := (s.map Json.string).getD .null

def toConfigJson : Trigger → Json
  | .cron schedule => .object [("schedule", .string schedule)]
  | .event channel pattern => .object [("pattern", .string pattern), ("channel", optional channel)]
  | .webhook path secret => .object [("path", optional path), ("secret", optional secret)]
  | .manual => .object []

end Trigger

namespace RoutineStorage

inductive RoutineAction where
  | lightweight (prompt : String) (contextPaths : List String) (maxTokens : UInt32)
  | fullJob (title description : String) (maxIterations : UInt32)
  deriving DecidableEq, Repr

def defaultMaxTokens : UInt32 := 4096

def defaultMaxIterations : UInt32 := 10

namespace RoutineAction

/-- `Value::as_array`. -/
def asArray : Json → Option (List Json)
  | .array items => some items
  | _ => none

/-- A number that is cast down to 32 bits. -/
def limit (config : Json) (field : String) (default : UInt32) : UInt32 :=
  UInt32.ofNat (((config.get field).bind asU64).getD default.toNat)

def typeTag : RoutineAction → String
  | .lightweight .. => "lightweight"
  | .fullJob .. => "full_job"

def fromDb (actionType : String) (config : Json) : Except String RoutineAction :=
  match actionType with
  | "lightweight" =>
    match (config.get "prompt").bind Json.asStr with
    | some prompt =>
      let contextPaths :=
        (((config.get "context_paths").bind asArray).map fun arr => arr.filterMap Json.asStr).getD []
      .ok (.lightweight prompt contextPaths (limit config "max_tokens" defaultMaxTokens))
    | none => .error "lightweight action missing 'prompt'"
  | "full_job" =>
    match (config.get "title").bind Json.asStr with
    | some title =>
      match (config.get "description").bind Json.asStr with
      | some description =>
        .ok (.fullJob title description (limit config "max_iterations" defaultMaxIterations))
      | none => .error "full_job action missing 'description'"
    | none => .error "full_job action missing 'title'"
  | other => .error s!"unknown action type: {other}"

def u32 (n : UInt32) : Json := .number (.int n.toNat)

def toConfigJson : RoutineAction → Json
  | .lightweight prompt contextPaths maxTokens =>
    .object [("prompt", .string prompt), ("context_paths", .array (contextPaths.map .string)),
      ("max_tokens", u32 maxTokens)]
  | .fullJob title description maxIterations =>
    .object [("title", .string title), ("description", .string description),
      ("max_iterations", u32 maxIterations)]

end RoutineAction

/-- What a field of a configuration holds. -/
inductive FieldKind where
  | text
  | optionalText
  | texts
  | number (default : UInt32)
  deriving DecidableEq

namespace FieldKind

/-- What is written for an absent field; a text may not be absent. -/
def default : FieldKind → Option Json
  | .text => none
  | .optionalText => some .null
  | .texts => some (.array [])
  | .number d => some (RoutineAction.u32 d)

def Fits : FieldKind → Json → Prop
  | .text, v => ∃ s, v = .string s
  | .optionalText, v => v = .null ∨ ∃ s, v = .string s
  | .texts, v => ∃ ss : List String, v = .array (ss.map .string)
  | .number _, v => ∃ n, v = RoutineAction.u32 n

end FieldKind

def triggerFields : String → Option (List (String × FieldKind))
  | "cron" => some [("schedule", .text)]
  | "event" => some [("pattern", .text), ("channel", .optionalText)]
  | "webhook" => some [("path", .optionalText), ("secret", .optionalText)]
  | "manual" => some []
  | _ => none

def actionFields : String → Option (List (String × FieldKind))
  | "lightweight" =>
    some [("prompt", .text), ("context_paths", .texts), ("max_tokens", .number defaultMaxTokens)]
  | "full_job" =>
    some [("title", .text), ("description", .text), ("max_iterations", .number defaultMaxIterations)]
  | _ => none

/-- Nothing that a configuration could lose is outside of its fields. -/
def Structured (config : Json) : Prop := config = .null ∨ ∃ fields, config = .object fields

/-- What is written again has the fields of the configuration, and defaults for absent ones only. -/
structure Carries (fields : List (String × FieldKind)) (config again : Json) : Prop where
  structured : Structured config
  present : ∀ f v, config.get f = some v → again.get f = some v
  absent : ∀ f, config.get f = none → again.get f = (fields.lookup f).bind FieldKind.default

/-- The texts that may not be absent are there. -/
def Readable (fields : List (String × FieldKind)) (config : Json) : Prop :=
  ∀ f, (f, FieldKind.text) ∈ fields → ∃ s, config.get f = some (.string s)

/-- A configuration has no other fields, and in each of them what it is for. -/
structure Fitting (fields : List (String × FieldKind)) (config : Json) : Prop where
  structured : Structured config
  fits : ∀ f v, config.get f = some v → ∃ kind, fields.lookup f = some kind ∧ kind.Fits v

section Rebuilding

variable {fields : List (String × FieldKind)} {config : Json}

/-- What is written for a field that was read. -/
def FieldKind.again : FieldKind → Option Json → Json
  | .text, v => Trigger.optional (v.bind Json.asStr)
  | .optionalText, v => Trigger.optional (v.bind Json.asStr)
  | .texts, v => .array ((((v.bind RoutineAction.asArray).map fun arr => arr.filterMap Json.asStr).getD []).map
      .string)
  | .number d, v => RoutineAction.u32 (UInt32.ofNat ((v.bind asU64).getD d.toNat))

def rebuild (fields : List (String × FieldKind)) (config : Json) : Json :=
  .object (fields.map fun e => (e.1, e.2.again (config.get e.1)))

theorem get_rebuild (f : String) :
    (rebuild fields config).get f = (fields.lookup f).map fun kind => kind.again (config.get f) := by
  unfold rebuild Json.get
  dsimp only
  induction fields with
  | nil => rfl
  | cons e fields ih =>
    rw [List.map_cons, List.find?_cons, List.lookup_cons]
    by_cases hf : e.1 = f
    · subst hf
      simp
    · have hne : (e.1 == f) = false := beq_eq_false_iff_ne.mpr hf
      have hne' : (f == e.1) = false := beq_eq_false_iff_ne.mpr fun h => hf h.symm
      rw [hne, hne']
      exact ih

private theorem string_of_asStr {v : Json} {s : String} (h : v.asStr = some s) : v = .string s := by
  unfold Json.asStr at h
  split at h
  · rw [Option.some.inj h]
  · cases h

private theorem map_string_filterMap (ss : List String) : (ss.map Json.string).filterMap Json.asStr = ss := by
  rw [List.filterMap_map]
  have hsome : Json.asStr ∘ Json.string = some := rfl
  rw [hsome, List.filterMap_some]

theorem asU64_u32 (n : UInt32) : asU64 (RoutineAction.u32 n) = some n.toNat := by
  have hlt := n.toNat_lt
  unfold RoutineAction.u32 asU64
  dsimp only
  rw [if_pos (by omega)]
  rfl

/-- What is written again for a value is the value itself exactly if it fits. -/
theorem FieldKind.again_eq_iff {kind : FieldKind} {v : Json} :
    kind.again (some v) = v ↔ kind.Fits v ∨ kind = .text ∧ v = .null := by
  have optional_iff : Trigger.optional (v.asStr) = v ↔ v = .null ∨ ∃ s, v = .string s := by
    constructor
    · intro h
      cases hs : v.asStr with
      | none =>
        rw [hs] at h
        exact .inl h.symm
      | some s => exact .inr ⟨s, string_of_asStr hs⟩
    · rintro (rfl | ⟨s, rfl⟩)
      · rfl
      · rfl
  cases kind with
  | text =>
    rw [FieldKind.again, Option.bind_some, optional_iff]
    constructor
    · rintro (hnull | hstring)
      · exact .inr ⟨rfl, hnull⟩
      · exact .inl hstring
    · rintro (hstring | ⟨-, hnull⟩)
      · exact .inr hstring
      · exact .inl hnull
  | optionalText =>
    rw [FieldKind.again, Option.bind_some, optional_iff]
    exact ⟨.inl, fun h => h.resolve_right fun hne => nomatch hne.1⟩
  | texts =>
    rw [FieldKind.again, Option.bind_some]
    constructor
    · intro h
      exact .inl ⟨_, h.symm⟩
    · rintro (⟨ss, rfl⟩ | ⟨hne, -⟩)
      · rw [RoutineAction.asArray, Option.map_some, Option.getD_some, map_string_filterMap]
      · cases hne
  | number d =>
    rw [FieldKind.again, Option.bind_some]
    constructor
    · intro h
      exact .inl ⟨_, h.symm⟩
    · rintro (⟨n, rfl⟩ | ⟨hne, -⟩)
      · rw [asU64_u32, Option.getD_some, UInt32.ofNat_toNat]
      · cases hne

theorem FieldKind.again_none {kind : FieldKind} (h : kind ≠ .text) :
    some (kind.again none) = kind.default := by
  cases kind with
  | text => exact absurd rfl h
  | optionalText => rfl
  | texts => rfl
  | number d =>
    change some (RoutineAction.u32 (UInt32.ofNat d.toNat)) = some (RoutineAction.u32 d)
    rw [UInt32.ofNat_toNat]

/-- What is rebuilt from a configuration carries it exactly if the configuration is fitting. -/
theorem carries_rebuild (hread : Readable fields config) :
    Carries fields config (rebuild fields config) ↔ Fitting fields config := by
  have text_of_lookup : ∀ {f : String}, fields.lookup f = some .text →
      ∃ s, config.get f = some (.string s) := by
    intro f hf
    obtain ⟨before, after, hfields, -⟩ := List.lookup_eq_some_iff.mp hf
    have hmem : (f, FieldKind.text) ∈ fields := by
      rw [hfields]
      simp
    exact hread f hmem
  constructor
  · intro h
    refine ⟨h.structured, fun f v hv => ?_⟩
    have hagain := h.present f v hv
    rw [get_rebuild, hv, Option.map_eq_some_iff] at hagain
    obtain ⟨kind, hkind, hsame⟩ := hagain
    refine ⟨kind, hkind, (FieldKind.again_eq_iff.mp hsame).resolve_right ?_⟩
    rintro ⟨rfl, rfl⟩
    obtain ⟨s, hs⟩ := text_of_lookup hkind
    cases hv.symm.trans hs
  · intro h
    refine ⟨h.structured, fun f v hv => ?_, fun f hnone => ?_⟩
    · obtain ⟨kind, hkind, hfits⟩ := h.fits f v hv
      rw [get_rebuild, hv, hkind, Option.map_some, FieldKind.again_eq_iff.mpr (.inl hfits)]
    · rw [get_rebuild, hnone]
      cases hkind : fields.lookup f with
      | none => rfl
      | some kind =>
        refine FieldKind.again_none fun htext => ?_
        obtain ⟨s, hs⟩ := text_of_lookup (htext ▸ hkind)
        cases hnone.symm.trans hs

end Rebuilding

section Kept

variable {α : Type} (fromDb : String → Json → Except String α) (typeTag : α → String)
  (toConfigJson : α → Json) (table : String → Option (List (String × FieldKind)))

/-- A configuration is rejected, or what is read is written again as it was. -/
def Kept (tag : String) (config : Json) : Prop :=
  ∀ v, fromDb tag config = .ok v →
    typeTag v = tag ∧ ∃ fields ∈ table tag, Carries fields config (toConfigJson v)

/-- Under a known tag, every configuration that can be read is fitting. -/
def FittingIfRead (tag : String) (config : Json) : Prop :=
  ∀ fields ∈ table tag, Readable fields config → Fitting fields config

variable {fromDb typeTag toConfigJson table}

theorem kept_iff
    (reads : ∀ {tag config v}, fromDb tag config = .ok v → ∃ fields ∈ table tag,
      Readable fields config ∧ typeTag v = tag ∧ toConfigJson v = rebuild fields config)
    (readable : ∀ {tag config fields}, fields ∈ table tag → Readable fields config →
      ∃ v, fromDb tag config = .ok v) {tag : String} {config : Json} :
    Kept fromDb typeTag toConfigJson table tag config ↔ FittingIfRead table tag config := by
  constructor
  · intro h fields hfields hread
    obtain ⟨v, hv⟩ := readable hfields hread
    obtain ⟨-, fields', hfields', hcarries⟩ := h v hv
    obtain ⟨fields'', hfields'', -, -, hsame⟩ := reads hv
    cases Option.some.inj (hfields.symm.trans hfields')
    cases Option.some.inj (hfields.symm.trans hfields'')
    rw [hsame] at hcarries
    exact (carries_rebuild hread).mp hcarries
  · intro h v hv
    obtain ⟨fields, hfields, hread, htag, hsame⟩ := reads hv
    refine ⟨htag, fields, hfields, ?_⟩
    rw [hsame]
    exact (carries_rebuild hread).mpr (h fields hfields hread)

end Kept

private theorem bind_asStr {config : Json} {f s : String} (h : (config.get f).bind Json.asStr = some s) :
    config.get f = some (.string s) := by
  obtain ⟨v, hv, hs⟩ := Option.bind_eq_some_iff.mp h
  rw [hv, string_of_asStr hs]

private theorem again_text {config : Json} {f s : String}
    (h : (config.get f).bind Json.asStr = some s) : FieldKind.text.again (config.get f) = .string s := by
  rw [FieldKind.again, h]
  rfl

theorem trigger_fromDb_toConfigJson (t : Trigger) : Trigger.fromDb t.typeTag t.toConfigJson = .ok t := by
  have asStr_optional : ∀ o : Option String, (Trigger.optional o).asStr = o := by
    intro o
    cases o with
    | none => rfl
    | some s => rfl
  cases t with
  | cron schedule => rfl
  | event channel pattern =>
    change Except.ok (Trigger.event (Trigger.optional channel).asStr pattern) = _
    rw [asStr_optional]
  | webhook path secret =>
    change Except.ok (Trigger.webhook (Trigger.optional path).asStr (Trigger.optional secret).asStr) = _
    rw [asStr_optional, asStr_optional]
  | manual => rfl

theorem trigger_fromDb_reads {tag : String} {config : Json} {t : Trigger}
    (h : Trigger.fromDb tag config = .ok t) :
    ∃ fields ∈ triggerFields tag, Readable fields config ∧ t.typeTag = tag ∧
      t.toConfigJson = rebuild fields config := by
  unfold Trigger.fromDb at h
  split at h
  · split at h
    · rename_i schedule hschedule
      cases h
      refine ⟨_, rfl, fun f hf => ?_, rfl, ?_⟩
      · cases List.mem_singleton.mp hf
        exact ⟨schedule, bind_asStr hschedule⟩
      · simp only [rebuild, List.map, again_text hschedule]
        rfl
    · cases h
  · split at h
    · rename_i pattern hpattern
      cases h
      refine ⟨_, rfl, fun f hf => ?_, rfl, ?_⟩
      · obtain rfl : f = "pattern" := by simpa using hf
        exact ⟨pattern, bind_asStr hpattern⟩
      · simp only [rebuild, List.map, again_text hpattern]
        rfl
    · cases h
  · cases h
    refine ⟨_, rfl, fun f hf => ?_, rfl, rfl⟩
    simp at hf
  · cases h
    refine ⟨_, rfl, fun f hf => ?_, rfl, rfl⟩
    simp at hf
  · cases h

theorem exists_trigger_fromDb {tag : String} {config : Json} {fields : List (String × FieldKind)}
    (hfields : fields ∈ triggerFields tag) (hread : Readable fields config) :
    ∃ t, Trigger.fromDb tag config = .ok t := by
  unfold triggerFields at hfields
  split at hfields
  · cases hfields
    obtain ⟨schedule, hschedule⟩ := hread "schedule" (by simp)
    exact ⟨.cron schedule, by simp [Trigger.fromDb, hschedule, Json.asStr]⟩
  · cases hfields
    obtain ⟨pattern, hpattern⟩ := hread "pattern" (by simp)
    exact ⟨.event ((config.get "channel").bind Json.asStr) pattern,
      by simp [Trigger.fromDb, hpattern, Json.asStr]⟩
  · exact ⟨_, rfl⟩
  · exact ⟨_, rfl⟩
  · cases hfields

namespace RoutineAction

theorem limit_u32 {config : Json} {field : String} {n : UInt32} (d : UInt32)
    (h : config.get field = some (u32 n)) : limit config field d = n := by
  rw [limit, h, Option.bind_some, asU64_u32, Option.getD_some, UInt32.ofNat_toNat]

theorem fromDb_toConfigJson (a : RoutineAction) : fromDb a.typeTag a.toConfigJson = .ok a := by
  cases a with
  | lightweight prompt contextPaths maxTokens =>
    have hlimit : limit (toConfigJson (.lightweight prompt contextPaths maxTokens)) "max_tokens"
        defaultMaxTokens = maxTokens := limit_u32 _ rfl
    have hpaths : (contextPaths.map Json.string).filterMap Json.asStr = contextPaths :=
      map_string_filterMap contextPaths
    change Except.ok (RoutineAction.lightweight prompt
      ((contextPaths.map Json.string).filterMap Json.asStr) (limit _ "max_tokens" defaultMaxTokens)) = _
    rw [hlimit, hpaths]
  | fullJob title description maxIterations =>
    have hlimit : limit (toConfigJson (.fullJob title description maxIterations)) "max_iterations"
        defaultMaxIterations = maxIterations := limit_u32 _ rfl
    change Except.ok (RoutineAction.fullJob title description
      (limit _ "max_iterations" defaultMaxIterations)) = _
    rw [hlimit]

theorem fromDb_reads {tag : String} {config : Json} {a : RoutineAction}
    (h : fromDb tag config = .ok a) :
    ∃ fields ∈ actionFields tag, Readable fields config ∧ a.typeTag = tag ∧
      a.toConfigJson = rebuild fields config := by
  unfold fromDb at h
  split at h
  · split at h
    · rename_i prompt hprompt
      cases h
      refine ⟨_, rfl, fun f hf => ?_, rfl, ?_⟩
      · obtain rfl : f = "prompt" := by simpa using hf
        exact ⟨prompt, bind_asStr hprompt⟩
      · simp only [rebuild, List.map, again_text hprompt]
        rfl
    · cases h
  · split at h
    · rename_i title htitle
      split at h
      · rename_i description hdescription
        cases h
        refine ⟨_, rfl, fun f hf => ?_, rfl, ?_⟩
        · have hnames : f = "title" ∨ f = "description" := by simpa using hf
          obtain rfl | rfl := hnames
          · exact ⟨title, bind_asStr htitle⟩
          · exact ⟨description, bind_asStr hdescription⟩
        · simp only [rebuild, List.map, again_text htitle, again_text hdescription]
          rfl
      · cases h
    · cases h
  · cases h

theorem exists_fromDb {tag : String} {config : Json} {fields : List (String × FieldKind)}
    (hfields : fields ∈ actionFields tag) (hread : Readable fields config) :
    ∃ a, fromDb tag config = .ok a := by
  unfold actionFields at hfields
  split at hfields
  · cases hfields
    obtain ⟨prompt, hprompt⟩ := hread "prompt" (by simp)
    unfold fromDb
    rw [hprompt]
    exact ⟨_, rfl⟩
  · cases hfields
    obtain ⟨title, htitle⟩ := hread "title" (by simp)
    obtain ⟨description, hdescription⟩ := hread "description" (by simp)
    unfold fromDb
    rw [htitle, hdescription]
    exact ⟨_, rfl⟩
  · cases hfields

end RoutineAction

/-- Every trigger and every action is read back from what it is stored as. A stored configuration is
rejected or written again as it was exactly if each of its fields is one of the tag's fields and
holds what the field is for, a limit below `2 ^ 32` included. -/
theorem routine_definitions_stored (t : Trigger) (a : RoutineAction) (tag : String) (config : Json) :
    Trigger.fromDb t.typeTag t.toConfigJson = .ok t ∧
      RoutineAction.fromDb a.typeTag a.toConfigJson = .ok a ∧
      (Kept Trigger.fromDb Trigger.typeTag Trigger.toConfigJson triggerFields tag config ↔
        FittingIfRead triggerFields tag config) ∧
      (Kept RoutineAction.fromDb RoutineAction.typeTag RoutineAction.toConfigJson actionFields tag config ↔
        FittingIfRead actionFields tag config) :=
  ⟨trigger_fromDb_toConfigJson t, RoutineAction.fromDb_toConfigJson a,
    kept_iff trigger_fromDb_reads exists_trigger_fromDb,
    kept_iff RoutineAction.fromDb_reads RoutineAction.exists_fromDb⟩

/-- A limit from `2 ^ 32` on is wrapped. -/
theorem limit_wrapped : ¬ Kept RoutineAction.fromDb RoutineAction.typeTag RoutineAction.toConfigJson
    actionFields "lightweight"
    (.object [("prompt", .string "Say hello"), ("max_tokens", .number (.int (2 ^ 32 + 5)))]) := by
  intro h
  obtain ⟨-, fields, -, hcarries⟩ := h (.lightweight "Say hello" [] 5) (by decide +kernel)
  have hlimit := hcarries.present "max_tokens" (.number (.int (2 ^ 32 + 5))) (by decide +kernel)
  exact absurd hlimit (by decide +kernel)

end RoutineStorage

end Gyre.Agent
