/- digest: What is kept when tool lists and tool results are read from an MCP server's JSON. -/

import Mathlib.Data.List.Basic
import Gyre.Llm.Value

/-!
The types of the protocol with the readers and writers that are derived for them. The same writer, with
the names that the protocol gives the fields, is what a server sends.
-/

set_option autoImplicit false
set_option relaxedAutoImplicit false

namespace Gyre.Tools.Mcp.Wire

open Gyre.Llm

section Reading

variable {α : Type}

/-- A field of a struct: by its names in an object, by its place in an array. -/
def field (v : Json) (place : Nat) (names : List String) : Option (Option Json) :=
  match v with
  | .object fields =>
    match names.filterMap fun name => Json.get (.object fields) name with
    | [] => some none
    | [w] => some (some w)
    | _ => none
  | .array items => some items[place]?
  | _ => none

/-- An array has no more items than the struct has fields. -/
def fitsIn (v : Json) (count : Nat) : Bool :=
  match v with
  | .array items => items.length ≤ count
  | _ => true

def required (read : Json → Option α) (f : Option (Option Json)) : Option α :=
  f.bind fun found => found.bind read

/-- `#[serde(default)]`. -/
def orDefault (read : Json → Option α) (d : α) (f : Option (Option Json)) : Option α :=
  f.bind fun found => match found with
    | none => some d
    | some w => read w

def nullable (read : Json → Option α) : Json → Option (Option α)
  | .null => some none
  | v => (read v).map some

/-- An `Option` without a default may be absent from an object, not from an array. -/
def optionField (v : Json) (place : Nat) (name : String) (read : Json → Option α) :
    Option (Option α) :=
  match v with
  | .object _ => orDefault (nullable read) none (field v place [name])
  | _ => required (nullable read) (field v place [name])

def asBool : Json → Option Bool
  | .bool b => some b
  | _ => none

def asList (read : Json → Option α) : Json → Option (List α)
  | .array items => items.mapM read
  | _ => none

end Reading

section Writing

/-- A field as it is declared, with the value that may be left out. -/
structure Entry where
  declared : String
  default : Option Json
  value : Json

/-- How the fields are named, and which are left out at their default. -/
structure Style where
  name : String → String
  omits : String → Bool

def Style.skips (s : Style) (e : Entry) : Bool := s.omits e.declared && e.default == some e.value

def write (s : Style) (entries : List Entry) : Json :=
  .object (entries.filterMap fun e => if s.skips e then none else some (s.name e.declared, e.value))

/-- The derived writer. -/
def own : Style where
  name declared := if declared = "input_schema" then "inputSchema" else declared
  omits _ := false

/-- The protocol's names of the fields. -/
def camelCase : String → String
  | "input_schema" => "inputSchema"
  | "destructive_hint" => "destructiveHint"
  | "side_effects_hint" => "sideEffectsHint"
  | "read_only_hint" => "readOnlyHint"
  | "execution_time_hint" => "executionTimeHint"
  | "is_error" => "isError"
  | "mime_type" => "mimeType"
  | other => other

/-- A server's writer. -/
def wire (omits : String → Bool) : Style := ⟨camelCase, omits⟩

end Writing

inductive ExecutionTimeHint where
  | fast
  | medium
  | slow
  deriving DecidableEq, Repr

namespace ExecutionTimeHint

def name : ExecutionTimeHint → String
  | .fast => "fast"
  | .medium => "medium"
  | .slow => "slow"

def ofName : String → Option ExecutionTimeHint
  | "fast" => some .fast
  | "medium" => some .medium
  | "slow" => some .slow
  | _ => none

def read : Json → Option ExecutionTimeHint
  | .string s => ofName s
  | .object [(s, .null)] => ofName s
  | _ => none

end ExecutionTimeHint

structure McpToolAnnotations where
  destructiveHint : Bool := false
  sideEffectsHint : Bool := false
  readOnlyHint : Bool := false
  executionTimeHint : Option ExecutionTimeHint := none
  deriving DecidableEq

namespace McpToolAnnotations

def read (v : Json) : Option McpToolAnnotations :=
  if fitsIn v 4 then do
    let destructiveHint ← orDefault asBool false (field v 0 ["destructive_hint"])
    let sideEffectsHint ← orDefault asBool false (field v 1 ["side_effects_hint"])
    let readOnlyHint ← orDefault asBool false (field v 2 ["read_only_hint"])
    let executionTimeHint ←
      orDefault (nullable ExecutionTimeHint.read) none (field v 3 ["execution_time_hint"])
    some ⟨destructiveHint, sideEffectsHint, readOnlyHint, executionTimeHint⟩
  else none

def entries (a : McpToolAnnotations) : List Entry :=
  [⟨"destructive_hint", some (.bool false), .bool a.destructiveHint⟩,
    ⟨"side_effects_hint", some (.bool false), .bool a.sideEffectsHint⟩,
    ⟨"read_only_hint", some (.bool false), .bool a.readOnlyHint⟩,
    ⟨"execution_time_hint", some .null,
      (a.executionTimeHint.map fun h => Json.string h.name).getD .null⟩]

end McpToolAnnotations

structure McpTool where
  name : String
  description : String
  inputSchema : Json
  annotations : Option McpToolAnnotations
  deriving DecidableEq

namespace McpTool

def defaultInputSchema : Json := .object [("type", .string "object"), ("properties", .object [])]

def read (v : Json) : Option McpTool :=
  if fitsIn v 4 then do
    let name ← required Json.asStr (field v 0 ["name"])
    let description ← orDefault Json.asStr "" (field v 1 ["description"])
    let inputSchema ← orDefault some defaultInputSchema (field v 2 ["inputSchema", "input_schema"])
    let annotations ← orDefault (nullable McpToolAnnotations.read) none (field v 3 ["annotations"])
    some ⟨name, description, inputSchema, annotations⟩
  else none

def entries (s : Style) (t : McpTool) : List Entry :=
  [⟨"name", none, .string t.name⟩, ⟨"description", some (.string ""), .string t.description⟩,
    ⟨"input_schema", some defaultInputSchema, t.inputSchema⟩,
    ⟨"annotations", some .null, (t.annotations.map fun a => write s a.entries).getD .null⟩]

def requiresApproval (t : McpTool) : Bool := (t.annotations.map (·.destructiveHint)).getD false

end McpTool

inductive ContentBlock where
  | text (text : String)
  | image (data mimeType : String)
  | resource (uri : String) (mimeType text : Option String)
  deriving DecidableEq, Repr

namespace ContentBlock

def read (v : Json) : Option ContentBlock :=
  (required Json.asStr (field v 0 ["type"])).bind fun tag =>
    match tag with
    | "text" => if fitsIn v 2 then (required Json.asStr (field v 1 ["text"])).map .text else none
    | "image" =>
      if fitsIn v 3 then do
        let data ← required Json.asStr (field v 1 ["data"])
        let mimeType ← required Json.asStr (field v 2 ["mime_type"])
        some (.image data mimeType)
      else none
    | "resource" =>
      if fitsIn v 4 then do
        let uri ← required Json.asStr (field v 1 ["uri"])
        let mimeType ← optionField v 2 "mime_type" Json.asStr
        let s ← optionField v 3 "text" Json.asStr
        some (.resource uri mimeType s)
      else none
    | _ => none

def optionalString (s : Option String) : Json := (s.map Json.string).getD .null

def entries : ContentBlock → List Entry
  | .text s => [⟨"type", none, .string "text"⟩, ⟨"text", none, .string s⟩]
  | .image data mimeType =>
    [⟨"type", none, .string "image"⟩, ⟨"data", none, .string data⟩,
      ⟨"mime_type", none, .string mimeType⟩]
  | .resource uri mimeType s =>
    [⟨"type", none, .string "resource"⟩, ⟨"uri", none, .string uri⟩,
      ⟨"mime_type", some .null, optionalString mimeType⟩, ⟨"text", some .null, optionalString s⟩]

def asText : ContentBlock → Option String
  | .text s => some s
  | _ => none

end ContentBlock

structure ListToolsResult where
  tools : List McpTool
  deriving DecidableEq

namespace ListToolsResult

def read (v : Json) : Option ListToolsResult :=
  if fitsIn v 1 then (required (asList McpTool.read) (field v 0 ["tools"])).map .mk else none

def written (s : Style) (r : ListToolsResult) : Json :=
  write s [⟨"tools", none, .array (r.tools.map fun t => write s (t.entries s))⟩]

end ListToolsResult

structure CallToolResult where
  content : List ContentBlock
  isError : Bool
  deriving DecidableEq

namespace CallToolResult

def read (v : Json) : Option CallToolResult :=
  if fitsIn v 2 then do
    let content ← required (asList ContentBlock.read) (field v 0 ["content"])
    let isError ← orDefault asBool false (field v 1 ["is_error"])
    some ⟨content, isError⟩
  else none

def written (s : Style) (r : CallToolResult) : Json :=
  write s [⟨"content", none, .array (r.content.map fun b => write s b.entries)⟩,
    ⟨"is_error", some (.bool false), .bool r.isError⟩]

/-- What the tool's `execute` makes of a result. -/
def outcome (r : CallToolResult) : Except String String :=
  let content := "\n".intercalate (r.content.filterMap ContentBlock.asText)
  if r.isError then .error content else .ok content

end CallToolResult

section Fields

variable {α : Type} {s : Style} {entries : List Entry} {e : Entry} {n : String}

theorem get_write_of_notMem (h : n ∉ entries.map fun e => s.name e.declared) :
    (write s entries).get n = none := by
  unfold write Json.get
  dsimp only
  rw [Option.map_eq_none_iff, List.find?_eq_none]
  intro f hf hn
  obtain ⟨e, he, hsome⟩ := List.mem_filterMap.mp hf
  split at hsome
  · cases hsome
  · cases hsome
    exact h (List.mem_map.mpr ⟨e, he, beq_iff_eq.mp hn⟩)

/-- A field is found under its name, unless it was left out. -/
theorem get_write (hnames : (entries.map fun e => s.name e.declared).Nodup) (he : e ∈ entries) :
    (write s entries).get (s.name e.declared) = if s.skips e then none else some e.value := by
  induction entries with
  | nil => cases he
  | cons e' entries ih =>
    rw [List.map_cons, List.nodup_cons] at hnames
    have hget : ∀ m, (write s (e' :: entries)).get m =
        if s.skips e' then (write s entries).get m
        else if s.name e'.declared == m then some e'.value else (write s entries).get m := by
      intro m
      unfold write Json.get
      dsimp only
      rw [List.filterMap_cons]
      by_cases hskip : s.skips e'
      · simp [hskip]
      · by_cases hm : s.name e'.declared = m
        · simp [hskip, hm]
        · simp [hskip, hm]
    rw [hget]
    rcases List.mem_cons.mp he with rfl | he
    · rw [get_write_of_notMem hnames.1, beq_self_eq_true, if_pos rfl]
    · have hother : s.name e'.declared ≠ s.name e.declared := by
        intro hsame
        exact hnames.1 (hsame ▸ List.mem_map.mpr ⟨e, he, rfl⟩)
      rw [ih hnames.2 he, beq_eq_false_iff_ne.mpr hother]
      simp

theorem field_write (place : Nat) :
    field (write s entries) place [n] = some ((write s entries).get n) := by
  unfold write field
  dsimp only
  rw [List.filterMap_cons, List.filterMap_nil]
  cases Json.get (.object (entries.filterMap fun e =>
    if s.skips e then none else some (s.name e.declared, e.value))) n with
  | none => rfl
  | some w => rfl

theorem fitsIn_write (count : Nat) : fitsIn (write s entries) count = true := rfl

/-- A field without a default is always written. -/
theorem field_required {place : Nat} (hnames : (entries.map fun e => s.name e.declared).Nodup)
    (he : entries[place]? = some e) (hdefault : e.default = none) (hn : s.name e.declared = n) :
    field (write s entries) place [n] = some (some e.value) := by
  have hkeep : s.skips e = false := by
    unfold Style.skips
    rw [hdefault]
    simp
  rw [field_write, ← hn, get_write hnames (List.mem_of_getElem? he), hkeep]
  rfl

theorem required_write {read : Json → Option α} {place : Nat} {a : α}
    (hnames : (entries.map fun e => s.name e.declared).Nodup) (he : entries[place]? = some e)
    (hdefault : e.default = none) (hread : read e.value = some a) (hn : s.name e.declared = n) :
    required read (field (write s entries) place [n]) = some a := by
  rw [field_required hnames he hdefault hn]
  exact hread

theorem orDefault_write {read : Json → Option α} {place : Nat} {a d : α}
    (hnames : (entries.map fun e => s.name e.declared).Nodup) (he : entries[place]? = some e)
    (hread : read e.value = some a) (hdefault : e.default = some e.value → a = d)
    (hn : s.name e.declared = n) :
    orDefault read d (field (write s entries) place [n]) = some a := by
  rw [field_write, ← hn, get_write hnames (List.mem_of_getElem? he)]
  cases hskip : s.skips e with
  | false => exact hread
  | true =>
    unfold Style.skips at hskip
    rw [Bool.and_eq_true, beq_iff_eq] at hskip
    rw [hdefault hskip.2]
    rfl

/-- A field that the writer calls by another name is read as its default. -/
theorem orDefault_renamed {read : Json → Option α} {place : Nat} {d : α}
    (h : n ∉ entries.map fun e => s.name e.declared) :
    orDefault read d (field (write s entries) place [n]) = some d := by
  rw [field_write, get_write_of_notMem h]
  rfl

theorem optionField_write {read : Json → Option α} {place : Nat} :
    optionField (write s entries) place n read =
      orDefault (nullable read) none (field (write s entries) place [n]) := rfl

theorem required_renamed {read : Json → Option α} {place : Nat}
    (h : n ∉ entries.map fun e => s.name e.declared) :
    required read (field (write s entries) place [n]) = none := by
  rw [field_write, get_write_of_notMem h]
  rfl

theorem field_alias {m : String} (place : Nat) (h : m ∉ entries.map fun e => s.name e.declared) :
    field (write s entries) place [n, m] = field (write s entries) place [n] := by
  have hnone := get_write_of_notMem h
  unfold write at hnone ⊢
  unfold field
  dsimp only
  rw [List.filterMap_cons, List.filterMap_cons, List.filterMap_cons, hnone]

end Fields

section Round

variable {α : Type} {omits : String → Bool}

private theorem nullable_string (o : Option String) :
    nullable Json.asStr (ContentBlock.optionalString o) = some o := by
  cases o with
  | none => rfl
  | some s => rfl

private theorem optionalString_null {o : Option String}
    (h : (some Json.null : Option Json) = some (ContentBlock.optionalString o)) : o = none := by
  cases o with
  | none => rfl
  | some s => cases h

theorem ExecutionTimeHint.ofName_name (h : ExecutionTimeHint) : ofName h.name = some h := by
  cases h <;> rfl

private theorem nullable_hint (o : Option ExecutionTimeHint) :
    nullable ExecutionTimeHint.read ((o.map fun h => Json.string h.name).getD .null) = some o := by
  cases o with
  | none => rfl
  | some h =>
    change (ExecutionTimeHint.ofName h.name).map some = _
    rw [h.ofName_name]
    rfl

private theorem hint_null {o : Option ExecutionTimeHint}
    (h : (some Json.null : Option Json) = some ((o.map fun h => Json.string h.name).getD .null)) :
    o = none := by
  cases o with
  | none => rfl
  | some hint => cases h

private theorem bool_default {b d : Bool} (h : (some (Json.bool d) : Option Json) = some (.bool b)) :
    b = d := by
  cases h
  rfl

/-- The derived writer and reader agree on annotations. -/
theorem McpToolAnnotations.read_own (a : McpToolAnnotations) : read (write own a.entries) = some a := by
  have hnames : (a.entries.map fun e => own.name e.declared).Nodup := by
    simp [entries, own]
  have hdestructive : orDefault asBool false (field (write own a.entries) 0 ["destructive_hint"]) =
      some a.destructiveHint := orDefault_write hnames rfl rfl bool_default rfl
  have hside : orDefault asBool false (field (write own a.entries) 1 ["side_effects_hint"]) =
      some a.sideEffectsHint := orDefault_write hnames rfl rfl bool_default rfl
  have hreadOnly : orDefault asBool false (field (write own a.entries) 2 ["read_only_hint"]) =
      some a.readOnlyHint := orDefault_write hnames rfl rfl bool_default rfl
  have htime : orDefault (nullable ExecutionTimeHint.read) none
      (field (write own a.entries) 3 ["execution_time_hint"]) = some a.executionTimeHint :=
    orDefault_write hnames rfl (nullable_hint a.executionTimeHint) hint_null rfl
  unfold read
  rw [fitsIn_write, if_pos rfl, hdestructive, hside, hreadOnly, htime]
  rfl

/-- Of the annotations that a server sends, nothing is read. -/
theorem McpToolAnnotations.read_wire (a : McpToolAnnotations) :
    read (write (wire omits) a.entries) = some {} := by
  have hread : ∀ n ∈ ["destructive_hint", "side_effects_hint", "read_only_hint",
      "execution_time_hint"], n ∉ a.entries.map fun e => (wire omits).name e.declared := by
    simp [entries, wire, camelCase]
  unfold read
  rw [fitsIn_write, if_pos rfl, orDefault_renamed (hread _ (by simp)),
    orDefault_renamed (hread _ (by simp)), orDefault_renamed (hread _ (by simp)),
    orDefault_renamed (hread _ (by simp))]
  rfl

/-- A tool is read from either writing, with the annotations that are read from theirs. -/
theorem McpTool.read_written {s : Style} {t : McpTool}
    (hs : ∀ f ∈ ["name", "description", "annotations"], s.name f = f)
    (hschema : s.name "input_schema" = "inputSchema")
    {r : McpToolAnnotations → McpToolAnnotations}
    (hread : ∀ a : McpToolAnnotations, McpToolAnnotations.read (write s a.entries) = some (r a)) :
    read (write s (t.entries s)) = some { t with annotations := t.annotations.map r } := by
  have hname := hs "name" (by simp)
  have hdescription := hs "description" (by simp)
  have hannotations := hs "annotations" (by simp)
  have hkeys : (t.entries s).map (fun e => s.name e.declared) =
      ["name", "description", "inputSchema", "annotations"] := by
    simp [entries, hname, hdescription, hschema, hannotations]
  have hnames : ((t.entries s).map fun e => s.name e.declared).Nodup := by
    rw [hkeys]
    simp
  have hfirst : required Json.asStr (field (write s (t.entries s)) 0 ["name"]) = some t.name :=
    required_write hnames rfl rfl rfl hname
  have hsecond : orDefault Json.asStr "" (field (write s (t.entries s)) 1 ["description"]) =
      some t.description :=
    orDefault_write hnames rfl rfl (fun h => (Json.string.inj (Option.some.inj h)).symm)
      hdescription
  have hthird : orDefault some defaultInputSchema
      (field (write s (t.entries s)) 2 ["inputSchema", "input_schema"]) = some t.inputSchema := by
    rw [field_alias 2 (by rw [hkeys]; simp)]
    exact orDefault_write hnames rfl rfl (fun h => (Option.some.inj h).symm) hschema
  have hfourth : orDefault (nullable McpToolAnnotations.read) none
      (field (write s (t.entries s)) 3 ["annotations"]) = some (t.annotations.map r) := by
    refine orDefault_write hnames rfl ?_ (fun h => ?_) hannotations
    · cases t.annotations with
      | none => rfl
      | some a =>
        change (McpToolAnnotations.read (write s a.entries)).map some = _
        rw [hread]
        rfl
    · cases ha : t.annotations with
      | none => rfl
      | some a =>
        rw [ha] at h
        cases h
  unfold read
  rw [fitsIn_write, if_pos rfl, hfirst, hsecond, hthird, hfourth]
  rfl

private theorem mapM_written {β : Type} {write : α → Json} {read : Json → Option β} {r : α → β}
    {l : List α} (h : ∀ a ∈ l, read (write a) = some (r a)) : (l.map write).mapM read = some (l.map r) := by
  induction l with
  | nil => rfl
  | cons a l ih =>
    rw [List.map_cons, List.mapM_cons, h a List.mem_cons_self,
      ih fun b hb => h b (List.mem_cons_of_mem a hb)]
    rfl

private theorem mapM_self_iff {f : α → Option α} {l : List α} :
    l.mapM f = some l ↔ ∀ a ∈ l, f a = some a := by
  induction l with
  | nil => simp
  | cons a l ih =>
    rw [List.mapM_cons, List.forall_mem_cons, ← ih]
    cases f a with
    | none => simp
    | some b =>
      cases l.mapM f with
      | none => simp
      | some l' => simp

theorem ListToolsResult.read_written {s : Style} {l : ListToolsResult} {r : McpTool → McpTool}
    (hs : s.name "tools" = "tools")
    (hread : ∀ t : McpTool, McpTool.read (write s (t.entries s)) = some (r t)) :
    read (l.written s) = some ⟨l.tools.map r⟩ := by
  have htools : required (asList McpTool.read) (field (l.written s) 0 ["tools"]) =
      some (l.tools.map r) :=
    required_write (by simp) rfl rfl (mapM_written fun t _ => hread t) hs
  unfold read
  rw [htools]
  rfl

/-- What is left of a tool that a server sends. -/
def McpTool.unannotated (t : McpTool) : McpTool :=
  { t with annotations := t.annotations.map fun _ => {} }

theorem ListToolsResult.read_own (l : ListToolsResult) : read (l.written own) = some l := by
  have htool : ∀ t : McpTool, McpTool.read (write own (t.entries own)) = some t := by
    intro t
    rw [McpTool.read_written (by simp [own]) rfl McpToolAnnotations.read_own, Option.map_id']
  rw [read_written rfl htool, List.map_id']

theorem ListToolsResult.read_wire (l : ListToolsResult) :
    read (l.written (wire omits)) = some ⟨l.tools.map McpTool.unannotated⟩ :=
  read_written rfl fun _ => McpTool.read_written (by simp [wire, camelCase]) rfl McpToolAnnotations.read_wire

/-- What is left of a content block that a server sends, if it can be read. -/
def ContentBlock.unlabelled : ContentBlock → Option ContentBlock
  | .text s => some (.text s)
  | .image _ _ => none
  | .resource uri _ s => some (.resource uri none s)

section Content

variable {s : Style} (hs : ∀ f ∈ ["type", "text", "data", "uri"], s.name f = f)
  {m : String} (hmime : s.name "mime_type" = m) (hm : m ∉ ["type", "text", "data", "uri"])
include hs hmime hm

private theorem entries_nodup (b : ContentBlock) :
    (b.entries.map fun e => s.name e.declared).Nodup := by
  have htype := hs "type" (by simp)
  have htext := hs "text" (by simp)
  have hdata := hs "data" (by simp)
  have huri := hs "uri" (by simp)
  simp only [List.mem_cons, List.not_mem_nil, or_false, not_or] at hm
  obtain ⟨h1, h2, h3, h4⟩ := hm
  cases b with
  | text t => simp [ContentBlock.entries, htype, htext]
  | image data mimeType =>
    simp [ContentBlock.entries, htype, hdata, hmime, Ne.symm h1, Ne.symm h3]
  | resource uri mimeType t =>
    simp [ContentBlock.entries, htype, huri, htext, hmime, Ne.symm h1, h2, Ne.symm h4]

theorem ContentBlock.read_written (b : ContentBlock) :
    read (write s b.entries) = if m = "mime_type" then some b else b.unlabelled := by
  have hnames := entries_nodup hs hmime hm b
  have htype := hs "type" (by simp)
  have htext := hs "text" (by simp)
  have hdata := hs "data" (by simp)
  have huri := hs "uri" (by simp)
  cases b with
  | text t =>
    have htag : required Json.asStr (field (write s (entries (.text t))) 0 ["type"]) =
        some "text" := required_write hnames rfl rfl rfl htype
    have hfirst : required Json.asStr (field (write s (entries (.text t))) 1 ["text"]) = some t :=
      required_write hnames rfl rfl rfl htext
    unfold read
    rw [htag, Option.bind_some, fitsIn_write, if_pos rfl, hfirst]
    exact (ite_self _).symm
  | image data mimeType =>
    have htag : required Json.asStr (field (write s (entries (.image data mimeType))) 0 ["type"]) =
        some "image" := required_write hnames rfl rfl rfl htype
    have hfirst : required Json.asStr (field (write s (entries (.image data mimeType))) 1 ["data"]) =
        some data := required_write hnames rfl rfl rfl hdata
    unfold read
    rw [htag, Option.bind_some, fitsIn_write, if_pos rfl, hfirst]
    by_cases hsame : m = "mime_type"
    · have hsecond : required Json.asStr
          (field (write s (entries (.image data mimeType))) 2 ["mime_type"]) = some mimeType :=
        required_write hnames rfl rfl rfl (hmime.trans hsame)
      rw [hsecond, if_pos hsame]
      rfl
    · have hsecond : required Json.asStr
          (field (write s (entries (.image data mimeType))) 2 ["mime_type"]) = none :=
        required_renamed (by simp [entries, htype, hdata, hmime, Ne.symm hsame])
      rw [hsecond, if_neg hsame]
      rfl
  | resource uri mimeType t =>
    have htag : required Json.asStr (field (write s (entries (.resource uri mimeType t))) 0 ["type"]) =
        some "resource" := required_write hnames rfl rfl rfl htype
    have hfirst : required Json.asStr (field (write s (entries (.resource uri mimeType t))) 1 ["uri"]) =
        some uri := required_write hnames rfl rfl rfl huri
    have hthird : optionField (write s (entries (.resource uri mimeType t))) 3 "text" Json.asStr =
        some t := by
      rw [optionField_write]
      exact orDefault_write hnames rfl (nullable_string t) optionalString_null htext
    unfold read
    rw [htag, Option.bind_some, fitsIn_write, if_pos rfl, hfirst, hthird, optionField_write]
    by_cases hsame : m = "mime_type"
    · have hsecond : orDefault (nullable Json.asStr) none
          (field (write s (entries (.resource uri mimeType t))) 2 ["mime_type"]) = some mimeType :=
        orDefault_write hnames rfl (nullable_string mimeType) optionalString_null (hmime.trans hsame)
      rw [hsecond, if_pos hsame]
      rfl
    · have hsecond : orDefault (nullable Json.asStr) none
          (field (write s (entries (.resource uri mimeType t))) 2 ["mime_type"]) = some none :=
        orDefault_renamed (by simp [entries, htype, huri, htext, hmime, Ne.symm hsame])
      rw [hsecond, if_neg hsame]
      rfl

end Content

section Results

variable {s : Style} {r : CallToolResult} {content : Option (List ContentBlock)}

theorem CallToolResult.read_written {errorName : String} (hcontent : s.name "content" = "content")
    (herror : s.name "is_error" = errorName) (hne : errorName ≠ "content")
    (hread : (r.content.map fun b => write s b.entries).mapM ContentBlock.read = content) :
    read (r.written s) =
      content.map fun c => ⟨c, if errorName = "is_error" then r.isError else false⟩ := by
  have hnames : ([⟨"content", none, .array (r.content.map fun b => write s b.entries)⟩,
      ⟨"is_error", some (.bool false), .bool r.isError⟩].map fun e : Entry => s.name e.declared).Nodup := by
    simp [hcontent, herror, Ne.symm hne]
  have hfirst : required (asList ContentBlock.read) (field (r.written s) 0 ["content"]) = content := by
    unfold written
    rw [field_required hnames rfl rfl hcontent]
    exact hread
  have hsecond : orDefault asBool false (field (r.written s) 1 ["is_error"]) =
      some (if errorName = "is_error" then r.isError else false) := by
    by_cases hsame : errorName = "is_error"
    · rw [if_pos hsame]
      exact orDefault_write hnames rfl rfl bool_default (herror.trans hsame)
    · rw [if_neg hsame]
      exact orDefault_renamed (by simp [hcontent, herror, Ne.symm hsame])
  have hfits : fitsIn (r.written s) 2 = true := rfl
  unfold read
  rw [hfits, if_pos rfl, hfirst, hsecond]
  cases content with
  | none => rfl
  | some c => rfl

end Results

theorem CallToolResult.read_own (r : CallToolResult) : read (r.written own) = some r := by
  have hblocks : (r.content.map fun b => write own b.entries).mapM ContentBlock.read =
      some (r.content.map id) :=
    mapM_written fun b _ => by
      rw [ContentBlock.read_written (by simp [own]) rfl (by simp [own])]
      rfl
  rw [List.map_id] at hblocks
  rw [read_written rfl rfl (by decide) hblocks]
  rfl

/-- A result that a server sends is never read as an error. -/
theorem CallToolResult.read_wire (r : CallToolResult) : read (r.written (wire omits)) =
    (r.content.mapM ContentBlock.unlabelled).map fun c => ⟨c, false⟩ := by
  have hblocks : (r.content.map fun b => write (wire omits) b.entries).mapM ContentBlock.read =
      r.content.mapM ContentBlock.unlabelled := by
    rw [List.mapM_map]
    congr 1
    funext b
    rw [Function.comp_apply, ContentBlock.read_written (by simp [wire, camelCase]) rfl
      (by simp [wire, camelCase])]
    rfl
  have herror : (wire omits).name "is_error" = "isError" := rfl
  rw [read_written rfl herror (by decide) hblocks]
  rfl

/-- A tool without any hint. -/
def McpTool.Plain (t : McpTool) : Prop := ∀ a ∈ t.annotations, a = {}

/-- A content block without a field that the protocol writes in two words. -/
def ContentBlock.Plain : ContentBlock → Prop
  | .text _ => True
  | .image _ _ => False
  | .resource _ mimeType _ => mimeType = none

theorem McpTool.unannotated_eq_iff {t : McpTool} : t.unannotated = t ↔ t.Plain := by
  obtain ⟨name, description, inputSchema, annotations⟩ := t
  unfold unannotated Plain
  cases annotations with
  | none => simp
  | some a => simp [eq_comm]

theorem ContentBlock.unlabelled_eq_iff {b : ContentBlock} : b.unlabelled = some b ↔ b.Plain := by
  cases b with
  | text s => simp [unlabelled, Plain]
  | image data mimeType => simp [unlabelled, Plain]
  | resource uri mimeType s => simp [unlabelled, Plain, eq_comm]

end Round

/-- Everything that is written is read back as it was. Of what a server sends, a tool list is read as
it was exactly if it has no hint, and a tool result exactly if it is no error and has no MIME type. -/
theorem read_back (omits : String → Bool) :
    (∀ l : ListToolsResult, ListToolsResult.read (l.written own) = some l) ∧
      (∀ r : CallToolResult, CallToolResult.read (r.written own) = some r) ∧
      (∀ l : ListToolsResult, ListToolsResult.read (l.written (wire omits)) = some l ↔
        ∀ t ∈ l.tools, t.Plain) ∧
      ∀ r : CallToolResult, CallToolResult.read (r.written (wire omits)) = some r ↔
        r.isError = false ∧ ∀ b ∈ r.content, b.Plain := by
  refine ⟨ListToolsResult.read_own, CallToolResult.read_own, fun l => ?_, fun r => ?_⟩
  · have hlist : (⟨l.tools.map McpTool.unannotated⟩ : ListToolsResult) = l ↔
        l.tools.map McpTool.unannotated = l.tools.map id := by
      rw [List.map_id]
      exact ⟨congrArg ListToolsResult.tools, fun h => congrArg ListToolsResult.mk h⟩
    rw [ListToolsResult.read_wire, Option.some_inj, hlist, List.map_inj_left]
    exact forall₂_congr fun t _ => McpTool.unannotated_eq_iff
  · have hblocks : r.content.mapM ContentBlock.unlabelled = some r.content ↔
        ∀ b ∈ r.content, b.Plain := by
      rw [mapM_self_iff]
      exact forall₂_congr fun b _ => ContentBlock.unlabelled_eq_iff
    rw [CallToolResult.read_wire, Option.map_eq_some_iff, ← hblocks]
    constructor
    · rintro ⟨c, hc, hr⟩
      rw [hc, ← hr]
      exact ⟨rfl, rfl⟩
    · rintro ⟨herror, hc⟩
      refine ⟨r.content, hc, ?_⟩
      rw [← herror]

/-- No tool of a server's list requires approval, and no result of a server is reported as an error. -/
theorem hints_hidden (omits : String → Bool) :
    (∀ l got : ListToolsResult, ListToolsResult.read (l.written (wire omits)) = some got →
      ∀ t ∈ got.tools, t.requiresApproval = false) ∧
      ∀ r got : CallToolResult, CallToolResult.read (r.written (wire omits)) = some got →
        ∃ content, got.outcome = .ok content := by
  constructor
  · intro l got hgot t ht
    rw [ListToolsResult.read_wire] at hgot
    cases hgot
    obtain ⟨sent, -, rfl⟩ := List.mem_map.mp ht
    unfold McpTool.requiresApproval McpTool.unannotated
    cases sent.annotations with
    | none => rfl
    | some a => rfl
  · intro r got hgot
    rw [CallToolResult.read_wire, Option.map_eq_some_iff] at hgot
    obtain ⟨c, -, rfl⟩ := hgot
    exact ⟨_, rfl⟩

/-- A tool that its server calls destructive needs no approval. -/
theorem destructive_hint_lost :
    let sent : ListToolsResult := ⟨[⟨"delete_repo", "Delete a repository", McpTool.defaultInputSchema,
      some { destructiveHint := true }⟩]⟩
    let got := ListToolsResult.read (sent.written (wire fun _ => false))
    got ≠ some sent ∧ sent.tools.all McpTool.requiresApproval ∧
      got.map (fun l => l.tools.any McpTool.requiresApproval) = some false := by
  decide +kernel

end Gyre.Tools.Mcp.Wire
