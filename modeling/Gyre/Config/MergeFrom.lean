/- digest: Settings laid over settings: the values that differ from the default, and the others as they were. -/

import Gyre.Config.Settings

/-!
Both settings and their defaults go through JSON, where the merge is made, and the result is read
back. The merge is lost where it is not read.
-/

set_option autoImplicit false
set_option relaxedAutoImplicit false

namespace Gyre.Config

open Llm (Json Number)

section Merging

/-- Replaces what an object has under a key. -/
def setKey (t : List (String × Json)) (key : String) (v : Json) : List (String × Json) :=
  t.map fun e => if e.1 = key then (e.1, v) else e

mutual

@[grind =] def mergeNonDefault (target : Json) : (other defaults : Json) → Json
  | .object o, defaults =>
    match target, defaults with
    | .object t, .object d => .object (mergeFields t o d)
    | _, _ => if Json.object o ≠ defaults then .object o else target
  | other, defaults => if other ≠ defaults then other else target

/-- The fields of the other object, one after the other. -/
@[grind =] def mergeFields (t : List (String × Json)) : (o d : List (String × Json)) → List (String × Json)
  | [], _ => t
  | (key, otherVal) :: o, d =>
    let defaultVal := (d.lookup key).getD .null
    match t.lookup key with
    | some targetVal => mergeFields (setKey t key (mergeNonDefault targetVal otherVal defaultVal)) o d
    | none => if otherVal ≠ defaultVal then mergeFields (t ++ [(key, otherVal)]) o d else mergeFields t o d

end

variable {T : Type}

def Settings.mergeFrom (fmt : TomlFormat T) (self other : Settings T) : Settings T :=
  let codec := (Settings.fields fmt).codec
  match codec.write .default, codec.write other, codec.write self with
  | some defaultJson, some otherJson, some selfJson =>
    match codec.read (mergeNonDefault selfJson otherJson defaultJson) with
    | some merged => merged
    | none => self
  | _, _, _ => self

end Merging

section Meaning

variable {T : Type}

/-- The overlay's leaves where they differ from the default, and the base's; to merge again changes
nothing more, and the default changes nothing. -/
structure Layered (fmt : TomlFormat T) (base overlay : Settings T) : Prop where
  overlaid : ∀ l ∈ (Settings.fields fmt).leaves, l.get overlay ≠ l.get .default →
    l.get (base.mergeFrom fmt overlay) = l.get overlay
  kept : ∀ l ∈ (Settings.fields fmt).leaves, l.get overlay = l.get .default →
    l.get (base.mergeFrom fmt overlay) = l.get base
  twice : (base.mergeFrom fmt overlay).mergeFrom fmt overlay = base.mergeFrom fmt overlay
  unchanged : base.mergeFrom fmt .default = base

/-- The agents that a merge is to keep. -/
def keptAgents (base overlay : Settings T) : List (AgentDefinition T) :=
  if overlay.multiAgent.agents.isEmpty then base.multiAgent.agents else overlay.multiAgent.agents

/-- The values of the agents are the same after they were written to JSON. -/
def ReadBack (fmt : TomlFormat T) (agents : List (AgentDefinition T)) : Prop :=
  ∀ v ∈ configValues agents, fmt.read (fmt.write v) = some v

/-- All paths are text, and no value of the agents that are kept is refused when it is read. -/
def Readable (fmt : TomlFormat T) (base overlay : Settings T) : Prop :=
  base.TextPaths ∧ overlay.TextPaths ∧
    ∀ v ∈ configValues (keptAgents base overlay), fmt.read (fmt.write v) ≠ none

/-- Every leaf of the overlay is the default's or the base's. -/
def ChangesNothing (fmt : TomlFormat T) (base overlay : Settings T) : Prop :=
  ∀ l ∈ (Settings.fields fmt).leaves, l.get overlay = l.get .default ∨ l.get overlay = l.get base

/-- What is read is what was written, of the overlay and of the base alone; where nothing is read, there
was nothing to merge. -/
structure Mergeable (fmt : TomlFormat T) (base overlay : Settings T) : Prop where
  same : Readable fmt base overlay → ReadBack fmt (keptAgents base overlay)
  nothing : ¬ Readable fmt base overlay → ChangesNothing fmt base overlay
  alone : Readable fmt base .default → ReadBack fmt base.multiAgent.agents

end Meaning

section Objects

variable {before after : List (String × Json)} {key : String} {v w : Json}

theorem lookup_of_unique (hbefore : ∀ e ∈ before, e.1 ≠ key) :
    (before ++ (key, v) :: after).lookup key = some v := by
  rw [List.lookup_append, List.lookup_eq_none_iff.mpr, Option.none_or, List.lookup_cons_self]
  intro e he
  exact bne_iff_ne.mpr (hbefore e he).symm

theorem setKey_of_unique (hbefore : ∀ e ∈ before, e.1 ≠ key) (hafter : ∀ e ∈ after, e.1 ≠ key) :
    setKey (before ++ (key, v) :: after) key w = before ++ (key, w) :: after := by
  have hsame : ∀ l : List (String × Json), (∀ e ∈ l, e.1 ≠ key) → setKey l key w = l := by
    intro l hl
    unfold setKey
    refine (List.map_congr_left fun e he => if_neg (hl e he)).trans (List.map_id _)
  unfold setKey at hsame ⊢
  rw [List.map_append, List.map_cons, hsame before hbefore, hsame after hafter, if_pos rfl]

/-- One field of the other object is merged into its place. -/
theorem mergeFields_cons {defaults tailDefaults o : List (String × Json)} {otherVal defaultVal : Json}
    (hbefore : ∀ e ∈ before, e.1 ≠ key) (hafter : ∀ e ∈ after, e.1 ≠ key)
    (hdefaults : ∀ e ∈ defaults, e.1 ≠ key) :
    mergeFields (before ++ (key, v) :: after) ((key, otherVal) :: o)
        (defaults ++ (key, defaultVal) :: tailDefaults) =
      mergeFields (before ++ [(key, mergeNonDefault v otherVal defaultVal)] ++ after) o
        (defaults ++ [(key, defaultVal)] ++ tailDefaults) := by
  rw [mergeFields, lookup_of_unique hbefore, lookup_of_unique hdefaults, ← List.append_cons,
    ← List.append_cons]
  dsimp only
  rw [Option.getD_some, setKey_of_unique hbefore hafter]

theorem mergeNonDefault_of_plain {target other defaults : Json}
    (h : ∀ fields, defaults ≠ .object fields) :
    mergeNonDefault target other defaults = if other ≠ defaults then other else target := by
  cases other with
  | object o =>
    unfold mergeNonDefault
    split
    · exact absurd rfl (h _)
    · rfl
  | null => rfl
  | bool b => rfl
  | number n => rfl
  | string s => rfl
  | array items => rfl

end Objects

section Layers

/-- A value that is written in a way of its own, and not as an object. -/
def PlainAt {α : Type} (c : Codec α) (d : α) : Prop :=
  ∃ j, c.write d = some j ∧ (∀ fields, j ≠ .object fields) ∧ ∀ a, c.write a = some j → a = d

namespace Fields

variable {α : Type}

open Classical in
/-- The overlay's leaves where they differ from the default, and the base's. -/
@[grind =] noncomputable def layer : {α : Type} → Fields α → (default base overlay : α) → α
  | _, .nil, _, _, _ => ()
  | _, .leaf _ _ _ _ rest, d, b, o => (if o.1 = d.1 then b.1 else o.1, rest.layer d.2 b.2 o.2)
  | _, .nested _ _ inner rest, d, b, o => (inner.layer d.1 b.1 o.1, rest.layer d.2 b.2 o.2)
  | _, .transport e fs, d, b, o => e (fs.layer (e.symm d) (e.symm b) (e.symm o))

/-- A leaf of the layers is the overlay's if that differs from the default, and the base's if not. -/
theorem get_layer (fs : Fields α) {d b o : α} {l : Leaf α} (hl : l ∈ fs.leaves) :
    (l.get o ≠ l.get d → l.get (fs.layer d b o) = l.get o) ∧
      (l.get o = l.get d → l.get (fs.layer d b o) = l.get b) := by
  induction fs with
  | nil => cases hl
  | leaf name aliases missing c rest ih =>
    rcases List.mem_cons.mp hl with rfl | hrest
    · exact ⟨fun h => if_neg h, fun h => if_pos h⟩
    · obtain ⟨l', hl', rfl⟩ := List.mem_map.mp hrest
      exact ih hl'
  | nested name missing inner rest ihinner ih =>
    rcases List.mem_append.mp hl with hinner | hrest
    · obtain ⟨l', hl', rfl⟩ := List.mem_map.mp hinner
      exact ihinner hl'
    · obtain ⟨l', hl', rfl⟩ := List.mem_map.mp hrest
      exact ih hl'
  | transport e fs ih =>
    obtain ⟨l', hl', rfl⟩ := List.mem_map.mp hl
    unfold layer Leaf.comap
    dsimp only
    rw [Equiv.symm_apply_apply]
    exact ih hl'

theorem notMem_snoc {fs : Fields α} {before : List (String × Json)} {name : String} {v : Json}
    (hname : name ∉ fs.keys) (hbefore : ∀ e ∈ before, e.1 ∉ fs.keys) :
    ∀ e ∈ before ++ [(name, v)], e.1 ∉ fs.keys := by
  intro e he
  rcases List.mem_append.mp he with he | he
  · exact hbefore e he
  · rw [List.mem_singleton.mp he]
    exact hname

open Classical in
/-- Where the default is told apart by its JSON, so is what differs from it. -/
theorem write_leafLayer {c : Codec α} {d b o : α} {jd jb jo : Json} (hplain : PlainAt c d)
    (hd : c.write d = some jd) (hb : c.write b = some jb) (ho : c.write o = some jo) :
    c.write (if o = d then b else o) = some (mergeNonDefault jb jo jd) := by
  obtain ⟨j, hj, hobject, hunique⟩ := hplain
  obtain rfl : j = jd := Option.some_inj.mp (hj.symm.trans hd)
  rw [mergeNonDefault_of_plain hobject]
  by_cases heq : o = d
  · have hsame : jo = j := by
      rw [heq, hd] at ho
      exact (Option.some_inj.mp ho).symm
    rw [if_pos heq, if_neg (not_not_intro hsame), hb]
  · have hdiffer : jo ≠ j := fun hsame => heq (hunique o (hsame ▸ ho))
    rw [if_neg heq, if_pos hdiffer, ho]

/-- What is merged of two written records is what is written of their layers. -/
theorem mergeFields_write (fs : Fields α) (hwell : fs.wellFormed = true) {d b o : α}
    {before defaults jd jb jo : List (String × Json)} (hplain : fs.Forall PlainAt d)
    (hd : fs.write d = some jd) (hb : fs.write b = some jb) (ho : fs.write o = some jo)
    (hbefore : ∀ e ∈ before, e.1 ∉ fs.keys) (hdefaults : ∀ e ∈ defaults, e.1 ∉ fs.keys) :
    ∃ jm, fs.write (fs.layer d b o) = some jm ∧
      mergeFields (before ++ jb) jo (defaults ++ jd) = before ++ jm := by
  induction fs generalizing before defaults jd jb jo with
  | nil =>
    cases hd
    cases hb
    cases ho
    exact ⟨[], rfl, rfl⟩
  | leaf name aliases missing c rest ih =>
    obtain ⟨d₀, d⟩ := d
    obtain ⟨b₀, b⟩ := b
    obtain ⟨o₀, o⟩ := o
    obtain ⟨hplain, hrestplain⟩ := hplain
    obtain ⟨jd, tailDefaults, hjd, hdtail, rfl⟩ := write_leaf.mp hd
    obtain ⟨jb, tailBase, hjb, hbtail, rfl⟩ := write_leaf.mp hb
    obtain ⟨jo, tailOverlay, hjo, hotail, rfl⟩ := write_leaf.mp ho
    obtain ⟨hname, hwell⟩ := wellFormed_leaf.mp hwell
    obtain ⟨jm, hjm, hmerge⟩ := ih hwell hrestplain hdtail hbtail hotail
      (notMem_snoc (v := mergeNonDefault jb jo jd) (hname name List.mem_cons_self) fun e he hmem =>
        hbefore e he (List.mem_append_right _ hmem))
      (notMem_snoc (v := jd) (hname name List.mem_cons_self) fun e he hmem => hdefaults e he (List.mem_append_right _ hmem))
    refine ⟨_, write_leaf.mpr ⟨_, jm, write_leafLayer hplain hjd hjb hjo, hjm, rfl⟩, ?_⟩
    rw [mergeFields_cons, hmerge, ← List.append_cons]
    · intro e he hkey
      exact hbefore e he (hkey ▸ List.mem_cons_self)
    · intro e he hkey
      exact hname name List.mem_cons_self (hkey ▸ mem_keys_of_write rest hbtail he)
    · intro e he hkey
      exact hdefaults e he (hkey ▸ List.mem_cons_self)
  | nested name missing inner rest ihinner ih =>
    obtain ⟨d₀, d⟩ := d
    obtain ⟨b₀, b⟩ := b
    obtain ⟨o₀, o⟩ := o
    obtain ⟨hplain, hrestplain⟩ := hplain
    obtain ⟨jd, tailDefaults, hjd, hdtail, rfl⟩ := write_nested.mp hd
    obtain ⟨jb, tailBase, hjb, hbtail, rfl⟩ := write_nested.mp hb
    obtain ⟨jo, tailOverlay, hjo, hotail, rfl⟩ := write_nested.mp ho
    obtain ⟨hname, hinner, hwell⟩ := wellFormed_nested.mp hwell
    obtain ⟨jn, hjn, hinnermerge⟩ := ihinner hinner hplain hjd hjb hjo
      (List.forall_mem_nil fun e : String × Json => e.1 ∉ inner.keys)
      (List.forall_mem_nil fun e : String × Json => e.1 ∉ inner.keys)
    rw [List.nil_append, List.nil_append, List.nil_append] at hinnermerge
    obtain ⟨jm, hjm, hmerge⟩ := ih hwell hrestplain hdtail hbtail hotail
      (notMem_snoc (v := .object jn) hname fun e he hmem => hbefore e he (List.mem_cons_of_mem _ hmem))
      (notMem_snoc (v := .object jd) hname fun e he hmem =>
        hdefaults e he (List.mem_cons_of_mem _ hmem))
    refine ⟨_, write_nested.mpr ⟨jn, jm, hjn, hjm, rfl⟩, ?_⟩
    rw [mergeFields_cons, mergeNonDefault, hinnermerge, hmerge, ← List.append_cons]
    · intro e he hkey
      exact hbefore e he (hkey ▸ List.mem_cons_self)
    · intro e he hkey
      exact hname (hkey ▸ mem_keys_of_write rest hbtail he)
    · intro e he hkey
      exact hdefaults e he (hkey ▸ List.mem_cons_self)
  | transport e fs ih =>
    obtain ⟨jm, hjm, hmerge⟩ := ih hwell hplain hd hb ho hbefore hdefaults
    refine ⟨jm, ?_, hmerge⟩
    unfold write layer
    rw [Equiv.symm_apply_apply]
    exact hjm

/-- What is read of the merge of two written records is what is read of their layers. -/
theorem read_merge (fs : Fields α) (hwell : fs.wellFormed = true) {d b o : α} {jd jb jo : Json}
    (hplain : fs.Forall PlainAt d) (hd : fs.codec.write d = some jd) (hb : fs.codec.write b = some jb)
    (ho : fs.codec.write o = some jo) :
    fs.codec.read (mergeNonDefault jb jo jd) = fs.again (fs.layer d b o) := by
  obtain ⟨d', hd', rfl⟩ := Option.map_eq_some_iff.mp hd
  obtain ⟨b', hb', rfl⟩ := Option.map_eq_some_iff.mp hb
  obtain ⟨o', ho', rfl⟩ := Option.map_eq_some_iff.mp ho
  have hnil := List.forall_mem_nil fun e : String × Json => e.1 ∉ fs.keys
  obtain ⟨jm, hjm, hmerge⟩ := fs.mergeFields_write hwell hplain hd' hb' ho' hnil hnil
  rw [List.nil_append, List.nil_append, List.nil_append] at hmerge
  have hread := fs.readObject_write hwell hjm hnil
  rw [List.nil_append] at hread
  rw [mergeNonDefault, hmerge]
  exact hread

end Fields

end Layers

section Result

variable {T : Type} {fmt : TomlFormat T}

theorem plainAt_of_lawful {α : Type} {c : Codec α} (h : c.Lawful) {d : α} (hwrite : c.write d ≠ none) :
    PlainAt c d := by
  obtain ⟨j, hj⟩ := Option.ne_none_iff_exists'.mp hwrite
  exact ⟨j, hj, h.plain hj, fun a ha => h.write_inj ha hj⟩

theorem plainAt_nil {α : Type} {c : Codec α} : PlainAt c.vec [] := by
  refine ⟨.array [], rfl, nofun, fun l hl => ?_⟩
  obtain ⟨js, hjs, hnil⟩ := Option.map_eq_some_iff.mp hl
  cases l with
  | nil => rfl
  | cons a l =>
    rw [mapM_cons_eq] at hjs
    obtain ⟨p, -, rfl⟩ := Option.map_eq_some_iff.mp hjs
    cases hnil

theorem default_textPaths : (Settings.default : Settings T).TextPaths := by
  unfold Settings.TextPaths Settings.paths
  simp [Settings.default, ChannelSettings.default, WasmSettings.default, BuilderSettings.default,
    MultiAgentSettings.default]

theorem default_plainAt : (Settings.fields fmt).Forall PlainAt .default := by
  rw [Settings.forall_iff fun h a => plainAt_of_lawful h.lawful (h.total a)]
  refine ⟨fun p hp => plainAt_of_lawful PathBuf.lawful_option ?_, plainAt_nil⟩
  exact write_path_ne_none.mpr (default_textPaths p hp)

namespace Settings

/-- The settings that a merge should give. -/
@[grind =] noncomputable def layer (fmt : TomlFormat T) (base overlay : Settings T) : Settings T :=
  (Settings.fields fmt).layer .default base overlay

theorem codec_write_ne_none {s : Settings T} :
    (Settings.fields fmt).codec.write s ≠ none ↔ s.TextPaths := by
  have hfields : (Settings.fields fmt).write s ≠ none ↔ s.TextPaths := Settings.write_ne_none
  rw [← hfields]
  exact not_congr Option.map_eq_none_iff

/-- Where all paths are text, a merge gives the layers, if they can be read. -/
theorem mergeFrom_of_text {base overlay : Settings T} (hbase : base.TextPaths)
    (hoverlay : overlay.TextPaths) : base.mergeFrom fmt overlay =
      ((Settings.fields fmt).again (layer fmt base overlay)).getD base := by
  obtain ⟨jd, hjd⟩ := Option.ne_none_iff_exists'.mp (codec_write_ne_none.mpr default_textPaths)
  obtain ⟨jb, hjb⟩ := Option.ne_none_iff_exists'.mp (codec_write_ne_none.mpr hbase)
  obtain ⟨jo, hjo⟩ := Option.ne_none_iff_exists'.mp (codec_write_ne_none.mpr hoverlay)
  have hread := (Settings.fields fmt).read_merge fields_wellFormed default_plainAt hjd hjb hjo
  unfold mergeFrom layer
  dsimp only
  rw [hjd, hjb, hjo, ← hread]
  dsimp only
  cases (Settings.fields fmt).codec.read (mergeNonDefault jb jo jd) with
  | none => rfl
  | some merged => rfl

/-- Where a path is not text, nothing is merged. -/
theorem mergeFrom_of_not_text {base overlay : Settings T} (h : ¬ (base.TextPaths ∧ overlay.TextPaths)) :
    base.mergeFrom fmt overlay = base := by
  unfold mergeFrom
  dsimp only
  split
  · next hjd hjo hjb =>
    have hbase := codec_write_ne_none.mp (Option.ne_none_iff_exists'.mpr ⟨_, hjb⟩)
    have hoverlay := codec_write_ne_none.mp (Option.ne_none_iff_exists'.mpr ⟨_, hjo⟩)
    exact absurd ⟨hbase, hoverlay⟩ h
  · rfl

theorem layer_textPaths {base overlay : Settings T} (hbase : base.TextPaths)
    (hoverlay : overlay.TextPaths) : (layer fmt base overlay).TextPaths := by
  have hdefault : (Settings.default : Settings T).TextPaths := default_textPaths
  obtain ⟨jd, hjd⟩ := Option.ne_none_iff_exists'.mp (Settings.write_ne_none.mpr hdefault)
  obtain ⟨jb, hjb⟩ := Option.ne_none_iff_exists'.mp (Settings.write_ne_none.mpr hbase)
  obtain ⟨jo, hjo⟩ := Option.ne_none_iff_exists'.mp (Settings.write_ne_none.mpr hoverlay)
  have hnil := List.forall_mem_nil fun e : String × Json => e.1 ∉ (Settings.fields fmt).keys
  obtain ⟨jm, hjm, -⟩ := (Settings.fields fmt).mergeFields_write fields_wellFormed default_plainAt hjd hjb
    hjo hnil hnil
  exact Settings.write_ne_none.mp (Option.ne_none_iff_exists'.mpr ⟨jm, hjm⟩)

theorem layer_agents (fmt : TomlFormat T) (base overlay : Settings T) :
    (layer fmt base overlay).multiAgent.agents = keptAgents base overlay := by
  have hlayer : (layer fmt base overlay).multiAgent.agents =
      @ite _ (overlay.multiAgent.agents = []) (Classical.propDecidable _) base.multiAgent.agents
        overlay.multiAgent.agents := rfl
  rw [hlayer]
  unfold keptAgents
  by_cases hempty : overlay.multiAgent.agents = []
  · rw [if_pos hempty, if_pos (List.isEmpty_iff.mpr hempty)]
  · rw [if_neg hempty, if_neg fun h => hempty (List.isEmpty_iff.mp h)]

theorem layer_eq_base_iff {base overlay : Settings T} :
    layer fmt base overlay = base ↔ ChangesNothing fmt base overlay := by
  constructor
  · intro h l hl
    by_cases hdefault : l.get overlay = l.get .default
    · exact .inl hdefault
    · refine .inr ?_
      rw [← ((Settings.fields fmt).get_layer hl).1 hdefault]
      exact congrArg l.get h
  · intro h
    refine (Settings.fields fmt).ext_leaves fun l hl => ?_
    obtain ⟨hne, heq⟩ := (Settings.fields fmt).get_layer (d := .default) (b := base) (o := overlay) hl
    by_cases hdefault : l.get overlay = l.get .default
    · exact heq hdefault
    · exact (hne hdefault).trans ((h l hl).resolve_left hdefault)

/-- Laid over the layers, the overlay changes nothing more. -/
theorem layer_layer (base overlay : Settings T) :
    layer fmt (layer fmt base overlay) overlay = layer fmt base overlay := by
  refine layer_eq_base_iff.mpr fun l hl => ?_
  by_cases hdefault : l.get overlay = l.get .default
  · exact .inl hdefault
  · exact .inr (((Settings.fields fmt).get_layer hl).1 hdefault).symm

theorem layer_default (base : Settings T) : layer fmt base .default = base :=
  layer_eq_base_iff.mpr fun _ _ => .inl rfl

theorem mergeFrom_eq_layer_iff {base overlay : Settings T} :
    base.mergeFrom fmt overlay = layer fmt base overlay ↔
      (Readable fmt base overlay → ReadBack fmt (keptAgents base overlay)) ∧
        (¬ Readable fmt base overlay → ChangesNothing fmt base overlay) := by
  by_cases htext : base.TextPaths ∧ overlay.TextPaths
  · obtain ⟨hbase, hoverlay⟩ := htext
    have hlayer : (layer fmt base overlay).TextPaths := layer_textPaths hbase hoverlay
    have hreadable : Readable fmt base overlay ↔
        (Settings.fields fmt).again (layer fmt base overlay) ≠ none := by
      rw [Settings.again_ne_none hlayer, layer_agents]
      exact ⟨fun h => h.2.2, fun h => ⟨hbase, hoverlay, h⟩⟩
    have hback : ReadBack fmt (keptAgents base overlay) ↔
        (Settings.fields fmt).again (layer fmt base overlay) = some (layer fmt base overlay) := by
      rw [Settings.again_eq_some hlayer, layer_agents]
      rfl
    rw [mergeFrom_of_text hbase hoverlay, hreadable, hback, ← layer_eq_base_iff]
    cases (Settings.fields fmt).again (layer fmt base overlay) with
    | none => simp [eq_comm]
    | some merged => simp
  · have hreadable : ¬ Readable fmt base overlay := fun h => htext ⟨h.1, h.2.1⟩
    rw [mergeFrom_of_not_text htext, eq_comm, layer_eq_base_iff]
    exact ⟨fun h => ⟨fun hread => absurd hread hreadable, fun _ => h⟩, fun h => h.2 hreadable⟩

/-- Every leaf is as it should be exactly if the merge gives the layers. -/
theorem leaves_iff {base overlay merged : Settings T} :
    ((∀ l ∈ (Settings.fields fmt).leaves, l.get overlay ≠ l.get .default →
        l.get merged = l.get overlay) ∧
      ∀ l ∈ (Settings.fields fmt).leaves, l.get overlay = l.get .default →
        l.get merged = l.get base) ↔ merged = layer fmt base overlay := by
  constructor
  · rintro ⟨hoverlaid, hkept⟩
    refine (Settings.fields fmt).ext_leaves fun l hl => ?_
    obtain ⟨hne, heq⟩ := (Settings.fields fmt).get_layer (d := .default) (b := base) (o := overlay) hl
    by_cases hdefault : l.get overlay = l.get .default
    · exact (hkept l hl hdefault).trans (heq hdefault).symm
    · exact (hoverlaid l hl hdefault).trans (hne hdefault).symm
  · rintro rfl
    exact ⟨fun l hl => ((Settings.fields fmt).get_layer hl).1,
      fun l hl => ((Settings.fields fmt).get_layer hl).2⟩

theorem keptAgents_layer (base overlay : Settings T) :
    keptAgents (layer fmt base overlay) overlay = keptAgents base overlay := by
  rw [← layer_agents fmt, layer_layer, layer_agents]

/-- A merge that gave the layers gives them again. -/
theorem mergeFrom_twice {base overlay : Settings T}
    (h : base.mergeFrom fmt overlay = layer fmt base overlay) :
    (layer fmt base overlay).mergeFrom fmt overlay = layer fmt base overlay := by
  have hagain : (layer fmt base overlay).mergeFrom fmt overlay =
      layer fmt (layer fmt base overlay) overlay := by
    refine mergeFrom_eq_layer_iff.mpr ⟨fun hread => ?_, fun _ => ?_⟩
    · obtain ⟨hlayer, hoverlay, haccepted⟩ := hread
      rw [keptAgents_layer] at haccepted ⊢
      refine (mergeFrom_eq_layer_iff.mp h).1 ⟨?_, hoverlay, haccepted⟩
      by_contra hbase
      rw [mergeFrom_of_not_text fun hboth => hbase hboth.1] at h
      exact hbase (h ▸ hlayer)
    · exact layer_eq_base_iff.mp (layer_layer base overlay)
  rw [hagain, layer_layer]

end Settings

end Result

/-- Settings are laid over others exactly if what the merge reads is what was written, or there was
nothing to merge. -/
theorem layered_iff {T : Type} (fmt : TomlFormat T) (base overlay : Settings T) :
    Layered fmt base overlay ↔ Mergeable fmt base overlay := by
  have hdefault : base.mergeFrom fmt .default = base ↔
      (Readable fmt base .default → ReadBack fmt base.multiAgent.agents) := by
    have hlayer : base.mergeFrom fmt .default = base ↔
        base.mergeFrom fmt .default = Settings.layer fmt base .default := by
      rw [Settings.layer_default]
    rw [hlayer, Settings.mergeFrom_eq_layer_iff]
    exact ⟨fun h => h.1, fun h => ⟨h, fun _ => Settings.layer_eq_base_iff.mp (Settings.layer_default base)⟩⟩
  constructor
  · intro h
    obtain ⟨hsame, hnothing⟩ :=
      Settings.mergeFrom_eq_layer_iff.mp (Settings.leaves_iff.mp ⟨h.overlaid, h.kept⟩)
    exact ⟨hsame, hnothing, hdefault.mp h.unchanged⟩
  · intro h
    have hmerge := Settings.mergeFrom_eq_layer_iff.mpr ⟨h.same, h.nothing⟩
    obtain ⟨hoverlaid, hkept⟩ := Settings.leaves_iff.mpr hmerge
    refine ⟨hoverlaid, hkept, ?_, hdefault.mpr h.alone⟩
    rw [hmerge]
    exact Settings.mergeFrom_twice hmerge

section Numbers

/-- How the numbers of a TOML file are written and read: a float that is not finite is written as null,
and null is not read. -/
def tomlNumbers : TomlFormat Number where
  write
    | .int n => .number (.int n)
    | .float bits => if bits >>> 52 &&& 0x7FF = 0x7FF then .null else .number (.float bits)
  read
    | .number (.int n) => if (Int64.ofInt n).toInt = n then some (.int n) else none
    | .number (.float bits) => some (.float bits)
    | _ => none

/-- A model is selected, and a channel of an agent has a timeout that is not a number. -/
def nanOverlay : Settings Number :=
  let channel : ChannelBinding Number := ⟨"telegram", none, [("timeout", .float 0x7FF8000000000000)]⟩
  let agent : AgentDefinition Number := ⟨"kimi", none, none, none, [channel], true⟩
  { (Settings.default : Settings Number) with
    selectedModel := some "gpt-5"
    multiAgent := ⟨none, none, [agent]⟩ }

/-- Nothing of an overlay is merged if one number in it is not finite. -/
theorem nan_overlay_lost :
    nanOverlay.selectedModel = some "gpt-5" ∧
      (Settings.default.mergeFrom tomlNumbers nanOverlay).selectedModel = none ∧
      ¬ Layered tomlNumbers .default nanOverlay := by
  have htext : nanOverlay.TextPaths := (default_textPaths : (Settings.default : Settings Number).TextPaths)
  have hlayer : (Settings.layer tomlNumbers .default nanOverlay).TextPaths :=
    Settings.layer_textPaths default_textPaths htext
  have hvalue : .float 0x7FF8000000000000 ∈
      configValues (Settings.layer tomlNumbers .default nanOverlay).multiAgent.agents := by
    rw [Settings.layer_agents]
    exact List.mem_singleton.mpr rfl
  have hnone : (Settings.fields tomlNumbers).again
      (Settings.layer tomlNumbers .default nanOverlay) = none := by
    by_contra hsome
    exact (Settings.again_ne_none hlayer).mp hsome _ hvalue rfl
  have hlost : (Settings.default.mergeFrom tomlNumbers nanOverlay).selectedModel = none := by
    rw [Settings.mergeFrom_of_text default_textPaths htext, hnone]
    rfl
  have hmodel : nanOverlay.selectedModel = some "gpt-5" := rfl
  refine ⟨hmodel, hlost, fun h => ?_⟩
  let model : Leaf (Settings Number) := ⟨["selected_model"], Option String, fun s => s.selectedModel⟩
  have hget : ∀ s : Settings Number, model.get s = s.selectedModel := fun _ => rfl
  have hleaf : (Settings.fields tomlNumbers).leaves[10]? = some model := rfl
  have hne : model.get nanOverlay ≠ model.get .default := by
    rw [hget, hmodel]
    exact Option.some_ne_none _
  have hoverlaid := h.overlaid model (List.mem_of_getElem? hleaf) hne
  rw [hget, hget, hlost, hmodel] at hoverlaid
  cases hoverlaid

end Numbers

end Gyre.Config
