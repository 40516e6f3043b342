/- digest: When entities that are created by name keep one identity for each name. -/

import Gyre.Cognitive.KnowledgeGraph
import Mathlib.Data.List.Induction

/-!
Nothing in the table makes a name unique, so a second upsert of a name adds a second row; and the
upsert of a whole entity replaces its row together with the embedding.
-/

set_option autoImplicit false
set_option relaxedAutoImplicit false

namespace Gyre.Cognitive

open Gyre.Lib Gyre.Llm

section Observations

def KnowledgeGraph.names (g : KnowledgeGraph) : List (List Char) := g.rows.map (·.entity.name)

def KnowledgeGraph.ids (g : KnowledgeGraph) : List Uuid := g.rows.map (·.entity.id)

/-- The name that a write upserts by name. -/
def KgStep.named : KgStep → Option (List Char)
  | .upsertByName _ _ named => some named.name
  | .upsertByNameWithEmbedding _ _ named _ => some named.name
  | _ => none

/-- The name that a write enters. -/
def KgStep.entered : KgStep → Option (List Char)
  | .upsertEntity e => some e.name
  | step => step.named

/-- The id that a write draws for an entity it creates by name. -/
def KgStep.drawn : KgStep → Option Uuid
  | .upsertByName newId _ _ => some newId
  | .upsertByNameWithEmbedding newId _ _ _ => some newId
  | _ => none

/-- The embedding that a write supplies. -/
def KgStep.supplied : KgStep → Option Embedding
  | .upsertByNameWithEmbedding _ _ _ embedding => embedding
  | _ => none

/-- The ids of the entities that some writes create by name. -/
def created (steps : List KgStep) : List Uuid := steps.filterMap KgStep.drawn

/-- No two entities that the writes create by name have one name. -/
def UniqueNames (steps : List KgStep) : Prop :=
  ∀ r ∈ (kgRun steps).rows, ∀ s ∈ (kgRun steps).rows, r.entity.id ∈ created steps →
    s.entity.id ∈ created steps → r.entity.name = s.entity.name → r.entity.id = s.entity.id

/-- What the graph promises of a write, behind the writes of a run that went before. -/
structure Identified (front : List KgStep) (step : KgStep) : Prop where
  unique : UniqueNames (front ++ [step])
  agree : ∀ earlier other, earlier ++ [other] <+: front → other.named = step.named →
    step.named ≠ none → (other.apply (kgRun earlier)).2 = (step.apply (kgRun front)).2
  grows : (kgRun front).entityCount < (kgRun (front ++ [step])).entityCount →
    ∃ name, step.entered = some name ∧ name ∉ (kgRun front).names
  embeddings : step.supplied = none → ∀ r ∈ (kgRun front).rows, r.embedding ≠ none →
    ∃ s ∈ (kgRun (front ++ [step])).rows, s.entity.id = r.entity.id ∧ s.embedding = r.embedding

/-- A write names no entity that is there or was upserted before; and it replaces no row that has an
embedding, or by which two entities created by name would share one. -/
def Distinct (front : List KgStep) (step : KgStep) : Prop :=
  match step with
  | .upsertByName _ _ named | .upsertByNameWithEmbedding _ _ named _ =>
    named.name ∉ (kgRun front).names ∧ some named.name ∉ front.map KgStep.named
  | .upsertEntity e =>
    (e.id ∉ (kgRun front).ids → e.name ∉ (kgRun front).names) ∧
    (∀ row ∈ (kgRun front).rows, row.entity.id = e.id → row.embedding = none) ∧
    (e.id ∈ created front → ∀ other ∈ (kgRun front).rows, other.entity.id ∈ created front →
      other.entity.name = e.name → other.entity.id = e.id)
  | .backfillEmbeddings _ => True

/-- `Uuid::new_v4`: the ids that are drawn are not in use. -/
def DrawsFresh (steps : List KgStep) : Prop :=
  ∀ front step, front ++ [step] <+: steps → ∀ id, step.drawn = some id → id ∉ (kgRun front).ids

end Observations

section Writes

variable {g : KnowledgeGraph}

theorem kgRun_concat (front : List KgStep) (step : KgStep) :
    kgRun (front ++ [step]) = (step.apply (kgRun front)).1 := List.foldl_concat ..

/-- The rows after an upsert by name that fills in an embedding, if there is one. -/
private def touch (name : List Char) (now : Int) (embedding : Option Embedding) (row : KgRow) : KgRow :=
  match embedding with
  | some b => KnowledgeGraph.fill name now b row
  | none => row

private theorem touch_id (name : List Char) (now : Int) (embedding : Option Embedding) (row : KgRow) :
    (touch name now embedding row).entity.id = row.entity.id := by
  unfold touch KnowledgeGraph.fill
  split
  · split <;> rfl
  · rfl

private theorem touch_name (name : List Char) (now : Int) (embedding : Option Embedding) (row : KgRow) :
    (touch name now embedding row).entity.name = row.entity.name := by
  unfold touch KnowledgeGraph.fill
  split
  · split <;> rfl
  · rfl

private theorem touch_none (name : List Char) (now : Int) : touch name now none = id := rfl

private theorem touch_embedding {name : List Char} {now : Int} {embedding : Option Embedding}
    {row : KgRow} (h : row.embedding ≠ none) :
    (touch name now embedding row).embedding = row.embedding := by
  unfold touch KnowledgeGraph.fill
  split
  · rw [if_neg fun hempty => h hempty.2]
  · rfl

/-- An upsert by name under a new id adds a row, whatever rows of the name there are. -/
private theorem upsertByName_rows {newId : Uuid} (hfresh : newId ∉ g.ids) (now : Int)
    (named : KnowledgeGraph.Named) (embedding : Option Embedding) :
    ∃ row : KgRow, row.entity.id = newId ∧ row.entity.name = named.name ∧
      (g.upsertByNameWithEmbedding newId now named embedding).1.rows =
        g.rows.map (touch named.name now embedding) ++ [row] := by
  have hnew : g.rows.any (·.entity.id == newId) = false := by
    rw [List.any_eq_false]
    intro row hrow hid
    exact hfresh (eq_of_beq hid ▸ List.mem_map_of_mem hrow)
  refine ⟨touch named.name now embedding
    ⟨⟨newId, named.name, named.layer, named.summary, named.importance, now, now⟩, embedding⟩,
    touch_id .., touch_name .., ?_⟩
  simp only [KnowledgeGraph.upsertByNameWithEmbedding, hnew, Bool.false_eq_true, if_false]
  cases embedding with
  | none => simp [touch_none]
  | some b => simp [touch]

private theorem upsertByName_subset (newId : Uuid) (now : Int) (named : KnowledgeGraph.Named)
    (embedding : Option Embedding) :
    g.ids ⊆ (g.upsertByNameWithEmbedding newId now named embedding).1.ids ∧
      newId ∈ (g.upsertByNameWithEmbedding newId now named embedding).1.ids := by
  by_cases hfresh : newId ∈ g.ids
  · have hold : g.rows.any (·.entity.id == newId) = true := by
      obtain ⟨row, hrow, hid⟩ := List.mem_map.mp hfresh
      exact List.any_eq_true.mpr ⟨row, hrow, beq_iff_eq.mpr hid⟩
    have hsame : (g.upsertByNameWithEmbedding newId now named embedding).1.ids = g.ids := by
      simp only [KnowledgeGraph.upsertByNameWithEmbedding, hold, if_true, KnowledgeGraph.ids]
      cases embedding with
      | none => rfl
      | some b =>
        rw [List.map_map]
        exact List.map_congr_left fun row _ => touch_id named.name now (some b) row
    rw [hsame]
    exact ⟨List.Subset.refl _, hfresh⟩
  · obtain ⟨row, hid, -, hrows⟩ := upsertByName_rows hfresh now named embedding
    have hids : (g.upsertByNameWithEmbedding newId now named embedding).1.ids = g.ids ++ [newId] := by
      simp [KnowledgeGraph.ids, hrows, hid, Function.comp_def, touch_id]
    rw [hids]
    exact ⟨List.subset_append_left _ _, List.mem_append_right _ List.mem_cons_self⟩

/-- No write loses an id, and the id of an entity created by name is there. -/
private theorem apply_subset (step : KgStep) :
    g.ids ⊆ (step.apply g).1.ids ∧ ∀ id, step.drawn = some id → id ∈ (step.apply g).1.ids := by
  cases step with
  | upsertByName newId now named =>
    obtain ⟨hsub, hnew⟩ := upsertByName_subset (g := g) newId now named none
    exact ⟨hsub, fun id hid => Option.some.inj hid ▸ hnew⟩
  | upsertByNameWithEmbedding newId now named embedding =>
    obtain ⟨hsub, hnew⟩ := upsertByName_subset (g := g) newId now named embedding
    exact ⟨hsub, fun id hid => Option.some.inj hid ▸ hnew⟩
  | upsertEntity e =>
    refine ⟨fun id hid => ?_, fun id hid => absurd hid (by simp [KgStep.drawn])⟩
    obtain ⟨row, hrow, rfl⟩ := List.mem_map.mp hid
    refine List.mem_map.mpr ?_
    by_cases hsame : row.entity.id = e.id
    · exact ⟨⟨e, none⟩, List.mem_append_right _ List.mem_cons_self, hsame.symm⟩
    · exact ⟨row, List.mem_append_left _ (List.mem_filter.mpr ⟨hrow, decide_eq_true hsame⟩), rfl⟩
  | backfillEmbeddings embed =>
    refine ⟨fun id hid => ?_, fun id hid => absurd hid (by simp [KgStep.drawn])⟩
    obtain ⟨row, hrow, rfl⟩ := List.mem_map.mp hid
    refine List.mem_map.mpr ⟨_, List.mem_map_of_mem hrow, ?_⟩
    unfold KnowledgeGraph.backfillOne
    split
    · rfl
    · dsimp only
      split <;> rfl

/-- An id that is returned is that of a row. -/
private theorem apply_result {step : KgStep} {id : Uuid} (h : (step.apply g).2 = some id) :
    id ∈ (step.apply g).1.ids := by
  have hnamed (newId : Uuid) (now : Int) (named : KnowledgeGraph.Named) (embedding : Option Embedding)
      (h : (g.upsertByNameWithEmbedding newId now named embedding).2 = some id) :
      id ∈ (g.upsertByNameWithEmbedding newId now named embedding).1.ids := by
    obtain ⟨row, hrow, hid⟩ := Option.map_eq_some_iff.mp h
    exact hid ▸ List.mem_map_of_mem (List.mem_of_find?_eq_some hrow)
  cases step with
  | upsertByName newId now named => exact hnamed newId now named none h
  | upsertByNameWithEmbedding newId now named embedding => exact hnamed newId now named embedding h
  | upsertEntity e => cases h
  | backfillEmbeddings embed => cases h

end Writes

section Runs

private theorem created_concat (front : List KgStep) (step : KgStep) :
    created (front ++ [step]) = created front ++ step.drawn.toList := by
  cases h : step.drawn <;> simp [created, h]

theorem ids_mono {earlier front : List KgStep} (h : earlier <+: front) :
    (kgRun earlier).ids ⊆ (kgRun front).ids := by
  obtain ⟨rest, rfl⟩ := h
  induction rest using List.reverseRecOn with
  | nil => exact (List.append_nil earlier).symm ▸ List.Subset.refl _
  | append_singleton rest step ih =>
    rw [← List.append_assoc, kgRun_concat]
    exact List.Subset.trans ih (apply_subset step).1

theorem created_subset (steps : List KgStep) : created steps ⊆ (kgRun steps).ids := by
  induction steps using List.reverseRecOn with
  | nil => exact List.nil_subset _
  | append_singleton front step ih =>
    rw [created_concat, kgRun_concat]
    refine List.append_subset.mpr ⟨List.Subset.trans ih (apply_subset step).1, fun id hid => ?_⟩
    exact (apply_subset step).2 id (Option.mem_toList.mp hid)

variable {front : List KgStep}

/-- A write that upserts by name: what it does to the rows. -/
private structure AddsNamed (front : List KgStep) (step : KgStep) (name : List Char) (newId : Uuid) :
    Prop where
  named : step.named = some name
  entered : step.entered = some name
  drawn : step.drawn = some newId
  fresh : newId ∉ (kgRun front).ids
  rows : ∃ (keep : KgRow → KgRow) (row : KgRow),
    (∀ r, (keep r).entity.id = r.entity.id ∧ (keep r).entity.name = r.entity.name) ∧
    (∀ r, r.embedding ≠ none → (keep r).embedding = r.embedding) ∧
    row.entity.id = newId ∧ row.entity.name = name ∧
    (kgRun (front ++ [step])).rows = (kgRun front).rows.map keep ++ [row]
  returned : (step.apply (kgRun front)).2 =
    ((kgRun (front ++ [step])).rows.find? (·.entity.name == name)).map (·.entity.id)

private theorem addsNamed_of_apply {step : KgStep} {newId : Uuid} {now : Int}
    {named : KnowledgeGraph.Named} {embedding : Option Embedding}
    (hstep : step.apply (kgRun front) =
      (kgRun front).upsertByNameWithEmbedding newId now named embedding)
    (hnamed : step.named = some named.name) (hentered : step.entered = some named.name)
    (hdrawn : step.drawn = some newId) (hfresh : newId ∉ (kgRun front).ids) :
    AddsNamed front step named.name newId := by
  refine ⟨hnamed, hentered, hdrawn, hfresh, ?_, ?_⟩
  · obtain ⟨row, hid, hname, hrows⟩ := upsertByName_rows hfresh now named embedding
    refine ⟨touch named.name now embedding, row, fun r => ⟨touch_id .., touch_name ..⟩,
      fun r => touch_embedding, hid, hname, ?_⟩
    rw [kgRun_concat, hstep, hrows]
  · rw [kgRun_concat, hstep]
    rfl

/-- An upsert by name keeps the promise exactly if the name is new, to the graph and to the run. -/
private theorem addsNamed_iff {step : KgStep} {name : List Char} {newId : Uuid}
    (h : AddsNamed front step name newId) (hunique : UniqueNames front) :
    Identified front step ↔ name ∉ (kgRun front).names ∧ some name ∉ front.map KgStep.named := by
  obtain ⟨keep, row, hkeep, hembedding, hid, hname, hrows⟩ := h.rows
  constructor
  · intro hidentified
    have habsent : name ∉ (kgRun front).names := by
      have hmore : (kgRun front).entityCount < (kgRun (front ++ [step])).entityCount := by
        simp [KnowledgeGraph.entityCount, hrows]
      obtain ⟨entered, hentered, hnot⟩ := hidentified.grows hmore
      rw [h.entered] at hentered
      exact Option.some.inj hentered ▸ hnot
    refine ⟨habsent, fun hbefore => ?_⟩
    obtain ⟨other, hother, hnamed⟩ := List.mem_map.mp hbefore
    obtain ⟨earlier, rest, rfl⟩ := List.append_of_mem hother
    have hfront : earlier ++ [other] <+: earlier ++ other :: rest := ⟨rest, by simp⟩
    -- The row of the new id is the only one of the name, yet the earlier upsert returned it.
    have hreturned : (step.apply (kgRun (earlier ++ other :: rest))).2 = some newId := by
      have hnone : ((kgRun (earlier ++ other :: rest)).rows.map keep).find?
          (·.entity.name == name) = none := by
        rw [List.find?_eq_none]
        intro r hr hsame
        obtain ⟨q, hq, rfl⟩ := List.mem_map.mp hr
        rw [beq_iff_eq, (hkeep q).2] at hsame
        exact habsent (hsame ▸ List.mem_map_of_mem hq)
      rw [h.returned, hrows, List.find?_append, hnone]
      simp [hname, hid]
    have hsame := hidentified.agree earlier other hfront (hnamed.trans h.named.symm) (by simp [h.named])
    have hmem := apply_result (hsame.trans hreturned)
    rw [← kgRun_concat] at hmem
    exact h.fresh (ids_mono hfront hmem)
  · rintro ⟨habsent, hfirst⟩
    refine ⟨?_, ?_, fun _ => ⟨name, h.entered, habsent⟩, ?_⟩
    · intro r hr s hs hrc hsc hsame
      have hold {q : KgRow} (hq : q ∈ (kgRun front).rows)
          (hqc : (keep q).entity.id ∈ created (front ++ [step])) : q.entity.id ∈ created front := by
        rw [created_concat, h.drawn, (hkeep q).1] at hqc
        rcases List.mem_append.mp hqc with hqc | hqc
        · exact hqc
        · have hnew : q.entity.id = newId := by simpa using hqc
          exact absurd (hnew ▸ List.mem_map_of_mem hq) h.fresh
      have hapart {q : KgRow} (hq : q ∈ (kgRun front).rows) : (keep q).entity.name ≠ row.entity.name := by
        rw [(hkeep q).2, hname]
        rintro rfl
        exact habsent (List.mem_map_of_mem hq)
      rw [hrows] at hr hs
      rcases List.mem_append.mp hr with hr | hr <;> rcases List.mem_append.mp hs with hs | hs
      · obtain ⟨q, hq, rfl⟩ := List.mem_map.mp hr
        obtain ⟨t, ht, rfl⟩ := List.mem_map.mp hs
        rw [(hkeep q).2, (hkeep t).2] at hsame
        rw [(hkeep q).1, (hkeep t).1]
        exact hunique q hq t ht (hold hq hrc) (hold ht hsc) hsame
      · obtain ⟨q, hq, rfl⟩ := List.mem_map.mp hr
        rw [List.mem_singleton.mp hs] at hsame
        exact absurd hsame (hapart hq)
      · obtain ⟨t, ht, rfl⟩ := List.mem_map.mp hs
        rw [List.mem_singleton.mp hr] at hsame
        exact absurd hsame.symm (hapart ht)
      · rw [List.mem_singleton.mp hr, List.mem_singleton.mp hs]
    · intro earlier other hfront hnamed _
      refine absurd ?_ hfirst
      rw [← h.named, ← hnamed]
      exact List.mem_map_of_mem (hfront.subset (by simp))
    · intro _ r hr hsome
      refine ⟨keep r, ?_, (hkeep r).1, hembedding r hsome⟩
      rw [hrows]
      exact List.mem_append_left _ (List.mem_map_of_mem hr)

private theorem mem_upsertEntity {g : KnowledgeGraph} {e : KgEntity} {row : KgRow} :
    row ∈ (g.upsertEntity e).rows ↔ (row ∈ g.rows ∧ row.entity.id ≠ e.id) ∨ row = ⟨e, none⟩ := by
  simp [KnowledgeGraph.upsertEntity]

/-- The upsert of an entity keeps the promise exactly if it neither drops an embedding nor doubles a
name. -/
private theorem upsertEntity_iff {e : KgEntity} (hunique : UniqueNames front) :
    Identified front (.upsertEntity e) ↔ Distinct front (.upsertEntity e) := by
  have hafter : kgRun (front ++ [.upsertEntity e]) = (kgRun front).upsertEntity e := kgRun_concat ..
  have hcreated : created (front ++ [.upsertEntity e]) = created front := by
    rw [created_concat]
    exact List.append_nil _
  constructor
  · intro h
    refine ⟨fun hnew hname => ?_, fun row hrow hid => ?_, fun hmade other hother homade hname => ?_⟩
    · have hall : (kgRun front).rows.filter (fun row => row.entity.id ≠ e.id) = (kgRun front).rows := by
        rw [List.filter_eq_self]
        intro row hrow
        exact decide_eq_true fun hid => hnew (hid ▸ List.mem_map_of_mem hrow)
      have hmore : (kgRun front).entityCount < (kgRun (front ++ [.upsertEntity e])).entityCount := by
        rw [hafter, KnowledgeGraph.entityCount, KnowledgeGraph.entityCount, KnowledgeGraph.upsertEntity,
          hall, List.length_append]
        exact Nat.lt_succ_self _
      obtain ⟨entered, hentered, hnot⟩ := h.grows hmore
      exact hnot (Option.some.inj hentered ▸ hname)
    · by_contra hsome
      obtain ⟨s, hs, hsid, hembedding⟩ := h.embeddings rfl row hrow hsome
      rw [hafter, mem_upsertEntity] at hs
      rcases hs with ⟨-, hne⟩ | rfl
      · exact hne (hsid.trans hid)
      · exact hsome hembedding.symm
    · by_contra hne
      refine hne (h.unique other ?_ ⟨e, none⟩ ?_ ?_ ?_ hname)
      · rw [hafter]
        exact mem_upsertEntity.mpr (.inl ⟨hother, hne⟩)
      · rw [hafter]
        exact mem_upsertEntity.mpr (.inr rfl)
      · rwa [hcreated]
      · rwa [hcreated]
  · rintro ⟨hnew, hempty, hdouble⟩
    refine ⟨?_, ?_, ?_, ?_⟩
    · intro r hr s hs hrc hsc hsame
      rw [hcreated] at hrc hsc
      rw [hafter, mem_upsertEntity] at hr hs
      rcases hr with ⟨hr, -⟩ | rfl
      · rcases hs with ⟨hs, -⟩ | rfl
        · exact hunique r hr s hs hrc hsc hsame
        · exact hdouble hsc r hr hrc hsame
      · rcases hs with ⟨hs, -⟩ | rfl
        · exact (hdouble hrc s hs hsc hsame.symm).symm
        · rfl
    · intro earlier other _ _ hnamed
      exact absurd rfl hnamed
    · intro hmore
      refine ⟨e.name, rfl, hnew fun hid => ?_⟩
      obtain ⟨row, hrow, hid⟩ := List.mem_map.mp hid
      have hfewer : ((kgRun front).rows.filter fun row => row.entity.id ≠ e.id).length <
          (kgRun front).rows.length :=
        List.length_filter_lt_length_iff_exists.mpr ⟨row, hrow, by simp [hid]⟩
      simp only [hafter, KnowledgeGraph.entityCount, KnowledgeGraph.upsertEntity, List.length_append,
        List.length_singleton] at hmore
      omega
    · intro _ r hr hsome
      refine ⟨r, ?_, rfl, rfl⟩
      rw [hafter]
      exact mem_upsertEntity.mpr (.inl ⟨hr, fun hid => hsome (hempty r hr hid)⟩)

private theorem backfillOne_frame (embed : List Char → Embedding) (row : KgRow) :
    (KnowledgeGraph.backfillOne embed row).entity = row.entity ∧
      (row.embedding ≠ none → (KnowledgeGraph.backfillOne embed row).embedding = row.embedding) := by
  unfold KnowledgeGraph.backfillOne
  cases hrow : row.embedding with
  | some b => exact ⟨rfl, fun _ => hrow⟩
  | none =>
    dsimp only
    split
    · exact ⟨rfl, fun h => absurd rfl h⟩
    · exact ⟨rfl, fun h => absurd rfl h⟩

private theorem backfill_identified {embed : List Char → Embedding} (hunique : UniqueNames front) :
    Identified front (.backfillEmbeddings embed) := by
  have hafter : (kgRun (front ++ [.backfillEmbeddings embed])).rows =
      (kgRun front).rows.map (KnowledgeGraph.backfillOne embed) := by
    rw [kgRun_concat]
    rfl
  have hcreated : created (front ++ [.backfillEmbeddings embed]) = created front := by
    rw [created_concat]
    exact List.append_nil _
  refine ⟨?_, ?_, ?_, ?_⟩
  · intro r hr s hs hrc hsc hsame
    rw [hcreated] at hrc hsc
    rw [hafter] at hr hs
    obtain ⟨q, hq, rfl⟩ := List.mem_map.mp hr
    obtain ⟨t, ht, rfl⟩ := List.mem_map.mp hs
    simp only [(backfillOne_frame embed _).1] at hrc hsc hsame ⊢
    exact hunique q hq t ht hrc hsc hsame
  · intro earlier other _ _ hnamed
    exact absurd rfl hnamed
  · intro hmore
    simp [KnowledgeGraph.entityCount, hafter] at hmore
  · intro _ r hr hsome
    obtain ⟨hentity, hembedding⟩ := backfillOne_frame embed r
    refine ⟨KnowledgeGraph.backfillOne embed r, ?_, by rw [hentity], hembedding hsome⟩
    rw [hafter]
    exact List.mem_map_of_mem hr

/-- A write keeps the promise exactly if it is distinct from what went before. -/
private theorem identified_iff {step : KgStep} (hunique : UniqueNames front)
    (hfresh : ∀ id, step.drawn = some id → id ∉ (kgRun front).ids) :
    Identified front step ↔ Distinct front step := by
  cases step with
  | upsertByName newId now named =>
    have hstep : (KgStep.upsertByName newId now named).apply (kgRun front) =
        (kgRun front).upsertByNameWithEmbedding newId now named none := rfl
    exact addsNamed_iff (addsNamed_of_apply hstep rfl rfl rfl (hfresh newId rfl)) hunique
  | upsertByNameWithEmbedding newId now named embedding =>
    have hstep : (KgStep.upsertByNameWithEmbedding newId now named embedding).apply (kgRun front) =
        (kgRun front).upsertByNameWithEmbedding newId now named embedding := rfl
    exact addsNamed_iff (addsNamed_of_apply hstep rfl rfl rfl (hfresh newId rfl)) hunique
  | upsertEntity e => exact upsertEntity_iff hunique
  | backfillEmbeddings embed => exact iff_of_true (backfill_identified hunique) trivial

/-- Each write of a run keeps the promise exactly if each is distinct from what went before it. -/
theorem run_identified_iff (steps : List KgStep) (hfresh : DrawsFresh steps) :
    (∀ front step, front ++ [step] <+: steps → Identified front step) ↔
      ∀ front step, front ++ [step] <+: steps → Distinct front step := by
  have hempty : UniqueNames [] := fun r hr => absurd hr List.not_mem_nil
  constructor
  · intro h front step hfront
    have hunique : UniqueNames front := by
      rcases List.eq_nil_or_concat' front with rfl | ⟨before, last, rfl⟩
      · exact hempty
      · exact (h before last ((List.prefix_append _ _).trans hfront)).unique
    exact (identified_iff hunique (hfresh front step hfront)).mp (h front step hfront)
  · intro h
    have hunique (front : List KgStep) : front <+: steps → UniqueNames front := by
      induction front using List.reverseRecOn with
      | nil => exact fun _ => hempty
      | append_singleton before last ih =>
        intro hfront
        have hbefore := ih ((List.prefix_append _ _).trans hfront)
        exact ((identified_iff hbefore (hfresh before last hfront)).mpr (h before last hfront)).unique
    intro front step hpart
    have hfront : front <+: steps := (List.prefix_append _ _).trans hpart
    exact (identified_iff (hunique front hfront) (hfresh front step hpart)).mpr (h front step hpart)

private theorem prefix_pair {a b step : KgStep} {front : List KgStep} (h : front ++ [step] <+: [a, b]) :
    (front = [] ∧ step = a) ∨ (front = [a] ∧ step = b) := by
  match front with
  | [] => exact .inl ⟨rfl, (List.cons_prefix_cons.mp h).1⟩
  | [f] =>
    obtain ⟨rfl, hrest⟩ := List.cons_prefix_cons.mp h
    exact .inr ⟨rfl, (List.cons_prefix_cons.mp hrest).1⟩
  | f :: g :: rest =>
    have hlen := h.length_le
    simp at hlen

private def entering (n : Nat) (word : String) : KgStep :=
  .upsertByName (Uuid.ofNat n) n ⟨word.toList, .research, [], 5⟩

theorem run_identified_two :
    Identified [] (entering 1 "gyroscope") ∧
      Identified [entering 1 "gyroscope"] (entering 2 "orbiter") := by
  have hfresh : DrawsFresh [entering 1 "gyroscope", entering 2 "orbiter"] := by
    intro front step h id hid
    rcases prefix_pair h with ⟨rfl, rfl⟩ | ⟨rfl, rfl⟩
    · exact List.not_mem_nil
    · rw [← Option.some.inj hid]
      decide
  have hrun := (run_identified_iff _ hfresh).mpr fun front step h => by
    rcases prefix_pair h with ⟨rfl, rfl⟩ | ⟨rfl, rfl⟩
    · exact ⟨List.not_mem_nil, List.not_mem_nil⟩
    · unfold Distinct entering
      decide
  exact ⟨hrun _ _ ⟨[entering 2 "orbiter"], rfl⟩, hrun _ _ (List.prefix_refl _)⟩

/-- Two results of workers with one word in common enter it twice; the upsert of an entity drops the
embedding of the row that it replaces. -/
theorem second_upsert_grows :
    (∃ front step, front ++ [step] <+: workerUpserts (fun _ => Uuid.ofNat 1) 0 ["gyroscope".toList] ++
        workerUpserts (fun _ => Uuid.ofNat 2) 0 ["gyroscope".toList] ∧ ¬ Identified front step) ∧
      ∃ e : KgEntity, ¬ Identified [.upsertByNameWithEmbedding (Uuid.ofNat 1) 0
        ⟨"gyroscope".toList, .research, [], 5⟩ (some [0x3F800000])] (.upsertEntity e) := by
  constructor
  · refine ⟨workerUpserts (fun _ => Uuid.ofNat 1) 0 ["gyroscope".toList],
      .upsertByName (Uuid.ofNat 2) 0 ⟨"gyroscope".toList, .research, [], 5⟩, List.prefix_refl _, ?_⟩
    intro h
    obtain ⟨name, hname, hnot⟩ := h.grows (by decide)
    rw [← Option.some.inj hname] at hnot
    exact hnot (by decide)
  · refine ⟨⟨Uuid.ofNat 1, "gyroscope".toList, .concept, [], 5, 0, 1⟩, fun h => ?_⟩
    have hkept := h.embeddings rfl _ List.mem_cons_self (by decide)
    obtain ⟨s, hs, -, hembedding⟩ := hkept
    have hall : ∀ s ∈ ([⟨⟨Uuid.ofNat 1, "gyroscope".toList, .concept, [], 5, 0, 1⟩, none⟩] :
        List KgRow), s.embedding = none := by
      decide
    rw [hall s hs] at hembedding
    cases hembedding

end Runs

end Gyre.Cognitive
