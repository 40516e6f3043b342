/- digest: The entities of the knowledge graph and the writes to their table. -/

import Gyre.Lib.Text
import Gyre.Llm.Value

/-!
The table has one constraint, its primary key `id`. Names are indexed, not unique. Rows are kept in
the order of their row numbers; a replaced row gets a new number.
-/

set_option autoImplicit false
set_option relaxedAutoImplicit false

namespace Gyre.Cognitive

open Gyre.Lib Gyre.Llm

inductive EntityLayer where
  | research
  | concept
  | axiomLayer
  deriving DecidableEq, Repr

/-- Times count nanoseconds. -/
structure KgEntity where
  id : Uuid
  name : List Char
  layer : EntityLayer
  summary : List Char
  importance : Rat
  createdAt : Int
  updatedAt : Int
  deriving DecidableEq, Repr

/-- An embedding, as the bits of its numbers. -/
abbrev Embedding := List UInt32

structure KgRow where
  entity : KgEntity
  embedding : Option Embedding
  deriving DecidableEq, Repr

/-- The rows of `kg_entities`. -/
structure KnowledgeGraph where
  rows : List KgRow
  deriving DecidableEq, Repr

namespace KnowledgeGraph

/-- `INSERT OR REPLACE`, of all columns but the embedding. -/
def upsertEntity (g : KnowledgeGraph) (e : KgEntity) : KnowledgeGraph :=
  ⟨g.rows.filter (fun row => row.entity.id ≠ e.id) ++ [⟨e, none⟩]⟩

/-- What a call that names an entity brings along. -/
structure Named where
  name : List Char
  layer : EntityLayer
  summary : List Char
  importance : Rat
  deriving DecidableEq, Repr

/-- `UPDATE … WHERE name = ?3 AND embedding IS NULL` -/
def fill (name : List Char) (now : Int) (embedding : Embedding) (row : KgRow) : KgRow :=
  if row.entity.name = name ∧ row.embedding = none then
    ⟨{ row.entity with updatedAt := now }, some embedding⟩
  else row

/-- The new id and the time are drawn by the call. `INSERT OR IGNORE` ignores a row whose id is taken;
the id that is returned is that of the first row of the name. -/
def upsertByNameWithEmbedding (g : KnowledgeGraph) (newId : Uuid) (now : Int) (named : Named)
    (embedding : Option Embedding) : KnowledgeGraph × Option Uuid :=
  let row : KgRow :=
    ⟨⟨newId, named.name, named.layer, named.summary, named.importance, now, now⟩, embedding⟩
  let inserted := if g.rows.any (·.entity.id == newId) then g.rows else g.rows ++ [row]
  let updated := match embedding with
    | some b => inserted.map (fill named.name now b)
    | none => inserted
  (⟨updated⟩, (updated.find? (·.entity.name == named.name)).map (·.entity.id))

def upsertByName (g : KnowledgeGraph) (newId : Uuid) (now : Int) (named : Named) :
    KnowledgeGraph × Option Uuid :=
  g.upsertByNameWithEmbedding newId now named none

/-- The text that an entity is embedded by. -/
def embeddingText (e : KgEntity) : List Char :=
  if e.summary.isEmpty then e.name else e.name ++ ": ".toList ++ e.summary

/-- The embedding that a row without one is given, if the provider has one. -/
def backfillOne (embed : List Char → Embedding) (row : KgRow) : KgRow :=
  match row.embedding with
  | some _ => row
  | none =>
    let embedding := embed (embeddingText row.entity)
    if embedding.isEmpty then row else ⟨row.entity, some embedding⟩

/-- The rows are updated by their ids, each of which names one row. -/
def backfillEmbeddings (g : KnowledgeGraph) (embed : List Char → Embedding) : KnowledgeGraph × Nat :=
  (⟨g.rows.map (backfillOne embed)⟩,
    g.rows.countP fun row =>
      row.embedding.isNone && !(embed (embeddingText row.entity)).isEmpty)

def entityCount (g : KnowledgeGraph) : Nat := g.rows.length

end KnowledgeGraph

/-- A write to the graph, with what the call draws. -/
inductive KgStep where
  | upsertByName (newId : Uuid) (now : Int) (named : KnowledgeGraph.Named)
  | upsertByNameWithEmbedding (newId : Uuid) (now : Int) (named : KnowledgeGraph.Named)
      (embedding : Option Embedding)
  | upsertEntity (e : KgEntity)
  | backfillEmbeddings (embed : List Char → Embedding)

/-- The graph after a write, and the id that the write returns. -/
def KgStep.apply (g : KnowledgeGraph) : KgStep → KnowledgeGraph × Option Uuid
  | .upsertByName newId now named => g.upsertByName newId now named
  | .upsertByNameWithEmbedding newId now named embedding =>
    g.upsertByNameWithEmbedding newId now named embedding
  | .upsertEntity e => (g.upsertEntity e, none)
  | .backfillEmbeddings embed => ((g.backfillEmbeddings embed).1, none)

/-- The graph after some writes to an empty one. -/
def kgRun (steps : List KgStep) : KnowledgeGraph :=
  steps.foldl (fun g step => (step.apply g).1) ⟨[]⟩

/-- The writes by which a worker's result enters its words. -/
def workerUpserts (newIds : Nat → Uuid) (now : Int) (names : List (List Char)) : List KgStep :=
  names.mapIdx fun i name => .upsertByName (newIds i) now ⟨name, .research, [], 5⟩

end Gyre.Cognitive
