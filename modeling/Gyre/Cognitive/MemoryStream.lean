/- digest: Memory entries and the table they are stored in. -/

import Gyre.Lib.Text
import Gyre.Llm.Value

set_option autoImplicit false
set_option relaxedAutoImplicit false

namespace Gyre.Cognitive

open Gyre.Lib Gyre.Llm

inductive MemoryKind where
  | decision
  | lesson
  | person
  | project
  | commitment
  | preference
  | handoff
  | observation
  deriving DecidableEq, Repr

namespace MemoryKind

def asStr : MemoryKind → String
  | decision => "decision"
  | lesson => "lesson"
  | person => "person"
  | project => "project"
  | commitment => "commitment"
  | preference => "preference"
  | handoff => "handoff"
  | observation => "observation"

def fromStr : String → MemoryKind
  | "decision" => decision
  | "lesson" => lesson
  | "person" => person
  | "project" => project
  | "commitment" => commitment
  | "preference" => preference
  | "handoff" => handoff
  | _ => observation

/-- A kind is read from its column as it was written there. -/
theorem fromStr_asStr (kind : MemoryKind) : fromStr kind.asStr = kind := by
  cases kind <;> rfl

end MemoryKind

namespace Namespaces

def personal : List Char := "personal".toList

def tribe : List Char := "tribe".toList

end Namespaces

/-- `createdAt` counts nanoseconds. -/
structure MemoryEntry where
  id : Uuid
  content : List Char
  kind : MemoryKind
  importance : Rat
  createdAt : Int
  nameSpace : List Char
  deriving DecidableEq, Repr

/-- A row: an entry as it is stored, and its embedding. -/
structure MemoryRow where
  entry : MemoryEntry
  embedding : Option (List UInt32)
  deriving DecidableEq, Repr

/-- The rows of `memory_entries`, in the order of their insertion. -/
structure MemoryStream where
  rows : List MemoryRow
  deriving DecidableEq, Repr

namespace MemoryStream

def maxContentBytes : Nat := 10 * 1024

/-- The columns that are bound for an entry: the storage limit and the default namespace. -/
def columns (entry : MemoryEntry) : MemoryEntry :=
  { entry with
    content := Text.cutBytes maxContentBytes entry.content
    nameSpace := if entry.nameSpace.isEmpty then Namespaces.personal else entry.nameSpace }

/-- The ids are drawn afresh, so the insertion takes place. -/
def add (s : MemoryStream) (entry : MemoryEntry) : MemoryStream :=
  ⟨s.rows ++ [⟨columns entry, none⟩]⟩

def storeWithEmbedding (s : MemoryStream) (entry : MemoryEntry) (embedding : List UInt32) :
    MemoryStream :=
  ⟨s.rows ++ [⟨columns entry, some embedding⟩]⟩

def addWithAutoEmbed (s : MemoryStream) (embed : List Char → List UInt32) (entry : MemoryEntry) :
    MemoryStream :=
  let embedding := embed entry.content
  if embedding.isEmpty then s.add entry else s.storeWithEmbedding entry embedding

end MemoryStream

end Gyre.Cognitive
