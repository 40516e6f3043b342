/- digest: The markdown files of memory entries, and the layered recall that reads them. -/

import Gyre.Cognitive.MemoryStream
import Gyre.Lib.Lines

set_option autoImplicit false
set_option relaxedAutoImplicit false

namespace Gyre.Cognitive

open Gyre.Lib Gyre.Llm

/-- How the day of a time and an importance are printed: each on one short line. -/
structure Rendering where
  date : Int → List Char
  importance : Rat → List Char
  dateLine : ∀ t, '\n' ∉ date t
  importanceLine : ∀ x, '\n' ∉ importance x
  short : ∀ t x, Text.byteLen (date t) + Text.byteLen (importance x) ≤ 1000

/-- `str::to_lowercase`. Where a capital sigma is final depends on the letters around it, and a line
ending is no letter. -/
structure Lowering where
  lower : List Char → List Char
  acrossLines : ∀ s t, lower (s ++ '\n' :: t) = lower s ++ '\n' :: lower t

/-- `ORDER BY created_at DESC`: the order of equals is the database's. -/
structure RecencyOrder where
  sort : List MemoryEntry → List MemoryEntry
  perm : ∀ rows, (sort rows).Perm rows
  sorted : ∀ rows, (sort rows).Pairwise fun a b => b.createdAt ≤ a.createdAt

/-- A file under `memory/`. -/
structure MemoryFile where
  dir : String
  name : List Char
  text : List Char
  deriving DecidableEq, Repr

@[grind =] def MemoryFile.path (f : MemoryFile) : String × List Char := (f.dir, f.name)

namespace Uocs

def maxFileContentBytes : Nat := 10 * 1024

def kindDirName : MemoryKind → String
  | .decision => "decisions"
  | .lesson => "lessons"
  | .person => "persons"
  | .project => "projects"
  | .commitment => "commitments"
  | .preference => "preferences"
  | .handoff => "handoffs"
  | .observation => "observations"

/-- `&entry.id.to_string()[..8]` -/
def idShort (id : Uuid) : List Char := id.toString.toList.take 8

variable (r : Rendering)

def fileName (entry : MemoryEntry) : List Char :=
  r.date entry.createdAt ++ '-' :: (idShort entry.id ++ ".md".toList)

/-- The lines between the fences. -/
@[grind =] def frontLines (entry : MemoryEntry) : List (List Char) :=
  ["type: ".toList ++ entry.kind.asStr.toList, "importance: ".toList ++ r.importance entry.importance,
    "date: ".toList ++ r.date entry.createdAt]

def fence : List Char := "---".toList

/-- Everything before the body, up to the blank line. -/
@[grind =] def frontMatter (entry : MemoryEntry) : List Char :=
  (fence :: frontLines r entry ++ [fence, []]).flatMap (· ++ ['\n'])

def fileText (entry : MemoryEntry) : List Char :=
  Text.cutBytes maxFileContentBytes (frontMatter r entry ++ entry.content ++ ['\n'])

@[grind =] def fileOf (entry : MemoryEntry) : MemoryFile :=
  ⟨kindDirName entry.kind, fileName r entry, fileText r entry⟩

/-- The file is written aside and renamed over one that is there already. -/
def writeMemory (files : List MemoryFile) (entry : MemoryEntry) : List MemoryFile :=
  files.filter (·.path ≠ (fileOf r entry).path) ++ [fileOf r entry]

/-- The texts of the first files of a walk that contain the query. -/
def searchContent (l : Lowering) (walk : List MemoryFile) (query : List Char) (limit : Nat) :
    List (List Char) :=
  ((walk.filter fun f => Text.contains (l.lower query) (l.lower f.text)).take limit).map (·.text)

end Uocs

/-- The lines of a body: trimmed, without blank ones, and without what stands between two fences. -/
@[grind =] def bodyLines : (inFrontMatter : Bool) → List (List Char) → List (List Char)
  | _, [] => []
  | inFrontMatter, line :: rest =>
    let trimmed := Text.trim line
    if trimmed = Uocs.fence then bodyLines (!inFrontMatter) rest
    else if inFrontMatter || trimmed.isEmpty then bodyLines inFrontMatter rest
    else trimmed :: bodyLines inFrontMatter rest

def extractBodyFromMd (content : List Char) : List Char :=
  Text.joinLines (bodyLines false (Text.lines content))

namespace MemoryStream

def entries (s : MemoryStream) : List MemoryEntry := s.rows.map (·.entry)

variable (order : RecencyOrder)

/-- The query is not looked at. -/
def recallByRecency (s : MemoryStream) (limit : Nat) : List MemoryEntry := (order.sort s.entries).take limit

/-- An entry is added unless its id has been seen. -/
def addUnseen (results : List MemoryEntry) (entry : MemoryEntry) : List MemoryEntry :=
  if results.any (·.id == entry.id) then results else results ++ [entry]

/-- `SELECT … WHERE content = ?1 LIMIT 1` -/
def withContent (s : MemoryStream) (body : List Char) : Option MemoryEntry :=
  s.entries.find? (·.content == body)

/-- The entries of the bodies that were found, until there are enough. -/
def addFound (s : MemoryStream) (limit : Nat) : List MemoryEntry → List (List Char) → List MemoryEntry
  | results, [] => results
  | results, found :: rest =>
    if limit ≤ results.length then results
    else
      let body := extractBodyFromMd found
      if body.isEmpty then addFound s limit results rest
      else
        match s.withContent body with
        | none => addFound s limit results rest
        | some entry => addFound s limit (addUnseen results entry) rest

/-- The entries of the fallback, until there are enough. -/
def addFallback (limit : Nat) : List MemoryEntry → List MemoryEntry → List MemoryEntry
  | results, [] => results
  | results, entry :: rest =>
    if limit ≤ results.length then results else addFallback limit (addUnseen results entry) rest

/-- The files are given in the order in which they are walked. -/
def recallLayered (l : Lowering) (s : MemoryStream) (uocs : Option (List MemoryFile))
    (query : List Char) (limit : Nat) : List MemoryEntry :=
  let results := match uocs with
    | none => []
    | some walk => if 0 < limit then s.addFound limit [] (Uocs.searchContent l walk query (limit * 2)) else []
  if results.length < limit then
    addFallback limit results (s.recallByRecency order (limit - results.length + results.length))
  else results

end MemoryStream

end Gyre.Cognitive
