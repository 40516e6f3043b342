/- digest: What an archive puts where, read off its entries in their order. -/

import Gyre.Template.Extractor

set_option autoImplicit false
set_option relaxedAutoImplicit false

namespace Gyre.Template

open Gyre.Lib.FileTree

/-- What an entry asks for, inside the directory that is unpacked into. -/
inductive Placement where
  | bad
  | skipped
  | dir (p : Path)
  | file (p : Path) (data : List UInt8)

/-- What an entry asks for under a path; a file needs a name and a header of at most 50 MB. -/
def TarEntry.wants (e : TarEntry) (path : List Char) : Placement :=
  match e.entryType with
  | .directory => .dir (components path)
  | .regular =>
    if maxFileBytes < e.headerSize.getD 0 ∨ namesDirectory path then .bad
    else .file (components path) e.data
  | _ => .skipped

/-- Only relative paths without `..` are good. -/
def placement : Except String TarEntry → Placement
  | .error _ => .bad
  | .ok e =>
    match e.path with
    | .error _ => .bad
    | .ok path => if path.head? = some '/' ∨ parentDir ∈ components path then .bad else e.wants path

/-- Nothing stands in the way: no file where a directory is needed, no directory where a file is. -/
def Placement.Fits (l : Tree) : Placement → Prop
  | .bad => False
  | .skipped => True
  | .dir p => ∀ q data, q <+: p → l q ≠ some (.file data)
  | .file p _ => (∀ q data, q <+: p → q ≠ p → l q ≠ some (.file data)) ∧ l p ≠ some .dir

def Placement.put (l : Tree) : Placement → Tree
  | .bad => l
  | .skipped => l
  | .dir p => fun q => if q <+: p then some .dir else l q
  | .file p data => fun q => if q = p then some (.file data) else if q <+: p then some .dir else l q

/-- None of the calls that a placement needs fails. -/
def Placement.Spared (fault : EntryFault) : Placement → Prop
  | .dir _ => fault.dirs = false
  | .file _ _ => fault.dirs = false ∧ fault.write = none
  | _ => True

/-- The entry is placed. -/
def Sound (l : Tree) (fault : EntryFault) (item : Except String TarEntry) : Prop :=
  (placement item).Fits l ∧ (placement item).Spared fault

/-- The entry's file is created, with that data for it. -/
def Opened (l : Tree) (fault : EntryFault) (item : Except String TarEntry) (data : List UInt8) :
    Prop :=
  ∃ p, placement item = .file p data ∧ (placement item).Fits l ∧ fault.dirs = false ∧
    fault.write ≠ some .refused

/-- Every entry from the `i`-th on is placed. -/
def Unpacks (faults : Nat → EntryFault) : Tree → (i : Nat) → List (Except String TarEntry) → Prop
  | _, _, [] => True
  | l, i, item :: rest => Sound l (faults i) item ∧
      Unpacks faults ((placement item).put l) (i + 1) rest

/-- As long as entries are placed, a file that is created gets at most 50 MB. -/
def Bounded (faults : Nat → EntryFault) : Tree → (i : Nat) → List (Except String TarEntry) → Prop
  | _, _, [] => True
  | l, i, item :: rest =>
      (∀ data, Opened l (faults i) item data → (copied data (faults i).write).length ≤ maxFileBytes) ∧
      (Sound l (faults i) item → Bounded faults ((placement item).put l) (i + 1) rest)

/-- A directory with nothing in it. -/
def emptyDir : Tree := fun q => if q = [] then some .dir else none

/-- What all the entries leave. -/
def unpacked (l : Tree) (items : List (Except String TarEntry)) : Tree :=
  items.foldl (fun l item => (placement item).put l) l

/-- The file of an entry, if it is the one at `rel`. -/
def fileOf (rel : Path) (item : Except String TarEntry) : Option (List UInt8) :=
  match placement item with
  | .file p data => if p = rel then some data else none
  | _ => none

/-- The archive's file at `rel`: of several entries the last one counts. -/
def archived (items : List (Except String TarEntry)) (rel : Path) : Option (List UInt8) :=
  items.reverse.findSome? (fileOf rel)

/-- The file at a path. -/
def fileAt (l : Tree) (q : Path) : Option (List UInt8) :=
  match l q with
  | some (.file data) => some data
  | _ => none

theorem fileAt_eq_some {l : Tree} {q : Path} {data : List UInt8} :
    fileAt l q = some data ↔ l q = some (.file data) := by
  unfold fileAt
  constructor
  · intro h
    split at h
    · rename_i found hfound
      cases h
      exact hfound
    · cases h
  · intro h
    rw [h]

/-- A directory tree without links. -/
def NoLinks (l : Tree) : Prop := ∀ p target, l p ≠ some (.link target)

theorem emptyDir_noLinks : NoLinks emptyDir := by
  intro p target h
  unfold emptyDir at h
  split at h <;> cases h

section Placing

variable {l : Tree} {faults : Nat → EntryFault}

theorem Placement.put_noLinks (h : NoLinks l) (place : Placement) : NoLinks (place.put l) := by
  intro q target hq
  cases place with
  | bad => exact h q target hq
  | skipped => exact h q target hq
  | dir p =>
    dsimp only [put] at hq
    split at hq
    · cases hq
    · exact h q target hq
  | file p data =>
    dsimp only [put] at hq
    split at hq
    · cases hq
    · split at hq
      · cases hq
      · exact h q target hq

theorem unpacked_noLinks (h : NoLinks l) (items : List (Except String TarEntry)) :
    NoLinks (unpacked l items) := by
  induction items generalizing l with
  | nil => exact h
  | cons item rest ih => exact ih ((placement item).put_noLinks h)

private theorem fileAt_dirs {rel p : Path} (h : ∀ data, rel <+: p → l rel ≠ some (.file data)) :
    fileAt (fun q => if q <+: p then some .dir else l q) rel = fileAt l rel := by
  by_cases hrel : rel <+: p
  · have hnone : fileAt l rel = none :=
      Option.eq_none_iff_forall_ne_some.mpr fun data hdata => h data hrel (fileAt_eq_some.mp hdata)
    rw [hnone, fileAt, if_pos hrel]
  · rw [fileAt, if_neg hrel, fileAt]

/-- A placed entry changes the files by its own one only. -/
theorem fileAt_put {item : Except String TarEntry} (hfits : (placement item).Fits l) (rel : Path) :
    fileAt ((placement item).put l) rel = (fileOf rel item).or (fileAt l rel) := by
  rw [fileOf]
  cases hplace : placement item with
  | bad => rfl
  | skipped => rfl
  | dir p =>
    rw [hplace] at hfits
    exact fileAt_dirs (hfits rel)
  | file p data =>
    rw [hplace] at hfits
    dsimp only [Placement.put]
    by_cases hrel : rel = p
    · subst hrel
      rw [fileAt, if_pos rfl, if_pos rfl, Option.some_or]
    · have hother : p ≠ rel := fun h => hrel h.symm
      rw [if_neg hother, Option.none_or, fileAt, if_neg hrel]
      exact fileAt_dirs fun old hprefix => hfits.1 rel old hprefix hrel

/-- An unpacked archive leaves its own files, and those that were there under other names. -/
theorem fileAt_unpacked {i : Nat} {items : List (Except String TarEntry)}
    (h : Unpacks faults l i items) (rel : Path) :
    fileAt (unpacked l items) rel = (archived items rel).or (fileAt l rel) := by
  induction items generalizing l i with
  | nil => rfl
  | cons item rest ih =>
    obtain ⟨⟨hfits, -⟩, hrest⟩ := h
    have hlater := ih hrest
    rw [unpacked, List.foldl_cons, ← unpacked, hlater, fileAt_put hfits, archived, archived,
      List.reverse_cons, List.findSome?_append, List.findSome?_singleton, Option.or_assoc]

/-- Unpacked into an empty directory, an archive leaves exactly its files. -/
theorem unpacked_file_iff {i : Nat} {items : List (Except String TarEntry)}
    (h : Unpacks faults emptyDir i items) (rel : Path) (data : List UInt8) :
    unpacked emptyDir items rel = some (.file data) ↔ archived items rel = some data := by
  have hempty : fileAt emptyDir rel = none := by
    unfold fileAt emptyDir
    by_cases hroot : rel = []
    · rw [if_pos hroot]
    · rw [if_neg hroot]
  rw [← fileAt_eq_some, fileAt_unpacked h, hempty, Option.or_none]

end Placing

end Gyre.Template
