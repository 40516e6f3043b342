/- digest: How paths of workspace documents are normalised, and which document each operation reaches. -/

import Gyre.Lib.Codes
import Gyre.Lib.Segments

/-!
A store holds the documents of one user and agent; a row is told apart by its path.
-/

set_option autoImplicit false
set_option relaxedAutoImplicit false

namespace Gyre.Workspace.Paths

open Gyre.Lib

section Normalising

def normalizePath (path : List Char) : List Char :=
  Segments.collapse '/' false (Segments.strip '/' (Text.trim path))

def normalizeDirectory (path : List Char) : List Char :=
  ((normalizePath path).reverse.dropWhile (· == '/')).reverse

end Normalising

section Documents

structure MemoryDocument where
  path : List Char
  content : List Char
  updatedAt : Nat
  deriving DecidableEq, Repr

structure WorkspaceEntry where
  path : List Char
  isDirectory : Bool
  updatedAt : Nat
  contentPreview : Option (List Char)
  deriving DecidableEq, Repr

inductive WorkspaceError where
  | documentNotFound (docType : List Char) (userId : String)
  deriving DecidableEq, Repr

structure Store where
  userId : String
  documents : List MemoryDocument
  deriving DecidableEq, Repr

namespace Store

def getDocumentByPath (w : Store) (path : List Char) : Except WorkspaceError MemoryDocument :=
  match w.documents.find? (·.path == path) with
  | some doc => .ok doc
  | none => .error (.documentNotFound path w.userId)

/-- The insert of `get_or_create_document_by_path`. -/
def createDocument (w : Store) (path : List Char) (now : Nat) : Store :=
  if w.documents.any (·.path == path) then w
  else { w with documents := w.documents ++ [⟨path, [], now⟩] }

def updateDocument (w : Store) (path content : List Char) (now : Nat) : Store :=
  { w with documents := w.documents.map fun doc =>
      if doc.path = path then { doc with content := content, updatedAt := now } else doc }

def deleteDocumentByPath (w : Store) (path : List Char) : Except WorkspaceError Store :=
  (w.getDocumentByPath path).map fun _ =>
    { w with documents := w.documents.filter fun doc => doc.path != path }

/-- What a document adds to the entries of a directory, which are kept by the names of the children. -/
def addEntry (dir : List Char) (entries : List (List Char × WorkspaceEntry)) (doc : MemoryDocument) :
    List (List Char × WorkspaceEntry) :=
  if dir.isPrefixOf doc.path then
    let relative := doc.path.drop dir.length
    let childName := relative.takeWhile (· != '/')
    let isDir := relative.contains '/'
    if childName = [] then entries
    else if entries.any (·.1 == childName) then
      entries.map fun e =>
        if e.1 = childName then
          (e.1, { e.2 with
            isDirectory := isDir || e.2.isDirectory
            contentPreview := if isDir then none else e.2.contentPreview
            updatedAt := max e.2.updatedAt doc.updatedAt })
        else e
    else entries ++ [(childName, ⟨dir ++ childName, isDir, doc.updatedAt,
      if isDir then none else some (doc.content.take 200)⟩)]
  else entries

/-- The prefix of the paths in a directory. -/
def dirOf (directory : List Char) : List Char :=
  if directory ≠ [] ∧ directory.getLast? ≠ some '/' then directory ++ ['/'] else directory

/-- The database's `LIKE` lets every path through that begins with `dir`. -/
def listDirectory (w : Store) (directory : List Char) : List WorkspaceEntry :=
  let rows := w.documents.mergeSort fun a b => !decide (b.path < a.path)
  let entries := rows.foldl (addEntry (dirOf directory)) []
  (entries.map Prod.snd).mergeSort fun a b => !decide (b.path < a.path)

def read (w : Store) (path : List Char) : Except WorkspaceError MemoryDocument :=
  w.getDocumentByPath (normalizePath path)

def write (w : Store) (path content : List Char) (now : Nat) : Store :=
  let path := normalizePath path
  (w.createDocument path now).updateDocument path content now

def append (w : Store) (path content : List Char) (now : Nat) : Except WorkspaceError Store :=
  let path := normalizePath path
  let w := w.createDocument path now
  (w.getDocumentByPath path).map fun doc =>
    let newContent := if doc.content = [] then content else doc.content ++ '\n' :: content
    w.updateDocument path newContent now

def holds (w : Store) (path : List Char) : Bool :=
  match w.getDocumentByPath (normalizePath path) with
  | .ok _ => true
  | .error (.documentNotFound _ _) => false

def delete (w : Store) (path : List Char) : Except WorkspaceError Store :=
  w.deleteDocumentByPath (normalizePath path)

def list (w : Store) (directory : List Char) : List WorkspaceEntry :=
  w.listDirectory (normalizeDirectory directory)

end Store

end Documents

section Meaning

/-- The segments that a path is given with. -/
def segments (path : List Char) : List (List Char) := Segments.segments '/' (Text.trim path)

/-- The directory that a document of a name is in. -/
def parentOf (name : List Char) : List Char := Segments.join '/' (name.splitOn '/').dropLast

/-- Normalising again changes nothing, there is no slash or white space at the ends, and no segment is
empty. -/
structure Canonical (path : List Char) : Prop where
  idempotent : normalizePath (normalizePath path) = normalizePath path
  slashes : (normalizePath path).head? ≠ some '/' ∧ (normalizePath path).getLast? ≠ some '/'
  trimmed : Text.trim (normalizePath path) = normalizePath path
  segments : [] ∉ (normalizePath path).splitOn '/'

/-- Every operation does the same under two paths. -/
structure SameDocument (p q : List Char) : Prop where
  read (w : Store) : w.read p = w.read q
  write (w : Store) (content : List Char) (now : Nat) : w.write p content now = w.write q content now
  append (w : Store) (content : List Char) (now : Nat) : w.append p content now = w.append q content now
  holds (w : Store) : w.holds p = w.holds q
  delete (w : Store) : w.delete p = w.delete q
  list (w : Store) : w.list p = w.list q

/-- A document that was written under a path is read, listed and deleted, under the path and under the
name that it then has. -/
structure Served (w : Store) (path content : List Char) (now : Nat) : Prop where
  read : (w.write path content now).read path = .ok ⟨normalizePath path, content, now⟩
  readByName : (w.write path content now).read (normalizePath path) =
    .ok ⟨normalizePath path, content, now⟩
  listed : ∃ e ∈ (w.write path content now).list (parentOf (normalizePath path)),
    e.path = normalizePath path
  deleted : ∃ w', (w.write path content now).delete path = .ok w' ∧ w'.holds path = false
  deletedByName : ∃ w', (w.write path content now).delete (normalizePath path) = .ok w' ∧
    w'.holds path = false

/-- The path has a segment; no white space stands behind a slash that begins it, before one that ends
it, or before the last slash between segments. -/
structure Plain (path : List Char) : Prop where
  some : segments path ≠ []
  front : ∀ first ∈ (segments path).head?, ∀ c ∈ first.head?, Text.isWhitespace c = false
  back : ∀ last ∈ (segments path).getLast?, ∀ c ∈ last.getLast?, Text.isWhitespace c = false
  parent : ∀ last ∈ (segments path).dropLast.getLast?, ∀ c ∈ last.getLast?, Text.isWhitespace c = false

end Meaning

section Normal

variable {path : List Char}

theorem normalizePath_eq_join (path : List Char) :
    normalizePath path = Segments.join '/' (segments path) := by
  unfold normalizePath segments
  rw [Segments.collapse_eq_true (Segments.strip_head _), Segments.collapse_eq_join (Segments.strip_last _),
    Segments.segments_strip]

theorem segments_solid (path : List Char) : Segments.Solid '/' (segments path) :=
  Segments.segments_solid _

theorem segments_normalizePath (path : List Char) :
    Segments.segments '/' (normalizePath path) = segments path := by
  rw [normalizePath_eq_join, Segments.segments_join (segments_solid path)]

theorem splitOn_normalizePath (h : segments path ≠ []) : (normalizePath path).splitOn '/' = segments path := by
  rw [normalizePath_eq_join]
  exact List.splitOn_intercalate '/' (fun l hl => (segments_solid path l hl).2) h

theorem normalizePath_slashes (path : List Char) :
    (normalizePath path).head? ≠ some '/' ∧ (normalizePath path).getLast? ≠ some '/' := by
  rw [normalizePath_eq_join]
  exact ⟨Segments.head_join_ne (segments_solid path), Segments.last_join_ne (segments_solid path)⟩

theorem normalizeDirectory_eq (path : List Char) : normalizeDirectory path = normalizePath path := by
  unfold normalizeDirectory
  have hlast := (normalizePath_slashes path).2
  rw [← List.head?_reverse] at hlast
  cases hreversed : (normalizePath path).reverse with
  | nil =>
    rw [List.reverse_eq_nil_iff] at hreversed
    rw [hreversed]
    rfl
  | cons c rest =>
    rw [hreversed] at hlast
    have hc : ¬ (c == '/') = true := fun hc => hlast (congrArg some (beq_iff_eq.mp hc))
    rw [List.dropWhile_cons, if_neg hc, ← hreversed, List.reverse_reverse]

theorem normalizePath_of_trim {s : List Char} (htrim : Text.trim s = s) {pieces : List (List Char)}
    (hpieces : Segments.Solid '/' pieces) (hs : s = Segments.join '/' pieces) : normalizePath s = s := by
  rw [normalizePath_eq_join]
  unfold segments
  rw [htrim, hs, Segments.segments_join hpieces]

/-- Only what is trimmed can be a normal path. -/
theorem trim_of_normalizePath {s : List Char} (h : normalizePath s = s) : Text.trim s = s := by
  refine (Text.trim_sublist s).eq_of_length_le ?_
  have hlength : (normalizePath s).length ≤ (Text.trim s).length := by
    unfold normalizePath
    exact (Segments.length_collapse_le _ _).trans (Segments.length_strip_le _)
  rwa [h] at hlength

end Normal

section Ends

private theorem dropWhile_of_head {p : Char → Bool} {s : List Char} (h : ∀ c ∈ s.head?, p c = false) :
    s.dropWhile p = s := by
  cases s with
  | nil => rfl
  | cons c s => rw [List.dropWhile_cons, h c rfl, if_neg Bool.false_ne_true]

private theorem head_of_dropWhile {p : Char → Bool} {s : List Char} (h : s.dropWhile p = s) :
    ∀ c ∈ s.head?, p c = false := by
  intro c hc
  have hnot := List.head?_dropWhile_not p s
  rw [h, hc] at hnot
  exact hnot

/-- Nothing is trimmed exactly if there is no white space at the ends. -/
theorem trim_eq_self_iff {s : List Char} : Text.trim s = s ↔
    (∀ c ∈ s.head?, Text.isWhitespace c = false) ∧ ∀ c ∈ s.getLast?, Text.isWhitespace c = false := by
  have htrim : Text.trim s =
      ((s.dropWhile Text.isWhitespace).reverse.dropWhile Text.isWhitespace).reverse := rfl
  constructor
  · intro h
    have hlength : s.length ≤ (s.dropWhile Text.isWhitespace).length := by
      have hback := (List.dropWhile_suffix (l := (s.dropWhile Text.isWhitespace).reverse)
        Text.isWhitespace).length_le
      rwa [← List.length_reverse, ← htrim, h, List.length_reverse] at hback
    have hfront : s.dropWhile Text.isWhitespace = s :=
      (List.dropWhile_suffix Text.isWhitespace).eq_of_length_le hlength
    rw [hfront, h] at htrim
    have hback : s.reverse.dropWhile Text.isWhitespace = s.reverse := by
      rw [← List.reverse_eq_iff]
      exact htrim.symm
    refine ⟨head_of_dropWhile hfront, fun c hc => head_of_dropWhile hback c ?_⟩
    rwa [List.head?_reverse]
  · rintro ⟨hhead, hlast⟩
    rw [← List.head?_reverse] at hlast
    rw [htrim, dropWhile_of_head hhead, dropWhile_of_head hlast, List.reverse_reverse]

end Ends

section Names

variable {path : List Char}

/-- The result is trimmed exactly if neither its first nor its last segment has white space there. -/
theorem trim_normalizePath_iff : Text.trim (normalizePath path) = normalizePath path ↔
    (∀ first ∈ (segments path).head?, ∀ c ∈ first.head?, Text.isWhitespace c = false) ∧
      ∀ last ∈ (segments path).getLast?, ∀ c ∈ last.getLast?, Text.isWhitespace c = false := by
  have hsolid := segments_solid path
  rw [trim_eq_self_iff, normalizePath_eq_join]
  refine and_congr ?_ ?_
  · cases hpieces : segments path with
    | nil => simp [Segments.join]
    | cons piece rest =>
      rw [hpieces] at hsolid
      rw [Segments.head?_join (hsolid piece List.mem_cons_self).1]
      simp
  · rcases List.eq_nil_or_concat (segments path) with hpieces | ⟨front, piece, hpieces⟩
    · rw [hpieces]
      simp [Segments.join]
    · rw [List.concat_eq_append] at hpieces
      rw [hpieces] at hsolid ⊢
      rw [Segments.getLast?_join (hsolid piece (by simp)).1]
      simp

theorem parentOf_normalizePath (h : segments path ≠ []) :
    parentOf (normalizePath path) = Segments.join '/' (segments path).dropLast := by
  unfold parentOf
  rw [splitOn_normalizePath h]

/-- The segments are a parent directory's, and a last one. -/
theorem exists_last (h : segments path ≠ []) : ∃ front last, segments path = front ++ [last] ∧
    last ≠ [] ∧ '/' ∉ last ∧ Segments.Solid '/' front ∧
      parentOf (normalizePath path) = Segments.join '/' front := by
  have hsolid := segments_solid path
  have hparent := parentOf_normalizePath h
  rcases List.eq_nil_or_concat (segments path) with hpieces | ⟨front, last, hpieces⟩
  · exact absurd hpieces h
  · rw [List.concat_eq_append] at hpieces
    rw [hpieces] at hsolid hparent
    rw [List.dropLast_concat] at hparent
    obtain ⟨hne, hslash⟩ := hsolid last (by simp)
    exact ⟨front, last, hpieces, hne, hslash, fun piece hpiece =>
      hsolid piece (List.mem_append_left [last] hpiece), hparent⟩

/-- The name of a document is the prefix of its directory's paths, and its last segment. -/
theorem normalizePath_eq_dirOf {front : List (List Char)} {last : List Char}
    (hpieces : segments path = front ++ [last]) (hfront : Segments.Solid '/' front) :
    normalizePath path = Store.dirOf (Segments.join '/' front) ++ last := by
  rw [normalizePath_eq_join, hpieces]
  unfold Store.dirOf
  cases front with
  | nil =>
    rw [List.nil_append, Segments.join_singleton]
    rfl
  | cons first rest =>
    have hne : Segments.join '/' (first :: rest) ≠ [] := by
      have hsegment := hfront first List.mem_cons_self
      intro hnil
      have hhead := Segments.head?_join hsegment.1 rest (d := '/')
      rw [hnil] at hhead
      exact hsegment.1 (List.head?_eq_none_iff.mp hhead.symm)
    rw [if_pos ⟨hne, Segments.last_join_ne hfront⟩, Segments.join_snoc (List.cons_ne_nil first rest),
      List.append_assoc]
    rfl

end Names

section Listing

namespace Store

/-- Entries are kept under the names of children, and their paths are those of the directory. -/
def Keyed (dir : List Char) (entries : List (List Char × WorkspaceEntry)) : Prop :=
  ∀ e ∈ entries, e.2.path = dir ++ e.1 ∧ e.1 ≠ [] ∧ '/' ∉ e.1

theorem Keyed.nil (dir : List Char) : Keyed dir [] := nofun

theorem Keyed.addEntry {dir : List Char} {entries : List (List Char × WorkspaceEntry)}
    (h : Keyed dir entries) (doc : MemoryDocument) : Keyed dir (addEntry dir entries doc) := by
  unfold Store.addEntry
  dsimp only
  split
  · split
    · exact h
    · next hchild =>
      split
      · intro e he
        obtain ⟨e', he', rfl⟩ := List.mem_map.mp he
        split
        · exact h e' he'
        · exact h e' he'
      · intro e he
        rcases List.mem_append.mp he with he | he
        · exact h e he
        · rw [List.mem_singleton.mp he]
          refine ⟨rfl, hchild, fun hslash => ?_⟩
          have hnot := List.mem_takeWhile_imp hslash
          exact absurd hnot (by decide)
  · exact h

/-- The children that are known stay known. -/
theorem map_fst_addEntry (dir : List Char) (entries : List (List Char × WorkspaceEntry))
    (doc : MemoryDocument) : entries.map Prod.fst <+: (addEntry dir entries doc).map Prod.fst := by
  unfold Store.addEntry
  dsimp only
  split
  · split
    · exact List.prefix_rfl
    · split
      · rw [List.map_map]
        have hkeys : (Prod.fst ∘ fun e : List Char × WorkspaceEntry =>
            if e.1 = (doc.path.drop dir.length).takeWhile (· != '/') then
              (e.1, { e.2 with
                isDirectory := (doc.path.drop dir.length).contains '/' || e.2.isDirectory
                contentPreview :=
                  if (doc.path.drop dir.length).contains '/' then none else e.2.contentPreview
                updatedAt := max e.2.updatedAt doc.updatedAt })
            else e) = Prod.fst := by
          funext e
          rw [Function.comp_apply]
          split
          · rfl
          · rfl
        exact ⟨[], by rw [List.append_nil, hkeys]⟩
      · rw [List.map_append]
        exact List.prefix_append _ _
  · exact List.prefix_rfl

/-- A document that is a child of the directory is known as one. -/
theorem mem_addEntry {dir last : List Char} (hlast : last ≠ []) (hslash : '/' ∉ last)
    (entries : List (List Char × WorkspaceEntry)) {doc : MemoryDocument} (hpath : doc.path = dir ++ last) :
    last ∈ (addEntry dir entries doc).map Prod.fst := by
  have hprefix : dir.isPrefixOf doc.path = true := by
    rw [hpath, List.isPrefixOf_iff_prefix]
    exact List.prefix_append dir last
  have hrelative : doc.path.drop dir.length = last := by
    rw [hpath, List.drop_left]
  have hchild : last.takeWhile (· != '/') = last := by
    rw [List.takeWhile_eq_self_iff]
    intro c hc
    rw [bne_iff_ne]
    rintro rfl
    exact hslash hc
  by_cases hknown : entries.any (·.1 == last) = true
  · obtain ⟨e, he, hkey⟩ := List.any_eq_true.mp hknown
    have hmem : last ∈ entries.map Prod.fst := List.mem_map.mpr ⟨e, he, beq_iff_eq.mp hkey⟩
    exact (map_fst_addEntry dir entries doc).subset hmem
  · unfold Store.addEntry
    dsimp only
    rw [if_pos hprefix, hrelative, hchild, if_neg hlast, if_neg hknown, List.map_append]
    exact List.mem_append_right _ List.mem_cons_self

theorem foldl_keyed (dir : List Char) (rows : List MemoryDocument)
    {entries : List (List Char × WorkspaceEntry)} (h : Keyed dir entries) :
    Keyed dir (rows.foldl (addEntry dir) entries) := by
  induction rows generalizing entries with
  | nil => exact h
  | cons doc rows ih => exact ih (h.addEntry doc)

theorem mem_foldl {dir last : List Char} (hlast : last ≠ []) (hslash : '/' ∉ last)
    {rows : List MemoryDocument} {doc : MemoryDocument} (hdoc : doc ∈ rows) (hpath : doc.path = dir ++ last)
    (entries : List (List Char × WorkspaceEntry)) :
    last ∈ (rows.foldl (addEntry dir) entries).map Prod.fst := by
  have hkept : ∀ (rows : List MemoryDocument) (entries : List (List Char × WorkspaceEntry)),
      last ∈ entries.map Prod.fst → last ∈ (rows.foldl (addEntry dir) entries).map Prod.fst := by
    intro rows
    induction rows with
    | nil => exact fun _ h => h
    | cons doc rows ih =>
      intro entries h
      exact ih _ ((map_fst_addEntry dir entries doc).subset h)
  induction rows generalizing entries with
  | nil => cases hdoc
  | cons other rows ih =>
    rcases List.mem_cons.mp hdoc with rfl | hdoc
    · exact hkept rows _ (mem_addEntry hlast hslash entries hpath)
    · exact ih hdoc _

/-- What is listed is a child of the directory. -/
theorem path_of_mem_listDirectory {w : Store} {directory : List Char} {e : WorkspaceEntry}
    (he : e ∈ w.listDirectory directory) :
    ∃ child, e.path = dirOf directory ++ child ∧ '/' ∉ child := by
  unfold listDirectory at he
  rw [List.mem_mergeSort] at he
  obtain ⟨⟨child, entry⟩, hentry, rfl⟩ := List.mem_map.mp he
  obtain ⟨hpath, -, hslash⟩ := foldl_keyed (dirOf directory) _ (Keyed.nil _) _ hentry
  exact ⟨child, hpath, hslash⟩

/-- Every child of a directory is listed. -/
theorem exists_listed {w : Store} {directory last : List Char} {doc : MemoryDocument}
    (hdoc : doc ∈ w.documents) (hpath : doc.path = dirOf directory ++ last) (hlast : last ≠ [])
    (hslash : '/' ∉ last) : ∃ e ∈ w.listDirectory directory, e.path = doc.path := by
  have hrow : doc ∈ w.documents.mergeSort fun a b => !decide (b.path < a.path) :=
    List.mem_mergeSort.mpr hdoc
  obtain ⟨⟨child, entry⟩, hentry, hchild⟩ := List.mem_map.mp (mem_foldl hlast hslash hrow hpath [])
  obtain ⟨hkeyed, -, -⟩ := foldl_keyed (dirOf directory) _ (Keyed.nil _) _ hentry
  dsimp only at hchild hkeyed
  refine ⟨entry, ?_, by rw [hkeyed, hchild, hpath]⟩
  unfold listDirectory
  rw [List.mem_mergeSort]
  exact List.mem_map.mpr ⟨_, hentry, rfl⟩

/-- A document is found as it was written. -/
theorem find_updated (w : Store) (path content : List Char) (now : Nat) :
    ((w.createDocument path now).updateDocument path content now).documents.find? (·.path == path) =
      some ⟨path, content, now⟩ := by
  have hthere : ∃ doc ∈ (w.createDocument path now).documents, (doc.path == path) = true := by
    unfold createDocument
    split
    · next h => exact List.any_eq_true.mp h
    · exact ⟨⟨path, [], now⟩, by simp, by simp⟩
  unfold updateDocument
  dsimp only
  rw [List.find?_map]
  have hsame : ((fun doc : MemoryDocument => doc.path == path) ∘ fun doc : MemoryDocument =>
      if doc.path = path then { doc with content := content, updatedAt := now } else doc) =
        fun doc => doc.path == path := by
    funext doc
    rw [Function.comp_apply]
    split
    · rfl
    · rfl
  rw [hsame]
  cases hfound : (w.createDocument path now).documents.find? (·.path == path) with
  | none =>
    obtain ⟨doc, hdoc, hpath⟩ := hthere
    exact absurd hpath (List.find?_eq_none.mp hfound doc hdoc)
  | some doc =>
    have hpath : (doc.path == path) = true :=
      List.find?_some (p := fun doc : MemoryDocument => doc.path == path) hfound
    rw [beq_iff_eq] at hpath
    rw [Option.map_some, if_pos hpath, hpath]

theorem getDocumentByPath_updated (w : Store) (path content : List Char) (now : Nat) :
    ((w.createDocument path now).updateDocument path content now).getDocumentByPath path =
      .ok ⟨path, content, now⟩ := by
  unfold getDocumentByPath
  rw [find_updated]

/-- What is deleted is gone. -/
theorem deleteDocumentByPath_of_ok {w : Store} {path : List Char} {doc : MemoryDocument}
    (h : w.getDocumentByPath path = .ok doc) : ∃ w', w.deleteDocumentByPath path = .ok w' ∧
      w'.getDocumentByPath path = .error (.documentNotFound path w.userId) := by
  refine ⟨{ w with documents := w.documents.filter fun doc => doc.path != path }, ?_, ?_⟩
  · unfold deleteDocumentByPath
    rw [h]
    rfl
  · unfold getDocumentByPath
    have hnone : (w.documents.filter fun doc => doc.path != path).find? (·.path == path) = none := by
      rw [List.find?_eq_none]
      intro doc hdoc
      simpa using (List.mem_filter.mp hdoc).2
    rw [hnone]

end Store

end Listing

section Serving

variable {path : List Char}

theorem sameDocument {p q : List Char} (h : normalizePath p = normalizePath q) : SameDocument p q where
  read w := by unfold Store.read; rw [h]
  write w content now := by unfold Store.write; rw [h]
  append w content now := by unfold Store.append; rw [h]
  holds w := by unfold Store.holds; rw [h]
  delete w := by unfold Store.delete; rw [h]
  list w := by unfold Store.list; rw [normalizeDirectory_eq, normalizeDirectory_eq, h]

theorem Plain.canonical (h : Plain path) : Canonical path := by
  have htrim := trim_normalizePath_iff.mpr ⟨h.front, h.back⟩
  refine ⟨normalizePath_of_trim htrim (segments_solid path) (normalizePath_eq_join path),
    normalizePath_slashes path, htrim, fun hempty => ?_⟩
  rw [splitOn_normalizePath h.some] at hempty
  exact (segments_solid path [] hempty).1 rfl

/-- The directory of a plain path's document is listed under its own name. -/
theorem Plain.parent_normal (h : Plain path) {front : List (List Char)} {last : List Char}
    (hpieces : segments path = front ++ [last]) (hfront : Segments.Solid '/' front) :
    normalizePath (Segments.join '/' front) = Segments.join '/' front := by
  refine normalizePath_of_trim ?_ hfront rfl
  rw [trim_eq_self_iff]
  have hbegin := h.front
  have hend := h.parent
  rw [hpieces] at hbegin hend
  rw [List.dropLast_concat] at hend
  constructor
  · cases front with
    | nil => simp [Segments.join]
    | cons first rest =>
      rw [Segments.head?_join (hfront first List.mem_cons_self).1]
      exact hbegin first rfl
  · rcases List.eq_nil_or_concat front with rfl | ⟨others, piece, rfl⟩
    · simp [Segments.join]
    · rw [List.concat_eq_append] at hfront hend ⊢
      rw [Segments.getLast?_join (hfront piece (by simp)).1]
      exact hend piece (by simp)

theorem Plain.served (h : Plain path) (w : Store) (content : List Char) (now : Nat) :
    Served w path content now := by
  have hname := h.canonical.idempotent
  have hget := w.getDocumentByPath_updated (normalizePath path) content now
  have hread : (w.write path content now).read path = .ok ⟨normalizePath path, content, now⟩ := hget
  obtain ⟨w', hdelete, hgone⟩ := Store.deleteDocumentByPath_of_ok hget
  have hholds : w'.holds path = false := by
    unfold Store.holds
    rw [hgone]
  obtain ⟨front, last, hpieces, hlast, hslash, hfront, hparent⟩ := exists_last h.some
  refine ⟨hread, ?_, ?_, ⟨w', hdelete, hholds⟩, w', ?_, hholds⟩
  · unfold Store.read
    rw [hname]
    exact hread
  · have hdoc := List.mem_of_find?_eq_some (w.find_updated (normalizePath path) content now)
    rw [hparent]
    unfold Store.list
    rw [normalizeDirectory_eq, h.parent_normal hpieces hfront]
    exact Store.exists_listed hdoc (normalizePath_eq_dirOf hpieces hfront) hlast hslash
  · unfold Store.delete
    rw [hname]
    exact hdelete

/-- A document is listed in its directory only under a name that the directory keeps. -/
theorem parent_normal_of_listed {w : Store} {front : List (List Char)} {last : List Char}
    (hslash : '/' ∉ last) {e : WorkspaceEntry}
    (he : e ∈ w.list (Segments.join '/' front)) (hpath : e.path = Segments.join '/' front ++ '/' :: last) :
    normalizePath (Segments.join '/' front) = Segments.join '/' front := by
  unfold Store.list at he
  rw [normalizeDirectory_eq] at he
  obtain ⟨child, hchild, hplain⟩ := Store.path_of_mem_listDirectory he
  rw [hpath] at hchild
  unfold Store.dirOf at hchild
  split at hchild
  · rw [List.append_assoc] at hchild
    have hreversed := congrArg List.reverse hchild
    simp only [List.reverse_append, List.reverse_cons, List.singleton_append,
      List.append_assoc] at hreversed
    have hboth := Lib.append_separator_inj (fun hmem => hslash (List.mem_reverse.mp hmem))
      (fun hmem => hplain (List.mem_reverse.mp hmem)) hreversed
    exact (List.reverse_injective hboth.2).symm
  · next hroot =>
    have hempty : normalizePath (Segments.join '/' front) = [] := by
      by_contra hsome
      exact hroot ⟨hsome, (normalizePath_slashes _).2⟩
    rw [hempty] at hchild
    have hmem : '/' ∈ Segments.join '/' front ++ '/' :: last :=
      List.mem_append_right _ List.mem_cons_self
    rw [hchild, List.nil_append] at hmem
    exact absurd hmem hplain

theorem plain_of_served (hcanonical : Canonical path) (h : Served ⟨"", []⟩ path [] 0) : Plain path := by
  have hsome : segments path ≠ [] := by
    intro hnone
    have hname := normalizePath_eq_join path
    rw [hnone] at hname
    refine hcanonical.segments ?_
    rw [hname]
    exact List.mem_singleton.mpr rfl
  obtain ⟨hfirst, hback⟩ := trim_normalizePath_iff.mp hcanonical.trimmed
  obtain ⟨front, last, hpieces, -, hslash, hfront, hparent⟩ := exists_last hsome
  refine ⟨hsome, hfirst, hback, ?_⟩
  rw [hpieces, List.dropLast_concat]
  rcases List.eq_nil_or_concat front with rfl | ⟨others, piece, rfl⟩
  · simp
  · rw [List.concat_eq_append] at hpieces hfront hparent ⊢
    have hname : normalizePath path = Segments.join '/' (others ++ [piece]) ++ '/' :: last := by
      rw [normalizePath_eq_join, hpieces, Segments.join_snoc (by simp)]
    obtain ⟨e, he, hpath⟩ := h.listed
    rw [hparent] at he
    rw [hname] at hpath
    have hnormal := parent_normal_of_listed hslash he hpath
    have hlast := (trim_eq_self_iff.mp (trim_of_normalizePath hnormal)).2
    rw [Segments.getLast?_join (hfront piece (by simp)).1] at hlast
    simpa using hlast

end Serving

/-- A path's name is canonical, paths of the same name are the same document to every operation, and
what is written under a path can be read, listed and deleted, exactly if the path is plain. -/
theorem documents_served_iff (path : List Char) :
    (Canonical path ∧ (∀ q, normalizePath q = normalizePath path → SameDocument q path) ∧
        ∀ (w : Store) (content : List Char) (now : Nat), Served w path content now) ↔ Plain path := by
  constructor
  · rintro ⟨hcanonical, -, hserved⟩
    exact plain_of_served hcanonical (hserved _ _ _)
  · intro h
    exact ⟨h.canonical, fun q hq => sameDocument hq, h.served⟩

/-- A document that was written is not found under the name it has. -/
theorem name_not_found :
    let path := "/ a".toList
    let w := Store.write ⟨"user", []⟩ path "text".toList 1
    w.documents.map (·.path) = [" a".toList] ∧ normalizePath (normalizePath path) ≠ normalizePath path ∧
      w.holds path = true ∧ w.holds (normalizePath path) = false := by
  decide +kernel

end Gyre.Workspace.Paths
