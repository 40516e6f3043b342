/- digest: Extracting a template's archive into a staging directory and swapping it in. -/

import Gyre.Lib.FileTree
import Gyre.Lib.Text
import Mathlib.Data.List.Basic

/-!
The archive is given as its decoded entries: the type and the size of the header, and the data the
entry yields, which may be longer. Every call on the file system may fail.
-/

set_option autoImplicit false
set_option relaxedAutoImplicit false

namespace Gyre.Template

open Gyre.Lib.FileTree

/-- Maximum size for any single file inside a template bundle (50 MB). -/
def maxFileBytes : Nat := 50 * 1024 * 1024

inductive EntryType where
  | regular
  | directory
  | symlink
  | hardLink
  | other
  deriving DecidableEq, Repr

structure TarEntry where
  path : Except String (List Char)
  entryType : EntryType
  headerSize : Option Nat
  data : List UInt8

inductive ExtractError where
  | unreadable (reason : String)
  | checksumMismatch
  | staging
  | badEntry (reason : String)
  | invalidPath (reason : String)
  | absolutePath
  | parentDirInPath
  | tooLarge (bytes : Nat)
  | directory
  | create
  | write
  | swap
  deriving DecidableEq, Repr

/-- `Path::components`, without those that stand for the current directory. -/
def components (path : List Char) : Path :=
  (path.splitOn '/').filter fun c => !c.isEmpty && c != ['.']

/-- The path ends in a slash or a dot, so no file can be created under it. -/
def namesDirectory (path : List Char) : Bool :=
  match (path.splitOn '/').getLast? with
  | some last => last.isEmpty || last == ['.']
  | none => true

/-- `safe_join`: where the path leads inside the base. A relative path joined to the base starts with
it, so the last check of the source always passes. -/
def safeJoin (path : List Char) : Except ExtractError Path :=
  if path.head? = some '/' then .error .absolutePath
  else if parentDir ∈ components path then .error .parentDirInPath
  else .ok (components path)

/-- How the calls for one entry fail. -/
structure EntryFault where
  dirs : Bool
  write : Option WriteFault
  deriving DecidableEq, Repr

/-- After an entry: the bytes of its file, if it was one. -/
structure EntryDone where
  tree : Tree
  log : List Touch
  result : Except ExtractError (Option Nat)

/-- `create_dir_all`, or its failure. -/
def makeDirs (t : Tree) (fails : Bool) (p : Path) : Done :=
  if fails then ⟨t, [], false⟩ else createDirAll t p

/-- The file of a regular entry. -/
def extractFile (t : Tree) (fault : EntryFault) (e : TarEntry) (path : List Char) (safePath : Path) :
    EntryDone :=
  let size := e.headerSize.getD 0
  if maxFileBytes < size then ⟨t, [], .error (.tooLarge size)⟩
  else
    let parents := makeDirs t fault.dirs safePath.dropLast
    if !parents.ok then ⟨parents.tree, parents.log, .error .directory⟩
    else if namesDirectory path then ⟨parents.tree, parents.log, .error .create⟩
    else
      let written := writeFile parents.tree safePath.dropLast (safePath.getLastD []) e.data fault.write
      ⟨written.tree, parents.log ++ written.log,
        if written.ok then .ok (some e.data.length) else .error .write⟩

/-- One pass through the loop of `do_extract`. -/
def extractEntry (t : Tree) (staging : Path) (fault : EntryFault) (e : TarEntry) : EntryDone :=
  match e.path with
  | .error reason => ⟨t, [], .error (.invalidPath reason)⟩
  | .ok path =>
    match safeJoin path with
    | .error err => ⟨t, [], .error err⟩
    | .ok inside =>
      match e.entryType with
      | .directory =>
        let made := makeDirs t fault.dirs (staging ++ inside)
        ⟨made.tree, made.log, if made.ok then .ok none else .error .directory⟩
      | .regular => extractFile t fault e path (staging ++ inside)
      -- symlinks, hard links and special files are skipped
      | _ => ⟨t, [], .ok none⟩

structure ExtractStats where
  filesExtracted : Nat
  bytesWritten : Nat
  deriving DecidableEq, Repr

def ExtractStats.add (stats : ExtractStats) : Option Nat → ExtractStats
  | some written => ⟨stats.filesExtracted + 1, stats.bytesWritten + written⟩
  | none => stats

structure Extracted where
  tree : Tree
  log : List Touch
  result : Except ExtractError ExtractStats

/-- `do_extract` from the `i`-th entry on. -/
def doExtract (staging : Path) (faults : Nat → EntryFault) :
    Tree → (i : Nat) → ExtractStats → List (Except String TarEntry) → Extracted
  | t, _, stats, [] => ⟨t, [], .ok stats⟩
  | t, _, _, .error reason :: _ => ⟨t, [], .error (.badEntry reason)⟩
  | t, i, stats, .ok e :: rest =>
    let done := extractEntry t staging (faults i) e
    match done.result with
    | .error err => ⟨done.tree, done.log, .error err⟩
    | .ok written =>
      let after := doExtract staging faults done.tree (i + 1) (stats.add written) rest
      ⟨after.tree, done.log ++ after.log, after.result⟩

/-- What an extraction meets: the bytes, what hashing and decoding make of them, the clock, and how
each of its own calls fails. -/
structure ExtractWorld where
  tarball : Except String (List UInt8)
  sha256 : List UInt8 → List Char
  entries : List UInt8 → List (Except String TarEntry)
  nanos : Nat
  leftover : Option (Path → Bool)
  stagingFails : Bool
  entryFaults : Nat → EntryFault
  rollback : Option (Path → Bool)
  oldDest : Option (Path → Bool)
  renameFails : Bool
  cleanup : Option (Path → Bool)

def stagingName (file : List Char) (nanos : Nat) : List Char :=
  ".gyre-extract-".toList ++ file ++ '-' :: Nat.toDigits 10 nanos

/-- Clean up any leftover staging directory, and make it. -/
def prepareStaging (w : ExtractWorld) (t : Tree) (staging : Path) : Done :=
  let cleared := if present t staging then removeDirAll t staging w.leftover else ⟨t, [], true⟩
  if cleared.ok then
    let made := makeDirs cleared.tree w.stagingFails staging
    ⟨made.tree, cleared.log ++ made.log, made.ok⟩
  else cleared

/-- Remove what is at the destination, and rename the staging directory to it. -/
def swapIn (w : ExtractWorld) (t : Tree) (staging dest : Path) : Done :=
  let cleared := if present t dest then removeDirAll t dest w.oldDest else ⟨t, [], true⟩
  if cleared.ok then
    let renamed := renameDir cleared.tree staging dest w.renameFails
    if renamed.ok then ⟨renamed.tree, cleared.log ++ renamed.log, true⟩
    else
      let removed := removeDirAll cleared.tree staging w.cleanup
      ⟨removed.tree, cleared.log ++ removed.log, false⟩
  else cleared

/-- Why the tarball is refused before anything is touched. -/
def checkTarball (w : ExtractWorld) (expected : Option (List Char)) :
    Except ExtractError (List UInt8) :=
  match w.tarball with
  | .error reason => .error (.unreadable reason)
  | .ok bytes =>
    match expected with
    | some digest => if digest = w.sha256 bytes then .ok bytes else .error .checksumMismatch
    | none => .ok bytes

/-- `extract_tarball_with_checksum`; `parent` and `file` are the parent and the name of the
destination, and `file` is `tmp` when it has none. -/
def extractTarball (w : ExtractWorld) (expected : Option (List Char)) (t : Tree)
    (parent dest : Path) (file : List Char) : Extracted :=
  match checkTarball w expected with
  | .error err => ⟨t, [], .error err⟩
  | .ok bytes =>
    let staging := parent ++ [stagingName file w.nanos]
    let prepared := prepareStaging w t staging
    if !prepared.ok then ⟨prepared.tree, prepared.log, .error .staging⟩
    else
      let extracted := doExtract staging w.entryFaults prepared.tree 0 ⟨0, 0⟩ (w.entries bytes)
      match extracted.result with
      | .error err =>
        let removed := removeDirAll extracted.tree staging w.rollback
        ⟨removed.tree, prepared.log ++ extracted.log ++ removed.log, .error err⟩
      | .ok stats =>
        let swapped := swapIn w extracted.tree staging dest
        ⟨swapped.tree, prepared.log ++ extracted.log ++ swapped.log,
          if swapped.ok then .ok stats else .error .swap⟩

end Gyre.Template
