/- digest: Installing a template: the tarball goes to the cache, its contents to a subdirectory. -/

import Gyre.Lib.Text
import Gyre.Template.Extractor

/-!
The name comes from the user, the version and the tarball from the registry. Paths keep what they are
given, `..` included; only the calls on the file system find out where they lead.
-/

set_option autoImplicit false
set_option relaxedAutoImplicit false

namespace Gyre.Template

open Gyre.Lib Gyre.Lib.FileTree

/-- `resolve_name`: a bare name, or author and name. -/
def resolveName (input : List Char) : List Char × List Char :=
  match Text.splitFirst ['/'] input with
  | some (author, name) => (author, name)
  | none => ("sac916".toList, input)

structure TemplateMeta where
  author : List Char
  name : List Char
  version : List Char

/-- The registry's answer about a template; `garbled` is a success without the expected JSON. -/
inductive MetaResponse where
  | success (found : TemplateMeta)
  | garbled
  | refused
  | unreachable

/-- The registry's answer to the download; `cut` is a success whose body cannot be read. -/
inductive DownloadResponse where
  | success (bytes : List UInt8)
  | cut
  | unavailable

/-- What an installation meets: the registry, how its own calls fail, and the extraction's world. -/
structure InstallWorld where
  metadata : MetaResponse
  download : DownloadResponse
  cacheFails : Bool
  cacheWrite : Option WriteFault
  installFails : Bool
  permissionsFail : Bool
  readFails : Bool
  extract : ExtractWorld

/-- The metadata, or a stub where the registry has none. -/
def InstallWorld.resolveMeta (w : InstallWorld) (author name : List Char) : Option TemplateMeta :=
  match w.metadata with
  | .success found => some found
  | .garbled => none
  | .refused | .unreachable => some ⟨author, name, "0.0.0".toList⟩

/-- `~/.gyre/template-cache/` -/
def templateCacheDir (gyreDir : Path) : Path := gyreDir ++ ["template-cache".toList]

/-- `~/.gyre/templates/` -/
def templatesDir (gyreDir : Path) : Path := gyreDir ++ ["templates".toList]

def cacheFileName (author name version : List Char) : List Char :=
  author ++ '-' :: (name ++ '-' :: (version ++ ".gyre.tar.gz".toList))

def subdirectory (author name : List Char) : List Char := author ++ '-' :: name

/-- `extract_tarball` on a path that is there: its parent is found, and its name, `tmp` after a `..`.
What such a path leads to can be emptied, but not removed. -/
def extractAt (w : ExtractWorld) (t : Tree) (path : Path) : Done :=
  match enter t [] path.dropLast with
  | .dir parent =>
    let last := path.getLastD []
    let e :=
      if last = parentDir then
        extractTarball { w with oldDest := some (w.oldDest.getD fun _ => false) } none t parent
          parent.dropLast "tmp".toList
      else extractTarball w none t parent (parent ++ [last]) last
    ⟨e.tree, e.log, e.result.isOk⟩
  | .link p => ⟨t, [.followed p], false⟩
  | _ => ⟨t, [], false⟩

/-- From the downloaded bytes on. -/
def installBytes (w : InstallWorld) (t : Tree) (cacheFile installDir : Path) (bytes : List UInt8) :
    Done :=
  let written := writeFile t cacheFile.dropLast (cacheFile.getLastD []) bytes w.cacheWrite
  if !written.ok then written
  else
    let made := makeDirs written.tree w.installFails installDir
    if !made.ok || w.permissionsFail then ⟨made.tree, written.log ++ made.log, false⟩
    else
      let tarball := if w.readFails then .error "Cannot read tarball" else .ok bytes
      let extracted := extractAt { w.extract with tarball := tarball } made.tree installDir
      ⟨extracted.tree, written.log ++ made.log ++ extracted.log, extracted.ok⟩

/-- `install` -/
def install (w : InstallWorld) (gyreDir : Path) (t : Tree) (input : List Char) : Done :=
  let (author, name) := resolveName input
  match w.resolveMeta author name with
  | none => ⟨t, [], false⟩
  | some found =>
    let made := makeDirs t w.cacheFails (templateCacheDir gyreDir)
    if !made.ok then made
    else
      match w.download with
      | .cut => { made with ok := false }
      | .unavailable => made
      | .success bytes =>
        let installed := installBytes w made.tree
          (templateCacheDir gyreDir ++ components (cacheFileName author name found.version))
          (templatesDir gyreDir ++ components (subdirectory author name)) bytes
        ⟨installed.tree, made.log ++ installed.log, installed.ok⟩

end Gyre.Template
