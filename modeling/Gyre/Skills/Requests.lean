/- digest: Requests on one skill registry that interleave, and what of their files is to stay. -/

import Gyre.Lib.Runs
import Gyre.Skills.Registry

/-!
An install checks under the registry's lock that its name is free, writes and loads its file without the
lock, and takes the lock again to add the skill. Other requests run in between.
-/

set_option autoImplicit false
set_option relaxedAutoImplicit false

namespace Gyre.Skills

/-- An install that has written and loaded its file; `overwrote` remembers, for no operation to look at,
whether a file was there before. -/
structure Prepared where
  skill : Registered
  overwrote : Bool

structure Requests where
  registry : List Registered
  disk : Disk
  /-- Names found free, with the contents to install under them. -/
  checked : List (String × List Char)
  prepared : List Prepared

def Requests.start (disk : Disk) : Requests := ⟨[], disk, [], []⟩

def Requests.skills (s : Requests) : SkillsState := ⟨s.registry, s.disk, []⟩

def Requests.withSkills (s : Requests) (t : SkillsState) : Requests :=
  { s with registry := t.registry, disk := t.disk }

inductive RequestOp where
  | discoverAll (world : DiskWorld)
  | reload (world : DiskWorld)
  | installSkill (content : List Char) (world : DiskWorld)
  | checkInstall (content : List Char)
  | writeInstall (index : Nat) (world : DiskWorld)
  | commitInstall (index : Nat)
  | removeSkill (name : String) (world : DiskWorld)

section Paths

variable (dirs : SkillDirs) (disk : Disk)

/-- The disk once the directory of an install is there. -/
def installDisk (name : String) : Disk :=
  let skillDir := join dirs.userDir name
  if disk.exists? skillDir then disk else disk.set skillDir (some .directory)

/-- The `SKILL.md` that an install loads. -/
def installFile (name : String) : String :=
  skillMd (installDisk dirs disk name) (join dirs.userDir name)

/-- The path that an install writes to, which is another one if its `SKILL.md` is a link. -/
def installTarget (name : String) : String :=
  (installDisk dirs disk name).follow (installFile dirs disk name)

def isFile (path : String) : Bool :=
  match disk path with
  | some (.file _ _) => true
  | _ => false

/-- A path is that of the `SKILL.md` of a directory, or of what the directory is a link to. -/
def SkillFile (dir path : String) : Prop :=
  path = join dir "SKILL.md" ∨
    ∃ target, disk dir = some (.symlink target) ∧ (disk target).isSome = true ∧ path = join target "SKILL.md"

/-- A path is the directory of a skill, what the directory is a link to, or its `SKILL.md`. -/
def Supports (dir path : String) : Prop :=
  path = dir ∨ disk dir = some (.symlink path) ∨ SkillFile disk dir path

end Paths

/-- The directory a skill was loaded from. -/
def SkillSource.dir : SkillSource → String
  | workspace path | user path | bundled path => path

section Steps

variable (frontmatter : String → Except String SkillManifest) (dirs : SkillDirs)

/-- An install finds its name free, under the lock. -/
def checkRequest (content : List Char) (s : Requests) : Requests × List SkillsReply :=
  match installName frontmatter s.registry content with
  | .error reply => (s, [reply])
  | .ok name => ({ s with checked := s.checked ++ [(name, normalizeLineEndings content)] }, [])

/-- `prepare_install_to_disk` for a name that was free, without the lock. -/
def writeRequest (index : Nat) (w : DiskWorld) (s : Requests) : Requests × List SkillsReply :=
  match s.checked[index]? with
  | none => (s, [])
  | some (name, content) =>
    let checked := s.checked.eraseIdx index
    match prepareInstallToDisk frontmatter dirs w s.disk name content with
    | (disk, .error e) => ({ s with disk := disk, checked := checked }, [.failed e])
    | (disk, .ok r) =>
      let overwrote := isFile s.disk (installTarget dirs s.disk name)
      ({ s with disk := disk, checked := checked, prepared := s.prepared ++ [⟨r, overwrote⟩] }, [])

/-- `commit_install` for what was prepared, under the lock. -/
def commitRequest (index : Nat) (s : Requests) : Requests × List SkillsReply :=
  match s.prepared[index]? with
  | none => (s, [])
  | some p =>
    let prepared := s.prepared.eraseIdx index
    match commitInstall s.registry p.skill with
    | .error e => ({ s with prepared := prepared }, [.failed e])
    | .ok registry =>
      ({ s with registry := registry, prepared := prepared }, [.installed p.skill.name])

def requestStep (s : Requests) : RequestOp → Requests × List SkillsReply
  | .discoverAll w =>
    let done := discoverAll frontmatter dirs w s.skills
    (s.withSkills done.1, done.2)
  | .reload w =>
    let done := discoverAll frontmatter dirs w { s.skills with registry := [] }
    (s.withSkills done.1, done.2)
  | .installSkill content w =>
    let done := installSkill frontmatter dirs content w s.skills
    (s.withSkills done.1, done.2)
  | .checkInstall content => checkRequest frontmatter content s
  | .writeInstall index w => writeRequest frontmatter dirs index w s
  | .commitInstall index => commitRequest index s
  | .removeSkill name w =>
    let done := removeSkill name w s.skills
    (s.withSkills done.1, done.2)

/-- The bytes of a file parse to what was loaded of a skill. -/
def ReadsAs (bytes : ByteArray) (skill : LoadedSkill) : Prop :=
  ∃ raw, String.fromUTF8? bytes = some raw ∧
    parseSkillMd frontmatter (normalizeLineEndings raw.toList) =
      .ok ⟨skill.manifest, skill.promptContent⟩

/-- The file a skill claims as its source holds it. -/
def OnDisk (disk : Disk) (r : Registered) : Prop :=
  ∃ path bytes writer, SkillFile disk r.skill.source.dir path ∧ disk path = some (.file bytes writer) ∧
    ReadsAs frontmatter bytes r.skill

/-- The names in the registry are unique, and its skills are those of their files. -/
structure Consistent (s : Requests) : Prop where
  unique : (s.registry.map (·.name)).Nodup
  onDisk : ∀ r ∈ s.registry, OnDisk frontmatter s.disk r

/-- Every file of a disk is in another one as it was. -/
def FilesKept (before after : Disk) : Prop :=
  ∀ path bytes writer, before path = some (.file bytes writer) → after path = some (.file bytes writer)

/-- An install that answers with an error has changed neither the registry nor a file. -/
def FailsClean (s : Requests) (op : RequestOp) : Prop :=
  let done := requestStep frontmatter dirs s op
  let failed := ∃ e, .failed e ∈ done.2
  let kept := done.1.registry = s.registry ∧ FilesKept s.disk done.1.disk
  match op with
  | .installSkill _ _ | .writeInstall _ _ => failed → kept
  | .checkInstall _ => kept
  | .commitInstall index => failed → kept ∧ ∀ p, s.prepared[index]? = some p → p.overwrote = false
  | .discoverAll _ | .reload _ | .removeSkill _ _ => True

/-- Once it writes, an install ends with a file that loads. -/
def Loads (w : DiskWorld) (disk : Disk) (name : String) (content : List Char) : Prop :=
  w.createDirError = none →
    (∀ reason left, w.write ≠ .failed reason (some left)) ∧
      (w.write = .written → installTarget dirs disk name = installFile dirs disk name ∧
        w.readError (join (join dirs.userDir name) "SKILL.md") = none ∧
        ∃ skill, loadBytes frontmatter w (join (join dirs.userDir name) "SKILL.md")
          (String.ofList content).toUTF8 .installed (.user (join dirs.userDir name)) = .ok skill)

/-- An install writes to nothing that another skill rests on, and over another file only if it will
load. -/
def WritesApart (w : DiskWorld) (s : Requests) (name : String) (content : List Char) : Prop :=
  (∀ r ∈ s.registry ++ s.prepared.map (·.skill),
      ¬ Supports s.disk r.skill.source.dir (installTarget dirs s.disk name)) ∧
    (isFile s.disk (installTarget dirs s.disk name) = true → Loads frontmatter dirs w s.disk name content)

/-- An operation does not reach into the files and names of others. -/
def Undisturbed (s : Requests) : RequestOp → Prop
  | .discoverAll w => ∀ r ∈ loadable frontmatter dirs w s.disk, has s.registry r.name = false
  | .reload _ | .checkInstall _ => True
  | .installSkill content w => ∀ name, installName frontmatter s.registry content = .ok name →
      WritesApart frontmatter dirs w s name (normalizeLineEndings content)
  | .writeInstall index w => ∀ name content, s.checked[index]? = some (name, content) →
      WritesApart frontmatter dirs w s name content
  | .commitInstall index => ∀ p, s.prepared[index]? = some p →
      has s.registry p.skill.name = true → p.overwrote = false
  | .removeSkill name _ => ∀ r ∈ s.registry, r.name = name →
      ∀ other ∈ (s.registry.filter fun o => decide (o.name ≠ name)) ++ s.prepared.map (·.skill),
        ¬ Supports s.disk other.skill.source.dir (skillMd s.disk r.skill.source.dir)

end Steps

end Gyre.Skills
