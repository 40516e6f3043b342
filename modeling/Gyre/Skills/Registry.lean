/- digest: The skill registry: loading from disk, discovery, installs and removals. -/

import Gyre.Skills.Parser
import Mathlib.Algebra.Group.Nat.Defs

/-!
The disk maps paths to what is there; every file remembers whether a person or an install wrote it
last, and every registered skill who had written the file it was read from. No operation of the
registry looks at these two marks.
-/

set_option autoImplicit false
set_option relaxedAutoImplicit false

namespace Gyre.Skills

/-- Who wrote a file. -/
inductive Writer where
  | hand
  | install
  deriving DecidableEq, Repr

inductive Node where
  | file (bytes : ByteArray) (writer : Writer)
  | directory
  | symlink (target : String)

/-- What is at a path; a skill directory or a `SKILL.md` may be a symbolic link. -/
def Disk := String → Option Node

namespace Disk

def set (disk : Disk) (path : String) (node : Option Node) : Disk :=
  fun p => if p = path then node else disk p

/-- The path a link stands for. -/
def follow (disk : Disk) (path : String) : String :=
  match disk path with
  | some (.symlink target) => target
  | _ => path

/-- `try_exists`, which follows a link. -/
def exists? (disk : Disk) (path : String) : Bool := (disk (disk.follow path)).isSome

end Disk

def join (dir name : String) : String := dir ++ "/" ++ name

/-- Where the `SKILL.md` of a directory really is, when the directory may be a link. -/
def skillMd (disk : Disk) (dir : String) : String := join (disk.follow dir) "SKILL.md"

inductive SkillRegistryError where
  | notFound (name : String)
  | readError (path reason : String)
  | parseError (name reason : String)
  | fileTooLarge (name : String) (size max : Nat)
  | symlinkDetected (path : String)
  | gatingFailed (name reason : String)
  | tokenBudgetExceeded (name : String) (approxTokens declared : Nat)
  | alreadyExists (name : String)
  | cannotRemove (name reason : String)
  | writeError (path reason : String)
  deriving DecidableEq, Repr

/-- How writing a file ends; a failed write may leave a part of the file behind. -/
inductive WriteEnd where
  | written
  | failed (reason : String) (left : Option ByteArray)

/-- What the operating system answers while one operation runs: the entries of a directory in the
order they are listed, permissions, what the decoder says of bytes that are not UTF-8, and what the
gating check finds. -/
structure DiskWorld where
  listing : String → List String
  createDirError : Option String
  write : WriteEnd
  readError : String → Option String
  utf8Error : ByteArray → String
  removeError : Option String
  leavesEmpty : String → Bool
  binaryExists : String → Bool
  varSet : String → Bool
  configExists : String → Bool

/-- A skill with the writer of the file it was read from. -/
structure Registered where
  skill : LoadedSkill
  writer : Writer

def Registered.name (r : Registered) : String := r.skill.manifest.name

/-- `check_requirements_sync`: the requirements that are not met. -/
def requirementFailures (w : DiskWorld) (r : GatingRequirements) : List String :=
  (r.bins.filter fun bin => !w.binaryExists bin).map (s!"required binary not found: {·}") ++
    (r.env.filter fun var => !w.varSet var).map (s!"required env var not set: {·}") ++
    (r.config.filter fun path => !w.configExists path).map (s!"required config not found: {·}")

def usizeLimit : Nat := 2 ^ 64

section Load

variable (frontmatter : String → Except String SkillManifest) (w : DiskWorld)

/-- The checks of `load_and_validate_skill` on a file's bytes. -/
def loadBytes (path : String) (bytes : ByteArray) (trust : SkillTrust) (source : SkillSource) :
    Except SkillRegistryError LoadedSkill :=
  if bytes.size > maxPromptFileSize then
    .error (.fileTooLarge path bytes.size maxPromptFileSize)
  else
    match String.fromUTF8? bytes with
    | none => .error (.readError path s!"Invalid UTF-8: {w.utf8Error bytes}")
    | some rawContent =>
      match parseSkillMd frontmatter (normalizeLineEndings rawContent.toList) with
      | .error (.invalidName name) => .error (.parseError name (SkillParseError.invalidName name).display)
      | .error e => .error (.parseError path e.display)
      | .ok parsed =>
        let manifest := parsed.manifest
        let failures := (manifest.requires.map (requirementFailures w)).getD []
        if !failures.isEmpty then
          .error (.gatingFailed manifest.name ("; ".intercalate failures))
        else
          -- A quarter of a length within the size limit is exact in floating point.
          let approxTokens := parsed.promptContent.utf8ByteSize / 4
          let declared := manifest.activation.maxContextTokens
          if declared > 0 ∧ approxTokens > declared * 2 % usizeLimit then
            .error (.tokenBudgetExceeded manifest.name approxTokens declared)
          else .ok ⟨manifest, parsed.promptContent, trust, source⟩

/-- `load_and_validate_skill`: `real` is where `path` really is. -/
def loadAndValidateSkill (disk : Disk) (path real : String) (trust : SkillTrust)
    (source : SkillSource) : Except SkillRegistryError Registered :=
  match disk real with
  | none => .error (.readError path "No such file or directory (os error 2)")
  | some (.symlink _) => .error (.symlinkDetected path)
  | some .directory => .error (.readError path "Is a directory (os error 21)")
  | some (.file bytes writer) =>
    match w.readError path with
    | some reason => .error (.readError path reason)
    | none => (loadBytes frontmatter w path bytes trust source).map (⟨·, writer⟩)

end Load

/-- Maximum number of skill files looked at in a directory. -/
def maxDiscoveredSkills : Nat := 100

/-- A `SKILL.md` found in a directory, and the directory it stands for. -/
structure Candidate where
  path : String
  source : SkillSource
  deriving DecidableEq, Repr

/-- The `SKILL.md` an entry of a directory leads to: in a subdirectory, or the entry itself. -/
def candidate (disk : Disk) (dir : String) (makeSource : String → SkillSource) (entry : String) :
    Option Candidate :=
  let path := join dir entry
  match disk path with
  | some .directory =>
    if disk.exists? (join path "SKILL.md") then some ⟨join path "SKILL.md", makeSource path⟩
    else none
  | some (.file _ _) => if entry = "SKILL.md" then some ⟨path, makeSource dir⟩ else none
  | some (.symlink _) | none => none

/-- The files `discover_from_dir` tries to load, in order. -/
def candidates (w : DiskWorld) (disk : Disk) (dir : String) (makeSource : String → SkillSource) :
    List Candidate :=
  ((w.listing dir).filterMap (candidate disk dir makeSource)).take maxDiscoveredSkills

/-- Where a registry looks for skills. -/
structure SkillDirs where
  userDir : String
  workspaceDir : Option String

/-- The files `discover_all` tries to load: those of the workspace, then those of the user. -/
def discoverable (w : DiskWorld) (dirs : SkillDirs) (disk : Disk) : List Candidate :=
  (dirs.workspaceDir.map fun dir => candidates w disk dir .workspace).getD [] ++
    candidates w disk dirs.userDir .user

/-- The first skill of every name that has not been seen. -/
@[grind =] def firstNamed (seen : List String) : List Registered → List Registered
  | [] => []
  | r :: rest =>
    if r.name ∈ seen then firstNamed seen rest else r :: firstNamed (r.name :: seen) rest

structure SkillsState where
  registry : List Registered
  disk : Disk
  /-- Installs that have written and read their file and not been committed. -/
  prepared : List Registered

/-- What the operations of the registry answer. -/
inductive SkillsReply where
  | loaded (names : List String)
  | installed (name : String)
  | removed (name : String)
  | failed (error : SkillRegistryError)
  | refused (error : SkillParseError)
  deriving DecidableEq, Repr

section Operations

variable (frontmatter : String → Except String SkillManifest) (dirs : SkillDirs)

/-- `load_skill_md` on a found file; everything that is discovered is trusted. -/
def loadCandidate (w : DiskWorld) (disk : Disk) (c : Candidate) :
    Except SkillRegistryError Registered :=
  loadAndValidateSkill frontmatter w disk c.path c.path .trusted c.source

/-- The skills in the files `discover_all` finds, without those that do not load. -/
def loadable (w : DiskWorld) (disk : Disk) : List Registered :=
  (discoverable w dirs disk).filterMap fun c => (loadCandidate frontmatter w disk c).toOption

/-- The skills `discover_all` adds. -/
def discovered (w : DiskWorld) (disk : Disk) : List Registered :=
  firstNamed [] (loadable frontmatter dirs w disk)

def discoverAll (w : DiskWorld) (s : SkillsState) : SkillsState × List SkillsReply :=
  let added := discovered frontmatter dirs w s.disk
  ({ s with registry := s.registry ++ added }, [.loaded (added.map (·.name))])

/-- `has`. -/
def has (registry : List Registered) (name : String) : Bool :=
  registry.any fun r => decide (r.name = name)

/-- `prepare_install_to_disk`. -/
def prepareInstallToDisk (w : DiskWorld) (disk : Disk) (skillName : String)
    (normalizedContent : List Char) : Disk × Except SkillRegistryError Registered :=
  let skillDir := join dirs.userDir skillName
  match w.createDirError with
  | some reason => (disk, .error (.writeError skillDir reason))
  | none =>
    let disk := if disk.exists? skillDir then disk else disk.set skillDir (some .directory)
    let skillPath := join skillDir "SKILL.md"
    let real := skillMd disk skillDir
    let written := disk.follow real
    match disk written, w.write with
    | some .directory, _ => (disk, .error (.writeError skillPath "Is a directory (os error 21)"))
    | _, .failed reason none => (disk, .error (.writeError skillPath reason))
    | _, .failed reason (some left) =>
      (disk.set written (some (.file left .install)), .error (.writeError skillPath reason))
    | _, .written =>
      let bytes := (String.ofList normalizedContent).toUTF8
      let disk := disk.set written (some (.file bytes .install))
      (disk, loadAndValidateSkill frontmatter w disk skillPath real .installed (.user skillDir))

/-- `commit_install`. -/
def commitInstall (registry : List Registered) (r : Registered) :
    Except SkillRegistryError (List Registered) :=
  if has registry r.name then .error (.alreadyExists r.name) else .ok (registry ++ [r])

/-- How an install starts: the content is normalised and parsed, and its name must be free. -/
def installName (registry : List Registered) (content : List Char) :
    Except SkillsReply String :=
  match parseSkillMd frontmatter (normalizeLineEndings content) with
  | .error e => .error (.refused e)
  | .ok parsed =>
    let name := parsed.manifest.name
    if has registry name then .error (.failed (.alreadyExists name)) else .ok name

/-- The part of an install that runs without the registry's lock. -/
@[grind =] def prepareInstall (content : List Char) (w : DiskWorld) (s : SkillsState) :
    SkillsState × List SkillsReply :=
  match installName frontmatter s.registry content with
  | .error reply => (s, [reply])
  | .ok name =>
    match prepareInstallToDisk frontmatter dirs w s.disk name (normalizeLineEndings content) with
    | (disk, .error e) => ({ s with disk := disk }, [.failed e])
    | (disk, .ok r) => ({ s with disk := disk, prepared := s.prepared ++ [r] }, [])

/-- The end of the `index`-th prepared install. -/
@[grind =] def commitPrepared (index : Nat) (s : SkillsState) : SkillsState × List SkillsReply :=
  match s.prepared[index]? with
  | none => (s, [])
  | some r =>
    let prepared := s.prepared.eraseIdx index
    match commitInstall s.registry r with
    | .error e => ({ s with prepared := prepared }, [.failed e])
    | .ok registry =>
      ({ s with registry := registry, prepared := prepared }, [.installed r.name])

/-- `install_skill`: all of an install at once. -/
@[grind =] def installSkill (content : List Char) (w : DiskWorld) (s : SkillsState) :
    SkillsState × List SkillsReply :=
  match installName frontmatter s.registry content with
  | .error reply => (s, [reply])
  | .ok name =>
    match prepareInstallToDisk frontmatter dirs w s.disk name (normalizeLineEndings content) with
    | (disk, .error e) => ({ s with disk := disk }, [.failed e])
    | (disk, .ok r) =>
      match commitInstall s.registry r with
      | .error e => ({ s with disk := disk }, [.failed e])
      | .ok registry => ({ s with disk := disk, registry := registry }, [.installed r.name])

end Operations

/-- `validate_remove`. -/
def validateRemove (registry : List Registered) (name : String) :
    Except SkillRegistryError String :=
  match registry.find? fun r => decide (r.name = name) with
  | none => .error (.notFound name)
  | some r =>
    match r.skill.source with
    | .user path => .ok path
    | .workspace _ =>
      .error (.cannotRemove name "workspace skills cannot be removed via this interface")
    | .bundled _ => .error (.cannotRemove name "bundled skills cannot be removed")

/-- `delete_skill_files`. -/
def deleteSkillFiles (w : DiskWorld) (disk : Disk) (path : String) :
    Disk × Except SkillRegistryError Unit :=
  let file := skillMd disk path
  if disk.exists? file then
    match w.removeError with
    | some reason => (disk, .error (.writeError (join path "SKILL.md") reason))
    | none =>
      let disk := disk.set file none
      match disk path with
      | some .directory => (if w.leavesEmpty path then disk.set path none else disk, .ok ())
      | _ => (disk, .ok ())
  else (disk, .ok ())

/-- `commit_remove`. -/
def commitRemove (registry : List Registered) (name : String) :
    Except SkillRegistryError (List Registered) :=
  if has registry name then .ok (registry.eraseP fun r => decide (r.name = name))
  else .error (.notFound name)

/-- A removal up to the deletion of the skill's files. -/
@[grind =] def deleteFiles (name : String) (w : DiskWorld) (s : SkillsState) :
    SkillsState × List SkillsReply :=
  match validateRemove s.registry name with
  | .error e => (s, [.failed e])
  | .ok path =>
    match deleteSkillFiles w s.disk path with
    | (disk, .error e) => ({ s with disk := disk }, [.failed e])
    | (disk, .ok ()) => ({ s with disk := disk }, [])

/-- The end of a removal. -/
def finishRemove (name : String) (s : SkillsState) : SkillsState × List SkillsReply :=
  match commitRemove s.registry name with
  | .error e => (s, [.failed e])
  | .ok registry => ({ s with registry := registry }, [.removed name])

/-- `remove_skill`: all of a removal at once. -/
@[grind =] def removeSkill (name : String) (w : DiskWorld) (s : SkillsState) :
    SkillsState × List SkillsReply :=
  match validateRemove s.registry name with
  | .error e => (s, [.failed e])
  | .ok path =>
    match deleteSkillFiles w s.disk path with
    | (disk, .error e) => ({ s with disk := disk }, [.failed e])
    | (disk, .ok ()) => finishRemove name { s with disk := disk }

/-- What a person does to a path by hand. -/
inductive HandEdit where
  | write (bytes : ByteArray)
  | link (target : String)
  | makeDirectory
  | remove

def HandEdit.node : HandEdit → Option Node
  | .write bytes => some (.file bytes .hand)
  | .link target => some (.symlink target)
  | .makeDirectory => some .directory
  | .remove => none

/-- Operations on the registry and its disk: installs and removals also in the two parts that
concurrent requests interleave, and a restart of the program. -/
inductive SkillsOp where
  | discoverAll (world : DiskWorld)
  | reload (world : DiskWorld)
  | restart (world : DiskWorld)
  | installSkill (content : List Char) (world : DiskWorld)
  | prepareInstall (content : List Char) (world : DiskWorld)
  | commitPrepared (index : Nat)
  | removeSkill (name : String) (world : DiskWorld)
  | deleteFiles (name : String) (world : DiskWorld)
  | finishRemove (name : String)
  | editByHand (path : String) (edit : HandEdit)

@[grind =] def skillsStep (frontmatter : String → Except String SkillManifest) (dirs : SkillDirs)
    (s : SkillsState) : SkillsOp → SkillsState × List SkillsReply
  | .discoverAll w => discoverAll frontmatter dirs w s
  | .reload w => discoverAll frontmatter dirs w { s with registry := [] }
  | .restart w => discoverAll frontmatter dirs w { s with registry := [], prepared := [] }
  | .installSkill content w => installSkill frontmatter dirs content w s
  | .prepareInstall content w => prepareInstall frontmatter dirs content w s
  | .commitPrepared index => commitPrepared index s
  | .removeSkill name w => removeSkill name w s
  | .deleteFiles name w => deleteFiles name w s
  | .finishRemove name => finishRemove name s
  | .editByHand path edit => ({ s with disk := s.disk.set path edit.node }, [])

end Gyre.Skills
