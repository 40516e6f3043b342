/- digest: Unique names, skills as in their files, and failed installs that leave no trace. -/

import Gyre.Skills.Requests
import Mathlib.Data.List.Nodup

/-!
Every skill that is registered or about to be holds what its file holds. An operation that writes to no
other skill's file keeps it so, in whatever order the parts of the requests run.
-/

set_option autoImplicit false
set_option relaxedAutoImplicit false

namespace Gyre.Skills

open Gyre.Lib

section Texts

private theorem fromUTF8?_toUTF8 (s : String) : String.fromUTF8? s.toUTF8 = some s := by
  unfold String.fromUTF8?
  exact dif_pos s.isValidUTF8

private theorem return_not_mem_normalize (l : List Char) : '\r' ∉ normalizeLineEndings l := by
  fun_induction normalizeLineEndings l with
  | case1 => exact List.not_mem_nil
  | case2 rest ih => simpa using ih
  | case3 c rest _ ih =>
    rw [List.mem_cons, not_or]
    refine ⟨?_, ih⟩
    split
    · decide
    next hc => exact fun h => hc h.symm

private theorem normalize_of_not_mem {l : List Char} (h : '\r' ∉ l) : normalizeLineEndings l = l := by
  fun_induction normalizeLineEndings l with
  | case1 => rfl
  | case2 rest ih => exact absurd List.mem_cons_self h
  | case3 c rest _ ih =>
    obtain ⟨hc, hrest⟩ := not_or.mp (mt List.mem_cons.mpr h)
    rw [ih hrest, if_neg (Ne.symm hc)]

end Texts

section Loading

variable {frontmatter : String → Except String SkillManifest} {w : DiskWorld}

private theorem loadBytes_ok {path : String} {bytes : ByteArray} {trust : SkillTrust}
    {source : SkillSource} {skill : LoadedSkill}
    (h : loadBytes frontmatter w path bytes trust source = .ok skill) :
    ReadsAs frontmatter bytes skill ∧ skill.source = source := by
  unfold loadBytes at h
  split at h
  · cases h
  · split at h
    · cases h
    next raw hraw =>
      split at h
      · cases h
      · cases h
      next parsed hparsed =>
        dsimp only at h
        split at h
        · cases h
        · split at h
          · cases h
          · cases h
            exact ⟨⟨raw, hraw, hparsed⟩, rfl⟩

/-- What loads was read from a file. -/
private theorem loadAndValidateSkill_ok {disk : Disk} {path real : String} {trust : SkillTrust}
    {source : SkillSource} {r : Registered}
    (h : loadAndValidateSkill frontmatter w disk path real trust source = .ok r) :
    ∃ bytes writer, disk real = some (.file bytes writer) ∧ ReadsAs frontmatter bytes r.skill ∧
      r.skill.source = source := by
  unfold loadAndValidateSkill at h
  split at h
  · cases h
  · cases h
  · cases h
  next bytes writer hnode =>
    split at h
    · cases h
    · cases hload : loadBytes frontmatter w path bytes trust source with
      | error e =>
        rw [hload] at h
        cases h
      | ok skill =>
        rw [hload] at h
        cases h
        exact ⟨bytes, writer, hnode, loadBytes_ok hload⟩

/-- A file gives one name. -/
private theorem ReadsAs.name_unique {bytes : ByteArray} {a b : LoadedSkill}
    (ha : ReadsAs frontmatter bytes a) (hb : ReadsAs frontmatter bytes b) : a.manifest = b.manifest := by
  obtain ⟨raw, hraw, hparsed⟩ := ha
  obtain ⟨other, hother, hparsed'⟩ := hb
  obtain rfl := Option.some.inj (hraw.symm.trans hother)
  exact congrArg ParsedSkill.manifest (Except.ok.inj (hparsed.symm.trans hparsed'))

end Loading

section Discovery

variable {frontmatter : String → Except String SkillManifest} {dirs : SkillDirs}

private theorem firstNamed_subset {seen : List String} {rs : List Registered} :
    ∀ r ∈ firstNamed seen rs, r ∈ rs ∧ r.name ∉ seen := by
  induction rs generalizing seen with
  | nil => simp [firstNamed]
  | cons first rest ih =>
    intro r hr
    unfold firstNamed at hr
    split at hr
    · obtain ⟨hmem, hseen⟩ := ih r hr
      exact ⟨List.mem_cons_of_mem _ hmem, hseen⟩
    next hfirst =>
      rcases List.mem_cons.mp hr with rfl | hr
      · exact ⟨List.mem_cons_self, hfirst⟩
      · obtain ⟨hmem, hseen⟩ := ih r hr
        exact ⟨List.mem_cons_of_mem _ hmem, fun h => hseen (List.mem_cons_of_mem _ h)⟩

private theorem firstNamed_nodup {seen : List String} {rs : List Registered} :
    ((firstNamed seen rs).map (·.name)).Nodup := by
  induction rs generalizing seen with
  | nil => exact List.nodup_nil
  | cons first rest ih =>
    unfold firstNamed
    split
    · exact ih
    · rw [List.map_cons, List.nodup_cons]
      refine ⟨fun h => ?_, ih⟩
      obtain ⟨r, hr, hname⟩ := List.mem_map.mp h
      exact (firstNamed_subset r hr).2 (hname ▸ List.mem_cons_self)

private theorem candidate_source {disk : Disk} {dir : String} {makeSource : String → SkillSource}
    (hsource : ∀ path, (makeSource path).dir = path) {entry : String} {c : Candidate}
    (h : candidate disk dir makeSource entry = some c) : c.path = join c.source.dir "SKILL.md" := by
  unfold candidate at h
  dsimp only at h
  split at h
  · split at h
    · cases h
      rw [hsource]
    · cases h
  · split at h
    next hentry =>
      cases h
      rw [hsource, hentry]
    · cases h
  · cases h
  · cases h

private theorem discoverable_source {w : DiskWorld} {disk : Disk} {c : Candidate}
    (h : c ∈ discoverable w dirs disk) : c.path = join c.source.dir "SKILL.md" := by
  have hdir {dir : String} {makeSource : String → SkillSource}
      (hsource : ∀ path, (makeSource path).dir = path) (hc : c ∈ candidates w disk dir makeSource) :
      c.path = join c.source.dir "SKILL.md" := by
    obtain ⟨entry, -, hentry⟩ := List.mem_filterMap.mp (List.mem_of_mem_take hc)
    exact candidate_source hsource hentry
  rcases List.mem_append.mp h with h | h
  · cases hws : dirs.workspaceDir with
    | none =>
      rw [hws] at h
      exact absurd h List.not_mem_nil
    | some dir =>
      rw [hws] at h
      exact hdir (fun _ => rfl) h
  · exact hdir (fun _ => rfl) h

/-- A skill that a discovery loads is that of its file. -/
private theorem onDisk_of_loadable {w : DiskWorld} {disk : Disk} {r : Registered}
    (h : r ∈ loadable frontmatter dirs w disk) : OnDisk frontmatter disk r := by
  obtain ⟨c, hc, hload⟩ := List.mem_filterMap.mp h
  cases hloaded : loadCandidate frontmatter w disk c with
  | error e =>
    rw [hloaded] at hload
    cases hload
  | ok loaded =>
    rw [hloaded] at hload
    cases hload
    obtain ⟨bytes, writer, hfile, hreads, hsource⟩ := loadAndValidateSkill_ok hloaded
    refine ⟨c.path, bytes, writer, .inl ?_, hfile, hreads⟩
    rw [hsource]
    exact discoverable_source hc

end Discovery

section Installs

variable {frontmatter : String → Except String SkillManifest} {dirs : SkillDirs} {w : DiskWorld}
  {disk : Disk} {name : String} {content : List Char}

/-- The disk after an install has written its file. -/
private def writtenDisk (dirs : SkillDirs) (disk : Disk) (name : String) (bytes : ByteArray) : Disk :=
  (installDisk dirs disk name).set (installTarget dirs disk name) (some (.file bytes .install))

private theorem prepareInstallToDisk_cases (frontmatter : String → Except String SkillManifest)
    (dirs : SkillDirs) (w : DiskWorld) (disk : Disk) (name : String) (content : List Char) :
    let prepared := prepareInstallToDisk frontmatter dirs w disk name content
    ((prepared.1 = disk ∨ prepared.1 = installDisk dirs disk name) ∧ ∃ e, prepared.2 = .error e) ∨
      (∃ reason left, w.createDirError = none ∧ w.write = .failed reason (some left) ∧
        prepared.1 = writtenDisk dirs disk name left ∧ ∃ e, prepared.2 = .error e) ∨
      w.createDirError = none ∧ w.write = .written ∧
        prepared.1 = writtenDisk dirs disk name (String.ofList content).toUTF8 ∧
        prepared.2 = loadAndValidateSkill frontmatter w
          (writtenDisk dirs disk name (String.ofList content).toUTF8)
          (join (join dirs.userDir name) "SKILL.md") (installFile dirs disk name) .installed
          (.user (join dirs.userDir name)) := by
  intro prepared
  cases hcreate : w.createDirError with
  | some reason =>
    have hprepared : prepared = (disk, .error (.writeError (join dirs.userDir name) reason)) := by
      simp only [prepared, prepareInstallToDisk, hcreate]
    rw [hprepared]
    exact .inl ⟨.inl rfl, _, rfl⟩
  | none =>
    simp only [prepared, prepareInstallToDisk, hcreate, true_and]
    split
    · exact .inl ⟨.inr rfl, _, rfl⟩
    · exact .inl ⟨.inr rfl, _, rfl⟩
    next reason left hwrite _ => exact .inr (.inl ⟨reason, left, hwrite, rfl, _, rfl⟩)
    next hwrite _ => exact .inr (.inr ⟨hwrite, rfl, rfl⟩)

/-- Making a directory changes no file, and no link to something. -/
private theorem installDisk_eq {path : String} {node : Node} (h : disk path = some node)
    (hnode : ∀ target, node = .symlink target → (disk target).isSome = true) :
    installDisk dirs disk name path = some node := by
  unfold installDisk
  split
  · exact h
  next hmissing =>
    unfold Disk.set
    by_cases hpath : path = join dirs.userDir name
    · subst hpath
      exfalso
      apply hmissing
      unfold Disk.exists? Disk.follow
      rw [h]
      cases node with
      | file bytes writer => simp [h]
      | directory => simp [h]
      | symlink target => exact hnode target rfl
    · rw [if_neg hpath]
      exact h

private theorem installDisk_file {path : String} {bytes : ByteArray} {writer : Writer}
    (h : disk path = some (.file bytes writer)) :
    installDisk dirs disk name path = some (.file bytes writer) :=
  installDisk_eq h fun _ hlink => by cases hlink

private theorem installDisk_isSome {path : String} (h : (disk path).isSome = true) :
    (installDisk dirs disk name path).isSome = true := by
  unfold installDisk
  split
  · exact h
  · unfold Disk.set
    split
    · rfl
    · exact h

/-- Where an install writes no file is, unless there was one before. -/
private theorem filesKept_installDisk : FilesKept disk (installDisk dirs disk name) :=
  fun _ _ _ h => installDisk_file h

private theorem filesKept_writtenDisk {bytes : ByteArray}
    (h : isFile disk (installTarget dirs disk name) = false) :
    FilesKept disk (writtenDisk dirs disk name bytes) := by
  intro path old writer hold
  have hpath : path ≠ installTarget dirs disk name := by
    rintro rfl
    unfold isFile at h
    rw [hold] at h
    cases h
  unfold writtenDisk Disk.set
  rw [if_neg hpath]
  exact installDisk_file hold

/-- A skill stays the one of its file if the file is still found, and still the same. -/
private theorem OnDisk.frame {r : Registered} {after : Disk} (h : OnDisk frontmatter disk r)
    (hfile : ∀ path bytes writer, SkillFile disk r.skill.source.dir path →
      disk path = some (.file bytes writer) → after path = some (.file bytes writer))
    (hlink : ∀ target, disk r.skill.source.dir = some (.symlink target) →
      (disk target).isSome = true → SkillFile disk r.skill.source.dir (join target "SKILL.md") →
      after r.skill.source.dir = some (.symlink target) ∧ (after target).isSome = true) :
    OnDisk frontmatter after r := by
  obtain ⟨path, bytes, writer, hpath, hnode, hreads⟩ := h
  refine ⟨path, bytes, writer, ?_, hfile path bytes writer hpath hnode, hreads⟩
  rcases hpath with hdirect | ⟨target, hdir, htarget, hthere⟩
  · exact .inl hdirect
  · obtain ⟨hdir', htarget'⟩ := hlink target hdir htarget (.inr ⟨target, hdir, htarget, rfl⟩)
    exact .inr ⟨target, hdir', htarget', hthere⟩

private theorem OnDisk.installDisk {r : Registered} (h : OnDisk frontmatter disk r) :
    OnDisk frontmatter (installDisk dirs disk name) r := by
  refine h.frame (fun _ _ _ _ hnode => installDisk_file hnode) fun target hdir htarget _ => ?_
  refine ⟨installDisk_eq hdir fun other hother => ?_, installDisk_isSome htarget⟩
  cases hother
  exact htarget

/-- An install that writes elsewhere keeps a skill as its file has it. -/
private theorem OnDisk.writtenDisk {r : Registered} {bytes : ByteArray} (h : OnDisk frontmatter disk r)
    (hapart : ¬ Supports disk r.skill.source.dir (installTarget dirs disk name)) :
    OnDisk frontmatter (writtenDisk dirs disk name bytes) r := by
  obtain ⟨hdir, hrest⟩ := not_or.mp hapart
  obtain ⟨-, hfile⟩ := not_or.mp hrest
  refine h.frame (fun path old writer hpath hnode => ?_) fun target hlink htarget _ => ⟨?_, ?_⟩
  · have hother : path ≠ installTarget dirs disk name := fun heq => hfile (heq ▸ hpath)
    unfold Skills.writtenDisk Disk.set
    rw [if_neg hother]
    exact installDisk_file hnode
  · unfold Skills.writtenDisk Disk.set
    rw [if_neg (Ne.symm hdir)]
    refine installDisk_eq hlink fun other hother => ?_
    cases hother
    exact htarget
  · unfold Skills.writtenDisk Disk.set
    split
    · rfl
    · exact installDisk_isSome htarget

/-- Where an install finds a file after it has written, it is the one it wrote. -/
private theorem written_of_file {old bytes : ByteArray} {writer : Writer}
    (h : writtenDisk dirs disk name bytes (installFile dirs disk name) = some (.file old writer)) :
    installTarget dirs disk name = installFile dirs disk name ∧ old = bytes := by
  unfold writtenDisk Disk.set at h
  by_cases hsame : installFile dirs disk name = installTarget dirs disk name
  · rw [if_pos hsame] at h
    cases h
    exact ⟨hsame.symm, rfl⟩
  · rw [if_neg hsame] at h
    have hfollow : installTarget dirs disk name = installFile dirs disk name := by
      unfold installTarget Disk.follow
      rw [h]
    exact absurd hfollow.symm hsame

private theorem join_ne (dir name : String) : join dir name ≠ dir := by
  intro h
  have hlength := congrArg String.length h
  unfold join at hlength
  rw [String.length_append, String.length_append] at hlength
  have hslash : "/".length = 1 := rfl
  omega

/-- The file an install loads is that of its directory. -/
private theorem skillFile_installFile {bytes : ByteArray}
    (htarget : installTarget dirs disk name = installFile dirs disk name) :
    SkillFile (writtenDisk dirs disk name bytes) (join dirs.userDir name) (installFile dirs disk name) := by
  cases hdir : installDisk dirs disk name (join dirs.userDir name) with
  | none => exact .inl (by simp [installFile, skillMd, Disk.follow, hdir])
  | some node =>
    cases node with
    | file old writer => exact .inl (by simp [installFile, skillMd, Disk.follow, hdir])
    | directory => exact .inl (by simp [installFile, skillMd, Disk.follow, hdir])
    | symlink target =>
      have hfile : installFile dirs disk name = join target "SKILL.md" := by
        simp [installFile, skillMd, Disk.follow, hdir]
      have hthere : (installDisk dirs disk name target).isSome = true := by
        unfold installDisk at hdir ⊢
        split at hdir
        next hexists =>
          unfold Disk.exists? Disk.follow at hexists
          rw [hdir] at hexists
          rw [if_pos (by unfold Disk.exists? Disk.follow; rw [hdir]; exact hexists)]
          exact hexists
        next =>
          unfold Disk.set at hdir
          rw [if_pos rfl] at hdir
          cases hdir
      refine .inr ⟨target, ?_, ?_, hfile⟩
      · unfold writtenDisk Disk.set
        split
        next hsame =>
          -- then the directory would be a link to itself, and its file the directory
          have hlink : installDisk dirs disk name (installFile dirs disk name) =
              some (.symlink target) := by
            rw [← htarget, ← hsame]
            exact hdir
          have hself : target = installFile dirs disk name := by
            unfold installTarget Disk.follow at htarget
            rw [hlink] at htarget
            exact htarget
          exact absurd (hfile.symm.trans hself.symm) (join_ne target "SKILL.md")
        next => exact hdir
      · unfold writtenDisk Disk.set
        split
        · rfl
        · exact hthere

/-- What an install has prepared is the skill of the file it wrote. -/
private theorem prepared_onDisk {r : Registered}
    (h : (prepareInstallToDisk frontmatter dirs w disk name content).2 = .ok r) :
    OnDisk frontmatter (prepareInstallToDisk frontmatter dirs w disk name content).1 r ∧
      ReadsAs frontmatter (String.ofList content).toUTF8 r.skill := by
  rcases prepareInstallToDisk_cases frontmatter dirs w disk name content with
    ⟨-, e, he⟩ | ⟨reason, left, -, -, -, e, he⟩ | ⟨-, -, hdisk, hloaded⟩
  · rw [he] at h
    cases h
  · rw [he] at h
    cases h
  · rw [hloaded] at h
    obtain ⟨bytes, writer, hnode, hreads, hsource⟩ := loadAndValidateSkill_ok h
    obtain ⟨htarget, rfl⟩ := written_of_file hnode
    refine ⟨⟨installFile dirs disk name, _, writer, ?_, ?_, hreads⟩, hreads⟩
    · rw [hdisk, hsource]
      exact skillFile_installFile htarget
    · rw [hdisk]
      exact hnode

/-- An install keeps every skill that it does not write to. -/
private theorem OnDisk.prepare {r : Registered} (h : OnDisk frontmatter disk r)
    (hapart : ¬ Supports disk r.skill.source.dir (installTarget dirs disk name)) :
    OnDisk frontmatter (prepareInstallToDisk frontmatter dirs w disk name content).1 r := by
  rcases prepareInstallToDisk_cases frontmatter dirs w disk name content with
    ⟨hsame | hmade, -⟩ | ⟨reason, left, -, -, hdisk, -⟩ | ⟨-, -, hdisk, -⟩
  · rw [hsame]
    exact h
  · rw [hmade]
    exact h.installDisk
  · rw [hdisk]
    exact h.writtenDisk hapart
  · rw [hdisk]
    exact h.writtenDisk hapart

/-- An install that fails has written over no file, if it would have loaded what it writes over one. -/
private theorem filesKept_of_failed
    (hloads : isFile disk (installTarget dirs disk name) = true → Loads frontmatter dirs w disk name content)
    (hfailed : ∃ e, (prepareInstallToDisk frontmatter dirs w disk name content).2 = .error e) :
    FilesKept disk (prepareInstallToDisk frontmatter dirs w disk name content).1 := by
  rcases prepareInstallToDisk_cases frontmatter dirs w disk name content with
    ⟨hsame | hmade, -⟩ | ⟨reason, left, hcreated, hwrite, hdisk, -⟩ | ⟨hcreated, hwrite, hdisk, hloaded⟩
  · rw [hsame]
    exact fun _ _ _ h => h
  · rw [hmade]
    exact filesKept_installDisk
  · rw [hdisk]
    cases hthere : isFile disk (installTarget dirs disk name) with
    | false => exact filesKept_writtenDisk hthere
    | true => exact absurd hwrite ((hloads hthere hcreated).1 reason left)
  · rw [hdisk]
    cases hthere : isFile disk (installTarget dirs disk name) with
    | false => exact filesKept_writtenDisk hthere
    | true =>
      obtain ⟨htarget, hread, skill, hskill⟩ := (hloads hthere hcreated).2 hwrite
      obtain ⟨e, he⟩ := hfailed
      have hnode : writtenDisk dirs disk name (String.ofList content).toUTF8
          (installFile dirs disk name) = some (.file (String.ofList content).toUTF8 .install) := by
        unfold writtenDisk Disk.set
        exact if_pos htarget.symm
      rw [hloaded] at he
      unfold loadAndValidateSkill at he
      rw [hnode, hread] at he
      dsimp only at he
      rw [hskill] at he
      cases he

/-- A skill that is installed at once has the name that was found free. -/
private theorem installName_eq {registry : List Registered} {r : Registered} {raw : List Char}
    (hname : installName frontmatter registry raw = .ok name)
    (hreads : ReadsAs frontmatter (String.ofList (normalizeLineEndings raw)).toUTF8 r.skill) :
    r.name = name ∧ has registry name = false := by
  obtain ⟨text, htext, hparsed⟩ := hreads
  obtain rfl := Option.some.inj ((fromUTF8?_toUTF8 _).symm.trans htext)
  rw [String.toList_ofList, normalize_of_not_mem (return_not_mem_normalize raw)] at hparsed
  unfold installName at hname
  rw [hparsed] at hname
  dsimp only at hname
  cases hfree : has registry r.skill.manifest.name with
  | true =>
    rw [hfree] at hname
    cases hname
  | false =>
    rw [hfree] at hname
    obtain rfl := Except.ok.inj hname
    exact ⟨rfl, hfree⟩

end Installs

section Removals

variable {frontmatter : String → Except String SkillManifest} {w : DiskWorld} {disk : Disk}

private theorem set_of_ne {path other : String} {node : Option Node} (h : other ≠ path) :
    disk.set path node other = disk other := if_neg h

/-- An empty directory is removed without a skill that rests on it. -/
private theorem OnDisk.removeDirectory {r : Registered} {dir : String}
    (h : OnDisk frontmatter (disk.set (skillMd disk dir) none) r)
    (hdirectory : disk.set (skillMd disk dir) none dir = some .directory)
    (hapart : ¬ Supports disk r.skill.source.dir (skillMd disk dir)) :
    OnDisk frontmatter ((disk.set (skillMd disk dir) none).set dir none) r := by
  have hdir : dir ≠ skillMd disk dir := by
    intro heq
    rw [← heq] at hdirectory
    unfold Disk.set at hdirectory
    rw [if_pos rfl] at hdirectory
    cases hdirectory
  have hmade : disk dir = some .directory := (set_of_ne hdir).symm.trans hdirectory
  have hfile : skillMd disk dir = join dir "SKILL.md" := by
    unfold skillMd Disk.follow
    rw [hmade]
  have hother {path : String} {node : Node} (hpath : disk.set (skillMd disk dir) none path = some node)
      (hnode : node ≠ .directory) : path ≠ dir := by
    rintro rfl
    exact hnode (Option.some.inj (hpath.symm.trans hdirectory))
  refine h.frame (fun path bytes writer _ hnode => ?_) fun target hlink htarget _ => ⟨?_, ?_⟩
  · rw [set_of_ne (hother hnode (by simp))]
    exact hnode
  · rw [set_of_ne (hother hlink (by simp))]
    exact hlink
  · rw [set_of_ne fun heq => ?_]
    · exact htarget
    · subst heq
      apply hapart
      have hplace : r.skill.source.dir ≠ skillMd disk target := fun heq => hapart (.inl heq.symm)
      have hlinked : disk r.skill.source.dir = some (.symlink target) := (set_of_ne hplace).symm.trans hlink
      exact .inr (.inr (.inr ⟨target, hlinked, by rw [hmade]; rfl, hfile⟩))

/-- The deletion of a skill's files keeps every other skill as its file has it. -/
private theorem OnDisk.deleteSkillFiles {r : Registered} {dir : String} (h : OnDisk frontmatter disk r)
    (hapart : ¬ Supports disk r.skill.source.dir (skillMd disk dir)) :
    OnDisk frontmatter (deleteSkillFiles w disk dir).1 r := by
  obtain ⟨hdir, hrest⟩ := not_or.mp hapart
  obtain ⟨hlinked, hfile⟩ := not_or.mp hrest
  have hcleared : OnDisk frontmatter (disk.set (skillMd disk dir) none) r := by
    refine h.frame (fun path bytes writer hpath hnode => ?_) fun target hlink htarget _ => ⟨?_, ?_⟩
    · have hother : path ≠ skillMd disk dir := fun heq => hfile (heq ▸ hpath)
      rw [set_of_ne hother]
      exact hnode
    · rw [set_of_ne (Ne.symm hdir)]
      exact hlink
    · have hother : target ≠ skillMd disk dir := fun heq => hlinked (heq ▸ hlink)
      rw [set_of_ne hother]
      exact htarget
  unfold Skills.deleteSkillFiles
  dsimp only
  split
  · split
    · exact h
    · split
      next hdirectory =>
        split
        · exact hcleared.removeDirectory hdirectory hapart
        · exact hcleared
      · exact hcleared
  · exact h

private theorem deleteSkillFiles_error {dir : String} {after : Disk} {e : SkillRegistryError}
    (h : deleteSkillFiles w disk dir = (after, .error e)) : after = disk := by
  unfold deleteSkillFiles at h
  dsimp only at h
  split at h
  · split at h
    · exact (Prod.mk.inj h).1.symm
    · split at h
      · split at h <;> cases (Prod.mk.inj h).2
      · cases (Prod.mk.inj h).2
  · cases (Prod.mk.inj h).2

private theorem validateRemove_ok {registry : List Registered} {name path : String}
    (h : validateRemove registry name = .ok path) :
    ∃ r before after, registry = before ++ r :: after ∧ r.name = name ∧
      (∀ b ∈ before, b.name ≠ name) ∧ r.skill.source.dir = path := by
  unfold validateRemove at h
  cases hfind : registry.find? fun r => decide (r.name = name) with
  | none =>
    rw [hfind] at h
    cases h
  | some r =>
    rw [hfind] at h
    obtain ⟨hname, before, after, hsplit, hbefore⟩ := List.find?_eq_some_iff_append.mp hfind
    refine ⟨r, before, after, hsplit, of_decide_eq_true hname, fun b hb => ?_, ?_⟩
    · simpa using hbefore b hb
    · dsimp only at h
      cases hsource : r.skill.source with
      | user place =>
        rw [hsource] at h
        exact Except.ok.inj h
      | workspace place =>
        rw [hsource] at h
        cases h
      | bundled place =>
        rw [hsource] at h
        cases h

/-- How a removal ends: nothing has happened, or the files of the first skill of that name are deleted and
it is taken from the registry. -/
private theorem removeSkill_cases (name : String) (w : DiskWorld) (s : SkillsState) :
    ((removeSkill name w s).1.registry = s.registry ∧ (removeSkill name w s).1.disk = s.disk) ∨
      ∃ r before after, s.registry = before ++ r :: after ∧ r.name = name ∧
        (removeSkill name w s).1.registry = before ++ after ∧
        (removeSkill name w s).1.disk = (deleteSkillFiles w s.disk r.skill.source.dir).1 := by
  unfold removeSkill
  cases hvalid : validateRemove s.registry name with
  | error e => exact .inl ⟨rfl, rfl⟩
  | ok path =>
    dsimp only
    obtain ⟨r, before, after, hsplit, hname, hbefore, rfl⟩ := validateRemove_ok hvalid
    generalize hdeleted : deleteSkillFiles w s.disk r.skill.source.dir = deleted
    obtain ⟨disk, done⟩ := deleted
    cases done with
    | error e =>
      refine .inl ⟨rfl, ?_⟩
      exact deleteSkillFiles_error hdeleted
    | ok done =>
      refine .inr ⟨r, before, after, hsplit, hname, ?_, ?_⟩
      · have hhas : has s.registry name = true := by
          unfold has
          rw [hsplit, List.any_eq_true]
          exact ⟨r, by simp, decide_eq_true hname⟩
        have herased : s.registry.eraseP (fun r => decide (r.name = name)) = before ++ after := by
          have hhead : (r :: after).eraseP (fun o => decide (o.name = name)) = after := by simp [hname]
          rw [hsplit, List.eraseP_append_right _ (by simpa using hbefore), hhead]
        simp only [finishRemove, commitRemove, hhas, if_true, herased]
      · simp only [finishRemove, hdeleted]
        split <;> rfl

end Removals

section Runs

variable {frontmatter : String → Except String SkillManifest} {dirs : SkillDirs}

/-- Registered skills are as they should be, and those about to be are those of their files. -/
private structure Kept (frontmatter : String → Except String SkillManifest) (s : Requests) : Prop where
  consistent : Consistent frontmatter s
  prepared : ∀ p ∈ s.prepared, OnDisk frontmatter s.disk p.skill

private theorem has_eq_false {registry : List Registered} {name : String}
    (h : has registry name = false) : name ∉ registry.map (·.name) := by
  intro hmem
  obtain ⟨r, hr, hname⟩ := List.mem_map.mp hmem
  unfold has at h
  rw [List.any_eq_false] at h
  exact h r hr (decide_eq_true hname)

private theorem nodup_concat {registry : List Registered} {r : Registered}
    (h : (registry.map (·.name)).Nodup) (hfree : has registry r.name = false) :
    ((registry ++ [r]).map (·.name)).Nodup := by
  rw [List.map_append, List.map_singleton, List.nodup_append]
  refine ⟨h, List.nodup_singleton _, ?_⟩
  intro name hname other hother heq
  rw [List.mem_singleton.mp hother] at heq
  exact has_eq_false hfree (heq ▸ hname)

/-- A discovery keeps the registry as it should be, if it finds no name that is registered. -/
private theorem kept_discoverAll {s : Requests} {registry : List Registered} {w : DiskWorld}
    (hunique : (registry.map (·.name)).Nodup) (hdisk : ∀ r ∈ registry, OnDisk frontmatter s.disk r)
    (hprepared : ∀ p ∈ s.prepared, OnDisk frontmatter s.disk p.skill)
    (hfree : ∀ r ∈ loadable frontmatter dirs w s.disk, has registry r.name = false) :
    Kept frontmatter { s with registry := registry ++ discovered frontmatter dirs w s.disk } := by
  have hfound (r : Registered) (hr : r ∈ discovered frontmatter dirs w s.disk) :
      r ∈ loadable frontmatter dirs w s.disk := (firstNamed_subset r hr).1
  refine ⟨⟨?_, fun r hr => ?_⟩, hprepared⟩
  · rw [List.map_append, List.nodup_append]
    refine ⟨hunique, firstNamed_nodup, ?_⟩
    intro name hname other hother heq
    obtain ⟨r, hr, hrname⟩ := List.mem_map.mp hother
    exact has_eq_false (hfree r (hfound r hr)) (hrname ▸ heq ▸ hname)
  · rcases List.mem_append.mp hr with hr | hr
    · exact hdisk r hr
    · exact onDisk_of_loadable (hfound r hr)

private theorem kept_commit {s : Requests} {index : Nat} (h : Kept frontmatter s) :
    Kept frontmatter (commitRequest index s).1 := by
  obtain ⟨⟨hunique, hdisk⟩, hprepared⟩ := h
  unfold commitRequest
  cases hp : s.prepared[index]? with
  | none => exact ⟨⟨hunique, hdisk⟩, hprepared⟩
  | some p =>
    have hrest (q : Prepared) (hq : q ∈ s.prepared.eraseIdx index) : OnDisk frontmatter s.disk q.skill :=
      hprepared q (List.mem_of_mem_eraseIdx hq)
    dsimp only
    unfold commitInstall
    cases hhas : has s.registry p.skill.name with
    | true => exact ⟨⟨hunique, hdisk⟩, hrest⟩
    | false =>
      refine ⟨⟨nodup_concat hunique hhas, fun r hr => ?_⟩, hrest⟩
      rcases List.mem_append.mp hr with hr | hr
      · exact hdisk r hr
      · rw [List.mem_singleton.mp hr]
        exact hprepared p (List.mem_of_getElem? hp)

private theorem failsClean_commit {s : Requests} {index : Nat} {e : SkillRegistryError}
    (h : .failed e ∈ (commitRequest index s).2) :
    ∃ p, s.prepared[index]? = some p ∧ has s.registry p.skill.name = true ∧
      (commitRequest index s).1.registry = s.registry ∧ (commitRequest index s).1.disk = s.disk := by
  unfold commitRequest at h ⊢
  cases hp : s.prepared[index]? with
  | none =>
    rw [hp] at h
    cases h
  | some p =>
    rw [hp] at h
    unfold commitInstall at h ⊢
    dsimp only at h ⊢
    cases hhas : has s.registry p.skill.name with
    | true => exact ⟨p, rfl, hhas, rfl, rfl⟩
    | false =>
      rw [hhas] at h
      cases List.mem_singleton.mp h

private theorem kept_remove {s : Requests} {name : String} {w : DiskWorld} (h : Kept frontmatter s)
    (hapart : Undisturbed frontmatter dirs s (.removeSkill name w)) :
    Kept frontmatter (requestStep frontmatter dirs s (.removeSkill name w)).1 := by
  obtain ⟨⟨hunique, hdisk⟩, hprepared⟩ := h
  rcases removeSkill_cases name w s.skills with ⟨hregistry, hsame⟩ |
    ⟨r, before, after, hsplit, hname, hregistry, hdeleted⟩
  · refine ⟨⟨?_, ?_⟩, ?_⟩
    · show ((removeSkill name w s.skills).1.registry.map (·.name)).Nodup
      rw [hregistry]
      exact hunique
    · show ∀ r ∈ (removeSkill name w s.skills).1.registry,
        OnDisk frontmatter (removeSkill name w s.skills).1.disk r
      rw [hregistry, hsame]
      exact hdisk
    · show ∀ p ∈ s.prepared, OnDisk frontmatter (removeSkill name w s.skills).1.disk p.skill
      rw [hsame]
      exact hprepared
  · have hsplit' : s.registry = before ++ r :: after := hsplit
    have hr : r ∈ s.registry := by
      rw [hsplit']
      simp
    have hothers := hapart r hr hname
    have hnames : ((before ++ after).map (·.name)).Nodup ∧ ∀ o ∈ before ++ after, o.name ≠ name := by
      rw [hsplit', List.map_append, List.map_cons, List.nodup_middle, List.nodup_cons,
        ← List.map_append] at hunique
      refine ⟨hunique.2, fun o ho heq => hunique.1 ?_⟩
      exact List.mem_map.mpr ⟨o, ho, heq.trans hname.symm⟩
    have hremains (o : Registered) (ho : o ∈ before ++ after) : o ∈ s.registry := by
      rw [hsplit']
      rcases List.mem_append.mp ho with ho | ho
      · exact List.mem_append_left _ ho
      · exact List.mem_append_right _ (List.mem_cons_of_mem _ ho)
    refine ⟨⟨?_, ?_⟩, ?_⟩
    · show ((removeSkill name w s.skills).1.registry.map (·.name)).Nodup
      rw [hregistry]
      exact hnames.1
    · show ∀ o ∈ (removeSkill name w s.skills).1.registry,
        OnDisk frontmatter (removeSkill name w s.skills).1.disk o
      rw [hregistry, hdeleted]
      intro o ho
      refine (hdisk o (hremains o ho)).deleteSkillFiles (hothers o (List.mem_append_left _ ?_))
      exact List.mem_filter.mpr ⟨hremains o ho, decide_eq_true (hnames.2 o ho)⟩
    · show ∀ p ∈ s.prepared, OnDisk frontmatter (removeSkill name w s.skills).1.disk p.skill
      rw [hdeleted]
      intro p hp
      exact (hprepared p hp).deleteSkillFiles
        (hothers p.skill (List.mem_append_right _ (List.mem_map.mpr ⟨p, hp, rfl⟩)))

/-- What an install keeps of the other skills, and of the files if it fails. -/
private theorem kept_prepare {s : Requests} {w : DiskWorld} {name : String} {content : List Char}
    (h : Kept frontmatter s) (hapart : WritesApart frontmatter dirs w s name content) :
    Kept frontmatter
      { s with disk := (prepareInstallToDisk frontmatter dirs w s.disk name content).1 } := by
  obtain ⟨⟨hunique, hdisk⟩, hprepared⟩ := h
  refine ⟨⟨hunique, fun r hr => ?_⟩, fun p hp => ?_⟩
  · exact (hdisk r hr).prepare (hapart.1 r (List.mem_append_left _ hr))
  · have hmem : p.skill ∈ s.prepared.map (·.skill) := List.mem_map.mpr ⟨p, hp, rfl⟩
    exact (hprepared p hp).prepare (hapart.1 p.skill (List.mem_append_right _ hmem))

private theorem kept_write {s : Requests} {index : Nat} {w : DiskWorld} (h : Kept frontmatter s)
    (hapart : Undisturbed frontmatter dirs s (.writeInstall index w)) :
    Kept frontmatter (writeRequest frontmatter dirs index w s).1 ∧
      ((∃ e, .failed e ∈ (writeRequest frontmatter dirs index w s).2) →
        (writeRequest frontmatter dirs index w s).1.registry = s.registry ∧
          FilesKept s.disk (writeRequest frontmatter dirs index w s).1.disk) := by
  unfold writeRequest
  cases hchecked : s.checked[index]? with
  | none => exact ⟨h, fun _ => ⟨rfl, fun _ _ _ h => h⟩⟩
  | some request =>
    obtain ⟨name, content⟩ := request
    have hkept := kept_prepare h (hapart name content hchecked)
    have hfailed := filesKept_of_failed (hapart name content hchecked).2
    have hloaded {r : Registered}
        (hr : (prepareInstallToDisk frontmatter dirs w s.disk name content).2 = .ok r) :=
      prepared_onDisk hr
    dsimp only
    generalize prepareInstallToDisk frontmatter dirs w s.disk name content = prepared
      at hkept hfailed hloaded
    obtain ⟨⟨hunique, hdisk⟩, hprepared⟩ := hkept
    obtain ⟨disk, result⟩ := prepared
    cases result with
    | error e => exact ⟨⟨⟨hunique, hdisk⟩, hprepared⟩, fun _ => ⟨rfl, hfailed ⟨e, rfl⟩⟩⟩
    | ok r =>
      refine ⟨⟨⟨hunique, hdisk⟩, fun p hp => ?_⟩, ?_⟩
      · rcases List.mem_append.mp hp with hp | hp
        · exact hprepared p hp
        · rw [List.mem_singleton.mp hp]
          exact (hloaded rfl).1
      · rintro ⟨e, he⟩
        cases he

private theorem kept_install {s : Requests} {raw : List Char} {w : DiskWorld} (h : Kept frontmatter s)
    (hapart : Undisturbed frontmatter dirs s (.installSkill raw w)) :
    Kept frontmatter (requestStep frontmatter dirs s (.installSkill raw w)).1 ∧
      ((∃ e, .failed e ∈ (requestStep frontmatter dirs s (.installSkill raw w)).2) →
        (requestStep frontmatter dirs s (.installSkill raw w)).1.registry = s.registry ∧
          FilesKept s.disk (requestStep frontmatter dirs s (.installSkill raw w)).1.disk) := by
  have hstep : requestStep frontmatter dirs s (.installSkill raw w) =
      (s.withSkills (installSkill frontmatter dirs raw w s.skills).1,
        (installSkill frontmatter dirs raw w s.skills).2) := rfl
  rw [hstep]
  unfold installSkill
  cases hname : installName frontmatter s.registry raw with
  | error reply =>
    have hname' : installName frontmatter s.skills.registry raw = .error reply := hname
    rw [hname']
    exact ⟨h, fun _ => ⟨rfl, fun _ _ _ h => h⟩⟩
  | ok name =>
    have hname' : installName frontmatter s.skills.registry raw = .ok name := hname
    have hkept := kept_prepare h (hapart name hname)
    have hfailed := filesKept_of_failed (hapart name hname).2
    have hloaded {r : Registered} (hr : (prepareInstallToDisk frontmatter dirs w s.disk name
        (normalizeLineEndings raw)).2 = .ok r) := prepared_onDisk hr
    rw [hname']
    dsimp only
    have hdisk' : s.skills.disk = s.disk := rfl
    rw [hdisk']
    generalize prepareInstallToDisk frontmatter dirs w s.disk name (normalizeLineEndings raw) = prepared
      at hkept hfailed hloaded
    obtain ⟨⟨hunique, hdisk⟩, hprepared⟩ := hkept
    obtain ⟨disk, result⟩ := prepared
    cases result with
    | error e => exact ⟨⟨⟨hunique, hdisk⟩, hprepared⟩, fun _ => ⟨rfl, hfailed ⟨e, rfl⟩⟩⟩
    | ok r =>
      obtain ⟨honDisk, hreads⟩ := hloaded rfl
      obtain ⟨hsame, hfree⟩ := installName_eq hname hreads
      have hcommit : commitInstall s.skills.registry r = .ok (s.registry ++ [r]) := by
        unfold commitInstall
        rw [hsame]
        show (if has s.registry name = true then _ else _) = _
        rw [hfree]
        rfl
      dsimp only
      rw [hcommit]
      refine ⟨⟨⟨?_, fun o ho => ?_⟩, hprepared⟩, ?_⟩
      · exact nodup_concat hunique (hsame ▸ hfree)
      · rcases List.mem_append.mp ho with ho | ho
        · exact hdisk o ho
        · rw [List.mem_singleton.mp ho]
          exact honDisk
      · rintro ⟨e, he⟩
        cases List.mem_singleton.mp he

/-- One operation that reaches into nothing of others. -/
private theorem requestStep_kept {s : Requests} {op : RequestOp} (h : Kept frontmatter s)
    (hop : Undisturbed frontmatter dirs s op) :
    Kept frontmatter (requestStep frontmatter dirs s op).1 ∧ FailsClean frontmatter dirs s op := by
  cases op with
  | discoverAll w =>
    exact ⟨kept_discoverAll h.consistent.unique h.consistent.onDisk h.prepared hop, trivial⟩
  | reload w =>
    have hempty : Kept frontmatter { s with registry := [] ++ discovered frontmatter dirs w s.disk } :=
      kept_discoverAll List.nodup_nil (by simp) h.prepared fun _ _ => rfl
    exact ⟨hempty, trivial⟩
  | installSkill raw w => exact kept_install h hop
  | checkInstall raw =>
    have hsame : (checkRequest frontmatter raw s).1.registry = s.registry ∧
        (checkRequest frontmatter raw s).1.disk = s.disk ∧
        (checkRequest frontmatter raw s).1.prepared = s.prepared := by
      unfold checkRequest
      cases installName frontmatter s.registry raw <;> exact ⟨rfl, rfl, rfl⟩
    obtain ⟨hregistry, hdisk, hprepared⟩ := hsame
    refine ⟨⟨⟨?_, ?_⟩, ?_⟩, ?_⟩
    · show ((checkRequest frontmatter raw s).1.registry.map (·.name)).Nodup
      rw [hregistry]
      exact h.consistent.unique
    · show ∀ r ∈ (checkRequest frontmatter raw s).1.registry,
        OnDisk frontmatter (checkRequest frontmatter raw s).1.disk r
      rw [hregistry, hdisk]
      exact h.consistent.onDisk
    · show ∀ p ∈ (checkRequest frontmatter raw s).1.prepared,
        OnDisk frontmatter (checkRequest frontmatter raw s).1.disk p.skill
      rw [hprepared, hdisk]
      exact h.prepared
    · refine ⟨hregistry, ?_⟩
      show FilesKept s.disk (checkRequest frontmatter raw s).1.disk
      rw [hdisk]
      exact fun _ _ _ h => h
  | writeInstall index w => exact kept_write h hop
  | commitInstall index =>
    refine ⟨kept_commit h, ?_⟩
    rintro ⟨e, he⟩
    obtain ⟨p, hp, hhas, hregistry, hdisk⟩ := failsClean_commit he
    refine ⟨⟨hregistry, ?_⟩, fun q hq => hop q hq ?_⟩
    · show FilesKept s.disk (commitRequest index s).1.disk
      rw [hdisk]
      exact fun _ _ _ h => h
    · obtain rfl := Option.some.inj (hp.symm.trans hq)
      exact hhas
  | removeSkill name w => exact ⟨kept_remove h hop, trivial⟩

end Runs

section Concurrent

private def notesManifest : SkillManifest := ⟨"notes", "0.0.0", "", ⟨[], [], [], 2000⟩, none⟩

private def notesFrontmatter (yaml : String) : Except String SkillManifest :=
  if yaml = "name: notes\n" then .ok notesManifest else .error "unexpected frontmatter"

private def notes (prompt : String) : List Char := ("---\nname: notes\n---\n\n" ++ prompt).toList

private def notesDirs : SkillDirs := ⟨"/home/user/.gyre/skills", none⟩

private def calmWorld : DiskWorld where
  listing _ := []
  createDirError := none
  write := .written
  readError _ := none
  utf8Error _ := ""
  removeError := none
  leavesEmpty _ := true
  binaryExists _ := true
  varSet _ := true
  configExists _ := true

private def notesDir : String := "/home/user/.gyre/skills/notes"

/-- The text of a file, if there is one. -/
private def fileText : Option Node → Option String
  | some (.file bytes _) => String.fromUTF8? bytes
  | _ => none

private def isLink : Option Node → Bool
  | some (.symlink _) => true
  | _ => false

private def notesStep : Requests → RequestOp → Requests × List SkillsReply :=
  requestStep notesFrontmatter notesDirs

private def emptyDisk : Disk := fun _ => none

private def oneInstall : List RequestOp :=
  [.checkInstall (notes "Take notes."), .writeInstall 0 calmWorld, .commitInstall 0]

private def twoInstalls : List RequestOp :=
  [.checkInstall (notes "Take notes."), .checkInstall (notes "Forget them."), .writeInstall 0 calmWorld,
    .commitInstall 0, .writeInstall 0 calmWorld]

end Concurrent

end Gyre.Skills
