/- digest: Exactly when a skill that was installed comes back as a trusted one. -/

import Gyre.Lib.Runs
import Gyre.Skills.Registry

/-!
Trust is not kept with a skill's file. Every discovery gives the files it loads full trust, those
that an install wrote into the user's directory as well.
-/

set_option autoImplicit false
set_option relaxedAutoImplicit false

namespace Gyre.Skills

open Gyre.Lib

/-- What an install wrote is never trusted. -/
def NoEscalation (registry : List Registered) : Prop :=
  ∀ r ∈ registry, r.writer = .install → r.skill.trust = .installed

instance (registry : List Registered) : Decidable (NoEscalation registry) :=
  inferInstanceAs (Decidable (∀ r ∈ registry, _))

section Load

variable {frontmatter : String → Except String SkillManifest} {w : DiskWorld}

private theorem loadBytes_trust {path : String} {bytes : ByteArray} {trust : SkillTrust}
    {source : SkillSource} {skill : LoadedSkill}
    (h : loadBytes frontmatter w path bytes trust source = .ok skill) : skill.trust = trust := by
  unfold loadBytes at h
  split at h
  · cases h
  · split at h
    · cases h
    · split at h
      · cases h
      · cases h
      · dsimp only at h
        split at h
        · cases h
        · split at h
          · cases h
          · cases h
            rfl

private theorem loadAndValidateSkill_trust {disk : Disk} {path real : String} {trust : SkillTrust}
    {source : SkillSource} {r : Registered}
    (h : loadAndValidateSkill frontmatter w disk path real trust source = .ok r) :
    r.skill.trust = trust := by
  unfold loadAndValidateSkill at h
  split at h
  · cases h
  · cases h
  · cases h
  · split at h
    · cases h
    next bytes writer _ _ _ =>
      cases hload : loadBytes frontmatter w path bytes trust source with
      | error e =>
        rw [hload] at h
        cases h
      | ok skill =>
        rw [hload] at h
        cases h
        exact loadBytes_trust hload

end Load

section Discovery

variable (frontmatter : String → Except String SkillManifest) (dirs : SkillDirs)

private theorem mem_firstNamed (rs : List Registered) (r : Registered) :
    ∀ seen, r ∈ firstNamed seen rs ↔
      r.name ∉ seen ∧ ∃ before after, rs = before ++ r :: after ∧ ∀ b ∈ before, b.name ≠ r.name := by
  induction rs with
  | nil => simp [firstNamed]
  | cons first rest ih =>
    intro seen
    have hlater (P : Prop) (hfirst : P → first.name ≠ r.name) :
        (P ∧ ∃ before after, rest = before ++ r :: after ∧ ∀ b ∈ before, b.name ≠ r.name) →
          ∃ before after, first :: rest = before ++ r :: after ∧
            ∀ b ∈ before, b.name ≠ r.name := by
      rintro ⟨hp, before, after, hsplit, hbefore⟩
      refine ⟨first :: before, after, by rw [hsplit, List.cons_append], ?_⟩
      exact List.forall_mem_cons.mpr ⟨hfirst hp, hbefore⟩
    unfold firstNamed
    split
    next hseen =>
      rw [ih]
      constructor
      · rintro ⟨hnew, hrest⟩
        refine ⟨hnew, hlater (r.name ∉ seen) ?_ ⟨hnew, hrest⟩⟩
        intro hnew hsame
        exact hnew (hsame ▸ hseen)
      · rintro ⟨hnew, before, after, hsplit, hbefore⟩
        refine ⟨hnew, ?_⟩
        cases before with
        | nil =>
          cases hsplit
          exact absurd hseen hnew
        | cons b before =>
          cases hsplit
          exact ⟨before, after, rfl, fun b' hb => hbefore b' (List.mem_cons_of_mem _ hb)⟩
    next hfirst =>
      rw [List.mem_cons, ih]
      constructor
      · rintro (rfl | ⟨hnew, hrest⟩)
        · exact ⟨hfirst, [], rest, rfl, by simp⟩
        · rw [List.mem_cons, not_or] at hnew
          exact ⟨hnew.2, hlater (r.name ≠ first.name) (fun h => h.symm) ⟨hnew.1, hrest⟩⟩
      · rintro ⟨hnew, before, after, hsplit, hbefore⟩
        cases before with
        | nil =>
          cases hsplit
          exact Or.inl rfl
        | cons b before =>
          cases hsplit
          refine Or.inr ⟨?_, before, after, rfl,
            fun b' hb => hbefore b' (List.mem_cons_of_mem _ hb)⟩
          rw [List.mem_cons, not_or]
          exact ⟨fun h => hbefore first List.mem_cons_self h.symm, hnew⟩

private theorem loadable_trust {w : DiskWorld} {disk : Disk} {r : Registered}
    (h : r ∈ loadable frontmatter dirs w disk) : r.skill.trust = .trusted := by
  obtain ⟨c, -, hload⟩ := List.mem_filterMap.mp h
  cases hc : loadCandidate frontmatter w disk c with
  | error e =>
    rw [hc] at hload
    cases hload
  | ok loaded =>
    rw [hc] at hload
    cases hload
    exact loadAndValidateSkill_trust hc

/-- Of the files a discovery finds, the first one of every name that loads was written by hand. -/
def TrustsByHand (w : DiskWorld) (disk : Disk) : Prop :=
  ∀ before r after, loadable frontmatter dirs w disk = before ++ r :: after →
    (∀ b ∈ before, b.name ≠ r.name) → r.writer = .hand

private theorem noEscalation_append {a b : List Registered} :
    NoEscalation (a ++ b) ↔ NoEscalation a ∧ NoEscalation b :=
  List.forall_mem_append

private theorem noEscalation_discovered (w : DiskWorld) (disk : Disk) :
    NoEscalation (discovered frontmatter dirs w disk) ↔ TrustsByHand frontmatter dirs w disk := by
  constructor
  · intro h before r after hsplit hfirst
    have hmem : r ∈ loadable frontmatter dirs w disk := by simp [hsplit]
    have hadded : r ∈ discovered frontmatter dirs w disk :=
      (mem_firstNamed _ r []).mpr ⟨List.not_mem_nil, before, after, hsplit, hfirst⟩
    cases hwriter : r.writer with
    | hand => rfl
    | install =>
      have hinstalled := h r hadded hwriter
      rw [loadable_trust frontmatter dirs hmem] at hinstalled
      cases hinstalled
  · intro h r hr hwriter
    obtain ⟨-, before, after, hsplit, hfirst⟩ := (mem_firstNamed _ r []).mp hr
    have hhand := h before r after hsplit hfirst
    rw [hwriter] at hhand
    cases hhand

/-- A discovery trusts files written by hand only. -/
def DiscoversByHand (s : SkillsState) : SkillsOp → Prop
  | .discoverAll w | .reload w | .restart w => TrustsByHand frontmatter dirs w s.disk
  | _ => True

/-- Installs that have not been committed are installs. -/
private def PreparedInstalled (s : SkillsState) : Prop :=
  ∀ r ∈ s.prepared, r.skill.trust = .installed

private theorem prepareInstallToDisk_trust {w : DiskWorld} {disk : Disk} {skillName : String}
    {content : List Char} {r : Registered}
    (h : (prepareInstallToDisk frontmatter dirs w disk skillName content).2 = .ok r) :
    r.skill.trust = .installed := by
  unfold prepareInstallToDisk at h
  split at h
  · cases h
  · dsimp only at h
    split at h
    · cases h
    · cases h
    · cases h
    · exact loadAndValidateSkill_trust h

private theorem commitInstall_keeps {registry committed : List Registered} {r : Registered}
    (hr : r.skill.trust = .installed) (h : commitInstall registry r = .ok committed) :
    NoEscalation committed ↔ NoEscalation registry := by
  unfold commitInstall at h
  split at h
  · cases h
  · cases h
    rw [noEscalation_append]
    refine and_iff_left ?_
    intro r' hr' _
    rw [List.mem_singleton.mp hr']
    exact hr

private theorem NoEscalation.commitRemove {registry remaining : List Registered} {name : String}
    (h : NoEscalation registry) (hremove : commitRemove registry name = .ok remaining) :
    NoEscalation remaining := by
  unfold Skills.commitRemove at hremove
  split at hremove
  · cases hremove
    exact fun r hr => h r (List.mem_of_mem_eraseP hr)
  · cases hremove

private theorem finishRemove_keeps (name : String) {s : SkillsState}
    (h : NoEscalation s.registry) : NoEscalation (finishRemove name s).1.registry := by
  unfold finishRemove
  cases hremove : commitRemove s.registry name with
  | error e => exact h
  | ok registry => exact h.commitRemove hremove

private theorem finishRemove_prepared (name : String) (s : SkillsState) :
    (finishRemove name s).1.prepared = s.prepared := by
  unfold finishRemove
  split <;> rfl

private theorem skillsStep_prepared {s : SkillsState} (op : SkillsOp) (h : PreparedInstalled s) :
    PreparedInstalled (skillsStep frontmatter dirs s op).1 := by
  cases op with
  | discoverAll w | reload w => exact h
  | restart w => exact fun r hr => nomatch hr
  | installSkill content w =>
    simp only [skillsStep, installSkill]
    repeat' split
    all_goals exact h
  | prepareInstall content w =>
    simp only [skillsStep, prepareInstall]
    split
    · exact h
    next name _ =>
      split
      · exact h
      next disk r hprepare =>
        intro r' hr'
        rcases List.mem_append.mp hr' with hr' | hr'
        · exact h r' hr'
        · rw [List.mem_singleton.mp hr']
          exact prepareInstallToDisk_trust frontmatter dirs (congrArg Prod.snd hprepare)
  | commitPrepared index =>
    simp only [skillsStep, commitPrepared]
    split
    · exact h
    · split
      · exact fun r hr => h r (List.mem_of_mem_eraseIdx hr)
      · exact fun r hr => h r (List.mem_of_mem_eraseIdx hr)
  | removeSkill name w =>
    simp only [skillsStep, removeSkill]
    split
    · exact h
    · split
      · exact h
      · unfold PreparedInstalled
        rw [finishRemove_prepared]
        exact h
  | deleteFiles name w =>
    simp only [skillsStep, deleteFiles]
    repeat' split
    all_goals exact h
  | finishRemove name =>
    unfold PreparedInstalled skillsStep
    rw [finishRemove_prepared]
    exact h
  | editByHand path edit => exact h

/-- Only a discovery can make an installed skill trusted, and only by loading its file. -/
private theorem skillsStep_keeps_iff {s : SkillsState} (op : SkillsOp)
    (hregistry : NoEscalation s.registry) (hprepared : PreparedInstalled s) :
    NoEscalation (skillsStep frontmatter dirs s op).1.registry ↔
      DiscoversByHand frontmatter dirs s op := by
  cases op with
  | discoverAll w =>
    refine noEscalation_append.trans ?_
    rw [noEscalation_discovered]
    exact and_iff_right hregistry
  | reload w => exact noEscalation_discovered frontmatter dirs w s.disk
  | restart w => exact noEscalation_discovered frontmatter dirs w s.disk
  | installSkill content w =>
    refine iff_of_true ?_ trivial
    simp only [skillsStep, installSkill]
    split
    · exact hregistry
    · split
      · exact hregistry
      next disk r hprepare =>
        split
        · exact hregistry
        next registry hcommit =>
          have hr := prepareInstallToDisk_trust frontmatter dirs (congrArg Prod.snd hprepare)
          exact (commitInstall_keeps hr hcommit).mpr hregistry
  | prepareInstall content w =>
    refine iff_of_true ?_ trivial
    simp only [skillsStep, prepareInstall]
    repeat' split
    all_goals exact hregistry
  | commitPrepared index =>
    refine iff_of_true ?_ trivial
    simp only [skillsStep, commitPrepared]
    split
    · exact hregistry
    next r hfound =>
      split
      · exact hregistry
      next registry hcommit =>
        have hr := hprepared r (List.mem_of_getElem? hfound)
        exact (commitInstall_keeps hr hcommit).mpr hregistry
  | removeSkill name w =>
    refine iff_of_true ?_ trivial
    simp only [skillsStep, removeSkill]
    split
    · exact hregistry
    · split
      · exact hregistry
      · exact finishRemove_keeps name hregistry
  | deleteFiles name w =>
    refine iff_of_true ?_ trivial
    simp only [skillsStep, deleteFiles]
    repeat' split
    all_goals exact hregistry
  | finishRemove name => exact iff_of_true (finishRemove_keeps name hregistry) trivial
  | editByHand path edit => exact iff_of_true hregistry trivial

end Discovery

private def Unescalated (s : SkillsState) : Prop :=
  NoEscalation s.registry ∧ PreparedInstalled s

/-- A program with nothing loaded yet, over any disk. -/
def skillsStart (disk : Disk) : SkillsState := ⟨[], disk, []⟩

/-- In a run over any disk, what an install wrote never becomes trusted exactly when every discovery
of the run trusts files written by hand only. -/
theorem skills_not_escalated_iff (frontmatter : String → Except String SkillManifest)
    (dirs : SkillDirs) (disk : Disk) (ops : List SkillsOp) :
    (∀ v ∈ visited (skillsStep frontmatter dirs) (skillsStart disk) ops,
        NoEscalation (skillsStep frontmatter dirs v.1 v.2).1.registry) ↔
      ∀ v ∈ visited (skillsStep frontmatter dirs) (skillsStart disk) ops,
        DiscoversByHand frontmatter dirs v.1 v.2 := by
  have hnone : PreparedInstalled (skillsStart disk) := List.forall_mem_nil _
  have hstart : Unescalated (skillsStart disk) := ⟨List.forall_mem_nil _, hnone⟩
  have hprepared := visited_invariant PreparedInstalled hnone
    (fun _ op h => skillsStep_prepared frontmatter dirs op h) ops
  have hstep (s : SkillsState) (op : SkillsOp) (h : Unescalated s) :
      Unescalated (skillsStep frontmatter dirs s op).1 ↔ DiscoversByHand frontmatter dirs s op := by
    rw [← skillsStep_keeps_iff frontmatter dirs op h.1 h.2]
    exact and_iff_left (skillsStep_prepared frontmatter dirs op h.2)
  rw [← visited_keeps_iff hstart (fun _ _ h => h) hstep ops]
  constructor
  · intro h v hv
    exact ⟨h v hv, skillsStep_prepared frontmatter dirs v.2 (hprepared v hv)⟩
  · intro h v hv
    exact (h v hv).1

section Restart

private def demoManifest : SkillManifest :=
  ⟨"demo", "0.0.0", "", ⟨[], [], [], 2000⟩, none⟩

private def demoContent : List Char := "---\nname: demo\n---\n\nRun every command.\n".toList

private def demoFrontmatter (yaml : String) : Except String SkillManifest :=
  if yaml = "name: demo\n" then .ok demoManifest else .error "unexpected frontmatter"

private def demoDirs : SkillDirs := ⟨"/home/user/.gyre/skills", none⟩

private def quietWorld : DiskWorld where
  listing dir := if dir = demoDirs.userDir then ["demo"] else []
  createDirError := none
  write := .written
  readError _ := none
  utf8Error _ := ""
  removeError := none
  leavesEmpty _ := true
  binaryExists _ := true
  varSet _ := true
  configExists _ := true

/-- A skill is installed, and after a reload it is trusted. -/
theorem installed_skill_trusted_after_reload :
    ¬ NoEscalation (run (skillsStep demoFrontmatter demoDirs) (skillsStart fun _ => none)
      [.installSkill demoContent quietWorld, .reload quietWorld]).1.registry := by
  decide +kernel

end Restart

end Gyre.Skills
