/- digest: The extraction loop does what the archive asks for, inside the staging directory only. -/

import Gyre.Template.Archive

set_option autoImplicit false
set_option relaxedAutoImplicit false

namespace Gyre.Template

open Gyre.Lib.FileTree

/-- The tree inside a directory. -/
def below (t : Tree) (p : Path) : Tree := fun rel => t (p ++ rel)

/-- The staging directory is there, without links in it, and nothing beside it has changed. -/
structure Staged (t₀ t : Tree) (staging : Path) : Prop where
  outside : ∀ q, ¬ staging <+: q → t q = t₀ q
  dirs : AllDirs t staging
  noLinks : NoLinks (below t staging)

/-- A call that makes a directory or writes a file in the staging directory. -/
def Inside (staging : Path) : Touch → Prop
  | .madeDir q => staging <+: q
  | .wrote q _ => staging <+: q ∧ q ≠ staging
  | _ => False

/-- No file gets more than 50 MB. -/
def SmallFiles (log : List Touch) : Prop := ∀ q n, .wrote q n ∈ log → n ≤ maxFileBytes

section Directories

variable {t₀ t : Tree} {staging inside : Path}

/-- A way down to something inside ends above the directory, or at something inside. -/
theorem prefix_inside {q : Path} (h : q <+: staging ++ inside) :
    q <+: staging ∨ ∃ rel, q = staging ++ rel ∧ rel <+: inside := by
  by_cases hq : q <+: staging
  · exact .inl hq
  · obtain ⟨rel, rfl⟩ := (List.prefix_or_prefix_of_prefix h (List.prefix_append _ _)).resolve_left hq
    exact .inr ⟨rel, rfl, (List.prefix_append_right_inj staging).mp h⟩

/-- What making a directory inside the staging directory comes to. -/
structure MakesInside (t₀ t : Tree) (staging inside : Path) (fails : Bool) (r : Done) : Prop where
  staged : Staged t₀ r.tree staging
  logged : ∀ touch ∈ r.log, ∃ q, staging <+: q ∧ touch = .madeDir q
  dirs : r.ok = true → AllDirs r.tree (staging ++ inside)
  placed : r.ok = true → below r.tree staging = (Placement.dir inside).put (below t staging)
  ok_iff : r.ok = true ↔ (Placement.dir inside).Fits (below t staging) ∧ fails = false

theorem staged_createDirAll (hne : staging ≠ []) (h : Staged t₀ t staging)
    (hplain : parentDir ∉ staging ++ inside) :
    MakesInside t₀ t staging inside false (createDirAll t (staging ++ inside)) := by
  have hmakes := createDirAll_makes t hplain
  have hnew : ∀ q, q <+: staging ++ inside → q ≠ [] → t q = none → staging <+: q := by
    intro q hq hq' hnone
    rcases prefix_inside hq with hq | ⟨rel, rfl, -⟩
    · rw [h.dirs q hq hq'] at hnone
      cases hnone
    · exact List.prefix_append _ _
  have hnoLink : ∀ q target, q <+: staging ++ inside → q ≠ [] → t q ≠ some (.link target) := by
    intro q target hq hq' hlink
    rcases prefix_inside hq with hq | ⟨rel, rfl, -⟩
    · rw [h.dirs q hq hq'] at hlink
      cases hlink
    · exact h.noLinks rel target hlink
  have hend : staging ++ inside ≠ [] := List.append_ne_nil_of_left_ne_nil hne _
  have hdirs : (createDirAll t (staging ++ inside)).ok = true →
      AllDirs (createDirAll t (staging ++ inside)).tree (staging ++ inside) :=
    fun hok => hmakes.allDirs hok fun target => hnoLink _ target (List.prefix_refl _) hend
  constructor
  · constructor
    · intro q hq
      rcases hmakes.kept q with hsame | ⟨hnone, -, hprefix, hq'⟩
      · rw [hsame]
        exact h.outside q hq
      · exact absurd (hnew q hprefix hq' hnone) hq
    · intro q hq hq'
      rcases hmakes.kept q with hsame | ⟨-, hdir, -, -⟩
      · rw [hsame]
        exact h.dirs q hq hq'
      · exact hdir
    · intro rel target hlink
      rcases hmakes.kept (staging ++ rel) with hsame | ⟨-, hdir, -, -⟩
      · rw [below, hsame] at hlink
        exact h.noLinks rel target hlink
      · rw [below, hdir] at hlink
        cases hlink
  · intro touch htouch
    rcases hmakes.logged touch htouch with ⟨q, hq, hq', hnone, rfl⟩ | ⟨q, target, hq, -, hq', hlink, -⟩
    · exact ⟨q, hnew q hq hq' hnone, rfl⟩
    · exact absurd hlink (hnoLink q target hq hq')
  · exact hdirs
  · intro hok
    funext rel
    dsimp only [below, Placement.put]
    by_cases hrel : rel <+: inside
    · rw [if_pos hrel]
      exact hdirs hok _ ((List.prefix_append_right_inj staging).mpr hrel)
        (List.append_ne_nil_of_left_ne_nil hne _)
    · rw [if_neg hrel]
      refine (hmakes.kept (staging ++ rel)).resolve_right fun ⟨_, _, hprefix, _⟩ => hrel ?_
      exact (List.prefix_append_right_inj staging).mp hprefix
  · constructor
    · refine fun hok => ⟨fun rel data hrel hfile => ?_, rfl⟩
      have hmade := hdirs hok _ ((List.prefix_append_right_inj staging).mpr hrel)
        (List.append_ne_nil_of_left_ne_nil hne _)
      rcases hmakes.kept (staging ++ rel) with hsame | ⟨hnone, -, -, -⟩
      · rw [hsame] at hmade
        rw [below, hmade] at hfile
        cases hfile
      · rw [below, hnone] at hfile
        cases hfile
    · rintro ⟨hfits, -⟩
      refine createDirAll_ok t hplain fun q hq hq' => ?_
      rcases prefix_inside hq with hq | ⟨rel, rfl, hrel⟩
      · exact .inr (h.dirs q hq hq')
      · cases hnode : t (staging ++ rel) with
        | none => exact .inl rfl
        | some node =>
          cases node with
          | dir => exact .inr rfl
          | file data => exact absurd hnode (hfits rel data hrel)
          | link target => exact absurd hnode (h.noLinks rel target)

theorem staged_makeDirs (hne : staging ≠ []) (h : Staged t₀ t staging)
    (hplain : parentDir ∉ staging ++ inside) (fails : Bool) :
    MakesInside t₀ t staging inside fails (makeDirs t fails (staging ++ inside)) := by
  cases fails with
  | false => exact staged_createDirAll hne h hplain
  | true => exact ⟨h, List.forall_mem_nil _, nofun, nofun, nofun, fun hfits => nomatch hfits.2⟩

end Directories

section Logs

theorem smallFiles_append {first second : List Touch} :
    SmallFiles (first ++ second) ↔ SmallFiles first ∧ SmallFiles second := by
  constructor
  · intro h
    exact ⟨fun q n hq => h q n (List.mem_append_left _ hq),
      fun q n hq => h q n (List.mem_append_right _ hq)⟩
  · rintro ⟨hfirst, hsecond⟩ q n hq
    rcases List.mem_append.mp hq with hq | hq
    · exact hfirst q n hq
    · exact hsecond q n hq

theorem smallFiles_nil : SmallFiles [] := fun _ _ h => absurd h List.not_mem_nil

theorem smallFiles_dirs {log : List Touch} {staging : Path}
    (h : ∀ touch ∈ log, ∃ q, staging <+: q ∧ touch = .madeDir q) : SmallFiles log := by
  intro q n hq
  obtain ⟨_, -, hdir⟩ := h _ hq
  cases hdir

theorem smallFiles_singleton {p : Path} {bytes : Nat} :
    SmallFiles [.wrote p bytes] ↔ bytes ≤ maxFileBytes := by
  constructor
  · exact fun h => h p bytes (List.mem_singleton_self _)
  · intro h q n hq
    cases List.mem_singleton.mp hq
    exact h

theorem inside_dirs {log : List Touch} {staging : Path}
    (h : ∀ touch ∈ log, ∃ q, staging <+: q ∧ touch = .madeDir q) :
    ∀ touch ∈ log, Inside staging touch := by
  intro touch htouch
  obtain ⟨q, hq, rfl⟩ := h touch htouch
  exact hq

end Logs

section Files

variable {t₀ t u : Tree} {staging before : Path} {last : List Char} {data : List UInt8}

theorem Staged.write (h : Staged t₀ u staging) (data : List UInt8) {rel : Path} (hrel : rel ≠ []) :
    Staged t₀ (Function.update u (staging ++ rel) (some (.file data))) staging := by
  constructor
  · intro q hq
    have hne : q ≠ staging ++ rel := fun heq => hq (heq ▸ List.prefix_append _ _)
    rw [Function.update_of_ne hne]
    exact h.outside q hq
  · intro q hq hq'
    have hne : q ≠ staging ++ rel := by
      rintro rfl
      exact hrel (List.append_right_eq_self.mp (hq.eq_of_length_le (by simp)))
    rw [Function.update_of_ne hne]
    exact h.dirs q hq hq'
  · intro q target hlink
    by_cases hq : q = rel
    · subst hq
      rw [below, Function.update_self] at hlink
      cases hlink
    · have hne : staging ++ q ≠ staging ++ rel := fun heq => hq (List.append_cancel_left heq)
      rw [below, Function.update_of_ne hne] at hlink
      exact h.noLinks q target hlink

theorem below_write (t : Tree) (staging rel : Path) (node : Option Node) :
    below (Function.update t (staging ++ rel) node) staging =
      Function.update (below t staging) rel node := by
  funext q
  by_cases hq : q = rel
  · subst hq
    rw [below, Function.update_self, Function.update_self]
  · have hne : staging ++ q ≠ staging ++ rel := fun heq => hq (List.append_cancel_left heq)
    rw [below, Function.update_of_ne hne, Function.update_of_ne hq, below]

theorem put_file (l : Tree) (before : Path) (last : List Char) (data : List UInt8) :
    (Placement.file (before ++ [last]) data).put l =
      Function.update ((Placement.dir before).put l) (before ++ [last]) (some (.file data)) := by
  funext q
  dsimp only [Placement.put]
  by_cases hq : q = before ++ [last]
  · subst hq
    rw [if_pos rfl, Function.update_self]
  · rw [if_neg hq, Function.update_of_ne hq]
    by_cases hbefore : q <+: before
    · rw [if_pos hbefore, if_pos (hbefore.trans (List.prefix_append _ _))]
    · have hlonger : ¬ q <+: before ++ [last] :=
        fun hprefix => hbefore ((prefix_snoc hprefix).resolve_right hq)
      rw [if_neg hbefore, if_neg hlonger]

theorem fits_file {l : Tree} : (Placement.file (before ++ [last]) data).Fits l ↔
    (Placement.dir before).Fits l ∧ l (before ++ [last]) ≠ some .dir := by
  constructor
  · rintro ⟨habove, hend⟩
    exact ⟨fun q old hq =>
      habove q old (hq.trans (List.prefix_append _ _)) (prefix_ne_snoc hq), hend⟩
  · rintro ⟨habove, hend⟩
    exact ⟨fun q old hq hne => habove q old ((prefix_snoc hq).resolve_right hne), hend⟩

/-- In the staging directory, a file is refused only where a directory stands or by a failure. -/
theorem staged_writeFile (h : Staged t₀ u staging) (hdirs : AllDirs u (staging ++ before))
    (hplain : parentDir ∉ staging ++ before) (hlast : last ≠ parentDir) (fault : Option WriteFault) :
    writeFile u (staging ++ before) last data fault =
      if below u staging (before ++ [last]) = some .dir ∨ fault = some .refused then ⟨u, [], false⟩
      else
        ⟨Function.update u (staging ++ (before ++ [last])) (some (.file (copied data fault))),
          [.wrote (staging ++ (before ++ [last])) (copied data fault).length], fault.isNone⟩ := by
  have hlinks := h.noLinks (before ++ [last])
  rw [writeFile, creatable_of_dirs hplain hlast hdirs, List.append_assoc]
  unfold below at hlinks ⊢
  cases hnode : u (staging ++ (before ++ [last])) with
  | none => simp
  | some node =>
    cases node with
    | dir => simp
    | file old => simp
    | link target => exact absurd hnode (hlinks target)

end Files

section Entries

variable {t₀ t : Tree} {staging : Path} {fault : EntryFault} {item : Except String TarEntry}

/-- What one pass of the loop comes to, against what its entry asks for. -/
structure Refines (t₀ t : Tree) (staging : Path) (fault : EntryFault) (item : Except String TarEntry)
    (d : EntryDone) : Prop where
  staged : Staged t₀ d.tree staging
  inside : ∀ touch ∈ d.log, Inside staging touch
  placed : Sound (below t staging) fault item →
    (∃ written, d.result = .ok written) ∧ below d.tree staging = (placement item).put (below t staging)
  failed : ¬ Sound (below t staging) fault item → ∃ err, d.result = .error err
  small : SmallFiles d.log ↔ ∀ data, Opened (below t staging) fault item data →
    (copied data fault.write).length ≤ maxFileBytes

/-- An entry that never becomes a file fails, with directories made at most. -/
theorem refines_failed {d : EntryDone} (hunsound : ¬ Sound (below t staging) fault item)
    (hunopened : ∀ data, ¬ Opened (below t staging) fault item data)
    (hstaged : Staged t₀ d.tree staging)
    (hlog : ∀ touch ∈ d.log, ∃ q, staging <+: q ∧ touch = .madeDir q)
    (herr : ∃ err, d.result = .error err) : Refines t₀ t staging fault item d where
  staged := hstaged
  inside := inside_dirs hlog
  placed := fun h => absurd h hunsound
  failed := fun _ => herr
  small := iff_of_true (smallFiles_dirs hlog) fun data h => absurd h (hunopened data)

theorem refines_bad {d : EntryDone} (hbad : placement item = .bad) (hstaged : Staged t₀ d.tree staging)
    (hlog : ∀ touch ∈ d.log, ∃ q, staging <+: q ∧ touch = .madeDir q)
    (herr : ∃ err, d.result = .error err) : Refines t₀ t staging fault item d := by
  refine refines_failed ?_ ?_ hstaged hlog herr
  · rintro ⟨hfits, -⟩
    rw [hbad] at hfits
    exact hfits
  · rintro data ⟨p, hfile, -⟩
    rw [hbad] at hfile
    cases hfile

/-- The directories above a file, which may be the staging directory alone. -/
theorem staged_parents (hne : staging ≠ []) (h : Staged t₀ t staging) {inside : Path}
    (hplain : parentDir ∉ staging ++ inside) (fails : Bool) :
    let r := makeDirs t fails (staging ++ inside).dropLast
    Staged t₀ r.tree staging ∧ ∀ touch ∈ r.log, ∃ q, staging <+: q ∧ touch = .madeDir q := by
  by_cases hinside : inside = []
  · subst hinside
    rw [List.append_nil] at hplain ⊢
    have habove : staging.dropLast <+: staging := List.dropLast_prefix staging
    have hmade : makeDirs t false staging.dropLast = ⟨t, [], true⟩ :=
      createDirAll_of_dirs (fun hdots => hplain (habove.subset hdots))
        fun q hq => h.dirs q (hq.trans habove)
    cases fails with
    | false =>
      rw [hmade]
      exact ⟨h, List.forall_mem_nil _⟩
    | true => exact ⟨h, List.forall_mem_nil _⟩
  · rw [List.dropLast_append_of_ne_nil hinside]
    have hshorter : parentDir ∉ staging ++ inside.dropLast := by
      intro hdots
      rcases List.mem_append.mp hdots with hdots | hdots
      · exact hplain (List.mem_append_left _ hdots)
      · exact hplain (List.mem_append_right _ ((List.dropLast_prefix inside).subset hdots))
    have hmakes := staged_makeDirs hne h hshorter fails
    exact ⟨hmakes.staged, hmakes.logged⟩

theorem components_ne_nil {path : List Char} (h : namesDirectory path = false) :
    components path ≠ [] := by
  intro hnil
  unfold namesDirectory at h
  split at h
  · rename_i last hlast
    have hmem : last ∈ components path := by
      refine List.mem_filter.mpr ⟨List.mem_of_getLast? hlast, ?_⟩
      rw [Bool.or_eq_false_iff] at h
      rw [h.1, bne, h.2]
      rfl
    rw [hnil] at hmem
    cases hmem
  · cases h

/-- The file of an entry that is wanted, after the directories above it. -/
theorem refines_opened (hne : staging ≠ []) (h : Staged t₀ t staging) {before : Path}
    {last : List Char} {data : List UInt8} (hplain : parentDir ∉ staging ++ (before ++ [last]))
    (hplace : placement item = .file (before ++ [last]) data) :
    let parents := makeDirs t fault.dirs (staging ++ before)
    let written := writeFile parents.tree (staging ++ before) last data fault.write
    Refines t₀ t staging fault item
      (if !parents.ok then ⟨parents.tree, parents.log, .error .directory⟩
      else ⟨written.tree, parents.log ++ written.log,
        if written.ok then .ok (some data.length) else .error .write⟩) := by
  rw [← List.append_assoc] at hplain
  have habove : parentDir ∉ staging ++ before := fun hdots => hplain (List.mem_append_left _ hdots)
  have hlast : last ≠ parentDir := fun hlast =>
    hplain (hlast ▸ List.mem_append_right _ (List.mem_singleton_self _))
  have hmakes := staged_makeDirs hne h habove fault.dirs
  have hsound : Sound (below t staging) fault item ↔ ((Placement.dir before).Fits (below t staging) ∧
      below t staging (before ++ [last]) ≠ some .dir) ∧ fault.dirs = false ∧ fault.write = none := by
    rw [Sound, hplace, fits_file]
    rfl
  have hopened : ∀ new, Opened (below t staging) fault item new ↔ data = new ∧
      ((Placement.dir before).Fits (below t staging) ∧ below t staging (before ++ [last]) ≠ some .dir) ∧
      fault.dirs = false ∧ fault.write ≠ some .refused := by
    intro new
    rw [Opened, hplace, fits_file]
    constructor
    · rintro ⟨p, hfile, hrest⟩
      cases hfile
      exact ⟨rfl, hrest⟩
    · rintro ⟨rfl, hrest⟩
      exact ⟨_, rfl, hrest⟩
  dsimp only
  by_cases hok : (makeDirs t fault.dirs (staging ++ before)).ok = true
  · obtain ⟨hfits, hspared⟩ := hmakes.ok_iff.mp hok
    have hplaced := hmakes.placed hok
    have hend : below (makeDirs t fault.dirs (staging ++ before)).tree staging (before ++ [last]) =
        below t staging (before ++ [last]) := by
      rw [hplaced]
      exact if_neg fun hprefix => prefix_ne_snoc hprefix rfl
    rw [hok, Bool.not_true, if_neg Bool.false_ne_true,
      staged_writeFile hmakes.staged (hmakes.dirs hok) habove hlast fault.write, hend]
    by_cases hrefused : below t staging (before ++ [last]) = some .dir ∨ fault.write = some .refused
    · rw [if_pos hrefused]
      refine refines_failed ?_ ?_ hmakes.staged ?_ ⟨_, rfl⟩
      · rw [hsound]
        rintro ⟨⟨-, hdir⟩, -, hwrite⟩
        rcases hrefused with hthere | hfault
        · exact hdir hthere
        · rw [hwrite] at hfault
          cases hfault
      · intro new
        rw [hopened]
        rintro ⟨-, ⟨-, hdir⟩, -, hwrite⟩
        exact hrefused.elim hdir hwrite
      · rw [List.append_nil]
        exact hmakes.logged
    · rw [if_neg hrefused]
      obtain ⟨hdir, hwrite⟩ := not_or.mp hrefused
      have hstaged := hmakes.staged.write (copied data fault.write)
        (List.append_ne_nil_of_right_ne_nil before (List.cons_ne_nil last []))
      refine ⟨hstaged, ?_, ?_, ?_, ?_⟩
      · intro touch htouch
        rcases List.mem_append.mp htouch with hearlier | hnow
        · exact inside_dirs hmakes.logged touch hearlier
        · rw [List.mem_singleton.mp hnow]
          refine ⟨List.prefix_append _ _, fun heq => ?_⟩
          have hnil := List.append_right_eq_self.mp heq
          exact List.append_ne_nil_of_right_ne_nil _ (List.cons_ne_nil _ _) hnil
      · rw [hsound]
        rintro ⟨-, -, hnone⟩
        refine ⟨⟨_, by rw [hnone]; rfl⟩, ?_⟩
        rw [below_write, hplaced, hplace, put_file, hnone]
        rfl
      · intro hunsound
        have hfault : fault.write ≠ none := fun hnone =>
          hunsound (hsound.mpr ⟨⟨hfits, hdir⟩, hspared, hnone⟩)
        obtain ⟨cut, hcut⟩ := Option.ne_none_iff_exists'.mp hfault
        exact ⟨_, by rw [hcut]; rfl⟩
      · rw [smallFiles_append, smallFiles_singleton]
        constructor
        · rintro ⟨-, hbound⟩ new hnew
          obtain ⟨rfl, -⟩ := (hopened new).mp hnew
          exact hbound
        · intro hbound
          exact ⟨smallFiles_dirs hmakes.logged,
            hbound data ((hopened data).mpr ⟨rfl, ⟨hfits, hdir⟩, hspared, hwrite⟩)⟩
  · have hblocked : ¬ ((Placement.dir before).Fits (below t staging) ∧ fault.dirs = false) :=
      fun h => hok (hmakes.ok_iff.mpr h)
    rw [Bool.not_eq_true] at hok
    rw [hok, Bool.not_false, if_pos rfl]
    refine refines_failed ?_ ?_ hmakes.staged hmakes.logged ⟨_, rfl⟩
    · rw [hsound]
      exact fun ⟨⟨hfits, _⟩, hspared, _⟩ => hblocked ⟨hfits, hspared⟩
    · intro new
      rw [hopened]
      exact fun ⟨_, ⟨hfits, _⟩, hspared, _⟩ => hblocked ⟨hfits, hspared⟩

/-- A regular entry with a safe path is written as it asks, or fails. -/
theorem refines_file (hne : staging ≠ []) (h : Staged t₀ t staging) {e : TarEntry} {path : List Char}
    (hplain : parentDir ∉ staging ++ components path)
    (hplace : placement (.ok e) =
      if maxFileBytes < e.headerSize.getD 0 ∨ namesDirectory path then .bad
      else .file (components path) e.data) :
    Refines t₀ t staging fault (.ok e) (extractFile t fault e path (staging ++ components path)) := by
  rw [extractFile]
  dsimp only
  by_cases hsize : maxFileBytes < e.headerSize.getD 0
  · rw [if_pos hsize]
    rw [if_pos (.inl hsize)] at hplace
    exact refines_bad hplace h (List.forall_mem_nil _) ⟨_, rfl⟩
  · rw [if_neg hsize]
    by_cases hname : namesDirectory path = true
    · rw [if_pos (.inr hname)] at hplace
      obtain ⟨hstaged, hlog⟩ := staged_parents hne h hplain fault.dirs
      rw [if_pos hname]
      split
      · exact refines_bad hplace hstaged hlog ⟨_, rfl⟩
      · exact refines_bad hplace hstaged hlog ⟨_, rfl⟩
    · rw [if_neg fun hbad => hbad.elim hsize hname] at hplace
      rw [Bool.not_eq_true] at hname
      have hnonempty := components_ne_nil hname
      obtain ⟨before, last, hcomponents⟩ :=
        (List.eq_nil_or_concat (components path)).resolve_left hnonempty
      rw [List.concat_eq_append] at hcomponents
      rw [hcomponents] at hplain hplace ⊢
      have hdrop : (staging ++ (before ++ [last])).dropLast = staging ++ before := by
        rw [← List.append_assoc, List.dropLast_concat]
      have hend : (staging ++ (before ++ [last])).getLastD [] = last := by
        rw [← List.append_assoc, List.getLastD_concat]
      rw [hname, hdrop, hend]
      exact refines_opened hne h hplain hplace

/-- An entry that is passed over succeeds and leaves everything as it is. -/
theorem refines_skipped (h : Staged t₀ t staging) (hplace : placement item = .skipped) :
    Refines t₀ t staging fault item ⟨t, [], .ok none⟩ where
  staged := h
  inside := List.forall_mem_nil _
  placed := fun _ => ⟨⟨_, rfl⟩, by rw [hplace]; rfl⟩
  failed := fun hunsound => absurd (by rw [Sound, hplace]; exact ⟨trivial, trivial⟩) hunsound
  small := by
    refine iff_of_true smallFiles_nil ?_
    rintro data ⟨p, hfile, -⟩
    rw [hplace] at hfile
    cases hfile

theorem refines_directory (hne : staging ≠ []) (h : Staged t₀ t staging) {inside : Path}
    (hplain : parentDir ∉ staging ++ inside) (hplace : placement item = .dir inside) :
    let made := makeDirs t fault.dirs (staging ++ inside)
    Refines t₀ t staging fault item
      ⟨made.tree, made.log, if made.ok then .ok none else .error .directory⟩ := by
  have hmakes := staged_makeDirs hne h hplain fault.dirs
  have hsound : Sound (below t staging) fault item ↔
      (makeDirs t fault.dirs (staging ++ inside)).ok = true := by
    rw [Sound, hplace, hmakes.ok_iff]
    rfl
  refine ⟨hmakes.staged, inside_dirs hmakes.logged, fun hok => ?_, fun hunsound => ?_, ?_⟩
  · rw [hsound] at hok
    exact ⟨⟨_, if_pos hok⟩, by rw [hplace]; exact hmakes.placed hok⟩
  · rw [hsound] at hunsound
    exact ⟨_, if_neg hunsound⟩
  · refine iff_of_true (smallFiles_dirs hmakes.logged) ?_
    rintro data ⟨p, hfile, -⟩
    rw [hplace] at hfile
    cases hfile

/-- One pass of the loop does what its entry asks for. -/
theorem refines_extractEntry (hne : staging ≠ []) (hplain : parentDir ∉ staging)
    (h : Staged t₀ t staging) (e : TarEntry) :
    Refines t₀ t staging fault (.ok e) (extractEntry t staging fault e) := by
  rw [extractEntry]
  cases hpath : e.path with
  | error reason =>
    have hbad : placement (.ok e) = .bad := by rw [placement, hpath]
    exact refines_bad hbad h (List.forall_mem_nil _) ⟨_, rfl⟩
  | ok path =>
    have hplace : placement (.ok e) =
        if path.head? = some '/' ∨ parentDir ∈ components path then .bad else e.wants path := by
      rw [placement, hpath]
    dsimp only
    rw [safeJoin]
    by_cases habsolute : path.head? = some '/'
    · rw [if_pos (.inl habsolute)] at hplace
      rw [if_pos habsolute]
      exact refines_bad hplace h (List.forall_mem_nil _) ⟨_, rfl⟩
    · rw [if_neg habsolute]
      by_cases hdots : parentDir ∈ components path
      · rw [if_pos (.inr hdots)] at hplace
        rw [if_pos hdots]
        exact refines_bad hplace h (List.forall_mem_nil _) ⟨_, rfl⟩
      · rw [if_neg fun hbad => hbad.elim habsolute hdots] at hplace
        rw [if_neg hdots]
        dsimp only
        have hinside : parentDir ∉ staging ++ components path :=
          fun hmem => (List.mem_append.mp hmem).elim hplain hdots
        rw [TarEntry.wants] at hplace
        cases htype : e.entryType with
        | directory =>
          rw [htype] at hplace
          exact refines_directory hne h hinside hplace
        | regular =>
          rw [htype] at hplace
          exact refines_file hne h hinside hplace
        | symlink =>
          rw [htype] at hplace
          exact refines_skipped h hplace
        | hardLink =>
          rw [htype] at hplace
          exact refines_skipped h hplace
        | other =>
          rw [htype] at hplace
          exact refines_skipped h hplace

end Entries

section Archives

variable {t₀ t : Tree} {staging : Path}

/-- What the whole loop comes to, against what the archive asks for. -/
structure Extracts (t₀ t : Tree) (staging : Path) (faults : Nat → EntryFault) (i : Nat)
    (items : List (Except String TarEntry)) (r : Extracted) : Prop where
  staged : Staged t₀ r.tree staging
  inside : ∀ touch ∈ r.log, Inside staging touch
  placed : Unpacks faults (below t staging) i items →
    (∃ stats, r.result = .ok stats) ∧ below r.tree staging = unpacked (below t staging) items
  failed : ¬ Unpacks faults (below t staging) i items → ∃ err, r.result = .error err
  small : SmallFiles r.log ↔ Bounded faults (below t staging) i items

theorem extracts_doExtract (faults : Nat → EntryFault) (hne : staging ≠ [])
    (hplain : parentDir ∉ staging) (h : Staged t₀ t staging) (i : Nat) (stats : ExtractStats)
    (items : List (Except String TarEntry)) :
    Extracts t₀ t staging faults i items (doExtract staging faults t i stats items) := by
  induction items generalizing t i stats with
  | nil => exact ⟨h, List.forall_mem_nil _, fun _ => ⟨⟨_, rfl⟩, rfl⟩, fun hno => absurd trivial hno,
      iff_of_true smallFiles_nil trivial⟩
  | cons item rest ih =>
    cases item with
    | error reason =>
      have hunsound : ¬ Sound (below t staging) (faults i) (.error reason) := And.left
      have hunopened : ∀ data, ¬ Opened (below t staging) (faults i) (.error reason) data := by
        rintro data ⟨p, hfile, -⟩
        cases hfile
      refine ⟨h, List.forall_mem_nil _, fun hall => absurd hall.1 hunsound, fun _ => ⟨_, rfl⟩, ?_⟩
      refine iff_of_true smallFiles_nil ?_
      exact ⟨fun data hopened => absurd hopened (hunopened data), fun hsound => absurd hsound hunsound⟩
    | ok e =>
      have hentry : Refines t₀ t staging (faults i) (.ok e) (extractEntry t staging (faults i) e) :=
        refines_extractEntry hne hplain h e
      rw [doExtract]
      dsimp only
      by_cases hsound : Sound (below t staging) (faults i) (.ok e)
      · obtain ⟨⟨written, hok⟩, hplaced⟩ := hentry.placed hsound
        have hrest := ih hentry.staged (i + 1) (stats.add written)
        rw [hok]
        dsimp only
        refine ⟨hrest.staged, ?_, ?_, ?_, ?_⟩
        · intro touch htouch
          rcases List.mem_append.mp htouch with hearlier | hlater
          · exact hentry.inside touch hearlier
          · exact hrest.inside touch hlater
        · rintro ⟨-, hall⟩
          rw [← hplaced] at hall
          obtain ⟨hstats, hbelow⟩ := hrest.placed hall
          rw [unpacked, List.foldl_cons, ← unpacked, ← hplaced]
          exact ⟨hstats, hbelow⟩
        · intro hno
          refine hrest.failed fun hall => hno ⟨hsound, ?_⟩
          rwa [hplaced] at hall
        · rw [smallFiles_append, hentry.small, hrest.small, hplaced, Bounded]
          exact and_congr_right fun _ => ⟨fun hbound _ => hbound, fun hbound => hbound hsound⟩
      · obtain ⟨err, herr⟩ := hentry.failed hsound
        rw [herr]
        dsimp only
        refine ⟨hentry.staged, hentry.inside, fun hall => absurd hall.1 hsound, fun _ => ⟨_, rfl⟩, ?_⟩
        rw [hentry.small, Bounded]
        exact (and_iff_left fun hsound' => absurd hsound' hsound).symm

end Archives

end Gyre.Template
