/- digest: An extraction stays in its staging directory; when it leaves no trace, and when it does. -/

import Gyre.Template.Unpacking

/-!
The destination is given by the place its path leads to: its name, below a parent without `..`. The
directories above it may be missing, and are then made.
-/

set_option autoImplicit false
set_option relaxedAutoImplicit false

namespace Gyre.Template

open Gyre.Lib.FileTree

section Statement

variable (w : ExtractWorld) (expected : Option (List Char)) (t : Tree) (parent : Path)
  (name : List Char)

/-- The staging directory beside the destination. -/
def staging : Path := parent ++ [stagingName name w.nanos]

/-- The calls an extraction may make; only the way to its destination may lead through links. -/
def Allowed : Touch → Prop
  | .madeDir q => q <+: parent ∨ staging w parent name <+: q
  | .wrote q _ => staging w parent name <+: q ∧ q ≠ staging w parent name
  | .removed q => q = staging w parent name ∨ q = parent ++ [name]
  | .moved p q => p = staging w parent name ∧ q = parent ++ [name]
  | .followed q => q <+: parent

/-- An extraction that keeps to its staging directory until it swaps it in, and gives the destination
the archive's files when it succeeds. -/
structure Contained (r : Extracted) : Prop where
  contained : ∀ touch ∈ r.log, Allowed w parent name touch
  outside : ∀ q, ¬ staging w parent name <+: q → ¬ parent ++ [name] <+: q →
    r.tree q = t q ∨ (t q = none ∧ r.tree q = some .dir ∧ q <+: parent)
  noLinks : ∀ q target, r.tree q = some (.link target) → t q = some (.link target)
  succeeded : ∀ stats, r.result = .ok stats → ∃ bytes, w.tarball = .ok bytes ∧
    ∀ rel data, r.tree (parent ++ [name] ++ rel) = some (.file data) ↔
      archived (w.entries bytes) rel = some data

/-- A failed extraction leaves the destination as it was, and no staging directory. -/
def Traceless (r : Extracted) : Prop :=
  ∀ err, r.result = .error err →
    (∀ q, parent ++ [name] <+: q → r.tree q = t q) ∧ r.tree (staging w parent name) ≠ some .dir

structure ExtractionSafe (r : Extracted) : Prop extends Contained w t parent name r where
  small : SmallFiles r.log
  failed : Traceless w t parent name r

/-- The tarball can be read, and its digest is the expected one. -/
def Accepted (bytes : List UInt8) : Prop :=
  w.tarball = .ok bytes ∧ ∀ digest, expected = some digest → digest = w.sha256 bytes

/-- The staging directory can be made afresh. -/
def Prepares : Prop :=
  w.stagingFails = false ∧ Open t parent ∧
    (t (staging w parent name) = none ∨
      t (staging w parent name) ≠ some (.link .nothing) ∧ w.leftover = none ∧
        ∀ data, t (staging w parent name) ≠ some (.file data))

/-- The swap succeeds, or fails and can be undone. -/
def Swaps : Option Node → Prop
  | none => w.renameFails = false ∨ w.cleanup = none
  | some (.file _) => False
  | some (.link .nothing) => w.cleanup = none
  | some _ => w.oldDest = none ∧ w.renameFails = false

/-- No file is longer than its header says, and no call fails whose failure is not undone. -/
structure Clean : Prop where
  refused : (∀ bytes, ¬ Accepted w expected bytes) → t (staging w parent name) ≠ some .dir
  leftover : ∀ bytes, Accepted w expected bytes → t (staging w parent name) = some .dir →
    w.leftover = none
  bounded : ∀ bytes, Accepted w expected bytes → Prepares w t parent name →
    Bounded w.entryFaults emptyDir 0 (w.entries bytes)
  rollback : ∀ bytes, Accepted w expected bytes → Prepares w t parent name →
    ¬ Unpacks w.entryFaults emptyDir 0 (w.entries bytes) → w.rollback = none
  swap : ∀ bytes, Accepted w expected bytes → Prepares w t parent name →
    Unpacks w.entryFaults emptyDir 0 (w.entries bytes) → Swaps w (t (parent ++ [name]))

end Statement

section Places

variable {w : ExtractWorld} {parent : Path} {name : List Char}

private theorem extractMark_length : ".gyre-extract-".toList.length = 14 := by decide

/-- The staging directory's name is longer than the destination's, and than `..`. -/
theorem stagingName_length (file : List Char) (nanos : Nat) :
    file.length + 2 < (stagingName file nanos).length := by
  have hname : stagingName file nanos =
      ".gyre-extract-".toList ++ (file ++ '-' :: Nat.toDigits 10 nanos) := List.append_assoc _ _ _
  rw [hname, List.length_append, List.length_append, List.length_cons, extractMark_length]
  omega

theorem stagingName_ne_parentDir (file : List Char) (nanos : Nat) :
    stagingName file nanos ≠ parentDir := by
  intro h
  have hlength := stagingName_length file nanos
  rw [h] at hlength
  have htwo : parentDir.length = 2 := rfl
  omega

theorem staging_ne_nil : staging w parent name ≠ [] :=
  List.append_ne_nil_of_right_ne_nil _ (List.cons_ne_nil _ _)

theorem staging_plain (hplain : parentDir ∉ parent) : parentDir ∉ staging w parent name := by
  intro h
  rcases List.mem_append.mp h with h | h
  · exact hplain h
  · exact stagingName_ne_parentDir _ _ (List.mem_singleton.mp h).symm

theorem not_prefix_staging {q : Path} (h : q <+: parent) : ¬ staging w parent name <+: q := by
  intro hq
  have hlength := (hq.trans h).length_le
  rw [staging, List.length_append, List.length_singleton] at hlength
  omega

/-- Nothing lies both in the staging directory and in the destination. -/
theorem staging_apart {q : Path} (hstaging : staging w parent name <+: q) :
    ¬ parent ++ [name] <+: q := by
  intro hdest
  have heq : staging w parent name = parent ++ [name] := by
    refine (List.prefix_of_prefix_length_le hstaging hdest ?_).eq_of_length ?_
    · rw [staging, List.length_append, List.length_append, List.length_singleton, List.length_singleton]
    · rw [staging, List.length_append, List.length_append, List.length_singleton, List.length_singleton]
  have hname : stagingName name w.nanos = name :=
    List.singleton_injective (List.append_cancel_left heq)
  have hlength := stagingName_length name w.nanos
  rw [hname] at hlength
  omega

end Places

section Preparing

variable {w : ExtractWorld} {t : Tree} {parent : Path} {name : List Char}

/-- What preparing the staging directory comes to. -/
structure Prepared (w : ExtractWorld) (t : Tree) (parent : Path) (name : List Char) (r : Done) :
    Prop where
  contained : ∀ touch ∈ r.log, Allowed w parent name touch
  small : SmallFiles r.log
  outside : ∀ q, ¬ staging w parent name <+: q →
    r.tree q = t q ∨ (t q = none ∧ r.tree q = some .dir ∧ q <+: parent)
  noLinks : ∀ q target, r.tree q = some (.link target) → t q = some (.link target)
  ok_iff : r.ok = true ↔ Prepares w t parent name
  staged : r.ok = true → Staged r.tree r.tree (staging w parent name) ∧
    below r.tree (staging w parent name) = emptyDir
  failed : r.ok = false → (r.tree (staging w parent name) ≠ some .dir ↔
    (t (staging w parent name) = some .dir → w.leftover = none))

theorem makeDirs_makes (t : Tree) (fails : Bool) {p : Path} (hplain : parentDir ∉ p) :
    MakesDirs t p (makeDirs t fails p) := by
  cases fails with
  | false => exact createDirAll_makes t hplain
  | true => exact ⟨fun _ => .inl rfl, List.forall_mem_nil _, nofun, nofun, fun _ => rfl⟩

theorem Prepares.behind (h : Prepares w t parent name) :
    t (staging w parent name) ≠ some (.link .nothing) := by
  obtain ⟨-, -, hnone | ⟨hbehind, -⟩⟩ := h
  · rw [hnone]
    exact nofun
  · exact hbehind

theorem prefix_staging {q : Path} (h : q <+: staging w parent name) :
    q <+: parent ∨ q = staging w parent name := prefix_snoc h

/-- Once the leftover is cleared, making the directory. -/
theorem prepared_making (ht : Closed t) (hplain : parentDir ∉ parent) {cleared : Done}
    (hcleared : Clears t (staging w parent name) w.leftover cleared) (hok : cleared.ok = true) :
    let made := makeDirs cleared.tree w.stagingFails (staging w parent name)
    Prepared w t parent name ⟨made.tree, cleared.log ++ made.log, made.ok⟩ := by
  have hstaging : parentDir ∉ staging w parent name := staging_plain hplain
  have hmakes := makeDirs_makes cleared.tree w.stagingFails hstaging
  have hempty : t (staging w parent name) ≠ some (.link .nothing) →
      ∀ q, staging w parent name <+: q → cleared.tree q = none := by
    intro hbehind q hq
    by_cases hthere : t (staging w parent name) = none
    · rw [hcleared.absent (.inl hthere)]
      exact ht _ q hq hthere
    · exact hcleared.gone hok hthere hbehind q hq
  have hok_iff : (makeDirs cleared.tree w.stagingFails (staging w parent name)).ok = true ↔
      Prepares w t parent name := by
    constructor
    · intro hmade
      have hfails : w.stagingFails = false := by
        cases hfails : w.stagingFails with
        | false => rfl
        | true =>
          rw [hfails] at hmade
          cases hmade
      have hbehind : t (staging w parent name) ≠ some (.link .nothing) := by
        intro hlink
        have hstill : cleared.tree (staging w parent name) = some (.link .nothing) := by
          rw [hcleared.absent (.inr hlink)]
          exact hlink
        rcases hmakes.kept (staging w parent name) with hsame | ⟨hnone, -⟩
        · have hdir := hmakes.made hmade staging_ne_nil
          rw [hsame, hstill] at hdir
          rcases hdir with hdir | hdir
          · cases hdir
          · cases hdir
        · rw [hstill] at hnone
          cases hnone
      refine ⟨hfails, fun q hq hne => ?_, ?_⟩
      · have hout : ¬ staging w parent name <+: q := not_prefix_staging hq
        have hdir := hmakes.above hmade q (hq.trans (List.prefix_append _ _)) (prefix_ne_snoc hq) hne
        rw [← hcleared.kept q hout]
        rcases hmakes.kept q with hsame | ⟨hnone, -⟩
        · exact .inr (hsame ▸ hdir)
        · exact .inl hnone
      · rcases hcleared.ok_iff.mp hok with hnone | hlink | ⟨hleft, hfile⟩
        · exact .inl hnone
        · exact absurd hlink hbehind
        · exact .inr ⟨hbehind, hleft, hfile⟩
    · intro hprepares
      have hbehind := hprepares.behind
      obtain ⟨hfails, hopen, -⟩ := hprepares
      rw [hfails]
      refine createDirAll_ok cleared.tree hstaging fun q hq hne => ?_
      rcases prefix_staging hq with hq | rfl
      · rw [hcleared.kept q (not_prefix_staging hq)]
        exact hopen q hq hne
      · exact .inl (hempty hbehind _ (List.prefix_refl _))
  refine ⟨?_, ?_, ?_, ?_, hok_iff, ?_, ?_⟩
  · intro touch htouch
    rcases List.mem_append.mp htouch with hremoved | hmade
    · rw [hcleared.logged touch hremoved]
      exact .inl rfl
    · rcases hmakes.logged touch hmade with ⟨q, hq, -, -, rfl⟩ | ⟨q, target, hq, hne, -, -, rfl⟩
      · rcases prefix_staging hq with hq | rfl
        · exact .inl hq
        · exact .inr (List.prefix_refl _)
      · exact (prefix_staging hq).resolve_right hne
  · refine smallFiles_append.mpr ⟨fun q n hq => ?_, fun q n hq => ?_⟩
    · cases hcleared.logged _ hq
    · rcases hmakes.logged _ hq with ⟨_, -, -, -, hmade⟩ | ⟨_, _, -, -, -, -, hfollowed⟩
      · cases hmade
      · cases hfollowed
  · intro q hq
    rw [← hcleared.kept q hq]
    rcases hmakes.kept q with hsame | ⟨hnone, hdir, hprefix, -⟩
    · exact .inl hsame
    · refine .inr ⟨hnone, hdir, (prefix_staging hprefix).resolve_right fun heq => hq ?_⟩
      exact heq ▸ List.prefix_refl _
  · intro q target hlink
    rcases hmakes.kept q with hsame | ⟨-, hdir, -⟩
    · dsimp only at hlink
      rw [hsame] at hlink
      exact hcleared.link hlink
    · dsimp only at hlink
      rw [hdir] at hlink
      cases hlink
  · intro hmade
    have hbehind := (hok_iff.mp hmade).behind
    have hnew := hempty hbehind
    have hdirs := hmakes.allDirs hmade fun target hlink => by
      rw [hnew _ (List.prefix_refl _)] at hlink
      cases hlink
    have hbelow : below (makeDirs cleared.tree w.stagingFails (staging w parent name)).tree
        (staging w parent name) = emptyDir := by
      funext rel
      rw [below, emptyDir]
      by_cases hroot : rel = []
      · subst hroot
        rw [if_pos rfl, List.append_nil]
        exact hdirs _ (List.prefix_refl _) staging_ne_nil
      · rw [if_neg hroot]
        rcases hmakes.kept (staging w parent name ++ rel) with hsame | ⟨-, -, hprefix, -⟩
        · rw [hsame]
          exact hnew _ (List.prefix_append _ _)
        · have hlength := hprefix.length_le
          rw [List.length_append] at hlength
          have hpos := List.length_pos_iff.mpr hroot
          omega
    exact ⟨⟨fun _ _ => rfl, hdirs, hbelow ▸ emptyDir_noLinks⟩, hbelow⟩
  · intro hmade
    have hstill := hmakes.unmade hmade
    dsimp only
    rw [hstill]
    by_cases habsent : t (staging w parent name) = none ∨
        t (staging w parent name) = some (.link .nothing)
    · have hnodir : t (staging w parent name) ≠ some .dir := by
        rcases habsent with hnone | hlink
        · rw [hnone]
          exact (Option.some_ne_none _).symm
        · rw [hlink]
          intro heq
          cases heq
      rw [hcleared.absent habsent]
      exact iff_of_true hnodir fun hdir => absurd hdir hnodir
    · obtain ⟨hthere, hbehind⟩ := not_or.mp habsent
      have hgone := hcleared.gone hok hthere hbehind _ (List.prefix_refl _)
      have hleft := ((hcleared.ok_iff.mp hok).resolve_left hthere).resolve_left hbehind
      have hnodir : (none : Option Node) ≠ some .dir := (Option.some_ne_none _).symm
      rw [hgone]
      exact iff_of_true hnodir fun _ => hleft.1

theorem prepared (ht : Closed t) (hplain : parentDir ∉ parent) :
    Prepared w t parent name (prepareStaging w t (staging w parent name)) := by
  have hcleared := clears t (staging w parent name) w.leftover
  rw [prepareStaging]
  generalize (if present t (staging w parent name) then
    removeDirAll t (staging w parent name) w.leftover else ⟨t, [], true⟩) = cleared at hcleared
  dsimp only
  by_cases hok : cleared.ok = true
  · rw [if_pos hok]
    exact prepared_making ht hplain hcleared hok
  · rw [if_neg hok]
    have hno : ¬ Prepares w t parent name := by
      rintro ⟨-, -, hthere⟩
      refine hok (hcleared.ok_iff.mpr ?_)
      exact hthere.imp_right fun ⟨_, hclears⟩ => .inr hclears
    rw [Bool.not_eq_true] at hok
    refine ⟨?_, ?_, fun q hq => .inl (hcleared.kept q hq), ?_, ?_, ?_, ?_⟩
    · intro touch htouch
      rw [hcleared.logged touch htouch]
      exact .inl rfl
    · intro q n hq
      cases hcleared.logged _ hq
    · exact fun q target hlink => hcleared.link hlink
    · rw [hok]
      exact iff_of_false Bool.false_ne_true hno
    · intro hmade
      rw [hok] at hmade
      cases hmade
    · intro _
      rw [hcleared.failed hok]
      constructor
      · exact fun hnodir hdir => absurd hdir hnodir
      · intro hleft hdir
        have hcan : cleared.ok = true := by
          refine hcleared.ok_iff.mpr (.inr (.inr ⟨hleft hdir, fun data hfile => ?_⟩))
          rw [hdir] at hfile
          cases hfile
        rw [hok] at hcan
        cases hcan

end Preparing

section Swapping

variable {w : ExtractWorld} {u : Tree} {parent : Path} {name : List Char}

/-- What swapping the staging directory in comes to. -/
structure Swapped (w : ExtractWorld) (u : Tree) (parent : Path) (name : List Char) (r : Done) :
    Prop where
  contained : ∀ touch ∈ r.log, Allowed w parent name touch
  small : SmallFiles r.log
  outside : ∀ q, ¬ staging w parent name <+: q → ¬ parent ++ [name] <+: q → r.tree q = u q
  noLinks : ∀ q target, r.tree q = some (.link target) → u q = some (.link target)
  moved : r.ok = true → ∀ rel, r.tree (parent ++ [name] ++ rel) = u (staging w parent name ++ rel)
  undone_iff : (r.ok = true ∨ (∀ q, parent ++ [name] <+: q → r.tree q = u q) ∧
    r.tree (staging w parent name) ≠ some .dir) ↔ Swaps w (u (parent ++ [name]))

theorem swaps_present {node : Option Node} (hthere : node ≠ none)
    (hbehind : node ≠ some (.link .nothing)) (hfile : ∀ data, node ≠ some (.file data)) :
    Swaps w node ↔ w.oldDest = none ∧ w.renameFails = false := by
  unfold Swaps
  split
  · exact absurd rfl hthere
  · exact absurd rfl (hfile _)
  · exact absurd rfl hbehind
  · rfl

/-- The old destination could not be removed: it and the staging directory stay. -/
theorem swapped_blocked {cleared : Done} (hcleared : Clears u (parent ++ [name]) w.oldDest cleared)
    (hdir : u (staging w parent name) = some .dir) (hok : cleared.ok = false) :
    Swapped w u parent name cleared := by
  have hstill : cleared.tree (staging w parent name) = some .dir := by
    rw [hcleared.kept _ (staging_apart (List.prefix_refl _))]
    exact hdir
  have hno : ¬ (u (parent ++ [name]) = none ∨ u (parent ++ [name]) = some (.link .nothing) ∨
      w.oldDest = none ∧ ∀ data, u (parent ++ [name]) ≠ some (.file data)) := by
    rw [← hcleared.ok_iff, hok]
    exact Bool.false_ne_true
  obtain ⟨hthere, hbehind, hclears⟩ := not_or.mp hno |>.imp_right not_or.mp
  refine ⟨?_, ?_, fun q _ hq => hcleared.kept q hq, ?_, ?_, ?_⟩
  · intro touch htouch
    rw [hcleared.logged touch htouch]
    exact .inr rfl
  · intro q n hq
    cases hcleared.logged _ hq
  · exact fun q target hlink => hcleared.link hlink
  · intro hmoved
    rw [hok] at hmoved
    cases hmoved
  · refine iff_of_false ?_ ?_
    · rintro (hmoved | ⟨-, hgone⟩)
      · rw [hok] at hmoved
        cases hmoved
      · exact hgone hstill
    · by_cases hfile : ∀ data, u (parent ++ [name]) ≠ some (.file data)
      · rw [swaps_present hthere hbehind hfile]
        exact fun h => hclears ⟨h.1, hfile⟩
      · obtain ⟨data, hdata⟩ := not_forall.mp hfile
        rw [not_not.mp hdata]
        exact id

/-- The renaming went through. -/
theorem swapped_moved {cleared : Done} (hcleared : Clears u (parent ++ [name]) w.oldDest cleared)
    (hlinks : NoLinks (below u (staging w parent name))) (hok : cleared.ok = true)
    (hmoved :
      (renameDir cleared.tree (staging w parent name) (parent ++ [name]) w.renameFails).ok = true) :
    let renamed := renameDir cleared.tree (staging w parent name) (parent ++ [name]) w.renameFails
    Swapped w u parent name ⟨renamed.tree, cleared.log ++ renamed.log, true⟩ := by
  obtain ⟨hfails, hfree⟩ := renameDir_ok.mp hmoved
  have hinside : ∀ rel,
      cleared.tree (staging w parent name ++ rel) = u (staging w parent name ++ rel) :=
    fun rel => hcleared.kept _ (staging_apart (List.prefix_append _ _))
  rw [renameDir_eq hmoved]
  refine ⟨?_, ?_, ?_, ?_, ?_, ?_⟩
  · intro touch htouch
    rcases List.mem_append.mp htouch with hremoved | hrenamed
    · rw [hcleared.logged touch hremoved]
      exact .inr rfl
    · rw [List.mem_singleton.mp hrenamed]
      exact ⟨rfl, rfl⟩
  · refine smallFiles_append.mpr ⟨fun q n hq => ?_, fun q n hq => ?_⟩
    · cases hcleared.logged _ hq
    · cases List.mem_singleton.mp hq
  · intro q hstaging hdest
    dsimp only
    rw [if_neg hdest, if_neg hstaging]
    exact hcleared.kept q hdest
  · intro q target hlink
    dsimp only at hlink
    split at hlink
    · rw [hinside] at hlink
      exact absurd hlink (hlinks _ target)
    · split at hlink
      · cases hlink
      · exact hcleared.link hlink
  · intro _ rel
    dsimp only
    rw [if_pos (List.prefix_append _ _), List.drop_left, hinside]
  · refine iff_of_true (.inl rfl) ?_
    by_cases hthere : u (parent ++ [name]) = none
    · rw [hthere]
      exact .inl hfails
    · by_cases hbehind : u (parent ++ [name]) = some (.link .nothing)
      · rw [hcleared.absent (.inr hbehind)] at hfree
        exact absurd hfree hthere
      · obtain ⟨hold, hfile⟩ := ((hcleared.ok_iff.mp hok).resolve_left hthere).resolve_left hbehind
        exact (swaps_present hthere hbehind hfile).mpr ⟨hold, hfails⟩

/-- The renaming failed, with the old destination removed already. -/
theorem swapped_undone {cleared : Done} (hcleared : Clears u (parent ++ [name]) w.oldDest cleared)
    (hdir : u (staging w parent name) = some .dir) (hok : cleared.ok = true)
    (hfailed :
      ¬ (renameDir cleared.tree (staging w parent name) (parent ++ [name]) w.renameFails).ok = true) :
    let removed := removeDirAll cleared.tree (staging w parent name) w.cleanup
    Swapped w u parent name ⟨removed.tree, cleared.log ++ removed.log, false⟩ := by
  have hstill : cleared.tree (staging w parent name) = some .dir := by
    rw [hcleared.kept _ (staging_apart (List.prefix_refl _))]
    exact hdir
  have hdest : ∀ q, parent ++ [name] <+: q →
      (removeDirAll cleared.tree (staging w parent name) w.cleanup).tree q = cleared.tree q :=
    fun q hq => removeDirAll_kept fun hstaging => staging_apart hstaging hq
  refine ⟨?_, ?_, ?_, ?_, nofun, ?_⟩
  · intro touch htouch
    rcases List.mem_append.mp htouch with hold | hnew
    · rw [hcleared.logged touch hold]
      exact .inr rfl
    · rw [removeDirAll_logged touch hnew]
      exact .inl rfl
  · refine smallFiles_append.mpr ⟨fun q n hq => ?_, fun q n hq => ?_⟩
    · cases hcleared.logged _ hq
    · cases removeDirAll_logged _ hq
  · intro q hstaging hdest
    dsimp only
    rw [removeDirAll_kept hstaging, hcleared.kept q hdest]
  · exact fun q target hlink => hcleared.link (removeDirAll_link hlink)
  · dsimp only
    rw [removeDirAll_dir hstill]
    rw [renameDir_ok] at hfailed
    by_cases hthere : u (parent ++ [name]) = none
    · have hsame := hcleared.absent (.inl hthere)
      rw [hsame] at hfailed hdest ⊢
      rw [hthere]
      constructor
      · rintro (h | ⟨-, hcleanup⟩)
        · cases h
        · exact .inr hcleanup
      · rintro (hfails | hcleanup)
        · exact absurd ⟨hfails, hthere⟩ hfailed
        · exact .inr ⟨hdest, hcleanup⟩
    · by_cases hbehind : u (parent ++ [name]) = some (.link .nothing)
      · have hsame := hcleared.absent (.inr hbehind)
        rw [hsame] at hdest ⊢
        rw [hbehind]
        constructor
        · rintro (h | ⟨-, hcleanup⟩)
          · cases h
          · exact hcleanup
        · exact fun hcleanup => .inr ⟨hdest, hcleanup⟩
      · have hnone := hcleared.gone hok hthere hbehind _ (List.prefix_refl _)
        have hfile := (((hcleared.ok_iff.mp hok).resolve_left hthere).resolve_left hbehind).2
        rw [swaps_present hthere hbehind hfile]
        refine iff_of_false ?_ fun h => hfailed ⟨h.2, hnone⟩
        rintro (h | ⟨hkept, -⟩)
        · cases h
        · have hsame := hkept _ (List.prefix_refl _)
          rw [hdest _ (List.prefix_refl _), hnone] at hsame
          exact hthere hsame.symm

theorem swapped (hdir : u (staging w parent name) = some .dir)
    (hlinks : NoLinks (below u (staging w parent name))) :
    Swapped w u parent name (swapIn w u (staging w parent name) (parent ++ [name])) := by
  have hcleared := clears u (parent ++ [name]) w.oldDest
  rw [swapIn]
  generalize (if present u (parent ++ [name]) then removeDirAll u (parent ++ [name]) w.oldDest
    else ⟨u, [], true⟩) = cleared at hcleared
  dsimp only
  by_cases hok : cleared.ok = true
  · rw [if_pos hok]
    by_cases hmoved : (renameDir cleared.tree (staging w parent name) (parent ++ [name])
        w.renameFails).ok = true
    · rw [if_pos hmoved]
      exact swapped_moved hcleared hlinks hok hmoved
    · rw [if_neg hmoved]
      exact swapped_undone hcleared hdir hok hmoved
  · rw [if_neg hok]
    exact swapped_blocked hcleared hdir (Bool.not_eq_true _ ▸ hok)

end Swapping

section Extraction

variable {w : ExtractWorld} {expected : Option (List Char)} {t : Tree} {parent : Path}
  {name : List Char} {bytes : List UInt8}

theorem checkTarball_ok (h : checkTarball w expected = .ok bytes) : Accepted w expected bytes := by
  unfold checkTarball at h
  split at h
  · cases h
  · rename_i found hfound
    split at h
    · split at h
      · rename_i digest heq
        cases h
        exact ⟨hfound, fun _ hdigest => by cases hdigest; exact heq⟩
      · cases h
    · cases h
      exact ⟨hfound, fun _ hdigest => by cases hdigest⟩

theorem checkTarball_error {err : ExtractError} (h : checkTarball w expected = .error err) :
    ¬ Accepted w expected bytes := by
  rintro ⟨hread, hdigest⟩
  rw [checkTarball, hread] at h
  dsimp only at h
  cases expected with
  | none => cases h
  | some digest =>
    dsimp only at h
    rw [if_pos (hdigest digest rfl)] at h
    cases h

theorem Accepted.unique {other : List UInt8} (h : Accepted w expected bytes)
    (hother : Accepted w expected other) : other = bytes := by
  have hsame := h.1.symm.trans hother.1
  cases hsame
  with_unfolding_all rfl

/-- Once the staging directory can be made, being clean is a matter of the archive and the swap. -/
theorem clean_prepares (haccepted : Accepted w expected bytes) (hprepares : Prepares w t parent name) :
    Clean w expected t parent name ↔ Bounded w.entryFaults emptyDir 0 (w.entries bytes) ∧
      (¬ Unpacks w.entryFaults emptyDir 0 (w.entries bytes) → w.rollback = none) ∧
      (Unpacks w.entryFaults emptyDir 0 (w.entries bytes) → Swaps w (t (parent ++ [name]))) := by
  constructor
  · exact fun h => ⟨h.bounded bytes haccepted hprepares, h.rollback bytes haccepted hprepares,
      h.swap bytes haccepted hprepares⟩
  · rintro ⟨hbounded, hrollback, hswap⟩
    refine ⟨fun hrefused => absurd haccepted (hrefused bytes), fun _ _ hdir => ?_, ?_, ?_, ?_⟩
    · obtain ⟨-, -, hnone | ⟨-, hleft, -⟩⟩ := hprepares
      · rw [hnone] at hdir
        cases hdir
      · exact hleft
    · intro other hother _
      rw [haccepted.unique hother]
      exact hbounded
    · intro other hother _
      rw [haccepted.unique hother]
      exact hrollback
    · intro other hother _
      rw [haccepted.unique hother]
      exact hswap

/-- Without a staging directory to extract into, only a leftover one matters. -/
theorem clean_unprepared (haccepted : Accepted w expected bytes) (hno : ¬ Prepares w t parent name) :
    Clean w expected t parent name ↔ (t (staging w parent name) = some .dir → w.leftover = none) := by
  constructor
  · exact fun h => h.leftover bytes haccepted
  · intro hleft
    exact ⟨fun hrefused => absurd haccepted (hrefused bytes), fun _ _ => hleft,
      fun _ _ h => absurd h hno, fun _ _ h => absurd h hno, fun _ _ h => absurd h hno⟩

/-- Nothing of the destination is on the way to it. -/
theorem not_prefix_parent {q : Path} (hdest : parent ++ [name] <+: q) : ¬ q <+: parent := by
  intro hq
  have hlength := (hdest.trans hq).length_le
  rw [List.length_append, List.length_singleton] at hlength
  omega

/-- The state after the entries, whether all of them were placed or not. -/
structure Loaded (w : ExtractWorld) (t : Tree) (parent : Path) (name : List Char) (bytes : List UInt8)
    (u : Tree) (log : List Touch) : Prop where
  contained : ∀ touch ∈ log, Allowed w parent name touch
  outside : ∀ q, ¬ staging w parent name <+: q →
    u q = t q ∨ (t q = none ∧ u q = some .dir ∧ q <+: parent)
  noLinks : ∀ q target, u q = some (.link target) → t q = some (.link target)
  small : SmallFiles log ↔ Bounded w.entryFaults emptyDir 0 (w.entries bytes)
  dir : u (staging w parent name) = some .dir
  inside : NoLinks (below u (staging w parent name))

theorem Loaded.dest {u : Tree} {log : List Touch} (h : Loaded w t parent name bytes u log) {q : Path}
    (hq : parent ++ [name] <+: q) : u q = t q := by
  rcases h.outside q fun hstaging => staging_apart hstaging hq with hsame | ⟨-, -, hparent⟩
  · exact hsame
  · exact absurd hparent (not_prefix_parent hq)

theorem loaded {r : Done} {e : Extracted} (hr : Prepared w t parent name r) (hok : r.ok = true)
    (he : Extracts r.tree r.tree (staging w parent name) w.entryFaults 0 (w.entries bytes) e) :
    Loaded w t parent name bytes e.tree (r.log ++ e.log) := by
  obtain ⟨-, hempty⟩ := hr.staged hok
  refine ⟨?_, ?_, ?_, ?_, he.staged.dirs _ (List.prefix_refl _) staging_ne_nil, he.staged.noLinks⟩
  · intro touch htouch
    rcases List.mem_append.mp htouch with hearlier | hlater
    · exact hr.contained touch hearlier
    · have hinside := he.inside touch hlater
      cases touch with
      | madeDir q => exact .inr hinside
      | wrote q n => exact hinside
      | removed q => exact hinside.elim
      | moved p q => exact hinside.elim
      | followed q => exact hinside.elim
  · intro q hq
    rw [he.staged.outside q hq]
    exact hr.outside q hq
  · intro q target hlink
    by_cases hq : staging w parent name <+: q
    · obtain ⟨rel, rfl⟩ := hq
      exact absurd hlink (he.staged.noLinks rel target)
    · rw [he.staged.outside q hq] at hlink
      exact hr.noLinks q target hlink
  · rw [smallFiles_append, he.small, hempty]
    exact and_iff_right hr.small

theorem contained_rolledBack {u : Tree} {log : List Touch} (h : Loaded w t parent name bytes u log)
    {err : ExtractError} :
    let removed := removeDirAll u (staging w parent name) w.rollback
    Contained w t parent name ⟨removed.tree, log ++ removed.log, .error err⟩ := by
  refine ⟨?_, ?_, fun q target hlink => h.noLinks q target (removeDirAll_link hlink), nofun⟩
  · intro touch htouch
    rcases List.mem_append.mp htouch with hearlier | hlater
    · exact h.contained touch hearlier
    · rw [removeDirAll_logged touch hlater]
      exact .inl rfl
  · intro q hstaging _
    dsimp only
    rw [removeDirAll_kept hstaging]
    exact h.outside q hstaging

theorem clean_rolledBack {u : Tree} {log : List Touch} (h : Loaded w t parent name bytes u log)
    {err : ExtractError} :
    let removed := removeDirAll u (staging w parent name) w.rollback
    SmallFiles (log ++ removed.log) ∧
        Traceless w t parent name ⟨removed.tree, log ++ removed.log, .error err⟩ ↔
      Bounded w.entryFaults emptyDir 0 (w.entries bytes) ∧ w.rollback = none := by
  have hremoved : SmallFiles (removeDirAll u (staging w parent name) w.rollback).log := by
    intro q n hq
    cases removeDirAll_logged _ hq
  refine and_congr ?_ ?_
  · rw [smallFiles_append, h.small]
    exact and_iff_left hremoved
  · constructor
    · exact fun htraceless => (removeDirAll_dir h.dir).mp (htraceless err rfl).2
    · refine fun hrollback _ _ => ⟨fun q hq => ?_, (removeDirAll_dir h.dir).mpr hrollback⟩
      dsimp only
      rw [removeDirAll_kept fun hstaging => staging_apart hstaging hq]
      exact h.dest hq

theorem contained_swapped {u : Tree} {log : List Touch} (h : Loaded w t parent name bytes u log)
    (hread : w.tarball = .ok bytes) (hunpacks : Unpacks w.entryFaults emptyDir 0 (w.entries bytes))
    (hbelow : below u (staging w parent name) = unpacked emptyDir (w.entries bytes))
    {stats : ExtractStats} :
    let swapped := swapIn w u (staging w parent name) (parent ++ [name])
    Contained w t parent name
      ⟨swapped.tree, log ++ swapped.log, if swapped.ok then .ok stats else .error .swap⟩ := by
  have hswapped := swapped h.dir h.inside
  refine ⟨?_, ?_, fun q target hlink => h.noLinks q target (hswapped.noLinks q target hlink), ?_⟩
  · intro touch htouch
    rcases List.mem_append.mp htouch with hearlier | hlater
    · exact h.contained touch hearlier
    · exact hswapped.contained touch hlater
  · intro q hstaging hdest
    dsimp only
    rw [hswapped.outside q hstaging hdest]
    exact h.outside q hstaging
  · intro _ hsucceeded
    have hok : (swapIn w u (staging w parent name) (parent ++ [name])).ok = true := by
      by_contra hno
      dsimp only at hsucceeded
      rw [if_neg hno] at hsucceeded
      cases hsucceeded
    refine ⟨bytes, hread, fun rel data => ?_⟩
    dsimp only
    rw [hswapped.moved hok rel, ← unpacked_file_iff hunpacks, ← hbelow, below]

theorem clean_swapped {u : Tree} {log : List Touch} (h : Loaded w t parent name bytes u log)
    {stats : ExtractStats} :
    let swapped := swapIn w u (staging w parent name) (parent ++ [name])
    SmallFiles (log ++ swapped.log) ∧ Traceless w t parent name
        ⟨swapped.tree, log ++ swapped.log, if swapped.ok then .ok stats else .error .swap⟩ ↔
      Bounded w.entryFaults emptyDir 0 (w.entries bytes) ∧ Swaps w (t (parent ++ [name])) := by
  have hswapped := swapped h.dir h.inside
  have hundone := hswapped.undone_iff
  rw [h.dest (List.prefix_refl _)] at hundone
  refine and_congr ?_ ?_
  · rw [smallFiles_append, h.small]
    exact and_iff_left hswapped.small
  · rw [← hundone]
    constructor
    · intro htraceless
      by_cases hok : (swapIn w u (staging w parent name) (parent ++ [name])).ok = true
      · exact .inl hok
      · obtain ⟨hdest, hgone⟩ := htraceless .swap (if_neg hok)
        exact .inr ⟨fun q hq => (hdest q hq).trans (h.dest hq).symm, hgone⟩
    · intro hdone err hfailed
      have hok : ¬ (swapIn w u (staging w parent name) (parent ++ [name])).ok = true := by
        intro hok
        dsimp only at hfailed
        rw [if_pos hok] at hfailed
        cases hfailed
      obtain ⟨hdest, hgone⟩ := hdone.resolve_left hok
      exact ⟨fun q hq => (hdest q hq).trans (h.dest hq), hgone⟩

/-- Without a staging directory nothing is extracted. -/
theorem clean_failedPreparing {r : Done} (hr : Prepared w t parent name r) (hfailed : r.ok = false)
    {err : ExtractError} :
    SmallFiles r.log ∧ Traceless w t parent name ⟨r.tree, r.log, .error err⟩ ↔
      (t (staging w parent name) = some .dir → w.leftover = none) := by
  rw [← hr.failed hfailed, and_iff_right hr.small]
  constructor
  · exact fun htraceless => (htraceless err rfl).2
  · refine fun hgone _ _ => ⟨fun q hq => ?_, hgone⟩
    rcases hr.outside q fun hstaging => staging_apart hstaging hq with hsame | ⟨-, -, hparent⟩
    · exact hsame
    · exact absurd hparent (not_prefix_parent hq)

/-- What a run is always, and what it is on the condition of being clean. -/
theorem extraction_outcome (w : ExtractWorld) (expected : Option (List Char)) (name : List Char)
    (ht : Closed t) (hplain : parentDir ∉ parent) :
    let r := extractTarball w expected t parent (parent ++ [name]) name
    Contained w t parent name r ∧
      (SmallFiles r.log ∧ Traceless w t parent name r ↔ Clean w expected t parent name) := by
  rw [extractTarball]
  cases hcheck : checkTarball w expected with
  | error err =>
    have hrefused : ∀ bytes, ¬ Accepted w expected bytes := fun bytes => checkTarball_error hcheck
    refine ⟨⟨List.forall_mem_nil _, fun _ _ _ => .inl rfl, fun _ _ hlink => hlink, nofun⟩, ?_⟩
    constructor
    · rintro ⟨-, htraceless⟩
      exact ⟨fun _ => (htraceless err rfl).2, fun bytes h => absurd h (hrefused bytes),
        fun bytes h => absurd h (hrefused bytes), fun bytes h => absurd h (hrefused bytes),
        fun bytes h => absurd h (hrefused bytes)⟩
    · exact fun h => ⟨smallFiles_nil, fun _ _ => ⟨fun _ _ => rfl, h.refused hrefused⟩⟩
  | ok bytes =>
    have haccepted := checkTarball_ok hcheck
    have hprepared : Prepared w t parent name (prepareStaging w t (staging w parent name)) :=
      prepared ht hplain
    dsimp only
    rw [← staging]
    by_cases hok : (prepareStaging w t (staging w parent name)).ok = true
    · have hprepares := hprepared.ok_iff.mp hok
      obtain ⟨hstaged, hempty⟩ := hprepared.staged hok
      have hextracts := extracts_doExtract w.entryFaults staging_ne_nil (staging_plain hplain) hstaged
        0 ⟨0, 0⟩ (w.entries bytes)
      have hloaded := loaded hprepared hok hextracts
      rw [hok, Bool.not_true, if_neg Bool.false_ne_true, clean_prepares haccepted hprepares]
      by_cases hunpacks : Unpacks w.entryFaults emptyDir 0 (w.entries bytes)
      · obtain ⟨⟨stats, hresult⟩, hbelow⟩ := hextracts.placed (hempty ▸ hunpacks)
        rw [hempty] at hbelow
        rw [hresult]
        refine ⟨contained_swapped hloaded haccepted.1 hunpacks hbelow, (clean_swapped hloaded).trans ?_⟩
        exact and_congr_right fun _ => ⟨fun h => ⟨fun hno => absurd hunpacks hno, fun _ => h⟩,
          fun h => h.2 hunpacks⟩
      · obtain ⟨err, hresult⟩ := hextracts.failed (hempty ▸ hunpacks)
        rw [hresult]
        refine ⟨contained_rolledBack hloaded, (clean_rolledBack hloaded).trans ?_⟩
        exact and_congr_right fun _ => ⟨fun h => ⟨fun _ => h, fun hall => absurd hall hunpacks⟩,
          fun h => h.1 hunpacks⟩
    · have hno : ¬ Prepares w t parent name := fun h => hok (hprepared.ok_iff.mpr h)
      rw [Bool.not_eq_true] at hok
      rw [hok, Bool.not_false, if_pos rfl, clean_unprepared haccepted hno]
      exact ⟨⟨hprepared.contained, fun q hstaging _ => hprepared.outside q hstaging,
        hprepared.noLinks, nofun⟩, clean_failedPreparing hprepared hok⟩

/-- An extraction always keeps to its staging directory and makes no link, and gives the destination
the archive's files when it succeeds; it is bounded and leaves no trace of a failure exactly when no
file is longer than its header allows, and no failing call has to be undone by another that fails. -/
theorem extraction_safe_iff (w : ExtractWorld) (expected : Option (List Char)) (t : Tree)
    (parent : Path) (name : List Char) (ht : Closed t) (hplain : parentDir ∉ parent) :
    ExtractionSafe w t parent name (extractTarball w expected t parent (parent ++ [name]) name) ↔
      Clean w expected t parent name := by
  obtain ⟨hcontained, hclean⟩ := extraction_outcome w expected name ht hplain
  rw [← hclean]
  exact ⟨fun h => ⟨h.small, h.failed⟩, fun h => ⟨hcontained, h.1, h.2⟩⟩

end Extraction

section Runs

/-- The destination with the directories above it. -/
private def destTree : Tree :=
  fun p => if p <+: ["templates".toList, "a".toList] then some .dir else none

private theorem destTree_closed : Closed destTree := by
  intro p q hpq hp
  unfold destTree at hp ⊢
  split at hp
  · cases hp
  · rename_i hout
    exact if_neg fun hq => hout (hpq.trans hq)

/-- An archive with the one file `soul.md`, whose header says one byte. -/
private def oneFile (data : List UInt8) (renameFails : Bool) : ExtractWorld where
  tarball := .ok []
  sha256 := fun _ => []
  entries := fun _ => [.ok ⟨.ok "soul.md".toList, .regular, some 1, data⟩]
  nanos := 0
  leftover := none
  stagingFails := false
  entryFaults := fun _ => ⟨false, none⟩
  rollback := none
  oldDest := none
  renameFails := renameFails
  cleanup := none

private theorem oneFile_clean :
    Clean (oneFile [65] false) none destTree ["templates".toList] "a".toList := by
  have habsent : destTree (staging (oneFile [65] false) ["templates".toList] "a".toList) = none := by
    decide +kernel
  have hthere : destTree (["templates".toList] ++ ["a".toList]) = some .dir := by decide +kernel
  refine ⟨fun hrefused => ?_, fun _ _ _ => rfl, fun _ _ _ => ⟨?_, fun _ => trivial⟩,
    fun _ _ _ _ => rfl, ?_⟩
  · exact absurd ⟨rfl, nofun⟩ (hrefused [])
  · rintro data ⟨p, hplace, -⟩
    have hfile : placement (.ok ⟨.ok "soul.md".toList, .regular, some 1, [65]⟩) =
        .file ["soul.md".toList] [65] := by
      with_unfolding_all rfl
    rw [hfile] at hplace
    cases hplace
    exact Nat.le_of_lt (by decide)
  · intro _ _ _ _
    rw [hthere]
    exact ⟨rfl, rfl⟩

theorem extraction_safe_iff_oneFile : Closed destTree ∧ parentDir ∉ ["templates".toList] ∧
    ExtractionSafe (oneFile [65] false) destTree ["templates".toList] "a".toList
      (extractTarball (oneFile [65] false) none destTree ["templates".toList]
        (["templates".toList] ++ ["a".toList]) "a".toList) := by
  have hplain : parentDir ∉ ["templates".toList] := by decide
  exact ⟨destTree_closed, hplain,
    (extraction_safe_iff _ _ _ _ _ destTree_closed hplain).mpr oneFile_clean⟩

private theorem oneFile_log (data : List UInt8) :
    (extractTarball (oneFile data false) none destTree ["templates".toList]
      (["templates".toList] ++ ["a".toList]) "a".toList).log =
    [.madeDir ["templates".toList, ".gyre-extract-a-0".toList],
      .wrote ["templates".toList, ".gyre-extract-a-0".toList, "soul.md".toList] data.length,
      .removed ["templates".toList, "a".toList],
      .moved ["templates".toList, ".gyre-extract-a-0".toList] ["templates".toList, "a".toList]] := by
  with_unfolding_all rfl

/-- A file longer than its header says is written in full, and a renaming that fails leaves no
destination where there was one. -/
theorem extraction_unsafe : Closed destTree ∧ parentDir ∉ ["templates".toList] ∧
    ¬ ExtractionSafe (oneFile (List.replicate (maxFileBytes + 1) 0) false) destTree ["templates".toList]
      "a".toList (extractTarball (oneFile (List.replicate (maxFileBytes + 1) 0) false) none destTree
        ["templates".toList] (["templates".toList] ++ ["a".toList]) "a".toList) ∧
    ¬ ExtractionSafe (oneFile [65] true) destTree ["templates".toList]
      "a".toList (extractTarball (oneFile [65] true) none destTree
        ["templates".toList] (["templates".toList] ++ ["a".toList]) "a".toList) := by
  refine ⟨destTree_closed, by decide, fun hsafe => ?_, fun hsafe => ?_⟩
  · have hsmall := hsafe.small
    rw [oneFile_log] at hsmall
    have hbound := hsmall _ _ (List.mem_cons_of_mem _ List.mem_cons_self)
    rw [List.length_replicate] at hbound
    omega
  · obtain ⟨hdest, -⟩ := hsafe.failed .swap (by decide +kernel)
    have hgone := hdest _ (List.prefix_refl _)
    revert hgone
    decide +kernel

end Runs

end Gyre.Template
