/- digest: A tree of files and directories, and the calls that make, write, remove and rename them. -/

import Mathlib.Data.List.Infix
import Mathlib.Logic.Function.Basic

/-!
A path lists its components from the root on; `..` leads back. The tree says nothing about what lies
behind a link: a call that would go through one notes it and stops.
-/

set_option autoImplicit false
set_option relaxedAutoImplicit false

namespace Gyre.Lib.FileTree

abbrev Path := List (List Char)

/-- What a link leads to. -/
inductive Target where
  | nothing
  | file
  | dir
  deriving DecidableEq, Repr

inductive Node where
  | dir
  | file (data : List UInt8)
  | link (target : Target)
  deriving DecidableEq, Repr

abbrev Tree := Path → Option Node

/-- Nothing lies below a path that is not there. -/
def Closed (t : Tree) : Prop := ∀ p q : Path, p <+: q → t p = none → t q = none

/-- What a call has done. -/
inductive Touch where
  | madeDir (p : Path)
  | wrote (p : Path) (bytes : Nat)
  | removed (p : Path)
  | moved (p q : Path)
  | followed (p : Path)
  deriving DecidableEq, Repr

structure Done where
  tree : Tree
  log : List Touch
  ok : Bool

def parentDir : List Char := ['.', '.']

/-- Where a path leads as a directory. -/
inductive Entered where
  | dir (p : Path)
  | missing
  | notDir
  | link (p : Path)
  deriving DecidableEq, Repr

@[grind =] def enter (t : Tree) : (here : Path) → Path → Entered
  | here, [] => .dir here
  | here, c :: rest =>
    if c = parentDir then enter t here.dropLast rest
    else
      match t (here ++ [c]) with
      | some .dir => enter t (here ++ [c]) rest
      | some (.file _) => .notDir
      | some (.link _) => .link (here ++ [c])
      | none => .missing

/-- What comes of making one directory; `already` also stands for a link to a directory. -/
inductive Mkdir where
  | made (p : Path)
  | already
  | missing
  | refused
  | link (p : Path)
  deriving DecidableEq, Repr

@[grind =] def mkdir (t : Tree) (before : Path) (last : List Char) : Mkdir :=
  match enter t [] before with
  | .missing => .missing
  | .notDir => .refused
  | .link p => .link p
  | .dir d =>
    if last = parentDir then .already
    else
      match t (d ++ [last]) with
      | none => .made (d ++ [last])
      | some .dir => .already
      | some (.link .dir) => .already
      | some _ => .refused

/-- `create_dir_all`, with the components of the path from the last one back. -/
@[grind =] def createDirs (t : Tree) : Path → Done
  | [] => ⟨t, [], true⟩
  | last :: before =>
    match mkdir t before.reverse last with
    | .made p => ⟨Function.update t p (some .dir), [.madeDir p], true⟩
    | .already => ⟨t, [], true⟩
    | .refused => ⟨t, [], false⟩
    | .link p => ⟨t, [.followed p], false⟩
    | .missing =>
      let parents := createDirs t before
      if parents.ok then
        match mkdir parents.tree before.reverse last with
        | .made p => ⟨Function.update parents.tree p (some .dir), parents.log ++ [.madeDir p], true⟩
        | .already => parents
        | _ => { parents with ok := false }
      else parents

@[grind =] def createDirAll (t : Tree) (p : Path) : Done := createDirs t p.reverse

/-- The file a path names, when one can be created there. -/
inductive Creatable where
  | at (p : Path)
  | refused
  | link (p : Path)
  deriving DecidableEq, Repr

@[grind =] def creatable (t : Tree) (before : Path) (last : List Char) : Creatable :=
  match enter t [] before with
  | .missing => .refused
  | .notDir => .refused
  | .link p => .link p
  | .dir d =>
    if last = parentDir then .refused
    else
      match t (d ++ [last]) with
      | some .dir => .refused
      | some (.link _) => .link (d ++ [last])
      | _ => .at (d ++ [last])

/-- How writing a file fails: it is not created, or only so many bytes are copied. -/
inductive WriteFault where
  | refused
  | stops (bytes : Nat)
  deriving DecidableEq, Repr

/-- The bytes that are copied. -/
def copied (data : List UInt8) : Option WriteFault → List UInt8
  | some (.stops bytes) => data.take bytes
  | _ => data

/-- `File::create` and the copy of the data. -/
def writeFile (t : Tree) (before : Path) (last : List Char) (data : List UInt8)
    (fault : Option WriteFault) : Done :=
  match creatable t before last with
  | .refused => ⟨t, [], false⟩
  | .link p => ⟨t, [.followed p], false⟩
  | .at p =>
    if fault = some .refused then ⟨t, [], false⟩
    else
      ⟨Function.update t p (some (.file (copied data fault))),
        [.wrote p (copied data fault).length], fault.isNone⟩

/-- `exists`, which looks behind a link. -/
def present (t : Tree) (p : Path) : Bool :=
  match t p with
  | none => false
  | some (.link .nothing) => false
  | some _ => true

/-- `remove_dir_all`. A removal that fails leaves the directory itself and some of what is in it. -/
@[grind =] def removeDirAll (t : Tree) (p : Path) (fault : Option (Path → Bool)) : Done :=
  match t p with
  | none => ⟨t, [], false⟩
  | some (.file _) => ⟨t, [], false⟩
  | some _ =>
    match fault with
    | none => ⟨fun q => if p <+: q then none else t q, [.removed p], true⟩
    | some keeps =>
      ⟨fun q => if p <+: q ∧ q ≠ p ∧ keeps q = false then none else t q, [.removed p], false⟩

/-- `rename` of a directory. -/
@[grind =] def renameDir (t : Tree) (p q : Path) (fails : Bool) : Done :=
  if fails || (t q).isSome then ⟨t, [], false⟩
  else
    ⟨fun r => if q <+: r then t (p ++ r.drop q.length) else if p <+: r then none else t r,
      [.moved p q], true⟩

section Plain

variable {t : Tree} {here p : Path}

/-- Without `..`, a path that can be entered leads where it says, through directories only. -/
theorem enter_plain (hplain : parentDir ∉ p) {d : Path} (h : enter t here p = .dir d) :
    d = here ++ p ∧ ∀ q, q <+: p → q ≠ [] → t (here ++ q) = some .dir := by
  induction p generalizing here with
  | nil =>
    cases h
    refine ⟨(List.append_nil _).symm, fun q hq hne => ?_⟩
    exact absurd (List.prefix_nil.mp hq) hne
  | cons c rest ih =>
    have hc : c ≠ parentDir := fun hc => hplain (hc ▸ List.mem_cons_self)
    have hrest : parentDir ∉ rest := fun hr => hplain (List.mem_cons_of_mem _ hr)
    rw [enter, if_neg hc] at h
    split at h
    · rename_i hdir
      obtain ⟨hd, hdirs⟩ := ih hrest h
      refine ⟨by rw [hd, List.append_assoc, List.singleton_append], fun q hq hne => ?_⟩
      cases q with
      | nil => exact absurd rfl hne
      | cons a q =>
        obtain ⟨rfl, hrestq⟩ := List.cons_prefix_cons.mp hq
        by_cases hq' : q = []
        · subst hq'
          exact hdir
        · have hbelow := hdirs q hrestq hq'
          rwa [List.append_assoc, List.singleton_append] at hbelow
    · cases h
    · cases h
    · cases h

/-- A path through directories only can be entered. -/
theorem enter_of_dirs (hplain : parentDir ∉ p)
    (hdirs : ∀ q, q <+: p → q ≠ [] → t (here ++ q) = some .dir) :
    enter t here p = .dir (here ++ p) := by
  induction p generalizing here with
  | nil => rw [enter, List.append_nil]
  | cons c rest ih =>
    have hc : c ≠ parentDir := fun hc => hplain (hc ▸ List.mem_cons_self)
    have hrest : parentDir ∉ rest := fun hr => hplain (List.mem_cons_of_mem _ hr)
    have hfirst := hdirs [c] (List.prefix_append [c] rest) (List.cons_ne_nil _ _)
    rw [enter, if_neg hc, hfirst]
    dsimp only
    rw [ih hrest fun q hq hne => ?_, List.append_assoc, List.singleton_append]
    have hlonger := hdirs (c :: q) (List.cons_prefix_cons.mpr ⟨rfl, hq⟩) (List.cons_ne_nil _ _)
    rwa [List.append_assoc, List.singleton_append]

/-- A link met on the way lies on the way. -/
theorem enter_link (hplain : parentDir ∉ p) {l : Path} (h : enter t here p = .link l) :
    ∃ q target, q <+: p ∧ q ≠ [] ∧ l = here ++ q ∧ t l = some (.link target) := by
  induction p generalizing here with
  | nil => cases h
  | cons c rest ih =>
    have hc : c ≠ parentDir := fun hc => hplain (hc ▸ List.mem_cons_self)
    have hrest : parentDir ∉ rest := fun hr => hplain (List.mem_cons_of_mem _ hr)
    rw [enter, if_neg hc] at h
    split at h
    · obtain ⟨q, target, hq, -, rfl, hlink⟩ := ih hrest h
      rw [List.append_assoc, List.singleton_append] at hlink ⊢
      exact ⟨c :: q, target, List.cons_prefix_cons.mpr ⟨rfl, hq⟩, List.cons_ne_nil _ _, rfl, hlink⟩
    · cases h
    · rename_i target hlink
      cases h
      exact ⟨[c], target, List.prefix_append [c] rest, List.cons_ne_nil _ _, rfl, hlink⟩
    · cases h

/-- A way through something that is no directory leads nowhere, at most to a link on it. -/
theorem enter_blocked {c : List Char} {rest : Path} (hplain : parentDir ∉ p) (hc : c ≠ parentDir)
    (hblocked : t (here ++ p ++ [c]) ≠ some .dir) :
    (∀ d, enter t here (p ++ c :: rest) ≠ .dir d) ∧
      ∀ l, enter t here (p ++ c :: rest) = .link l → l <+: here ++ p ++ [c] := by
  induction p generalizing here with
  | nil =>
    rw [List.append_nil] at hblocked ⊢
    rw [List.nil_append, enter, if_neg hc]
    split
    · rename_i hdir
      exact absurd hdir hblocked
    · exact ⟨nofun, nofun⟩
    · refine ⟨nofun, fun l hl => ?_⟩
      cases hl
      exact List.prefix_refl _
    · exact ⟨nofun, nofun⟩
  | cons first p ih =>
    have hfirst : first ≠ parentDir := fun h => hplain (h ▸ List.mem_cons_self)
    have hrest : parentDir ∉ p := fun h => hplain (List.mem_cons_of_mem _ h)
    have hpath : here ++ first :: p = here ++ [first] ++ p := by
      rw [List.append_assoc, List.singleton_append]
    rw [hpath] at hblocked ⊢
    rw [List.cons_append, enter, if_neg hfirst]
    split
    · exact ih hrest hblocked
    · exact ⟨nofun, nofun⟩
    · refine ⟨nofun, fun l hl => ?_⟩
      cases hl
      rw [List.append_assoc]
      exact List.prefix_append _ _
    · exact ⟨nofun, nofun⟩

end Plain

section Making

variable {t : Tree} {before p : Path} {last : List Char}

/-- All of a path's components are directories. -/
def AllDirs (t : Tree) (p : Path) : Prop := ∀ q, q <+: p → q ≠ [] → t q = some .dir

theorem mkdir_made (hbefore : parentDir ∉ before) (h : mkdir t before last = .made p) :
    p = before ++ [last] ∧ t p = none ∧ AllDirs t before := by
  unfold mkdir at h
  split at h <;> try cases h
  rename_i d hd
  obtain ⟨rfl, hdirs⟩ := enter_plain hbefore hd
  split at h
  · cases h
  · split at h <;> try cases h
    rename_i hnone
    exact ⟨rfl, hnone, hdirs⟩

theorem mkdir_already (hbefore : parentDir ∉ before) (hlast : last ≠ parentDir)
    (h : mkdir t before last = .already) :
    (t (before ++ [last]) = some .dir ∨ t (before ++ [last]) = some (.link .dir)) ∧
      AllDirs t before := by
  unfold mkdir at h
  split at h <;> try cases h
  rename_i d hd
  obtain ⟨rfl, hdirs⟩ := enter_plain hbefore hd
  rw [if_neg hlast] at h
  split at h <;> try cases h
  · rename_i hdir
    exact ⟨.inl hdir, hdirs⟩
  · rename_i hlink
    exact ⟨.inr hlink, hdirs⟩

theorem mkdir_link (hbefore : parentDir ∉ before) {l : Path} (h : mkdir t before last = .link l) :
    l <+: before ∧ l ≠ [] ∧ ∃ target, t l = some (.link target) := by
  unfold mkdir at h
  split at h <;> try cases h
  · rename_i hl
    obtain ⟨q, target, hq, hne, rfl, hlink⟩ := enter_link hbefore hl
    exact ⟨hq, hne, target, hlink⟩
  · split at h
    · cases h
    · split at h <;> cases h

/-- What making a directory with all above it does: missing directories of the path are made, links
on the way are noted, and nothing else changes. -/
structure MakesDirs (t : Tree) (p : Path) (r : Done) : Prop where
  kept : ∀ q, r.tree q = t q ∨ (t q = none ∧ r.tree q = some .dir ∧ q <+: p ∧ q ≠ [])
  logged : ∀ touch ∈ r.log, (∃ q, q <+: p ∧ q ≠ [] ∧ t q = none ∧ touch = .madeDir q) ∨
    ∃ q target, q <+: p ∧ q ≠ p ∧ q ≠ [] ∧ t q = some (.link target) ∧ touch = .followed q
  above : r.ok = true → ∀ q, q <+: p → q ≠ p → q ≠ [] → r.tree q = some .dir
  made : r.ok = true → p ≠ [] → r.tree p = some .dir ∨ r.tree p = some (.link .dir)
  unmade : r.ok = false → r.tree p = t p

theorem prefix_snoc {q : Path} (h : q <+: before ++ [last]) : q <+: before ∨ q = before ++ [last] := by
  rcases List.prefix_concat_iff.mp h with rfl | h
  · exact .inr rfl
  · exact .inl h

theorem prefix_ne_snoc {q : Path} (h : q <+: before) : q ≠ before ++ [last] := by
  rintro rfl
  have hlength := h.length_le
  rw [List.length_append, List.length_singleton] at hlength
  omega

private theorem makesDirs_made {u : Tree} {log : List Touch} (hbefore : parentDir ∉ before)
    (hu : MakesDirs t before ⟨u, log, true⟩) (h : mkdir u before last = .made p) :
    MakesDirs t (before ++ [last]) ⟨Function.update u p (some .dir), log ++ [.madeDir p], true⟩ := by
  obtain ⟨rfl, hnone, hdirs⟩ := mkdir_made hbefore h
  have hlonger : before <+: before ++ [last] := List.prefix_append _ _
  have hnonempty : before ++ [last] ≠ [] := List.append_ne_nil_of_right_ne_nil _ (List.cons_ne_nil _ _)
  have habsent : t (before ++ [last]) = none := by
    rcases hu.kept (before ++ [last]) with hsame | ⟨habsent, -⟩
    · rw [← hsame]
      exact hnone
    · exact habsent
  constructor
  · intro q
    by_cases hq : q = before ++ [last]
    · subst hq
      exact .inr ⟨habsent, Function.update_self _ _ _, List.prefix_refl _, hnonempty⟩
    · dsimp only
      rw [Function.update_of_ne hq]
      exact (hu.kept q).imp_right fun ⟨hn, hd, hprefix, hne⟩ => ⟨hn, hd, hprefix.trans hlonger, hne⟩
  · intro touch htouch
    rcases List.mem_append.mp htouch with hearlier | hlast
    · rcases hu.logged touch hearlier with ⟨q, hq, hne, hn, rfl⟩ | ⟨q, target, hq, -, hne, hlink, rfl⟩
      · exact .inl ⟨q, hq.trans hlonger, hne, hn, rfl⟩
      · exact .inr ⟨q, target, hq.trans hlonger, prefix_ne_snoc hq, hne, hlink, rfl⟩
    · exact .inl ⟨_, List.prefix_refl _, hnonempty, habsent, List.mem_singleton.mp hlast⟩
  · intro _ q hq hne hnil
    dsimp only
    rw [Function.update_of_ne hne]
    exact hdirs q ((prefix_snoc hq).resolve_right hne) hnil
  · exact fun _ _ => .inl (Function.update_self _ _ _)
  · exact nofun

private theorem makesDirs_already {u : Tree} {log : List Touch} (hbefore : parentDir ∉ before)
    (hlast : last ≠ parentDir) (hu : MakesDirs t before ⟨u, log, true⟩)
    (h : mkdir u before last = .already) : MakesDirs t (before ++ [last]) ⟨u, log, true⟩ := by
  obtain ⟨hthere, hdirs⟩ := mkdir_already hbefore hlast h
  have hlonger : before <+: before ++ [last] := List.prefix_append _ _
  constructor
  · exact fun q => (hu.kept q).imp_right fun ⟨hn, hd, hprefix, hne⟩ =>
      ⟨hn, hd, hprefix.trans hlonger, hne⟩
  · intro touch htouch
    rcases hu.logged touch htouch with ⟨q, hq, hne, hn, rfl⟩ | ⟨q, target, hq, -, hne, hlink, rfl⟩
    · exact .inl ⟨q, hq.trans hlonger, hne, hn, rfl⟩
    · exact .inr ⟨q, target, hq.trans hlonger, prefix_ne_snoc hq, hne, hlink, rfl⟩
  · exact fun _ q hq hne hnil => hdirs q ((prefix_snoc hq).resolve_right hne) hnil
  · exact fun _ _ => hthere
  · exact nofun

private theorem makesDirs_failed {u : Tree} {log : List Touch} {ok : Bool}
    (hu : MakesDirs t before ⟨u, log, ok⟩) : MakesDirs t (before ++ [last]) ⟨u, log, false⟩ := by
  have hlonger : before <+: before ++ [last] := List.prefix_append _ _
  constructor
  · exact fun q => (hu.kept q).imp_right fun ⟨hn, hd, hprefix, hne⟩ =>
      ⟨hn, hd, hprefix.trans hlonger, hne⟩
  · intro touch htouch
    rcases hu.logged touch htouch with ⟨q, hq, hne, hn, rfl⟩ | ⟨q, target, hq, -, hne, hlink, rfl⟩
    · exact .inl ⟨q, hq.trans hlonger, hne, hn, rfl⟩
    · exact .inr ⟨q, target, hq.trans hlonger, prefix_ne_snoc hq, hne, hlink, rfl⟩
  · exact nofun
  · exact nofun
  · exact fun _ => (hu.kept _).resolve_right fun ⟨_, _, hprefix, _⟩ => prefix_ne_snoc hprefix rfl

private theorem makesDirs_nothing (t : Tree) (p : Path) : MakesDirs t p ⟨t, [], false⟩ :=
  ⟨fun _ => .inl rfl, List.forall_mem_nil _, nofun, nofun, fun _ => rfl⟩

private theorem makesDirs_root (t : Tree) (h : AllDirs t before) : MakesDirs t before ⟨t, [], true⟩ :=
  ⟨fun _ => .inl rfl, List.forall_mem_nil _, fun _ q hq _ hnil => h q hq hnil,
    fun _ hne => .inl (h before (List.prefix_refl _) hne), nofun⟩

theorem createDirs_makes (t : Tree) {back : Path} (hplain : parentDir ∉ back) :
    MakesDirs t back.reverse (createDirs t back) := by
  induction back with
  | nil => exact makesDirs_root t fun q hq hne => absurd (List.prefix_nil.mp hq) hne
  | cons last back ih =>
    have hlast : last ≠ parentDir := fun h => hplain (h ▸ List.mem_cons_self)
    have hback : parentDir ∉ back := fun h => hplain (List.mem_cons_of_mem _ h)
    have hbefore : parentDir ∉ back.reverse := fun h => hback (List.mem_reverse.mp h)
    rw [List.reverse_cons, createDirs]
    split
    · rename_i p hmade
      exact makesDirs_made hbefore (makesDirs_root t (mkdir_made hbefore hmade).2.2) hmade
    · rename_i halready
      exact makesDirs_already hbefore hlast
        (makesDirs_root t (mkdir_already hbefore hlast halready).2) halready
    · exact makesDirs_nothing t _
    · rename_i l hlink
      obtain ⟨hl, hne, target, hnode⟩ := mkdir_link hbefore hlink
      refine ⟨fun _ => .inl rfl, fun touch htouch => ?_, nofun, nofun, fun _ => rfl⟩
      rw [List.mem_singleton.mp htouch]
      exact .inr ⟨l, target, hl.trans (List.prefix_append _ _), prefix_ne_snoc hl, hne, hnode, rfl⟩
    · have hparents := ih hback
      by_cases hok : (createDirs t back).ok = true
      · have hparents' : MakesDirs t back.reverse
            ⟨(createDirs t back).tree, (createDirs t back).log, true⟩ := by
          rw [← hok]
          exact hparents
        rw [if_pos hok]
        split
        · rename_i p hmade
          exact makesDirs_made hbefore hparents' hmade
        · rename_i halready
          have hdone := makesDirs_already hbefore hlast hparents' halready
          rw [← hok] at hdone
          exact hdone
        · exact makesDirs_failed hparents
      · rw [if_neg hok]
        rw [Bool.not_eq_true] at hok
        have hdone : MakesDirs t (back.reverse ++ [last]) _ := makesDirs_failed hparents
        rw [← hok] at hdone
        exact hdone

theorem createDirAll_makes (t : Tree) (hplain : parentDir ∉ p) : MakesDirs t p (createDirAll t p) := by
  have hback : parentDir ∉ p.reverse := fun h => hplain (List.mem_reverse.mp h)
  have hmakes := createDirs_makes t hback
  rw [List.reverse_reverse] at hmakes
  exact hmakes

/-- When it succeeds and no link stands at the end, the whole path consists of directories. -/
theorem MakesDirs.allDirs {r : Done} (h : MakesDirs t p r) (hok : r.ok = true)
    (hend : ∀ target, t p ≠ some (.link target)) : AllDirs r.tree p := by
  intro q hq hne
  by_cases hlast : q = p
  · subst hlast
    rcases h.made hok hne with hdir | hlink
    · exact hdir
    · rcases h.kept q with hsame | ⟨-, hdir, -⟩
      · rw [hsame] at hlink
        exact absurd hlink (hend _)
      · exact hdir
  · exact h.above hok q hq hlast hne

/-- Making a whole path leaves nothing below what is missing. -/
theorem MakesDirs.closed {r : Done} (h : MakesDirs t p r) (hok : r.ok = true) (ht : Closed t)
    (hroot : t [] ≠ none) : Closed r.tree := by
  intro q q' hq hnone
  have hsame : t q = none := by
    rcases h.kept q with hsame | ⟨habsent, -⟩
    · rw [← hsame]
      exact hnone
    · exact habsent
  rcases h.kept q' with hsame' | ⟨-, -, hprefix, -⟩
  · rw [hsame']
    exact ht q q' hq hsame
  · by_cases hroot' : q = []
    · rw [hroot'] at hsame
      exact absurd hsame hroot
    · by_cases hend : q = p
      · subst hend
        rcases h.made hok hroot' with hdir | hlink
        · rw [hdir] at hnone
          cases hnone
        · rw [hlink] at hnone
          cases hnone
      · rw [h.above hok q (hq.trans hprefix) hend hroot'] at hnone
        cases hnone

theorem MakesDirs.root {r : Done} (h : MakesDirs t p r) (hroot : t [] ≠ none) : r.tree [] ≠ none := by
  rcases h.kept [] with hsame | ⟨-, -, -, hne⟩
  · rw [hsame]
    exact hroot
  · exact absurd rfl hne

/-- Every component is a directory, or missing. -/
def Open (t : Tree) (p : Path) : Prop := ∀ q, q <+: p → q ≠ [] → t q = none ∨ t q = some .dir

theorem mkdir_of_dirs (hbefore : parentDir ∉ before) (hlast : last ≠ parentDir)
    (hdirs : AllDirs t before) : mkdir t before last =
      match t (before ++ [last]) with
      | none => .made (before ++ [last])
      | some .dir => .already
      | some (.link .dir) => .already
      | some _ => .refused := by
  have henter : enter t [] before = .dir before := enter_of_dirs hbefore hdirs
  rw [mkdir, henter]
  dsimp only
  rw [if_neg hlast]

theorem enter_of_open {here : Path} (hplain : parentDir ∉ p)
    (hopen : ∀ q, q <+: p → q ≠ [] → t (here ++ q) = none ∨ t (here ++ q) = some .dir) :
    enter t here p = .dir (here ++ p) ∨ enter t here p = .missing := by
  induction p generalizing here with
  | nil =>
    left
    rw [enter, List.append_nil]
  | cons c rest ih =>
    have hc : c ≠ parentDir := fun hc => hplain (hc ▸ List.mem_cons_self)
    have hrest : parentDir ∉ rest := fun hr => hplain (List.mem_cons_of_mem _ hr)
    rw [enter, if_neg hc]
    rcases hopen [c] (List.prefix_append [c] rest) (List.cons_ne_nil _ _) with hnone | hdir
    · right
      rw [hnone]
    · rw [hdir]
      dsimp only
      have hbelow : enter t (here ++ [c]) rest = .dir (here ++ [c] ++ rest) ∨
          enter t (here ++ [c]) rest = .missing := by
        refine ih hrest fun q hq _ => ?_
        have hlonger := hopen (c :: q) (List.cons_prefix_cons.mpr ⟨rfl, hq⟩) (List.cons_ne_nil _ _)
        rwa [List.append_assoc, List.singleton_append]
      rwa [List.append_assoc, List.singleton_append] at hbelow

/-- Where every component is a directory or missing, making the path succeeds. -/
theorem createDirs_ok (t : Tree) {back : Path} (hplain : parentDir ∉ back)
    (hopen : Open t back.reverse) : (createDirs t back).ok = true := by
  induction back with
  | nil => rfl
  | cons last back ih =>
    have hlast : last ≠ parentDir := fun h => hplain (h ▸ List.mem_cons_self)
    have hback : parentDir ∉ back := fun h => hplain (List.mem_cons_of_mem _ h)
    have hbefore : parentDir ∉ back.reverse := fun h => hback (List.mem_reverse.mp h)
    rw [List.reverse_cons] at hopen
    have habove : Open t back.reverse := fun q hq => hopen q (hq.trans (List.prefix_append _ _))
    have hthere := hopen _ (List.prefix_refl _)
      (List.append_ne_nil_of_right_ne_nil _ (List.cons_ne_nil last []))
    rw [createDirs]
    have henter : enter t [] back.reverse = .dir back.reverse ∨ enter t [] back.reverse = .missing :=
      enter_of_open hbefore habove
    rcases henter with hdir | hmissing
    · have hdirs : AllDirs t back.reverse := (enter_plain hbefore hdir).2
      rw [mkdir_of_dirs hbefore hlast hdirs]
      rcases hthere with hnone | hmade
      · rw [hnone]
      · rw [hmade]
    · have hmkdir : mkdir t back.reverse last = .missing := by rw [mkdir, hmissing]
      have hparents := ih hback habove
      have hmakes := createDirs_makes t hback
      have hdirs : AllDirs (createDirs t back).tree back.reverse := by
        intro q hq hne
        refine hmakes.allDirs hparents (fun target hlink => ?_) q hq hne
        have hne' : back.reverse ≠ [] := fun h => hne (List.prefix_nil.mp (h ▸ hq))
        rcases habove _ (List.prefix_refl _) hne' with hnone | hdir
        · rw [hnone] at hlink
          cases hlink
        · rw [hdir] at hlink
          cases hlink
      have hsame := (hmakes.kept (back.reverse ++ [last])).resolve_right
        fun ⟨_, _, hprefix, _⟩ => prefix_ne_snoc hprefix rfl
      rw [hmkdir]
      dsimp only
      rw [if_pos hparents, mkdir_of_dirs hbefore hlast hdirs, hsame]
      rcases hthere with hnone | hmade
      · rw [hnone]
      · rw [hmade]
        exact hparents

theorem createDirAll_ok (t : Tree) (hplain : parentDir ∉ p) (hopen : Open t p) :
    (createDirAll t p).ok = true :=
  createDirs_ok t (fun h => hplain (List.mem_reverse.mp h)) (by rwa [List.reverse_reverse])

/-- Making a path that is there changes nothing. -/
theorem createDirAll_of_dirs (hplain : parentDir ∉ p) (hdirs : AllDirs t p) :
    createDirAll t p = ⟨t, [], true⟩ := by
  rcases List.eq_nil_or_concat p with rfl | ⟨before, last, rfl⟩
  · rfl
  · rw [List.concat_eq_append] at hplain hdirs ⊢
    have hbefore : parentDir ∉ before := fun h => hplain (List.mem_append_left _ h)
    have hlast : last ≠ parentDir := fun h =>
      hplain (h ▸ List.mem_append_right _ (List.mem_singleton_self _))
    have habove : AllDirs t before := fun q hq => hdirs q (hq.trans (List.prefix_append _ _))
    have hthere := hdirs _ (List.prefix_refl _)
      (List.append_ne_nil_of_right_ne_nil _ (List.cons_ne_nil last []))
    rw [createDirAll, List.reverse_append, List.reverse_singleton, List.singleton_append, createDirs,
      List.reverse_reverse, mkdir_of_dirs hbefore hlast habove, hthere]

end Making

section Writing

variable {t : Tree} {before p : Path} {last : List Char}

theorem creatable_at (hbefore : parentDir ∉ before) (h : creatable t before last = .at p) :
    p = before ++ [last] ∧ AllDirs t before ∧ t p ≠ some .dir ∧
      ∀ target, t p ≠ some (.link target) := by
  unfold creatable at h
  split at h <;> try cases h
  rename_i d hd
  obtain ⟨rfl, hdirs⟩ := enter_plain hbefore hd
  split at h
  · cases h
  · split at h <;> try cases h
    rename_i hdir hlink
    exact ⟨rfl, hdirs, hdir, hlink⟩

theorem creatable_link (hbefore : parentDir ∉ before) {l : Path}
    (h : creatable t before last = .link l) :
    l <+: before ++ [last] ∧ ∃ target, t l = some (.link target) := by
  unfold creatable at h
  split at h <;> try cases h
  · rename_i hl
    obtain ⟨q, target, hq, -, rfl, hlink⟩ := enter_link hbefore hl
    exact ⟨hq.trans (List.prefix_append _ _), target, hlink⟩
  · rename_i d hd
    obtain ⟨rfl, -⟩ := enter_plain hbefore hd
    split at h
    · cases h
    · split at h <;> try cases h
      rename_i target hlink
      exact ⟨List.prefix_refl _, target, hlink⟩

/-- A node put into a directory leaves nothing below what is missing. -/
theorem Closed.write (ht : Closed t) (hroot : t [] ≠ none) (hdirs : AllDirs t before) (node : Node) :
    Closed (Function.update t (before ++ [last]) (some node)) := by
  intro q q' hq hnone
  have hne : q ≠ before ++ [last] := by
    rintro rfl
    rw [Function.update_self] at hnone
    cases hnone
  rw [Function.update_of_ne hne] at hnone
  by_cases hq' : q' = before ++ [last]
  · subst hq'
    by_cases hroot' : q = []
    · rw [hroot'] at hnone
      exact absurd hnone hroot
    · rw [hdirs q ((prefix_snoc hq).resolve_right hne) hroot'] at hnone
      cases hnone
  · rw [Function.update_of_ne hq']
    exact ht q q' hq hnone

/-- Below directories only, the node itself decides whether a file can be created. -/
theorem creatable_of_dirs (hbefore : parentDir ∉ before) (hlast : last ≠ parentDir)
    (hdirs : AllDirs t before) : creatable t before last =
      match t (before ++ [last]) with
      | some .dir => .refused
      | some (.link _) => .link (before ++ [last])
      | _ => .at (before ++ [last]) := by
  have henter : enter t [] before = .dir before := enter_of_dirs hbefore hdirs
  rw [creatable, henter]
  dsimp only
  rw [if_neg hlast]

/-- Writing a file touches that file, or ends at a link on the way to it. -/
theorem writeFile_logged (hbefore : parentDir ∉ before) (data : List UInt8)
    (fault : Option WriteFault) : ∀ touch ∈ (writeFile t before last data fault).log,
      (∃ n, touch = .wrote (before ++ [last]) n) ∨ ∃ l, l <+: before ++ [last] ∧ touch = .followed l := by
  unfold writeFile
  split
  · exact List.forall_mem_nil _
  · rename_i l hlink
    intro touch htouch
    exact .inr ⟨l, (creatable_link hbefore hlink).1, List.mem_singleton.mp htouch⟩
  · rename_i p hat
    obtain ⟨rfl, -⟩ := creatable_at hbefore hat
    split
    · exact List.forall_mem_nil _
    · intro touch htouch
      exact .inl ⟨_, List.mem_singleton.mp htouch⟩

theorem writeFile_closed (ht : Closed t) (hroot : t [] ≠ none) (hbefore : parentDir ∉ before)
    (data : List UInt8) (fault : Option WriteFault)
    (hok : (writeFile t before last data fault).ok = true) :
    Closed (writeFile t before last data fault).tree ∧
      (writeFile t before last data fault).tree [] ≠ none := by
  unfold writeFile at hok ⊢
  split at hok
  · cases hok
  · cases hok
  · rename_i p hat
    obtain ⟨rfl, hdirs, -⟩ := creatable_at hbefore hat
    split at hok
    · cases hok
    · rename_i hfault
      rw [if_neg hfault]
      have hne : [] ≠ before ++ [last] :=
        (List.append_ne_nil_of_right_ne_nil before (List.cons_ne_nil last [])).symm
      refine ⟨ht.write hroot hdirs _, ?_⟩
      dsimp only
      rw [Function.update_of_ne hne]
      exact hroot

/-- A file below what is no directory is not written. -/
theorem writeFile_blocked {c : List Char} {rest : Path} (hbefore : parentDir ∉ before)
    (hc : c ≠ parentDir) (hblocked : t (before ++ [c]) ≠ some .dir) (data : List UInt8)
    (fault : Option WriteFault) :
    (writeFile t (before ++ c :: rest) last data fault).ok = false ∧
      ∀ touch ∈ (writeFile t (before ++ c :: rest) last data fault).log,
        ∃ l, l <+: before ++ [c] ∧ touch = .followed l := by
  obtain ⟨hno, hlinks⟩ : (∀ d, enter t [] (before ++ c :: rest) ≠ .dir d) ∧
      ∀ l, enter t [] (before ++ c :: rest) = .link l → l <+: before ++ [c] :=
    enter_blocked hbefore hc hblocked
  unfold writeFile creatable
  cases henter : enter t [] (before ++ c :: rest) with
  | dir d => exact absurd henter (hno d)
  | missing => exact ⟨rfl, List.forall_mem_nil _⟩
  | notDir => exact ⟨rfl, List.forall_mem_nil _⟩
  | link l =>
    refine ⟨rfl, fun touch htouch => ?_⟩
    exact ⟨l, hlinks l henter, List.mem_singleton.mp htouch⟩

end Writing

section Removing

variable {t : Tree} {p : Path} {fault : Option (Path → Bool)}

/-- What removing a directory, if it exists, comes to. -/
structure Clears (t : Tree) (p : Path) (fault : Option (Path → Bool)) (r : Done) : Prop where
  kept : ∀ q, ¬ p <+: q → r.tree q = t q
  less : ∀ q, r.tree q = t q ∨ r.tree q = none
  logged : ∀ touch ∈ r.log, touch = .removed p
  gone : r.ok = true → t p ≠ none → t p ≠ some (.link .nothing) → ∀ q, p <+: q → r.tree q = none
  absent : t p = none ∨ t p = some (.link .nothing) → r = ⟨t, [], true⟩
  failed : r.ok = false → r.tree p = t p
  ok_iff : r.ok = true ↔ t p = none ∨ t p = some (.link .nothing) ∨
    fault = none ∧ ∀ data, t p ≠ some (.file data)

theorem Clears.link {r : Done} (h : Clears t p fault r) {q : Path} {target : Target}
    (hlink : r.tree q = some (.link target)) : t q = some (.link target) := by
  rcases h.less q with hsame | hnone
  · rw [← hsame]
    exact hlink
  · rw [hnone] at hlink
    cases hlink

theorem removeDirAll_kept {q : Path} (h : ¬ p <+: q) : (removeDirAll t p fault).tree q = t q := by
  unfold removeDirAll
  split
  · rfl
  · rfl
  · split
    · exact if_neg h
    · exact if_neg fun hq => h hq.1

theorem removeDirAll_less (q : Path) :
    (removeDirAll t p fault).tree q = t q ∨ (removeDirAll t p fault).tree q = none := by
  unfold removeDirAll
  split
  · exact .inl rfl
  · exact .inl rfl
  · split
    · dsimp only
      split
      · exact .inr rfl
      · exact .inl rfl
    · dsimp only
      split
      · exact .inr rfl
      · exact .inl rfl

theorem removeDirAll_link {q : Path} {target : Target}
    (h : (removeDirAll t p fault).tree q = some (.link target)) : t q = some (.link target) := by
  have hless : (removeDirAll t p fault).tree q = t q ∨ _ := removeDirAll_less q
  rcases hless with hsame | hnone
  · rw [← hsame]
    exact h
  · rw [hnone] at h
    cases h

theorem removeDirAll_logged : ∀ touch ∈ (removeDirAll t p fault).log, touch = .removed p := by
  unfold removeDirAll
  split
  · exact List.forall_mem_nil _
  · exact List.forall_mem_nil _
  · split <;> exact fun touch htouch => List.mem_singleton.mp htouch

theorem removeDirAll_gone (h : (removeDirAll t p fault).ok = true) {q : Path} (hq : p <+: q) :
    (removeDirAll t p fault).tree q = none := by
  unfold removeDirAll at h ⊢
  split at h
  · cases h
  · cases h
  · split at h
    · exact if_pos hq
    · cases h

theorem removeDirAll_failed (h : (removeDirAll t p fault).ok = false) :
    (removeDirAll t p fault).tree p = t p := by
  unfold removeDirAll at h ⊢
  split at h
  · rfl
  · rfl
  · split at h
    · cases h
    · exact if_neg fun hp => hp.2.1 rfl

theorem removeDirAll_ok : (removeDirAll t p fault).ok = true ↔
    t p ≠ none ∧ fault = none ∧ ∀ data, t p ≠ some (.file data) := by
  unfold removeDirAll
  cases hp : t p with
  | none => simp
  | some node =>
    cases node with
    | file data => simp
    | dir => cases fault <;> simp
    | link target => cases fault <;> simp

/-- A directory is gone after its removal exactly if that did not fail. -/
theorem removeDirAll_dir (h : t p = some .dir) :
    (removeDirAll t p fault).tree p ≠ some .dir ↔ fault = none := by
  cases fault with
  | none =>
    have hok : (removeDirAll t p none).ok = true := by rw [removeDirAll, h]
    rw [removeDirAll_gone hok (List.prefix_refl _)]
    exact iff_of_true nofun rfl
  | some keeps =>
    have hfailed : (removeDirAll t p (some keeps)).ok = false := by rw [removeDirAll, h]
    rw [removeDirAll_failed hfailed, h]
    exact iff_of_false (fun hdir => hdir rfl) nofun

theorem present_iff : present t p = true ↔ t p ≠ none ∧ t p ≠ some (.link .nothing) := by
  unfold present
  split
  · simp_all
  · simp_all
  · simp_all

theorem clears (t : Tree) (p : Path) (fault : Option (Path → Bool)) :
    Clears t p fault (if present t p then removeDirAll t p fault else ⟨t, [], true⟩) := by
  by_cases hp : present t p = true
  · obtain ⟨hthere, hbehind⟩ := present_iff.mp hp
    rw [if_pos hp]
    refine ⟨fun q hq => removeDirAll_kept hq, removeDirAll_less, removeDirAll_logged,
      fun hok _ _ q hq => removeDirAll_gone hok hq, fun h => ?_, removeDirAll_failed, ?_⟩
    · exact absurd h (not_or.mpr ⟨hthere, hbehind⟩)
    · rw [removeDirAll_ok]
      constructor
      · exact fun h => .inr (.inr h.2)
      · rintro (h | h | h)
        · exact absurd h hthere
        · exact absurd h hbehind
        · exact ⟨hthere, h⟩
  · have habsent : t p = none ∨ t p = some (.link .nothing) := by
      by_contra h
      exact hp (present_iff.mpr (not_or.mp h))
    rw [if_neg hp]
    refine ⟨fun _ _ => rfl, fun _ => .inl rfl, List.forall_mem_nil _, fun _ hthere hbehind => ?_,
      fun _ => rfl, fun _ => rfl, ?_⟩
    · exact absurd habsent (not_or.mpr ⟨hthere, hbehind⟩)
    · refine iff_of_true rfl ?_
      rcases habsent with h | h
      · exact .inl h
      · exact .inr (.inl h)

theorem renameDir_ok {q : Path} {fails : Bool} :
    (renameDir t p q fails).ok = true ↔ fails = false ∧ t q = none := by
  unfold renameDir
  cases fails with
  | true => simp
  | false =>
    cases hq : t q with
    | none => simp
    | some node => simp

theorem renameDir_eq {q : Path} {fails : Bool} (h : (renameDir t p q fails).ok = true) :
    renameDir t p q fails =
      ⟨fun r => if q <+: r then t (p ++ r.drop q.length) else if p <+: r then none else t r,
        [.moved p q], true⟩ := by
  obtain ⟨rfl, hq⟩ := renameDir_ok.mp h
  rw [renameDir, hq]
  rfl

end Removing

end Gyre.Lib.FileTree
