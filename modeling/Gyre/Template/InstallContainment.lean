/- digest: An installation writes to the cache, the template's subdirectory and the directory beside it. -/

import Gyre.Template.ExtractionSafety
import Gyre.Template.Install

set_option autoImplicit false
set_option relaxedAutoImplicit false

namespace Gyre.Template

open Gyre.Lib Gyre.Lib.FileTree

section Statement

variable (w : InstallWorld) (gyreDir : Path) (t : Tree)

/-- The template's subdirectory. -/
def installDir (author name : List Char) : Path :=
  templatesDir gyreDir ++ components (subdirectory author name)

/-- The staging directory beside a destination. -/
def beside (dest : Path) : Path := staging w.extract dest.dropLast (dest.getLastD [])

/-- The calls an installation may make: directories on the way to the cache and to the subdirectory,
a file in the cache, and the extraction beside the subdirectory. -/
def Stays (dest : Path) : Touch → Prop
  | .madeDir q => q <+: templateCacheDir gyreDir ∨ q <+: dest ∨ beside w dest <+: q
  | .wrote q _ => (templateCacheDir gyreDir <+: q ∧ q ≠ templateCacheDir gyreDir) ∨
      (beside w dest <+: q ∧ q ≠ beside w dest)
  | .removed q => q = beside w dest ∨ q = dest
  | .moved p q => p = beside w dest ∧ q = dest
  | .followed q => q <+: templateCacheDir gyreDir ∨ templateCacheDir gyreDir <+: q ∨ q <+: dest

/-- No `..` in the tarball's place in the cache nor in the subdirectory; or the tarball's place has a
directory of its own that the cache does not have. -/
def Orderly (author name version : List Char) : Prop :=
  (parentDir ∉ components (cacheFileName author name version) ∧
      parentDir ∉ components (subdirectory author name)) ∨
    ∃ first second rest, components (cacheFileName author name version) = first :: second :: rest ∧
      t (templateCacheDir gyreDir ++ [first]) ≠ some .dir

end Statement

section Names

variable {author : List Char}

/-- The first component keeps the author and the dash. -/
theorem components_dash (rest : List Char) (hauthor : '/' ∉ author) : ∃ first others,
    components (author ++ '-' :: rest) = first :: others ∧ '-' ∈ first := by
  have hkept : ∀ piece : List Char, '-' ∈ piece → (!piece.isEmpty && piece != ['.']) = true := by
    intro piece hdash
    rw [Bool.and_eq_true, Bool.not_eq_true', List.isEmpty_eq_false_iff, bne_iff_ne]
    refine ⟨List.ne_nil_of_mem hdash, fun hdot => ?_⟩
    rw [hdot] at hdash
    cases List.mem_singleton.mp hdash
  have hdash : ∀ piece : List Char, '-' ∈ author ++ '-' :: piece :=
    fun piece => List.mem_append_right _ List.mem_cons_self
  have hslash : ∀ piece : List Char, '/' ∉ piece → '/' ∉ author ++ '-' :: piece := by
    intro piece hpiece hmem
    rcases List.mem_append.mp hmem with hmem | hmem
    · exact hauthor hmem
    · rcases List.mem_cons.mp hmem with hslash | hmem
      · cases hslash
      · exact hpiece hmem
  rw [components]
  by_cases hrest : '/' ∈ rest
  · obtain ⟨before, after, hsplit, hbefore⟩ := List.eq_append_cons_of_mem hrest
    have hwhole : author ++ '-' :: rest = (author ++ '-' :: before) ++ '/' :: after := by
      rw [hsplit, List.append_assoc, List.cons_append]
    rw [hwhole, List.splitOn_append_cons_self_of_not_mem (hslash before hbefore), List.filter_cons,
      if_pos (hkept _ (hdash before))]
    exact ⟨_, _, rfl, hdash before⟩
  · rw [List.splitOn_eq_singleton (hslash rest hrest), List.filter_cons, if_pos (hkept _ (hdash rest))]
    exact ⟨_, _, rfl, hdash rest⟩

theorem components_dash_ne_nil (rest : List Char) (hauthor : '/' ∉ author) :
    components (author ++ '-' :: rest) ≠ [] := by
  obtain ⟨first, others, hsplit, -⟩ := components_dash rest hauthor
  rw [hsplit]
  exact List.cons_ne_nil _ _

theorem exists_snoc {p : Path} (h : p ≠ []) : ∃ before last, p = before ++ [last] :=
  ⟨p.dropLast, p.getLast h, (List.dropLast_append_getLast h).symm⟩

theorem resolveName_author (input : List Char) : '/' ∉ (resolveName input).1 := by
  unfold resolveName
  split
  · rename_i author name hsplit
    exact Text.notMem_of_splitFirst hsplit
  · exact (by decide : '/' ∉ "sac916".toList)

theorem plain_gyreDir {gyreDir : Path} (h : parentDir ∉ gyreDir) :
    parentDir ∉ templateCacheDir gyreDir ∧ parentDir ∉ templatesDir gyreDir := by
  constructor
  · intro hmem
    rcases List.mem_append.mp hmem with hmem | hmem
    · exact h hmem
    · revert hmem
      decide
  · intro hmem
    rcases List.mem_append.mp hmem with hmem | hmem
    · exact h hmem
    · revert hmem
      decide

end Names

section Steps

variable {w : InstallWorld} {gyreDir : Path} {t : Tree} {dest parent : Path} {name : List Char}

theorem stays_cacheDir (hcache : parentDir ∉ templateCacheDir gyreDir) (fails : Bool) :
    ∀ touch ∈ (makeDirs t fails (templateCacheDir gyreDir)).log, Stays w gyreDir dest touch := by
  intro touch htouch
  rcases (makeDirs_makes t fails hcache).logged touch htouch with ⟨q, hq, -, -, rfl⟩ |
    ⟨q, target, hq, -, -, -, rfl⟩
  · exact .inl hq
  · exact .inl hq

theorem stays_installDir (hdest : parentDir ∉ dest) (fails : Bool) :
    ∀ touch ∈ (makeDirs t fails dest).log, Stays w gyreDir dest touch := by
  intro touch htouch
  rcases (makeDirs_makes t fails hdest).logged touch htouch with ⟨q, hq, -, -, rfl⟩ |
    ⟨q, target, hq, -, -, -, rfl⟩
  · exact .inr (.inl hq)
  · exact .inr (.inr hq)

theorem stays_cacheFile {before : Path} {last : List Char}
    (hplain : parentDir ∉ templateCacheDir gyreDir ++ before) (bytes : List UInt8)
    (fault : Option WriteFault) :
    ∀ touch ∈ (writeFile t (templateCacheDir gyreDir ++ before) last bytes fault).log,
      Stays w gyreDir dest touch := by
  intro touch htouch
  rcases writeFile_logged hplain bytes fault touch htouch with ⟨n, rfl⟩ | ⟨l, hl, rfl⟩
  · rw [List.append_assoc]
    refine .inl ⟨List.prefix_append _ _, fun heq => ?_⟩
    have hnil := List.append_right_eq_self.mp heq
    exact List.append_ne_nil_of_right_ne_nil before (List.cons_ne_nil last []) hnil
  · rw [List.append_assoc] at hl
    rcases List.prefix_or_prefix_of_prefix hl (List.prefix_append _ _) with hcache | hcache
    · exact .inl hcache
    · exact .inr (.inl hcache)

theorem stays_blockedFile {first last : List Char} {rest : Path}
    (hcache : parentDir ∉ templateCacheDir gyreDir) (hfirst : first ≠ parentDir)
    (hblocked : t (templateCacheDir gyreDir ++ [first]) ≠ some .dir) (bytes : List UInt8)
    (fault : Option WriteFault) :
    (writeFile t (templateCacheDir gyreDir ++ first :: rest) last bytes fault).ok = false ∧
      ∀ touch ∈ (writeFile t (templateCacheDir gyreDir ++ first :: rest) last bytes fault).log,
        Stays w gyreDir dest touch := by
  obtain ⟨hfailed, hlog⟩ :
      (writeFile t (templateCacheDir gyreDir ++ first :: rest) last bytes fault).ok = false ∧ _ :=
    writeFile_blocked hcache hfirst hblocked bytes fault
  refine ⟨hfailed, fun touch htouch => ?_⟩
  obtain ⟨l, hl, rfl⟩ := hlog touch htouch
  rcases prefix_snoc hl with hl | rfl
  · exact .inl hl
  · exact .inr (.inl (List.prefix_append _ _))

theorem beside_snoc (tarball : Except String (List UInt8)) :
    staging { w.extract with tarball := tarball } parent name = beside w (parent ++ [name]) := by
  rw [beside, List.dropLast_concat, List.getLastD_concat]
  rfl

theorem stays_of_allowed {tarball : Except String (List UInt8)} {touch : Touch}
    (h : Allowed { w.extract with tarball := tarball } parent name touch) :
    Stays w gyreDir (parent ++ [name]) touch := by
  cases touch with
  | madeDir q =>
    rcases h with hq | hq
    · exact .inr (.inl (hq.trans (List.prefix_append _ _)))
    · rw [beside_snoc] at hq
      exact .inr (.inr hq)
  | wrote q n =>
    rw [Allowed, beside_snoc] at h
    exact .inr h
  | removed q =>
    rw [Allowed, beside_snoc] at h
    exact h
  | moved p q =>
    rw [Allowed, beside_snoc] at h
    exact h
  | followed q => exact .inr (.inr (List.IsPrefix.trans h (List.prefix_append _ _)))

/-- Extracting into a plain path stays beside it. -/
theorem stays_extractAt (ht : Closed t) (hdest : parentDir ∉ parent ++ [name])
    (tarball : Except String (List UInt8)) :
    ∀ touch ∈ (extractAt { w.extract with tarball := tarball } t (parent ++ [name])).log,
      Stays w gyreDir (parent ++ [name]) touch := by
  have hparent : parentDir ∉ parent := fun h => hdest (List.mem_append_left _ h)
  have hname : name ≠ parentDir :=
    fun h => hdest (h ▸ List.mem_append_right _ (List.mem_singleton_self _))
  rw [extractAt, List.dropLast_concat]
  split
  · rename_i d hd
    obtain ⟨rfl, -⟩ := enter_plain hparent hd
    dsimp only
    rw [List.getLastD_concat, if_neg hname]
    intro touch htouch
    exact stays_of_allowed
      ((extraction_outcome _ none name ht hparent).1.contained touch htouch)
  · rename_i l hl
    intro touch htouch
    obtain ⟨q, -, hq, -, rfl, -⟩ := enter_link hparent hl
    rw [List.mem_singleton.mp htouch]
    exact .inr (.inr (hq.trans (List.prefix_append _ _)))
  · exact List.forall_mem_nil _

/-- From the downloaded bytes on, where no path has a `..` in it. -/
theorem stays_installBytes {file : Path} {last : List Char} (ht : Closed t) (hroot : t [] ≠ none)
    (hcache : parentDir ∉ templateCacheDir gyreDir ++ file) (hdest : parentDir ∉ parent ++ [name])
    (bytes : List UInt8) :
    ∀ touch ∈ (installBytes w t (templateCacheDir gyreDir ++ file ++ [last]) (parent ++ [name]) bytes).log,
      Stays w gyreDir (parent ++ [name]) touch := by
  have hwrite : ∀ touch ∈ (writeFile t (templateCacheDir gyreDir ++ file) last bytes w.cacheWrite).log,
      Stays w gyreDir (parent ++ [name]) touch := stays_cacheFile hcache bytes w.cacheWrite
  rw [installBytes, List.dropLast_concat, List.getLastD_concat]
  dsimp only
  generalize hwritten : writeFile t (templateCacheDir gyreDir ++ file) last bytes w.cacheWrite = written
    at hwrite
  by_cases hok : written.ok = true
  · obtain ⟨hclosed, hroot'⟩ : Closed written.tree ∧ written.tree [] ≠ none := by
      rw [← hwritten] at hok ⊢
      exact writeFile_closed ht hroot hcache bytes w.cacheWrite hok
    have hmakes := makeDirs_makes written.tree w.installFails hdest
    have hmade : ∀ touch ∈ written.log ++ (makeDirs written.tree w.installFails (parent ++ [name])).log,
        Stays w gyreDir (parent ++ [name]) touch := by
      intro touch htouch
      rcases List.mem_append.mp htouch with htouch | htouch
      · exact hwrite touch htouch
      · exact stays_installDir hdest w.installFails touch htouch
    rw [hok, Bool.not_true, if_neg Bool.false_ne_true]
    split
    · exact hmade
    · rename_i hgo
      have hmadeOk : (makeDirs written.tree w.installFails (parent ++ [name])).ok = true := by
        rw [Bool.or_eq_true, not_or, Bool.not_eq_true', Bool.not_eq_false] at hgo
        exact hgo.1
      intro touch htouch
      rcases List.mem_append.mp htouch with htouch | htouch
      · exact hmade touch htouch
      · exact stays_extractAt (hmakes.closed hmadeOk hclosed hroot') hdest _ touch htouch
  · rw [Bool.not_eq_true] at hok
    rw [hok, Bool.not_false, if_pos rfl]
    exact hwrite

/-- A tarball that cannot be written ends the installation. -/
theorem stays_blockedBytes {first second : List Char} {rest : Path}
    (hcache : parentDir ∉ templateCacheDir gyreDir) (hfirst : first ≠ parentDir)
    (hblocked : t (templateCacheDir gyreDir ++ [first]) ≠ some .dir) (bytes : List UInt8) :
    ∀ touch ∈ (installBytes w t (templateCacheDir gyreDir ++ first :: second :: rest) dest bytes).log,
      Stays w gyreDir dest touch := by
  have hdrop : (templateCacheDir gyreDir ++ first :: second :: rest).dropLast =
      templateCacheDir gyreDir ++ first :: (second :: rest).dropLast := by
    rw [List.dropLast_append_of_ne_nil (List.cons_ne_nil _ _), List.dropLast_cons_cons]
  rw [installBytes, hdrop]
  dsimp only
  generalize (templateCacheDir gyreDir ++ first :: second :: rest).getLastD [] = last
  obtain ⟨hfailed, hlog⟩ : (writeFile t (templateCacheDir gyreDir ++ first :: (second :: rest).dropLast)
      last bytes w.cacheWrite).ok = false ∧ ∀ touch ∈ (writeFile t
        (templateCacheDir gyreDir ++ first :: (second :: rest).dropLast) last bytes w.cacheWrite).log,
      Stays w gyreDir dest touch := stays_blockedFile hcache hfirst hblocked bytes w.cacheWrite
  rw [hfailed, Bool.not_false, if_pos rfl]
  exact hlog

end Steps

/-- Where no path has a `..`, or the tarball's place cannot be written, an installation makes
directories on its way, writes one file below the cache, and for the rest keeps to the template's
subdirectory and to the staging directory beside it, both below the templates. -/
theorem install_stays (w : InstallWorld) (gyreDir : Path) (t : Tree) (input : List Char)
    (hdir : parentDir ∉ gyreDir) (ht : Closed t) (hroot : t [] ≠ none)
    (horderly : ∀ found, w.resolveMeta (resolveName input).1 (resolveName input).2 = some found →
      Orderly gyreDir t (resolveName input).1 (resolveName input).2 found.version) :
    let dest := installDir gyreDir (resolveName input).1 (resolveName input).2
    templatesDir gyreDir <+: dest.dropLast ∧
      ∀ touch ∈ (install w gyreDir t input).log, Stays w gyreDir dest touch := by
  have hauthor := resolveName_author input
  generalize hnames : resolveName input = names at hauthor horderly
  obtain ⟨author, name⟩ := names
  dsimp only at hauthor horderly ⊢
  obtain ⟨hcache, htemplates⟩ := plain_gyreDir hdir
  obtain ⟨before, last, hplace⟩ := exists_snoc (components_dash_ne_nil name hauthor)
  have hdest : installDir gyreDir author name = templatesDir gyreDir ++ before ++ [last] := by
    rw [List.append_assoc, ← hplace]
    rfl
  refine ⟨?_, ?_⟩
  · rw [hdest, List.dropLast_concat]
    exact List.prefix_append _ _
  · rw [install, hnames]
    dsimp only
    cases hfound : w.resolveMeta author name with
    | none => exact List.forall_mem_nil _
    | some found =>
      have hmakes := makeDirs_makes t w.cacheFails hcache
      have hmade : ∀ touch ∈ (makeDirs t w.cacheFails (templateCacheDir gyreDir)).log,
          Stays w gyreDir (installDir gyreDir author name) touch := stays_cacheDir hcache w.cacheFails
      dsimp only
      split
      · exact hmade
      · rename_i hok
        rw [Bool.not_eq_true', Bool.not_eq_false] at hok
        cases w.download with
        | cut => exact hmade
        | unavailable => exact hmade
        | success bytes =>
          intro touch htouch
          rcases List.mem_append.mp htouch with htouch | htouch
          · exact hmade touch htouch
          · rcases horderly found hfound with ⟨hfile, hsub⟩ | ⟨first, second, rest, hfile, hblocked⟩
            · obtain ⟨file, end', hend⟩ :=
                exists_snoc (components_dash_ne_nil (name ++ '-' :: (found.version ++ ".gyre.tar.gz".toList))
                  hauthor)
              have hend' : components (cacheFileName author name found.version) = file ++ [end'] := hend
              have hwhole : parentDir ∉ templateCacheDir gyreDir ++ file := by
                intro hdots
                rcases List.mem_append.mp hdots with hdots | hdots
                · exact hcache hdots
                · exact hfile (hend' ▸ List.mem_append_left _ hdots)
              have hplain : parentDir ∉ templatesDir gyreDir ++ before ++ [last] := by
                rw [List.append_assoc, ← hplace]
                exact fun hdots => (List.mem_append.mp hdots).elim htemplates hsub
              change touch ∈ (installBytes w _ _ (installDir gyreDir author name) bytes).log at htouch
              rw [hend', hdest, ← List.append_assoc] at htouch
              rw [hdest]
              exact stays_installBytes (hmakes.closed hok ht hroot) (hmakes.root hroot) hwhole hplain bytes
                touch htouch
            · obtain ⟨first', others, hfirst, hdash⟩ :=
                components_dash (name ++ '-' :: (found.version ++ ".gyre.tar.gz".toList)) hauthor
              have hsame : first :: second :: rest = first' :: others := hfile.symm.trans hfirst
              have hne : first ≠ parentDir := by
                cases hsame
                rintro rfl
                revert hdash
                decide
              have hstill : (makeDirs t w.cacheFails (templateCacheDir gyreDir)).tree
                  (templateCacheDir gyreDir ++ [first]) ≠ some .dir := by
                rcases hmakes.kept (templateCacheDir gyreDir ++ [first]) with hkept | ⟨-, -, hprefix, -⟩
                · rw [hkept]
                  exact hblocked
                · exact absurd rfl (prefix_ne_snoc hprefix)
              rw [hfile] at htouch
              exact stays_blockedBytes hcache hne hstill bytes touch htouch

section Runs

/-- A file or a directory is written, removed or moved below the cache or the subdirectory only. -/
def BelowOwn (gyreDir dest : Path) : Touch → Prop
  | .wrote q _ => templateCacheDir gyreDir <+: q ∨ dest <+: q
  | .removed q => templateCacheDir gyreDir <+: q ∨ dest <+: q
  | .moved p q => dest <+: p ∧ dest <+: q
  | _ => True

private def userGyreDir : Path := ["home".toList, ".gyre".toList]

/-- The cache has a directory in it. -/
private def userTree : Tree := fun p =>
  if p <+: userGyreDir ++ ["template-cache".toList, "a-x".toList] then some .dir else none

private theorem userTree_closed : Closed userTree := by
  intro p q hpq hp
  unfold userTree at hp ⊢
  split at hp
  · cases hp
  · rename_i hout
    exact if_neg fun hq => hout (hpq.trans hq)

/-- The registry has no metadata, and a tarball with one file. -/
private def soulOnly : InstallWorld where
  metadata := .refused
  download := .success [1]
  cacheFails := false
  cacheWrite := none
  installFails := false
  permissionsFail := false
  readFails := false
  extract := {
    tarball := .ok []
    sha256 := fun _ => []
    entries := fun _ => [.ok ⟨.ok "soul.md".toList, .regular, some 1, [65]⟩]
    nanos := 0
    leftover := none
    stagingFails := false
    entryFaults := fun _ => ⟨false, none⟩
    rollback := none
    oldDest := none
    renameFails := false
    cleanup := none }

theorem install_stays_bare : let dest := installDir userGyreDir "sac916".toList "b".toList
    templatesDir userGyreDir <+: dest.dropLast ∧
      ∀ touch ∈ (install soulOnly userGyreDir userTree "b".toList).log, Stays soulOnly userGyreDir dest touch := by
  have hdir : parentDir ∉ userGyreDir := by decide
  have hroot : userTree [] ≠ none := by decide
  refine install_stays soulOnly userGyreDir userTree "b".toList hdir userTree_closed hroot ?_
  intro found hfound
  cases hfound
  exact .inl (by decide +kernel)

/-- The file of a bare template is first written beside its subdirectory; and a name with `..` in it
leads out of the cache through a directory there. -/
theorem install_strays : Closed userTree ∧ parentDir ∉ userGyreDir ∧
    (¬ ∀ touch ∈ (install soulOnly userGyreDir userTree "b".toList).log,
      BelowOwn userGyreDir (installDir userGyreDir "sac916".toList "b".toList) touch) ∧
    ¬ ∀ touch ∈ (install soulOnly userGyreDir userTree "a/x/../../../evil".toList).log,
      BelowOwn userGyreDir (installDir userGyreDir "a".toList "x/../../../evil".toList) touch := by
  refine ⟨userTree_closed, by decide, fun h => ?_, fun h => ?_⟩
  · have hwrote := h (.wrote (userGyreDir ++ ["templates".toList, ".gyre-extract-sac916-b-0".toList,
      "soul.md".toList]) 1) (by decide +kernel)
    revert hwrote
    simp only [BelowOwn]
    decide +kernel
  · have hwrote := h (.wrote ["home".toList, "evil-0.0.0.gyre.tar.gz".toList] 1) (by decide +kernel)
    revert hwrote
    simp only [BelowOwn]
    decide +kernel

end Runs

end Gyre.Template
