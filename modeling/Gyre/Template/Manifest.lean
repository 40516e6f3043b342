/- digest: Which template manifests are accepted, and by which grammar. -/

import Gyre.Lib.Decimal
import Gyre.Lib.Lines

set_option autoImplicit false
set_option relaxedAutoImplicit false

namespace Gyre.Template

open Gyre.Lib

structure RequiresSection where
  tier : List Char
  deriving DecidableEq, Repr

/-- What `validateManifest` reads of a manifest. -/
structure TemplateSection where
  name : List Char
  version : List Char
  tags : List String
  requires : RequiresSection
  deriving DecidableEq, Repr

def validTiers : List (List Char) :=
  ["free".toList, "standard".toList, "pro".toList, "enterprise".toList]

/-- A letter or a digit of a name. -/
def isNameStart (c : Char) : Bool := c.isLower || c.isDigit

def isNameChar (c : Char) : Bool := isNameStart c || c == '-'

def validateManifest (t : TemplateSection) : Except String Unit :=
  let parts := t.version.splitOn '.'
  if t.name = [] then .error "manifest.toml: template.name is required"
  else if !t.name.all isNameChar then
    .error s!"manifest.toml: template.name '{String.ofList t.name}' must match [a-z0-9][a-z0-9-]*"
  else if parts.length ≠ 3 || parts.any fun p => (Decimal.parse UInt32.size p).isNone then
    .error s!"manifest.toml: template.version '{String.ofList t.version}' must be semver (X.Y.Z)"
  else if !validTiers.contains t.requires.tier then
    .error (s!"manifest.toml: template.requires.tier '{String.ofList t.requires.tier}' must be one of: " ++
      String.ofList (", ".toList.intercalate validTiers))
  else if 10 < t.tags.length then .error "manifest.toml: template.tags must have at most 10 entries"
  else .ok ()

section Grammar

/-- `[a-z0-9][a-z0-9-]*` -/
def IsName (s : List Char) : Prop :=
  ∃ c rest, s = c :: rest ∧ isNameStart c = true ∧ ∀ d ∈ rest, isNameChar d = true

/-- `X.Y.Z` -/
def ThreeParts (P : List Char → Prop) (s : List Char) : Prop :=
  ∃ x y z, s = x ++ '.' :: (y ++ '.' :: z) ∧ P x ∧ P y ∧ P z

/-- The grammar that the manifest's documentation gives. -/
structure Documented (t : TemplateSection) : Prop where
  name : IsName t.name
  version : ThreeParts (Decimal.IsNumeral UInt32.size) t.version
  tier : t.requires.tier ∈ validTiers
  tags : t.tags.length ≤ 10

/-- No sign, path separator, dot segment or leading hyphen. -/
structure Harmless (s : List Char) : Prop where
  plus : '+' ∉ s
  slash : '/' ∉ s
  backslash : '\\' ∉ s
  dots : s ≠ ['.'] ∧ s ≠ ['.', '.']
  hyphen : s.head? ≠ some '-'

/-- A part of a version that may have a plus sign. -/
def IsSigned (s : List Char) : Prop :=
  Decimal.IsNumeral UInt32.size s ∨ ∃ digits, s = '+' :: digits ∧ Decimal.IsNumeral UInt32.size digits

/-- The grammar up to the first character of a name and of a version's parts. -/
structure Loose (t : TemplateSection) : Prop where
  name : t.name ≠ [] ∧ ∀ c ∈ t.name, isNameChar c = true
  version : ThreeParts IsSigned t.version
  tier : t.requires.tier ∈ validTiers
  tags : t.tags.length ≤ 10

/-- A manifest that is in the grammar but for a hyphen that begins its name or a plus sign that begins
a part of its version. -/
def OffByASign (t : TemplateSection) : Prop :=
  Loose t ∧ (t.name.head? = some '-' ∨ '+' ∈ t.version)

end Grammar

section Parts

variable {P : List Char → Prop} {s : List Char}

theorem threeParts_iff (hP : ∀ x, P x → '.' ∉ x) :
    ThreeParts P s ↔ (s.splitOn '.').length = 3 ∧ ∀ p ∈ s.splitOn '.', P p := by
  constructor
  · rintro ⟨x, y, z, rfl, hx, hy, hz⟩
    have hsplit : (x ++ '.' :: (y ++ '.' :: z)).splitOn '.' = [x, y, z] := by
      rw [List.splitOn_append_cons_self_of_not_mem (hP x hx),
        List.splitOn_append_cons_self_of_not_mem (hP y hy), List.splitOn_eq_singleton (hP z hz)]
    rw [hsplit]
    refine ⟨rfl, fun p hp => ?_⟩
    simp only [List.mem_cons, List.not_mem_nil, or_false] at hp
    rcases hp with rfl | rfl | rfl
    · exact hx
    · exact hy
    · exact hz
  · rintro ⟨hlength, hparts⟩
    obtain ⟨x, y, z, hsplit⟩ := List.length_eq_three.mp hlength
    refine ⟨x, y, z, ?_, hparts x (by simp [hsplit]), hparts y (by simp [hsplit]),
      hparts z (by simp [hsplit])⟩
    have hjoin : ['.'].intercalate (s.splitOn '.') = s := List.intercalate_splitOn '.'
    rw [hsplit] at hjoin
    rw [← hjoin]
    simp [List.intercalate]

theorem dot_notMem_numeral {bound : Nat} {x : List Char} (h : Decimal.IsNumeral bound x) : '.' ∉ x :=
  fun hmem => absurd (h.2.1 '.' hmem) (by decide)

theorem dot_notMem_signed {x : List Char} (h : IsSigned x) : '.' ∉ x := by
  rcases h with h | ⟨digits, rfl, h⟩
  · exact dot_notMem_numeral h
  · intro hmem
    rcases List.mem_cons.mp hmem with hdot | hmem
    · exact absurd hdot (by decide)
    · exact dot_notMem_numeral h hmem

theorem numeral_iff_signed {x : List Char} :
    Decimal.IsNumeral UInt32.size x ↔ IsSigned x ∧ '+' ∉ x := by
  constructor
  · intro h
    exact ⟨Or.inl h, Decimal.plus_notMem h⟩
  · rintro ⟨h | ⟨digits, rfl, -⟩, hplus⟩
    · exact h
    · exact absurd List.mem_cons_self hplus

theorem version_iff : ThreeParts (Decimal.IsNumeral UInt32.size) s ↔ ThreeParts IsSigned s ∧ '+' ∉ s := by
  constructor
  · rintro ⟨x, y, z, rfl, hx, hy, hz⟩
    refine ⟨⟨x, y, z, rfl, Or.inl hx, Or.inl hy, Or.inl hz⟩, fun hmem => ?_⟩
    simp only [List.mem_append, List.mem_cons] at hmem
    rcases hmem with hmem | hdot | hmem | hdot | hmem
    · exact Decimal.plus_notMem hx hmem
    · exact absurd hdot (by decide)
    · exact Decimal.plus_notMem hy hmem
    · exact absurd hdot (by decide)
    · exact Decimal.plus_notMem hz hmem
  · rintro ⟨⟨x, y, z, rfl, hx, hy, hz⟩, hplus⟩
    simp only [List.mem_append, List.mem_cons, not_or] at hplus
    obtain ⟨hpx, -, hpy, -, hpz⟩ := hplus
    exact ⟨x, y, z, rfl, numeral_iff_signed.mpr ⟨hx, hpx⟩, numeral_iff_signed.mpr ⟨hy, hpy⟩,
      numeral_iff_signed.mpr ⟨hz, hpz⟩⟩

theorem name_iff : IsName s ↔ (s ≠ [] ∧ ∀ c ∈ s, isNameChar c = true) ∧ s.head? ≠ some '-' := by
  have hstart : ∀ c, isNameStart c = true ↔ isNameChar c = true ∧ c ≠ '-' := by
    intro c
    unfold isNameChar
    rw [Bool.or_eq_true, beq_iff_eq]
    constructor
    · intro h
      refine ⟨Or.inl h, ?_⟩
      rintro rfl
      exact absurd h (by decide)
    · rintro ⟨h | h, hne⟩
      · exact h
      · exact absurd h hne
  constructor
  · rintro ⟨c, rest, rfl, hc, hrest⟩
    obtain ⟨hchar, hne⟩ := (hstart c).mp hc
    refine ⟨⟨List.cons_ne_nil c rest, ?_⟩, fun h => hne (Option.some.inj h)⟩
    exact List.forall_mem_cons.mpr ⟨hchar, hrest⟩
  · rintro ⟨⟨hne, hall⟩, hhead⟩
    obtain ⟨c, rest, rfl⟩ := List.exists_cons_of_ne_nil hne
    obtain ⟨hc, hrest⟩ := List.forall_mem_cons.mp hall
    exact ⟨c, rest, rfl, (hstart c).mpr ⟨hc, fun h => hhead (congrArg some h)⟩, hrest⟩

end Parts

section Acceptance

variable {t : TemplateSection}

/-- What is accepted: the grammar but for the signs. -/
theorem validateManifest_iff_loose : validateManifest t = .ok () ↔ Loose t := by
  have hversion : ThreeParts IsSigned t.version ↔
      ¬ (((t.version.splitOn '.').length ≠ 3 || (t.version.splitOn '.').any fun p =>
        (Decimal.parse UInt32.size p).isNone) = true) := by
    rw [threeParts_iff fun x => dot_notMem_signed]
    simp only [Bool.or_eq_true, decide_eq_true_eq, not_or, not_not, List.any_eq_true, not_exists, not_and]
    refine and_congr_right fun _ => forall₂_congr fun p _ => ?_
    unfold IsSigned
    rw [← Decimal.parse_isSome_iff]
    cases Decimal.parse UInt32.size p <;> simp
  constructor
  · intro h
    unfold validateManifest at h
    dsimp only at h
    split at h
    · cases h
    · next hname =>
      split at h
      · cases h
      · next hchars =>
        split at h
        · cases h
        · next hparts =>
          split at h
          · cases h
          · next htier =>
            split at h
            · cases h
            · next htags =>
              refine ⟨⟨hname, ?_⟩, hversion.mpr hparts, ?_, Nat.le_of_not_lt htags⟩
              · simpa using hchars
              · simpa using htier
  · rintro ⟨⟨hname, hchars⟩, hparts, htier, htags⟩
    have hall : t.name.all isNameChar = true := List.all_eq_true.mpr hchars
    have hcontains : validTiers.contains t.requires.tier = true := by simpa using htier
    unfold validateManifest
    dsimp only
    rw [if_neg hname, hall, hcontains, if_neg (hversion.mp hparts), if_neg (Nat.not_lt.mpr htags)]
    rfl

theorem documented_iff : Documented t ↔ Loose t ∧ t.name.head? ≠ some '-' ∧ '+' ∉ t.version := by
  constructor
  · rintro ⟨hname, hversion, htier, htags⟩
    obtain ⟨hchars, hhead⟩ := name_iff.mp hname
    obtain ⟨hparts, hplus⟩ := version_iff.mp hversion
    exact ⟨⟨hchars, hparts, htier, htags⟩, hhead, hplus⟩
  · rintro ⟨⟨hchars, hparts, htier, htags⟩, hhead, hplus⟩
    exact ⟨name_iff.mpr ⟨hchars, hhead⟩, version_iff.mpr ⟨hparts, hplus⟩, htier, htags⟩

private theorem harmless_of_chars {s : List Char} (hslash : '/' ∉ s) (hback : '\\' ∉ s) (hplus : '+' ∉ s)
    (hhead : s.head? ≠ some '-') (hdots : s ≠ ['.'] ∧ s ≠ ['.', '.']) : Harmless s :=
  ⟨hplus, hslash, hback, hdots, hhead⟩

theorem Documented.harmless (h : Documented t) : Harmless t.name ∧ Harmless t.version := by
  obtain ⟨⟨⟨-, hchars⟩, -, -, -⟩, hhead, -⟩ := documented_iff.mp h
  have hname : ∀ c, isNameChar c = false → c ∉ t.name := fun c hc hmem =>
    absurd (hchars c hmem) (by rw [hc]; exact Bool.false_ne_true)
  have hversion : ∀ c ∈ t.version, c.isDigit = true ∨ c = '.' := by
    obtain ⟨x, y, z, hv, hx, hy, hz⟩ := h.version
    intro c hc
    rw [hv] at hc
    simp only [List.mem_append, List.mem_cons] at hc
    rcases hc with hc | rfl | hc | rfl | hc
    · exact Or.inl (hx.2.1 c hc)
    · exact Or.inr rfl
    · exact Or.inl (hy.2.1 c hc)
    · exact Or.inr rfl
    · exact Or.inl (hz.2.1 c hc)
  have hother : ∀ c, c.isDigit = false → c ≠ '.' → c ∉ t.version := by
    intro c hdigit hdot hmem
    rcases hversion c hmem with hc | hc
    · exact absurd hc (by rw [hdigit]; exact Bool.false_ne_true)
    · exact hdot hc
  refine ⟨⟨hname _ (by decide), hname _ (by decide), hname _ (by decide), ⟨?_, ?_⟩, hhead⟩,
    hother _ (by decide) (by decide), hother _ (by decide) (by decide), hother _ (by decide) (by decide),
    ⟨?_, ?_⟩, ?_⟩
  · intro heq
    exact hname '.' (by decide) (heq ▸ List.mem_cons_self)
  · intro heq
    exact hname '.' (by decide) (heq ▸ List.mem_cons_self)
  · obtain ⟨x, y, z, hv, hx, -, -⟩ := h.version
    rw [hv]
    intro heq
    have hlength := congrArg List.length heq
    simp only [List.length_append, List.length_cons, List.length_nil] at hlength
    omega
  · obtain ⟨x, y, z, hv, hx, -, -⟩ := h.version
    rw [hv]
    intro heq
    have hpos := List.length_pos_iff.mpr hx.1
    have hlength := congrArg List.length heq
    simp only [List.length_append, List.length_cons, List.length_nil] at hlength
    omega
  · intro heq
    have hmem : '-' ∈ t.version := List.mem_of_mem_head? heq
    exact hother '-' (by decide) (by decide) hmem

end Acceptance

/-- A manifest is accepted exactly if it is in the documented grammar, and is harmless if it is accepted,
unless it is in the grammar but for a sign. -/
theorem accepted_as_documented_iff (t : TemplateSection) :
    ((validateManifest t = .ok () ↔ Documented t) ∧
        (validateManifest t = .ok () → Harmless t.name ∧ Harmless t.version)) ↔
      ¬ OffByASign t := by
  rw [validateManifest_iff_loose]
  unfold OffByASign
  constructor
  · rintro ⟨hiff, -⟩ ⟨hloose, hsign⟩
    obtain ⟨-, hhead, hplus⟩ := documented_iff.mp (hiff.mp hloose)
    exact hsign.elim hhead hplus
  · intro hsign
    have hdocumented : Loose t → Documented t := by
      intro hloose
      refine documented_iff.mpr ⟨hloose, fun h => hsign ⟨hloose, Or.inl h⟩, fun h => hsign ⟨hloose, Or.inr h⟩⟩
    refine ⟨⟨hdocumented, fun h => (documented_iff.mp h).1⟩, fun hloose => ?_⟩
    exact (hdocumented hloose).harmless

/-- Signs are accepted. -/
theorem signs_accepted :
    let t : TemplateSection := ⟨"-rf".toList, "+1.0.0".toList, [], ⟨"free".toList⟩⟩
    validateManifest t = .ok () ∧ ¬ Documented t ∧ t.name.head? = some '-' ∧ '+' ∈ t.version := by
  refine ⟨by decide +kernel, fun h => ?_, by decide, by decide⟩
  obtain ⟨-, hhead, -⟩ := documented_iff.mp h
  exact hhead rfl

end Gyre.Template
