/- digest: Host names, patterns for them, and what a pattern stands for at a label boundary. -/

import Gyre.Lib.Text

set_option autoImplicit false
set_option relaxedAutoImplicit false

namespace Gyre.Lib.HostNames

/-- A text that can be the name of a host: ASCII without blanks, with something in front of its first
dot and after its last one. -/
structure HostName (s : List Char) : Prop where
  ascii : ∀ c ∈ s, c.toNat < 128
  solid : ∀ c ∈ s, Text.isWhitespace c = false
  nonempty : s ≠ []
  head : s.head? ≠ some '.'
  last : s.getLast? ≠ some '.'

instance (s : List Char) : Decidable (HostName s) :=
  decidable_of_iff
    (s.all (fun c => decide (c.toNat < 128)) = true ∧ s.all (fun c => !Text.isWhitespace c) = true ∧
      s ≠ [] ∧ s.head? ≠ some '.' ∧ s.getLast? ≠ some '.')
    (by
      simp only [List.all_eq_true, decide_eq_true_eq, Bool.not_eq_true']
      exact ⟨fun ⟨hascii, hsolid, hne, hhead, hlast⟩ => ⟨hascii, hsolid, hne, hhead, hlast⟩,
        fun h => ⟨h.ascii, h.solid, h.nonempty, h.head, h.last⟩⟩)

/-- A host lies under a suffix: at least one label stands before it and the dot. -/
def Under (suffix host : List Char) : Prop := ∃ label, label ≠ [] ∧ host = label ++ '.' :: suffix

/-- The suffix of a pattern that is a wildcard. -/
def wildcardSuffix : List Char → Option (List Char)
  | '*' :: '.' :: suffix => some suffix
  | _ => none

/-- What a pattern stands for: itself, or the hosts under its suffix. -/
def Stands (pattern host : List Char) : Prop :=
  match wildcardSuffix pattern with
  | some suffix => Under suffix host
  | none => host = pattern

/-- A host is the suffix of a wildcard, without a label before it. -/
def Bare (pattern host : List Char) : Prop := wildcardSuffix pattern = some host

theorem wildcardSuffix_eq_some {pattern suffix : List Char} :
    wildcardSuffix pattern = some suffix ↔ pattern = '*' :: '.' :: suffix := by
  constructor
  · intro h
    unfold wildcardSuffix at h
    split at h
    next rest =>
      rw [Option.some.inj h]
    next => cases h
  · rintro rfl
    rfl

/-- A wildcard itself lies under its suffix. -/
theorem under_wildcard (suffix : List Char) : Under suffix ('*' :: '.' :: suffix) :=
  ⟨['*'], by simp, rfl⟩

/-- A dot and a suffix end a host exactly if a label stands before them, where the host does not begin
with the dot. -/
theorem suffix_iff_under {suffix host : List Char} (hhead : host.head? ≠ some '.') :
    '.' :: suffix <:+ host ↔ Under suffix host := by
  constructor
  · rintro ⟨label, rfl⟩
    refine ⟨label, ?_, rfl⟩
    rintro rfl
    exact hhead rfl
  · rintro ⟨label, -, rfl⟩
    exact ⟨label, rfl⟩

/-- The last character before a suffix. -/
theorem suffix_iff_getLast? {suffix label : List Char} :
    '.' :: suffix <:+ label ++ suffix ↔ label.getLast? = some '.' := by
  constructor
  · rintro ⟨front, hfront⟩
    have hlabel : label = front ++ ['.'] := by
      have hsplit : (front ++ ['.']) ++ suffix = label ++ suffix := by
        rw [List.append_assoc]
        exact hfront
      exact (List.append_cancel_right hsplit).symm
    rw [hlabel]
    exact List.getLast?_concat
  · intro hlast
    obtain ⟨front, rfl⟩ := List.getLast?_eq_some_iff.mp hlast
    exact ⟨front, by simp⟩

/-- A host that does not begin with a dot fits a pattern, as it is written or under its suffix, exactly
if the pattern stands for it. -/
theorem stands_iff {pattern host : List Char} (hhead : host.head? ≠ some '.') :
    Stands pattern host ↔
      host = pattern ∨ ∃ suffix, wildcardSuffix pattern = some suffix ∧ '.' :: suffix <:+ host := by
  unfold Stands
  cases hsuffix : wildcardSuffix pattern with
  | none => simp
  | some suffix =>
    simp only [Option.some.injEq, exists_eq_left', suffix_iff_under hhead]
    constructor
    · intro h
      exact .inr h
    · rintro (rfl | h)
      · rw [wildcardSuffix_eq_some.mp hsuffix]
        exact under_wildcard suffix
      · exact h

/-- Lower-casing puts nothing in front of the small letters. -/
theorem eq_of_toLower_eq {c d : Char} (h : c.toLower = d) (hd : d.toNat < 97) : c = d := by
  unfold Char.toLower at h
  split at h
  next hupper =>
    exfalso
    have hvalue := congrArg Char.toNat h
    have hlow : 65 ≤ c.toNat := UInt32.le_iff_toNat_le.mp hupper.1
    have hhigh : c.toNat ≤ 90 := UInt32.le_iff_toNat_le.mp hupper.2
    simp at hvalue
    omega
  next => exact h

theorem head?_lower {s : List Char} (h : s.head? ≠ some '.') :
    (s.map Char.toLower).head? ≠ some '.' := by
  intro hlower
  rw [List.head?_map, Option.map_eq_some_iff] at hlower
  obtain ⟨c, hc, hdot⟩ := hlower
  have hsame : c = '.' := eq_of_toLower_eq hdot (by decide)
  exact h (hsame ▸ hc)

theorem wildcardSuffix_lower (pattern : List Char) :
    wildcardSuffix (pattern.map Char.toLower) =
      (wildcardSuffix pattern).map (·.map Char.toLower) := by
  cases hsuffix : wildcardSuffix pattern with
  | some suffix =>
    rw [wildcardSuffix_eq_some.mp hsuffix]
    rfl
  | none =>
    cases hlower : wildcardSuffix (pattern.map Char.toLower) with
    | none => rfl
    | some suffix =>
      exfalso
      have hmap := wildcardSuffix_eq_some.mp hlower
      obtain ⟨first, rest, rfl, hfirst, hrest⟩ := List.map_eq_cons_iff.mp hmap
      obtain ⟨second, rest, rfl, hsecond, -⟩ := List.map_eq_cons_iff.mp hrest
      have hfirst : first = '*' := eq_of_toLower_eq hfirst (by decide)
      have hsecond : second = '.' := eq_of_toLower_eq hsecond (by decide)
      rw [hfirst, hsecond] at hsuffix
      cases hsuffix

end Gyre.Lib.HostNames
