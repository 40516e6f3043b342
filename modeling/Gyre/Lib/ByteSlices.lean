/- digest: Slices of a text by byte positions, which fail inside of a character. -/

import Gyre.Lib.Lines

set_option autoImplicit false
set_option relaxedAutoImplicit false

namespace Gyre.Lib.Text

/-- The text before and after a byte position, unless the position lies inside of a character or
past the end. -/
def splitAtByte : Nat → List Char → Option (List Char × List Char)
  | 0, s => some ([], s)
  | _ + 1, [] => none
  | n + 1, c :: rest =>
    if c.utf8Size ≤ n + 1 then
      (splitAtByte (n + 1 - c.utf8Size) rest).map fun parts => (c :: parts.1, parts.2)
    else none

/-- `&s[start..stop]`, which panics unless both positions are in order and between characters. -/
def slice (start stop : Nat) (s : List Char) : Option (List Char) :=
  if start ≤ stop then
    (splitAtByte stop s).bind fun upTo => (splitAtByte start upTo.1).map fun parts => parts.2
  else none

/-- `is_char_boundary`. -/
def IsBoundary (s : List Char) (n : Nat) : Prop := ∃ front back, s = front ++ back ∧ byteLen front = n

theorem byteLen_cons (c : Char) (s : List Char) : byteLen (c :: s) = c.utf8Size + byteLen s := rfl

theorem splitAtByte_append (front back : List Char) :
    splitAtByte (byteLen front) (front ++ back) = some (front, back) := by
  induction front with
  | nil =>
    rw [List.nil_append]
    unfold byteLen
    cases back <;> rfl
  | cons c front ih =>
    have hpos := c.utf8Size_pos
    obtain ⟨n, hn⟩ : ∃ n, byteLen (c :: front) = n + 1 :=
      Nat.exists_eq_succ_of_ne_zero (by rw [byteLen_cons]; omega)
    have hrest : n + 1 - c.utf8Size = byteLen front := by
      rw [byteLen_cons] at hn
      omega
    rw [hn, List.cons_append, splitAtByte, if_pos (by rw [byteLen_cons] at hn; omega), hrest, ih]
    rfl

theorem splitAtByte_eq_some {n : Nat} {s front back : List Char}
    (h : splitAtByte n s = some (front, back)) : s = front ++ back ∧ byteLen front = n := by
  induction s generalizing n front with
  | nil =>
    cases n with
    | zero =>
      cases h
      exact ⟨rfl, rfl⟩
    | succ n => cases h
  | cons c s ih =>
    cases n with
    | zero =>
      cases h
      exact ⟨rfl, rfl⟩
    | succ n =>
      rw [splitAtByte] at h
      split at h
      next hsize =>
        obtain ⟨parts, hparts, heq⟩ := Option.map_eq_some_iff.mp h
        cases heq
        obtain ⟨rfl, hlen⟩ := ih hparts
        refine ⟨rfl, ?_⟩
        rw [byteLen_cons, hlen]
        omega
      · cases h

/-- A position splits a text exactly if it is between two characters. -/
theorem isBoundary_iff {s : List Char} {n : Nat} :
    IsBoundary s n ↔ (splitAtByte n s).isSome = true := by
  constructor
  · rintro ⟨front, back, rfl, rfl⟩
    rw [splitAtByte_append]
    rfl
  · intro h
    obtain ⟨parts, hparts⟩ := Option.isSome_iff_exists.mp h
    obtain ⟨hs, hlen⟩ := splitAtByte_eq_some hparts
    exact ⟨parts.1, parts.2, hs, hlen⟩

instance (s : List Char) (n : Nat) : Decidable (IsBoundary s n) := decidable_of_iff _ isBoundary_iff.symm

theorem isBoundary_zero (s : List Char) : IsBoundary s 0 := ⟨[], s, rfl, rfl⟩

theorem isBoundary_byteLen (s : List Char) : IsBoundary s (byteLen s) :=
  ⟨s, [], (List.append_nil s).symm, rfl⟩

theorem IsBoundary.le {s : List Char} {n : Nat} (h : IsBoundary s n) : n ≤ byteLen s := by
  obtain ⟨front, back, rfl, rfl⟩ := h
  rw [byteLen_append]
  omega

theorem slice_append (front piece back : List Char) :
    slice (byteLen front) (byteLen front + byteLen piece) (front ++ piece ++ back) = some piece := by
  rw [slice, if_pos (by omega), ← byteLen_append, splitAtByte_append, Option.bind_some,
    splitAtByte_append]
  rfl

/-- A slice is the text between two positions. -/
theorem slice_eq_some {start stop : Nat} {s piece : List Char} (h : slice start stop s = some piece) :
    ∃ front back, s = front ++ piece ++ back ∧ byteLen front = start ∧
      byteLen front + byteLen piece = stop := by
  rw [slice] at h
  split at h
  · obtain ⟨upTo, hupTo, hparts⟩ := Option.bind_eq_some_iff.mp h
    obtain ⟨parts, hsplit, rfl⟩ := Option.map_eq_some_iff.mp hparts
    obtain ⟨rfl, hstop⟩ := splitAtByte_eq_some hupTo
    obtain ⟨hfront, hstart⟩ := splitAtByte_eq_some hsplit
    refine ⟨parts.1, upTo.2, by rw [← hfront], hstart, ?_⟩
    rw [← hstop, hfront, byteLen_append]
  · cases h

/-- Between two positions in order there is a slice. -/
theorem slice_of_isBoundary {start stop : Nat} {s : List Char} (hle : start ≤ stop)
    (hstart : IsBoundary s start) (hstop : IsBoundary s stop) :
    ∃ piece, slice start stop s = some piece := by
  obtain ⟨front, rest, rfl, rfl⟩ := hstart
  obtain ⟨upTo, back, hs, rfl⟩ := hstop
  rcases List.append_eq_append_iff.mp hs with ⟨piece, rfl, rfl⟩ | ⟨beyond, rfl, rfl⟩
  · refine ⟨piece, ?_⟩
    have hslice := slice_append front piece back
    rwa [List.append_assoc, ← byteLen_append] at hslice
  · rw [byteLen_append] at hle
    have hbeyond : beyond = [] := by
      cases beyond with
      | nil => rfl
      | cons c beyond =>
        have hpos := c.utf8Size_pos
        rw [byteLen_cons] at hle
        omega
    subst hbeyond
    refine ⟨[], ?_⟩
    have hslice := slice_append upTo [] rest
    simpa [byteLen] using hslice

end Gyre.Lib.Text
