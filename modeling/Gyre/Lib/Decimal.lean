/- digest: Unsigned decimal numbers: how they are written, and the texts a parser accepts. -/

import Mathlib.Data.List.Basic

set_option autoImplicit false
set_option relaxedAutoImplicit false

namespace Gyre.Lib.Decimal

/-- `to_string` -/
def print (n : Nat) : List Char := Nat.toDigits 10 n

/-- Digits only, at least one, with a value below the bound. -/
def IsNumeral (bound : Nat) (s : List Char) : Prop :=
  s ≠ [] ∧ (∀ c ∈ s, c.isDigit = true) ∧ Nat.ofDigitChars 10 s 0 < bound

instance (bound : Nat) (s : List Char) : Decidable (IsNumeral bound s) :=
  decidable_of_iff (s ≠ [] ∧ s.all Char.isDigit = true ∧ Nat.ofDigitChars 10 s 0 < bound)
    (and_congr_right' (and_congr_left' List.all_eq_true))

def parseDigits (bound : Nat) (s : List Char) : Option Nat :=
  if IsNumeral bound s then some (Nat.ofDigitChars 10 s 0) else none

/-- `str::parse` for an unsigned type with `bound` values: one plus sign may stand in front. -/
def parse (bound : Nat) (s : List Char) : Option Nat :=
  match s with
  | '+' :: digits => parseDigits bound digits
  | _ => parseDigits bound s

theorem parseDigits_isSome_iff {bound : Nat} {s : List Char} :
    (parseDigits bound s).isSome = true ↔ IsNumeral bound s := by
  unfold parseDigits
  split
  · next h => exact ⟨fun _ => h, fun _ => rfl⟩
  · next h => exact ⟨nofun, fun hs => absurd hs h⟩

theorem parse_of_digits {bound : Nat} {s : List Char} (h : '+' ∉ s) :
    parse bound s = parseDigits bound s := by
  unfold parse
  split
  · exact absurd List.mem_cons_self h
  · rfl

theorem plus_notMem {bound : Nat} {s : List Char} (h : IsNumeral bound s) : '+' ∉ s := fun hmem =>
  absurd (h.2.1 '+' hmem) (by decide)

/-- What is accepted is a numeral, with a plus sign or without. -/
theorem parse_isSome_iff {bound : Nat} {s : List Char} :
    (parse bound s).isSome = true ↔ IsNumeral bound s ∨ ∃ digits, s = '+' :: digits ∧ IsNumeral bound digits := by
  unfold parse
  split
  · next digits =>
    rw [parseDigits_isSome_iff]
    constructor
    · intro h
      exact Or.inr ⟨digits, rfl, h⟩
    · rintro (h | ⟨other, hs, h⟩)
      · exact absurd List.mem_cons_self (plus_notMem h)
      · cases hs
        exact h
  · next hplus =>
    rw [parseDigits_isSome_iff]
    constructor
    · exact Or.inl
    · rintro (h | ⟨digits, rfl, -⟩)
      · exact h
      · exact absurd rfl (hplus digits)

/-- A text with anything but digits in it is refused. -/
theorem parse_of_mem {bound : Nat} {s : List Char} {c : Char} (hc : c ∈ s) (hdigit : c.isDigit = false)
    (hplus : c ≠ '+') : parse bound s = none := by
  rw [← Option.not_isSome_iff_eq_none, parse_isSome_iff]
  rintro (h | ⟨digits, rfl, h⟩)
  · exact absurd (h.2.1 c hc) (by rw [hdigit]; exact Bool.false_ne_true)
  · rcases List.mem_cons.mp hc with heq | hmem
    · exact hplus heq
    · exact absurd (h.2.1 c hmem) (by rw [hdigit]; exact Bool.false_ne_true)

theorem isDigit_of_mem_print {n : Nat} {c : Char} (h : c ∈ print n) : c.isDigit = true :=
  Nat.isDigit_of_mem_toDigits (by decide) (by decide) h

/-- A number is read back from its digits, if it is in range. -/
theorem parse_print (bound n : Nat) : parse bound (print n) = if n < bound then some n else none := by
  have hdigits : ∀ c ∈ print n, c.isDigit = true := fun c hc => isDigit_of_mem_print hc
  have hplus : '+' ∉ print n := fun hmem => absurd (hdigits '+' hmem) (by decide)
  have hvalue : Nat.ofDigitChars 10 (print n) 0 = n := Nat.ofDigitChars_ten_toDigits
  have hnumeral : IsNumeral bound (print n) ↔ n < bound := by
    unfold IsNumeral
    rw [hvalue]
    exact ⟨fun h => h.2.2, fun h => ⟨Nat.toDigits_ne_nil, hdigits, h⟩⟩
  rw [parse_of_digits hplus]
  unfold parseDigits
  rw [hvalue]
  exact if_congr hnumeral rfl rfl

end Gyre.Lib.Decimal
