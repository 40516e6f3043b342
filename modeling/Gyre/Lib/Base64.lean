/- digest: Base 64 text with padding: its alphabet, groups of 24 bits, and reading it back. -/

import Mathlib.Algebra.Group.Nat.Defs
import Mathlib.Data.List.Basic

set_option autoImplicit false
set_option relaxedAutoImplicit false

namespace Gyre.Lib.Base64

/-- Characters that follow each other. -/
def charsFrom (first count : Nat) : List Char := (List.range count).map fun i => Char.ofNat (first + i)

/-- Capital letters, small letters, digits, `+` and `/`. -/
def alphabet : List Char :=
  charsFrom 65 26 ++ charsFrom 97 26 ++ charsFrom 48 10 ++ ['+', '/']

def padding : Char := '='

def digit (n : Nat) : Char := alphabet.getD n padding

def value (c : Char) : Option Nat := alphabet.idxOf? c

/-- Three bytes as a number of 24 bits. -/
def group (a b c : UInt8) : Nat := a.toNat * 2 ^ 16 + b.toNat * 2 ^ 8 + c.toNat

/-- The number of four digits. -/
def number (a b c d : Nat) : Nat := a * 2 ^ 18 + b * 2 ^ 12 + c * 2 ^ 6 + d

/-- The digit with `below` bits to its right. -/
def digitOf (n below : Nat) : Char := digit (n / 2 ^ below % 2 ^ 6)

def byteOf (n below : Nat) : UInt8 := UInt8.ofNat (n / 2 ^ below)

/-- Digits for every group; a last group of one or two bytes is filled with zero bits, and padded. -/
def encode : List UInt8 → List Char
  | [] => []
  | [a] =>
    let n := group a 0 0
    [digitOf n 18, digitOf n 12, padding, padding]
  | [a, b] =>
    let n := group a b 0
    [digitOf n 18, digitOf n 12, digitOf n 6, padding]
  | a :: b :: c :: rest =>
    let n := group a b c
    digitOf n 18 :: digitOf n 12 :: digitOf n 6 :: digitOf n 0 :: encode rest

/-- The bytes of a text; only a last group has padding, and the bits it fills are zero. -/
def decode : List Char → Option (List UInt8)
  | [] => some []
  | a :: b :: c :: d :: rest =>
    match value a, value b, value c, value d with
    | some x, some y, some z, some w =>
      let n := number x y z w
      (decode rest).map fun bytes => byteOf n 16 :: byteOf n 8 :: byteOf n 0 :: bytes
    | some x, some y, some z, none =>
      let n := number x y z 0
      if d = padding ∧ rest = [] ∧ n % 2 ^ 8 = 0 then some [byteOf n 16, byteOf n 8] else none
    | some x, some y, none, none =>
      let n := number x y 0 0
      if c = padding ∧ d = padding ∧ rest = [] ∧ n % 2 ^ 16 = 0 then some [byteOf n 16] else none
    | _, _, _, _ => none
  | _ => none

theorem value_digit {n : Nat} (h : n < 64) : value (digit n) = some n := by
  have hall : ((List.range 64).all fun n => value (digit n) == some n) = true := by decide
  exact beq_iff_eq.mp (List.all_eq_true.mp hall n (List.mem_range.mpr h))

theorem digit_mem_alphabet {n : Nat} (h : n < 64) : digit n ∈ alphabet := by
  have hcount : alphabet.length = 64 := by decide
  have hlength : n < alphabet.length := hcount ▸ h
  unfold digit
  rw [List.getD_eq_getElem?_getD, List.getElem?_eq_getElem hlength]
  exact List.getElem_mem hlength

theorem digitOf_lt (n below : Nat) : n / 2 ^ below % 2 ^ 6 < 64 := Nat.mod_lt _ (by decide)

theorem value_digitOf (n below : Nat) : value (digitOf n below) = some (n / 2 ^ below % 2 ^ 6) :=
  value_digit (digitOf_lt n below)

/-- The digits of a number of 24 bits make it up again. -/
theorem number_digits {n : Nat} (h : n < 2 ^ 24) :
    number (n / 2 ^ 18 % 2 ^ 6) (n / 2 ^ 12 % 2 ^ 6) (n / 2 ^ 6 % 2 ^ 6) (n / 2 ^ 0 % 2 ^ 6) = n := by
  unfold number
  omega

theorem group_lt (a b c : UInt8) : group a b c < 2 ^ 24 := by
  have ha := a.toNat_lt
  have hb := b.toNat_lt
  have hc := c.toNat_lt
  unfold group
  omega

private theorem byteOf_eq {n below : Nat} {b : UInt8} (h : n / 2 ^ below % 256 = b.toNat) :
    byteOf n below = b := by
  unfold byteOf
  rw [← UInt8.toNat_inj, UInt8.toNat_ofNat', ← h]

theorem byteOf_group (a b c : UInt8) :
    byteOf (group a b c) 16 = a ∧ byteOf (group a b c) 8 = b ∧ byteOf (group a b c) 0 = c := by
  have ha := a.toNat_lt
  have hb := b.toNat_lt
  have hc := c.toNat_lt
  refine ⟨byteOf_eq ?_, byteOf_eq ?_, byteOf_eq ?_⟩
  · unfold group
    omega
  · unfold group
    omega
  · unfold group
    omega

theorem value_padding : value padding = none := by decide

section Reading

variable {a b c d : Char} {x y z w : Nat}

theorem decode_one (ha : value a = some x) (hb : value b = some y) (h : number x y 0 0 % 2 ^ 16 = 0) :
    decode [a, b, padding, padding] = some [byteOf (number x y 0 0) 16] := by
  rw [decode, ha, hb, value_padding]
  exact if_pos ⟨rfl, rfl, rfl, h⟩

theorem decode_two (ha : value a = some x) (hb : value b = some y) (hc : value c = some z)
    (h : number x y z 0 % 2 ^ 8 = 0) :
    decode [a, b, c, padding] = some [byteOf (number x y z 0) 16, byteOf (number x y z 0) 8] := by
  rw [decode, ha, hb, hc, value_padding]
  exact if_pos ⟨rfl, rfl, h⟩

theorem decode_three (ha : value a = some x) (hb : value b = some y) (hc : value c = some z)
    (hd : value d = some w) {rest : List Char} {bytes : List UInt8} (h : decode rest = some bytes) :
    decode (a :: b :: c :: d :: rest) = some (byteOf (number x y z w) 16 ::
      byteOf (number x y z w) 8 :: byteOf (number x y z w) 0 :: bytes) := by
  rw [decode, ha, hb, hc, hd, h]
  rfl

end Reading

/-- What is written is read back. -/
theorem decode_encode (bytes : List UInt8) : decode (encode bytes) = some bytes := by
  induction bytes using encode.induct with
  | case1 => rfl
  | case2 a =>
    obtain ⟨hfirst, -, -⟩ := byteOf_group a 0 0
    have hlow : group a 0 0 / 2 ^ 6 % 2 ^ 6 = 0 ∧ group a 0 0 / 2 ^ 0 % 2 ^ 6 = 0 ∧
        group a 0 0 % 2 ^ 16 = 0 := by
      unfold group
      rw [UInt8.toNat_zero]
      omega
    have hnumber := number_digits (group_lt a 0 0)
    rw [hlow.1, hlow.2.1] at hnumber
    have hread := decode_one (value_digitOf (group a 0 0) 18) (value_digitOf (group a 0 0) 12)
      (by rw [hnumber]; exact hlow.2.2)
    rw [hnumber, hfirst] at hread
    exact hread
  | case3 a b =>
    obtain ⟨hfirst, hsecond, -⟩ := byteOf_group a b 0
    have hlow : group a b 0 / 2 ^ 0 % 2 ^ 6 = 0 ∧ group a b 0 % 2 ^ 8 = 0 := by
      unfold group
      rw [UInt8.toNat_zero]
      omega
    have hnumber := number_digits (group_lt a b 0)
    rw [hlow.1] at hnumber
    have hread := decode_two (value_digitOf (group a b 0) 18) (value_digitOf (group a b 0) 12)
      (value_digitOf (group a b 0) 6) (by rw [hnumber]; exact hlow.2)
    rw [hnumber, hfirst, hsecond] at hread
    exact hread
  | case4 a b c rest ih =>
    obtain ⟨hfirst, hsecond, hthird⟩ := byteOf_group a b c
    have hread := decode_three (value_digitOf (group a b c) 18) (value_digitOf (group a b c) 12)
      (value_digitOf (group a b c) 6) (value_digitOf (group a b c) 0) ih
    rw [number_digits (group_lt a b c), hfirst, hsecond, hthird] at hread
    exact hread

/-- Four characters for every group that is begun. -/
theorem length_encode (bytes : List UInt8) : (encode bytes).length = 4 * ((bytes.length + 2) / 3) := by
  induction bytes using encode.induct with
  | case1 => rfl
  | case2 a => simp only [encode, List.length_cons, List.length_nil, Nat.reduceAdd, Nat.reduceDiv]
  | case3 a b => simp only [encode, List.length_cons, List.length_nil, Nat.reduceAdd, Nat.reduceDiv]
  | case4 a b c rest ih =>
    simp only [encode, List.length_cons, ih]
    omega

theorem mem_encode {bytes : List UInt8} {c : Char} (h : c ∈ encode bytes) : c ∈ alphabet ∨ c = padding := by
  have hdigit : ∀ n below, digitOf n below ∈ alphabet := fun n below =>
    digit_mem_alphabet (digitOf_lt n below)
  induction bytes using encode.induct with
  | case1 => cases h
  | case2 a =>
    simp only [encode, List.mem_cons, List.not_mem_nil, or_false] at h
    rcases h with rfl | rfl | rfl | rfl
    · exact Or.inl (hdigit _ _)
    · exact Or.inl (hdigit _ _)
    · exact Or.inr rfl
    · exact Or.inr rfl
  | case3 a b =>
    simp only [encode, List.mem_cons, List.not_mem_nil, or_false] at h
    rcases h with rfl | rfl | rfl | rfl
    · exact Or.inl (hdigit _ _)
    · exact Or.inl (hdigit _ _)
    · exact Or.inl (hdigit _ _)
    · exact Or.inr rfl
  | case4 a b' c' rest ih =>
    simp only [encode, List.mem_cons] at h
    rcases h with rfl | rfl | rfl | rfl | h
    · exact Or.inl (hdigit _ _)
    · exact Or.inl (hdigit _ _)
    · exact Or.inl (hdigit _ _)
    · exact Or.inl (hdigit _ _)
    · exact ih h

end Gyre.Lib.Base64
