/- digest: The Basic authorization header a credential is injected as, and its base 64. -/

import Gyre.Lib.Base64
import Gyre.Lib.Bytes

set_option autoImplicit false
set_option relaxedAutoImplicit false

namespace Gyre.Tools.Wasm.CredentialInjector

open Gyre.Lib

def ALPHABET : List Char := "ABCDEFGHIJKLMNOPQRSTUVWXYZabcdefghijklmnopqrstuvwxyz0123456789+/".toList

/-- `ALPHABET[i as usize] as char`; no index is out of range. -/
def letter (i : UInt8) : Char := ALPHABET.getD i.toNat '='

/-- One round of the loop: a byte and the two after it, where there are any. -/
def encodeRound (b0 : UInt8) (next after : Option UInt8) : List Char :=
  let b1 := next.getD 0
  let b2 := after.getD 0
  [letter (b0 >>> 2), letter (((b0 &&& 0x03) <<< 4) ||| (b1 >>> 4)),
    if next.isSome then letter (((b1 &&& 0x0f) <<< 2) ||| (b2 >>> 6)) else '=',
    if after.isSome then letter (b2 &&& 0x3f) else '=']

/-- The loop from `i` on, over the bytes that are left. -/
def base64Encode : List UInt8 → List Char
  | [] => []
  | [b0] => encodeRound b0 none none
  | [b0, b1] => encodeRound b0 (some b1) none
  | b0 :: b1 :: b2 :: rest => encodeRound b0 (some b1) (some b2) ++ base64Encode rest

/-- The header's value for `AuthorizationBasic`. -/
def basicAuthorization (username secret : List Char) : List Char :=
  "Basic ".toList ++ base64Encode (Bytes.ofText (username ++ ':' :: secret))

theorem alphabet_standard : ALPHABET = Base64.alphabet := by decide

theorem letter_eq_digit (i : UInt8) : letter i = Base64.digit i.toNat := by
  unfold letter Base64.digit
  rw [alphabet_standard]
  rfl

section Bits

variable (b0 b1 b2 : UInt8)

private theorem toNat_low (b : UInt8) (k : Nat) (mask : UInt8) (hmask : mask.toNat = 2 ^ k - 1) :
    (b &&& mask).toNat = b.toNat % 2 ^ k := by
  rw [UInt8.toNat_and, hmask, Nat.and_two_pow_sub_one_eq_mod]

/-- Low bits of one byte before high bits of the next. -/
private theorem toNat_joined (low high : Nat) (i j : UInt8) (hi : i.toNat = low) (hj : high < 2 ^ low)
    (hfits : j.toNat * 2 ^ low < 256) {b : UInt8} (hb : b.toNat = high) (hlow : low < 8) :
    ((j <<< i) ||| b).toNat = j.toNat * 2 ^ low + high := by
  rw [UInt8.toNat_or, UInt8.toNat_shiftLeft, hi, hb, Nat.mod_eq_of_lt hlow, Nat.shiftLeft_eq,
    Nat.mod_eq_of_lt hfits, ← Nat.shiftLeft_eq, ← Nat.shiftLeft_add_eq_or_of_lt hj, Nat.shiftLeft_eq]

theorem first_digit : letter (b0 >>> 2) = Base64.digitOf (Base64.group b0 b1 b2) 18 := by
  have h0 := b0.toNat_lt
  have h1 := b1.toNat_lt
  have h2 := b2.toNat_lt
  have hbits : (b0 >>> 2).toNat = Base64.group b0 b1 b2 / 2 ^ 18 % 2 ^ 6 := by
    rw [UInt8.toNat_shiftRight]
    unfold Base64.group
    simp only [UInt8.reduceToNat, Nat.reduceMod, Nat.shiftRight_eq_div_pow]
    omega
  rw [letter_eq_digit, hbits]
  rfl

theorem second_digit : letter (((b0 &&& 0x03) <<< 4) ||| (b1 >>> 4)) =
    Base64.digitOf (Base64.group b0 b1 b2) 12 := by
  have h0 := b0.toNat_lt
  have h1 := b1.toNat_lt
  have h2 := b2.toNat_lt
  have hlow : (b0 &&& 0x03).toNat = b0.toNat % 2 ^ 2 := toNat_low b0 2 3 rfl
  have hhigh : (b1 >>> 4).toNat = b1.toNat / 2 ^ 4 := by
    rw [UInt8.toNat_shiftRight]
    simp only [UInt8.reduceToNat, Nat.reduceMod, Nat.shiftRight_eq_div_pow]
  have hbits : (((b0 &&& 0x03) <<< 4) ||| (b1 >>> 4)).toNat =
      Base64.group b0 b1 b2 / 2 ^ 12 % 2 ^ 6 := by
    rw [toNat_joined 4 (b1.toNat / 2 ^ 4) 4 (b0 &&& 0x03) rfl (by omega) (by omega) hhigh (by omega),
      hlow]
    unfold Base64.group
    omega
  rw [letter_eq_digit, hbits]
  rfl

theorem third_digit : letter (((b1 &&& 0x0f) <<< 2) ||| (b2 >>> 6)) =
    Base64.digitOf (Base64.group b0 b1 b2) 6 := by
  have h0 := b0.toNat_lt
  have h1 := b1.toNat_lt
  have h2 := b2.toNat_lt
  have hlow : (b1 &&& 0x0f).toNat = b1.toNat % 2 ^ 4 := toNat_low b1 4 15 rfl
  have hhigh : (b2 >>> 6).toNat = b2.toNat / 2 ^ 6 := by
    rw [UInt8.toNat_shiftRight]
    simp only [UInt8.reduceToNat, Nat.reduceMod, Nat.shiftRight_eq_div_pow]
  have hbits : (((b1 &&& 0x0f) <<< 2) ||| (b2 >>> 6)).toNat =
      Base64.group b0 b1 b2 / 2 ^ 6 % 2 ^ 6 := by
    rw [toNat_joined 2 (b2.toNat / 2 ^ 6) 2 (b1 &&& 0x0f) rfl (by omega) (by omega) hhigh (by omega),
      hlow]
    unfold Base64.group
    omega
  rw [letter_eq_digit, hbits]
  rfl

theorem fourth_digit : letter (b2 &&& 0x3f) = Base64.digitOf (Base64.group b0 b1 b2) 0 := by
  have h2 := b2.toNat_lt
  have hlow : (b2 &&& 0x3f).toNat = b2.toNat % 2 ^ 6 := toNat_low b2 6 63 rfl
  have hbits : (b2 &&& 0x3f).toNat = Base64.group b0 b1 b2 / 2 ^ 0 % 2 ^ 6 := by
    rw [hlow]
    unfold Base64.group
    omega
  rw [letter_eq_digit, hbits]
  rfl

end Bits

theorem base64Encode_eq_encode (input : List UInt8) : base64Encode input = Base64.encode input := by
  induction input using base64Encode.induct with
  | case1 => rfl
  | case2 b0 =>
    have h1 := first_digit b0 0 0
    have h2 := second_digit b0 0 0
    simp only [base64Encode, encodeRound, Option.getD_none, Option.isSome_none, Base64.encode, h1, h2]
    rfl
  | case3 b0 b1 =>
    have h1 := first_digit b0 b1 0
    have h2 := second_digit b0 b1 0
    have h3 := third_digit b0 b1 0
    simp only [base64Encode, encodeRound, Option.getD_some, Option.getD_none, Option.isSome_some,
      Option.isSome_none, Base64.encode, h1, h2, h3]
    rfl
  | case4 b0 b1 b2 rest ih =>
    have h1 := first_digit b0 b1 b2
    have h2 := second_digit b0 b1 b2
    have h3 := third_digit b0 b1 b2
    have h4 := fourth_digit b0 b1 b2
    simp only [base64Encode, encodeRound, Option.getD_some, Option.isSome_some, Base64.encode, h1, h2,
      h3, h4, ih]
    rfl

/-- Every byte string is encoded as the standard says: it is decoded to what it was, with four
characters for each group of three bytes that is begun, all of them of the alphabet or padding. -/
theorem base64Encode_standard (input : List UInt8) :
    base64Encode input = Base64.encode input ∧
      Base64.decode (base64Encode input) = some input ∧
      (base64Encode input).length = 4 * ((input.length + 2) / 3) ∧
      ∀ c ∈ base64Encode input, c ∈ Base64.alphabet ∨ c = Base64.padding := by
  rw [base64Encode_eq_encode]
  exact ⟨rfl, Base64.decode_encode input, Base64.length_encode input, fun c hc => Base64.mem_encode hc⟩

example : basicAuthorization "user".toList "pass".toList = "Basic dXNlcjpwYXNz".toList := by
  decide +kernel

end Gyre.Tools.Wasm.CredentialInjector
