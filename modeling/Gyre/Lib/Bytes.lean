/- digest: Bytes as text: UTF-8 with ill-formed parts, and percent encoding. -/

import Mathlib.Data.List.Basic

set_option autoImplicit false
set_option relaxedAutoImplicit false

namespace Gyre.Lib.Bytes

/-- The number of bytes that follow the first byte of a UTF-8 character. -/
def announced (first : UInt8) : Option Nat :=
  if first < 0x80 then some 0
  else if 0xC2 ≤ first && first ≤ 0xDF then some 1
  else if 0xE0 ≤ first && first ≤ 0xEF then some 2
  else if 0xF0 ≤ first && first ≤ 0xF4 then some 3
  else none

/-- Whether a byte may come second; overlong forms, surrogates and values past the last character
are excluded here. -/
def secondAllowed (first second : UInt8) : Bool :=
  let low : UInt8 := if first = 0xE0 then 0xA0 else if first = 0xF0 then 0x90 else 0x80
  let high : UInt8 := if first = 0xED then 0x9F else if first = 0xF4 then 0x8F else 0xBF
  low ≤ second && second ≤ high

def isContinuation (b : UInt8) : Bool := 0x80 ≤ b && b ≤ 0xBF

/-- The well-formed bytes after a first byte that announces some. -/
def following (first : UInt8) : Nat → List UInt8 → List UInt8
  | n + 1, second :: rest =>
    if secondAllowed first second then second :: (rest.take n).takeWhile isContinuation else []
  | _, _ => []

/-- The character of a first byte and the bytes after it. -/
def compose (first : UInt8) (rest : List UInt8) : Char :=
  let lead := match rest.length with
    | 0 => first.toNat
    | 1 => first.toNat % 32
    | 2 => first.toNat % 16
    | _ => first.toNat % 8
  Char.ofNat (rest.foldl (fun value b => value * 64 + b.toNat % 64) lead)

/-- The characters of a byte string, with `none` for each maximal ill-formed part; the fuel is the
number of bytes. -/
def parts : Nat → List UInt8 → List (Option Char)
  | fuel + 1, first :: rest =>
    match announced first with
    | none => none :: parts fuel rest
    | some n =>
      let tail := following first n rest
      (if tail.length = n then some (compose first tail) else none) ::
        parts fuel (rest.drop tail.length)
  | _, _ => []

/-- `str::from_utf8`. -/
def fromUtf8 (bytes : List UInt8) : Option (List Char) := (parts bytes.length bytes).mapM id

/-- `String::from_utf8_lossy`. -/
def fromUtf8Lossy (bytes : List UInt8) : List Char :=
  (parts bytes.length bytes).map fun c => c.getD '\uFFFD'

/-- The bytes of a text. -/
def ofText (s : List Char) : List UInt8 := s.flatMap String.utf8EncodeChar

def hexDigit (n : Nat) : Char := if n < 10 then Char.ofNat (48 + n) else Char.ofNat (55 + n)

def hexValue (c : Char) : Option Nat :=
  if '0' ≤ c && c ≤ '9' then some (c.toNat - 48)
  else if 'a' ≤ c && c ≤ 'f' then some (c.toNat - 87)
  else if 'A' ≤ c && c ≤ 'F' then some (c.toNat - 55)
  else none

/-- The characters that percent encoding leaves as they are. -/
def unreserved (c : Char) : Bool :=
  ('a' ≤ c && c ≤ 'z') || ('A' ≤ c && c ≤ 'Z') || ('0' ≤ c && c ≤ '9') || "-_.~".toList.contains c

/-- `urlencoding::encode`. -/
def percentEncode (s : List Char) : List Char :=
  s.flatMap fun c =>
    if unreserved c then [c]
    else (String.utf8EncodeChar c).flatMap fun b =>
      ['%', hexDigit (b.toNat / 16), hexDigit (b.toNat % 16)]

/-- The bytes of a percent-encoded text; a `%` without two hexadecimal digits stands for itself. -/
def percentDecodeBytes : List Char → List UInt8
  | '%' :: hi :: lo :: rest =>
    match hexValue hi, hexValue lo with
    | some h, some l => UInt8.ofNat (h * 16 + l) :: percentDecodeBytes rest
    | _, _ => String.utf8EncodeChar '%' ++ percentDecodeBytes (hi :: lo :: rest)
  | c :: rest => String.utf8EncodeChar c ++ percentDecodeBytes rest
  | [] => []

/-- `urlencoding::decode`. -/
def percentDecode (s : List Char) : Option (List Char) := fromUtf8 (percentDecodeBytes s)

/-- An ASCII character that percent decoding leaves alone. -/
def Plain (c : Char) : Prop := c.toNat < 128 ∧ c ≠ '%'

private theorem percentDecodeBytes_cons {c : Char} (h : c ≠ '%') (s : List Char) :
    percentDecodeBytes (c :: s) = String.utf8EncodeChar c ++ percentDecodeBytes s := by
  rw [percentDecodeBytes]
  intro hi lo rest heq
  exact absurd heq h

private theorem encode_plain {c : Char} (h : c.toNat < 128) :
    String.utf8EncodeChar c = [UInt8.ofNat c.toNat] := by
  apply String.utf8EncodeChar_eq_singleton
  rw [Char.utf8Size_eq_one_iff]
  exact UInt32.le_iff_toNat_le.mpr (by simpa using Nat.le_of_lt_succ h)

private theorem parts_plain {c : Char} (h : c.toNat < 128) (fuel : Nat) (bytes : List UInt8) :
    parts (fuel + 1) (UInt8.ofNat c.toNat :: bytes) = some c :: parts fuel bytes := by
  have hbyte : (UInt8.ofNat c.toNat).toNat = c.toNat := by
    rw [UInt8.toNat_ofNat']
    omega
  have hannounced : announced (UInt8.ofNat c.toNat) = some 0 := by
    have hlt : UInt8.ofNat c.toNat < 0x80 := UInt8.lt_iff_toNat_lt.mpr (by simpa [hbyte] using h)
    simp [announced, hlt]
  simp [parts, hannounced, following, compose, hbyte]

/-- A text of such characters decodes to itself. -/
theorem percentDecode_plain {s : List Char} (h : ∀ c ∈ s, Plain c) : percentDecode s = some s := by
  show (parts (percentDecodeBytes s).length (percentDecodeBytes s)).mapM id = some s
  induction s with
  | nil => rfl
  | cons c s ih =>
    obtain ⟨hascii, hpercent⟩ := h c (List.mem_cons_self ..)
    have hrest := ih fun x hx => h x (List.mem_cons_of_mem c hx)
    rw [percentDecodeBytes_cons hpercent, encode_plain hascii, List.singleton_append, List.length_cons,
      parts_plain hascii, List.mapM_cons, hrest]
    rfl

/-- Every `%` has two hexadecimal digits after it. -/
def validPercentEncoding : List Char → Bool
  | '%' :: hi :: lo :: rest =>
    (hexValue hi).isSome && (hexValue lo).isSome && validPercentEncoding rest
  | '%' :: _ => false
  | _ :: rest => validPercentEncoding rest
  | [] => true

example : fromUtf8 [0xE2, 0x82, 0xAC] = some ['€'] ∧
    fromUtf8Lossy [0x61, 0xE2, 0x82, 0x62, 0xED, 0xA0] =
      ['a', '\uFFFD', 'b', '\uFFFD', '\uFFFD'] := by decide

example : percentDecode (percentEncode "a b/é".toList) = some "a b/é".toList := by decide

end Gyre.Lib.Bytes
