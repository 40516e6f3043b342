/- digest: IP addresses: their text forms, read and written. -/

import Mathlib.Algebra.GroupWithZero.Nat
import Mathlib.Data.List.Basic

set_option autoImplicit false
set_option relaxedAutoImplicit false

namespace Gyre.Lib

/-- `IpAddr`: four bytes, or eight groups of sixteen bits. -/
inductive IpAddr where
  | v4 (octets : Vector UInt8 4)
  | v6 (segments : Vector UInt16 8)
  deriving DecidableEq, Repr

namespace IpAddr

/-- An IPv4 address has bytes. -/
instance hasOctets : NeZero 4 := ⟨by decide⟩

/-- An IPv6 address has groups. -/
instance hasSegments : NeZero 8 := ⟨by decide⟩

/-- `Ipv4Addr::UNSPECIFIED`. -/
abbrev unspecifiedV4 : Vector UInt8 4 := #v[0, 0, 0, 0]

/-- `Ipv6Addr::LOCALHOST`. -/
abbrev localhostV6 : Vector UInt16 8 := #v[0, 0, 0, 0, 0, 0, 0, 1]

/-- `Ipv6Addr::UNSPECIFIED`. -/
abbrev unspecifiedV6 : Vector UInt16 8 := #v[0, 0, 0, 0, 0, 0, 0, 0]

/-- A parser of the front of a text. -/
abbrev Reader (α : Type) := List Char → Option (α × List Char)

def digitValue (base : Nat) (c : Char) : Option Nat :=
  let value := if '0' ≤ c && c ≤ '9' then some (c.toNat - 48)
    else if 'a' ≤ c && c ≤ 'f' then some (c.toNat - 87)
    else if 'A' ≤ c && c ≤ 'F' then some (c.toNat - 55)
    else none
  value.filter fun v => v < base

/-- The digits at the front of a text, at most so many and one more. -/
def leadingDigits (base : Nat) : Nat → List Char → List Nat
  | n + 1, c :: rest =>
    match digitValue base c with
    | some d => d :: leadingDigits base n rest
    | none => []
  | _, _ => []

/-- `read_number`: a number of at most so many digits below a bound, without leading zeros unless
they are allowed. -/
def readNumber (base maxDigits bound : Nat) (allowZeroPrefix : Bool) : Reader Nat := fun s =>
  let digits := leadingDigits base (maxDigits + 1) s
  let value := digits.foldl (fun v d => v * base + d) 0
  if digits.isEmpty || maxDigits < digits.length || bound ≤ value then none
  else if !allowZeroPrefix && digits.head? == some 0 && 1 < digits.length then none
  else some (value, s.drop digits.length)

def readChar (c : Char) : Reader Unit
  | [] => none
  | d :: rest => if c = d then some ((), rest) else none

/-- `read_separator`: from the second item on, a separator comes first. -/
def readSeparator {α : Type} (sep : Char) (index : Nat) (inner : Reader α) : Reader α := fun s =>
  if index = 0 then inner s
  else (readChar sep s).bind fun r => inner r.2

/-- `read_ipv4_addr`. -/
def readIpv4 : Reader (Vector UInt8 4) := fun s => do
  let octet := fun i => readSeparator '.' i (readNumber 10 3 256 false)
  let (a, s) ← octet 0 s
  let (b, s) ← octet 1 s
  let (c, s) ← octet 2 s
  let (d, s) ← octet 3 s
  pure (#v[.ofNat a, .ofNat b, .ofNat c, .ofNat d], s)

/-- `read_groups`: groups of an IPv6 address up to a limit, and whether an IPv4 address ended
them. -/
def readGroups (limit : Nat) : (left index : Nat) → List Char →
    List UInt16 × Bool × List Char
  | 0, _, s => ([], false, s)
  | left + 1, index, s =>
    match (if index + 1 < limit then readSeparator ':' index readIpv4 s else none) with
    | some (octets, rest) =>
      ([.ofNat (octets[0].toNat * 256 + octets[1].toNat),
        .ofNat (octets[2].toNat * 256 + octets[3].toNat)], true, rest)
    | none =>
      match readSeparator ':' index (readNumber 16 4 65536 true) s with
      | some (group, rest) =>
        let more := readGroups limit left (index + 1) rest
        (.ofNat group :: more.1, more.2)
      | none => ([], false, s)

def ofGroups (groups : List UInt16) : Vector UInt16 8 := .ofFn fun i => groups.getD i 0

/-- `read_ipv6_addr`. -/
def readIpv6 : Reader (Vector UInt16 8) := fun s =>
  let (head, headIpv4, rest) := readGroups 8 8 0 s
  if head.length = 8 then some (ofGroups head, rest)
  else if headIpv4 then none
  else do
    let (_, rest) ← readChar ':' rest
    let (_, rest) ← readChar ':' rest
    let limit := 8 - (head.length + 1)
    let (tail, _, rest) := readGroups limit limit 0 rest
    let gap := List.replicate (8 - tail.length - head.length) 0
    pure (ofGroups (head ++ gap ++ tail), rest)

/-- `IpAddr::from_str`: the whole text is read. -/
def parse (s : List Char) : Option IpAddr :=
  match readIpv4 s with
  | some (octets, []) => some (.v4 octets)
  | some _ => none
  | none =>
    match readIpv6 s with
    | some (segments, []) => some (.v6 segments)
    | _ => none

def dotted (a b c d : Nat) : List Char :=
  Nat.toDigits 10 a ++ '.' :: Nat.toDigits 10 b ++ '.' :: Nat.toDigits 10 c ++
    '.' :: Nat.toDigits 10 d

/-- The length of the run of zeros at the front. -/
def zeroRun (groups : List Nat) : Nat := (groups.takeWhile fun g => g == 0).length

/-- The first longest run of zeros: its place and its length. -/
def longestZeroRun (groups : List Nat) : Nat × Nat :=
  (List.range groups.length).foldl
    (fun best i =>
      let n := zeroRun (groups.drop i)
      if best.2 < n then (i, n) else best) (0, 0)

def colonSeparated (groups : List Nat) : List Char :=
  List.intercalate [':'] (groups.map (Nat.toDigits 16))

/-- `Ipv6Addr`'s text: the first longest run of two zeros or more is left out, and an IPv4-mapped
address shows its IPv4 form. -/
def showIpv6 (groups : List Nat) : List Char :=
  match groups with
  | [0, 0, 0, 0, 0, 0xFFFF, hi, lo] =>
    "::ffff:".toList ++ dotted (hi / 256) (hi % 256) (lo / 256) (lo % 256)
  | _ =>
    let (start, length) := longestZeroRun groups
    if 1 < length then
      colonSeparated (groups.take start) ++ "::".toList ++
        colonSeparated (groups.drop (start + length))
    else colonSeparated groups

/-- `IpAddr`'s text. -/
def display : IpAddr → List Char
  | .v4 o => dotted o[0].toNat o[1].toNat o[2].toNat o[3].toNat
  | .v6 s => showIpv6 (s.toList.map UInt16.toNat)

example : (parse "fe80::1:0:0:c0a8:1".toList).map display = some "fe80::1:0:0:c0a8:1".toList ∧
    (parse "::ffff:10.0.0.1".toList).map display = some "::ffff:10.0.0.1".toList ∧
    (parse "127.0.0.1".toList).map display = some "127.0.0.1".toList ∧
    parse "127.0.0.01".toList = none := by decide +kernel

end IpAddr

end Gyre.Lib
