/- digest: Identifiers and JSON values shared by every part of the agent. -/

import Mathlib.Data.List.Basic

set_option autoImplicit false
set_option relaxedAutoImplicit false

namespace Gyre.Llm

/-- A 128-bit identifier; the model never looks at its bits, only at equality. -/
structure Uuid where
  bits : BitVec 128
  deriving DecidableEq, Repr

def Uuid.ofNat (n : Nat) : Uuid := ⟨BitVec.ofNat 128 n⟩

/-- The hyphenated lower-case form that `to_string` prints. -/
def Uuid.toString (u : Uuid) : String :=
  let digits := Nat.toDigits 16 u.bits.toNat
  let hex := List.replicate (32 - digits.length) '0' ++ digits
  let block (start len : Nat) := (hex.drop start).take len
  String.ofList (['-'].intercalate [block 0 8, block 8 4, block 12 4, block 16 4, block 20 12])

/-- A JSON number: an integer, or a float kept as its bit pattern. -/
inductive Number where
  | int (n : Int)
  | float (bits : UInt64)
  deriving DecidableEq, Repr

/-- `serde_json::Value`. -/
inductive Json where
  | null
  | bool (b : Bool)
  | number (n : Number)
  | string (s : String)
  | array (items : List Json)
  | object (fields : List (String × Json))
  deriving Repr

namespace Json

mutual

private def decEqJson : (a b : Json) → Decidable (a = b)
  | .null, .null => isTrue rfl
  | .bool a, .bool b => decidable_of_iff (a = b) ⟨fun h => h ▸ rfl, fun h => by cases h; rfl⟩
  | .number a, .number b => decidable_of_iff (a = b) ⟨fun h => h ▸ rfl, fun h => by cases h; rfl⟩
  | .string a, .string b => decidable_of_iff (a = b) ⟨fun h => h ▸ rfl, fun h => by cases h; rfl⟩
  | .array a, .array b =>
    match decEqItems a b with
    | isTrue h => isTrue (h ▸ rfl)
    | isFalse h => isFalse fun e => h (by cases e; rfl)
  | .object a, .object b =>
    match decEqFields a b with
    | isTrue h => isTrue (h ▸ rfl)
    | isFalse h => isFalse fun e => h (by cases e; rfl)
  | .null, .bool _ | .null, .number _ | .null, .string _ | .null, .array _ | .null, .object _ =>
    isFalse nofun
  | .bool _, .null | .bool _, .number _ | .bool _, .string _ | .bool _, .array _
  | .bool _, .object _ => isFalse nofun
  | .number _, .null | .number _, .bool _ | .number _, .string _ | .number _, .array _
  | .number _, .object _ => isFalse nofun
  | .string _, .null | .string _, .bool _ | .string _, .number _ | .string _, .array _
  | .string _, .object _ => isFalse nofun
  | .array _, .null | .array _, .bool _ | .array _, .number _ | .array _, .string _
  | .array _, .object _ => isFalse nofun
  | .object _, .null | .object _, .bool _ | .object _, .number _ | .object _, .string _
  | .object _, .array _ => isFalse nofun

private def decEqItems : (a b : List Json) → Decidable (a = b)
  | [], [] => isTrue rfl
  | [], _ :: _ => isFalse nofun
  | _ :: _, [] => isFalse nofun
  | a :: as, b :: bs =>
    match decEqJson a b, decEqItems as bs with
    | isTrue h, isTrue hs => isTrue (h ▸ hs ▸ rfl)
    | isFalse h, _ => isFalse fun e => h (by cases e; rfl)
    | _, isFalse h => isFalse fun e => h (by cases e; rfl)

private def decEqFields : (a b : List (String × Json)) → Decidable (a = b)
  | [], [] => isTrue rfl
  | [], _ :: _ => isFalse nofun
  | _ :: _, [] => isFalse nofun
  | (k, a) :: as, (l, b) :: bs =>
    match decEq k l, decEqJson a b, decEqFields as bs with
    | isTrue hk, isTrue h, isTrue hs => isTrue (hk ▸ h ▸ hs ▸ rfl)
    | isFalse h, _, _ => isFalse fun e => h (by cases e; rfl)
    | _, isFalse h, _ => isFalse fun e => h (by cases e; rfl)
    | _, _, isFalse h => isFalse fun e => h (by cases e; rfl)

end

instance : DecidableEq Json := decEqJson

/-- `Value::get` with a string key: the field of an object, `none` on any other value. -/
def get (v : Json) (key : String) : Option Json :=
  match v with
  | .object fields => (fields.find? (fun f => f.1 == key)).map Prod.snd
  | _ => none

/-- `Value::as_str`. -/
def asStr : Json → Option String
  | .string s => some s
  | _ => none

end Json

/-- The JSON printer and reader the agent uses (`serde_json`); nothing below depends on how they
work, only on which text they are given. -/
structure Serde where
  toStr : Json → String
  toStrPretty : Json → String
  fromStr : String → Option Json

end Gyre.Llm
