/- digest: Licence tiers, the features they open, and the statuses a validation can end in. -/

import Gyre.Lib.Text

set_option autoImplicit false
set_option relaxedAutoImplicit false

namespace Gyre.Licensing

open Gyre.Lib

inductive Tier where
  | free
  | standard
  | pro
  | enterprise
  deriving DecidableEq, Repr

/-- Feature flags derived from the active license tier; no limit is `none`. -/
structure FeatureGates where
  maxAgents : Option Nat
  tribeEnabled : Bool
  curiosityEngine : Bool
  memoryDays : Option Nat
  multiTenant : Bool
  prioritySupport : Bool
  whiteLabel : Bool
  deriving DecidableEq, Repr

def FeatureGates.forTier : Tier → FeatureGates
  | .free => ⟨some 1, false, false, some 7, false, false, false⟩
  | .standard => ⟨some 3, true, true, none, false, false, false⟩
  | .pro => ⟨none, true, true, none, true, true, false⟩
  | .enterprise => ⟨none, true, true, none, true, true, true⟩

def FeatureGates.free : FeatureGates := .forTier .free

/-- A validated license with the metadata of the server. -/
structure License where
  key : List Char
  tier : Tier
  gates : FeatureGates
  customerEmail : Option (List Char)
  createdAt : Option (List Char)
  expiresAt : Option (List Char)
  seatLimit : Option Nat
  seatsRegistered : Nat
  thisMachineRegistered : Bool
  validatedAt : Nat
  deriving DecidableEq, Repr

inductive LicenseStatus where
  | valid (license : License)
  | gracePeriod (license : License)
  | graceExpired
  | invalid (reason : List Char)
  | noLicense
  deriving DecidableEq, Repr

namespace LicenseStatus

def license : LicenseStatus → Option License
  | valid l | gracePeriod l => some l
  | _ => none

def featureGates : LicenseStatus → FeatureGates
  | valid l | gracePeriod l => l.gates
  | graceExpired | invalid _ | noLicense => .free

def effectiveTier : LicenseStatus → Tier
  | valid l | gracePeriod l => l.tier
  | _ => .free

/-- Online or in grace, with a tier that is not free. -/
def isPaid : LicenseStatus → Bool
  | valid l | gracePeriod l => decide (l.tier ≠ .free)
  | _ => false

theorem featureGates_of_license_none {s : LicenseStatus} (h : s.license = none) :
    s.featureGates = .free ∧ s.isPaid = false := by
  cases s with
  | valid l => cases h
  | gracePeriod l => cases h
  | graceExpired => exact ⟨rfl, rfl⟩
  | invalid reason => exact ⟨rfl, rfl⟩
  | noLicense => exact ⟨rfl, rfl⟩

end LicenseStatus

inductive LicenseError where
  | validationFailed (reason : List Char)
  | cacheError
  | networkError (reason : List Char)
  | invalidKeyFormat
  | io
  deriving DecidableEq, Repr

/-- `normalize_key`. -/
def normalizeKey (u : Text.Unicode) (key : List Char) : List Char := u.uppercase (Text.trim key)

/-- Letters without `I` and `O`, digits without `0` and `1`. -/
def isKeyChar (c : Char) : Bool :=
  'A' ≤ c && c ≤ 'H' || 'J' ≤ c && c ≤ 'N' || 'P' ≤ c && c ≤ 'Z' || '2' ≤ c && c ≤ '9'

/-- `is_valid_key_format`; the length in bytes is that in characters, where all of them are as asked. -/
def isValidKeyFormat (u : Text.Unicode) (key : List Char) : Bool :=
  let parts := (normalizeKey u key).splitOn '-'
  parts.length = 6 && parts.head? = some "GYRE".toList &&
    parts.tail.all fun p => p.length = 4 && p.all isKeyChar

end Gyre.Licensing
