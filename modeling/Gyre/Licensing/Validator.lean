/- digest: Validation of a licence key against the server, with a signed cache for the time offline. -/

import Gyre.Licensing.License

/-!
The server, the clock and the operating system answer each attempt as they like. The cache is written to
a temporary file that then takes the place of the old one.
-/

set_option autoImplicit false
set_option relaxedAutoImplicit false

namespace Gyre.Licensing

open Gyre.Lib

def gracePeriodSecs : Nat := 72 * 3600

structure ServerFeatures where
  maxAgents : Option Nat
  tribeEnabled : Bool
  curiosityEngine : Bool
  memoryDays : Option Nat
  multiTenant : Bool
  prioritySupport : Bool
  whiteLabel : Bool
  deriving DecidableEq, Repr

structure ServerSeats where
  limit : Option Nat
  registered : List (List Char)
  thisMachineRegistered : Bool
  deriving DecidableEq, Repr

structure ServerLicenseInfo where
  customerEmail : Option (List Char)
  createdAt : Option (List Char)
  expiresAt : Option (List Char)
  deriving DecidableEq, Repr

structure ValidateResponse where
  valid : Bool
  tier : Option (List Char)
  features : Option ServerFeatures
  seats : Option ServerSeats
  license : Option ServerLicenseInfo
  reason : Option (List Char)
  message : Option (List Char)
  deriving DecidableEq, Repr

/-- How the request to the server ends. -/
inductive Answer where
  /-- No client, no connection, or no response within the timeout. -/
  | unsent (error : List Char)
  /-- A response whose body does not arrive, or is not the JSON of a `ValidateResponse`. -/
  | unread (status : Nat) (error : List Char)
  | answered (status : Nat) (body : ValidateResponse)
  deriving DecidableEq, Repr

/-- `StatusCode::is_success`. -/
def isSuccess (status : Nat) : Bool := 200 ≤ status && status < 300

/-- The libraries for hashes, message authentication, JSON and HTTP. -/
structure Library where
  sha256Hex : List Char → List Char
  /-- `compute_hmac`, for a machine, over a key's hash, a time and a response. -/
  computeHmac : (machineId keyHash : List Char) → (validatedAt : Nat) → (response : List Char) → List Char
  /-- The text of the JSON of a license. -/
  licenseJson : License → List Char
  /-- A status code with its reason phrase. -/
  statusText : Nat → List Char

structure LicenseCache where
  keyHash : List Char
  validatedAt : Nat
  expiresGraceAt : Nat
  response : License
  hmac : List Char
  deriving DecidableEq, Repr

namespace LicenseCache

def isHmacValid (x : Library) (c : LicenseCache) (machineId : List Char) : Bool :=
  x.computeHmac machineId c.keyHash c.validatedAt (x.licenseJson c.response) = c.hmac

def new (x : Library) (now : Nat) (key machineId : List Char) (response : License) : LicenseCache :=
  let keyHash := x.sha256Hex key
  ⟨keyHash, now, now + gracePeriodSecs, response,
    x.computeHmac machineId keyHash now (x.licenseJson response)⟩

end LicenseCache

/-- The files under `~/.gyre`. -/
structure Disk where
  cache : Option LicenseCache
  key : Option (List Char)
  deriving DecidableEq, Repr

def Disk.new : Disk := ⟨none, none⟩

/-- What the machine answers during one attempt: its identifier, the time, and which operations on the
files succeed. -/
structure Io where
  machineId : List Char
  now : Nat
  reads : Bool
  writes : Bool
  removes : Bool
  keyReads : Bool
  keyWrites : Bool
  keyRemoves : Bool
  deriving DecidableEq, Repr

section Cache

variable (x : Library) (io : Io)

/-- `load_cache`. -/
def loadCache (disk : Disk) : Option LicenseCache :=
  match disk.cache with
  | none => none
  | some cache =>
    if !io.reads then none
    else if !cache.isHmacValid x io.machineId then none
    else some cache

/-- `save_cache`. -/
def saveCache (key : List Char) (response : License) (disk : Disk) : Disk :=
  if io.writes then { disk with cache := some (.new x io.now key io.machineId response) } else disk

/-- `clear_cache`. -/
def clearCache (disk : Disk) : Disk := if io.removes then { disk with cache := none } else disk

/-- `check_cache`. -/
def checkCache (key : List Char) (disk : Disk) : LicenseStatus :=
  match loadCache x io disk with
  | none => .noLicense
  | some cache =>
    if cache.keyHash ≠ x.sha256Hex key then .noLicense
    else if gracePeriodSecs < io.now - cache.validatedAt then .graceExpired
    else .gracePeriod { cache.response with validatedAt := cache.validatedAt }

/-- `save_key_file`. -/
def saveKeyFile (key : List Char) (disk : Disk) : Except LicenseError Disk :=
  if io.keyWrites then .ok { disk with key := some key } else .error .io

/-- `load_key_file`. -/
def loadKeyFile (disk : Disk) : Option (List Char) :=
  if io.keyReads then disk.key.map Text.trim else none

end Cache

/-- `parse_tier`. -/
def parseTier (u : Text.Unicode) (s : List Char) : Tier :=
  let lower := u.lowercase s
  if lower = "standard".toList then .standard
  else if lower = "pro".toList then .pro
  else if lower = "enterprise".toList then .enterprise
  else .free

/-- The license in a response that is valid. -/
def buildLicense (u : Text.Unicode) (now : Nat) (key : List Char) (body : ValidateResponse) : License :=
  let tier := parseTier u (body.tier.getD "free".toList)
  { key
    tier
    gates := match body.features with
      | none => .forTier tier
      | some f => ⟨f.maxAgents, f.tribeEnabled, f.curiosityEngine, f.memoryDays, f.multiTenant,
          f.prioritySupport, f.whiteLabel⟩
    customerEmail := body.license.bind (·.customerEmail)
    createdAt := body.license.bind (·.createdAt)
    expiresAt := body.license.bind (·.expiresAt)
    seatLimit := body.seats.bind (·.limit)
    seatsRegistered := (body.seats.map (·.registered.length)).getD 0
    thisMachineRegistered := (body.seats.map (·.thisMachineRegistered)).getD false
    validatedAt := now }

section Validation

variable (u : Text.Unicode) (x : Library) (io : Io) (answer : Answer)

/-- `validate_remote`. -/
def validateRemote (key : List Char) (disk : Disk) : Disk × Except LicenseError LicenseStatus :=
  match answer with
  | .unsent error => (disk, .error (.networkError error))
  | .unread _ error => (disk, .error (.validationFailed ("bad server response: ".toList ++ error)))
  | .answered status body =>
    if !body.valid then
      (disk, .error (.validationFailed
        ((body.message.or body.reason).getD "License is not valid".toList)))
    else if !isSuccess status then
      (disk, .error (.validationFailed ("Server returned HTTP ".toList ++ x.statusText status)))
    else
      let license := buildLicense u io.now key body
      (saveCache x io key license disk, .ok (.valid license))

/-- `validate_license`. -/
def validateLicense (key : List Char) (disk : Disk) : Disk × LicenseStatus :=
  let key := normalizeKey u key
  match validateRemote u x io answer key disk with
  | (disk, .ok status) => (disk, status)
  | (disk, .error (.networkError _)) => (disk, checkCache x io key disk)
  | (disk, .error (.validationFailed reason)) => (clearCache io disk, .invalid reason)
  | (disk, .error _) => (disk, checkCache x io key disk)

/-- `activate_license`. -/
def activateLicense (key : List Char) (disk : Disk) : Disk × Except LicenseError LicenseStatus :=
  let key := normalizeKey u key
  if !isValidKeyFormat u key then (disk, .error .invalidKeyFormat)
  else match validateRemote u x io answer key disk with
    | (disk, .error e) => (disk, .error e)
    | (disk, .ok status) =>
      match saveKeyFile io key disk with
      | .error e => (disk, .error e)
      | .ok disk => (disk, .ok status)

/-- `load_and_validate`. -/
def loadAndValidate (disk : Disk) : Disk × LicenseStatus :=
  match loadKeyFile io disk with
  | some key => validateLicense u x io answer key disk
  | none => (disk, .noLicense)

end Validation

/-- `deactivate_license`. -/
def deactivateLicense (io : Io) (disk : Disk) : Disk :=
  let disk := clearCache io disk
  if io.keyRemoves then { disk with key := none } else disk

end Gyre.Licensing
