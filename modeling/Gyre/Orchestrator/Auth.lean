/- digest: The store of bearer tokens and credential grants of sandbox jobs. -/

import Mathlib.Logic.Function.Basic
import Gyre.Llm.Value

set_option autoImplicit false
set_option relaxedAutoImplicit false

namespace Gyre.Orchestrator

open Gyre.Llm (Uuid)

/-- A secret, and the environment variable in which a worker expects it. -/
structure CredentialGrant where
  secretName : String
  envVar : String
  deriving DecidableEq, Repr

/-- Two maps, each behind a lock of its own. -/
structure TokenStore where
  tokens : Uuid → Option String
  credentialGrants : Uuid → Option (List CredentialGrant)

namespace TokenStore

def new : TokenStore := ⟨fun _ => none, fun _ => none⟩

/-- `create_token`, with the token that was generated. -/
def createToken (s : TokenStore) (jobId : Uuid) (token : String) : TokenStore :=
  { s with tokens := Function.update s.tokens jobId (some token) }

def validate (s : TokenStore) (jobId : Uuid) (token : String) : Bool :=
  match s.tokens jobId with
  | some stored => stored == token
  | none => false

/-- The first half of `revoke`. -/
def removeToken (s : TokenStore) (jobId : Uuid) : TokenStore :=
  { s with tokens := Function.update s.tokens jobId none }

/-- The second half of `revoke`. -/
def removeGrants (s : TokenStore) (jobId : Uuid) : TokenStore :=
  { s with credentialGrants := Function.update s.credentialGrants jobId none }

/-- `store_grants`; an empty list is not stored. -/
@[grind =] def storeGrants (s : TokenStore) (jobId : Uuid) (grants : List CredentialGrant) : TokenStore :=
  if grants.isEmpty then s
  else { s with credentialGrants := Function.update s.credentialGrants jobId (some grants) }

def getGrants (s : TokenStore) (jobId : Uuid) : Option (List CredentialGrant) :=
  s.credentialGrants jobId

end TokenStore

/-- `HeaderValue::to_str`: visible ASCII characters, and tabs. -/
def headerToStr (value : List UInt8) : Option (List Char) :=
  if value.all fun b => (32 ≤ b && b < 127) || b == 9 then
    some (value.map fun b => Char.ofNat b.toNat)
  else none

/-- The token in an `Authorization` header. -/
def bearerToken (authorization : Option (List UInt8)) : Option String :=
  match authorization.bind headerToStr with
  | none => none
  | some text =>
    let scheme := ['B', 'e', 'a', 'r', 'e', 'r', ' ']
    if scheme.isPrefixOf text then some (String.ofList (text.drop scheme.length)) else none

/-- `extract_job_id_from_path`, with `Uuid::parse_str`. -/
def extractJobIdFromPath (parseStr : List Char → Option Uuid) (path : List Char) : Option Uuid :=
  match (path.dropWhile (· == '/')).splitOn '/' with
  | first :: second :: _ => if first = ['w', 'o', 'r', 'k', 'e', 'r'] then parseStr second else none
  | _ => none

end Gyre.Orchestrator
