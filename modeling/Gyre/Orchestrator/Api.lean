/- digest: The API that workers call: its routes, the token check, and the handler of credentials. -/

import Gyre.Lib.Bytes
import Gyre.Lib.Runs
import Gyre.Orchestrator.Auth

/-!
Requests, revocations and the other calls of the token store come and go between each other's sections.
A section holds one lock of the token store, or none.
-/

set_option autoImplicit false
set_option relaxedAutoImplicit false

namespace Gyre.Orchestrator

open Gyre.Lib
open Gyre.Llm (Uuid)

inductive Method where
  | get
  | head
  | post
  | other
  deriving DecidableEq, Repr

/-- The routes behind `worker_auth_middleware`. -/
inductive Route where
  | job
  | llmComplete
  | llmCompleteWithTools
  | status
  | complete
  | event
  | prompt
  | credentials
  deriving DecidableEq, Repr

namespace Route

def all : List Route :=
  [job, llmComplete, llmCompleteWithTools, status, complete, event, prompt, credentials]

/-- What the pattern has after `/worker/{job_id}/`. -/
def tail : Route → List String
  | job => ["job"]
  | llmComplete => ["llm", "complete"]
  | llmCompleteWithTools => ["llm", "complete_with_tools"]
  | status => ["status"]
  | complete => ["complete"]
  | event => ["event"]
  | prompt => ["prompt"]
  | credentials => ["credentials"]

/-- A handler for `GET` is given `HEAD` requests, too. -/
def accepts : Route → Method → Bool
  | job, m | prompt, m | credentials, m => m = .get || m = .head
  | _, m => m = .post

end Route

structure WorkerRequest where
  method : Method
  path : List Char
  /-- The bytes of the `Authorization` header. -/
  authorization : Option (List UInt8)
  deriving DecidableEq, Repr

/-- The route whose pattern a path matches, with the segment in the place of `{job_id}`. -/
def matchRoute (path : List Char) : Option (Route × List Char) :=
  match path.splitOn '/' with
  | [] :: worker :: segment :: rest =>
    if worker = ['w', 'o', 'r', 'k', 'e', 'r'] ∧ segment ≠ [] then
      (Route.all.find? fun route => route.tail.map String.toList = rest).map fun route => (route, segment)
    else none
  | _ => none

/-- What the server is set up with. -/
structure OrchestratorState where
  /-- `Uuid::parse_str`. -/
  parseStr : List Char → Option Uuid
  /-- Whether a secrets store is configured. -/
  secretsStore : Bool
  userId : String

inductive StatusCode where
  | badRequest
  | unauthorized
  | notFound
  | methodNotAllowed
  deriving DecidableEq, Repr

structure CredentialResponse where
  envVar : String
  value : String
  deriving DecidableEq, Repr

/-- What a handler answers. -/
inductive Outcome where
  /-- Any answer of another handler than that of credentials. -/
  | answered
  | noContent
  | serviceUnavailable
  | internalServerError
  | credentials (credentials : List CredentialResponse)
  deriving DecidableEq, Repr

inductive Response where
  /-- The request has not come to a handler. -/
  | rejected (status : StatusCode)
  | served (route : Route) (jobId : Uuid) (outcome : Outcome)
  deriving DecidableEq, Repr

inductive RequestPhase where
  | routing
  | validating (route : Route) (segment : List Char) (jobId : Uuid) (token : String)
  /-- Past the middleware. -/
  | handling (route : Route) (segment : List Char)
  | readingGrants (jobId : Uuid)
  | decrypting (jobId : Uuid) (credentials : List CredentialResponse) (rest : List CredentialGrant)
  | responding (response : Response)
  | responded
  deriving DecidableEq, Repr

structure RequestCall where
  request : WorkerRequest
  phase : RequestPhase
  deriving DecidableEq, Repr

inductive RevokePhase where
  | removeToken
  | removeGrants
  | returned
  deriving DecidableEq, Repr

structure Revocation where
  jobId : Uuid
  phase : RevokePhase
  deriving DecidableEq, Repr

/-- What happens, for the record; requests and revocations are numbered in the order they come. -/
inductive Event where
  | issued (jobId : Uuid) (token : String)
  | granted (jobId : Uuid) (grants : List CredentialGrant)
  /-- A token was found valid, for a request or for someone else. -/
  | validated (caller : Option Nat) (jobId : Uuid) (token : String)
  | grantsRead (caller : Option Nat) (jobId : Uuid) (grants : Option (List CredentialGrant))
  | revoking (call : Nat) (jobId : Uuid)
  | tokenRemoved (call : Nat) (jobId : Uuid)
  /-- The grants have been removed, and `revoke` returns. -/
  | revoked (call : Nat) (jobId : Uuid)
  | received (caller : Nat) (request : WorkerRequest)
  | secretRead (caller : Nat) (userId secretName value : String)
  | responded (caller : Nat) (response : Response)
  deriving DecidableEq, Repr

structure ApiWorld where
  tokenStore : TokenStore
  revocations : List Revocation
  requests : List RequestCall

@[grind =] def ApiWorld.new : ApiWorld := ⟨TokenStore.new, [], []⟩

inductive Section where
  /-- `create_token`, with the token that was generated. -/
  | createToken (jobId : Uuid) (token : String)
  | storeGrants (jobId : Uuid) (grants : List CredentialGrant)
  | validate (jobId : Uuid) (token : String)
  | getGrants (jobId : Uuid)
  | revoke (jobId : Uuid)
  | proceedRevoke (call : Nat)
  | receive (request : WorkerRequest)
  /-- The next section of a request, with the secret that `get_decrypted` finds if it is asked. -/
  | proceed (caller : Nat) (decrypted : Option String)
  deriving DecidableEq, Repr

namespace OrchestratorState

variable (state : OrchestratorState)

/-- The job for which a handler works: `Path<Uuid>`. -/
def pathJobId (segment : List Char) : Option Uuid :=
  (Bytes.percentDecode segment).bind state.parseStr

/-- A section of a request. -/
@[grind =] def requestStep (store : TokenStore) (decrypted : Option String) (caller : Nat)
    (request : WorkerRequest) : RequestPhase → RequestPhase × List Event
  | .routing =>
    match matchRoute request.path with
    | none => (.responding (.rejected .notFound), [])
    | some (route, segment) =>
      match extractJobIdFromPath state.parseStr request.path with
      | none => (.responding (.rejected .badRequest), [])
      | some jobId =>
        match bearerToken request.authorization with
        | none => (.responding (.rejected .unauthorized), [])
        | some token => (.validating route segment jobId token, [])
  | .validating route segment jobId token =>
    if store.validate jobId token then
      (.handling route segment, [.validated (some caller) jobId token])
    else (.responding (.rejected .unauthorized), [])
  | .handling route segment =>
    if route.accepts request.method then
      match state.pathJobId segment with
      | none => (.responding (.rejected .badRequest), [])
      | some jobId =>
        if route = .credentials then (.readingGrants jobId, [])
        else (.responding (.served route jobId .answered), [])
    else (.responding (.rejected .methodNotAllowed), [])
  | .readingGrants jobId =>
    let grants := store.getGrants jobId
    let next := match grants with
      | some (grant :: rest) =>
        if state.secretsStore then .decrypting jobId [] (grant :: rest)
        else .responding (.served .credentials jobId .serviceUnavailable)
      | _ => .responding (.served .credentials jobId .noContent)
    (next, [.grantsRead (some caller) jobId grants])
  | .decrypting jobId credentials [] =>
    (.responding (.served .credentials jobId (.credentials credentials)), [])
  | .decrypting jobId credentials (grant :: rest) =>
    match decrypted with
    | none => (.responding (.served .credentials jobId .internalServerError), [])
    | some value =>
      (.decrypting jobId (credentials ++ [⟨grant.envVar, value⟩]) rest,
        [.secretRead caller state.userId grant.secretName value])
  | .responding response => (.responded, [.responded caller response])
  | .responded => (.responded, [])

/-- A section of `revoke`. -/
@[grind =] def revokeStep (w : ApiWorld) (call : Nat) (r : Revocation) : ApiWorld × List Event :=
  match r.phase with
  | .removeToken =>
    (⟨w.tokenStore.removeToken r.jobId, w.revocations.set call ⟨r.jobId, .removeGrants⟩, w.requests⟩,
      [.tokenRemoved call r.jobId])
  | .removeGrants =>
    (⟨w.tokenStore.removeGrants r.jobId, w.revocations.set call ⟨r.jobId, .returned⟩, w.requests⟩,
      [.revoked call r.jobId])
  | .returned => (w, [])

@[grind =] def step (w : ApiWorld) : Section → ApiWorld × List Event
  | .createToken jobId token =>
    ({ w with tokenStore := w.tokenStore.createToken jobId token }, [.issued jobId token])
  | .storeGrants jobId grants =>
    ({ w with tokenStore := w.tokenStore.storeGrants jobId grants },
      if grants.isEmpty then [] else [.granted jobId grants])
  | .validate jobId token =>
    (w, if w.tokenStore.validate jobId token then [.validated none jobId token] else [])
  | .getGrants jobId => (w, [.grantsRead none jobId (w.tokenStore.getGrants jobId)])
  | .revoke jobId =>
    ({ w with revocations := w.revocations ++ [⟨jobId, .removeToken⟩] },
      [.revoking w.revocations.length jobId])
  | .proceedRevoke call =>
    match w.revocations[call]? with
    | none => (w, [])
    | some r => revokeStep w call r
  | .receive request =>
    ({ w with requests := w.requests ++ [⟨request, .routing⟩] }, [.received w.requests.length request])
  | .proceed caller decrypted =>
    match w.requests[caller]? with
    | none => (w, [])
    | some c =>
      let next := state.requestStep w.tokenStore decrypted caller c.request c.phase
      ({ w with requests := w.requests.set caller ⟨c.request, next.1⟩ }, next.2)

/-- What has happened after some sections, in order. -/
def log (sections : List Section) : List Event := (run state.step ApiWorld.new sections).2

end OrchestratorState

end Gyre.Orchestrator
