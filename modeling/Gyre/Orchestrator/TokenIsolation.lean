/- digest: Workers are served under the current token of their own job, and revoked tokens and grants stay unusable. -/

import Mathlib.Data.List.Forall2
import Gyre.Lib.Grants
import Gyre.Lib.Logs
import Gyre.Orchestrator.Api

/-!
What the store holds is told by the log: a token, or a list of grants, is asked for when it is put in
place, and withdrawn by `revoke`.
-/

set_option autoImplicit false
set_option relaxedAutoImplicit false

namespace Gyre.Orchestrator

open Gyre.Lib
open Gyre.Lib.Grants (Move replay)
open Gyre.Llm (Uuid)

namespace Event

@[grind =] def tokenMove : Event → Option (Move Uuid String)
  | issued jobId token => some (.ask jobId token)
  | tokenRemoved _ jobId => some (.withdraw jobId)
  | _ => none

@[grind =] def grantMove : Event → Option (Move Uuid (List CredentialGrant))
  | granted jobId grants => some (.ask jobId grants)
  | revoked _ jobId => some (.withdraw jobId)
  | _ => none

def issuedToken? : Event → Option String
  | issued _ token => some token
  | _ => none

end Event

/-- The token currently issued for each job. -/
@[grind =] def issuedToken (log : List Event) : Uuid → Option String :=
  replay (fun _ => none) (log.filterMap Event.tokenMove)

/-- The secrets currently granted to each job. -/
@[grind =] def storedGrants (log : List Event) : Uuid → Option (List CredentialGrant) :=
  replay (fun _ => none) (log.filterMap Event.grantMove)

/-- The route and the job that a request is for. -/
def WorkerRequest.target (state : OrchestratorState) (request : WorkerRequest) : Option (Route × Uuid) :=
  match matchRoute request.path with
  | none => none
  | some (route, segment) => (state.pathJobId segment).map fun jobId => (route, jobId)

/-- A credential is what the secrets store has for a grant. -/
def Event.Delivers (state : OrchestratorState) (caller : Nat) (log : List Event)
    (credential : CredentialResponse) (grant : CredentialGrant) : Prop :=
  credential.envVar = grant.envVar ∧
    .secretRead caller state.userId grant.secretName credential.value ∈ log

/-- Token isolation, as a property of what has happened. -/
structure Isolated (state : OrchestratorState) (log : List Event) : Prop where
  validated : ∀ before caller jobId token after, log = before ++ .validated caller jobId token :: after →
    issuedToken before jobId = some token
  grantsRead : ∀ before caller jobId grants after,
    log = before ++ .grantsRead caller jobId grants :: after → storedGrants before jobId = grants
  /-- A request that comes to a handler carries the token of the job it is for. -/
  served : ∀ before caller route jobId outcome after,
    log = before ++ .responded caller (.served route jobId outcome) :: after →
    ∃ request token, .received caller request ∈ before ∧
      request.target state = some (route, jobId) ∧ bearerToken request.authorization = some token ∧
      .validated (some caller) jobId token ∈ before
  /-- Credentials are for the secrets granted to the job. -/
  credentials : ∀ before caller route jobId credentials after,
    log = before ++ .responded caller (.served route jobId (.credentials credentials)) :: after →
    ∃ older grants newer, before = older ++ .grantsRead (some caller) jobId (some grants) :: newer ∧
      .granted jobId grants ∈ older ∧
      List.Forall₂ (Event.Delivers state caller newer) credentials grants
  /-- What is valid after `revoke` has returned was put in place since it was called. -/
  revoked : ∀ before during between call jobId,
    log = before ++ .revoking call jobId :: (during ++ .revoked call jobId :: between) →
    (∀ newer caller token after, between = newer ++ .validated caller jobId token :: after →
      .issued jobId token ∈ during ++ newer) ∧
    (∀ newer caller grants after, between = newer ++ .grantsRead caller jobId (some grants) :: after →
      .granted jobId grants ∈ newer)
  /-- So it is for every request that comes after `revoke` has returned, whatever the job is issued
  later; and where no token is generated twice, none from before is of use. -/
  later : ∀ before during between after call jobId caller request,
    log = before ++ .revoking call jobId ::
      (during ++ .revoked call jobId :: (between ++ .received caller request :: after)) →
    (∀ token, .validated (some caller) jobId token ∈ log →
      .issued jobId token ∈ during ++ (between ++ after) ∧
      ((log.filterMap Event.issuedToken?).Nodup → ∀ other, .issued other token ∉ before)) ∧
    (∀ grants, .grantsRead (some caller) jobId (some grants) ∈ log →
      .granted jobId grants ∈ between ++ after)

/-- Whom an event belongs to. -/
inductive Owner where
  | request (caller : Nat)
  | revocation (call : Nat)
  deriving DecidableEq, Repr

namespace Event

@[grind =] def owner : Event → Option Owner
  | validated caller _ _ | grantsRead caller _ _ => caller.map .request
  | received caller _ | secretRead caller _ _ _ | responded caller _ => some (.request caller)
  | revoking call _ | tokenRemoved call _ | revoked call _ => some (.revocation call)
  | issued _ _ | granted _ _ => none

def opening : Event → Option Owner
  | received caller _ => some (.request caller)
  | revoking call _ => some (.revocation call)
  | _ => none

end Event

section Laws

variable (state : OrchestratorState) (log : List Event) (caller : Nat)

/-- A request has passed the middleware under the token of the job it is for. -/
def Admitted (request : WorkerRequest) (route : Route) (jobId : Uuid) : Prop :=
  request.target state = some (route, jobId) ∧
    ∃ token, bearerToken request.authorization = some token ∧ .validated (some caller) jobId token ∈ log

/-- Credentials are for the first of the grants of a job, and the rest is still to come. -/
def Fetched (jobId : Uuid) (credentials : List CredentialResponse) (rest : List CredentialGrant) : Prop :=
  ∃ older fetched newer, log = older ++ .grantsRead (some caller) jobId (some (fetched ++ rest)) :: newer ∧
    .granted jobId (fetched ++ rest) ∈ older ∧
    List.Forall₂ (Event.Delivers state caller newer) credentials fetched

/-- What a response goes by. -/
def Founded (request : WorkerRequest) : Response → Prop
  | .rejected _ => True
  | .served route jobId outcome => Admitted state log caller request route jobId ∧
    ∀ credentials, outcome = .credentials credentials → Fetched state log caller jobId credentials []

/-- What is known of a request where it stands. -/
def PhaseOk (request : WorkerRequest) : RequestPhase → Prop
  | .routing => True
  | .validating route segment jobId token =>
    matchRoute request.path = some (route, segment) ∧ state.parseStr segment = some jobId ∧
      bearerToken request.authorization = some token
  | .handling route segment => ∃ jobId token,
    matchRoute request.path = some (route, segment) ∧ state.parseStr segment = some jobId ∧
      bearerToken request.authorization = some token ∧ .validated (some caller) jobId token ∈ log
  | .readingGrants jobId => Admitted state log caller request .credentials jobId
  | .decrypting jobId credentials rest =>
    Admitted state log caller request .credentials jobId ∧ Fetched state log caller jobId credentials rest
  | .responding response => Founded state log caller request response
  | .responded => True

/-- What holds where an event is entered in the log. -/
def Lawful : Event → Prop
  | .validated _ jobId token => issuedToken log jobId = some token
  | .grantsRead _ jobId grants => storedGrants log jobId = grants
  | .responded caller response =>
    ∃ request, .received caller request ∈ log ∧ Founded state log caller request response
  | .revoked call jobId => .tokenRemoved call jobId ∈ log
  | _ => True

end Laws

section Growth

variable {state : OrchestratorState} {log : List Event} {caller : Nat} {request : WorkerRequest}

private theorem Admitted.grow {route : Route} {jobId : Uuid} (es : List Event)
    (h : Admitted state log caller request route jobId) :
    Admitted state (log ++ es) caller request route jobId := by
  obtain ⟨htarget, token, hbearer, hvalid⟩ := h
  exact ⟨htarget, token, hbearer, List.mem_append_left es hvalid⟩

private theorem delivers_grow {credentials : List CredentialResponse} {grants : List CredentialGrant}
    (es : List Event) (h : List.Forall₂ (Event.Delivers state caller log) credentials grants) :
    List.Forall₂ (Event.Delivers state caller (log ++ es)) credentials grants :=
  h.imp fun _ _ hd => ⟨hd.1, List.mem_append_left es hd.2⟩

private theorem Fetched.grow {jobId : Uuid} {credentials : List CredentialResponse}
    {rest : List CredentialGrant} (es : List Event) (h : Fetched state log caller jobId credentials rest) :
    Fetched state (log ++ es) caller jobId credentials rest := by
  obtain ⟨older, fetched, newer, rfl, hgranted, hall⟩ := h
  exact ⟨older, fetched, newer ++ es, by simp, hgranted, delivers_grow es hall⟩

private theorem Founded.grow {response : Response} (es : List Event)
    (h : Founded state log caller request response) :
    Founded state (log ++ es) caller request response := by
  cases response with
  | rejected status => trivial
  | served route jobId outcome => exact ⟨h.1.grow es, fun credentials hc => (h.2 credentials hc).grow es⟩

private theorem PhaseOk.grow {phase : RequestPhase} (es : List Event)
    (h : PhaseOk state log caller request phase) : PhaseOk state (log ++ es) caller request phase := by
  cases phase with
  | routing => trivial
  | validating route segment jobId token => exact h
  | handling route segment =>
    obtain ⟨jobId, token, hmatch, hparse, hbearer, hvalid⟩ := h
    exact ⟨jobId, token, hmatch, hparse, hbearer, List.mem_append_left es hvalid⟩
  | readingGrants jobId => exact Admitted.grow es h
  | decrypting jobId credentials rest => exact ⟨h.1.grow es, h.2.grow es⟩
  | responding response => exact Founded.grow es h
  | responded => trivial

theorem issuedToken_append (log es : List Event) :
    issuedToken (log ++ es) = replay (issuedToken log) (es.filterMap Event.tokenMove) := by
  simp only [issuedToken, List.filterMap_append, Grants.replay_append]

theorem storedGrants_append (log es : List Event) :
    storedGrants (log ++ es) = replay (storedGrants log) (es.filterMap Event.grantMove) := by
  simp only [storedGrants, List.filterMap_append, Grants.replay_append]

end Growth

section Routing

/-- A path that has something before its first slash begins with no slash. -/
private theorem dropWhile_of_splitOn {path first : List Char} {rest : List (List Char)}
    (h : path.splitOn '/' = first :: rest) (hne : first ≠ []) : path.dropWhile (· == '/') = path := by
  rcases path with _ | ⟨c, path⟩
  · rfl
  · by_cases hc : c = '/'
    · subst hc
      rw [List.splitOn_cons_eq_if_modifyHead, if_pos (by decide)] at h
      exact absurd (List.cons.inj h).1.symm hne
    · exact List.dropWhile_cons_of_neg (by simpa using hc)

/-- The middleware reads the job in the same segment as the route. -/
theorem extract_of_match {path : List Char} {route : Route} {segment : List Char}
    (parseStr : List Char → Option Uuid) (h : matchRoute path = some (route, segment)) :
    extractJobIdFromPath parseStr path = parseStr segment := by
  unfold matchRoute at h
  split at h
  case h_2 => exact absurd h (by simp)
  case h_1 worker seg rest hsplit =>
    split_ifs at h with hguard
    obtain ⟨hworker, hsegment⟩ := hguard
    have hseg : seg = segment := by
      obtain ⟨found, -, hpair⟩ := Option.map_eq_some_iff.mp h
      exact congrArg Prod.snd hpair
    subst hseg
    rcases path with _ | ⟨c, path⟩
    · simp at hsplit
    · rw [List.splitOn_cons_eq_if_modifyHead] at hsplit
      split_ifs at hsplit with hc
      · have hpath : path.splitOn '/' = worker :: seg :: rest := (List.cons.inj hsplit).2
        have hdrop : (c :: path).dropWhile (· == '/') = path := by
          rw [List.dropWhile_cons, if_pos hc]
          exact dropWhile_of_splitOn hpath (by rw [hworker]; exact List.cons_ne_nil _ _)
        unfold extractJobIdFromPath
        rw [hdrop, hpath]
        exact if_pos hworker
      · rcases hhead : path.splitOn '/' with _ | ⟨first, others⟩
        · rw [hhead] at hsplit
          exact absurd hsplit (by simp)
        · rw [hhead] at hsplit
          exact absurd (List.cons.inj hsplit).1 (List.cons_ne_nil _ _)

/-- A handler works for the job that the middleware has checked the token of. -/
theorem target_of_match {state : OrchestratorState}
    (hparse : ∀ text jobId, state.parseStr text = some jobId → ∀ c ∈ text, Bytes.Plain c)
    {request : WorkerRequest} {route : Route} {segment : List Char} {jobId : Uuid}
    (hmatch : matchRoute request.path = some (route, segment))
    (hsegment : state.parseStr segment = some jobId) : request.target state = some (route, jobId) := by
  have hpath : state.pathJobId segment = some jobId := by
    unfold OrchestratorState.pathJobId
    rw [Bytes.percentDecode_plain (hparse segment jobId hsegment)]
    exact hsegment
  unfold WorkerRequest.target
  rw [hmatch]
  show (state.pathJobId segment).map _ = _
  rw [hpath]
  rfl

end Routing

/-- The world goes by the log. -/
structure Inv (state : OrchestratorState) (w : ApiWorld) (log : List Event) : Prop where
  tokens : w.tokenStore.tokens = issuedToken log
  grants : w.tokenStore.credentialGrants = storedGrants log
  requests : ∀ caller call, w.requests[caller]? = some call →
    .received caller call.request ∈ log ∧ PhaseOk state log caller call.request call.phase
  revocations : ∀ call r, w.revocations[call]? = some r → r.phase = .removeGrants →
    .tokenRemoved call r.jobId ∈ log
  callers : ∀ e ∈ log, ∀ n, Event.owner e = some (.request n) → n < w.requests.length
  calls : ∀ e ∈ log, ∀ n, Event.owner e = some (.revocation n) → n < w.revocations.length

/-- What is entered in the log: something lawful, and nothing of one's before its opening. -/
def Entry (state : OrchestratorState) (before : List Event) (e : Event) : Prop :=
  Lawful state before e ∧ OpensFirst Event.owner Event.opening before e

/-- What a step owes. -/
def Kept (state : OrchestratorState) (log : List Event) (next : ApiWorld × List Event) : Prop :=
  Inv state next.1 (log ++ next.2) ∧ Always (fun before e => Entry state (log ++ before) e) next.2

section Steps

variable {state : OrchestratorState} {w : ApiWorld} {log : List Event}

private theorem opens_none {before : List Event} {e : Event} (h : e.opening = none) :
    OpensFirst Event.owner Event.opening before e := by
  intro k hk
  rw [h] at hk
  exact absurd hk (by simp)

theorem Inv.new (state : OrchestratorState) : Inv state ApiWorld.new [] where
  tokens := rfl
  grants := rfl
  requests := by simp [ApiWorld.new]
  revocations := by simp [ApiWorld.new]
  callers := by simp
  calls := by simp

/-- A step keeps the invariant if it does so for what it changes. -/
theorem Inv.extend (h : Inv state w log) {next : ApiWorld} {es : List Event}
    (htokens : next.tokenStore.tokens = replay (issuedToken log) (es.filterMap Event.tokenMove))
    (hgrants : next.tokenStore.credentialGrants =
      replay (storedGrants log) (es.filterMap Event.grantMove))
    (hrequests : ∀ caller call, next.requests[caller]? = some call → w.requests[caller]? = some call ∨
      .received caller call.request ∈ log ++ es ∧
        PhaseOk state (log ++ es) caller call.request call.phase)
    (hrevocations : ∀ call r, next.revocations[call]? = some r → w.revocations[call]? = some r ∨
      (r.phase = .removeGrants → .tokenRemoved call r.jobId ∈ log ++ es))
    (hmore : w.requests.length ≤ next.requests.length ∧ w.revocations.length ≤ next.revocations.length)
    (hcallers : ∀ e ∈ es, ∀ n, Event.owner e = some (.request n) → n < next.requests.length)
    (hcalls : ∀ e ∈ es, ∀ n, Event.owner e = some (.revocation n) → n < next.revocations.length) :
    Inv state next (log ++ es) where
  tokens := by rw [issuedToken_append]; exact htokens
  grants := by rw [storedGrants_append]; exact hgrants
  requests := by
    intro caller call hcall
    rcases hrequests caller call hcall with hold | hnew
    · obtain ⟨hreceived, hphase⟩ := h.requests caller call hold
      exact ⟨List.mem_append_left es hreceived, hphase.grow es⟩
    · exact hnew
  revocations := by
    intro call r hr hphase
    rcases hrevocations call r hr with hold | hnew
    · exact List.mem_append_left es (h.revocations call r hold hphase)
    · exact hnew hphase
  callers := by
    intro e he n hn
    rcases List.mem_append.mp he with he | he
    · exact Nat.lt_of_lt_of_le (h.callers e he n hn) hmore.1
    · exact hcallers e he n hn
  calls := by
    intro e he n hn
    rcases List.mem_append.mp he with he | he
    · exact Nat.lt_of_lt_of_le (h.calls e he n hn) hmore.2
    · exact hcalls e he n hn

/-- What a section of a request may enter in the log. -/
structure RequestEvent (state : OrchestratorState) (log : List Event) (caller : Nat) (e : Event) :
    Prop where
  owner : e.owner = some (.request caller)
  opening : e.opening = none
  tokenMove : e.tokenMove = none
  grantMove : e.grantMove = none
  lawful : Lawful state log e

/-- What a section of a request comes to. -/
structure Advanced (state : OrchestratorState) (log : List Event) (caller : Nat)
    (request : WorkerRequest) (next : RequestPhase × List Event) : Prop where
  phase : PhaseOk state (log ++ next.2) caller request next.1
  events : next.2 = [] ∨ ∃ e, next.2 = [e] ∧ RequestEvent state log caller e

variable {caller : Nat} {request : WorkerRequest}

private theorem advanced_silent {phase : RequestPhase} (h : PhaseOk state log caller request phase) :
    Advanced state log caller request (phase, []) :=
  ⟨h.grow [], .inl rfl⟩

private theorem advanced_rejected (status : StatusCode) :
    Advanced state log caller request (.responding (.rejected status), []) := advanced_silent trivial

private theorem routing_advances (store : TokenStore) (decrypted : Option String) :
    Advanced state log caller request (state.requestStep store decrypted caller request .routing) := by
  rw [OrchestratorState.requestStep]
  split
  · exact advanced_rejected _
  · next route segment hmatch =>
    rw [extract_of_match state.parseStr hmatch]
    split
    · exact advanced_rejected _
    · next jobId hjob =>
      split
      · exact advanced_rejected _
      · next token hbearer => exact advanced_silent ⟨hmatch, hjob, hbearer⟩

/-- What `validate` accepts is current. -/
private theorem current_of_validate {store : TokenStore} (hstore : store.tokens = issuedToken log)
    {jobId : Uuid} {token : String} (hvalid : store.validate jobId token = true) :
    issuedToken log jobId = some token := by
  rw [← hstore]
  unfold TokenStore.validate at hvalid
  split at hvalid
  · next stored hstored => rw [hstored, beq_iff_eq.mp hvalid]
  · exact absurd hvalid (by decide)

private theorem validating_advances {store : TokenStore} (hstore : store.tokens = issuedToken log)
    (decrypted : Option String) {route : Route} {segment : List Char} {jobId : Uuid} {token : String}
    (h : PhaseOk state log caller request (.validating route segment jobId token)) :
    Advanced state log caller request
      (state.requestStep store decrypted caller request (.validating route segment jobId token)) := by
  obtain ⟨hmatch, hjob, hbearer⟩ := h
  rw [OrchestratorState.requestStep]
  by_cases hvalid : store.validate jobId token = true
  · rw [if_pos hvalid]
    have hcurrent := current_of_validate hstore hvalid
    constructor
    · have hmem : .validated (some caller) jobId token ∈ log ++ [Event.validated (some caller) jobId token] :=
        List.mem_append_right _ (List.mem_singleton_self _)
      exact ⟨jobId, token, hmatch, hjob, hbearer, hmem⟩
    · exact .inr ⟨_, rfl, rfl, rfl, rfl, rfl, hcurrent⟩
  · rw [if_neg hvalid]
    exact advanced_rejected _

private theorem handling_advances
    (hparse : ∀ text jobId, state.parseStr text = some jobId → ∀ c ∈ text, Bytes.Plain c)
    (store : TokenStore) (decrypted : Option String) {route : Route} {segment : List Char}
    (h : PhaseOk state log caller request (.handling route segment)) :
    Advanced state log caller request
      (state.requestStep store decrypted caller request (.handling route segment)) := by
  obtain ⟨jobId, token, hmatch, hjob, hbearer, hvalid⟩ := h
  have htarget := target_of_match hparse hmatch hjob
  have hpath : state.pathJobId segment = some jobId := by
    unfold OrchestratorState.pathJobId
    rw [Bytes.percentDecode_plain (hparse segment jobId hjob)]
    exact hjob
  have hadmitted : Admitted state log caller request route jobId := ⟨htarget, token, hbearer, hvalid⟩
  simp only [OrchestratorState.requestStep, hpath]
  split_ifs with haccepts hroute
  · subst hroute
    exact advanced_silent hadmitted
  · exact advanced_silent ⟨hadmitted, fun _ hc => absurd hc (by simp)⟩
  · exact advanced_rejected _

/-- The grants that a credentials request reads are those stored, and were stored earlier. -/
private theorem granted_of_stored {log : List Event} {jobId : Uuid} {grants : List CredentialGrant}
    (h : storedGrants log jobId = some grants) : .granted jobId grants ∈ log := by
  obtain ⟨older, newer, hmoves, -⟩ := Grants.asked_of_replay rfl _ h
  have hmem : Move.ask jobId grants ∈ log.filterMap Event.grantMove := by
    rw [hmoves]
    exact List.mem_append_right older (List.mem_cons_self ..)
  obtain ⟨e, he, hmove⟩ := List.mem_filterMap.mp hmem
  cases e with
  | granted other stored =>
    obtain ⟨rfl, rfl⟩ : other = jobId ∧ stored = grants := by simpa [Event.grantMove] using hmove
    exact he
  | _ => simp [Event.grantMove] at hmove

private theorem reading_advances {store : TokenStore}
    (hstore : store.credentialGrants = storedGrants log) (decrypted : Option String) {jobId : Uuid}
    (h : PhaseOk state log caller request (.readingGrants jobId)) :
    Advanced state log caller request
      (state.requestStep store decrypted caller request (.readingGrants jobId)) := by
  have hread : store.getGrants jobId = storedGrants log jobId := congrFun hstore jobId
  rw [OrchestratorState.requestStep]
  simp only [hread]
  constructor
  · have hadmitted := h.grow [.grantsRead (some caller) jobId (storedGrants log jobId)]
    show PhaseOk state _ caller request _
    split
    · next grant rest hgrants =>
      split_ifs
      · refine ⟨hadmitted, log, [], [], ?_, ?_, .nil⟩
        · rw [hgrants]
          rfl
        · exact granted_of_stored hgrants
      · exact ⟨hadmitted, fun _ hc => absurd hc (by simp)⟩
    · exact ⟨hadmitted, fun _ hc => absurd hc (by simp)⟩
  · exact .inr ⟨_, rfl, rfl, rfl, rfl, rfl, rfl⟩

private theorem decrypting_advances (store : TokenStore) (decrypted : Option String) {jobId : Uuid}
    {credentials : List CredentialResponse} {rest : List CredentialGrant}
    (h : PhaseOk state log caller request (.decrypting jobId credentials rest)) :
    Advanced state log caller request
      (state.requestStep store decrypted caller request (.decrypting jobId credentials rest)) := by
  obtain ⟨hadmitted, hfetched⟩ := h
  rcases rest with _ | ⟨grant, rest⟩
  · simp only [OrchestratorState.requestStep]
    refine advanced_silent ⟨hadmitted, ?_⟩
    intro found hfound
    obtain rfl : credentials = found := by simpa using hfound
    exact hfetched
  · simp only [OrchestratorState.requestStep]
    split
    · exact advanced_silent ⟨hadmitted, fun _ hc => absurd hc (by simp)⟩
    · next value =>
      constructor
      · refine ⟨hadmitted.grow _, ?_⟩
        obtain ⟨older, fetched, newer, hlog, hgranted, hall⟩ := hfetched
        have hdelivers : Event.Delivers state caller
            (newer ++ [.secretRead caller state.userId grant.secretName value])
            ⟨grant.envVar, value⟩ grant :=
          ⟨rfl, List.mem_append_right newer (List.mem_singleton_self _)⟩
        have hmore := List.rel_append (delivers_grow _ hall) (.cons hdelivers .nil)
        refine ⟨older, fetched ++ [grant], newer ++ [_], ?_, ?_, hmore⟩
        · rw [hlog]
          simp
        · simpa using hgranted
      · exact .inr ⟨_, rfl, rfl, rfl, rfl, rfl, trivial⟩

private theorem responding_advances (store : TokenStore) (decrypted : Option String)
    {response : Response} (hreceived : .received caller request ∈ log)
    (h : PhaseOk state log caller request (.responding response)) :
    Advanced state log caller request
      (state.requestStep store decrypted caller request (.responding response)) :=
  ⟨trivial, .inr ⟨_, rfl, rfl, rfl, rfl, rfl, request, hreceived, h⟩⟩

/-- A section of a request keeps what is known of it. -/
theorem request_advances
    (hparse : ∀ text jobId, state.parseStr text = some jobId → ∀ c ∈ text, Bytes.Plain c)
    (h : Inv state w log) (decrypted : Option String) {call : RequestCall}
    (hreceived : .received caller call.request ∈ log)
    (hphase : PhaseOk state log caller call.request call.phase) :
    Advanced state log caller call.request
      (state.requestStep w.tokenStore decrypted caller call.request call.phase) := by
  obtain ⟨request, phase⟩ := call
  cases phase with
  | routing => exact routing_advances _ _
  | validating route segment jobId token => exact validating_advances h.tokens _ hphase
  | handling route segment => exact handling_advances hparse _ _ hphase
  | readingGrants jobId => exact reading_advances h.grants _ hphase
  | decrypting jobId credentials rest => exact decrypting_advances _ _ hphase
  | responding response => exact responding_advances _ _ hreceived hphase
  | responded => exact advanced_silent trivial

/-- The store changes, or is asked by someone other than a request. -/
private theorem kept_of_store (h : Inv state w log) {store : TokenStore} {es : List Event}
    (htokens : store.tokens = replay (issuedToken log) (es.filterMap Event.tokenMove))
    (hgrants : store.credentialGrants = replay (storedGrants log) (es.filterMap Event.grantMove))
    (hevents : es = [] ∨ ∃ e, es = [e] ∧ e.owner = none ∧ e.opening = none ∧ Lawful state log e) :
    Kept state log ({ w with tokenStore := store }, es) := by
  have hkeeps (hnobody : ∀ e ∈ es, e.owner = none) : Inv state { w with tokenStore := store } (log ++ es) :=
    h.extend htokens hgrants (fun _ _ hcall => .inl hcall) (fun _ _ hr => .inl hr) ⟨Nat.le_refl _, Nat.le_refl _⟩
      (fun e he n hn => absurd (hn.symm.trans (hnobody e he)) (by simp))
      (fun e he n hn => absurd (hn.symm.trans (hnobody e he)) (by simp))
  rcases hevents with rfl | ⟨e, rfl, howner, hopening, hlawful⟩
  · exact ⟨hkeeps (by simp), always_nil _⟩
  · have hentry : Entry state (log ++ []) e := ⟨by simpa using hlawful, opens_none hopening⟩
    exact ⟨hkeeps (by simpa using howner), always_singleton hentry⟩

private theorem kept_createToken (h : Inv state w log) (jobId : Uuid) (token : String) :
    Kept state log (state.step w (.createToken jobId token)) := by
  apply kept_of_store h
  · show Function.update w.tokenStore.tokens jobId (some token) = _
    rw [h.tokens]
    rfl
  · exact h.grants
  · exact .inr ⟨_, rfl, rfl, rfl, trivial⟩

private theorem kept_storeGrants (h : Inv state w log) (jobId : Uuid) (grants : List CredentialGrant) :
    Kept state log (state.step w (.storeGrants jobId grants)) := by
  simp only [OrchestratorState.step, TokenStore.storeGrants]
  split_ifs with hempty
  · exact kept_of_store h h.tokens h.grants (.inl rfl)
  · apply kept_of_store h
    · exact h.tokens
    · show Function.update w.tokenStore.credentialGrants jobId (some grants) = _
      rw [h.grants]
      rfl
    · exact .inr ⟨_, rfl, rfl, rfl, trivial⟩

private theorem kept_validate (h : Inv state w log) (jobId : Uuid) (token : String) :
    Kept state log (state.step w (.validate jobId token)) := by
  simp only [OrchestratorState.step]
  split_ifs with hvalid
  · exact kept_of_store h h.tokens h.grants (.inr ⟨_, rfl, rfl, rfl, current_of_validate h.tokens hvalid⟩)
  · exact kept_of_store h h.tokens h.grants (.inl rfl)

private theorem kept_getGrants (h : Inv state w log) (jobId : Uuid) :
    Kept state log (state.step w (.getGrants jobId)) := by
  have hread : storedGrants log jobId = w.tokenStore.getGrants jobId := (congrFun h.grants jobId).symm
  exact kept_of_store h h.tokens h.grants (.inr ⟨_, rfl, rfl, rfl, hread⟩)

private theorem kept_revoke (h : Inv state w log) (jobId : Uuid) :
    Kept state log (state.step w (.revoke jobId)) := by
  constructor
  · apply h.extend h.tokens h.grants
    · exact fun _ _ hcall => .inl hcall
    · intro call r hr
      rcases Nat.lt_or_ge call w.revocations.length with hlt | hge
      · exact .inl (by simpa [OrchestratorState.step, List.getElem?_append_left hlt] using hr)
      · refine .inr fun hphase => ?_
        simp only [OrchestratorState.step] at hr
        rw [List.getElem?_append_right hge, List.getElem?_singleton] at hr
        split_ifs at hr
        rw [← Option.some.inj hr] at hphase
        exact absurd hphase (by simp)
    · simp [OrchestratorState.step]
    · simp [OrchestratorState.step, Event.owner]
    · simp [OrchestratorState.step, Event.owner]
  · refine always_singleton ⟨trivial, ?_⟩
    intro k hk x hx howner
    obtain rfl : Owner.revocation w.revocations.length = k := Option.some.inj hk
    exact absurd (h.calls x (by simpa using hx) _ howner) (Nat.lt_irrefl _)

private theorem kept_proceedRevoke (h : Inv state w log) (call : Nat) :
    Kept state log (state.step w (.proceedRevoke call)) := by
  simp only [OrchestratorState.step]
  split
  · exact kept_of_store h h.tokens h.grants (.inl rfl)
  · next r hr =>
    have hlt : call < w.revocations.length := (List.getElem?_eq_some_iff.mp hr).1
    obtain ⟨jobId, phase⟩ := r
    have hset : ∀ (phase' : RevokePhase) (es : List Event),
        (phase' = .removeGrants → .tokenRemoved call jobId ∈ log ++ es) →
        ∀ other r, (w.revocations.set call ⟨jobId, phase'⟩)[other]? = some r →
          w.revocations[other]? = some r ∨
            (r.phase = .removeGrants → .tokenRemoved other r.jobId ∈ log ++ es) := by
      intro phase' es hremoved other r hother
      by_cases heq : call = other
      · subst heq
        rw [List.getElem?_set_self hlt] at hother
        rw [← Option.some.inj hother]
        exact .inr hremoved
      · rw [List.getElem?_set_ne heq] at hother
        exact .inl hother
    cases phase with
    | removeToken =>
      constructor
      · apply h.extend
        · show Function.update w.tokenStore.tokens jobId none = _
          rw [h.tokens]
          rfl
        · exact h.grants
        · exact fun _ _ hcall => .inl hcall
        · exact hset _ _ fun _ => List.mem_append_right log (List.mem_singleton_self _)
        · simp [OrchestratorState.revokeStep]
        · simp [OrchestratorState.revokeStep, Event.owner]
        · simpa [OrchestratorState.revokeStep, Event.owner] using hlt
      · exact always_singleton ⟨trivial, opens_none rfl⟩
    | removeGrants =>
      constructor
      · apply h.extend
        · exact h.tokens
        · show Function.update w.tokenStore.credentialGrants jobId none = _
          rw [h.grants]
          rfl
        · exact fun _ _ hcall => .inl hcall
        · exact hset _ _ fun hphase => absurd hphase (by decide)
        · simp [OrchestratorState.revokeStep]
        · simp [OrchestratorState.revokeStep, Event.owner]
        · simpa [OrchestratorState.revokeStep, Event.owner] using hlt
      · have hremoved : .tokenRemoved call jobId ∈ log := h.revocations call _ hr rfl
        exact always_singleton ⟨List.mem_append_left [] hremoved, opens_none rfl⟩
    | returned => exact kept_of_store h h.tokens h.grants (.inl rfl)

private theorem kept_receive (h : Inv state w log) (request : WorkerRequest) :
    Kept state log (state.step w (.receive request)) := by
  constructor
  · apply h.extend h.tokens h.grants
    · intro caller call hcall
      rcases Nat.lt_or_ge caller w.requests.length with hlt | hge
      · exact .inl (by simpa [OrchestratorState.step, List.getElem?_append_left hlt] using hcall)
      · simp only [OrchestratorState.step] at hcall
        rw [List.getElem?_append_right hge, List.getElem?_singleton] at hcall
        split_ifs at hcall with hzero
        rw [← Option.some.inj hcall, show caller = w.requests.length by omega]
        exact .inr ⟨List.mem_append_right log (List.mem_singleton_self _), trivial⟩
    · exact fun _ _ hr => .inl hr
    · simp [OrchestratorState.step]
    · simp [OrchestratorState.step, Event.owner]
    · simp [OrchestratorState.step, Event.owner]
  · refine always_singleton ⟨trivial, ?_⟩
    intro k hk x hx howner
    obtain rfl : Owner.request w.requests.length = k := Option.some.inj hk
    exact absurd (h.callers x (by simpa using hx) _ howner) (Nat.lt_irrefl _)

private theorem kept_proceed
    (hparse : ∀ text jobId, state.parseStr text = some jobId → ∀ c ∈ text, Bytes.Plain c)
    (h : Inv state w log) (caller : Nat) (decrypted : Option String) :
    Kept state log (state.step w (.proceed caller decrypted)) := by
  simp only [OrchestratorState.step]
  split
  · exact kept_of_store h h.tokens h.grants (.inl rfl)
  · next call hcall =>
    obtain ⟨hreceived, hphase⟩ := h.requests caller call hcall
    obtain ⟨hnext, hevents⟩ := request_advances hparse h decrypted hreceived hphase
    have hlt : caller < w.requests.length := (List.getElem?_eq_some_iff.mp hcall).1
    generalize state.requestStep w.tokenStore decrypted caller call.request call.phase = next at *
    have hrequests : ∀ other c, (w.requests.set caller ⟨call.request, next.1⟩)[other]? = some c →
        w.requests[other]? = some c ∨ .received other c.request ∈ log ++ next.2 ∧
          PhaseOk state (log ++ next.2) other c.request c.phase := by
      intro other c hc
      by_cases hother : caller = other
      · subst hother
        rw [List.getElem?_set_self hlt] at hc
        rw [← Option.some.inj hc]
        exact .inr ⟨List.mem_append_left _ hreceived, hnext⟩
      · rw [List.getElem?_set_ne hother] at hc
        exact .inl hc
    obtain ⟨phase, es⟩ := next
    rcases hevents with rfl | ⟨e, rfl, he⟩
    · constructor
      · apply h.extend h.tokens h.grants hrequests
        · exact fun _ _ hr => .inl hr
        · simp
        · simp
        · simp
      · exact always_nil _
    · constructor
      · apply h.extend
        · simpa [he.tokenMove] using h.tokens
        · simpa [he.grantMove] using h.grants
        · exact hrequests
        · exact fun _ _ hr => .inl hr
        · simp
        · simpa [he.owner] using hlt
        · simp [he.owner]
      · exact always_singleton ⟨by simpa using he.lawful, opens_none he.opening⟩

private theorem kept_step
    (hparse : ∀ text jobId, state.parseStr text = some jobId → ∀ c ∈ text, Bytes.Plain c)
    (h : Inv state w log) (o : Section) : Kept state log (state.step w o) := by
  cases o with
  | createToken jobId token => exact kept_createToken h jobId token
  | storeGrants jobId grants => exact kept_storeGrants h jobId grants
  | validate jobId token => exact kept_validate h jobId token
  | getGrants jobId => exact kept_getGrants h jobId
  | revoke jobId => exact kept_revoke h jobId
  | proceedRevoke call => exact kept_proceedRevoke h call
  | receive request => exact kept_receive h request
  | proceed caller decrypted => exact kept_proceed hparse h caller decrypted

end Steps

/-- Every event is lawful where it is entered, and follows the opening of its owner. -/
theorem log_always (state : OrchestratorState)
    (hparse : ∀ text jobId, state.parseStr text = some jobId → ∀ c ∈ text, Bytes.Plain c)
    (sections : List Section) : Always (Entry state) (state.log sections) :=
  run_always (Inv state) (Inv.new state) (fun _ _ o h => (kept_step hparse h o).1)
    (fun _ _ o h => (kept_step hparse h o).2) sections

section Conclusions

variable {state : OrchestratorState} {log : List Event}

/-- A token that is current though it was removed before has been issued since. -/
private theorem issued_since {before after : List Event} {call : Nat} {jobId : Uuid} {token : String}
    (h : issuedToken (before ++ .tokenRemoved call jobId :: after) jobId = some token) :
    .issued jobId token ∈ after := by
  have hmove : Event.tokenMove (.tokenRemoved call jobId) = some (.withdraw jobId) := rfl
  unfold issuedToken at h
  rw [List.filterMap_append, List.filterMap_cons_some hmove] at h
  have hask := Grants.ask_mem_of_withdrawn _ _ h
  obtain ⟨e, he, hmove⟩ := List.mem_filterMap.mp hask
  cases e with
  | issued other drawn =>
    obtain ⟨rfl, rfl⟩ : other = jobId ∧ drawn = token := by simpa [Event.tokenMove] using hmove
    exact he
  | _ => simp [Event.tokenMove] at hmove

private theorem granted_since {before after : List Event} {call : Nat} {jobId : Uuid}
    {grants : List CredentialGrant}
    (h : storedGrants (before ++ .revoked call jobId :: after) jobId = some grants) :
    .granted jobId grants ∈ after := by
  have hmove : Event.grantMove (.revoked call jobId) = some (.withdraw jobId) := rfl
  unfold storedGrants at h
  rw [List.filterMap_append, List.filterMap_cons_some hmove] at h
  have hask := Grants.ask_mem_of_withdrawn _ _ h
  obtain ⟨e, he, hmove⟩ := List.mem_filterMap.mp hask
  cases e with
  | granted other stored =>
    obtain ⟨rfl, rfl⟩ : other = jobId ∧ stored = grants := by simpa [Event.grantMove] using hmove
    exact he
  | _ => simp [Event.grantMove] at hmove

/-- `revoke` removes the token between its call and its return. -/
private theorem removed_during (h : Always (Entry state) log) {before during after : List Event}
    {call : Nat} {jobId : Uuid}
    (hlog : log = before ++ .revoking call jobId :: (during ++ .revoked call jobId :: after)) :
    .tokenRemoved call jobId ∈ during := by
  have hlaw := (h (before ++ .revoking call jobId :: during) (.revoked call jobId) after
    (by simp [hlog])).1
  have hremoved : .tokenRemoved call jobId ∈ before ++ Event.revoking call jobId :: during := hlaw
  have hsplit : log = (before ++ .revoking call jobId :: during) ++ .revoked call jobId :: after := by
    simp [hlog]
  have hopens : Always (OpensFirst Event.owner Event.opening)
      (before ++ .revoking call jobId :: during) :=
    (hsplit ▸ h).of_append.imp fun _ _ hentry => hentry.2
  exact after_opening hopens rfl rfl hremoved rfl rfl

private theorem issued_after_revoke (h : Always (Entry state) log) {before during after newer rest : List Event}
    {call : Nat} {jobId : Uuid} {caller : Option Nat} {token : String}
    (hlog : log = before ++ .revoking call jobId :: (during ++ .revoked call jobId :: after))
    (hafter : after = newer ++ .validated caller jobId token :: rest) :
    .issued jobId token ∈ during ++ newer := by
  obtain ⟨early, late, hduring⟩ := List.append_of_mem (removed_during h hlog)
  have hlaw := (h (before ++ .revoking call jobId :: (during ++ .revoked call jobId :: newer))
    (.validated caller jobId token) rest (by simp [hlog, hafter])).1
  have hsplit : before ++ .revoking call jobId :: (during ++ .revoked call jobId :: newer) =
      (before ++ .revoking call jobId :: early) ++
        .tokenRemoved call jobId :: (late ++ .revoked call jobId :: newer) := by
    simp [hduring]
  have hcurrent : issuedToken (before ++ .revoking call jobId ::
      (during ++ .revoked call jobId :: newer)) jobId = some token := hlaw
  rw [hsplit] at hcurrent
  have hmem := issued_since hcurrent
  rw [hduring]
  rcases List.mem_append.mp hmem with hlate | hnewer
  · exact List.mem_append_left _ (List.mem_append_right _ (List.mem_cons_of_mem _ hlate))
  · rcases List.mem_cons.mp hnewer with heq | hnewer
    · exact absurd heq (by simp)
    · exact List.mem_append_right _ hnewer

private theorem granted_after_revoke (h : Always (Entry state) log) {before during after newer rest : List Event}
    {call : Nat} {jobId : Uuid} {caller : Option Nat} {grants : List CredentialGrant}
    (hlog : log = before ++ .revoking call jobId :: (during ++ .revoked call jobId :: after))
    (hafter : after = newer ++ .grantsRead caller jobId (some grants) :: rest) :
    .granted jobId grants ∈ newer := by
  have hlaw := (h (before ++ .revoking call jobId :: (during ++ .revoked call jobId :: newer))
    (.grantsRead caller jobId (some grants)) rest (by simp [hlog, hafter])).1
  have hsplit : before ++ .revoking call jobId :: (during ++ .revoked call jobId :: newer) =
      (before ++ .revoking call jobId :: during) ++ .revoked call jobId :: newer := by
    simp
  have hread : storedGrants (before ++ .revoking call jobId ::
      (during ++ .revoked call jobId :: newer)) jobId = some grants := hlaw
  rw [hsplit] at hread
  exact granted_since hread

/-- A request that comes after `revoke` has returned is validated after that. -/
private theorem later_token (h : Always (Entry state) log)
    {before during between after : List Event} {call caller : Nat} {jobId : Uuid}
    {request : WorkerRequest}
    (hlog : log = before ++ .revoking call jobId ::
      (during ++ .revoked call jobId :: (between ++ .received caller request :: after)))
    {token : String} (hvalid : .validated (some caller) jobId token ∈ log) :
    .issued jobId token ∈ during ++ (between ++ after) := by
  have hopens : Always (OpensFirst Event.owner Event.opening) log := h.imp fun _ _ hentry => hentry.2
  have hreceived : log = (before ++ .revoking call jobId ::
      (during ++ .revoked call jobId :: between)) ++ .received caller request :: after := by
    simp [hlog]
  have hmem : .validated (some caller) jobId token ∈ after :=
    after_opening hopens hreceived rfl hvalid rfl rfl
  obtain ⟨newer, rest, hafter⟩ := List.append_of_mem hmem
  have hsplit : between ++ .received caller request :: after =
      (between ++ .received caller request :: newer) ++ .validated (some caller) jobId token :: rest := by
    simp [hafter]
  have hissued := issued_after_revoke h hlog hsplit
  rw [hafter]
  rcases List.mem_append.mp hissued with hduring | hlater
  · exact List.mem_append_left _ hduring
  · apply List.mem_append_right
    rcases List.mem_append.mp hlater with hbetween | hnewer
    · exact List.mem_append_left _ hbetween
    · rcases List.mem_cons.mp hnewer with heq | hnewer
      · exact absurd heq (by simp)
      · exact List.mem_append_right _ (List.mem_append_left _ hnewer)

private theorem later_grants (h : Always (Entry state) log)
    {before during between after : List Event} {call caller : Nat} {jobId : Uuid}
    {request : WorkerRequest}
    (hlog : log = before ++ .revoking call jobId ::
      (during ++ .revoked call jobId :: (between ++ .received caller request :: after)))
    {grants : List CredentialGrant}
    (hread : .grantsRead (some caller) jobId (some grants) ∈ log) :
    .granted jobId grants ∈ between ++ after := by
  have hopens : Always (OpensFirst Event.owner Event.opening) log := h.imp fun _ _ hentry => hentry.2
  have hreceived : log = (before ++ .revoking call jobId ::
      (during ++ .revoked call jobId :: between)) ++ .received caller request :: after := by
    simp [hlog]
  have hmem : .grantsRead (some caller) jobId (some grants) ∈ after :=
    after_opening hopens hreceived rfl hread rfl rfl
  obtain ⟨newer, rest, hafter⟩ := List.append_of_mem hmem
  have hsplit : between ++ .received caller request :: after =
      (between ++ .received caller request :: newer) ++
        .grantsRead (some caller) jobId (some grants) :: rest := by
    simp [hafter]
  have hgranted := granted_after_revoke h hlog hsplit
  rw [hafter]
  rcases List.mem_append.mp hgranted with hbetween | hnewer
  · exact List.mem_append_left _ hbetween
  · rcases List.mem_cons.mp hnewer with heq | hnewer
    · exact absurd heq (by simp)
    · exact List.mem_append_right _ (List.mem_append_left _ hnewer)

/-- Where no token is generated twice, one issued later was not there before. -/
private theorem not_issued_before {before after : List Event} {jobId : Uuid} {token : String}
    (hnodup : ((before ++ after).filterMap Event.issuedToken?).Nodup)
    (hissued : .issued jobId token ∈ after) (other : Uuid) : .issued other token ∉ before := by
  intro hbefore
  rw [List.filterMap_append] at hnodup
  have hold : token ∈ before.filterMap Event.issuedToken? :=
    List.mem_filterMap.mpr ⟨_, hbefore, rfl⟩
  have hnew : token ∈ after.filterMap Event.issuedToken? := List.mem_filterMap.mpr ⟨_, hissued, rfl⟩
  exact (List.nodup_append.mp hnodup).2.2 token hold token hnew rfl

end Conclusions

/-- In every interleaving of calls of the token store and of requests, with any secrets, requests are
served under the current token of their own job, credentials are those granted to the job, and what
was issued or granted to a job before it was revoked is of no use afterwards. -/
theorem tokens_isolated (state : OrchestratorState)
    (hparse : ∀ text jobId, state.parseStr text = some jobId → ∀ c ∈ text, Bytes.Plain c)
    (sections : List Section) : Isolated state (state.log sections) := by
  have h := log_always state hparse sections
  generalize state.log sections = log at h
  refine ⟨?_, ?_, ?_, ?_, ?_, ?_⟩
  · intro before caller jobId token after hlog
    exact (h before _ after hlog).1
  · intro before caller jobId grants after hlog
    exact (h before _ after hlog).1
  · intro before caller route jobId outcome after hlog
    obtain ⟨request, hreceived, ⟨htarget, token, hbearer, hvalid⟩, -⟩ := (h before _ after hlog).1
    exact ⟨request, token, hreceived, htarget, hbearer, hvalid⟩
  · intro before caller route jobId credentials after hlog
    obtain ⟨request, -, -, hfetched⟩ := (h before _ after hlog).1
    obtain ⟨older, grants, newer, hbefore, hgranted, hall⟩ := hfetched credentials rfl
    rw [List.append_nil] at hbefore hgranted
    exact ⟨older, grants, newer, hbefore, hgranted, hall⟩
  · intro before during between call jobId hlog
    constructor
    · intro newer caller token after hafter
      exact issued_after_revoke h hlog hafter
    · intro newer caller grants after hafter
      exact granted_after_revoke h hlog hafter
  · intro before during between after call jobId caller request hlog
    constructor
    · intro token hvalid
      have hissued := later_token h hlog hvalid
      refine ⟨hissued, fun hnodup other => ?_⟩
      rw [hlog] at hnodup
      have hnew : .issued jobId token ∈ Event.revoking call jobId ::
          (during ++ .revoked call jobId :: (between ++ .received caller request :: after)) := by
        apply List.mem_cons_of_mem
        rcases List.mem_append.mp hissued with hduring | hlater
        · exact List.mem_append_left _ hduring
        · apply List.mem_append_right
          apply List.mem_cons_of_mem
          rcases List.mem_append.mp hlater with hbetween | hafter
          · exact List.mem_append_left _ hbetween
          · exact List.mem_append_right _ (List.mem_cons_of_mem _ hafter)
      exact not_issued_before hnodup hnew other
    · intro grants hread
      exact later_grants h hlog hread

private def jobText : List Char := "00000000-0000-0000-0000-000000000007".toList

private def oneJob : OrchestratorState where
  parseStr text := if text = jobText then some (Uuid.ofNat 7) else none
  secretsStore := true
  userId := "default"

private def asksCredentials (token : String) : WorkerRequest where
  method := .get
  path := "/worker/".toList ++ jobText ++ "/credentials".toList
  authorization := some (("Bearer " ++ token).toList.map fun c => UInt8.ofNat c.toNat)

/-- A job is served a credential; then it is revoked and issued a new token, and asks with the old one
and with the new one. -/
private def anew : List Section :=
  [.createToken (Uuid.ofNat 7) "a1", .storeGrants (Uuid.ofNat 7) [⟨"github_token", "GITHUB_TOKEN"⟩],
    .receive (asksCredentials "a1")] ++ List.replicate 7 (.proceed 0 (some "s3cr3t")) ++
  [.revoke (Uuid.ofNat 7), .proceedRevoke 0, .proceedRevoke 0, .createToken (Uuid.ofNat 7) "b2",
    .receive (asksCredentials "a1"), .receive (asksCredentials "b2")] ++
  List.replicate 3 (.proceed 1 none) ++ List.replicate 5 (.proceed 2 none)

theorem tokens_isolated_anew :
    (.responded 0 (.served .credentials (Uuid.ofNat 7) (.credentials [⟨"GITHUB_TOKEN", "s3cr3t"⟩])) ∈
        oneJob.log anew ∧
      .responded 1 (.rejected .unauthorized) ∈ oneJob.log anew ∧
      .responded 2 (.served .credentials (Uuid.ofNat 7) .noContent) ∈ oneJob.log anew) ∧
    Isolated oneJob (oneJob.log anew) := by
  refine ⟨by decide +kernel, tokens_isolated oneJob ?_ anew⟩
  intro text jobId hparse
  have htext : text = jobText := by
    by_contra hne
    exact absurd ((if_neg hne).symm.trans hparse) (by simp)
  have hplain : jobText.all (fun c => c.toNat < 128 ∧ c ≠ '%') = true := by decide +kernel
  intro c hc
  rw [htext] at hc
  have hchar : c.toNat < 128 ∧ c ≠ '%' := of_decide_eq_true (List.all_eq_true.mp hplain c hc)
  exact hchar

end Gyre.Orchestrator
