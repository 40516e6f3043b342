/- digest: Sandbox jobs and their containers: creation, stop, completion and cleanup side by side. -/

import Gyre.Orchestrator.Auth

/-!
A call goes through sections between which other calls come and go: those that hold a lock, and those
that wait for Docker.
-/

set_option autoImplicit false
set_option relaxedAutoImplicit false

namespace Gyre.Orchestrator

open Gyre.Llm (Uuid)

inductive OrchestratorError where
  | docker (reason : String)
  | containerCreationFailed (jobId : Uuid) (reason : String)
  | containerNotFound (jobId : Uuid)
  | invalidContainerState (jobId : Uuid) (state : String)
  deriving DecidableEq, Repr

inductive ContainerState where
  | creating
  | running
  | stopped
  | failed
  deriving DecidableEq, Repr

structure CompletionResult where
  success : Bool
  message : Option String
  deriving DecidableEq, Repr

structure ContainerHandle where
  /-- Empty until the container has been started. -/
  containerId : String
  state : ContainerState
  completionResult : Option CompletionResult
  deriving DecidableEq, Repr

/-- A container that Docker has. -/
structure DockerContainer where
  id : String
  job : Uuid
  running : Bool
  deriving DecidableEq, Repr

/-- What the calls share. -/
structure Jobs where
  tokenStore : TokenStore
  containers : Uuid → Option ContainerHandle
  docker : List DockerContainer

/-- What a section meets: whether what it asks for succeeds, the text that is generated (a token, or
the identifier of a container), and the reason if it fails. -/
structure Encounter where
  succeeds : Bool
  drawn : String
  reason : String
  deriving DecidableEq, Repr

inductive CreatePhase where
  | issueToken (grants : List CredentialGrant)
  | storeGrants (grants : List CredentialGrant) (token : String)
  | recordHandle (token : String)
  /-- About to connect to Docker. -/
  | connect (token : String)
  /-- About to check the project directory. -/
  | validateMount (token : String)
  | createContainer (token : String)
  | startContainer (token containerId : String)
  | updateHandle (token containerId : String)
  | removeToken (err : OrchestratorError)
  | removeGrants (err : OrchestratorError)
  | removeHandle (err : OrchestratorError)
  | returned (result : Except OrchestratorError String)
  deriving DecidableEq

/-- `stop_job` or `complete_job`. -/
inductive EndKind where
  | stop
  | complete (result : CompletionResult)
  deriving DecidableEq, Repr

inductive EndPhase where
  /-- `complete_job` only. -/
  | storeResult
  | look
  | connect (containerId : String)
  | stopContainer (containerId : String)
  | removeContainer (containerId : String)
  /-- `stop_job` only. -/
  | updateState
  | removeToken
  | removeGrants
  | returned (result : Except OrchestratorError Unit)
  deriving DecidableEq

inductive JobCall where
  | create (jobId : Uuid) (phase : CreatePhase)
  | ending (jobId : Uuid) (kind : EndKind) (phase : EndPhase)
  deriving DecidableEq

def JobCall.jobId : JobCall → Uuid
  | create jobId _ => jobId
  | ending jobId _ _ => jobId

namespace Jobs

/-- Changes the handle of a job, if there is one. -/
def updateHandle (s : Jobs) (jobId : Uuid) (f : ContainerHandle → ContainerHandle) : Jobs :=
  { s with containers := Function.update s.containers jobId ((s.containers jobId).map f) }

def removeHandle (s : Jobs) (jobId : Uuid) : Jobs :=
  { s with containers := Function.update s.containers jobId none }

def withStore (s : Jobs) (tokenStore : TokenStore) : Jobs := { s with tokenStore := tokenStore }

/-- A section of `create_job`. -/
@[grind =] def createStep (s : Jobs) (jobId : Uuid) (env : Encounter) : CreatePhase → Jobs × CreatePhase
  | .issueToken grants =>
    (s.withStore (s.tokenStore.createToken jobId env.drawn), .storeGrants grants env.drawn)
  | .storeGrants grants token =>
    (s.withStore (s.tokenStore.storeGrants jobId grants), .recordHandle token)
  | .recordHandle token =>
    ({ s with containers := Function.update s.containers jobId (some ⟨"", .creating, none⟩) },
      .connect token)
  | .connect token =>
    if env.succeeds then (s, .validateMount token) else (s, .removeToken (.docker env.reason))
  | .validateMount token =>
    if env.succeeds then (s, .createContainer token)
    else (s, .removeToken (.containerCreationFailed jobId env.reason))
  | .createContainer token =>
    if env.succeeds then
      ({ s with docker := s.docker ++ [⟨env.drawn, jobId, false⟩] }, .startContainer token env.drawn)
    else (s, .removeToken (.containerCreationFailed jobId env.reason))
  | .startContainer token containerId =>
    if env.succeeds then
      let start (c : DockerContainer) := if c.id = containerId then { c with running := true } else c
      ({ s with docker := s.docker.map start }, .updateHandle token containerId)
    else
      let reason := s!"failed to start container: {env.reason}"
      (s, .removeToken (.containerCreationFailed jobId reason))
  | .updateHandle token containerId =>
    (s.updateHandle jobId fun h => { h with containerId := containerId, state := .running },
      .returned (.ok token))
  | .removeToken err => (s.withStore (s.tokenStore.removeToken jobId), .removeGrants err)
  | .removeGrants err => (s.withStore (s.tokenStore.removeGrants jobId), .removeHandle err)
  | .removeHandle err => (s.removeHandle jobId, .returned (.error err))
  | .returned result => (s, .returned result)

/-- What follows once the handle of the job has been looked up. -/
@[grind =] def afterLook (jobId : Uuid) : EndKind → Option ContainerHandle → EndPhase
  | .stop, none => .returned (.error (.containerNotFound jobId))
  | .stop, some h =>
    if h.containerId = "" then
      .returned (.error (.invalidContainerState jobId "creating (no container ID yet)"))
    else .connect h.containerId
  | .complete _, none => .removeToken
  | .complete _, some h => if h.containerId = "" then .removeToken else .connect h.containerId

/-- A section of `stop_job` or `complete_job`. -/
@[grind =] def endStep (s : Jobs) (jobId : Uuid) (kind : EndKind) (env : Encounter) : EndPhase → Jobs × EndPhase
  | .storeResult =>
    match kind with
    | .stop => (s, .look)
    | .complete result =>
      (s.updateHandle jobId fun h => { h with completionResult := some result, state := .stopped },
        .look)
  | .look => (s, afterLook jobId kind (s.containers jobId))
  | .connect containerId =>
    if env.succeeds then (s, .stopContainer containerId)
    else
      match kind with
      | .stop => (s, .returned (.error (.docker env.reason)))
      | .complete _ => (s, .removeToken)
  | .stopContainer containerId =>
    let stop (c : DockerContainer) := if c.id = containerId then { c with running := false } else c
    (if env.succeeds then { s with docker := s.docker.map stop } else s,
      .removeContainer containerId)
  | .removeContainer containerId =>
    (if env.succeeds then { s with docker := s.docker.filter fun c => c.id ≠ containerId } else s,
      match kind with
      | .stop => .updateState
      | .complete _ => .removeToken)
  | .updateState =>
    (s.updateHandle jobId fun h => { h with state := .stopped }, .removeToken)
  | .removeToken => (s.withStore (s.tokenStore.removeToken jobId), .removeGrants)
  | .removeGrants => (s.withStore (s.tokenStore.removeGrants jobId), .returned (.ok ()))
  | .returned result => (s, .returned result)

end Jobs

/-- The jobs with all calls so far. -/
structure JobsWorld where
  jobs : Jobs
  calls : List JobCall

inductive JobsAct where
  | createJob (jobId : Uuid) (grants : List CredentialGrant)
  | stopJob (jobId : Uuid)
  | completeJob (jobId : Uuid) (result : CompletionResult)
  | cleanupJob (jobId : Uuid)
  /-- The next section of a call. -/
  | advance (call : Nat) (env : Encounter)

namespace JobsWorld

def new : JobsWorld := ⟨⟨.new, fun _ => none, []⟩, []⟩

def advance (w : JobsWorld) (call : Nat) (env : Encounter) : JobsWorld :=
  match w.calls[call]? with
  | some (.create jobId phase) =>
    let (jobs, next) := w.jobs.createStep jobId env phase
    ⟨jobs, w.calls.set call (.create jobId next)⟩
  | some (.ending jobId kind phase) =>
    let (jobs, next) := w.jobs.endStep jobId kind env phase
    ⟨jobs, w.calls.set call (.ending jobId kind next)⟩
  | none => w

def step (w : JobsWorld) : JobsAct → JobsWorld
  | .createJob jobId grants => { w with calls := w.calls ++ [.create jobId (.issueToken grants)] }
  | .stopJob jobId => { w with calls := w.calls ++ [.ending jobId .stop .look] }
  | .completeJob jobId result =>
    { w with calls := w.calls ++ [.ending jobId (.complete result) .storeResult] }
  | .cleanupJob jobId => { w with jobs := w.jobs.removeHandle jobId }
  | .advance call env => w.advance call env

end JobsWorld

end Gyre.Orchestrator
