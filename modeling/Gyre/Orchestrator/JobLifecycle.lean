/- digest: What is left of a sandbox job once it has failed to start, was stopped or was completed. -/

import Gyre.Lib.Reach
import Gyre.Orchestrator.JobManager

set_option autoImplicit false
set_option relaxedAutoImplicit false

namespace Gyre.Orchestrator

open Gyre.Lib
open Gyre.Llm (Uuid)

/-- The call is creating a job. -/
def JobCall.creating : JobCall → Bool
  | create _ (.returned _) => false
  | create _ _ => true
  | ending _ _ _ => false

/-- The call has done something already. -/
def EndPhase.begun : EndKind → EndPhase → Bool
  | _, storeResult => false
  | .stop, look => false
  | _, _ => true

/-- A creation that has failed, or a stop or completion that has returned. -/
def JobCall.over : JobCall → Bool
  | create _ (.returned (.error _)) => true
  | ending _ _ (.returned _) => true
  | _ => false

def JobCall.isEnding : JobCall → Bool
  | ending _ _ _ => true
  | create _ _ => false

/-- Docker has no container of a job. -/
def Jobs.Gone (s : Jobs) (jobId : Uuid) : Prop := ∀ c ∈ s.docker, c.job ≠ jobId

instance (s : Jobs) (jobId : Uuid) : Decidable (s.Gone jobId) :=
  inferInstanceAs (Decidable (∀ c ∈ s.docker, c.job ≠ jobId))

namespace JobsWorld

/-- No creation of the job is under way. -/
def Settled (w : JobsWorld) (jobId : Uuid) : Prop :=
  ∀ call ∈ w.calls, call.jobId = jobId → call.creating = false

instance (w : JobsWorld) (jobId : Uuid) : Decidable (w.Settled jobId) :=
  inferInstanceAs (Decidable (∀ call ∈ w.calls, call.jobId = jobId → call.creating = false))

/-- What a section of a call meets: a container that is created has an identifier and starts; a stop or
completion comes to act once the creation of its job has returned, and Docker answers to it and
removes the container. -/
def Meets (w : JobsWorld) (env : Encounter) : JobCall → Prop
  | .create _ (.createContainer _) => env.succeeds = true → env.drawn ≠ ""
  | .create _ (.startContainer _ _) => env.succeeds = true
  | .create _ _ => True
  | .ending _ _ (.connect _) => env.succeeds = true
  | .ending _ _ (.removeContainer containerId) =>
    env.succeeds = true ∨ ∀ c ∈ w.jobs.docker, c.id ≠ containerId
  | .ending jobId kind phase => phase.begun kind = false → w.Settled jobId

instance Meets.decidable (w : JobsWorld) (env : Encounter) : ∀ call, Decidable (w.Meets env call)
  | .create _ (.createContainer _) => inferInstanceAs (Decidable (_ = true → env.drawn ≠ ""))
  | .create _ (.startContainer _ _) => inferInstanceAs (Decidable (_ = true))
  | .create _ (.issueToken _) | .create _ (.storeGrants _ _) | .create _ (.recordHandle _)
  | .create _ (.connect _) | .create _ (.validateMount _) | .create _ (.updateHandle _ _)
  | .create _ (.removeToken _) | .create _ (.removeGrants _) | .create _ (.removeHandle _)
  | .create _ (.returned _) => .isTrue trivial
  | .ending _ _ (.connect _) => inferInstanceAs (Decidable (_ = true))
  | .ending _ _ (.removeContainer containerId) =>
    inferInstanceAs (Decidable (_ = true ∨ ∀ c ∈ w.jobs.docker, c.id ≠ containerId))
  | .ending jobId kind .storeResult =>
    inferInstanceAs (Decidable (EndPhase.storeResult.begun kind = false → w.Settled jobId))
  | .ending jobId kind .look =>
    inferInstanceAs (Decidable (EndPhase.look.begun kind = false → w.Settled jobId))
  | .ending jobId kind (.stopContainer id) =>
    inferInstanceAs (Decidable ((EndPhase.stopContainer id).begun kind = false → w.Settled jobId))
  | .ending jobId kind .updateState =>
    inferInstanceAs (Decidable (EndPhase.updateState.begun kind = false → w.Settled jobId))
  | .ending jobId kind .removeToken =>
    inferInstanceAs (Decidable (EndPhase.removeToken.begun kind = false → w.Settled jobId))
  | .ending jobId kind .removeGrants =>
    inferInstanceAs (Decidable (EndPhase.removeGrants.begun kind = false → w.Settled jobId))
  | .ending jobId kind (.returned result) =>
    inferInstanceAs (Decidable ((EndPhase.returned result).begun kind = false → w.Settled jobId))

/-- Jobs get new identifiers, handles are cleaned up once the container is removed and the token
revoked, and sections meet what they rely on. -/
def Orderly (w : JobsWorld) : JobsAct → Prop
  | .createJob jobId _ => ∀ call ∈ w.calls, call.jobId ≠ jobId
  | .stopJob _ | .completeJob _ _ => True
  | .cleanupJob jobId =>
    w.Settled jobId ∧ w.jobs.Gone jobId ∧ w.jobs.tokenStore.tokens jobId = none
  | .advance call env => ∀ c ∈ w.calls[call]?, w.Meets env c

instance Orderly.decidable (w : JobsWorld) : ∀ act, Decidable (w.Orderly act)
  | .createJob jobId _ => inferInstanceAs (Decidable (∀ call ∈ w.calls, call.jobId ≠ jobId))
  | .stopJob _ | .completeJob _ _ => .isTrue trivial
  | .cleanupJob jobId => inferInstanceAs (Decidable (w.Settled jobId ∧ w.jobs.Gone jobId ∧ _ = none))
  | .advance call env => inferInstanceAs (Decidable (∀ c ∈ w.calls[call]?, w.Meets env c))

end JobsWorld

namespace Jobs

/-- All containers of a job have one identifier. -/
def Only (s : Jobs) (jobId : Uuid) (containerId : String) : Prop :=
  ∀ c ∈ s.docker, c.job = jobId → c.id = containerId

/-- A job that is not being created: its handle names its container, or nothing is left of it. -/
def Rests (s : Jobs) (jobId : Uuid) : Prop :=
  match s.containers jobId with
  | some h => h.containerId ≠ "" ∧ s.Only jobId h.containerId
  | none => s.Gone jobId ∧ s.tokenStore.tokens jobId = none

/-- The job has a handle, and its container is still being created. -/
def Creating (s : Jobs) (jobId : Uuid) : Prop :=
  ∃ h, s.containers jobId = some h ∧ h.state = .creating

/-- Nothing is left of a job. -/
def Blank (s : Jobs) (jobId : Uuid) : Prop :=
  s.containers jobId = none ∧ s.Gone jobId ∧ s.tokenStore.tokens jobId = none

/-- No container of a job is new. -/
def NoneNew (jobId : Uuid) (s s' : Jobs) : Prop :=
  ∀ c' ∈ s'.docker, c'.job = jobId → ∃ c ∈ s.docker, c.job = jobId ∧ c.id = c'.id

/-- A job is left alone. -/
structure Frame (jobId : Uuid) (s s' : Jobs) : Prop where
  containers : s'.containers jobId = s.containers jobId
  tokens : s'.tokenStore.tokens jobId = s.tokenStore.tokens jobId
  docker : NoneNew jobId s s'

/-- What stops, completions and cleanups may do to a job. -/
structure Calm (jobId : Uuid) (s s' : Jobs) : Prop where
  containers : (∃ f : ContainerHandle → ContainerHandle,
      (∀ h, (f h).containerId = h.containerId ∧ ((f h).state = h.state ∨ (f h).state = .stopped)) ∧
        s'.containers jobId = (s.containers jobId).map f) ∨
    s'.containers jobId = none ∧ s.Gone jobId ∧ s.tokenStore.tokens jobId = none
  tokens : s'.tokenStore.tokens jobId = s.tokenStore.tokens jobId ∨
    s'.tokenStore.tokens jobId = none
  docker : NoneNew jobId s s'

variable {s s' : Jobs} {jobId : Uuid}

theorem NoneNew.refl (jobId : Uuid) (s : Jobs) : NoneNew jobId s s :=
  fun c hc hjob => ⟨c, hc, hjob, rfl⟩

theorem NoneNew.gone (h : NoneNew jobId s s') (hgone : s.Gone jobId) : s'.Gone jobId := by
  intro c' hc' hjob
  obtain ⟨c, hc, hsame, -⟩ := h c' hc' hjob
  exact hgone c hc hsame

theorem NoneNew.only {containerId : String} (h : NoneNew jobId s s')
    (honly : s.Only jobId containerId) : s'.Only jobId containerId := by
  intro c' hc' hjob
  obtain ⟨c, hc, hsame, hid⟩ := h c' hc' hjob
  rw [← hid]
  exact honly c hc hsame

theorem Frame.calm (h : Frame jobId s s') : Calm jobId s s' :=
  ⟨.inl ⟨id, fun _ => ⟨rfl, .inl rfl⟩, by rw [h.containers, Option.map_id, id]⟩, .inl h.tokens,
    h.docker⟩

theorem Calm.tokens_none (h : Calm jobId s s') (hnone : s.tokenStore.tokens jobId = none) :
    s'.tokenStore.tokens jobId = none :=
  h.tokens.elim (fun hsame => hsame.trans hnone) id

theorem Calm.blank (h : Calm jobId s s') (hblank : s.Blank jobId) : s'.Blank jobId := by
  refine ⟨?_, h.docker.gone hblank.2.1, h.tokens_none hblank.2.2⟩
  rcases h.containers with ⟨f, -, hmap⟩ | ⟨hnone, -⟩
  · rw [hmap, hblank.1]
    rfl
  · exact hnone

theorem Calm.rests (h : Calm jobId s s') (hrests : s.Rests jobId) : s'.Rests jobId := by
  unfold Rests at hrests ⊢
  rcases h.containers with ⟨f, hf, hmap⟩ | ⟨hnone, hgone, htokens⟩
  · rw [hmap]
    cases hhandle : s.containers jobId with
    | none =>
      rw [hhandle] at hrests
      exact ⟨h.docker.gone hrests.1, h.tokens_none hrests.2⟩
    | some handle =>
      rw [hhandle] at hrests
      show (f handle).containerId ≠ "" ∧ s'.Only jobId (f handle).containerId
      rw [(hf handle).1]
      exact ⟨hrests.1, h.docker.only hrests.2⟩
  · rw [hnone]
    exact ⟨h.docker.gone hgone, h.tokens_none htokens⟩

end Jobs

/-- What is so while a creation is in a phase. -/
def CreatePhase.Fits (s : Jobs) (jobId : Uuid) : CreatePhase → Prop
  | issueToken _ | storeGrants _ _ | recordHandle _ => s.containers jobId = none ∧ s.Gone jobId
  | connect _ | validateMount _ | createContainer _ | removeToken _ =>
    s.Creating jobId ∧ s.Gone jobId
  | startContainer _ containerId | updateHandle _ containerId =>
    s.Creating jobId ∧ s.Only jobId containerId ∧ containerId ≠ ""
  | removeGrants _ | removeHandle _ =>
    s.Creating jobId ∧ s.Gone jobId ∧ s.tokenStore.tokens jobId = none
  | returned (.error _) => s.Blank jobId
  | returned (.ok _) => True

/-- The token that a creation hands out, or will hand out. -/
def CreatePhase.token : CreatePhase → Option String
  | storeGrants _ token | recordHandle token | connect token | validateMount token
  | createContainer token | startContainer token _ | updateHandle token _
  | returned (.ok token) => some token
  | issueToken _ | removeToken _ | removeGrants _ | removeHandle _ | returned (.error _) => none

/-- What is so while a stop or completion is in a phase. -/
def EndPhase.Fits (s : Jobs) (jobId : Uuid) : EndPhase → Prop
  | storeResult | look => True
  | connect containerId | stopContainer containerId | removeContainer containerId =>
    s.Only jobId containerId
  | updateState | removeToken => s.Gone jobId
  | removeGrants | returned _ => s.Gone jobId ∧ s.tokenStore.tokens jobId = none

section Phases

variable {s s' : Jobs} {jobId : Uuid}

theorem CreatePhase.Fits.frame {phase : CreatePhase} (h : phase.Fits s jobId)
    (hframe : Jobs.Frame jobId s s') : phase.Fits s' jobId := by
  have hcreating (hbefore : s.Creating jobId) : s'.Creating jobId := by
    obtain ⟨handle, hhandle, hstate⟩ := hbefore
    exact ⟨handle, hframe.containers.trans hhandle, hstate⟩
  have htokens (hnone : s.tokenStore.tokens jobId = none) : s'.tokenStore.tokens jobId = none :=
    hframe.tokens.trans hnone
  cases phase with
  | issueToken _ | storeGrants _ _ | recordHandle _ =>
    exact ⟨hframe.containers.trans h.1, hframe.docker.gone h.2⟩
  | connect _ | validateMount _ | createContainer _ | removeToken _ =>
    exact ⟨hcreating h.1, hframe.docker.gone h.2⟩
  | startContainer _ _ | updateHandle _ _ =>
    exact ⟨hcreating h.1, hframe.docker.only h.2.1, h.2.2⟩
  | removeGrants _ | removeHandle _ =>
    exact ⟨hcreating h.1, hframe.docker.gone h.2.1, htokens h.2.2⟩
  | returned result =>
    cases result with
    | ok token => trivial
    | error err => exact hframe.calm.blank h

theorem CreatePhase.Fits.calm {phase : CreatePhase} (h : phase.Fits s jobId)
    (hreturned : (JobCall.create jobId phase).creating = false) (hcalm : Jobs.Calm jobId s s') :
    phase.Fits s' jobId := by
  cases phase with
  | returned result =>
    cases result with
    | ok token => trivial
    | error err => exact hcalm.blank h
  | issueToken _ | storeGrants _ _ | recordHandle _ | connect _ | validateMount _
  | createContainer _ | startContainer _ _ | updateHandle _ _ | removeToken _ | removeGrants _
  | removeHandle _ => cases hreturned

theorem EndPhase.Fits.calm {phase : EndPhase} (h : phase.Fits s jobId)
    (hcalm : Jobs.Calm jobId s s') : phase.Fits s' jobId := by
  cases phase with
  | storeResult | look => trivial
  | connect _ | stopContainer _ | removeContainer _ => exact hcalm.docker.only h
  | updateState | removeToken => exact hcalm.docker.gone h
  | removeGrants | returned _ => exact ⟨hcalm.docker.gone h.1, hcalm.tokens_none h.2⟩

end Phases

namespace Jobs

section CreateStep

variable {s : Jobs} {jobId k : Uuid} {env : Encounter} {phase : CreatePhase}

/-- A section of a creation leaves other jobs alone. -/
theorem createStep_frame (hk : k ≠ jobId) : Frame k s (s.createStep jobId env phase).1 := by
  have hsame : Frame k s s := ⟨rfl, rfl, NoneNew.refl k s⟩
  cases phase with
  | issueToken _ | removeToken _ =>
    exact ⟨rfl, Function.update_of_ne hk _ _, NoneNew.refl k s⟩
  | storeGrants grants token =>
    refine ⟨rfl, ?_, NoneNew.refl k s⟩
    show (s.tokenStore.storeGrants jobId grants).tokens k = _
    unfold TokenStore.storeGrants
    split
    · rfl
    · rfl
  | recordHandle _ | removeHandle _ =>
    exact ⟨Function.update_of_ne hk _ _, rfl, NoneNew.refl k s⟩
  | connect _ | validateMount _ =>
    simp only [createStep]
    split
    · exact hsame
    · exact hsame
  | createContainer _ =>
    simp only [createStep]
    split
    · refine ⟨rfl, rfl, fun c' hc' hjob => ?_⟩
      rcases List.mem_append.mp hc' with hc | hc
      · exact ⟨c', hc, hjob, rfl⟩
      · rw [List.mem_singleton.mp hc] at hjob
        exact absurd hjob.symm hk
    · exact hsame
  | startContainer _ containerId =>
    simp only [createStep]
    split
    · refine ⟨rfl, rfl, fun c' hc' hjob => ?_⟩
      obtain ⟨c, hc, rfl⟩ := List.mem_map.mp hc'
      refine ⟨c, hc, ?_⟩
      by_cases hid : c.id = containerId
      · simp only [hid, if_true] at hjob ⊢
        exact ⟨hjob, trivial⟩
      · simp only [hid, if_false] at hjob ⊢
        exact ⟨hjob, trivial⟩
    · exact hsame
  | updateHandle _ _ => exact ⟨Function.update_of_ne hk _ _, rfl, NoneNew.refl k s⟩
  | removeGrants _ => exact ⟨rfl, rfl, NoneNew.refl k s⟩
  | returned _ => exact hsame

theorem createStep_fits (hfits : phase.Fits s jobId)
    (hdrawn : ∀ token, phase = .createContainer token → env.succeeds = true → env.drawn ≠ "")
    (hstarts : ∀ token containerId, phase = .startContainer token containerId →
      env.succeeds = true) :
    (s.createStep jobId env phase).2.Fits (s.createStep jobId env phase).1 jobId := by
  cases phase with
  | issueToken _ => exact hfits
  | storeGrants grants token => exact hfits
  | recordHandle _ => exact ⟨⟨_, Function.update_self _ _ _, rfl⟩, hfits.2⟩
  | connect _ | validateMount _ =>
    simp only [createStep]
    split
    · exact hfits
    · exact hfits
  | createContainer token =>
    simp only [createStep]
    split
    next hsucceeds =>
      refine ⟨hfits.1, fun c hc hjob => ?_, hdrawn token rfl hsucceeds⟩
      rcases List.mem_append.mp hc with hc | hc
      · exact absurd hjob (hfits.2 c hc)
      · rw [List.mem_singleton.mp hc]
    next => exact hfits
  | startContainer token containerId =>
    simp only [createStep]
    rw [if_pos (hstarts token containerId rfl)]
    refine ⟨hfits.1, fun c' hc' hjob => ?_, hfits.2.2⟩
    obtain ⟨c, hc, rfl⟩ := List.mem_map.mp hc'
    by_cases hid : c.id = containerId
    · simp only [hid, if_true]
    · simp only [hid, if_false] at hjob
      exact absurd (hfits.2.1 c hc hjob) hid
  | updateHandle _ _ => trivial
  | removeToken _ => exact ⟨hfits.1, hfits.2, Function.update_self _ _ _⟩
  | removeGrants _ => exact hfits
  | removeHandle _ => exact ⟨Function.update_self _ _ _, hfits.2⟩
  | returned _ => exact hfits

/-- A creation that returns leaves the job at rest. -/
theorem createStep_rests (hfits : phase.Fits s jobId) (hopen : ∀ result, phase ≠ .returned result)
    {result : Except OrchestratorError String}
    (hreturned : (s.createStep jobId env phase).2 = .returned result) :
    (s.createStep jobId env phase).1.Rests jobId := by
  cases phase with
  | updateHandle token containerId =>
    obtain ⟨⟨h, hhandle, -⟩, honly, hne⟩ := hfits
    have hcontainers : (s.createStep jobId env (.updateHandle token containerId)).1.containers jobId =
        some { h with containerId := containerId, state := .running } := by
      show Function.update s.containers jobId _ jobId = _
      rw [Function.update_self, hhandle]
      rfl
    unfold Rests
    rw [hcontainers]
    exact ⟨hne, honly⟩
  | removeHandle err =>
    have hcontainers : (s.createStep jobId env (.removeHandle err)).1.containers jobId = none :=
      Function.update_self _ _ _
    unfold Rests
    rw [hcontainers]
    exact hfits.2
  | returned before => exact absurd rfl (hopen before)
  | issueToken _ | storeGrants _ _ | recordHandle _ | removeToken _ | removeGrants _ =>
    cases hreturned
  | connect _ | validateMount _ | createContainer _ | startContainer _ _ =>
    simp only [createStep] at hreturned
    split at hreturned
    · cases hreturned
    · cases hreturned

/-- The token a creation hands out is the one it has issued. -/
theorem createStep_token {token : String}
    (htoken : (s.createStep jobId env phase).2.token = some token) :
    (s.createStep jobId env phase).1.tokenStore.tokens jobId = some token ∨
      phase.token = some token ∧
        (s.createStep jobId env phase).1.tokenStore.tokens jobId = s.tokenStore.tokens jobId := by
  cases phase with
  | issueToken _ =>
    left
    rw [← htoken]
    exact Function.update_self _ _ _
  | storeGrants grants before =>
    refine .inr ⟨htoken, ?_⟩
    show (s.tokenStore.storeGrants jobId grants).tokens jobId = _
    unfold TokenStore.storeGrants
    split
    · rfl
    · rfl
  | recordHandle _ | updateHandle _ _ | returned _ => exact .inr ⟨htoken, rfl⟩
  | connect _ | validateMount _ | createContainer _ | startContainer _ _ =>
    right
    simp only [createStep] at htoken ⊢
    split at htoken
    next hsucceeds =>
      rw [if_pos hsucceeds]
      exact ⟨htoken, rfl⟩
    next => cases htoken
  | removeToken _ | removeGrants _ | removeHandle _ => cases htoken

end CreateStep

section EndStep

variable {s : Jobs} {jobId k : Uuid} {env : Encounter} {kind : EndKind} {phase : EndPhase}

/-- Removing or changing containers in place makes none new. -/
theorem noneNew_map (f : DockerContainer → DockerContainer)
    (hf : ∀ c, (f c).job = c.job ∧ (f c).id = c.id) :
    NoneNew k s { s with docker := s.docker.map f } := by
  intro c' hc' hjob
  obtain ⟨c, hc, rfl⟩ := List.mem_map.mp hc'
  exact ⟨c, hc, (hf c).1.symm.trans hjob, (hf c).2.symm⟩

theorem noneNew_filter (f : DockerContainer → Bool) :
    NoneNew k s { s with docker := s.docker.filter f } :=
  fun c' hc' hjob => ⟨c', (List.mem_filter.mp hc').1, hjob, rfl⟩

theorem endStep_frame (hk : k ≠ jobId) : Frame k s (s.endStep jobId kind env phase).1 := by
  have hsame : Frame k s s := ⟨rfl, rfl, NoneNew.refl k s⟩
  cases phase with
  | storeResult =>
    cases kind with
    | stop => exact hsame
    | complete _ => exact ⟨Function.update_of_ne hk _ _, rfl, NoneNew.refl k s⟩
  | look | returned _ => exact hsame
  | connect _ =>
    simp only [endStep]
    split
    · exact hsame
    · cases kind with
      | stop => exact hsame
      | complete _ => exact hsame
  | stopContainer _ =>
    simp only [endStep]
    split
    · refine ⟨rfl, rfl, noneNew_map _ fun c => ?_⟩
      split
      · exact ⟨rfl, rfl⟩
      · exact ⟨rfl, rfl⟩
    · exact hsame
  | removeContainer _ =>
    simp only [endStep]
    split
    · exact ⟨rfl, rfl, noneNew_filter _⟩
    · exact hsame
  | updateState => exact ⟨Function.update_of_ne hk _ _, rfl, NoneNew.refl k s⟩
  | removeToken => exact ⟨rfl, Function.update_of_ne hk _ _, NoneNew.refl k s⟩
  | removeGrants => exact ⟨rfl, rfl, NoneNew.refl k s⟩

theorem endStep_calm : Calm jobId s (s.endStep jobId kind env phase).1 := by
  have hsame : Frame jobId s s := ⟨rfl, rfl, NoneNew.refl jobId s⟩
  have hchanged (f : ContainerHandle → ContainerHandle)
      (hf : ∀ h, (f h).containerId = h.containerId ∧ (f h).state = .stopped) :
      Calm jobId s (s.updateHandle jobId f) :=
    ⟨.inl ⟨f, fun h => ⟨(hf h).1, .inr (hf h).2⟩, Function.update_self _ _ _⟩, .inl rfl,
      NoneNew.refl jobId s⟩
  cases phase with
  | storeResult =>
    cases kind with
    | stop => exact hsame.calm
    | complete _ => exact hchanged _ fun _ => ⟨rfl, rfl⟩
  | look | returned _ => exact hsame.calm
  | connect _ =>
    simp only [endStep]
    split
    · exact hsame.calm
    · cases kind with
      | stop => exact hsame.calm
      | complete _ => exact hsame.calm
  | stopContainer _ =>
    simp only [endStep]
    split
    · refine Frame.calm ⟨rfl, rfl, noneNew_map _ fun c => ?_⟩
      split
      · exact ⟨rfl, rfl⟩
      · exact ⟨rfl, rfl⟩
    · exact hsame.calm
  | removeContainer _ =>
    simp only [endStep]
    split
    · exact Frame.calm ⟨rfl, rfl, noneNew_filter _⟩
    · exact hsame.calm
  | updateState => exact hchanged _ fun _ => ⟨rfl, rfl⟩
  | removeToken =>
    exact ⟨hsame.calm.containers, .inr (Function.update_self _ _ _), NoneNew.refl jobId s⟩
  | removeGrants => exact Frame.calm ⟨rfl, rfl, NoneNew.refl jobId s⟩

theorem endStep_fits (hfits : phase.Fits s jobId) (hrests : s.Rests jobId)
    (hconnects : ∀ containerId, phase = .connect containerId → env.succeeds = true)
    (hremoves : ∀ containerId, phase = .removeContainer containerId →
      env.succeeds = true ∨ ∀ c ∈ s.docker, c.id ≠ containerId) :
    (s.endStep jobId kind env phase).2.Fits (s.endStep jobId kind env phase).1 jobId := by
  cases phase with
  | storeResult =>
    cases kind with
    | stop => trivial
    | complete _ => trivial
  | look =>
    show (afterLook jobId kind (s.containers jobId)).Fits s jobId
    unfold Rests at hrests
    cases hhandle : s.containers jobId with
    | none =>
      rw [hhandle] at hrests
      cases kind with
      | stop => exact hrests
      | complete _ => exact hrests.1
    | some h =>
      rw [hhandle] at hrests
      cases kind with
      | stop =>
        simp only [afterLook, if_neg hrests.1]
        exact hrests.2
      | complete _ =>
        simp only [afterLook, if_neg hrests.1]
        exact hrests.2
  | connect containerId =>
    simp only [endStep]
    rw [if_pos (hconnects containerId rfl)]
    exact hfits
  | stopContainer containerId =>
    have honly : s.Only jobId containerId := hfits
    have hcalm : Calm jobId s (s.endStep jobId kind env (.stopContainer containerId)).1 := endStep_calm
    exact hcalm.docker.only honly
  | removeContainer containerId =>
    have hgone : (s.endStep jobId kind env (.removeContainer containerId)).1.Gone jobId := by
      simp only [endStep]
      split
      next =>
        intro c hc hjob
        obtain ⟨hmem, hne⟩ := List.mem_filter.mp hc
        exact of_decide_eq_true hne (hfits c hmem hjob)
      next hfails =>
        intro c hc hjob
        exact (hremoves containerId rfl).elim hfails fun hnone => hnone c hc (hfits c hc hjob)
    cases kind with
    | stop => exact hgone
    | complete _ => exact hgone
  | updateState => exact hfits
  | removeToken => exact ⟨hfits, Function.update_self _ _ _⟩
  | removeGrants | returned _ => exact hfits

end EndStep

end Jobs

namespace JobsWorld

/-- What is so of a job's calls in every orderly run. -/
structure Inv (w : JobsWorld) : Prop where
  unborn : ∀ jobId, (∀ call ∈ w.calls, call.jobId ≠ jobId) → w.jobs.Blank jobId
  unique : ∀ (i k : Nat) jobId p q, w.calls[i]? = some (.create jobId p) →
    w.calls[k]? = some (.create jobId q) → i = k
  creates : ∀ jobId p, JobCall.create jobId p ∈ w.calls → p.Fits w.jobs jobId
  tokens : ∀ jobId p, JobCall.create jobId p ∈ w.calls → ∀ token, p.token = some token →
    w.jobs.tokenStore.tokens jobId = some token ∨
      ∃ call ∈ w.calls, call.jobId = jobId ∧ call.isEnding = true
  endings : ∀ jobId kind p, JobCall.ending jobId kind p ∈ w.calls →
    p.Fits w.jobs jobId ∧ (p.begun kind = true → w.Settled jobId)
  rests : ∀ jobId, w.Settled jobId → w.jobs.Rests jobId

section Steps

variable {w : JobsWorld}

theorem mem_set_of_ne {call : JobCall} {i : Nat} (next : JobCall) (hcall : call ∈ w.calls)
    (hne : w.calls[i]? ≠ some call) : call ∈ w.calls.set i next := by
  obtain ⟨k, hk⟩ := List.mem_iff_getElem?.mp hcall
  apply List.mem_iff_getElem?.mpr
  refine ⟨k, ?_⟩
  rw [List.getElem?_set]
  split
  next heq =>
    subst heq
    exact absurd hk hne
  next => exact hk

theorem mem_set_cases {call next : JobCall} {i : Nat} (h : call ∈ w.calls.set i next) :
    call = next ∨ ∃ n, n ≠ i ∧ w.calls[n]? = some call := by
  obtain ⟨n, hn⟩ := List.mem_iff_getElem?.mp h
  rw [List.getElem?_set] at hn
  split at hn
  next heq =>
    split at hn
    · exact .inl (Option.some.inj hn).symm
    · cases hn
  next hne => exact .inr ⟨n, Ne.symm hne, hn⟩

theorem fits_of_not_begun {s : Jobs} {jobId : Uuid} {kind : EndKind} {p : EndPhase}
    (h : p.begun kind = false) : p.Fits s jobId := by
  cases p with
  | storeResult | look => trivial
  | connect _ | stopContainer _ | removeContainer _ | updateState | removeToken | removeGrants
  | returned _ => cases kind <;> cases h

theorem Inv.unborn_rests (h : w.Inv) {jobId : Uuid} (hnew : ∀ call ∈ w.calls, call.jobId ≠ jobId) :
    w.jobs.Rests jobId := by
  have hblank := h.unborn jobId hnew
  unfold Jobs.Rests
  rw [hblank.1]
  exact hblank.2

/-- A new call that has not begun. -/
theorem Inv.append (h : w.Inv) (call : JobCall)
    (hcall : ∀ jobId p, call = .create jobId p →
      (∀ other ∈ w.calls, other.jobId ≠ jobId) ∧ p.Fits w.jobs jobId ∧ p.token = none ∧
        call.creating = true)
    (hending : ∀ jobId kind p, call = .ending jobId kind p →
      p.Fits w.jobs jobId ∧ p.begun kind = false) :
    Inv { w with calls := w.calls ++ [call] } := by
  have hold (other : JobCall) (hother : other ∈ w.calls) : other ∈ w.calls ++ [call] :=
    List.mem_append_left _ hother
  have hcases (other : JobCall) (hother : other ∈ w.calls ++ [call]) :
      other ∈ w.calls ∨ other = call :=
    (List.mem_append.mp hother).imp_right List.mem_singleton.mp
  constructor
  · intro jobId hnew
    exact h.unborn jobId fun other hother => hnew other (hold other hother)
  · -- a creation has a new identifier
    have hnew (i k : Nat) (jobId : Uuid) (p q : CreatePhase) (hi : i < w.calls.length)
        (hcreate : w.calls[i]? = some (.create jobId p))
        (hlast : (w.calls ++ [call])[k]? = some (.create jobId q)) : k < w.calls.length := by
      by_contra hge
      rw [List.getElem?_append_right (Nat.not_lt.mp hge)] at hlast
      have heq := List.mem_singleton.mp (List.mem_of_getElem? hlast)
      exact (hcall jobId q heq.symm).1 _ (List.mem_of_getElem? hcreate) rfl
    intro i k jobId p q hi hk
    by_cases hiold : i < w.calls.length
    · have hi' := hi
      rw [List.getElem?_append_left hiold] at hi'
      have hkold := hnew i k jobId p q hiold hi' hk
      rw [List.getElem?_append_left hkold] at hk
      exact h.unique i k jobId p q hi' hk
    · by_cases hkold : k < w.calls.length
      · have hk' := hk
        rw [List.getElem?_append_left hkold] at hk'
        exact absurd (hnew k i jobId q p hkold hk' hi) hiold
      · have hilt := (List.getElem?_eq_some_iff.mp hi).1
        have hklt := (List.getElem?_eq_some_iff.mp hk).1
        rw [List.length_append, List.length_singleton] at hilt hklt
        omega
  · intro jobId p hmem
    rcases hcases _ hmem with hmem | heq
    · exact h.creates jobId p hmem
    · exact (hcall jobId p heq.symm).2.1
  · intro jobId p hmem token htoken
    rcases hcases _ hmem with hmem | heq
    · refine (h.tokens jobId p hmem token htoken).imp_right ?_
      rintro ⟨other, hother, hending⟩
      exact ⟨other, hold other hother, hending⟩
    · rw [(hcall jobId p heq.symm).2.2.1] at htoken
      cases htoken
  · intro jobId kind p hin
    rcases hcases _ hin with hmem | heq
    · obtain ⟨hfits, hsettled⟩ := h.endings jobId kind p hmem
      refine ⟨hfits, fun hbegun other hother hjob => ?_⟩
      rcases hcases other hother with hother | rfl
      · exact hsettled hbegun other hother hjob
      · cases other with
        | ending _ _ _ => rfl
        | create otherId q =>
          have hnew := (hcall otherId q rfl).1 _ hmem
          exact absurd hjob.symm hnew
    · obtain ⟨hfits, hbegun⟩ := hending jobId kind p heq.symm
      exact ⟨hfits, fun hbegun' => absurd (hbegun.symm.trans hbegun') Bool.noConfusion⟩
  · intro jobId hsettled
    exact h.rests jobId fun other hother => hsettled other (hold other hother)

theorem Inv.cleanup (h : w.Inv) {jobId : Uuid} (hsettled : w.Settled jobId)
    (hgone : w.jobs.Gone jobId) (htokens : w.jobs.tokenStore.tokens jobId = none) :
    Inv { w with jobs := w.jobs.removeHandle jobId } := by
  have hframe (k : Uuid) (hk : k ≠ jobId) : Jobs.Frame k w.jobs (w.jobs.removeHandle jobId) :=
    ⟨Function.update_of_ne hk _ _, rfl, Jobs.NoneNew.refl k _⟩
  have hcalm (k : Uuid) : Jobs.Calm k w.jobs (w.jobs.removeHandle jobId) := by
    by_cases hk : k = jobId
    · subst hk
      exact ⟨.inr ⟨Function.update_self _ _ _, hgone, htokens⟩, .inl rfl, Jobs.NoneNew.refl k _⟩
    · exact (hframe k hk).calm
  constructor
  · exact fun k hnew => (hcalm k).blank (h.unborn k hnew)
  · exact h.unique
  · intro k p hmem
    by_cases hk : k = jobId
    · subst hk
      exact (h.creates k p hmem).calm (hsettled _ hmem rfl) (hcalm k)
    · exact (h.creates k p hmem).frame (hframe k hk)
  · exact h.tokens
  · intro k kind p hmem
    obtain ⟨hfits, hbegun⟩ := h.endings k kind p hmem
    exact ⟨hfits.calm (hcalm k), hbegun⟩
  · exact fun k hk => (hcalm k).rests (h.rests k hk)

/-- A section of a creation that is under way. -/
theorem Inv.create (h : w.Inv) {i : Nat} {jobId : Uuid} {phase : CreatePhase} {env : Encounter}
    (hi : w.calls[i]? = some (.create jobId phase)) (hopen : ∀ result, phase ≠ .returned result)
    (hdrawn : ∀ token, phase = .createContainer token → env.succeeds = true → env.drawn ≠ "")
    (hstarts : ∀ token containerId, phase = .startContainer token containerId →
      env.succeeds = true) :
    Inv ⟨(w.jobs.createStep jobId env phase).1,
      w.calls.set i (.create jobId (w.jobs.createStep jobId env phase).2)⟩ := by
  have hmem : JobCall.create jobId phase ∈ w.calls := List.mem_of_getElem? hi
  have hfits := h.creates jobId phase hmem
  have hframe (k : Uuid) (hk : k ≠ jobId) :
      Jobs.Frame k w.jobs (w.jobs.createStep jobId env phase).1 := Jobs.createStep_frame hk
  have hnotSettled : ¬ w.Settled jobId := by
    intro hsettled
    have hreturned := hsettled _ hmem rfl
    cases phase with
    | returned result => exact hopen result rfl
    | issueToken _ | storeGrants _ _ | recordHandle _ | connect _ | validateMount _
    | createContainer _ | startContainer _ _ | updateHandle _ _ | removeToken _ | removeGrants _
    | removeHandle _ => cases hreturned
  -- the other calls are what they were
  have hother (call : JobCall) (hcall : call ∈ w.calls) (hne : call.jobId ≠ jobId) :
      call ∈ w.calls.set i (.create jobId (w.jobs.createStep jobId env phase).2) := by
    apply mem_set_of_ne _ hcall
    rw [hi]
    rintro heq
    apply hne
    rw [← Option.some.inj heq]
    rfl
  have hback (k : Uuid) (hk : k ≠ jobId)
      (hsettled : Settled ⟨(w.jobs.createStep jobId env phase).1,
        w.calls.set i (.create jobId (w.jobs.createStep jobId env phase).2)⟩ k) : w.Settled k :=
    fun call hcall hjob => hsettled call (hother call hcall (hjob ▸ hk)) hjob
  constructor
  · intro k hnew
    have hk : k ≠ jobId := fun heq => by
      subst heq
      exact hnew _ (List.mem_set (List.getElem?_eq_some_iff.mp hi).1 _) rfl
    refine (hframe k hk).calm.blank (h.unborn k fun call hcall hjob => ?_)
    exact hnew call (hother call hcall (hjob ▸ hk)) hjob
  · intro m n k p q hm hn
    have hbefore (m : Nat) (p : CreatePhase)
        (hm : (w.calls.set i (.create jobId (w.jobs.createStep jobId env phase).2))[m]? =
          some (.create k p)) : ∃ p', w.calls[m]? = some (.create k p') := by
      rw [List.getElem?_set] at hm
      split at hm
      next heq =>
        subst heq
        split at hm
        · cases hm
          exact ⟨phase, hi⟩
        · cases hm
      next => exact ⟨p, hm⟩
    obtain ⟨p', hm'⟩ := hbefore m p hm
    obtain ⟨q', hn'⟩ := hbefore n q hn
    exact h.unique m n k p' q' hm' hn'
  · intro k p hp
    rcases mem_set_cases hp with heq | ⟨n, hne, hn⟩
    · cases heq
      exact Jobs.createStep_fits hfits hdrawn hstarts
    · have hk : k ≠ jobId := by
        rintro rfl
        exact hne (h.unique n i k p phase hn hi)
      exact (h.creates k p (List.mem_of_getElem? hn)).frame (hframe k hk)
  · intro k p hp token htoken
    have hending (hin : ∃ call ∈ w.calls, call.jobId = k ∧ call.isEnding = true) :
        ∃ call ∈ w.calls.set i (.create jobId (w.jobs.createStep jobId env phase).2),
          call.jobId = k ∧ call.isEnding = true := by
      obtain ⟨call, hcall, hjob, hending⟩ := hin
      refine ⟨call, mem_set_of_ne _ hcall ?_, hjob, hending⟩
      rw [hi]
      rintro heq
      rw [← Option.some.inj heq] at hending
      cases hending
    rcases mem_set_cases hp with heq | ⟨n, hne, hn⟩
    · cases heq
      rcases Jobs.createStep_token htoken with hissued | ⟨hbefore, hsame⟩
      · exact .inl hissued
      · show (w.jobs.createStep jobId env phase).1.tokenStore.tokens jobId = _ ∨ _
        rw [hsame]
        exact (h.tokens jobId phase hmem token hbefore).imp_right hending
    · have hk : k ≠ jobId := by
        rintro rfl
        exact hne (h.unique n i k p phase hn hi)
      show (w.jobs.createStep jobId env phase).1.tokenStore.tokens k = _ ∨ _
      rw [(hframe k hk).tokens]
      exact (h.tokens k p (List.mem_of_getElem? hn) token htoken).imp_right hending
  · intro k kind p hp
    rcases mem_set_cases hp with heq | ⟨n, -, hn⟩
    · cases heq
    · obtain ⟨hkept, hsettled⟩ := h.endings k kind p (List.mem_of_getElem? hn)
      by_cases hk : k = jobId
      · subst hk
        -- it has not begun yet
        cases hbegun : p.begun kind with
        | false => exact ⟨fits_of_not_begun hbegun, fun hfalse => Bool.noConfusion hfalse⟩
        | true => exact absurd (hsettled hbegun) hnotSettled
      · refine ⟨hkept.calm (hframe k hk).calm, fun hbegun call hcall hjob => ?_⟩
        rcases mem_set_cases hcall with heq | ⟨m, -, hm⟩
        · rw [heq] at hjob
          exact absurd hjob.symm hk
        · exact hsettled hbegun call (List.mem_of_getElem? hm) hjob
  · intro k hsettled
    by_cases hk : k = jobId
    · subst hk
      have hnext := hsettled _ (List.mem_set (List.getElem?_eq_some_iff.mp hi).1 _) rfl
      cases hphase : (w.jobs.createStep k env phase).2 with
      | returned result => exact Jobs.createStep_rests hfits hopen hphase
      | issueToken _ | storeGrants _ _ | recordHandle _ | connect _ | validateMount _
      | createContainer _ | startContainer _ _ | updateHandle _ _ | removeToken _ | removeGrants _
      | removeHandle _ =>
        rw [hphase] at hnext
        cases hnext
    · exact (hframe k hk).calm.rests (h.rests k (hback k hk hsettled))

/-- A section of a stop or completion, once no creation of its job is under way. -/
theorem Inv.ending (h : w.Inv) {i : Nat} {jobId : Uuid} {kind : EndKind} {phase : EndPhase}
    {env : Encounter} (hi : w.calls[i]? = some (.ending jobId kind phase))
    (hsettled : w.Settled jobId)
    (hconnects : ∀ containerId, phase = .connect containerId → env.succeeds = true)
    (hremoves : ∀ containerId, phase = .removeContainer containerId →
      env.succeeds = true ∨ ∀ c ∈ w.jobs.docker, c.id ≠ containerId) :
    Inv ⟨(w.jobs.endStep jobId kind env phase).1,
      w.calls.set i (.ending jobId kind (w.jobs.endStep jobId kind env phase).2)⟩ := by
  have hmem : JobCall.ending jobId kind phase ∈ w.calls := List.mem_of_getElem? hi
  have hcalm (k : Uuid) : Jobs.Calm k w.jobs (w.jobs.endStep jobId kind env phase).1 := by
    by_cases hk : k = jobId
    · subst hk
      exact Jobs.endStep_calm
    · exact (Jobs.endStep_frame hk).calm
  -- creations are what they were, and jobs are settled as before
  have hcreates (k : Uuid) (p : CreatePhase)
      (hp : JobCall.create k p ∈
        w.calls.set i (.ending jobId kind (w.jobs.endStep jobId kind env phase).2)) :
      JobCall.create k p ∈ w.calls := by
    rcases mem_set_cases hp with heq | ⟨n, -, hn⟩
    · cases heq
    · exact List.mem_of_getElem? hn
  have hkeeps (k : Uuid) (hk : w.Settled k) :
      Settled ⟨(w.jobs.endStep jobId kind env phase).1,
        w.calls.set i (.ending jobId kind (w.jobs.endStep jobId kind env phase).2)⟩ k := by
    intro call hcall hjob
    rcases mem_set_cases hcall with rfl | ⟨n, -, hn⟩
    · rfl
    · exact hk call (List.mem_of_getElem? hn) hjob
  have hother (call : JobCall) (hcall : call ∈ w.calls) (hcreating : call.creating = true) :
      call ∈ w.calls.set i (.ending jobId kind (w.jobs.endStep jobId kind env phase).2) := by
    apply mem_set_of_ne _ hcall
    rw [hi]
    rintro heq
    rw [← Option.some.inj heq] at hcreating
    cases hcreating
  constructor
  · intro k hnew
    refine (hcalm k).blank (h.unborn k fun call hcall hjob => ?_)
    by_cases heq : w.calls[i]? = some call
    · have hnext := hnew _ (List.mem_set (List.getElem?_eq_some_iff.mp hi).1 _)
      rw [hi] at heq
      rw [← Option.some.inj heq] at hjob
      exact hnext hjob
    · exact hnew call (mem_set_of_ne _ hcall heq) hjob
  · intro m n k p q hm hn
    have hbefore (m : Nat) (p : CreatePhase)
        (hm : (w.calls.set i (.ending jobId kind (w.jobs.endStep jobId kind env phase).2))[m]? =
          some (.create k p)) : w.calls[m]? = some (.create k p) := by
      rw [List.getElem?_set] at hm
      split at hm
      next =>
        split at hm
        · cases hm
        · cases hm
      next => exact hm
    exact h.unique m n k p q (hbefore m p hm) (hbefore n q hn)
  · intro k p hp
    by_cases hk : k = jobId
    · subst hk
      have hin := hcreates k p hp
      exact (h.creates k p hin).calm (hsettled _ hin rfl) (hcalm k)
    · exact (h.creates k p (hcreates k p hp)).frame (Jobs.endStep_frame hk)
  · intro k p hp token htoken
    have hnext := List.mem_set (List.getElem?_eq_some_iff.mp hi).1
      (.ending jobId kind (w.jobs.endStep jobId kind env phase).2)
    by_cases hk : k = jobId
    · exact .inr ⟨_, hnext, hk.symm, rfl⟩
    · show (w.jobs.endStep jobId kind env phase).1.tokenStore.tokens k = _ ∨ _
      rw [(Jobs.endStep_frame hk).tokens]
      refine (h.tokens k p (hcreates k p hp) token htoken).imp_right ?_
      rintro ⟨call, hcall, hjob, hending⟩
      refine ⟨call, mem_set_of_ne _ hcall ?_, hjob, hending⟩
      rw [hi]
      rintro heq
      apply hk
      rw [← hjob, ← Option.some.inj heq]
      rfl
  · intro k kind' p hp
    rcases mem_set_cases hp with heq | ⟨n, -, hn⟩
    · cases heq
      exact ⟨Jobs.endStep_fits (h.endings jobId kind phase hmem).1 (h.rests jobId hsettled) hconnects
        hremoves, fun _ => hkeeps jobId hsettled⟩
    · obtain ⟨hfits, hbegun⟩ := h.endings k kind' p (List.mem_of_getElem? hn)
      exact ⟨hfits.calm (hcalm k), fun hbegun' => hkeeps k (hbegun hbegun')⟩
  · intro k hk
    refine (hcalm k).rests (h.rests k fun call hcall hjob => ?_)
    cases hcreating : call.creating with
    | false => rfl
    | true => exact hcreating.symm.trans (hk call (hother call hcall hcreating) hjob)

theorem Inv.settled_of_meets (h : w.Inv) {i : Nat} {jobId : Uuid} {kind : EndKind}
    {phase : EndPhase} {env : Encounter} (hi : w.calls[i]? = some (.ending jobId kind phase))
    (hmeets : w.Meets env (.ending jobId kind phase)) : w.Settled jobId := by
  cases hbegun : phase.begun kind with
  | true => exact (h.endings jobId kind phase (List.mem_of_getElem? hi)).2 hbegun
  | false =>
    cases phase with
    | connect _ | removeContainer _ => cases kind <;> cases hbegun
    | storeResult | look | stopContainer _ | updateState | removeToken | removeGrants
    | returned _ => exact hmeets hbegun

theorem Inv.step (h : w.Inv) (act : JobsAct) (hact : w.Orderly act) : (w.step act).Inv := by
  cases act with
  | createJob jobId grants =>
    apply h.append
    · rintro k p ⟨⟩
      have hblank := h.unborn jobId hact
      exact ⟨hact, ⟨hblank.1, hblank.2.1⟩, rfl, rfl⟩
    · rintro k kind p ⟨⟩
  | stopJob jobId =>
    apply h.append
    · rintro k p ⟨⟩
    · rintro k kind p ⟨⟩
      exact ⟨trivial, rfl⟩
  | completeJob jobId result =>
    apply h.append
    · rintro k p ⟨⟩
    · rintro k kind p ⟨⟩
      exact ⟨trivial, rfl⟩
  | cleanupJob jobId => exact h.cleanup hact.1 hact.2.1 hact.2.2
  | advance i env =>
    show (w.advance i env).Inv
    unfold advance
    split
    next jobId phase hi =>
      have hmeets := hact _ hi
      by_cases hopen : ∃ result, phase = .returned result
      · obtain ⟨result, rfl⟩ := hopen
        -- the call has returned
        have hsame : w.calls.set i (.create jobId (.returned result)) = w.calls := by
          obtain ⟨hlt, hget⟩ := List.getElem?_eq_some_iff.mp hi
          rw [← hget]
          exact List.set_getElem_self hlt
        show Inv ⟨w.jobs, w.calls.set i (.create jobId (.returned result))⟩
        rw [hsame]
        exact h
      · apply h.create hi fun result heq => hopen ⟨result, heq⟩
        · rintro token rfl
          exact hmeets
        · rintro token containerId rfl
          exact hmeets
    next jobId kind phase hi =>
      have hmeets := hact _ hi
      apply h.ending hi (h.settled_of_meets hi hmeets)
      · rintro containerId rfl
        exact hmeets
      · rintro containerId rfl
        exact hmeets
    next => exact h

/-- A step lets a job alone that is not being created, but for stops, completions and a cleanup. -/
theorem calm_step (act : JobsAct) (hact : w.Orderly act) {jobId : Uuid}
    (hsettled : w.Settled jobId) (hborn : ∃ call ∈ w.calls, call.jobId = jobId) :
    Jobs.Calm jobId w.jobs (w.step act).jobs ∧ (w.step act).Settled jobId ∧
      ∃ call ∈ (w.step act).calls, call.jobId = jobId := by
  have hsame : Jobs.Calm jobId w.jobs w.jobs :=
    Jobs.Frame.calm ⟨rfl, rfl, Jobs.NoneNew.refl jobId _⟩
  -- a new call, which is not a creation of this job
  have happend (call : JobCall) (hcall : call.jobId = jobId → call.creating = false) :
      Settled { w with calls := w.calls ++ [call] } jobId ∧
        ∃ other ∈ w.calls ++ [call], other.jobId = jobId := by
    obtain ⟨other, hother, hjob⟩ := hborn
    refine ⟨fun other hother hjob => ?_, other, List.mem_append_left _ hother, hjob⟩
    rcases List.mem_append.mp hother with hother | hother
    · exact hsettled other hother hjob
    · rw [List.mem_singleton.mp hother] at hjob ⊢
      exact hcall hjob
  have hset (jobs : Jobs) {i : Nat} {call next : JobCall} (hi : w.calls[i]? = some call)
      (hjob : next.jobId = call.jobId) (hnext : next.jobId = jobId → next.creating = false) :
      Settled ⟨jobs, w.calls.set i next⟩ jobId ∧
        ∃ other ∈ w.calls.set i next, other.jobId = jobId := by
    constructor
    · intro other hother hotherJob
      rcases mem_set_cases hother with rfl | ⟨n, -, hn⟩
      · exact hnext hotherJob
      · exact hsettled other (List.mem_of_getElem? hn) hotherJob
    · obtain ⟨other, hother, hotherJob⟩ := hborn
      by_cases heq : w.calls[i]? = some other
      · refine ⟨next, List.mem_set (List.getElem?_eq_some_iff.mp hi).1 _, ?_⟩
        rw [hi] at heq
        rw [hjob, Option.some.inj heq]
        exact hotherJob
      · exact ⟨other, mem_set_of_ne _ hother heq, hotherJob⟩
  cases act with
  | createJob k grants =>
    refine ⟨hsame, happend _ fun hjob => ?_⟩
    obtain ⟨call, hcall, hjob'⟩ := hborn
    exact absurd (hjob'.trans hjob.symm) (hact call hcall)
  | stopJob k => exact ⟨hsame, happend _ fun _ => rfl⟩
  | completeJob k result => exact ⟨hsame, happend _ fun _ => rfl⟩
  | cleanupJob k =>
    refine ⟨?_, hsettled, hborn⟩
    by_cases hk : jobId = k
    · subst hk
      exact ⟨.inr ⟨Function.update_self _ _ _, hact.2⟩, .inl rfl, Jobs.NoneNew.refl jobId _⟩
    · exact Jobs.Frame.calm ⟨Function.update_of_ne hk _ _, rfl, Jobs.NoneNew.refl jobId _⟩
  | advance i env =>
    show Jobs.Calm jobId w.jobs (w.advance i env).jobs ∧ (w.advance i env).Settled jobId ∧
      ∃ call ∈ (w.advance i env).calls, call.jobId = jobId
    unfold advance
    split
    next k phase hi =>
      by_cases hk : jobId = k
      · subst hk
        have hreturned := hsettled _ (List.mem_of_getElem? hi) rfl
        cases phase with
        | returned result => exact ⟨hsame, hset _ hi rfl fun _ => rfl⟩
        | issueToken _ | storeGrants _ _ | recordHandle _ | connect _ | validateMount _
        | createContainer _ | startContainer _ _ | updateHandle _ _ | removeToken _ | removeGrants _
        | removeHandle _ => cases hreturned
      · exact ⟨(Jobs.createStep_frame hk).calm, hset _ hi rfl fun hjob => absurd hjob.symm hk⟩
    next k kind phase hi =>
      refine ⟨?_, hset _ hi rfl fun _ => rfl⟩
      by_cases hk : jobId = k
      · subst hk
        exact Jobs.endStep_calm
      · exact (Jobs.endStep_frame hk).calm
    next => exact ⟨hsame, hsettled, hborn⟩

/-- A job whose handle shows it stopped has been created, and is not being created. -/
theorem Inv.settled_of_stopped (h : w.Inv) {jobId : Uuid} {handle : ContainerHandle}
    (hhandle : w.jobs.containers jobId = some handle) (hstopped : handle.state = .stopped) :
    w.Settled jobId ∧ ∃ call ∈ w.calls, call.jobId = jobId := by
  constructor
  · intro call hcall hjob
    cases call with
    | ending _ _ _ => rfl
    | create k phase =>
      have hk : k = jobId := hjob
      subst hk
      have hfits := h.creates k phase hcall
      have hnone (hempty : w.jobs.containers k = none) :
          (JobCall.create k phase).creating = false := by
        rw [hempty] at hhandle
        cases hhandle
      have hcreating (hstate : w.jobs.Creating k) : (JobCall.create k phase).creating = false := by
        obtain ⟨other, hother, hcreating⟩ := hstate
        rw [hhandle] at hother
        rw [← Option.some.inj hother, hstopped] at hcreating
        cases hcreating
      cases phase with
      | returned _ => rfl
      | issueToken _ | storeGrants _ _ | recordHandle _ => exact hnone hfits.1
      | connect _ | validateMount _ | createContainer _ | startContainer _ _ | updateHandle _ _
      | removeToken _ | removeGrants _ | removeHandle _ => exact hcreating hfits.1
  · by_contra hnone
    have hblank := h.unborn jobId fun call hcall hjob => hnone ⟨call, hcall, hjob⟩
    rw [hblank.1] at hhandle
    cases hhandle

end Steps

end JobsWorld

/-- In every orderly run a handle that has shown a job stopped never shows it creating or running again,
nothing is left of a job whose creation has failed or that was stopped or completed, and the token
that a creation has handed out is valid until the job is stopped or completed. -/
theorem job_lifecycle {w : JobsWorld} (hw : Reached JobsWorld.step JobsWorld.Orderly .new w) :
    (∀ jobId handle, w.jobs.containers jobId = some handle → handle.state = .stopped →
      ∀ w', Reached JobsWorld.step JobsWorld.Orderly w w' →
        ∀ later, w'.jobs.containers jobId = some later → later.state = .stopped) ∧
    (∀ call ∈ w.calls, call.over = true → w.jobs.Gone call.jobId ∧
      ∀ token, w.jobs.tokenStore.validate call.jobId token = false) ∧
    ∀ jobId token, JobCall.create jobId (.returned (.ok token)) ∈ w.calls →
      (∀ call ∈ w.calls, call.jobId = jobId → call.isEnding = false) →
        w.jobs.tokenStore.validate jobId token = true := by
  have hinv : w.Inv := by
    apply hw.invariant JobsWorld.Inv
    · constructor
      · exact fun _ _ => ⟨rfl, fun _ hc => absurd hc List.not_mem_nil, rfl⟩
      · intro i k jobId p q hi
        cases hi
      · exact fun _ _ hmem => absurd hmem List.not_mem_nil
      · exact fun _ _ hmem => absurd hmem List.not_mem_nil
      · exact fun _ _ _ hmem => absurd hmem List.not_mem_nil
      · exact fun _ _ => ⟨fun _ hc => absurd hc List.not_mem_nil, rfl⟩
    · exact fun w act hact hinv => hinv.step act hact
  refine ⟨fun jobId handle hhandle hstopped w' hw' => ?_, fun call hcall hover => ?_,
    fun jobId token hcreate hnone => ?_⟩
  · obtain ⟨hsettled, hborn⟩ := hinv.settled_of_stopped hhandle hstopped
    have hkept : w'.Inv ∧ w'.Settled jobId ∧ (∃ call ∈ w'.calls, call.jobId = jobId) ∧
        ∀ later, w'.jobs.containers jobId = some later → later.state = .stopped := by
      apply hw'.invariant fun v => v.Inv ∧ v.Settled jobId ∧
        (∃ call ∈ v.calls, call.jobId = jobId) ∧
          ∀ later, v.jobs.containers jobId = some later → later.state = .stopped
      · refine ⟨hinv, hsettled, hborn, fun later hlater => ?_⟩
        rw [hhandle] at hlater
        rw [← Option.some.inj hlater]
        exact hstopped
      · rintro v act hact ⟨hvinv, hvsettled, hvborn, hvstopped⟩
        obtain ⟨hcalm, hsettled', hborn'⟩ := JobsWorld.calm_step act hact hvsettled hvborn
        refine ⟨hvinv.step act hact, hsettled', hborn', fun later hlater => ?_⟩
        rcases hcalm.containers with ⟨f, hf, hmap⟩ | ⟨hempty, -⟩
        · rw [hmap] at hlater
          obtain ⟨before, hbefore, rfl⟩ := Option.map_eq_some_iff.mp hlater
          exact (hf before).2.elim (fun hsame => hsame.trans (hvstopped before hbefore)) id
        · rw [hempty] at hlater
          cases hlater
    exact hkept.2.2.2
  · have hover : w.jobs.Gone call.jobId ∧ w.jobs.tokenStore.tokens call.jobId = none := by
      cases call with
      | create jobId phase =>
        cases phase with
        | returned result =>
          cases result with
          | ok token => cases hover
          | error err => exact (hinv.creates jobId _ hcall).2
        | issueToken _ | storeGrants _ _ | recordHandle _ | connect _ | validateMount _
        | createContainer _ | startContainer _ _ | updateHandle _ _ | removeToken _ | removeGrants _
        | removeHandle _ => cases hover
      | ending jobId kind phase =>
        cases phase with
        | returned result => exact (hinv.endings jobId kind _ hcall).1
        | storeResult | look | connect _ | stopContainer _ | removeContainer _ | updateState
        | removeToken | removeGrants => cases hover
    refine ⟨hover.1, fun token => ?_⟩
    unfold TokenStore.validate
    rw [hover.2]
  · rcases hinv.tokens jobId _ hcreate token rfl with hissued | ⟨call, hcall, hjob, hending⟩
    · unfold TokenStore.validate
      rw [hissued]
      exact beq_self_eq_true token
    · rw [hnone call hcall hjob] at hending
      cases hending

section Examples

private def playJobs (acts : List JobsAct) : JobsWorld := acts.foldl JobsWorld.step .new

private def done (call : Nat) (drawn : String) : JobsAct := .advance call ⟨true, drawn, ""⟩

private def sandbox : Uuid := .ofNat 1

/-- A job is created up to the start of its container, which Docker calls `c`. -/
private def started : List JobsAct :=
  .createJob sandbox [⟨"github_token", "GITHUB_TOKEN"⟩] ::
    ["token", "", "", "", "", "c", ""].map (done 0)

private def reports (call : Nat) : List JobsAct :=
  .completeJob sandbox ⟨true, none⟩ :: (List.replicate 7 "").map (done call)

/-- The worker reports once its job has been created; then the handle is cleaned up. -/
private def reportedInTime : List JobsAct :=
  started ++ [done 0 ""] ++ reports 1 ++ [.cleanupJob sandbox]

theorem job_lifecycle_completed :
    ((playJobs (started ++ [done 0 ""])).jobs.containers sandbox).map (·.state) = some .running ∧
      (playJobs reportedInTime).jobs.Gone sandbox := by
  have hreached : Reached JobsWorld.step JobsWorld.Orderly .new (playJobs reportedInTime) :=
    .foldl reportedInTime .start (by decide +kernel)
  have hkept := (job_lifecycle hreached).2.1
    (.ending sandbox (.complete ⟨true, none⟩) (.returned (.ok ()))) (by decide +kernel) rfl
  exact ⟨by decide +kernel, hkept.1⟩

/-- The worker reports before the creation of its job is over. -/
private def reportedEarly : JobsWorld := playJobs (started ++ reports 1 ++ [done 0 ""])

/-- The container cannot be started. -/
private def notStarted : JobsWorld :=
  playJobs (.createJob sandbox [] :: ["token", "", "", "", "", "c"].map (done 0) ++
    List.replicate 4 (.advance 0 ⟨false, "", "no such image"⟩))

/-- The handle is cleaned up as soon as it shows the job stopped. -/
private def cleanedUpEarly : JobsWorld :=
  playJobs (started ++ [done 0 "", .completeJob sandbox ⟨true, none⟩, done 1 "", .cleanupJob sandbox] ++
    (List.replicate 3 "").map (done 1))

theorem container_left :
    (((playJobs (started ++ reports 1)).jobs.containers sandbox).map (·.state) = some .stopped ∧
      (reportedEarly.jobs.containers sandbox).map (·.state) = some .running ∧
      reportedEarly.calls.any (·.over) = true ∧ ¬ reportedEarly.jobs.Gone sandbox) ∧
    (notStarted.calls.any (·.over) = true ∧ ¬ notStarted.jobs.Gone sandbox) ∧
    (cleanedUpEarly.calls.any (·.over) = true ∧ ¬ cleanedUpEarly.jobs.Gone sandbox) := by
  decide +kernel

end Examples

end Gyre.Orchestrator
