/- digest: OAuth flows of WASM channels: starts, callbacks and polls in any order, and what they do to the secrets store. -/

import Mathlib.Logic.Function.Basic
import Gyre.Lib.Counting
import Gyre.Lib.Reach
import Gyre.Secrets.Store

/-!
The pending and the completed flows have a lock each, and the store is shared with all its other users.
Callbacks and polls go on between any two uses of a lock, of the store or of the token endpoint.
-/

set_option autoImplicit false
set_option relaxedAutoImplicit false

namespace Gyre.Channels.Wasm.OAuth

open Gyre.Lib
open Gyre.Secrets (Ciphers SecretsCrypto SecretError Secret)

def pendingOauthMaxAgeSecs : Nat := 600

/-- A pending authorization request; `createdAt` counts nanoseconds. -/
structure PendingOAuthRequest where
  channelId : String
  tokenUrl : String
  clientId : String
  clientSecretName : String
  redirectUri : String
  secretName : String
  createdAt : Nat
  deriving DecidableEq, Repr

def PendingOAuthRequest.isFresh (req : PendingOAuthRequest) (now : Nat) : Bool :=
  (now - req.createdAt) / 1000000000 < pendingOauthMaxAgeSecs

inductive OAuthCompletionResult where
  | success (secretName : String)
  | failed (error : String)
  deriving DecidableEq, Repr

/-- What a channel asks for; `extraParams` are those that parse, as their map is iterated. -/
structure OauthStartRequest where
  authorizationUrl : String
  tokenUrl : String
  clientId : String
  clientSecretName : String
  scopes : String
  secretName : String
  extraParams : List (String × String)
  deriving DecidableEq, Repr

/-- The form that is posted to the token endpoint. -/
structure Exchange where
  tokenUrl : String
  code : String
  clientId : String
  clientSecret : String
  redirectUri : String
  deriving DecidableEq, Repr

/-- What comes of a post to the token endpoint; of a body that parses, the two tokens that are texts. -/
inductive TokenReply where
  | unreachable (error : String)
  | refused (status body : String)
  | unparsable (error : String)
  | json (accessToken refreshToken : Option String)
  deriving DecidableEq, Repr

inductive CallbackPhase where
  | lookup
  | clientSecret (req : PendingOAuthRequest)
  | exchange (req : PendingOAuthRequest) (clientSecret : String)
  | storeToken (req : PendingOAuthRequest) (accessToken : String) (refreshToken : Option String)
  | complete (req : PendingOAuthRequest) (refreshToken : Option String)
  | storeRefresh (req : PendingOAuthRequest) (refreshToken : String)
  | returned (status : Nat) (detail : String)
  deriving DecidableEq, Repr

/-- A call of `oauth_callback_handler`, with the request it has taken, the time it took it at, and what it
has posted and been answered. -/
structure Callback where
  code : String
  nonce : String
  phase : CallbackPhase
  found : Option (PendingOAuthRequest × Nat)
  posted : Option (Exchange × TokenReply)
  deriving DecidableEq, Repr

inductive PollPhase where
  | askCompleted
  | askPending
  | returned (reply : Except String String)
  deriving DecidableEq

/-- A call of `oauth_poll`. -/
structure Poll where
  nonce : String
  phase : PollPhase
  deriving DecidableEq

/-- What callbacks and polls share; the log is that of the secrets store. -/
structure Shared where
  pending : String → Option PendingOAuthRequest
  completed : String → Option OAuthCompletionResult
  table : List Secret
  log : List (Secrets.Call × Secrets.Reply)

structure OAuthWorld where
  shared : Shared
  /-- The flows that were started, with their nonces. -/
  started : List (String × PendingOAuthRequest)
  callbacks : List Callback
  polls : List Poll

/-- What a step of a callback meets. -/
structure Turn where
  now : Nat
  reply : TokenReply
  store : Secrets.Encounter

inductive Section where
  | start (channelName : String) (redirectBase : Option String) (req : OauthStartRequest) (nonce : String)
      (now : Nat)
  | callback (code state error : Option String)
  | proceed (callback : Nat) (turn : Turn)
  | poll (nonce : String)
  | ask (poll : Nat)
  /-- Somebody else uses the secrets store. -/
  | useSecrets (call : Secrets.Call)

/-- The secrets store of the router, if one is configured, and its user. -/
structure Router where
  ciphers : Ciphers
  crypto : SecretsCrypto
  hasSecrets : Bool
  userId : String

/-- The text of an error of the secrets store. -/
def errorText : SecretError → String
  | .notFound name => "Secret not found: " ++ name
  | .expired => "Secret has expired"
  | .decryptionFailed reason => "Decryption failed: " ++ reason
  | .encryptionFailed reason => "Encryption failed: " ++ reason
  | .invalidMasterKey => "Invalid master key"
  | .invalidUtf8 => "Secret value is not valid UTF-8"
  | .database reason => "Database error: " ++ reason

/-- The URL that `oauth_start` answers with. -/
def authorizationUrl (encode : String → String) (req : OauthStartRequest) (redirectUri nonce : String) :
    String :=
  req.authorizationUrl ++ "?response_type=code&client_id=" ++ encode req.clientId ++ "&redirect_uri=" ++
    encode redirectUri ++ "&state=" ++ encode nonce ++
    (if req.scopes = "" then "" else "&scope=" ++ encode req.scopes) ++
    String.join (req.extraParams.map fun p => "&" ++ encode p.1 ++ "=" ++ encode p.2)

/-- The request that `oauth_start` registers. -/
def OauthStartRequest.pending (req : OauthStartRequest) (channelName redirectBase : String) (now : Nat) :
    PendingOAuthRequest where
  channelId := channelName
  tokenUrl := req.tokenUrl
  clientId := req.clientId
  clientSecretName := req.clientSecretName
  redirectUri := redirectBase ++ "/oauth/callback"
  secretName := req.secretName
  createdAt := now

namespace Shared

/-- The requests that have not expired. -/
def retain (s : Shared) (now : Nat) : String → Option PendingOAuthRequest :=
  fun nonce => (s.pending nonce).filter (·.isFresh now)

/-- A use of the secrets store. -/
def perform (s : Shared) (router : Router) (call : Secrets.Call) : Shared × Secrets.Reply :=
  let next := Secrets.perform router.ciphers router.crypto s.table call.operation call.env
  ({ s with table := next.1, log := s.log ++ [(call, next.2)] }, next.2)

end Shared

namespace Callback

def returns (c : Callback) (status : Nat) (detail : String) : Callback :=
  { c with phase := .returned status detail }

/-- `oauth_callback_handler` up to the lookup. -/
def begin (code state error : Option String) : Callback :=
  let code := code.getD ""
  let phase : CallbackPhase :=
    if code = "" then .returned 400 ("Error: " ++ error.getD "unknown") else .lookup
  ⟨code, state.getD "", phase, none, none⟩

def advance (router : Router) (s : Shared) (turn : Turn) (c : Callback) : Shared × Callback :=
  match c.phase with
  | .lookup =>
    match s.retain turn.now c.nonce with
    | none =>
      ({ s with pending := s.retain turn.now },
        c.returns 400 "Unknown or expired OAuth state. Please try again.")
    | some req =>
      let phase : CallbackPhase :=
        if router.hasSecrets then .clientSecret req else .returned 500 "Secrets store not available."
      ({ s with pending := Function.update (s.retain turn.now) c.nonce none },
        { c with phase := phase, found := some (req, turn.now) })
  | .clientSecret req =>
    let next := s.perform router ⟨.getDecrypted router.userId req.clientSecretName, turn.store⟩
    match next.2 with
    | .ok (.decrypted clientSecret) => (next.1, { c with phase := .exchange req clientSecret })
    -- `get_decrypted` has no other answer.
    | .ok _ => (next.1, c)
    | .error e =>
      (next.1, c.returns 500
        ("Failed to retrieve client secret '" ++ req.clientSecretName ++ "': " ++ errorText e))
  | .exchange req clientSecret =>
    let posted : Callback := { c with
      posted := some (⟨req.tokenUrl, c.code, req.clientId, clientSecret, req.redirectUri⟩, turn.reply) }
    match turn.reply with
    | .unreachable e => (s, posted.returns 502 ("Token exchange request failed: " ++ e))
    | .refused status body =>
      (s, posted.returns 502 ("Token exchange failed (HTTP " ++ status ++ "): " ++ body))
    | .unparsable e => (s, posted.returns 502 ("Failed to parse token response: " ++ e))
    | .json none _ => (s, posted.returns 502 "Token response missing access_token")
    | .json (some accessToken) refreshToken =>
      (s, { posted with phase := .storeToken req accessToken refreshToken })
  | .storeToken req accessToken refreshToken =>
    let next := s.perform router
      ⟨.create router.userId ⟨req.secretName, accessToken, some req.channelId, none⟩, turn.store⟩
    match next.2 with
    | .error e => (next.1, c.returns 500 ("Failed to store access token: " ++ errorText e))
    | .ok _ => (next.1, { c with phase := .complete req refreshToken })
  | .complete req refreshToken =>
    ({ s with completed := Function.update s.completed c.nonce (some (.success req.secretName)) },
      match refreshToken with
      | none => c.returns 200 "Connected!"
      | some refreshToken => { c with phase := .storeRefresh req refreshToken })
  | .storeRefresh req refreshToken =>
    let next := s.perform router
      ⟨.create router.userId ⟨req.secretName ++ "_refresh", refreshToken, some req.channelId, none⟩, turn.store⟩
    (next.1, c.returns 200 "Connected!")
  | .returned _ _ => (s, c)

end Callback

def Poll.advance (s : Shared) (p : Poll) : Poll :=
  match p.phase with
  | .askCompleted =>
    match s.completed p.nonce with
    | some (.success secretName) => { p with phase := .returned (.ok ("complete:" ++ secretName)) }
    | some (.failed error) => { p with phase := .returned (.ok ("failed:" ++ error)) }
    | none => { p with phase := .askPending }
  | .askPending =>
    if (s.pending p.nonce).isSome then { p with phase := .returned (.ok "pending") }
    else { p with phase := .returned (.error ("Unknown or expired OAuth nonce: " ++ p.nonce)) }
  | .returned _ => p

namespace OAuthWorld

def new : OAuthWorld := ⟨⟨fun _ => none, fun _ => none, [], []⟩, [], [], []⟩

def step (router : Router) (w : OAuthWorld) : Section → OAuthWorld
  | .start channelName redirectBase req nonce now =>
    match redirectBase with
    | none => w
    | some redirectBase =>
      let pending := req.pending channelName redirectBase now
      { w with
        shared := { w.shared with
          pending := Function.update (w.shared.retain now) nonce (some pending) }
        started := w.started ++ [(nonce, pending)] }
  | .callback code state error => { w with callbacks := w.callbacks ++ [Callback.begin code state error] }
  | .proceed callback turn =>
    match w.callbacks[callback]? with
    | none => w
    | some c =>
      let next := c.advance router w.shared turn
      { w with shared := next.1, callbacks := w.callbacks.set callback next.2 }
  | .poll nonce => { w with polls := w.polls ++ [⟨nonce, .askCompleted⟩] }
  | .ask poll =>
    match w.polls[poll]? with
    | none => w
    | some p => { w with polls := w.polls.set poll (p.advance w.shared) }
  | .useSecrets call => { w with shared := (w.shared.perform router call).1 }

end OAuthWorld

section Callbacks

variable (router : Router) (s : Shared) (started : List (String × PendingOAuthRequest))

/-- An exchange is made of a request, of the code of the callback and of the client secret that the store
has given. -/
structure Exchange.IsOf (e : Exchange) (code : String) (req : PendingOAuthRequest) : Prop where
  tokenUrl : e.tokenUrl = req.tokenUrl
  code : e.code = code
  clientId : e.clientId = req.clientId
  redirectUri : e.redirectUri = req.redirectUri
  clientSecret : ∃ env, (⟨.getDecrypted router.userId req.clientSecretName, env⟩,
    .ok (.decrypted e.clientSecret)) ∈ s.log

/-- The access token that a callback was answered with has been stored as its request says. -/
def Callback.Stored (c : Callback) (req : PendingOAuthRequest) : Prop :=
  ∃ e token refreshToken env answer, c.posted = some (e, .json (some token) refreshToken) ∧
    (⟨.create router.userId ⟨req.secretName, token, some req.channelId, none⟩, env⟩, .ok answer) ∈ s.log

/-- What holds of a callback in each of its phases. -/
def Callback.Holds (c : Callback) : CallbackPhase → Prop
  | .lookup => c.found = none ∧ c.posted = none
  | .clientSecret req => (∃ now, c.found = some (req, now)) ∧ c.posted = none
  | .exchange req clientSecret =>
    (∃ now, c.found = some (req, now)) ∧ c.posted = none ∧
      ∃ env, (⟨.getDecrypted router.userId req.clientSecretName, env⟩, .ok (.decrypted clientSecret)) ∈ s.log
  | .storeToken req accessToken refreshToken =>
    (∃ now, c.found = some (req, now)) ∧ ∃ e, c.posted = some (e, .json (some accessToken) refreshToken)
  | .complete req _ => (∃ now, c.found = some (req, now)) ∧ c.Stored router s req
  | .storeRefresh _ _ | .returned _ _ => True

structure Callback.Sound (c : Callback) : Prop where
  /-- It has taken a request that was registered under its nonce less than ten minutes before. -/
  found : ∀ req now, c.found = some (req, now) →
    (c.nonce, req) ∈ started ∧ req.isFresh now = true ∧ s.pending c.nonce = none
  posted : ∀ e reply, c.posted = some (e, reply) →
    ∃ req now, c.found = some (req, now) ∧ e.IsOf router s c.code req
  phase : c.Holds router s c.phase

/-- The store is used once, or not at all. -/
def Shared.Uses (s' : Shared) : Prop :=
  (s'.table = s.table ∧ s'.log = s.log) ∨
    ∃ call, s'.table = (s.perform router call).1.table ∧ s'.log = (s.perform router call).1.log

/-- What a step of a callback may do to the others, and what it keeps. -/
structure Moved (turn : Turn) (c : Callback) (next : Shared × Callback) : Prop where
  nonce : next.2.nonce = c.nonce
  code : next.2.code = c.code
  pending : ∀ nonce req, next.1.pending nonce = some req → s.pending nonce = some req
  store : s.Uses router next.1
  found : next.2.found = c.found ∨
    ∃ req, s.pending c.nonce = some req ∧ req.isFresh turn.now = true ∧ next.1.pending c.nonce = none ∧
      next.2.found = some (req, turn.now)
  posted : ∀ p, c.posted = some p → next.2.posted = some p
  completed : next.1.completed = s.completed ∨
    ∃ req refreshToken, c.phase = .complete req refreshToken ∧
      next.1.completed = Function.update s.completed c.nonce (some (.success req.secretName))

variable {router} {s} {started} {turn : Turn} {c : Callback}

theorem Shared.retain_eq_some {now : Nat} {nonce : String} {req : PendingOAuthRequest}
    (h : s.retain now nonce = some req) : s.pending nonce = some req ∧ req.isFresh now = true :=
  Option.filter_eq_some_iff.mp h

theorem Shared.log_perform (call : Secrets.Call) :
    (s.perform router call).1.log = s.log ++ [(call, (s.perform router call).2)] := rfl

theorem Shared.Uses.log {s' : Shared} (h : Shared.Uses router s s') : s.log ⊆ s'.log := by
  rcases h with ⟨-, hlog⟩ | ⟨call, -, hlog⟩
  · rw [hlog]
    exact fun _ hmem => hmem
  · rw [hlog]
    exact List.subset_append_left _ _

/-- A step on which a callback keeps what it has found and posted. -/
private theorem moved_keeping {next : Shared × Callback} (hnonce : next.2.nonce = c.nonce)
    (hcode : next.2.code = c.code) (hpending : next.1.pending = s.pending)
    (hstore : s.Uses router next.1) (hfound : next.2.found = c.found) (hposted : next.2.posted = c.posted)
    (hcompleted : next.1.completed = s.completed) : Moved router s turn c next where
  nonce := hnonce
  code := hcode
  pending nonce req h := by
    rw [hpending] at h
    exact h
  store := hstore
  found := .inl hfound
  posted p h := hposted.trans h
  completed := .inl hcompleted

theorem moved_advance (h : c.Sound router s started) : Moved router s turn c (c.advance router s turn) := by
  have hphase := h.phase
  have hidle {pending completed} : s.Uses router ⟨pending, completed, s.table, s.log⟩ := .inl ⟨rfl, rfl⟩
  have hused (call : Secrets.Call) : s.Uses router (s.perform router call).1 := .inr ⟨call, rfl, rfl⟩
  unfold Callback.advance
  cases hat : c.phase with
  | lookup =>
    rw [hat] at hphase
    simp only
    cases hreq : s.retain turn.now c.nonce with
    | none =>
      exact ⟨rfl, rfl, fun nonce req hkept => (Shared.retain_eq_some hkept).1, hidle, .inl rfl,
        fun p hp => hp, .inl rfl⟩
    | some req =>
      obtain ⟨hpending, hfresh⟩ := Shared.retain_eq_some hreq
      refine ⟨rfl, rfl, fun nonce req' hkept => ?_, hidle, .inr ⟨req, hpending, hfresh, ?_, rfl⟩,
        fun p hp => hp, .inl rfl⟩
      · change Function.update (s.retain turn.now) c.nonce none nonce = some req' at hkept
        by_cases hnonce : nonce = c.nonce
        · subst hnonce
          rw [Function.update_self] at hkept
          cases hkept
        · rw [Function.update_of_ne hnonce] at hkept
          exact (Shared.retain_eq_some hkept).1
      · exact Function.update_self ..
  | clientSecret req =>
    simp only
    split
    · exact moved_keeping rfl rfl rfl (hused _) rfl rfl rfl
    · exact moved_keeping rfl rfl rfl (hused _) rfl rfl rfl
    · exact moved_keeping rfl rfl rfl (hused _) rfl rfl rfl
  | exchange req clientSecret =>
    rw [hat] at hphase
    have hunposted : c.posted = none := hphase.2.1
    have hposted (posted : Option (Exchange × TokenReply)) (p : Exchange × TokenReply)
        (hp : c.posted = some p) : posted = some p := by
      rw [hunposted] at hp
      cases hp
    simp only
    split <;> exact ⟨rfl, rfl, fun _ _ hkept => hkept, hidle, .inl rfl, hposted _, .inl rfl⟩
  | storeToken req accessToken refreshToken =>
    simp only
    split
    · exact moved_keeping rfl rfl rfl (hused _) rfl rfl rfl
    · exact moved_keeping rfl rfl rfl (hused _) rfl rfl rfl
  | complete req refreshToken =>
    cases refreshToken with
    | none =>
      exact ⟨rfl, rfl, fun _ _ hkept => hkept, hidle, .inl rfl, fun p hp => hp, .inr ⟨req, none, hat, rfl⟩⟩
    | some refreshToken =>
      exact ⟨rfl, rfl, fun _ _ hkept => hkept, hidle, .inl rfl, fun p hp => hp, .inr ⟨req, _, hat, rfl⟩⟩
  | storeRefresh req refreshToken => exact moved_keeping rfl rfl rfl (hused _) rfl rfl rfl
  | returned status detail => exact moved_keeping rfl rfl rfl hidle rfl rfl rfl

theorem Exchange.IsOf.mono {s' : Shared} {e : Exchange} {code : String} {req : PendingOAuthRequest}
    (hlog : s.log ⊆ s'.log) (h : e.IsOf router s code req) : e.IsOf router s' code req :=
  ⟨h.tokenUrl, h.code, h.clientId, h.redirectUri, h.clientSecret.imp fun _ hmem => hlog hmem⟩

theorem Callback.Stored.mono {s' : Shared} {c' : Callback} {req : PendingOAuthRequest}
    (hlog : s.log ⊆ s'.log) (hposted : ∀ p, c.posted = some p → c'.posted = some p)
    (h : c.Stored router s req) : c'.Stored router s' req := by
  obtain ⟨e, token, refreshToken, env, answer, he, hmem⟩ := h
  exact ⟨e, token, refreshToken, env, answer, hposted _ he, hlog hmem⟩

/-- A callback stays sound while others go on. -/
theorem Callback.Sound.mono {s' : Shared} {started' : List (String × PendingOAuthRequest)}
    (h : c.Sound router s started) (hlog : s.log ⊆ s'.log) (hstarted : started ⊆ started')
    (hpending : ∀ req now, c.found = some (req, now) → s'.pending c.nonce = none) :
    c.Sound router s' started' where
  found req now hfound :=
    ⟨hstarted (h.found req now hfound).1, (h.found req now hfound).2.1, hpending req now hfound⟩
  posted e reply hposted := by
    obtain ⟨req, now, hfound, he⟩ := h.posted e reply hposted
    exact ⟨req, now, hfound, he.mono hlog⟩
  phase := by
    have hphase := h.phase
    cases hat : c.phase with
    | exchange req clientSecret =>
      rw [hat] at hphase
      obtain ⟨hfound, hposted, env, hmem⟩ := hphase
      exact ⟨hfound, hposted, env, hlog hmem⟩
    | complete req refreshToken =>
      rw [hat] at hphase
      exact ⟨hphase.1, hphase.2.mono hlog fun p hp => hp⟩
    | lookup | clientSecret req | storeToken req accessToken refreshToken =>
      rw [hat] at hphase
      exact hphase
    | storeRefresh req refreshToken | returned status detail => trivial

/-- What a step leaves of a callback's past, and of the phase that it comes to. -/
private theorem phase_advance (h : c.Sound router s started) :
    (c.advance router s turn).2.Holds router (c.advance router s turn).1
        (c.advance router s turn).2.phase ∧
      ∀ e reply, (c.advance router s turn).2.posted = some (e, reply) → c.posted = some (e, reply) ∨
        ∃ req now, c.found = some (req, now) ∧ e.IsOf router s c.code req := by
  have hphase := h.phase
  unfold Callback.advance
  cases hat : c.phase with
  | lookup =>
    rw [hat] at hphase
    simp only
    cases hreq : s.retain turn.now c.nonce with
    | none => exact ⟨trivial, fun e reply hposted => .inl hposted⟩
    | some req =>
      refine ⟨?_, fun e reply hposted => .inl hposted⟩
      dsimp only
      split
      · exact ⟨⟨turn.now, rfl⟩, hphase.2⟩
      · trivial
  | clientSecret req =>
    rw [hat] at hphase
    simp only
    split
    · next clientSecret hreply =>
      refine ⟨⟨hphase.1, hphase.2, turn.store, ?_⟩, fun e reply hposted => .inl hposted⟩
      rw [Shared.log_perform, hreply]
      exact List.mem_append_right _ (List.mem_singleton.mpr rfl)
    · refine ⟨?_, fun e reply hposted => .inl hposted⟩
      rw [hat]
      exact hphase
    · exact ⟨trivial, fun e reply hposted => .inl hposted⟩
  | exchange req clientSecret =>
    rw [hat] at hphase
    obtain ⟨⟨now, hfound⟩, -, hsecret⟩ := hphase
    have hmade (reply : TokenReply) (e : Exchange) (reply' : TokenReply)
        (hposted : some ((⟨req.tokenUrl, c.code, req.clientId, clientSecret, req.redirectUri⟩ : Exchange),
          reply) = some (e, reply')) :
        c.posted = some (e, reply') ∨ ∃ req now, c.found = some (req, now) ∧ e.IsOf router s c.code req := by
      cases hposted
      exact .inr ⟨req, now, hfound, rfl, rfl, rfl, rfl, hsecret⟩
    simp only
    split
    · exact ⟨trivial, hmade _⟩
    · exact ⟨trivial, hmade _⟩
    · exact ⟨trivial, hmade _⟩
    · exact ⟨trivial, hmade _⟩
    · next accessToken refreshToken hreply =>
      refine ⟨⟨⟨now, hfound⟩, ⟨req.tokenUrl, c.code, req.clientId, clientSecret, req.redirectUri⟩, ?_⟩,
        hmade _⟩
      exact congrArg (fun reply => some (_, reply)) hreply
  | storeToken req accessToken refreshToken =>
    rw [hat] at hphase
    simp only
    split
    · exact ⟨trivial, fun e reply hposted => .inl hposted⟩
    · next answer hreply =>
      obtain ⟨hfound, e, hposted⟩ := hphase
      refine ⟨⟨hfound, e, accessToken, refreshToken, turn.store, answer, hposted, ?_⟩,
        fun e reply hposted => .inl hposted⟩
      rw [Shared.log_perform, hreply]
      exact List.mem_append_right _ (List.mem_singleton.mpr rfl)
  | complete req refreshToken =>
    cases refreshToken with
    | none => exact ⟨trivial, fun e reply hposted => .inl hposted⟩
    | some refreshToken => exact ⟨trivial, fun e reply hposted => .inl hposted⟩
  | storeRefresh req refreshToken => exact ⟨trivial, fun e reply hposted => .inl hposted⟩
  | returned status detail =>
    refine ⟨?_, fun e reply hposted => .inl hposted⟩
    rw [hat]
    trivial

theorem sound_advance (h : c.Sound router s started)
    (hpending : ∀ nonce req, s.pending nonce = some req → (nonce, req) ∈ started) :
    (c.advance router s turn).2.Sound router (c.advance router s turn).1 started := by
  have hmoved : Moved router s turn c (c.advance router s turn) := moved_advance h
  obtain ⟨hphase, hposted⟩ := @phase_advance router s started turn c h
  have hfound : ∀ req now, c.found = some (req, now) →
      (c.advance router s turn).2.found = some (req, now) := by
    intro req now hsome
    rcases hmoved.found with hsame | ⟨req', hsome', -⟩
    · exact hsame.trans hsome
    · rw [(h.found req now hsome).2.2] at hsome'
      cases hsome'
  refine ⟨fun req now hsome => ?_, fun e reply he => ?_, hphase⟩
  · rw [hmoved.nonce]
    rcases hmoved.found with hsame | ⟨req', hsome', hfresh, hgone, hnew⟩
    · obtain ⟨hmem, hfresh, hnone⟩ := h.found req now (hsame.symm.trans hsome)
      refine ⟨hmem, hfresh, ?_⟩
      cases hstill : (c.advance router s turn).1.pending c.nonce with
      | none => rfl
      | some req' =>
        rw [hmoved.pending _ _ hstill] at hnone
        cases hnone
    · rw [hnew] at hsome
      cases hsome
      exact ⟨hpending _ _ hsome', hfresh, hgone⟩
  · rw [hmoved.code]
    rcases hposted e reply he with hbefore | ⟨req, now, hsome, hmade⟩
    · obtain ⟨req, now, hsome, hmade⟩ := h.posted e reply hbefore
      exact ⟨req, now, hfound req now hsome, hmade.mono hmoved.store.log⟩
    · exact ⟨req, now, hfound req now hsome, hmade.mono hmoved.store.log⟩

end Callbacks

section Runs

/-- A flow has been completed: the access token of its callback has been stored under the name. -/
def Completed (router : Router) (w : OAuthWorld) (nonce secretName : String) : Prop :=
  ∃ c ∈ w.callbacks, c.nonce = nonce ∧ ∃ req now, c.found = some (req, now) ∧
    secretName = req.secretName ∧ c.Stored router w.shared req

/-- What a poll may be answered. -/
def Poll.Sound (router : Router) (w : OAuthWorld) (p : Poll) : Prop :=
  ∀ reply, p.phase = .returned reply →
    (reply = .ok "pending" ∧ ∃ req, (p.nonce, req) ∈ w.started) ∨
    (∃ secretName, reply = .ok ("complete:" ++ secretName) ∧ Completed router w p.nonce secretName) ∨
    reply = .error ("Unknown or expired OAuth nonce: " ++ p.nonce)

/-- The table and the log are those of a run of the store. -/
def Shared.Recorded (router : Router) (s : Shared) : Prop :=
  run (Secrets.step router.ciphers router.crypto) [] (s.log.map (·.1)) = (s.table, s.log)

/-- No two callbacks have taken a request under one nonce. -/
def Once (callbacks : List Callback) : Prop :=
  ∀ (i j : Nat) (ci cj : Callback), callbacks[i]? = some ci → callbacks[j]? = some cj →
    ci.found.isSome = true → cj.found.isSome = true → ci.nonce = cj.nonce → i = j

structure Coherent (router : Router) (w : OAuthWorld) : Prop where
  pending : ∀ nonce req, w.shared.pending nonce = some req → (nonce, req) ∈ w.started
  sound : ∀ c ∈ w.callbacks, c.Sound router w.shared w.started
  once : Once w.callbacks
  completed : ∀ nonce result, w.shared.completed nonce = some result →
    ∃ secretName, result = .success secretName ∧ Completed router w nonce secretName
  polls : ∀ p ∈ w.polls, p.Sound router w
  recorded : w.shared.Recorded router

/-- What steps leave of what was there. -/
structure Grows (w w' : OAuthWorld) : Prop where
  log : w.shared.log ⊆ w'.shared.log
  started : w.started ⊆ w'.started
  callbacks : ∀ c ∈ w.callbacks, ∃ c' ∈ w'.callbacks, c'.nonce = c.nonce ∧
    (∀ f, c.found = some f → c'.found = some f) ∧ ∀ p, c.posted = some p → c'.posted = some p

/-- The nonce that a flow is started with has not been drawn before. -/
def Section.Fresh (w : OAuthWorld) : Section → Prop
  | .start _ _ _ nonce _ => nonce ∉ w.started.map (·.1)
  | _ => True

instance (w : OAuthWorld) : DecidablePred (Section.Fresh w)
  | .start _ _ _ nonce _ => inferInstanceAs (Decidable (nonce ∉ w.started.map (·.1)))
  | .callback _ _ _ | .proceed _ _ | .poll _ | .ask _ | .useSecrets _ => inferInstanceAs (Decidable True)

variable {router : Router} {w w' : OAuthWorld}

theorem Shared.Recorded.uses {s s' : Shared} (h : s.Recorded router) (huses : s.Uses router s') :
    s'.Recorded router := by
  rcases huses with ⟨htable, hlog⟩ | ⟨call, htable, hlog⟩
  · unfold Shared.Recorded
    rw [htable, hlog]
    exact h
  · unfold Shared.Recorded at h ⊢
    rw [htable, hlog, Shared.log_perform, List.map_append, List.map_singleton, run_concat, h]
    rfl

theorem Completed.grows {nonce secretName : String} (hgrows : Grows w w')
    (h : Completed router w nonce secretName) : Completed router w' nonce secretName := by
  obtain ⟨c, hc, rfl, req, now, hfound, hname, hstored⟩ := h
  obtain ⟨c', hc', hnonce, hfound', hposted'⟩ := hgrows.callbacks c hc
  exact ⟨c', hc', hnonce, req, now, hfound' _ hfound, hname, hstored.mono hgrows.log hposted'⟩

theorem Poll.Sound.grows {p : Poll} (hgrows : Grows w w') (h : p.Sound router w) : p.Sound router w' := by
  intro reply hreply
  rcases h reply hreply with ⟨hok, req, hmem⟩ | ⟨secretName, hok, hcompleted⟩ | herror
  · exact .inl ⟨hok, req, hgrows.started hmem⟩
  · exact .inr (.inl ⟨secretName, hok, hcompleted.grows hgrows⟩)
  · exact .inr (.inr herror)

private theorem Grows.of_callbacks (hlog : w.shared.log ⊆ w'.shared.log) (hstarted : w.started ⊆ w'.started)
    (hcallbacks : w.callbacks ⊆ w'.callbacks) : Grows w w' where
  log := hlog
  started := hstarted
  callbacks c hc := ⟨c, hcallbacks hc, rfl, fun _ h => h, fun _ h => h⟩

/-- What a step keeps that leaves the callbacks and the polls as they are. -/
private theorem Coherent.of_shared (h : Coherent router w) (hgrows : Grows w w')
    (hcallbacks : w'.callbacks = w.callbacks) (hpolls : w'.polls = w.polls)
    (hcompleted : w'.shared.completed = w.shared.completed)
    (hpending : ∀ nonce req, w'.shared.pending nonce = some req → (nonce, req) ∈ w'.started)
    (hgone : ∀ c ∈ w.callbacks, ∀ f, c.found = some f → w'.shared.pending c.nonce = none)
    (hstore : w.shared.Uses router w'.shared) : Coherent router w' where
  recorded := h.recorded.uses hstore
  pending := hpending
  sound c hc := by
    rw [hcallbacks] at hc
    exact (h.sound c hc).mono hgrows.log hgrows.started fun req now hfound => hgone c hc _ hfound
  once := by
    rw [hcallbacks]
    exact h.once
  completed nonce result hresult := by
    rw [hcompleted] at hresult
    obtain ⟨secretName, hsuccess, hdone⟩ := h.completed nonce result hresult
    exact ⟨secretName, hsuccess, hdone.grows hgrows⟩
  polls p hp := by
    rw [hpolls] at hp
    exact (h.polls p hp).grows hgrows

theorem coherent_start (h : Coherent router w) (channelName : String) (redirectBase : Option String)
    (req : OauthStartRequest) {nonce : String} (now : Nat) (hfresh : nonce ∉ w.started.map (·.1)) :
    Coherent router (w.step router (.start channelName redirectBase req nonce now)) := by
  cases redirectBase with
  | none => exact h
  | some redirectBase =>
    refine h.of_shared (Grows.of_callbacks (fun _ hmem => hmem) (List.subset_append_left _ _)
      fun _ hmem => hmem) rfl rfl rfl ?_ ?_ ?_
    · intro nonce' req' hpending
      change Function.update (w.shared.retain now) nonce _ nonce' = some req' at hpending
      by_cases hnonce : nonce' = nonce
      · subst hnonce
        rw [Function.update_self] at hpending
        cases hpending
        exact List.mem_append_right _ (List.mem_singleton.mpr rfl)
      · rw [Function.update_of_ne hnonce] at hpending
        exact List.mem_append_left _ (h.pending _ _ (Shared.retain_eq_some hpending).1)
    · intro c hc f hfound
      obtain ⟨hmem, -, hnone⟩ := (h.sound c hc).found f.1 f.2 hfound
      have hne : c.nonce ≠ nonce := fun heq => hfresh (heq ▸ List.mem_map_of_mem hmem)
      change Function.update (w.shared.retain now) nonce _ c.nonce = none
      rw [Function.update_of_ne hne, Shared.retain, hnone]
      rfl
    · exact .inl ⟨rfl, rfl⟩

theorem coherent_useSecrets (h : Coherent router w) (call : Secrets.Call) :
    Coherent router (w.step router (.useSecrets call)) :=
  h.of_shared (Grows.of_callbacks (List.subset_append_left _ _) (fun _ hmem => hmem) fun _ hmem => hmem)
    rfl rfl rfl h.pending (fun c hc f hfound => ((h.sound c hc).found f.1 f.2 hfound).2.2)
    (.inr ⟨call, rfl, rfl⟩)

theorem coherent_callback (h : Coherent router w) (code state error : Option String) :
    Coherent router (w.step router (.callback code state error)) := by
  have hgrows : Grows w (w.step router (.callback code state error)) :=
    Grows.of_callbacks (fun _ hmem => hmem) (fun _ hmem => hmem) (List.subset_append_left _ _)
  refine ⟨h.pending, ?_, ?_, ?_, ?_, h.recorded⟩
  · intro c hc
    rcases List.mem_append.mp hc with hc | hc
    · exact h.sound c hc
    · rw [List.mem_singleton.mp hc]
      refine ⟨fun req now hfound => (by cases hfound), fun e reply hposted => (by cases hposted), ?_⟩
      unfold Callback.begin
      dsimp only
      split
      · trivial
      · exact ⟨rfl, rfl⟩
  · intro i j ci cj hi hj hfi hfj hnonce
    change (w.callbacks ++ [Callback.begin code state error])[i]? = some ci at hi
    change (w.callbacks ++ [Callback.begin code state error])[j]? = some cj at hj
    have hold : ∀ (k : Nat) (c : Callback), (w.callbacks ++ [Callback.begin code state error])[k]? = some c →
        c.found.isSome = true → w.callbacks[k]? = some c := by
      intro k c hk hfound
      rw [List.getElem?_append] at hk
      split at hk
      · exact hk
      · rw [List.getElem?_singleton] at hk
        split at hk
        · cases hk
          cases hfound
        · cases hk
    exact h.once i j ci cj (hold i ci hi hfi) (hold j cj hj hfj) hfi hfj hnonce
  · intro nonce result hresult
    obtain ⟨secretName, hsuccess, hdone⟩ := h.completed nonce result hresult
    exact ⟨secretName, hsuccess, hdone.grows hgrows⟩
  · exact fun p hp => (h.polls p hp).grows hgrows

theorem coherent_proceed (h : Coherent router w) (callback : Nat) (turn : Turn) :
    Coherent router (w.step router (.proceed callback turn)) := by
  cases hc : w.callbacks[callback]? with
  | none =>
    simp only [OAuthWorld.step, hc]
    exact h
  | some c =>
    have hmem := List.mem_of_getElem? hc
    have hsound := h.sound c hmem
    have hmoved : Moved router w.shared turn c (c.advance router w.shared turn) := moved_advance hsound
    have hnext := @sound_advance router w.shared w.started turn c hsound h.pending
    simp only [OAuthWorld.step, hc]
    generalize c.advance router w.shared turn = next at hmoved hnext
    have hgrows : Grows w { w with shared := next.1, callbacks := w.callbacks.set callback next.2 } := by
      refine ⟨hmoved.store.log, fun _ hmem => hmem, fun other hother => ?_⟩
      rcases eq_or_mem_set hc next.2 hother with rfl | hother
      · refine ⟨next.2, List.mem_set (List.getElem?_eq_some_iff.mp hc).1 _, hmoved.nonce,
          fun f hfound => ?_, hmoved.posted⟩
        rcases hmoved.found with hsame | ⟨req, hpending, -⟩
        · exact hsame.trans hfound
        · rw [(hsound.found f.1 f.2 hfound).2.2] at hpending
          cases hpending
      · exact ⟨other, hother, rfl, fun _ h => h, fun _ h => h⟩
    have hapart : ∀ (k : Nat) (ck : Callback), k ≠ callback → w.callbacks[k]? = some ck →
        ck.found.isSome = true → next.2.found.isSome = true → ck.nonce ≠ next.2.nonce := by
      intro k ck hne hk hfk hfound hnonce
      rw [hmoved.nonce] at hnonce
      rcases hmoved.found with hsame | ⟨req, hpending, -⟩
      · exact hne (h.once k callback ck c hk hc hfk (hsame ▸ hfound) hnonce)
      · obtain ⟨f, hf⟩ := Option.isSome_iff_exists.mp hfk
        rw [← hnonce, ((h.sound ck (List.mem_of_getElem? hk)).found f.1 f.2 hf).2.2] at hpending
        cases hpending
    refine ⟨?_, ?_, ?_, ?_, ?_, h.recorded.uses hmoved.store⟩
    · exact fun nonce req hpending => h.pending nonce req (hmoved.pending nonce req hpending)
    · intro other hother
      rcases List.mem_or_eq_of_mem_set hother with hother | rfl
      · refine (h.sound other hother).mono hmoved.store.log (fun _ hmem => hmem) fun req now hfound => ?_
        have hnone := ((h.sound other hother).found req now hfound).2.2
        cases hstill : next.1.pending other.nonce with
        | none => rfl
        | some req' =>
          rw [hmoved.pending _ _ hstill] at hnone
          cases hnone
      · exact hnext
    · intro i j ci cj hi hj hfi hfj hnonce
      rcases getElem?_set_cases hi with ⟨hieq, rfl⟩ | ⟨hine, hiat⟩
      · rcases getElem?_set_cases hj with ⟨hjeq, rfl⟩ | ⟨hjne, hjat⟩
        · rw [hieq, hjeq]
        · exact absurd hnonce.symm (hapart j cj hjne hjat hfj hfi)
      · rcases getElem?_set_cases hj with ⟨hjeq, rfl⟩ | ⟨hjne, hjat⟩
        · exact absurd hnonce (hapart i ci hine hiat hfi hfj)
        · exact h.once i j ci cj hiat hjat hfi hfj hnonce
    · intro nonce result hresult
      rcases hmoved.completed with hsame | ⟨req, refreshToken, hat, hdone⟩
      · change next.1.completed nonce = some result at hresult
        rw [hsame] at hresult
        obtain ⟨secretName, hsuccess, hcompleted⟩ := h.completed nonce result hresult
        exact ⟨secretName, hsuccess, hcompleted.grows hgrows⟩
      · change next.1.completed nonce = some result at hresult
        rw [hdone] at hresult
        by_cases hnonce : nonce = c.nonce
        · subst hnonce
          rw [Function.update_self] at hresult
          have hphase := hsound.phase
          rw [hat] at hphase
          obtain ⟨⟨now, hfound⟩, hstored⟩ := hphase
          have hcompleted : Completed router w c.nonce req.secretName :=
            ⟨c, hmem, rfl, req, now, hfound, rfl, hstored⟩
          exact ⟨req.secretName, (Option.some.inj hresult).symm, hcompleted.grows hgrows⟩
        · rw [Function.update_of_ne hnonce] at hresult
          obtain ⟨secretName, hsuccess, hcompleted⟩ := h.completed nonce result hresult
          exact ⟨secretName, hsuccess, hcompleted.grows hgrows⟩
    · exact fun p hp => (h.polls p hp).grows hgrows

/-- What a poll is answered comes from the two maps as they are when it asks. -/
theorem coherent_poll (h : Coherent router w) (nonce : String) :
    Coherent router (w.step router (.poll nonce)) := by
  have hgrows : Grows w (w.step router (.poll nonce)) :=
    Grows.of_callbacks (fun _ hmem => hmem) (fun _ hmem => hmem) fun _ hmem => hmem
  refine ⟨h.pending, h.sound, h.once, fun nonce' result hresult => ?_, fun p hp => ?_, h.recorded⟩
  · obtain ⟨secretName, hsuccess, hdone⟩ := h.completed nonce' result hresult
    exact ⟨secretName, hsuccess, hdone.grows hgrows⟩
  · rcases List.mem_append.mp hp with hp | hp
    · exact (h.polls p hp).grows hgrows
    · rw [List.mem_singleton.mp hp]
      intro reply hreply
      cases hreply

theorem sound_ask (h : Coherent router w) {p : Poll} (hp : p ∈ w.polls) :
    (p.advance w.shared).Sound router w := by
  have hsound := h.polls p hp
  unfold Poll.advance
  cases hat : p.phase with
  | askCompleted =>
    simp only
    cases hresult : w.shared.completed p.nonce with
    | none =>
      intro reply hreply
      cases hreply
    | some result =>
      obtain ⟨secretName, rfl, hdone⟩ := h.completed _ _ hresult
      intro reply hreply
      cases hreply
      exact .inr (.inl ⟨secretName, rfl, hdone⟩)
  | askPending =>
    simp only
    cases hpending : w.shared.pending p.nonce with
    | none =>
      intro reply hreply
      cases hreply
      exact .inr (.inr rfl)
    | some req =>
      intro reply hreply
      cases hreply
      exact .inl ⟨rfl, req, h.pending _ _ hpending⟩
  | returned reply =>
    exact hsound

theorem coherent_ask (h : Coherent router w) (poll : Nat) : Coherent router (w.step router (.ask poll)) := by
  cases hp : w.polls[poll]? with
  | none =>
    simp only [OAuthWorld.step, hp]
    exact h
  | some p =>
    have hgrows : Grows w { w with polls := w.polls.set poll (p.advance w.shared) } :=
      Grows.of_callbacks (fun _ hmem => hmem) (fun _ hmem => hmem) fun _ hmem => hmem
    simp only [OAuthWorld.step, hp]
    refine ⟨h.pending, h.sound, h.once, fun nonce result hresult => ?_, fun other hother => ?_, h.recorded⟩
    · obtain ⟨secretName, hsuccess, hdone⟩ := h.completed nonce result hresult
      exact ⟨secretName, hsuccess, hdone.grows hgrows⟩
    · rcases List.mem_or_eq_of_mem_set hother with hother | rfl
      · exact (h.polls other hother).grows hgrows
      · exact (sound_ask h (List.mem_of_getElem? hp)).grows hgrows

theorem coherent_of_reached
    (hw : Reached (OAuthWorld.step router) Section.Fresh .new w) : Coherent router w := by
  refine hw.invariant (Coherent router) ⟨?_, ?_, ?_, ?_, ?_, ?_⟩ ?_
  · intro nonce req hpending
    cases hpending
  · exact fun c hc => absurd hc List.not_mem_nil
  · intro i j ci cj hi
    cases hi
  · intro nonce result hresult
    cases hresult
  · exact fun p hp => absurd hp List.not_mem_nil
  · rfl
  · intro w s hfresh h
    cases s with
    | start channelName redirectBase req nonce now => exact coherent_start h channelName redirectBase req now hfresh
    | callback code state error => exact coherent_callback h code state error
    | proceed callback turn => exact coherent_proceed h callback turn
    | poll nonce => exact coherent_poll h nonce
    | ask poll => exact coherent_ask h poll
    | useSecrets call => exact coherent_useSecrets h call

/-- However starts, callbacks and polls interleave, the token endpoint is asked at most once for each
nonce, less than ten minutes after the flow was started with it, and with what the flow was started with. -/
theorem exchanged_once (router : Router) (hw : Reached (OAuthWorld.step router) Section.Fresh .new w) :
    (∀ (i j : Nat) (ci cj : Callback), w.callbacks[i]? = some ci → w.callbacks[j]? = some cj →
      ci.posted.isSome = true → cj.posted.isSome = true → ci.nonce = cj.nonce → i = j) ∧
    ∀ c ∈ w.callbacks, ∀ e reply, c.posted = some (e, reply) →
      ∃ req now, c.found = some (req, now) ∧ (c.nonce, req) ∈ w.started ∧ req.isFresh now = true ∧
        e.IsOf router w.shared c.code req := by
  have h := coherent_of_reached hw
  have hfound : ∀ c ∈ w.callbacks, c.posted.isSome = true → c.found.isSome = true := by
    intro c hc hposted
    obtain ⟨⟨e, reply⟩, hposted⟩ := Option.isSome_iff_exists.mp hposted
    obtain ⟨req, now, hfound, -⟩ := (h.sound c hc).posted e reply hposted
    exact Option.isSome_iff_exists.mpr ⟨_, hfound⟩
  refine ⟨fun i j ci cj hi hj hpi hpj hnonce => ?_, fun c hc e reply hposted => ?_⟩
  · exact h.once i j ci cj hi hj (hfound ci (List.mem_of_getElem? hi) hpi)
      (hfound cj (List.mem_of_getElem? hj) hpj) hnonce
  · obtain ⟨req, now, hfound, hmade⟩ := (h.sound c hc).posted e reply hposted
    obtain ⟨hstarted, hfresh, -⟩ := (h.sound c hc).found req now hfound
    exact ⟨req, now, hfound, hstarted, hfresh, hmade⟩

/-- A poll that is answered that the flow is complete can be relied on: a callback has exchanged a code
for an access token on the flow's behalf, and that token is read under the name in the answer until
somebody writes there. A flow is never reported as failed. -/
theorem polled_complete (router : Router) (hlawful : router.ciphers.Lawful)
    (hw : Reached (OAuthWorld.step router) Section.Fresh .new w) :
    ∀ p ∈ w.polls, ∀ text, p.phase = .returned (.ok text) →
      (text = "pending" ∧ ∃ req, (p.nonce, req) ∈ w.started) ∨
      ∃ c ∈ w.callbacks, ∃ req e token refreshToken env answer before after,
        c.nonce = p.nonce ∧ (p.nonce, req) ∈ w.started ∧ text = "complete:" ++ req.secretName ∧
          c.posted = some (e, .json (some token) refreshToken) ∧ e.IsOf router w.shared c.code req ∧
            w.shared.log = before ++
              (⟨.create router.userId ⟨req.secretName, token, some req.channelId, none⟩, env⟩, .ok answer) ::
                after ∧
              Secrets.ReadsBack router.userId req.secretName token after := by
  have h := coherent_of_reached hw
  have hreplies : Always (fun before entry => (Secrets.Vault.afterAll before).Accounts router.ciphers
      router.crypto entry.1.operation entry.1.env entry.2) (run _ [] (w.shared.log.map (·.1))).2 := run_always
    (fun table log => Secrets.Holds router.ciphers router.crypto table (Secrets.Vault.afterAll log))
    Secrets.holds_empty (fun _ _ call hholds => Secrets.holds_step hlawful call hholds)
    (fun _ _ call hholds => Secrets.accounted_step hlawful call hholds) (w.shared.log.map (·.1))
  rw [h.recorded] at hreplies
  intro p hp text hphase
  rcases h.polls p hp _ hphase with ⟨hok, hstarted⟩ | ⟨secretName, hok, hdone⟩ | herror
  · exact .inl ⟨Except.ok.inj hok, hstarted⟩
  · obtain ⟨c, hc, hnonce, req, now, hfound, rfl, e, token, refreshToken, env, answer, hposted, hmem⟩ := hdone
    obtain ⟨hstarted, -⟩ := (h.sound c hc).found req now hfound
    obtain ⟨req', now', hfound', hmade⟩ := (h.sound c hc).posted _ _ hposted
    rw [hfound] at hfound'
    cases hfound'
    obtain ⟨before, after, hlog⟩ := List.append_of_mem hmem
    rw [hlog] at hreplies
    exact .inr ⟨c, hc, req, e, token, refreshToken, env, answer, before, after, hnonce, hnonce ▸ hstarted,
      Except.ok.inj hok, hposted, hmade, hlog, Secrets.readsBack_of_created rfl hreplies⟩
  · cases herror

private def gateway : Router := ⟨Secrets.oneByte, Secrets.sevens, true, "default"⟩

private def slackStart : OauthStartRequest :=
  ⟨"https://slack.com/oauth", "https://slack.com/token", "gyre", "slack_secret", "chat", "slack_token", []⟩

private def meets (reply : TokenReply) : Turn := ⟨1000000000, reply, Secrets.quietly 7 20⟩

/-- A flow that is completed, while its callback is called a second time. -/
private def slackFlow : List Section :=
  [.useSecrets ⟨.create "default" ⟨"slack_secret", "hush", none, none⟩, Secrets.quietly 1 10⟩,
    .start "slack" (some "https://gyre.example") slackStart "5eed" 0,
    .callback (some "code") (some "5eed") none, .callback (some "code") (some "5eed") none] ++
    List.replicate 2 (.proceed 1 (meets (.unreachable ""))) ++
    List.replicate 2 (.proceed 0 (meets (.unreachable ""))) ++
    List.replicate 4 (.proceed 1 (meets (.json (some "token") (some "refresh")))) ++
    [.poll "5eed", .ask 0]

private def afterSlack : OAuthWorld := slackFlow.foldl (OAuthWorld.step gateway) .new

private theorem slack_reached : Reached (OAuthWorld.step gateway) Section.Fresh .new afterSlack :=
  Reached.foldl slackFlow .start (by decide +kernel)

theorem exchanged_once_slack :
    afterSlack.callbacks.map (·.posted.isSome) = [false, true] ∧
    ∀ c ∈ afterSlack.callbacks, ∀ e reply, c.posted = some (e, reply) →
      ∃ req now, c.found = some (req, now) ∧ (c.nonce, req) ∈ afterSlack.started ∧
        req.isFresh now = true ∧ e.IsOf gateway afterSlack.shared c.code req :=
  ⟨by decide +kernel, (exchanged_once gateway slack_reached).2⟩

theorem polled_complete_slack :
    ∃ c ∈ afterSlack.callbacks, ∃ e token refreshToken before after,
      c.posted = some (e, .json (some token) refreshToken) ∧
        afterSlack.shared.log = before ++ after ∧
          Secrets.ReadsBack "default" "slack_token" token after := by
  have hpoll : (⟨"5eed", .returned (.ok "complete:slack_token")⟩ : Poll) ∈ afterSlack.polls := by
    decide +kernel
  rcases polled_complete gateway Secrets.oneByte_lawful slack_reached _ hpoll _ rfl with
    ⟨hpending, -⟩ | ⟨c, hc, req, e, token, refreshToken, env, answer, before, after, hnonce, hstarted, htext,
      hposted, hmade, hlog, hreads⟩
  · exact absurd hpending (by decide)
  · have hstarts : afterSlack.started = [("5eed", slackStart.pending "slack" "https://gyre.example" 0)] := by
      decide +kernel
    rw [hstarts] at hstarted
    cases List.mem_singleton.mp hstarted
    exact ⟨c, hc, e, token, refreshToken, before ++ [_], after, hposted,
      hlog.trans (List.append_cons _ _ _), hreads⟩

end Runs

end Gyre.Channels.Wasm.OAuth
