/- digest: In which sessions tool requests are sent, and to whom session ids are shown. -/

import Gyre.Lib.Runs
import Gyre.Tools.Mcp.Client

/-!
The history of a session is what was seen under its name: who issued its id, with whom it was
initialized, and when it was used last. The sessions of the manager agree with it in everything but the
time, which the manager does not keep for requests.
-/

set_option autoImplicit false
set_option relaxedAutoImplicit false

namespace Gyre.Tools.Mcp

/-- What was seen of the session under a name. -/
structure SessionHistory where
  issuer : Option (String × String)
  initializedWith : Option String
  lastUse : Nat

/-- The histories by server name. -/
abbrev History := String → SessionHistory

def noteEvent (now : Nat) (h : History) : McpEvent → History
  | .opened name => Function.update h name ⟨none, none, now⟩
  | .sent name _ _ _ => Function.update h name { h name with lastUse := now }
  | .issued name url sessionId =>
    Function.update h name { h name with issuer := some (sessionId, url), lastUse := now }
  | .initialized name url =>
    Function.update h name { h name with initializedWith := some url, lastUse := now }

def noted (now : Nat) (h : History) (events : List McpEvent) : History :=
  events.foldl (noteEvent now) h

/-- A session id goes to the server that issued it; a tool request goes out in a session that was
initialized with its server and has been used within the limit. -/
def Proper (maxIdleSecs now : Nat) (h : History) : McpEvent → Prop
  | .sent name url request sessionId =>
    (∀ id, sessionId = some id → (h name).issuer = some (id, url)) ∧
      (request.isTools = true →
        (h name).initializedWith = some url ∧ now - (h name).lastUse ≤ maxIdleSecs * 10 ^ 9)
  | _ => True

def AllProper (maxIdleSecs now : Nat) : History → List McpEvent → Prop
  | _, [] => True
  | h, e :: rest => Proper maxIdleSecs now h e ∧ AllProper maxIdleSecs now (noteEvent now h e) rest

/-- The session's id, if it has one, was issued by the server. -/
def Own (h : History) (name url : String) : Prop :=
  ∀ p, (h name).issuer = some p → p.2 = url

/-- A request may be sent in the session as it is. -/
structure MaySend (maxIdleSecs now : Nat) (h : History) (name url : String) (request : McpRequest) :
    Prop where
  own : Own h name url
  ready : request.isTools = true →
    (h name).initializedWith = some url ∧ now - (h name).lastUse ≤ maxIdleSecs * 10 ^ 9

/-- The manager's sessions are those of the history. -/
structure Linked (maxIdleSecs : Nat) (m : McpSessionManager) (h : History) : Prop where
  limit : m.maxIdleSecs = maxIdleSecs
  absent : ∀ name, m.sessions name = none →
    (h name).issuer = none ∧ (h name).initializedWith = none
  session : ∀ name s, m.sessions name = some s →
    s.sessionId = (h name).issuer.map Prod.fst ∧ s.initialized = (h name).initializedWith.isSome

section Lists

variable {maxIdleSecs now : Nat}

theorem noted_append (h : History) (before after : List McpEvent) :
    noted now h (before ++ after) = noted now (noted now h before) after :=
  List.foldl_append

theorem allProper_append (h : History) (before after : List McpEvent) :
    AllProper maxIdleSecs now h (before ++ after) ↔
      AllProper maxIdleSecs now h before ∧
        AllProper maxIdleSecs now (noted now h before) after := by
  induction before generalizing h with
  | nil => exact (iff_of_eq (true_and _)).symm
  | cons e rest ih =>
    rw [List.cons_append, AllProper, AllProper, ih, and_assoc]
    rfl

end Lists

section Manager

variable {maxIdleSecs : Nat} {m : McpSessionManager} {h : History}

theorem sessions_put (name : String) (s : McpSession) :
    (m.put name s).sessions name = some s :=
  Function.update_self ..

theorem sessions_put_ne {name other : String} (hne : other ≠ name) (s : McpSession) :
    (m.put name s).sessions other = m.sessions other :=
  Function.update_of_ne hne ..

/-- A session put under a name is linked when its history is. -/
theorem Linked.put (hl : Linked maxIdleSecs m h) (name : String) {s : McpSession}
    {entry : SessionHistory} (hid : s.sessionId = entry.issuer.map Prod.fst)
    (hinit : s.initialized = entry.initializedWith.isSome) :
    Linked maxIdleSecs (m.put name s) (Function.update h name entry) := by
  constructor
  · exact hl.limit
  · intro other hnone
    by_cases heq : other = name
    · subst heq
      rw [sessions_put] at hnone
      cases hnone
    · rw [sessions_put_ne heq] at hnone
      rw [Function.update_of_ne heq]
      exact hl.absent other hnone
  · intro other t hsome
    by_cases heq : other = name
    · subst heq
      rw [sessions_put] at hsome
      cases hsome
      rw [Function.update_self]
      exact ⟨hid, hinit⟩
    · rw [sessions_put_ne heq] at hsome
      rw [Function.update_of_ne heq]
      exact hl.session other t hsome

/-- Use alone changes neither id nor initialization. -/
theorem Linked.used (hl : Linked maxIdleSecs m h) (name : String) (now : Nat) :
    Linked maxIdleSecs m (Function.update h name { h name with lastUse := now }) := by
  have hsame (other : String) :
      (Function.update h name { h name with lastUse := now } other).issuer = (h other).issuer ∧
        (Function.update h name { h name with lastUse := now } other).initializedWith =
          (h other).initializedWith := by
    by_cases heq : other = name
    · subst heq
      rw [Function.update_self]
      exact ⟨rfl, rfl⟩
    · rw [Function.update_of_ne heq]
      exact ⟨rfl, rfl⟩
  constructor
  · exact hl.limit
  · intro other hnone
    rw [(hsame other).1, (hsame other).2]
    exact hl.absent other hnone
  · intro other s hsome
    rw [(hsame other).1, (hsame other).2]
    exact hl.session other s hsome

theorem isInitialized_iff (hl : Linked maxIdleSecs m h) (name : String) :
    m.isInitialized name = (h name).initializedWith.isSome := by
  unfold McpSessionManager.isInitialized
  cases hsession : m.sessions name with
  | none => rw [(hl.absent name hsession).2]; rfl
  | some s => exact (hl.session name s hsession).2

theorem getSessionId_eq (hl : Linked maxIdleSecs m h) (name : String) :
    m.getSessionId name = (h name).issuer.map Prod.fst := by
  unfold McpSessionManager.getSessionId
  cases hsession : m.sessions name with
  | none => rw [(hl.absent name hsession).1]; rfl
  | some s => exact (hl.session name s hsession).1

/-- What is sent in the session as it is, is proper exactly if it may be sent. -/
theorem proper_sent_iff (hl : Linked maxIdleSecs m h) (now : Nat) (name url : String)
    (request : McpRequest) :
    Proper maxIdleSecs now h (.sent name url request (m.getSessionId name)) ↔
      MaySend maxIdleSecs now h name url request := by
  rw [getSessionId_eq hl name]
  constructor
  · rintro ⟨hid, hready⟩
    refine ⟨fun p hp => ?_, hready⟩
    have hissued := hid p.1 (by rw [hp]; rfl)
    rw [hp] at hissued
    exact congrArg Prod.snd (Option.some.inj hissued)
  · rintro ⟨hown, hready⟩
    refine ⟨fun id hid => ?_, hready⟩
    obtain ⟨p, hp, rfl⟩ := Option.map_eq_some_iff.mp hid
    rw [hp, ← hown p hp]

/-- A session that is neither absent nor stale is kept. -/
def Kept (m : McpSessionManager) (name : String) (now : Nat) : Prop :=
  ∃ s, m.sessions name = some s ∧ s.isStale m.maxIdleSecs now = false

theorem getOrCreate_spec (hl : Linked maxIdleSecs m h) (name url : String) (now : Nat) :
    Linked maxIdleSecs (getOrCreate m name now url).1
        (noted now h (getOrCreate m name now url).2) ∧
      AllProper maxIdleSecs now h (getOrCreate m name now url).2 ∧
      (∃ s, (getOrCreate m name now url).1.sessions name = some s) ∧
      (Own (noted now h (getOrCreate m name now url).2) name url ↔
        (Kept m name now → Own h name url)) := by
  have hfresh : Linked maxIdleSecs (m.put name (.new url now))
      (Function.update h name ⟨none, none, now⟩) := hl.put name rfl rfl
  have hput : ∃ s, (m.put name (.new url now)).sessions name = some s :=
    ⟨_, sessions_put name _⟩
  have hown : Own (Function.update h name ⟨none, none, now⟩) name url := by
    intro p hp
    rw [Function.update_self] at hp
    cases hp
  unfold getOrCreate
  cases hsession : m.sessions name with
  | none =>
    have hnone : ¬ Kept m name now := by
      rintro ⟨s, hs, -⟩
      rw [hsession] at hs
      cases hs
    exact ⟨hfresh, ⟨trivial, trivial⟩, hput, iff_of_true hown (fun hkept => absurd hkept hnone)⟩
  | some s =>
    dsimp only
    by_cases hstale : s.isStale m.maxIdleSecs now = true
    · have hnone : ¬ Kept m name now := by
        rintro ⟨t, ht, hnot⟩
        rw [hsession] at ht
        cases ht
        rw [hstale] at hnot
        cases hnot
      rw [if_pos hstale]
      exact ⟨hfresh, ⟨trivial, trivial⟩, hput, iff_of_true hown (fun hkept => absurd hkept hnone)⟩
    · have hkept : Kept m name now := ⟨s, hsession, Bool.eq_false_iff.mpr hstale⟩
      rw [if_neg hstale]
      exact ⟨hl, trivial, ⟨s, hsession⟩, ⟨fun hown _ => hown, fun hall => hall hkept⟩⟩

end Manager

section Requests

variable {maxIdleSecs now : Nat} {m : McpSessionManager} {h : History} (c : McpClient)

/-- What the requests of a client do to the history of its name, and to nothing else of it. -/
structure Carries (now : Nat) (c : McpClient) (h h' : History) : Prop where
  own : Own h c.serverName c.serverUrl → Own h' c.serverName c.serverUrl
  initializedWith : (h' c.serverName).initializedWith = (h c.serverName).initializedWith
  recent : (h c.serverName).lastUse = now → (h' c.serverName).lastUse = now

theorem Carries.refl (h : History) : Carries now c h h := ⟨id, rfl, id⟩

variable {c}

theorem Carries.trans {h₁ h₂ h₃ : History} (first : Carries now c h₁ h₂)
    (second : Carries now c h₂ h₃) : Carries now c h₁ h₃ :=
  ⟨second.own ∘ first.own, second.initializedWith.trans first.initializedWith,
    second.recent ∘ first.recent⟩

variable (now c)

/-- What an answer leaves of the session, and what it makes known, is the session id it carries. -/
theorem parseResponse_kept (status : Nat) (sessionId : Option String)
    (body : Except String McpResponse) :
    (sessionId = none → (parseResponse c now m status sessionId body).1 = m ∧
        (parseResponse c now m status sessionId body).2.2 = []) ∧
      ∀ id, sessionId = some id →
        (parseResponse c now m status sessionId body).1 =
            (updateSessionId m c.serverName now c.serverUrl id).1 ∧
          (parseResponse c now m status sessionId body).2.2 =
            (updateSessionId m c.serverName now c.serverUrl id).2 := by
  unfold parseResponse
  dsimp only
  constructor
  · intro hnone
    subst hnone
    split
    · exact ⟨rfl, rfl⟩
    · split <;> exact ⟨rfl, rfl⟩
  · intro id hid
    subst hid
    split
    · exact ⟨rfl, rfl⟩
    · split <;> exact ⟨rfl, rfl⟩

theorem parseResponse_spec (hl : Linked maxIdleSecs m h) (status : Nat)
    (sessionId : Option String) (body : Except String McpResponse) :
    Linked maxIdleSecs (parseResponse c now m status sessionId body).1
        (noted now h (parseResponse c now m status sessionId body).2.2) ∧
      AllProper maxIdleSecs now h (parseResponse c now m status sessionId body).2.2 ∧
      Carries now c h (noted now h (parseResponse c now m status sessionId body).2.2) := by
  obtain ⟨hsame, hnew⟩ := parseResponse_kept now c (m := m) status sessionId body
  cases hid : sessionId with
  | none =>
    obtain ⟨hm, hevents⟩ := hsame hid
    rw [← hid, hm, hevents]
    exact ⟨hl, trivial, .refl c h⟩
  | some id =>
    obtain ⟨hm, hevents⟩ := hnew id hid
    rw [← hid, hm, hevents]
    dsimp only [updateSessionId]
    cases hsession : m.sessions c.serverName with
    | none => exact ⟨hl, trivial, .refl c h⟩
    | some s =>
      refine ⟨hl.put c.serverName rfl (hl.session _ s hsession).2, ⟨trivial, trivial⟩, ?_⟩
      constructor
      · intro _ p hp
        simp only [noted, List.foldl_cons, List.foldl_nil, noteEvent, Function.update_self,
          Option.some.injEq] at hp
        rw [← hp]
      · simp only [noted, List.foldl_cons, List.foldl_nil, noteEvent, Function.update_self]
      · intro _
        simp only [noted, List.foldl_cons, List.foldl_nil, noteEvent, Function.update_self]

/-- The history right after a request was sent. -/
theorem Carries.sent (request : McpRequest) (sessionId : Option String) :
    Carries now c h (noteEvent now h (.sent c.serverName c.serverUrl request sessionId)) := by
  constructor
  · intro hown p hp
    simp only [noteEvent, Function.update_self] at hp
    exact hown p hp
  · simp only [noteEvent, Function.update_self]
  · intro _
    simp only [noteEvent, Function.update_self]

theorem sendAttempt_spec (hl : Linked maxIdleSecs m h) (request : McpRequest) (a : Attempt) :
    Linked maxIdleSecs (sendAttempt c now m request a).1
        (noted now h (sendAttempt c now m request a).2.2) ∧
      Carries now c h (noted now h (sendAttempt c now m request a).2.2) ∧
      (AllProper maxIdleSecs now h (sendAttempt c now m request a).2.2 ↔
        (a.tokenError = none → MaySend maxIdleSecs now h c.serverName c.serverUrl request)) ∧
      (a.tokenError = none →
        (noted now h (sendAttempt c now m request a).2.2 c.serverName).lastUse = now) ∧
      (a.tokenError ≠ none → ∃ e, (sendAttempt c now m request a).2.1 = .done (.error e)) := by
  have hsent := proper_sent_iff hl now c.serverName c.serverUrl request
  have hused : Linked maxIdleSecs m (noteEvent now h (.sent c.serverName c.serverUrl request
      (m.getSessionId c.serverName))) := hl.used c.serverName now
  have hcarries : Carries now c h (noteEvent now h (.sent c.serverName c.serverUrl request
      (m.getSessionId c.serverName))) := .sent now c request _
  have hrecent : (noteEvent now h (.sent c.serverName c.serverUrl request
      (m.getSessionId c.serverName)) c.serverName).lastUse = now := by
    simp only [noteEvent, Function.update_self]
  unfold sendAttempt
  cases htoken : a.tokenError with
  | some e =>
    exact ⟨hl, .refl c h, iff_of_true trivial (by simp), by simp, fun _ => ⟨_, rfl⟩⟩
  | none =>
    have hiff (events : List McpEvent)
        (hrest : AllProper maxIdleSecs now (noteEvent now h (.sent c.serverName c.serverUrl request
          (m.getSessionId c.serverName))) events) :
        AllProper maxIdleSecs now h (.sent c.serverName c.serverUrl request
            (m.getSessionId c.serverName) :: events) ↔
          ((none : Option String) = none →
            MaySend maxIdleSecs now h c.serverName c.serverUrl request) := by
      rw [AllProper, hsent]
      exact ⟨fun hboth _ => hboth.1, fun hmay => ⟨hmay rfl, hrest⟩⟩
    dsimp only
    cases a.answer with
    | unreachable chain =>
      exact ⟨hused, hcarries, hiff [] trivial, fun _ => hrecent, fun hne => absurd rfl hne⟩
    | answered status sessionId body =>
      dsimp only
      split
      · exact ⟨hused, hcarries, hiff [] trivial, fun _ => hrecent, fun hne => absurd rfl hne⟩
      · obtain ⟨hlinked, hproper, hafter⟩ :=
          parseResponse_spec now c hused status sessionId body
        exact ⟨hlinked, hcarries.trans hafter, hiff _ hproper, fun _ => hafter.recent hrecent,
          fun hne => absurd rfl hne⟩

variable {c}

/-- What may be sent once may be sent again right after it. -/
theorem MaySend.again {h' : History} {request : McpRequest}
    (hmay : MaySend maxIdleSecs now h c.serverName c.serverUrl request) (hc : Carries now c h h')
    (hrecent : (h' c.serverName).lastUse = now) :
    MaySend maxIdleSecs now h' c.serverName c.serverUrl request := by
  refine ⟨hc.own hmay.own, fun htools => ⟨hc.initializedWith.trans (hmay.ready htools).1, ?_⟩⟩
  rw [hrecent, Nat.sub_self]
  exact Nat.zero_le _

variable (c)

theorem sendRequest_spec (hl : Linked maxIdleSecs m h) (request : McpRequest) (x : Exchange) :
    Linked maxIdleSecs (sendRequest c now m request x).1
        (noted now h (sendRequest c now m request x).2.2) ∧
      Carries now c h (noted now h (sendRequest c now m request x).2.2) ∧
      (AllProper maxIdleSecs now h (sendRequest c now m request x).2.2 ↔
        (x.first.tokenError = none → MaySend maxIdleSecs now h c.serverName c.serverUrl request)) ∧
      (x.first.tokenError ≠ none → ∃ e, (sendRequest c now m request x).2.1 = .error e) := by
  obtain ⟨hlinked, hcarries, hproper, hrecent, hfails⟩ :=
    sendAttempt_spec now c hl request x.first
  unfold sendRequest
  dsimp only
  cases hend : (sendAttempt c now m request x.first).2.1 with
  | done result =>
    refine ⟨hlinked, hcarries, hproper, fun hne => ?_⟩
    obtain ⟨e, he⟩ := hfails hne
    rw [hend] at he
    cases he
    exact ⟨e, rfl⟩
  | unauthorized =>
    have htoken : x.first.tokenError = none := by
      by_contra hne
      obtain ⟨e, he⟩ := hfails hne
      rw [hend] at he
      cases he
    dsimp only
    by_cases hrefreshed : x.refreshed = true
    · obtain ⟨hlinked', hcarries', hproper', -, -⟩ :=
        sendAttempt_spec now c hlinked request x.second
      have hboth : AllProper maxIdleSecs now h ((sendAttempt c now m request x.first).2.2 ++
          (sendAttempt c now (sendAttempt c now m request x.first).1 request x.second).2.2) ↔
            (x.first.tokenError = none →
              MaySend maxIdleSecs now h c.serverName c.serverUrl request) := by
        rw [allProper_append, hproper, hproper']
        exact ⟨And.left, fun hmay =>
          ⟨hmay, fun _ => (hmay htoken).again now hcarries (hrecent htoken)⟩⟩
      rw [if_pos hrefreshed]
      cases (sendAttempt c now (sendAttempt c now m request x.first).1 request x.second).2.1 with
      | done result =>
        dsimp only
        rw [noted_append]
        exact ⟨hlinked', hcarries.trans hcarries', hboth, fun hne => absurd htoken hne⟩
      | unauthorized =>
        dsimp only
        rw [noted_append]
        exact ⟨hlinked', hcarries.trans hcarries', hboth, fun hne => absurd htoken hne⟩
    · rw [if_neg hrefreshed]
      exact ⟨hlinked, hcarries, hproper, fun hne => absurd htoken hne⟩

theorem markInitialized_spec (hl : Linked maxIdleSecs m h) (hsome : ∃ s, m.sessions c.serverName = some s) :
    Linked maxIdleSecs (markInitialized m c.serverName now c.serverUrl).1
        (noted now h (markInitialized m c.serverName now c.serverUrl).2) ∧
      AllProper maxIdleSecs now h (markInitialized m c.serverName now c.serverUrl).2 ∧
      (Own h c.serverName c.serverUrl →
        Own (noted now h (markInitialized m c.serverName now c.serverUrl).2) c.serverName c.serverUrl) ∧
      (noted now h (markInitialized m c.serverName now c.serverUrl).2 c.serverName).initializedWith =
        some c.serverUrl ∧
      (noted now h (markInitialized m c.serverName now c.serverUrl).2 c.serverName).lastUse = now := by
  obtain ⟨s, hs⟩ := hsome
  unfold markInitialized
  rw [hs]
  refine ⟨hl.put c.serverName (hl.session _ s hs).1 rfl, ⟨trivial, trivial⟩, fun hown p hp => ?_, ?_, ?_⟩
  · simp only [noted, List.foldl_cons, List.foldl_nil, noteEvent, Function.update_self] at hp
    exact hown p hp
  · simp only [noted, List.foldl_cons, List.foldl_nil, noteEvent, Function.update_self]
  · simp only [noted, List.foldl_cons, List.foldl_nil, noteEvent, Function.update_self]

/-- There is a session under the client's name. -/
def Present (c : McpClient) (m : McpSessionManager) : Prop := ∃ s, m.sessions c.serverName = some s

theorem parseResponse_present (hsome : Present c m) (status : Nat) (sessionId : Option String)
    (body : Except String McpResponse) :
    Present c (parseResponse c now m status sessionId body).1 := by
  obtain ⟨hsame, hnew⟩ := parseResponse_kept now c (m := m) status sessionId body
  cases hid : sessionId with
  | none =>
    rw [← hid, (hsame hid).1]
    exact hsome
  | some id =>
    obtain ⟨s, hs⟩ := hsome
    rw [← hid, (hnew id hid).1]
    dsimp only [updateSessionId]
    rw [hs]
    exact ⟨_, sessions_put _ _⟩

theorem sendAttempt_present (hsome : Present c m) (request : McpRequest) (a : Attempt) :
    Present c (sendAttempt c now m request a).1 := by
  unfold sendAttempt
  split
  · exact hsome
  · dsimp only
    split
    · exact hsome
    · split
      · exact hsome
      · exact parseResponse_present now c hsome _ _ _

theorem sendRequest_present (hsome : Present c m) (request : McpRequest) (x : Exchange) :
    Present c (sendRequest c now m request x).1 := by
  have hfirst := sendAttempt_present now c hsome request x.first
  unfold sendRequest
  dsimp only
  split
  · exact hfirst
  · split
    · split <;> exact sendAttempt_present now c hfirst request x.second
    · exact hfirst

theorem maySend_iff_own {request : McpRequest} (hrequest : request.isTools = false) (h : History) :
    MaySend maxIdleSecs now h c.serverName c.serverUrl request ↔ Own h c.serverName c.serverUrl := by
  refine ⟨fun hmay => hmay.own, fun hown => ⟨hown, fun htools => ?_⟩⟩
  rw [hrequest] at htools
  cases htools

variable (formats : McpFormats)

/-- An initialization that has to be made: it is proper exactly if the session it is made in has no
other server's id, and when it succeeds, every request may follow. -/
theorem initializeSession_spec (hl : Linked maxIdleSecs m h)
    (hnot : m.isInitialized c.serverName = false) (init notification : Exchange) :
    let r := initializeSession c now formats m init notification
    Linked maxIdleSecs r.1 (noted now h r.2.2) ∧
      (AllProper maxIdleSecs now h r.2.2 ↔
        (init.first.tokenError = none → Kept m c.serverName now →
          Own h c.serverName c.serverUrl)) ∧
      (∀ result, r.2.1 = .ok result → init.first.tokenError = none ∧
        (AllProper maxIdleSecs now h r.2.2 → ∀ request,
          MaySend maxIdleSecs now (noted now h r.2.2) c.serverName c.serverUrl request)) := by
  obtain ⟨hopened, hopenedProper, hpresent, hown⟩ :=
    getOrCreate_spec hl c.serverName c.serverUrl now
  obtain ⟨hanswered, hcarries, hproper, hfails⟩ :=
    sendRequest_spec now c hopened .initializeRequest init
  have hpresent' := sendRequest_present now c hpresent .initializeRequest init
  rw [maySend_iff_own now c rfl, hown] at hproper
  have hfirst : AllProper maxIdleSecs now h ((getOrCreate m c.serverName now c.serverUrl).2 ++
      (sendRequest c now (getOrCreate m c.serverName now c.serverUrl).1 .initializeRequest init).2.2) ↔
        (init.first.tokenError = none → Kept m c.serverName now →
          Own h c.serverName c.serverUrl) := by
    rw [allProper_append, hproper]
    exact ⟨And.right, fun hall => ⟨hopenedProper, hall⟩⟩
  intro r
  have hfailed (e : McpError)
      (hr : r = ((sendRequest c now (getOrCreate m c.serverName now c.serverUrl).1 .initializeRequest
          init).1, .error e, (getOrCreate m c.serverName now c.serverUrl).2 ++
        (sendRequest c now (getOrCreate m c.serverName now c.serverUrl).1 .initializeRequest
          init).2.2)) :
      Linked maxIdleSecs r.1 (noted now h r.2.2) ∧
        (AllProper maxIdleSecs now h r.2.2 ↔
          (init.first.tokenError = none → Kept m c.serverName now →
            Own h c.serverName c.serverUrl)) ∧
        (∀ result, r.2.1 = .ok result → init.first.tokenError = none ∧
          (AllProper maxIdleSecs now h r.2.2 → ∀ request,
            MaySend maxIdleSecs now (noted now h r.2.2) c.serverName c.serverUrl request)) := by
    rw [hr]
    dsimp only
    rw [noted_append]
    exact ⟨hanswered, hfirst, fun result hok => (nomatch hok)⟩
  have hr : r = initializeSession c now formats m init notification := rfl
  rw [initializeSession, if_neg (by rw [hnot]; exact Bool.false_ne_true)] at hr
  dsimp only at hr
  cases hanswer : (sendRequest c now (getOrCreate m c.serverName now c.serverUrl).1
      .initializeRequest init).2.1 with
  | error e =>
    rw [hanswer] at hr
    exact hfailed e hr
  | ok response =>
    rw [hanswer] at hr
    dsimp only at hr
    cases hread : initializeAnswer formats response with
    | error e =>
      rw [hread] at hr
      exact hfailed e hr
    | ok result =>
      rw [hread] at hr
      have htoken : init.first.tokenError = none := by
        by_contra hne
        obtain ⟨e, he⟩ := hfails hne
        rw [hanswer] at he
        cases he
      obtain ⟨hmarked, hmarkedProper, hmarkedOwn, hwith, hused⟩ :=
        markInitialized_spec now c hanswered hpresent'
      obtain ⟨hnotified, hafter, hnotifiedProper, -⟩ :=
        sendRequest_spec now c hmarked .initializedNotification notification
      rw [maySend_iff_own now c rfl] at hnotifiedProper
      have hall : AllProper maxIdleSecs now h r.2.2 ↔
          (init.first.tokenError = none → Kept m c.serverName now →
            Own h c.serverName c.serverUrl) := by
        rw [hr]
        dsimp only
        rw [allProper_append, allProper_append, hfirst, noted_append, noted_append, noted_append]
        refine ⟨fun hboth => hboth.1.1, fun hcond => ⟨⟨hcond, hmarkedProper⟩, ?_⟩⟩
        exact hnotifiedProper.mpr fun _ => hmarkedOwn (hcarries.own (hown.mpr (hcond htoken)))
      refine ⟨?_, hall, fun _ _ => ⟨htoken, fun hproperly request => ?_⟩⟩
      · rw [hr]
        dsimp only
        rw [noted_append, noted_append, noted_append]
        exact hnotified
      · have hkept := hown.mpr (hall.mp hproperly htoken)
        rw [hr]
        dsimp only
        rw [noted_append, noted_append, noted_append]
        refine ⟨hafter.own (hmarkedOwn (hcarries.own hkept)), fun _ => ⟨?_, ?_⟩⟩
        · exact hafter.initializedWith.trans hwith
        · rw [hafter.recent hused, Nat.sub_self]
          exact Nat.zero_le _

/-- The exact condition under which a call is proper: it finds a session that was initialized with its
server and has been used within the limit, or one that it will replace or that has no other server's
id; a request that is not sent for lack of a token asks for nothing. -/
def Fits (maxIdleSecs now : Nat) (m : McpSessionManager) (h : History) (c : McpClient)
    (request : McpRequest) (w : CallWorld) : Prop :=
  if (h c.serverName).initializedWith.isSome then
    w.request.first.tokenError = none →
      MaySend maxIdleSecs now h c.serverName c.serverUrl request
  else
    w.init.first.tokenError = none → Kept m c.serverName now → Own h c.serverName c.serverUrl

theorem initializedRequest_spec (hl : Linked maxIdleSecs m h) (request : McpRequest)
    (w : CallWorld) :
    let r := initializedRequest c now formats m request w
    Linked maxIdleSecs r.1 (noted now h r.2.2) ∧
      (AllProper maxIdleSecs now h r.2.2 ↔ Fits maxIdleSecs now m h c request w) := by
  intro r
  have hr : r = initializedRequest c now formats m request w := rfl
  unfold initializedRequest at hr
  unfold Fits
  cases hinit : m.isInitialized c.serverName with
  | true =>
    have hsome := (isInitialized_iff hl c.serverName).symm.trans hinit
    have hready : initializeSession c now formats m w.init w.notification =
        (m, .ok formats.initializeDefault, []) := if_pos hinit
    obtain ⟨hlinked, -, hproper, -⟩ := sendRequest_spec now c hl request w.request
    rw [hready] at hr
    rw [hr, if_pos hsome]
    exact ⟨hlinked, hproper⟩
  | false =>
    have hnone := (isInitialized_iff hl c.serverName).symm.trans hinit
    obtain ⟨hlinked, hproper, hok⟩ :=
      initializeSession_spec now c formats hl hinit w.init w.notification
    rw [if_neg (by rw [hnone]; exact Bool.false_ne_true)]
    cases hready : (initializeSession c now formats m w.init w.notification).2.1 with
    | error e =>
      dsimp only at hr
      rw [hready] at hr
      rw [hr]
      exact ⟨hlinked, hproper⟩
    | ok result =>
      dsimp only at hr
      rw [hready] at hr
      obtain ⟨hlinked', -, hproper', -⟩ := sendRequest_spec now c hlinked request w.request
      rw [hr]
      dsimp only
      rw [noted_append, allProper_append, hproper']
      refine ⟨hlinked', fun hboth => hproper.mp hboth.1, fun hcond => ?_⟩
      exact ⟨hproper.mpr hcond, fun _ => (hok result hready).2 (hproper.mpr hcond) request⟩

end Requests

section Runs

variable (formats : McpFormats)

/-- A step together with the history that it leaves. -/
def watchedStep (s : McpState × History) (op : McpOp) : (McpState × History) × List McpEvent :=
  (((mcpStep formats s.1 op).1, noted s.1.now s.2 (mcpStep formats s.1 op).2),
    (mcpStep formats s.1 op).2)

def watchedStart (maxIdleSecs : Nat) : McpState × History :=
  (.new maxIdleSecs, fun _ => ⟨none, none, 0⟩)

/-- Everything that a step sends is proper. -/
def SendsProperly (maxIdleSecs : Nat) (s : McpState × History) (op : McpOp) : Prop :=
  AllProper maxIdleSecs s.1.now s.2 (mcpStep formats s.1 op).2

/-- A step fits the session it finds; a list of tools from the cache needs none. -/
def StepFits (maxIdleSecs : Nat) (s : McpState × History) : McpOp → Prop
  | .wait _ => True
  | .listTools c w =>
    s.1.caches c = none → Fits maxIdleSecs s.1.now s.1.manager s.2 c .listTools w
  | .callTool c name arguments w =>
    Fits maxIdleSecs s.1.now s.1.manager s.2 c (.callTool name arguments) w

theorem watchedStep_spec {maxIdleSecs : Nat} {s : McpState × History}
    (hl : Linked maxIdleSecs s.1.manager s.2) (op : McpOp) :
    Linked maxIdleSecs (watchedStep formats s op).1.1.manager (watchedStep formats s op).1.2 ∧
      (SendsProperly formats maxIdleSecs s op ↔ StepFits maxIdleSecs s op) := by
  unfold SendsProperly
  cases op with
  | wait nanos => exact ⟨hl, iff_of_true trivial trivial⟩
  | callTool c name arguments w => exact initializedRequest_spec _ c formats hl (.callTool name arguments) w
  | listTools c w =>
    cases hcache : s.1.caches c with
    | some tools =>
      have hstep : mcpStep formats s.1 (.listTools c w) = (s.1, []) := by
        simp only [mcpStep, listTools, hcache]
      have hfits : StepFits maxIdleSecs s (.listTools c w) := fun hnone => by
        rw [hcache] at hnone
        cases hnone
      unfold watchedStep
      rw [hstep]
      exact ⟨hl, iff_of_true trivial hfits⟩
    | none =>
      obtain ⟨hlinked, hproper⟩ := initializedRequest_spec s.1.now c formats hl .listTools w
      have hstep : (mcpStep formats s.1 (.listTools c w)).1.manager =
            (initializedRequest c s.1.now formats s.1.manager .listTools w).1 ∧
          (mcpStep formats s.1 (.listTools c w)).2 =
            (initializedRequest c s.1.now formats s.1.manager .listTools w).2.2 := by
        simp only [mcpStep, listTools, hcache]
        split <;> exact ⟨rfl, rfl⟩
      have hfits : Fits maxIdleSecs s.1.now s.1.manager s.2 c .listTools w ↔
          StepFits maxIdleSecs s (.listTools c w) :=
        ⟨fun hfits _ => hfits, fun hfits => hfits hcache⟩
      unfold watchedStep
      rw [hstep.2]
      dsimp only
      rw [hstep.1]
      exact ⟨hlinked, hproper.trans hfits⟩

end Runs

section Improper

private def plainFormats : McpFormats := ⟨.ok, fun _ => .ok [], .ok, .null⟩

private def answers (sessionId : String) : Exchange :=
  ⟨⟨none, .answered 200 (some sessionId) (.ok ⟨some .null, none⟩)⟩, false, ⟨none, .unreachable ""⟩⟩

private def callPing (url sessionId : String) : McpOp :=
  .callTool ⟨"notes", url⟩ "ping" .null ⟨answers sessionId, answers sessionId, answers sessionId⟩

private def idleRun : List McpOp := [callPing "https://a.example" "s1", .wait (7200 * 10 ^ 9)]

private def strangerRun : List McpOp := [callPing "https://a.example" "s1"]

end Improper

end Gyre.Tools.Mcp
