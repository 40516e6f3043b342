/- digest: When webhooks reach only the channels they are registered for, with the channel's secret. -/

import Gyre.Channels.Wasm.Router
import Gyre.Lib.Runs

/-!
The router keeps neither the methods of an endpoint nor its `require_secret`, overwrites the path of
another channel, and changes the secret of a channel apart from the channel itself. Where registrations
leave nothing to that, and none that sets a secret overlaps another call on its channel, every dispatch
is authorized.
-/

set_option autoImplicit false
set_option relaxedAutoImplicit false

namespace Gyre.Channels.Wasm

open Gyre.Lib

/-- A dispatch goes to the channel and an endpoint of its path that lists the method, with the secret of
the channel where one is asked for. -/
structure Dispatch.Authorized (d : Dispatch) : Prop where
  endpoint : ∃ e, d.registration = some (d.channel.name, e) ∧ d.webhook.method ∈ e.methods ∧
    (e.requireSecret = true → d.validated.isSome)
  secret : ∀ secret, d.registeredSecret = some secret → d.validated = some secret
  carried : ∀ secret, d.validated = some secret → ∃ header, d.webhook.providedSecret header = some secret
  flag : d.secretValidated = true → d.validated.isSome

namespace Phase

/-- The channel that a call which has begun is on. -/
def concerns : Phase → Option String
  | storePaths channel _ _ _ | storeSecret channel _ _ => some channel.name
  | removeSecret channelName | removeHeader channelName | removePaths channelName => some channelName
  | findChannel _ channelName _ => some channelName
  | askSecret _ channel _ | askHeader _ channel _ | validate _ channel _ _ | askAgain _ channel _ _ =>
    some channel.name
  | _ => none

/-- A call changes the secret of its channel. -/
def exclusive : Phase → Bool
  | storeChannel _ _ secret _ | storePaths _ _ secret _ | storeSecret _ secret _ => secret.isSome
  | removeChannel _ | removeSecret _ | removeHeader _ | removePaths _ => true
  | _ => false

/-- The channel whose entries the next turn changes. -/
def changes : Phase → Option String
  | storeChannel channel _ _ _ | storePaths channel _ _ _ | storeSecret channel _ _ => some channel.name
  | removeChannel channelName | removeSecret channelName | removeHeader channelName
  | removePaths channelName => some channelName
  | _ => none

end Phase

/-- Two calls are on the same channel only if neither changes its secret. -/
def Phase.Apart (p q : Phase) : Prop :=
  ∀ channelName, p.concerns = some channelName → q.concerns = some channelName →
    p.exclusive = false ∧ q.exclusive = false

theorem Phase.Apart.symm {p q : Phase} (h : p.Apart q) : q.Apart p :=
  fun channelName hq hp => (h channelName hp hq).symm

namespace Server

/-- A call that begins on a channel overlaps no other one there, if one of them changes its secret. -/
def clear (s : Server) (channelName : String) (exclusive : Bool) : Bool :=
  s.calls.all fun other =>
    decide (other.concerns ≠ some channelName) || !exclusive && !other.exclusive

/-- A turn leaves nothing to what the router does not keep. -/
def allows (s : Server) : Phase → Bool
  | .storeChannel channel _ secret _ => s.clear channel.name secret.isSome
  | .removeChannel channelName => s.clear channelName true
  | .storePaths channel endpoints secret _ =>
    endpoints.all fun e =>
      (s.router.pathToChannel e.path).all (fun owner => owner = channel.name) &&
        (!e.requireSecret || secret.isSome || s.router.requiresSecret channel.name)
  | .findPath webhook =>
    (s.router.pathToChannel webhook.fullPath).all fun channelName =>
      s.clear channelName false && (s.registered webhook.fullPath).all fun r => webhook.method ∈ r.2.methods
  | _ => true

def orderly (s : Server) : Op → Bool
  | .call _ => true
  | .proceed index => (s.calls[index]?).all fun phase => s.waits phase || s.allows phase

/-- No path goes over from one channel to another. -/
def PathsStay (before after : Server) : Prop :=
  ∀ path owner channelName, before.router.pathToChannel path = some owner →
    after.router.pathToChannel path = some channelName → channelName = owner

/-- The secret of a channel object is the one that the router asks for. -/
def SecretStored (s : Server) (channel : WasmChannel) : Prop :=
  ∀ secret, s.secretOf channel = some secret → s.router.secrets channel.name = some secret

/-- A request is on a channel that its path is registered for. -/
def Matched (s : Server) (webhook : Webhook) (channelName : String) (registration : Option Registration) :
    Prop :=
  ∃ e, registration = some (channelName, e) ∧ webhook.method ∈ e.methods ∧
    (e.requireSecret = true → s.router.requiresSecret channelName = true)

/-- What a call that has begun relies on. -/
def Holds (s : Server) : Phase → Prop
  | .storePaths channel _ secret _ | .storeSecret channel secret _ =>
    secret.isSome → s.router.channels channel.name = some channel ∧ s.secretOf channel = secret
  | .removeSecret channelName | .removeHeader channelName | .removePaths channelName =>
    s.router.channels channelName = none
  | .findChannel webhook channelName registration => s.Matched webhook channelName registration
  | .askSecret webhook channel registration | .askHeader webhook channel registration =>
    s.Matched webhook channel.name registration ∧ s.SecretStored channel
  | .validate webhook channel registration secret =>
    s.Matched webhook channel.name registration ∧ s.SecretStored channel ∧
      ∃ header, webhook.providedSecret header = some secret
  | .askAgain webhook channel registration validated =>
    (∃ e, registration = some (channel.name, e) ∧ webhook.method ∈ e.methods ∧
      (e.requireSecret = true → validated.isSome)) ∧
    (∀ secret, s.secretOf channel = some secret → validated = some secret) ∧
    (∀ secret, validated = some secret → ∃ header, webhook.providedSecret header = some secret) ∧
    (s.router.requiresSecret channel.name = true → validated.isSome)
  | _ => True

/-- The tables agree on a channel. -/
structure Kept (s : Server) (channelName : String) : Prop where
  secret : ∀ channel, s.router.channels channelName = some channel → s.SecretStored channel
  required : ∀ path e, s.router.pathToChannel path = some channelName →
    s.registered path = some (channelName, e) → e.requireSecret = true →
    s.router.requiresSecret channelName = true

structure Sound (s : Server) : Prop where
  named : ∀ channelName channel, s.router.channels channelName = some channel → channel.name = channelName
  known : ∀ path channelName, s.router.pathToChannel path = some channelName →
    ∃ e, s.registered path = some (channelName, e)
  alone : ∀ (i j : Nat) (p q : Phase), i ≠ j → s.calls[i]? = some p → s.calls[j]? = some q → p.Apart q
  kept : ∀ channelName, (∀ p ∈ s.calls, p.concerns = some channelName → p.exclusive = false) →
    s.Kept channelName
  holds : ∀ p ∈ s.calls, s.Holds p

/-- Nothing about a channel has changed. -/
structure Same (s t : Server) (channelName : String) : Prop where
  channels : t.router.channels channelName = s.router.channels channelName
  secrets : t.router.secrets channelName = s.router.secrets channelName
  secretOf : ∀ channel, channel.name = channelName → t.secretOf channel = s.secretOf channel
  paths : ∀ path, t.router.pathToChannel path = some channelName →
    s.router.pathToChannel path = some channelName ∧ t.registered path = s.registered path

/-- The secret of a channel has not changed, and no channel object has come to be registered with one. -/
structure Milder (s t : Server) (channelName : String) : Prop where
  secrets : t.router.secrets channelName = s.router.secrets channelName
  secretOf : ∀ channel secret, channel.name = channelName → t.secretOf channel = some secret →
    s.secretOf channel = some secret

section Turns

variable {s t : Server} {p q : Phase} {channelName : String}

theorem Same.milder (h : s.Same t channelName) : s.Milder t channelName :=
  ⟨h.secrets, fun channel _ hname hsecret => (h.secretOf channel hname).symm.trans hsecret⟩

theorem Same.rfl : s.Same s channelName := ⟨by rfl, by rfl, fun _ _ => by rfl, fun _ h => ⟨h, by rfl⟩⟩

theorem clear_iff {exclusive : Bool} : s.clear channelName exclusive = true ↔
    ∀ other ∈ s.calls, other.concerns = some channelName → exclusive = false ∧ other.exclusive = false := by
  simp only [clear, List.all_eq_true, Bool.or_eq_true, decide_eq_true_eq, Bool.and_eq_true,
    Bool.not_eq_true']
  constructor
  · intro h other hother hconcerns
    exact (h other hother).resolve_left fun hne => hne hconcerns
  · intro h other hother
    by_cases hconcerns : other.concerns = some channelName
    · exact .inr (h other hother hconcerns)
    · exact .inl hconcerns

theorem allows_storePaths {channel : WasmChannel} {endpoints : List RegisteredEndpoint}
    {secret header : Option String} :
    s.allows (.storePaths channel endpoints secret header) = true ↔
      ∀ e ∈ endpoints, (∀ owner, s.router.pathToChannel e.path = some owner → owner = channel.name) ∧
        (e.requireSecret = true → secret.isSome ∨ s.router.requiresSecret channel.name = true) := by
  have hone (e : RegisteredEndpoint) :
      ((s.router.pathToChannel e.path).all (fun owner => owner = channel.name) &&
        (!e.requireSecret || secret.isSome || s.router.requiresSecret channel.name)) = true ↔
      (∀ owner, s.router.pathToChannel e.path = some owner → owner = channel.name) ∧
        (e.requireSecret = true → secret.isSome ∨ s.router.requiresSecret channel.name = true) := by
    rw [Bool.and_eq_true]
    refine and_congr ?_ ?_
    · cases s.router.pathToChannel e.path with
      | none => simp
      | some owner => simp
    · cases e.requireSecret with
      | false => simp
      | true => simp
  simp only [allows, List.all_eq_true, hone]

theorem allows_findPath {webhook : Webhook} :
    s.allows (.findPath webhook) = true ↔ ∀ channelName,
      s.router.pathToChannel webhook.fullPath = some channelName → s.clear channelName false = true ∧
        ∀ registration, s.registered webhook.fullPath = some registration →
          webhook.method ∈ registration.2.methods := by
  simp only [allows]
  cases s.router.pathToChannel webhook.fullPath with
  | none => simp
  | some owner =>
    cases s.registered webhook.fullPath with
    | none => simp
    | some registration => simp

/-- How a registration leaves a path: as it was, or with the channel and one of the endpoints. -/
theorem storePaths_path (s : Server) (channelName : String) (endpoints : List RegisteredEndpoint)
    (path : String) :
    (s.router.insertPaths channelName endpoints path = s.router.pathToChannel path ∧
        s.recordPaths channelName endpoints path = s.registered path) ∨
      ∃ e ∈ endpoints, e.path = path ∧ s.router.insertPaths channelName endpoints path = some channelName ∧
        s.recordPaths channelName endpoints path = some (channelName, e) := by
  induction endpoints using List.reverseRecOn with
  | nil => exact .inl ⟨rfl, rfl⟩
  | append_singleton endpoints e ih =>
    have hpaths : s.router.insertPaths channelName (endpoints ++ [e]) =
        Function.update (s.router.insertPaths channelName endpoints) e.path (some channelName) :=
      List.foldl_append ..
    have hrecord : s.recordPaths channelName (endpoints ++ [e]) =
        Function.update (s.recordPaths channelName endpoints) e.path (some (channelName, e)) :=
      List.foldl_append ..
    rw [hpaths, hrecord]
    by_cases hpath : path = e.path
    · refine .inr ⟨e, by simp, hpath.symm, ?_, ?_⟩
      · rw [hpath, Function.update_self]
      · rw [hpath, Function.update_self]
    · rw [Function.update_of_ne hpath, Function.update_of_ne hpath]
      rcases ih with hsame | ⟨e', he', hfound⟩
      · exact .inl hsame
      · exact .inr ⟨e', List.mem_append_left _ he', hfound⟩

/-- A turn changes no entry but those of its channel. -/
theorem turn_same (h : p.changes ≠ some channelName) : s.Same (s.turn p).1 channelName := by
  have hname {name : String} (hchanges : p.changes = some name) : channelName ≠ name := by
    rintro rfl
    exact h hchanges
  cases p with
  | storeChannel channel endpoints secret header =>
    have hother := hname rfl
    refine ⟨Function.update_of_ne hother _ _, rfl, fun object hobject => ?_, fun _ hpath => ⟨hpath, rfl⟩⟩
    apply Function.update_of_ne
    rintro rfl
    exact hother hobject.symm
  | storePaths channel endpoints secret header =>
    refine ⟨rfl, rfl, fun _ _ => rfl, fun path hpath => ?_⟩
    rcases s.storePaths_path channel.name endpoints path with ⟨hsame, hrecord⟩ | ⟨_, _, _, hself, _⟩
    · exact ⟨hsame.symm.trans hpath, hrecord⟩
    · exact absurd (Option.some.inj (hpath.symm.trans hself)) (hname rfl)
  | storeSecret channel secret header =>
    cases secret with
    | none => exact .rfl
    | some secret =>
      exact ⟨rfl, Function.update_of_ne (hname rfl) _ _, fun _ _ => rfl, fun _ hpath => ⟨hpath, rfl⟩⟩
  | storeHeader channel header =>
    cases header with
    | none => exact .rfl
    | some header => exact ⟨rfl, rfl, fun _ _ => rfl, fun _ hpath => ⟨hpath, rfl⟩⟩
  | removeChannel name =>
    exact ⟨Function.update_of_ne (hname rfl) _ _, rfl, fun _ _ => rfl, fun _ hpath => ⟨hpath, rfl⟩⟩
  | removeSecret name =>
    exact ⟨rfl, Function.update_of_ne (hname rfl) _ _, fun _ _ => rfl, fun _ hpath => ⟨hpath, rfl⟩⟩
  | removeHeader name => exact ⟨rfl, rfl, fun _ _ => rfl, fun _ hpath => ⟨hpath, rfl⟩⟩
  | removePaths name =>
    refine ⟨rfl, rfl, fun _ _ => rfl, fun path hpath => ⟨?_, rfl⟩⟩
    simp only [turn, WasmChannelRouter.retainPaths] at hpath
    split at hpath
    · cases hpath
    · exact hpath
  | findPath webhook =>
    simp only [turn]
    split <;> exact .rfl
  | findChannel webhook name registration =>
    simp only [turn]
    split <;> exact .rfl
  | askSecret webhook channel registration =>
    simp only [turn]
    split <;> exact .rfl
  | askHeader webhook channel registration =>
    simp only [turn]
    split <;> exact .rfl
  | validate webhook channel registration secret =>
    simp only [turn]
    split <;> exact .rfl
  | askAgain webhook channel registration validated => exact .rfl
  | returned reply => exact .rfl

/-- A turn of a call that leaves the secret of its channel alone. -/
theorem turn_milder (h : p.exclusive = false) : s.Milder (s.turn p).1 channelName := by
  by_cases hchanges : p.changes = some channelName
  · cases p with
    | storeChannel channel endpoints secret header =>
      have hnone : secret = none := Option.not_isSome_iff_eq_none.mp (by simpa [Phase.exclusive] using h)
      refine ⟨rfl, fun object found _ hfound => ?_⟩
      simp only [turn, hnone, Function.update_apply] at hfound
      split at hfound
      · cases hfound
      · exact hfound
    | storePaths channel endpoints secret header => exact ⟨rfl, fun _ _ _ hfound => hfound⟩
    | storeSecret channel secret header =>
      cases secret with
      | none => exact Same.rfl.milder
      | some secret => cases h
    | removeChannel name => cases h
    | removeSecret name => cases h
    | removeHeader name => cases h
    | removePaths name => cases h
    | _ => cases hchanges
  · exact (turn_same hchanges).milder

private theorem Kept.of_same (h : s.Same t channelName) (hs : s.Kept channelName)
    (hnamed : ∀ channel, s.router.channels channelName = some channel → channel.name = channelName) :
    t.Kept channelName := by
  refine ⟨fun channel hchannel secret hsecret => ?_, fun path e hpath hregistered hrequire => ?_⟩
  · rw [h.channels] at hchannel
    have hname := hnamed channel hchannel
    rw [h.secretOf channel hname] at hsecret
    rw [hname, h.secrets, ← hname]
    exact hs.secret channel hchannel secret hsecret
  · obtain ⟨hbefore, hsame⟩ := h.paths path hpath
    rw [hsame] at hregistered
    simp only [WasmChannelRouter.requiresSecret, h.secrets]
    exact hs.required path e hbefore hregistered hrequire

private theorem Matched.of_milder {webhook : Webhook} {registration : Option Registration}
    (h : s.Milder t channelName) (hs : s.Matched webhook channelName registration) :
    t.Matched webhook channelName registration := by
  obtain ⟨e, hregistration, hmethod, hrequire⟩ := hs
  refine ⟨e, hregistration, hmethod, fun hasked => ?_⟩
  simp only [WasmChannelRouter.requiresSecret, h.secrets]
  exact hrequire hasked

private theorem SecretStored.of_milder {channel : WasmChannel} (h : s.Milder t channel.name)
    (hs : s.SecretStored channel) : t.SecretStored channel := by
  intro secret hsecret
  rw [h.secrets]
  exact hs secret (h.secretOf channel secret rfl hsecret)

/-- What a call that leaves the secret of its channel alone relies on, others like it do not change. -/
private theorem holds_of_milder (hconcerns : q.concerns = some channelName) (hq : q.exclusive = false)
    (h : s.Milder t channelName) (hs : s.Holds q) : t.Holds q := by
  cases q with
  | storePaths channel endpoints secret header =>
    intro hsome
    exact absurd hsome (by simpa [Phase.exclusive] using hq)
  | storeSecret channel secret header =>
    intro hsome
    exact absurd hsome (by simpa [Phase.exclusive] using hq)
  | removeSecret name => cases hq
  | removeHeader name => cases hq
  | removePaths name => cases hq
  | findChannel webhook name registration =>
    cases hconcerns
    exact hs.of_milder h
  | askSecret webhook channel registration =>
    cases hconcerns
    exact ⟨hs.1.of_milder h, hs.2.of_milder h⟩
  | askHeader webhook channel registration =>
    cases hconcerns
    exact ⟨hs.1.of_milder h, hs.2.of_milder h⟩
  | validate webhook channel registration secret =>
    cases hconcerns
    exact ⟨hs.1.of_milder h, hs.2.1.of_milder h, hs.2.2⟩
  | askAgain webhook channel registration validated =>
    cases hconcerns
    refine ⟨hs.1, fun secret hsecret => hs.2.1 secret (h.secretOf channel secret rfl hsecret), hs.2.2.1,
      fun hasked => hs.2.2.2 ?_⟩
    simpa only [WasmChannelRouter.requiresSecret, h.secrets] using hasked
  | _ => trivial

/-- What a call relies on, calls on other channels do not change. -/
private theorem holds_of_same (hconcerns : q.concerns = some channelName) (h : s.Same t channelName)
    (hs : s.Holds q) : t.Holds q := by
  cases hq : q.exclusive with
  | false => exact holds_of_milder hconcerns hq h.milder hs
  | true =>
    cases q with
    | storePaths channel endpoints secret header =>
      cases hconcerns
      intro hsome
      rw [h.channels, h.secretOf channel rfl]
      exact hs hsome
    | storeSecret channel secret header =>
      cases hconcerns
      intro hsome
      rw [h.channels, h.secretOf channel rfl]
      exact hs hsome
    | removeSecret name =>
      cases hconcerns
      exact h.channels.trans hs
    | removeHeader name =>
      cases hconcerns
      exact h.channels.trans hs
    | removePaths name =>
      cases hconcerns
      exact h.channels.trans hs
    | storeChannel channel endpoints secret header => trivial
    | removeChannel name => trivial
    | _ => cases hq

/-- A call whose turn changes a channel is on it, or begins there. -/
private theorem changes_clear (hchanges : p.changes = some channelName) (hallows : s.allows p = true) :
    p.concerns = some channelName ∨ s.clear channelName p.exclusive = true := by
  cases p with
  | storeChannel channel endpoints secret header =>
    cases hchanges
    exact .inr hallows
  | removeChannel name =>
    cases hchanges
    exact .inr hallows
  | storePaths channel endpoints secret header => exact .inl hchanges
  | storeSecret channel secret header => exact .inl hchanges
  | removeSecret name => exact .inl hchanges
  | removeHeader name => exact .inl hchanges
  | removePaths name => exact .inl hchanges
  | _ => cases hchanges

/-- A call that is on a channel after its turn was on it, or begins there. -/
private theorem next_clear
    (hnamed : ∀ name channel, s.router.channels name = some channel → channel.name = name)
    (hallows : s.allows p = true) (hnext : (s.turn p).2.1.concerns = some channelName) :
    (p.concerns = some channelName ∧ (s.turn p).2.1.exclusive = p.exclusive) ∨
      s.clear channelName (s.turn p).2.1.exclusive = true := by
  cases p with
  | storeChannel channel endpoints secret header =>
    cases hnext
    exact .inr hallows
  | storePaths channel endpoints secret header => exact .inl ⟨hnext, rfl⟩
  | storeSecret channel secret header => cases secret <;> cases hnext
  | storeHeader channel header => cases header <;> cases hnext
  | removeChannel name =>
    cases hnext
    exact .inr hallows
  | removeSecret name => exact .inl ⟨hnext, rfl⟩
  | removeHeader name => exact .inl ⟨hnext, rfl⟩
  | removePaths name => cases hnext
  | findPath webhook =>
    simp only [turn] at hnext ⊢
    split at hnext
    · cases hnext
    · next owner hpath =>
      cases hnext
      exact .inr (allows_findPath.mp hallows _ hpath).1
  | findChannel webhook name registration =>
    simp only [turn] at hnext ⊢
    split at hnext
    · cases hnext
    · next channel hchannel =>
      cases hnext
      exact .inl ⟨congrArg some (hnamed name channel hchannel).symm, rfl⟩
  | askSecret webhook channel registration =>
    simp only [turn] at hnext ⊢
    split at hnext
    · next hasked => exact .inl ⟨hnext, by rw [if_pos hasked]; rfl⟩
    · next hasked => exact .inl ⟨hnext, by rw [if_neg hasked]; rfl⟩
  | askHeader webhook channel registration =>
    simp only [turn] at hnext ⊢
    split at hnext
    · exact .inl ⟨hnext, rfl⟩
    · cases hnext
  | validate webhook channel registration secret =>
    simp only [turn] at hnext ⊢
    split at hnext
    · next hright => exact .inl ⟨hnext, by rw [if_pos hright]; rfl⟩
    · cases hnext
  | askAgain webhook channel registration validated => cases hnext
  | returned reply => cases hnext

/-- After its own turn, a call has what it relies on. -/
private theorem holds_next (hs : s.Sound) {i : Nat} (hp : s.calls[i]? = some p)
    (hallows : s.allows p = true) : (s.turn p).1.Holds (s.turn p).2.1 := by
  have hmem := List.mem_of_getElem? hp
  have hholds := hs.holds p hmem
  cases p with
  | storeChannel channel endpoints secret header =>
    exact fun _ => ⟨Function.update_self .., Function.update_self ..⟩
  | storePaths channel endpoints secret header => exact hholds
  | storeSecret channel secret header => cases secret <;> trivial
  | storeHeader channel header => cases header <;> trivial
  | removeChannel name => exact Function.update_self ..
  | removeSecret name => exact hholds
  | removeHeader name => exact hholds
  | removePaths name => trivial
  | findPath webhook =>
    simp only [turn]
    split
    · trivial
    · next owner hpath =>
      obtain ⟨hclear, hmethods⟩ := allows_findPath.mp hallows owner hpath
      obtain ⟨e, hregistered⟩ := hs.known _ _ hpath
      have hkept := hs.kept owner fun other hother hconcerns => (clear_iff.mp hclear other hother hconcerns).2
      exact ⟨e, hregistered, hmethods _ hregistered, hkept.required _ e hpath hregistered⟩
  | findChannel webhook name registration =>
    simp only [turn]
    split
    · trivial
    · next channel hchannel =>
      have hname := hs.named name channel hchannel
      have hkept : s.Kept name := by
        refine hs.kept name fun other hother hconcerns => ?_
        obtain ⟨j, hj⟩ := List.mem_iff_getElem?.mp hother
        by_cases hij : i = j
        · rw [← hij, hp] at hj
          cases hj
          rfl
        · exact (hs.alone i j _ other hij hp hj name rfl hconcerns).2
      refine ⟨?_, hkept.secret channel hchannel⟩
      rw [hname]
      exact hholds
  | askSecret webhook channel registration =>
    obtain ⟨⟨e, hregistration, hmethod, hrequire⟩, hstored⟩ := hholds
    simp only [turn]
    split
    · exact ⟨⟨e, hregistration, hmethod, hrequire⟩, hstored⟩
    · next hasked =>
      refine ⟨⟨e, hregistration, hmethod, fun h => absurd (hrequire h) hasked⟩, fun secret hsecret => ?_,
        fun _ h => ?_, fun h => absurd h hasked⟩
      · have hfound := hstored secret hsecret
        exact absurd (by simp [WasmChannelRouter.requiresSecret, hfound]) hasked
      · cases h
  | askHeader webhook channel registration =>
    simp only [turn]
    split
    · next secret hprovided => exact ⟨hholds.1, hholds.2, _, hprovided⟩
    · trivial
  | validate webhook channel registration secret =>
    obtain ⟨⟨e, hregistration, hmethod, hrequire⟩, hstored, hcarried⟩ := hholds
    simp only [turn]
    split
    · next hright =>
      cases hexpected : s.router.secrets channel.name with
      | none =>
        have hasked : s.router.requiresSecret channel.name = false := by
          simp [WasmChannelRouter.requiresSecret, hexpected]
        simp only [hasked] at hrequire ⊢
        refine ⟨⟨e, hregistration, hmethod, fun h => ?_⟩, fun found hfound => ?_, fun _ h => ?_, fun h => ?_⟩
        · exact absurd (hrequire h) (by decide)
        · exact absurd (hexpected.symm.trans (hstored found hfound)) (by simp)
        · cases h
        · exact absurd (hasked.symm.trans h) (by decide)
      | some expected =>
        have hasked : s.router.requiresSecret channel.name = true := by
          simp [WasmChannelRouter.requiresSecret, hexpected]
        have hsame : expected = secret := by
          simpa [WasmChannelRouter.validateSecret, hexpected] using hright
        simp only [hasked, if_true]
        refine ⟨⟨e, hregistration, hmethod, fun _ => rfl⟩, fun found hfound => ?_, fun _ h => ?_, fun _ => rfl⟩
        · rw [← hsame, ← hexpected]
          exact hstored found hfound
        · cases h
          exact hcarried
    · trivial
  | askAgain webhook channel registration validated => trivial
  | returned reply => trivial

/-- Where no call that is left changes the secret of a channel, the tables agree on it. -/
private theorem kept_turn (hs : s.Sound) {i : Nat} (hp : s.calls[i]? = some p)
    (hallows : s.allows p = true)
    (hnext : (s.turn p).2.1.concerns = some channelName → (s.turn p).2.1.exclusive = false)
    (hothers : ∀ j q, i ≠ j → s.calls[j]? = some q → q.concerns = some channelName → q.exclusive = false) :
    (s.turn p).1.Kept channelName := by
  have hmem := List.mem_of_getElem? hp
  have hholds := hs.holds p hmem
  have hkept (hself : p.concerns = some channelName → p.exclusive = false) : s.Kept channelName := by
    refine hs.kept channelName fun q hq hconcerns => ?_
    obtain ⟨j, hj⟩ := List.mem_iff_getElem?.mp hq
    by_cases hij : i = j
    · rw [← hij, hp] at hj
      cases hj
      exact hself hconcerns
    · exact hothers j q hij hj hconcerns
  by_cases hchanges : p.changes = some channelName
  · cases p with
    | storeChannel channel endpoints secret header =>
      cases hchanges
      have hnone : secret = none :=
        Option.not_isSome_iff_eq_none.mp (by simpa [turn, Phase.exclusive] using hnext rfl)
      have hagree := hkept fun h => by cases h
      subst hnone
      refine ⟨fun object hobject found hfound => ?_, hagree.required⟩
      simp only [turn, Function.update_self, Option.some.injEq] at hobject
      subst hobject
      simp [turn] at hfound
    | storePaths channel endpoints secret header =>
      cases hchanges
      have hnone : secret = none :=
        Option.not_isSome_iff_eq_none.mp (by simpa [turn, Phase.exclusive] using hnext rfl)
      subst hnone
      have hagree := hkept fun _ => rfl
      refine ⟨hagree.secret, fun path e hpath hregistered hrequire => ?_⟩
      rcases s.storePaths_path channel.name endpoints path with ⟨hsame, hrecord⟩ | ⟨e', he', _, _, hrecord⟩
      · exact hagree.required path e (hsame.symm.trans hpath) (hrecord.symm.trans hregistered) hrequire
      · cases hrecord.symm.trans hregistered
        exact ((allows_storePaths.mp hallows e he').2 hrequire).resolve_left (by simp)
    | storeSecret channel secret header =>
      cases hchanges
      cases secret with
      | none => exact hkept fun _ => rfl
      | some secret =>
        obtain ⟨hchannel, hsecret⟩ := hholds rfl
        refine ⟨fun object hobject found hfound => ?_, fun _ _ _ _ _ => ?_⟩
        · cases hchannel.symm.trans hobject
          exact (Function.update_self ..).trans (hsecret.symm.trans hfound)
        · simp [turn, WasmChannelRouter.requiresSecret]
    | removeChannel name =>
      cases hchanges
      cases hnext rfl
    | removeSecret name =>
      cases hchanges
      cases hnext rfl
    | removeHeader name =>
      cases hchanges
      cases hnext rfl
    | removePaths name =>
      cases hchanges
      refine ⟨fun channel hchannel => ?_, fun path _ hpath => ?_⟩
      · exact absurd (hholds.symm.trans hchannel) (by simp)
      · simp only [turn, WasmChannelRouter.retainPaths] at hpath
        split at hpath
        · cases hpath
        · next hother => exact absurd hpath hother
    | _ => cases hchanges
  · have hself : p.concerns = some channelName → p.exclusive = false := by
      intro hconcerns
      cases p with
      | storePaths channel endpoints secret header => exact absurd hconcerns hchanges
      | storeSecret channel secret header => exact absurd hconcerns hchanges
      | removeSecret name => exact absurd hconcerns hchanges
      | removeHeader name => exact absurd hconcerns hchanges
      | removePaths name => exact absurd hconcerns hchanges
      | storeChannel channel endpoints secret header => cases hconcerns
      | removeChannel name => cases hconcerns
      | _ => rfl
    exact (hkept hself).of_same (turn_same hchanges) (hs.named channelName)

/-- The other calls keep what they rely on. -/
private theorem holds_others (hs : s.Sound) {i j : Nat} (hij : i ≠ j) (hp : s.calls[i]? = some p)
    (hallows : s.allows p = true) (hq : s.calls[j]? = some q) : (s.turn p).1.Holds q := by
  have hholds := hs.holds q (List.mem_of_getElem? hq)
  cases hconcerns : q.concerns with
  | none =>
    cases q with
    | storeChannel channel endpoints secret header => trivial
    | storeHeader channel header => trivial
    | removeChannel name => trivial
    | findPath webhook => trivial
    | returned reply => trivial
    | _ => cases hconcerns
  | some name =>
    by_cases hchanges : p.changes = some name
    · obtain ⟨hpsafe, hqsafe⟩ : p.exclusive = false ∧ q.exclusive = false := by
        rcases changes_clear hchanges hallows with hpconcerns | hclear
        · exact hs.alone i j p q hij hp hq name hpconcerns hconcerns
        · exact clear_iff.mp hclear q (List.mem_of_getElem? hq) hconcerns
      exact holds_of_milder hconcerns hqsafe (turn_milder hpsafe) hholds
    · exact holds_of_same hconcerns (turn_same hchanges) hholds

private theorem next_apart (hs : s.Sound) {i j : Nat} (hij : i ≠ j) (hp : s.calls[i]? = some p)
    (hallows : s.allows p = true) (hq : s.calls[j]? = some q) : (s.turn p).2.1.Apart q := by
  intro name hnext hconcerns
  rcases next_clear hs.named hallows hnext with ⟨hpconcerns, hsame⟩ | hclear
  · rw [hsame]
    exact hs.alone i j p q hij hp hq name hpconcerns hconcerns
  · exact clear_iff.mp hclear q (List.mem_of_getElem? hq) hconcerns

private theorem named_turn (hs : s.Sound) (p : Phase) (name : String) (channel : WasmChannel)
    (h : (s.turn p).1.router.channels name = some channel) : channel.name = name := by
  by_cases hchanges : p.changes = some name
  · cases p with
    | storeChannel stored endpoints secret header =>
      cases hchanges
      cases (Function.update_self ..).symm.trans h
      rfl
    | storePaths stored endpoints secret header => exact hs.named name channel h
    | storeSecret stored secret header => cases secret <;> exact hs.named name channel h
    | removeChannel removed =>
      cases hchanges
      cases (Function.update_self ..).symm.trans h
    | removeSecret removed => exact hs.named name channel h
    | removeHeader removed => exact hs.named name channel h
    | removePaths removed => exact hs.named name channel h
    | _ => cases hchanges
  · exact hs.named name channel ((turn_same hchanges).channels.symm.trans h)

private theorem known_turn (hs : s.Sound) (p : Phase) (path name : String)
    (h : (s.turn p).1.router.pathToChannel path = some name) :
    ∃ e, (s.turn p).1.registered path = some (name, e) := by
  by_cases hchanges : p.changes = some name
  · cases p with
    | storeChannel stored endpoints secret header => exact hs.known path name h
    | storePaths stored endpoints secret header =>
      rcases s.storePaths_path stored.name endpoints path with ⟨hsame, hrecord⟩ | ⟨e, _, _, hself, hrecord⟩
      · obtain ⟨e, he⟩ := hs.known path name (hsame.symm.trans h)
        exact ⟨e, hrecord.trans he⟩
      · cases hself.symm.trans h
        exact ⟨e, hrecord⟩
    | storeSecret stored secret header => cases secret <;> exact hs.known path name h
    | removeChannel removed => exact hs.known path name h
    | removeSecret removed => exact hs.known path name h
    | removeHeader removed => exact hs.known path name h
    | removePaths removed =>
      simp only [turn, WasmChannelRouter.retainPaths] at h
      split at h
      · cases h
      · exact hs.known path name h
    | _ => cases hchanges
  · obtain ⟨hbefore, hsame⟩ := (turn_same hchanges).paths path h
    rw [hsame]
    exact hs.known path name hbefore

/-- A turn that leaves nothing open keeps the server sound. -/
private theorem sound_turn (hs : s.Sound) {i : Nat} (hp : s.calls[i]? = some p)
    (hallows : s.allows p = true) :
    Sound { (s.turn p).1 with calls := s.calls.set i (s.turn p).2.1 } := by
  have hlt := (List.getElem?_eq_some_iff.mp hp).1
  have hself : (s.calls.set i (s.turn p).2.1)[i]? = some (s.turn p).2.1 := List.getElem?_set_self hlt
  have hother {j : Nat} (hij : i ≠ j) : (s.calls.set i (s.turn p).2.1)[j]? = s.calls[j]? :=
    List.getElem?_set_ne hij
  refine ⟨named_turn hs p, known_turn hs p, ?_, fun name hnone => ?_, fun q hq => ?_⟩
  · intro j k q r hjk hq hr
    by_cases hij : i = j
    · subst hij
      rw [hself] at hq
      rw [hother hjk] at hr
      cases hq
      exact next_apart hs hjk hp hallows hr
    · by_cases hik : i = k
      · subst hik
        rw [hself] at hr
        rw [hother hij] at hq
        cases hr
        exact (next_apart hs hij hp hallows hq).symm
      · rw [hother hij] at hq
        rw [hother hik] at hr
        exact hs.alone j k q r hjk hq hr
  · have hkept : (s.turn p).1.Kept name := by
      apply kept_turn hs hp hallows
      · exact hnone _ (List.mem_of_getElem? hself)
      · intro j q hij hq
        exact hnone q (List.mem_of_getElem? ((hother hij).trans hq))
    exact ⟨hkept.secret, hkept.required⟩
  · obtain ⟨j, hj⟩ := List.mem_iff_getElem?.mp hq
    by_cases hij : i = j
    · subst hij
      rw [hself] at hj
      cases hj
      exact holds_next hs hp hallows
    · rw [hother hij] at hj
      exact holds_others hs hij hp hallows hj

private theorem pathsStay_turn (hallows : s.allows p = true) : s.PathsStay (s.turn p).1 := by
  intro path owner name hbefore hafter
  by_cases hchanges : p.changes = some name
  · cases p with
    | storePaths stored endpoints secret header =>
      cases hchanges
      rcases s.storePaths_path stored.name endpoints path with ⟨hsame, _⟩ | ⟨e, he, hpath, _, _⟩
      · exact Option.some.inj ((hsame.symm.trans hafter).symm.trans hbefore)
      · rw [← hpath] at hbefore
        exact ((allows_storePaths.mp hallows e he).1 owner hbefore).symm
    | storeChannel stored endpoints secret header => exact Option.some.inj (hafter.symm.trans hbefore)
    | storeSecret stored secret header => cases secret <;> exact Option.some.inj (hafter.symm.trans hbefore)
    | removeChannel removed => exact Option.some.inj (hafter.symm.trans hbefore)
    | removeSecret removed => exact Option.some.inj (hafter.symm.trans hbefore)
    | removeHeader removed => exact Option.some.inj (hafter.symm.trans hbefore)
    | removePaths removed =>
      simp only [turn, WasmChannelRouter.retainPaths] at hafter
      split at hafter
      · cases hafter
      · exact Option.some.inj (hafter.symm.trans hbefore)
    | _ => cases hchanges
  · have hsame := ((turn_same hchanges).paths path hafter).1
    exact Option.some.inj (hsame.symm.trans hbefore)

private theorem authorized_turn (hs : s.Sound) (hmem : p ∈ s.calls) {d : Dispatch}
    (hd : d ∈ (s.turn p).2.2) : d.Authorized := by
  have hholds := hs.holds p hmem
  cases p with
  | askAgain webhook channel registration validated =>
    cases List.mem_singleton.mp hd
    exact ⟨hholds.1, hholds.2.1, hholds.2.2.1, hholds.2.2.2⟩
  | storeSecret channel secret header => cases secret <;> cases hd
  | storeHeader channel header => cases header <;> cases hd
  | findPath webhook =>
    simp only [turn] at hd
    split at hd <;> cases hd
  | findChannel webhook name registration =>
    simp only [turn] at hd
    split at hd <;> cases hd
  | askSecret webhook channel registration =>
    simp only [turn] at hd
    split at hd <;> cases hd
  | askHeader webhook channel registration =>
    simp only [turn] at hd
    split at hd <;> cases hd
  | validate webhook channel registration secret =>
    simp only [turn] at hd
    split at hd <;> cases hd
  | _ => cases hd

end Turns

theorem sound_new : Sound .new := by
  refine ⟨fun _ _ h => ?_, fun _ _ h => ?_, fun _ _ _ _ _ h => ?_, fun _ _ => ⟨fun _ h => ?_, fun _ _ h => ?_⟩,
    fun _ h => ?_⟩
  all_goals cases h

/-- A call that starts is on no channel yet. -/
private theorem sound_call {s : Server} {phase : Phase} (hs : s.Sound) (hbegins : begins phase = true) :
    Sound { s with calls := s.calls ++ [phase] } := by
  have hnone : phase.concerns = none := by
    cases phase with
    | storeChannel channel endpoints secret header => rfl
    | removeChannel name => rfl
    | findPath webhook => rfl
    | _ => cases hbegins
  have hholds : s.Holds phase := by
    cases phase with
    | storeChannel channel endpoints secret header => trivial
    | removeChannel name => trivial
    | findPath webhook => trivial
    | _ => cases hbegins
  have hcalls {j : Nat} {q : Phase} (hq : (s.calls ++ [phase])[j]? = some q) :
      s.calls[j]? = some q ∨ q.concerns = none := by
    rw [List.getElem?_append] at hq
    split at hq
    · exact .inl hq
    · have hlast := List.mem_singleton.mp (List.mem_of_getElem? hq)
      exact .inr (hlast ▸ hnone)
  refine ⟨hs.named, hs.known, ?_, fun name hcalm => ?_, fun q hq => ?_⟩
  · intro i j p q hij hp hq name hpconcerns hqconcerns
    rcases hcalls hp with hp | hp
    · rcases hcalls hq with hq | hq
      · exact hs.alone i j p q hij hp hq name hpconcerns hqconcerns
      · cases hq.symm.trans hqconcerns
    · cases hp.symm.trans hpconcerns
  · have hkept := hs.kept name fun q hq => hcalm q (List.mem_append_left _ hq)
    exact ⟨hkept.secret, hkept.required⟩
  · rcases List.mem_append.mp hq with hq | hq
    · exact hs.holds q hq
    · cases List.mem_singleton.mp hq
      exact hholds

theorem step_absent {s : Server} {index : Nat} (h : s.calls[index]? = none) :
    s.step (.proceed index) = (s, []) := by
  simp only [step, h]

theorem step_waiting {s : Server} {index : Nat} {p : Phase} (h : s.calls[index]? = some p)
    (hwaits : s.waits p = true) : s.step (.proceed index) = (s, []) := by
  simp only [step, h, hwaits, if_true]

theorem step_turn {s : Server} {index : Nat} {p : Phase} (h : s.calls[index]? = some p)
    (hwaits : s.waits p = false) : s.step (.proceed index) =
      ({ (s.turn p).1 with calls := s.calls.set index (s.turn p).2.1 }, (s.turn p).2.2) := by
  simp only [step, h, hwaits, Bool.false_eq_true, if_false]

/-- What the property asks of a step. -/
def Guarded (s : Server) (op : Op) : Prop :=
  s.PathsStay (s.step op).1 ∧ ∀ d ∈ (s.step op).2, d.Authorized

private theorem pathsStay_rfl (s : Server) : s.PathsStay s :=
  fun _ _ _ hbefore hafter => Option.some.inj (hafter.symm.trans hbefore)

/-- An orderly step is guarded and leaves the server sound. -/
private theorem step_orderly {s : Server} {op : Op} (horderly : s.orderly op = true) (hs : s.Sound) :
    (s.step op).1.Sound ∧ s.Guarded op := by
  unfold Guarded
  cases op with
  | call phase =>
    simp only [step]
    split
    · next hbegins => exact ⟨sound_call hs hbegins, pathsStay_rfl s, fun d hd => by cases hd⟩
    · exact ⟨hs, pathsStay_rfl s, fun d hd => by cases hd⟩
  | proceed index =>
    cases hp : s.calls[index]? with
    | none =>
      rw [step_absent hp]
      exact ⟨hs, pathsStay_rfl s, fun d hd => by cases hd⟩
    | some p =>
      cases hwaits : s.waits p with
      | true =>
        rw [step_waiting hp hwaits]
        exact ⟨hs, pathsStay_rfl s, fun d hd => by cases hd⟩
      | false =>
        have hallows : s.allows p = true := by
          simpa only [orderly, hp, Option.all_some, hwaits, Bool.false_or] using horderly
        rw [step_turn hp hwaits]
        exact ⟨sound_turn hs hp hallows, pathsStay_turn hallows, fun d hd =>
          authorized_turn hs (List.mem_of_getElem? hp) hd⟩

/-- In a run of orderly steps every dispatch is authorized, and no path goes over from one channel to
another. -/
theorem webhooks_guarded (ops : List Op)
    (h : ∀ p ∈ visited step .new ops, orderly p.1 p.2 = true) :
    ∀ p ∈ visited step .new ops, p.1.Guarded p.2 := by
  have hsound := visited_invariant_of (fun s op => s.orderly op = true) Sound sound_new
    (fun s op horderly hs => (step_orderly horderly hs).1) ops h
  exact fun p hp => (step_orderly (h p hp) (hsound p hp)).2

private def telegram : WasmChannel := ⟨"telegram", 0⟩

private def telegramWebhook : RegisteredEndpoint := ⟨"telegram", "/webhook/telegram", ["POST"], true⟩

private def registerTelegram : List Op :=
  .call (.register telegram [telegramWebhook] (some "s3cret") none) :: List.replicate 4 (.proceed 0)

private def requestTelegram (method : String) (secret : Option String) : List Op :=
  .call (.request ⟨method, "telegram", secret, []⟩) :: List.replicate 6 (.proceed 1)

theorem webhooks_guarded_telegram :
    (visited step .new (registerTelegram ++ requestTelegram "POST" (some "s3cret"))).length = 12 ∧
      ∀ p ∈ visited step .new (registerTelegram ++ requestTelegram "POST" (some "s3cret")),
        p.1.Guarded p.2 :=
  ⟨by decide +kernel, webhooks_guarded _ (List.all_eq_true.mp (by decide +kernel))⟩

/-- A request with a method that the endpoint does not list is dispatched. -/
theorem get_is_dispatched :
    ¬ ∀ p ∈ visited step .new (registerTelegram ++ requestTelegram "GET" (some "s3cret")),
      p.1.Guarded p.2 := by
  intro hall
  have hlog : ((run step .new (registerTelegram ++ requestTelegram "GET" (some "s3cret"))).2.map
      fun d => (d.webhook.method, d.registration)) =
        [("GET", some ("telegram", telegramWebhook))] := by decide +kernel
  have hmem : ("GET", some ("telegram", telegramWebhook)) ∈
      (run step .new (registerTelegram ++ requestTelegram "GET" (some "s3cret"))).2.map
        fun d => (d.webhook.method, d.registration) := by
    rw [hlog]
    exact List.mem_singleton.mpr rfl
  obtain ⟨d, hd, hwhat⟩ := List.mem_map.mp hmem
  obtain ⟨hmethod, hregistration⟩ := Prod.mk.inj hwhat
  rw [run_log] at hd
  obtain ⟨p, hp, hdispatched⟩ := List.mem_flatMap.mp hd
  obtain ⟨e, hendpoint, hlisted, -⟩ := ((hall p hp).2 d hdispatched).endpoint
  have hsame := (Prod.mk.inj (Option.some.inj (hregistration.symm.trans hendpoint))).2
  rw [hmethod, ← hsame] at hlisted
  exact absurd hlisted (by decide)

end Server

end Gyre.Channels.Wasm
