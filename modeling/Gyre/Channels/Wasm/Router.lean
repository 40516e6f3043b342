/- digest: The webhook router of WASM channels: its tables, and calls that take turns on them. -/

import Mathlib.Logic.Function.Basic

/-!
Each table has a lock of its own, so that calls interleave between any two uses of them. The lock of the
paths is the exception: a registration writes under it until it returns, and a request reads under it
until it has found its channel.
-/

set_option autoImplicit false
set_option relaxedAutoImplicit false

namespace Gyre.Channels.Wasm

/-- A channel object, `Arc<WasmChannel>`. -/
structure WasmChannel where
  name : String
  object : Nat
  deriving DecidableEq, Repr

/-- A registered HTTP endpoint for a WASM channel. -/
structure RegisteredEndpoint where
  channelName : String
  path : String
  methods : List String
  requireSecret : Bool
  deriving DecidableEq, Repr

structure WasmChannelRouter where
  channels : String → Option WasmChannel
  pathToChannel : String → Option String
  secrets : String → Option String
  secretHeaders : String → Option String

namespace WasmChannelRouter

def new : WasmChannelRouter := ⟨fun _ => none, fun _ => none, fun _ => none, fun _ => none⟩

def defaultSecretHeader : String := "X-Webhook-Secret"

/-- `get_secret_header`. -/
def getSecretHeader (r : WasmChannelRouter) (channelName : String) : String :=
  (r.secretHeaders channelName).getD defaultSecretHeader

/-- `requires_secret`. -/
def requiresSecret (r : WasmChannelRouter) (channelName : String) : Bool := (r.secrets channelName).isSome

/-- `validate_secret`. -/
def validateSecret (r : WasmChannelRouter) (channelName provided : String) : Bool :=
  match r.secrets channelName with
  | some expected => expected = provided
  | none => true

/-- The path mappings of a registration, which look at nothing else of the endpoints. -/
def insertPaths (r : WasmChannelRouter) (name : String) (endpoints : List RegisteredEndpoint) :
    String → Option String :=
  endpoints.foldl (fun paths e => Function.update paths e.path (some name)) r.pathToChannel

/-- The paths without those of a channel. -/
def retainPaths (r : WasmChannelRouter) (channelName : String) : String → Option String :=
  fun path => if r.pathToChannel path = some channelName then none else r.pathToChannel path

end WasmChannelRouter

/-- A webhook request, with the `secret` of its query; header names are in lower case, and a header that
is not text has no value. -/
structure Webhook where
  method : String
  path : String
  querySecret : Option String
  headers : List (String × Option String)
  deriving DecidableEq, Repr

def Webhook.fullPath (w : Webhook) : String := "/webhook/" ++ w.path

def Webhook.header (w : Webhook) (name : String) : Option String :=
  (w.headers.find? fun h => decide (h.1 = name.toLower)).bind Prod.snd

/-- The secret a request carries: in its query, in the channel's header, or in the default one. -/
def Webhook.providedSecret (w : Webhook) (secretHeaderName : String) : Option String :=
  w.querySecret.or <| (w.header secretHeaderName).or <|
    if secretHeaderName ≠ WasmChannelRouter.defaultSecretHeader then
      w.header WasmChannelRouter.defaultSecretHeader
    else none

inductive Reply where
  | done
  | notFound (path : String)
  | unauthorized (error : String)
  | called (secretValidated : Bool)
  deriving DecidableEq, Repr

/-- The channel and the endpoint that a path was last registered with. -/
abbrev Registration := String × RegisteredEndpoint

/-- What a call is about to do. A request remembers, for nothing to look at, how its path was registered
when it was looked up and which secret was found to be right. -/
inductive Phase where
  | storeChannel (channel : WasmChannel) (endpoints : List RegisteredEndpoint)
      (secret secretHeader : Option String)
  | storePaths (channel : WasmChannel) (endpoints : List RegisteredEndpoint)
      (secret secretHeader : Option String)
  | storeSecret (channel : WasmChannel) (secret secretHeader : Option String)
  | storeHeader (channel : WasmChannel) (secretHeader : Option String)
  | removeChannel (channelName : String)
  | removeSecret (channelName : String)
  | removeHeader (channelName : String)
  | removePaths (channelName : String)
  | findPath (webhook : Webhook)
  | findChannel (webhook : Webhook) (channelName : String) (registration : Option Registration)
  | askSecret (webhook : Webhook) (channel : WasmChannel) (registration : Option Registration)
  | askHeader (webhook : Webhook) (channel : WasmChannel) (registration : Option Registration)
  | validate (webhook : Webhook) (channel : WasmChannel) (registration : Option Registration)
      (secret : String)
  | askAgain (webhook : Webhook) (channel : WasmChannel) (registration : Option Registration)
      (validated : Option String)
  | returned (reply : Reply)
  deriving DecidableEq, Repr

namespace Phase

/-- `register`. -/
def register (channel : WasmChannel) (endpoints : List RegisteredEndpoint)
    (secret secretHeader : Option String) : Phase := storeChannel channel endpoints secret secretHeader

/-- `unregister`. -/
def unregister (channelName : String) : Phase := removeChannel channelName

/-- `webhook_handler`. -/
def request (webhook : Webhook) : Phase := findPath webhook

/-- A call holds the lock of the paths for writing. -/
def writesPaths : Phase → Bool
  | storeSecret _ _ _ | storeHeader _ _ => true
  | _ => false

/-- A call holds the lock of the paths for reading. -/
def readsPaths : Phase → Bool
  | findChannel _ _ _ => true
  | _ => false

/-- What a call waits for that others hold. -/
def waitsFor (p other : Phase) : Bool :=
  match p with
  | storePaths _ _ _ _ | removePaths _ => other.writesPaths || other.readsPaths
  | findPath _ => other.writesPaths
  | _ => false

end Phase

/-- A dispatch of a request to a channel object: with the secret the object was registered with, the one
that was found right, and the flag that the guest is passed. -/
structure Dispatch where
  webhook : Webhook
  channel : WasmChannel
  registration : Option Registration
  registeredSecret : Option String
  validated : Option String
  secretValidated : Bool
  deriving DecidableEq, Repr

/-- The router with the calls on it. The last two fields remember, for no call to look at, how paths and
channel objects were last registered. -/
structure Server where
  router : WasmChannelRouter
  calls : List Phase
  registered : String → Option Registration
  secretOf : WasmChannel → Option String

namespace Server

def new : Server := ⟨.new, [], fun _ => none, fun _ => none⟩

/-- A call has to wait for another one. -/
def waits (s : Server) (p : Phase) : Bool := s.calls.any fun other => p.waitsFor other

/-- How a registration leaves the endpoints of paths. -/
def recordPaths (s : Server) (name : String) (endpoints : List RegisteredEndpoint) :
    String → Option Registration :=
  endpoints.foldl (fun registered e => Function.update registered e.path (some (name, e))) s.registered

/-- One turn of a call that need not wait: its next phase, and the server with the tables it leaves. -/
def turn (s : Server) : Phase → Server × Phase × List Dispatch
  | .storeChannel channel endpoints secret header =>
    ({ s with
        router := { s.router with
          channels := Function.update s.router.channels channel.name (some channel) }
        secretOf := Function.update s.secretOf channel secret },
      .storePaths channel endpoints secret header, [])
  | .storePaths channel endpoints secret header =>
    ({ s with
        router := { s.router with pathToChannel := s.router.insertPaths channel.name endpoints }
        registered := s.recordPaths channel.name endpoints },
      .storeSecret channel secret header, [])
  | .storeSecret channel (some secret) header =>
    ({ s with router := { s.router with
        secrets := Function.update s.router.secrets channel.name (some secret) } },
      .storeHeader channel header, [])
  | .storeSecret channel none header => (s, .storeHeader channel header, [])
  | .storeHeader channel (some header) =>
    ({ s with router := { s.router with
        secretHeaders := Function.update s.router.secretHeaders channel.name (some header) } },
      .returned .done, [])
  | .storeHeader _ none => (s, .returned .done, [])
  | .removeChannel name =>
    ({ s with router := { s.router with channels := Function.update s.router.channels name none } },
      .removeSecret name, [])
  | .removeSecret name =>
    ({ s with router := { s.router with secrets := Function.update s.router.secrets name none } },
      .removeHeader name, [])
  | .removeHeader name =>
    ({ s with router := { s.router with
        secretHeaders := Function.update s.router.secretHeaders name none } },
      .removePaths name, [])
  | .removePaths name =>
    ({ s with router := { s.router with pathToChannel := s.router.retainPaths name } },
      .returned .done, [])
  | .findPath webhook =>
    match s.router.pathToChannel webhook.fullPath with
    | none => (s, .returned (.notFound webhook.fullPath), [])
    | some name => (s, .findChannel webhook name (s.registered webhook.fullPath), [])
  | .findChannel webhook name registration =>
    match s.router.channels name with
    | none => (s, .returned (.notFound webhook.fullPath), [])
    | some channel => (s, .askSecret webhook channel registration, [])
  | .askSecret webhook channel registration =>
    if s.router.requiresSecret channel.name then (s, .askHeader webhook channel registration, [])
    else (s, .askAgain webhook channel registration none, [])
  | .askHeader webhook channel registration =>
    match webhook.providedSecret (s.router.getSecretHeader channel.name) with
    | some secret => (s, .validate webhook channel registration secret, [])
    | none => (s, .returned (.unauthorized "Webhook secret required"), [])
  | .validate webhook channel registration secret =>
    if s.router.validateSecret channel.name secret then
      let validated := if s.router.requiresSecret channel.name then some secret else none
      (s, .askAgain webhook channel registration validated, [])
    else (s, .returned (.unauthorized "Invalid webhook secret"), [])
  | .askAgain webhook channel registration validated =>
    let secretValidated := s.router.requiresSecret channel.name
    (s, .returned (.called secretValidated),
      [⟨webhook, channel, registration, s.secretOf channel, validated, secretValidated⟩])
  | .returned reply => (s, .returned reply, [])

inductive Op where
  | call (phase : Phase)
  | proceed (index : Nat)
  deriving DecidableEq

/-- Where calls begin. -/
def begins : Phase → Bool
  | .storeChannel _ _ _ _ | .removeChannel _ | .findPath _ => true
  | _ => false

/-- A call starts, or a call that has started takes a turn. -/
def step (s : Server) : Op → Server × List Dispatch
  | .call phase => if begins phase then ({ s with calls := s.calls ++ [phase] }, []) else (s, [])
  | .proceed index =>
    match s.calls[index]? with
    | none => (s, [])
    | some phase =>
      if s.waits phase then (s, [])
      else
        let (after, next, dispatched) := s.turn phase
        ({ after with calls := s.calls.set index next }, dispatched)

end Server

end Gyre.Channels.Wasm
