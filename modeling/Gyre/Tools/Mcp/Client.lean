/- digest: The MCP client and the sessions it shares: initialization, requests and what they carry. -/

import Mathlib.Algebra.Group.Nat.Defs
import Mathlib.Logic.Function.Basic
import Gyre.Llm.Value

/-!
Calls come one after the other and time passes between them; what an exchange meets outside (the token
store, the server, the refresh) arrives as its argument.
-/

set_option autoImplicit false
set_option relaxedAutoImplicit false

namespace Gyre.Tools.Mcp

open Gyre.Llm

/-- Session state for a single server; times count nanoseconds. -/
structure McpSession where
  sessionId : Option String
  lastActivity : Nat
  serverUrl : String
  initialized : Bool
  deriving DecidableEq, Repr

namespace McpSession

def new (serverUrl : String) (now : Nat) : McpSession := ⟨none, now, serverUrl, false⟩

def updateSessionId (s : McpSession) (sessionId : Option String) (now : Nat) : McpSession :=
  { s with sessionId := sessionId.or s.sessionId, lastActivity := now }

def markInitialized (s : McpSession) (now : Nat) : McpSession :=
  { s with initialized := true, lastActivity := now }

/-- `elapsed().as_secs() > max_idle_secs` -/
def isStale (s : McpSession) (maxIdleSecs now : Nat) : Bool :=
  decide (maxIdleSecs < (now - s.lastActivity) / 10 ^ 9)

end McpSession

/-- The sessions by server name. -/
structure McpSessionManager where
  sessions : String → Option McpSession
  maxIdleSecs : Nat

namespace McpSessionManager

def withIdleTimeout (maxIdleSecs : Nat) : McpSessionManager := ⟨fun _ => none, maxIdleSecs⟩

def put (m : McpSessionManager) (name : String) (s : McpSession) : McpSessionManager :=
  { m with sessions := Function.update m.sessions name (some s) }

def isInitialized (m : McpSessionManager) (name : String) : Bool :=
  ((m.sessions name).map (·.initialized)).getD false

def getSessionId (m : McpSessionManager) (name : String) : Option String :=
  (m.sessions name).bind (·.sessionId)

end McpSessionManager

/-- A client with session management: an authenticated one. -/
structure McpClient where
  serverName : String
  serverUrl : String
  deriving DecidableEq, Repr

inductive McpRequest where
  | initializeRequest
  | initializedNotification
  | listTools
  | callTool (name : String) (arguments : Json)
  deriving DecidableEq, Repr

namespace McpRequest

/-- `tools/list` and `tools/call`. -/
def isTools : McpRequest → Bool
  | listTools => true
  | callTool .. => true
  | _ => false

end McpRequest

inductive McpError where
  | externalService (reason : String)
  | executionFailed (reason : String)
  deriving DecidableEq, Repr

/-- `McpResponse`: a result, an error with its message and code, or neither. -/
structure McpResponse where
  result : Option Json
  error : Option (String × Int)
  deriving Repr

/-- What becomes of a request on the wire; the body is what parsing it as JSON or as an event stream
ends in. -/
inductive Answer where
  | unreachable (chain : String)
  | answered (status : Nat) (sessionId : Option String) (body : Except String McpResponse)

/-- One attempt: the outcome of looking up the access token, and the answer. -/
structure Attempt where
  tokenError : Option String
  answer : Answer

/-- What a request meets: two attempts, and whether the token could be refreshed in between. -/
structure Exchange where
  first : Attempt
  refreshed : Bool
  second : Attempt

/-- How the results are read. -/
structure McpFormats where
  initializeResult : Json → Except String Json
  toolsList : Json → Except String (List Json)
  toolResult : Json → Except String Json
  initializeDefault : Json

/-- What can be seen of the sessions and on the wire. -/
inductive McpEvent where
  | opened (name : String)
  | sent (name url : String) (request : McpRequest) (sessionId : Option String)
  | issued (name url sessionId : String)
  | initialized (name url : String)
  deriving DecidableEq, Repr

section Manager

variable (m : McpSessionManager) (name : String) (now : Nat)

/-- `get_or_create`, for what it leaves: a session that has gone stale is replaced. -/
def getOrCreate (serverUrl : String) : McpSessionManager × List McpEvent :=
  match m.sessions name with
  | some session =>
    if session.isStale m.maxIdleSecs now then (m.put name (.new serverUrl now), [.opened name])
    else (m, [])
  | none => (m.put name (.new serverUrl now), [.opened name])

def updateSessionId (url sessionId : String) : McpSessionManager × List McpEvent :=
  match m.sessions name with
  | some session =>
    (m.put name (session.updateSessionId (some sessionId) now), [.issued name url sessionId])
  | none => (m, [])

def markInitialized (url : String) : McpSessionManager × List McpEvent :=
  match m.sessions name with
  | some session => (m.put name (session.markInitialized now), [.initialized name url])
  | none => (m, [])

end Manager

section Requests

variable (c : McpClient) (now : Nat)

/-- How an attempt ends: refused for lack of authorization, or with a result of the request. -/
inductive AttemptEnd where
  | unauthorized
  | done (result : Except McpError McpResponse)

/-- `parse_response`: the session id is kept first, whatever the status. -/
def parseResponse (m : McpSessionManager) (status : Nat) (sessionId : Option String)
    (body : Except String McpResponse) :
    McpSessionManager × Except McpError McpResponse × List McpEvent :=
  let kept := match sessionId with
    | some id => updateSessionId m c.serverName now c.serverUrl id
    | none => (m, [])
  if ¬ (200 ≤ status ∧ status < 300) then
    (kept.1, .error (.externalService s!"MCP server returned status: {status}"), kept.2)
  else
    match body with
    | .error e => (kept.1, .error (.externalService e), kept.2)
    | .ok response => (kept.1, .ok response, kept.2)

/-- One round of the loop of `send_request`. -/
def sendAttempt (m : McpSessionManager) (request : McpRequest) (a : Attempt) :
    McpSessionManager × AttemptEnd × List McpEvent :=
  match a.tokenError with
  | some e =>
    (m, .done (.error (.externalService s!"Failed to get access token: {e}")), [])
  | none =>
    let sent := McpEvent.sent c.serverName c.serverUrl request (m.getSessionId c.serverName)
    match a.answer with
    | .unreachable chain => (m, .done (.error (.externalService chain)), [sent])
    | .answered status sessionId body =>
      if status = 401 then (m, .unauthorized, [sent])
      else
        let parsed := parseResponse c now m status sessionId body
        (parsed.1, .done parsed.2.1, sent :: parsed.2.2)

def authError : McpError :=
  .externalService (s!"MCP server '{c.serverName}' requires authentication. " ++
    s!"Run: gyre mcp auth {c.serverName}")

/-- `send_request`: a second attempt follows a refreshed token. -/
def sendRequest (m : McpSessionManager) (request : McpRequest) (x : Exchange) :
    McpSessionManager × Except McpError McpResponse × List McpEvent :=
  let one := sendAttempt c now m request x.first
  match one.2.1 with
  | .done result => (one.1, result, one.2.2)
  | .unauthorized =>
    if x.refreshed then
      let two := sendAttempt c now one.1 request x.second
      match two.2.1 with
      | .done result => (two.1, result, one.2.2 ++ two.2.2)
      | .unauthorized => (two.1, .error (authError c), one.2.2 ++ two.2.2)
    else (one.1, .error (authError c), one.2.2)

variable (formats : McpFormats)

/-- What an answer to `initialize` is read as. -/
def initializeAnswer (response : McpResponse) : Except McpError Json :=
  match response.error with
  | some (message, code) =>
    .error (.externalService s!"MCP initialization error: {message} (code {code})")
  | none =>
    match response.result with
    | none => .error (.externalService "No result in initialize response")
    | some r =>
      match formats.initializeResult r with
      | .error e => .error (.externalService s!"Invalid initialize result: {e}")
      | .ok result => .ok result

/-- `initialize`: nothing is done for a session that is marked initialized, however old it is. -/
def initializeSession (m : McpSessionManager) (init notification : Exchange) :
    McpSessionManager × Except McpError Json × List McpEvent :=
  if m.isInitialized c.serverName then (m, .ok formats.initializeDefault, [])
  else
    let opened := getOrCreate m c.serverName now c.serverUrl
    let answered := sendRequest c now opened.1 .initializeRequest init
    match answered.2.1 with
    | .error e => (answered.1, .error e, opened.2 ++ answered.2.2)
    | .ok response =>
      match initializeAnswer formats response with
      | .error e => (answered.1, .error e, opened.2 ++ answered.2.2)
      | .ok result =>
        let marked := markInitialized answered.1 c.serverName now c.serverUrl
        let notified := sendRequest c now marked.1 .initializedNotification notification
        (notified.1, .ok result, opened.2 ++ answered.2.2 ++ marked.2 ++ notified.2.2)

/-- What the exchanges of one call meet. -/
structure CallWorld where
  init : Exchange
  notification : Exchange
  request : Exchange

/-- The part that `list_tools` and `call_tool` share: initialize, then send. -/
def initializedRequest (m : McpSessionManager) (request : McpRequest) (w : CallWorld) :
    McpSessionManager × Except McpError McpResponse × List McpEvent :=
  let ready := initializeSession c now formats m w.init w.notification
  match ready.2.1 with
  | .error e => (ready.1, .error e, ready.2.2)
  | .ok _ =>
    let answered := sendRequest c now ready.1 request w.request
    (answered.1, answered.2.1, ready.2.2 ++ answered.2.2)

def toolsAnswer (response : McpResponse) : Except McpError (List Json) :=
  match response.error with
  | some (message, code) => .error (.externalService s!"MCP error: {message} (code {code})")
  | none =>
    match response.result with
    | none => .error (.externalService "No result in MCP response")
    | some r =>
      match formats.toolsList r with
      | .error e => .error (.externalService s!"Invalid tools list: {e}")
      | .ok tools => .ok tools

def callAnswer (response : McpResponse) : Except McpError Json :=
  match response.error with
  | some (message, code) => .error (.executionFailed s!"MCP tool error: {message} (code {code})")
  | none =>
    match response.result with
    | none => .error (.externalService "No result in MCP response")
    | some r =>
      match formats.toolResult r with
      | .error e => .error (.externalService s!"Invalid tool result: {e}")
      | .ok result => .ok result

end Requests

/-- The clients' shared state: the clock, the sessions, and each client's cached tools. -/
structure McpState where
  now : Nat
  manager : McpSessionManager
  caches : McpClient → Option (List Json)

def McpState.new (maxIdleSecs : Nat) : McpState := ⟨0, .withIdleTimeout maxIdleSecs, fun _ => none⟩

section Calls

variable (formats : McpFormats) (s : McpState) (c : McpClient)

def listTools (w : CallWorld) : McpState × Except McpError (List Json) × List McpEvent :=
  match s.caches c with
  | some tools => (s, .ok tools, [])
  | none =>
    let answered := initializedRequest c s.now formats s.manager .listTools w
    let s' := { s with manager := answered.1 }
    match answered.2.1.bind (toolsAnswer formats) with
    | .error e => (s', .error e, answered.2.2)
    | .ok tools =>
      ({ s' with caches := Function.update s.caches c (some tools) }, .ok tools, answered.2.2)

def callTool (name : String) (arguments : Json) (w : CallWorld) :
    McpState × Except McpError Json × List McpEvent :=
  let answered := initializedRequest c s.now formats s.manager (.callTool name arguments) w
  ({ s with manager := answered.1 }, answered.2.1.bind (callAnswer formats), answered.2.2)

end Calls

inductive McpOp where
  | wait (nanos : Nat)
  | listTools (client : McpClient) (world : CallWorld)
  | callTool (client : McpClient) (name : String) (arguments : Json) (world : CallWorld)

def mcpStep (formats : McpFormats) (s : McpState) : McpOp → McpState × List McpEvent
  | .wait nanos => ({ s with now := s.now + nanos }, [])
  | .listTools c w => ((listTools formats s c w).1, (listTools formats s c w).2.2)
  | .callTool c name arguments w =>
    ((callTool formats s c name arguments w).1, (callTool formats s c name arguments w).2.2)

end Gyre.Tools.Mcp
