/- digest: The HTTP host function of WASM tools: credentials injected, checks passed, errors redacted. -/

import Gyre.Lib.IpAddr
import Gyre.Safety.LeakDetector
import Gyre.Tools.Wasm.Allowlist

/-!
A hash map is a list of its entries in the order in which it is iterated. What lies outside the
program is in two records: the libraries it calls, and what the network and the operating system
answer in one call.
-/

set_option autoImplicit false
set_option relaxedAutoImplicit false

namespace Gyre.Tools.Wasm

open Gyre.Lib Gyre.Safety

/-- One line a guest has logged. -/
structure LogEntry where
  level : String
  message : List Char
  deriving DecidableEq

structure HostState where
  logs : List LogEntry
  capabilities : Capabilities
  httpRequestCount : Nat

/-- Pre-resolved credential for host-based injection. -/
structure ResolvedHostCredential where
  hostPatterns : List (List Char)
  headers : List (String × List Char)
  queryParams : List (List Char × List Char)
  secretValue : List Char

structure StoreData where
  hostState : HostState
  /-- Values by the names of their placeholders. -/
  credentials : List (String × List Char)
  hostCredentials : List ResolvedHostCredential
  /-- Whether the runtime for requests has been started. -/
  httpRuntime : Bool

/-- A request as it is handed to the HTTP client. -/
structure Request where
  method : List Char
  url : List Char
  headers : List (String × List Char)
  body : Option (List UInt8)
  timeoutMs : Nat

/-- An error of the HTTP client and the errors behind it. -/
structure SendError where
  message : List Char
  causes : List (List Char)

/-- A response; a header value that is not visible ASCII has no text. -/
structure Response where
  status : Nat
  headers : List (String × Option (List Char))
  contentLength : Option Nat
  /-- The body, or the text of the error met while reading it. -/
  body : Except (Request → List Char) (List UInt8)

/-- What comes back for a request; the client's error may show the request. -/
inductive Reply where
  | response (r : Response)
  | failure (describe : Request → SendError)

structure Libraries where
  unicode : Text.Unicode
  parseUrl : UrlParser
  /-- `serde_json` on the header object. -/
  parseHeaders : List Char → Option (List (String × List Char))
  showHeaders : List (String × List Char) → List Char
  /-- The HTTP client's refusal of a request that it cannot build. -/
  refuses : Request → Option SendError

/-- What one call meets outside. -/
structure Surroundings where
  resolve : List Char → Except (List Char) (List IpAddr)
  runtimeError : Option (List Char)
  clientError : Option (List Char)
  reply : Reply

/-- The arguments of `http_request`. -/
structure HttpCall where
  method : List Char
  url : List Char
  headersJson : List Char
  body : Option (List UInt8)
  timeoutMs : Option Nat

structure HttpResponse where
  status : Nat
  headersJson : List Char
  body : List UInt8
  deriving DecidableEq

namespace HostState

/-- `check_http_allowed`. -/
def checkHttpAllowed (lib : Libraries) (h : HostState) (url method : List Char) :
    Except (List Char) Unit :=
  match h.capabilities.http with
  | none => .error "HTTP capability not granted".toList
  | some capability =>
    match (AllowlistValidator.new capability.allowlist).validate lib.unicode lib.parseUrl url method
      with
    | .allowed => .ok ()
    | denied => .error ("HTTP request not allowed: ".toList ++ denied.debug lib.unicode)

def maxRequestsPerExecution : Nat := 50

/-- `record_http_request`. -/
def recordHttpRequest (h : HostState) : HostState × Except (List Char) Unit :=
  match h.capabilities.http with
  | none => (h, .error "HTTP capability not granted".toList)
  | some _ =>
    let h' := { h with httpRequestCount := h.httpRequestCount + 1 }
    if maxRequestsPerExecution < h'.httpRequestCount then
      (h', .error "Too many HTTP requests in single execution (max 50)".toList)
    else (h', .ok ())

end HostState

/-- `HashMap::insert`. -/
def insertHeader (headers : List (String × List Char)) (name : String) (value : List Char) :
    List (String × List Char) :=
  if headers.any fun h => h.1 == name then
    headers.map fun h => if h.1 == name then (name, value) else h
  else headers ++ [(name, value)]

/-- The query parameters of a credential, put before the fragment of a URL. -/
def appendQuery (url : List Char) (params : List (List Char × List Char)) : List Char :=
  if params.isEmpty then url
  else
    let base := url.takeWhile fun c => c != '#'
    let pairs := params.map fun p => Bytes.percentEncode p.1 ++ '=' :: Bytes.percentEncode p.2
    base ++ (if base.contains '?' then '&' else '?') :: List.intercalate ['&'] pairs ++
      url.dropWhile fun c => c != '#'

/-- `extract_host_from_url`. -/
def extractHostFromUrl (lib : Libraries) (url : List Char) : Option (List Char) :=
  match lib.parseUrl url with
  | .error _ => none
  | .ok parsed =>
    if parsed.scheme = "http".toList || parsed.scheme = "https".toList then
      parsed.host.map fun h => lib.unicode.lowercase (stripBrackets h)
    else none

/-- `is_private_ip`. -/
def isPrivateIp : IpAddr → Bool
  | .v4 o =>
    o.get 0 == 127 || (o.get 0 == 10 ||
      (o.get 0 == 172 && 16 ≤ (o.get 1).toNat && (o.get 1).toNat ≤ 31) ||
      (o.get 0 == 192 && o.get 1 == 168)) || (o.get 0 == 169 && o.get 1 == 254) ||
      o == IpAddr.unspecifiedV4 || (o.get 0 == 100 && (o.get 1 &&& 0xC0) == 64)
  | .v6 s =>
    s == IpAddr.localhostV6 || s == IpAddr.unspecifiedV6 ||
      (s.get 0 &&& 0xFE00) == 0xFC00 || (s.get 0 &&& 0xFFC0) == 0xFE80

/-- The check of a host that is not an address, by all the addresses it resolves to. -/
def rejectResolved (host : List Char) : Except (List Char) (List IpAddr) → Except (List Char) Unit
  | .error e => .error ("DNS resolution failed for ".toList ++ host ++ ": ".toList ++ e)
  | .ok addrs =>
    if addrs.isEmpty then .error ("DNS resolution returned no addresses for ".toList ++ host)
    else match addrs.find? isPrivateIp with
      | some ip =>
        .error ("DNS rebinding detected: ".toList ++ host ++ " resolved to private IP ".toList ++
          ip.display)
      | none => .ok ()

/-- `reject_private_ip`. -/
def rejectPrivateIp (lib : Libraries) (resolve : List Char → Except (List Char) (List IpAddr))
    (url : List Char) : Except (List Char) Unit :=
  match lib.parseUrl url with
  | .error e => .error ("Failed to parse URL: ".toList ++ e)
  | .ok parsed =>
    if parsed.scheme ≠ "http".toList && parsed.scheme ≠ "https".toList then
      .error ("Unsupported URL scheme: ".toList ++ parsed.scheme)
    else if parsed.hasUserinfo then
      .error "URL contains userinfo (@) which is not allowed".toList
    else match parsed.host with
      | none => .error "Failed to parse host from URL".toList
      | some h =>
        let host := stripBrackets h
        match IpAddr.parse host with
        | some ip =>
          if isPrivateIp ip then
            .error ("HTTP request to private/internal IP ".toList ++ ip.display ++
              " is not allowed".toList)
          else .ok ()
        | none => rejectResolved host (resolve host)

def supportedMethods : List (List Char) :=
  ["GET".toList, "POST".toList, "PUT".toList, "DELETE".toList, "PATCH".toList, "HEAD".toList]

def SendError.display (e : SendError) : List Char :=
  "HTTP request failed: ".toList ++ e.message ++ e.causes.flatMap fun c => " -> ".toList ++ c

def tooLarge (bytes limit : Nat) : List Char :=
  "Response body too large: ".toList ++ Nat.toDigits 10 bytes ++ " bytes exceeds limit of ".toList ++
    Nat.toDigits 10 limit ++ " bytes".toList

/-- The handling of a response: its size, its body and the leak scan of the body. -/
def receive (lib : Libraries) (maxResponse : Nat) (request : Request) (r : Response) :
    Except (List Char) HttpResponse :=
  let headers := r.headers.filterMap fun h => h.2.map fun v => (h.1, v)
  if (r.contentLength.getD 0) > maxResponse then
    .error (tooLarge (r.contentLength.getD 0) maxResponse)
  else match r.body with
    | .error describe => .error ("Failed to read response body: ".toList ++ describe request)
    | .ok body =>
      if body.length > maxResponse then .error (tooLarge body.length maxResponse)
      else
        let response : HttpResponse := ⟨r.status, lib.showHeaders headers, body⟩
        match Bytes.fromUtf8 body with
        | none => .ok response
        | some text =>
          match (LeakDetector.new lib.unicode.isWord).scanAndClean text with
          | .error e => .error ("Potential secret leak in response: ".toList ++ e.display.toList)
          | .ok _ => .ok response

/-- The part of `http_request` that runs on the request runtime. -/
def exchange (lib : Libraries) (around : Surroundings) (maxResponse : Nat) (call : HttpCall)
    (url : List Char) (headers : List (String × List Char)) : Except (List Char) HttpResponse :=
  match around.clientError with
  | some e => .error ("Failed to build HTTP client: ".toList ++ e)
  | none =>
    let method := lib.unicode.uppercase call.method
    if !supportedMethods.contains method then
      .error ("Unsupported HTTP method: ".toList ++ call.method)
    else
      let request : Request :=
        ⟨method, url, headers, call.body, min (call.timeoutMs.getD 30000) 300000⟩
      match lib.refuses request with
      | some e => .error e.display
      | none =>
        match around.reply with
        | .failure describe => .error (describe request).display
        | .response r => receive lib maxResponse request r

namespace StoreData

/-- `inject_credentials`. -/
def injectCredentials (s : StoreData) (input : List Char) : List Char :=
  s.credentials.foldl
    (fun result credential =>
      let placeholder := '\x7b' :: (credential.1.toList ++ ['\x7d'])
      if Text.contains placeholder result then Text.replace placeholder credential.2 result
      else result) input

/-- `redact_credentials`. -/
def redactCredentials (s : StoreData) (text : List Char) : List Char :=
  let result := s.credentials.foldl
    (fun result credential =>
      if credential.2.isEmpty then result
      else Text.replace credential.2 ("[REDACTED:".toList ++ credential.1.toList ++ [']']) result)
    text
  s.hostCredentials.foldl
    (fun result credential =>
      if credential.secretValue.isEmpty then result
      else Text.replace credential.secretValue "[REDACTED:host_credential]".toList result)
    result

/-- `inject_host_credentials`: the headers and the URL with every matching credential. -/
def injectHostCredentials (s : StoreData) (urlHost : List Char)
    (headers : List (String × List Char)) (url : List Char) :
    List (String × List Char) × List Char :=
  s.hostCredentials.foldl
    (fun r credential =>
      if credential.hostPatterns.any fun pattern => hostMatchesPattern urlHost pattern then
        (credential.headers.foldl (fun headers h => insertHeader headers h.1 h.2) r.1,
          appendQuery r.2 credential.queryParams)
      else r)
    (headers, url)

/-- The headers and the URL of a request once all credentials are in. -/
def prepare (lib : Libraries) (s : StoreData) (call : HttpCall) :
    List (String × List Char) × List Char :=
  let headers := ((lib.parseHeaders call.headersJson).getD []).map fun h =>
    (h.1, s.injectCredentials h.2)
  let url := s.injectCredentials call.url
  match extractHostFromUrl lib url with
  | none => (headers, url)
  | some host => s.injectHostCredentials host headers url

/-- The limit on the size of a response. -/
def maxResponseBytes (s : StoreData) : Nat :=
  (s.hostState.capabilities.http.map (·.maxResponseBytes)).getD (10 * 1024 * 1024)

/-- `http_request`. -/
def httpRequest (lib : Libraries) (around : Surroundings) (s : StoreData) (call : HttpCall) :
    StoreData × Except (List Char) HttpResponse :=
  let injectedUrl := s.injectCredentials call.url
  match s.hostState.checkHttpAllowed lib injectedUrl call.method with
  | .error e => (s, .error ("HTTP not allowed: ".toList ++ e))
  | .ok _ =>
    let recorded := s.hostState.recordHttpRequest
    let s := { s with hostState := recorded.1 }
    match recorded.2 with
    | .error e => (s, .error ("Rate limit exceeded: ".toList ++ e))
    | .ok _ =>
      let (headers, url) := s.prepare lib call
      match (LeakDetector.new lib.unicode.isWord).scanHttpRequest url headers call.body with
      | .error e => (s, .error ("Potential secret leak blocked: ".toList ++ e.display.toList))
      | .ok _ =>
        match rejectPrivateIp lib around.resolve url with
        | .error e => (s, .error e)
        | .ok _ =>
          -- the runtime is started by the first request that gets here
          match if s.httpRuntime then none else around.runtimeError with
          | some e => (s, .error ("Failed to create HTTP runtime: ".toList ++ e))
          | none =>
            ({ s with httpRuntime := true },
              (exchange lib around s.maxResponseBytes call url headers).mapError
                s.redactCredentials)

end StoreData

end Gyre.Tools.Wasm
