/- digest: The egress policy: leak scan, host rules, mode, and one audit event for each request. -/

import Gyre.Safety.LeakDetector

set_option autoImplicit false
set_option relaxedAutoImplicit false

namespace Gyre.Safety

open Gyre.Lib

/-- What happens to egress that matches no configured rule. -/
inductive EgressMode where
  | observe
  | enforce
  | judge
  deriving DecidableEq, Repr

inductive EgressDecision where
  | allowed
  | denied
  deriving DecidableEq, Repr

/-- One audited egress decision. -/
structure EgressEvent where
  tool : List Char
  method : List Char
  host : List Char
  path : List Char
  decision : EgressDecision
  mode : String
  reason : String
  leakVerdict : String
  deriving DecidableEq, Repr

/-- Fields describing an outbound request to be checked. -/
structure EgressRequest where
  tool : List Char
  method : List Char
  url : List Char
  host : List Char
  path : List Char
  headers : List (String × List Char)
  body : Option (List UInt8)

inductive EgressError where
  | leakBlocked (error : String)
  | denied (host : List Char) (reason : String)
  deriving DecidableEq, Repr

/-- How a host matched the configured rules. -/
inductive RuleMatch where
  | allow (rule : List Char)
  | deny (rule : List Char)
  | unmatched
  deriving DecidableEq, Repr

/-- What comes of the one call of the judge's model. -/
inductive JudgeReply where
  | timedOut
  | failed (error : String)
  | answered (content : List Char)
  deriving DecidableEq, Repr

/-- The JSON that a verdict is read from; a missing reason is empty. -/
structure Wire where
  allow : Bool
  reason : List Char
  deriving DecidableEq, Repr

/-- Parsed judge verdict. -/
structure JudgeVerdict where
  allow : Bool
  reason : List Char
  deriving DecidableEq, Repr

structure EgressPolicy where
  mode : EgressMode
  allow : List (List Char)
  deny : List (List Char)
  leakDetector : LeakDetector
  /-- The model consulted for unmatched hosts, as it answers a prompt. -/
  judgeLlm : Option (List Char → JudgeReply)
  judgeMaxLatencyMs : Nat

/-- `strip_code_fence`. -/
def stripCodeFence (s : List Char) : List Char :=
  let fence := "```".toList
  if fence.isPrefixOf s then
    let rest := s.drop 3
    let body := match Text.splitFirst ['\n'] rest with
      | some (_, body) => body
      | none => rest
    if fence.isSuffixOf body then Text.trim (body.take (body.length - 3)) else s
  else s

/-- `parse_judge_verdict`; `fromStr` is `serde_json::from_str`. -/
def parseJudgeVerdict (fromStr : List Char → Option Wire) (content : List Char) :
    Option JudgeVerdict :=
  (fromStr (stripCodeFence (Text.trim content))).map fun w =>
    ⟨w.allow,
      if (Text.trim w.reason).isEmpty then "(no reason given)".toList else Text.trim w.reason⟩

/-- `trim`, `trim_end_matches('.')` and `to_ascii_lowercase`, as a rule and a host are compared. -/
def foldedHost (s : List Char) : List Char :=
  ((Text.trim s).rdropWhile (· == '.')).map Char.toLower

/-- `host_matches`; the byte in front of the suffix is a full stop exactly when the character is. -/
def hostMatches (pattern host : List Char) : Bool :=
  let p := foldedHost pattern
  let h := foldedHost host
  if p.isEmpty || h.isEmpty then false
  else match p with
    | '*' :: '.' :: suffix =>
      decide (suffix.length + 1 < h.length) && suffix.isSuffixOf h &&
        h[h.length - suffix.length - 1]? == some '.'
    | _ => h == p

/-- The texts of header names and of a body's size, as the judge is shown them. -/
def judgePrompt (req : EgressRequest) : List Char :=
  let headerNames := ", ".intercalate (req.headers.map (·.1))
  let bodySize := (req.body.map List.length).getD 0
  ("You are the egress judge for a personal AI agent. A tool is about " ++
    "to make an outbound HTTP request to a host that matches no " ++
    "configured allow or deny rule. Decide whether to permit it.\n\n" ++
    "Be skeptical: unfamiliar hosts contacted by autonomous tools are " ++
    "the main exfiltration channel. Consider whether the destination is " ++
    "a well-known legitimate service and whether it makes sense for " ++
    "this tool to contact it.\n\n" ++
    "Request summary (values redacted):\n" ++
    s!"- tool: {String.ofList req.tool}\n" ++
    s!"- method: {String.ofList req.method}\n" ++
    s!"- host: {String.ofList req.host}\n" ++
    s!"- path: {String.ofList req.path}\n" ++
    s!"- header names: [{headerNames}]\n" ++
    s!"- body size: {bodySize} bytes\n\n" ++
    "Respond with a single JSON object and nothing else:\n" ++
    "\x7b\"allow\": <true|false>, \"reason\": \"<one short sentence>\"\x7d\n" ++
    "If uncertain, deny.").toList

namespace EgressPolicy

/-- `audit`: what is recorded of a request. -/
def audit (req : EgressRequest) (decision : EgressDecision) (mode reason leakVerdict : String) :
    EgressEvent :=
  ⟨req.tool, req.method, req.host, req.path, decision, mode, reason, leakVerdict⟩

/-- A request let through, with its audit event. -/
def accept (req : EgressRequest) (mode reason : String) :
    Except EgressError Unit × List EgressEvent :=
  (.ok (), [audit req .allowed mode reason "clean"])

/-- A clean request refused, with its audit event. -/
def refuse (req : EgressRequest) (mode reason : String) :
    Except EgressError Unit × List EgressEvent :=
  (.error (.denied req.host reason), [audit req .denied mode reason "clean"])

/-- `match_rules`. -/
def matchRules (p : EgressPolicy) (host : List Char) : RuleMatch :=
  match p.deny.find? (hostMatches · host) with
  | some rule => .deny rule
  | none =>
    match p.allow.find? (hostMatches · host) with
    | some rule => .allow rule
    | none => .unmatched

variable (fromStr : List Char → Option Wire)

/-- `judge_unmatched`. -/
def judgeUnmatched (p : EgressPolicy) (req : EgressRequest) :
    Except EgressError Unit × List EgressEvent :=
  match p.judgeLlm with
  | none => refuse req "judge" "judge mode with no judge model configured (fail closed)"
  | some llm =>
    match llm (judgePrompt req) with
    | .timedOut =>
      refuse req "judge" s!"judge timed out after {p.judgeMaxLatencyMs}ms (fail closed)"
    | .failed e => refuse req "judge" s!"judge LLM call failed: {e} (fail closed)"
    | .answered content =>
      match parseJudgeVerdict fromStr content with
      | some verdict =>
        if verdict.allow then
          accept req "judge" s!"judge allowed: {String.ofList verdict.reason}"
        else refuse req "judge" s!"judge denied: {String.ofList verdict.reason}"
      | none => refuse req "judge" "judge returned unparseable verdict (fail closed)"

/-- `check_unmatched`. -/
def checkUnmatched (p : EgressPolicy) (req : EgressRequest) :
    Except EgressError Unit × List EgressEvent :=
  match p.mode with
  | .observe => accept req "observe" ""
  | .enforce => refuse req "enforce" "matched no allow rule (enforce mode)"
  | .judge => p.judgeUnmatched fromStr req

/-- `check_request`, with the audit events it records. -/
def checkRequest (p : EgressPolicy) (req : EgressRequest) :
    Except EgressError Unit × List EgressEvent :=
  match p.leakDetector.scanHttpRequest req.url req.headers req.body with
  | .error e =>
    let verdict := s!"blocked: {e.display}"
    (.error (.leakBlocked e.display), [audit req .denied "leak-scan" verdict verdict])
  | .ok _ =>
    match p.matchRules req.host with
    | .deny rule => refuse req "rule" s!"matched deny rule '{String.ofList rule}'"
    | .allow rule => accept req "rule" s!"matched allow rule '{String.ofList rule}'"
    | .unmatched => p.checkUnmatched fromStr req

end EgressPolicy

end Gyre.Safety
