/- digest: Secret leak detection: patterns, the prefilter, the scan and its redactions. -/

import Gyre.Lib.Bytes
import Gyre.Lib.PrefixSearch
import Gyre.Lib.Regex
import Gyre.Lib.Text
import Mathlib.Data.List.Sort

set_option autoImplicit false
set_option relaxedAutoImplicit false

namespace Gyre.Safety

open Gyre.Lib

/-- Action to take when a leak is detected. -/
inductive LeakAction where
  | block
  | redact
  | warn
  deriving DecidableEq, Repr

inductive LeakSeverity where
  | low
  | medium
  | high
  | critical
  deriving DecidableEq, Repr

/-- A pattern for detecting leaks: the text of its regex, and what that text means. -/
structure LeakPattern where
  name : String
  source : String
  regex : Regex
  severity : LeakSeverity
  action : LeakAction

/-- A detected potential leak; its location is in bytes. -/
structure LeakMatch where
  patternName : String
  severity : LeakSeverity
  action : LeakAction
  start : Nat
  stop : Nat
  maskedPreview : List Char
  deriving DecidableEq, Repr

structure LeakScanResult where
  found : List LeakMatch
  shouldBlock : Bool
  redactedContent : Option (List Char)
  deriving DecidableEq, Repr

/-- `mask_secret`; its length is counted in bytes and its parts in characters. -/
def maskSecret (secret : List Char) : List Char :=
  let len := Regex.byteLength secret
  if len ≤ 8 then List.replicate len '*'
  else secret.take 4 ++ List.replicate (min (len - 8) 8) '*' ++ secret.drop (len - 4)

/-- The text from a byte position on. -/
@[grind =] def dropBytes : Nat → List Char → List Char
  | 0, s => s
  | _ + 1, [] => []
  | n + 1, c :: rest => dropBytes (n + 1 - c.utf8Size) rest

/-- The text before a byte position. -/
@[grind =] def takeBytes : Nat → List Char → List Char
  | 0, _ => []
  | _ + 1, [] => []
  | n + 1, c :: rest => c :: takeBytes (n + 1 - c.utf8Size) rest

/-- `apply_redactions`, from the end of the range before. -/
@[grind =] def redactFrom (content : List Char) : (lastEnd : Nat) → List (Nat × Nat) → List Char
  | lastEnd, [] => dropBytes lastEnd content
  | lastEnd, (start, stop) :: rest =>
    takeBytes (start - lastEnd) (dropBytes lastEnd content) ++ "[REDACTED]".toList ++
      redactFrom content stop rest

def applyRedactions (content : List Char) (ranges : List (Nat × Nat)) : List Char :=
  redactFrom content 0 ranges

/-- The characters at which a literal prefix stops. -/
def specialChars : List Char :=
  ['[', '(', '.', '*', '+', '?', '\x7b', '|', '^', '$', '\\']

/-- `extract_literal_prefix`. -/
def extractLiteralPrefix (pattern : String) : Option (List Char) :=
  let literal := pattern.toList.takeWhile fun c => !specialChars.contains c
  if Regex.byteLength literal ≥ 3 then some literal else none

structure LeakDetector where
  patterns : List LeakPattern
  /-- Literal prefixes, each with the index of its pattern. -/
  knownPrefixes : List (List Char × Nat)

namespace LeakDetector

/-- The prefix matcher is built from the known prefixes, when there are any. -/
def withPatterns (patterns : List LeakPattern) : LeakDetector where
  patterns := patterns
  knownPrefixes := patterns.zipIdx.filterMap fun p =>
    (extractLiteralPrefix p.1.source).map fun literal => (literal, p.2)

/-- The pattern behind a hit of the prefix matcher. -/
def patternOf (d : LeakDetector) (hit : PrefixSearch.Hit) : Option Nat :=
  d.knownPrefixes[hit.word]?.map (·.2)

/-- The patterns whose prefix the prefix matcher reports, each once. -/
def reportedPatterns (d : LeakDetector) (content : List Char) : List Nat :=
  ((PrefixSearch.findIter (d.knownPrefixes.map (·.1)) content).filterMap d.patternOf).eraseDups

/-- The patterns without a known prefix. -/
def unprefixed (d : LeakDetector) : List Nat :=
  (List.range d.patterns.length).filter fun i => !d.knownPrefixes.any fun p => p.2 == i

/-- The patterns whose regexes are run. -/
def candidateIndices (d : LeakDetector) (content : List Char) : List Nat :=
  if d.knownPrefixes.isEmpty then List.range d.patterns.length
  else
    let reported := d.reportedPatterns content
    reported ++ d.unprefixed.filter fun i => !reported.contains i

end LeakDetector

def LeakPattern.matchesIn (p : LeakPattern) (content : List Char) : List LeakMatch :=
  (p.regex.findIter content).map fun m =>
    ⟨p.name, p.severity, p.action, m.start, m.stop, maskSecret m.text⟩

namespace LeakDetector

/-- The result of running the regexes of some patterns. -/
def scanWith (d : LeakDetector) (indices : List Nat) (content : List Char) : LeakScanResult :=
  let found := (indices.filterMap fun i => d.patterns[i]?).flatMap fun p => p.matchesIn content
  let ranges := (found.filter fun m => m.action == .redact).map fun m => (m.start, m.stop)
  { found := found.insertionSort fun a b => a.start ≤ b.start
    shouldBlock := found.any fun m => m.action == .block
    redactedContent :=
      if ranges.isEmpty then none
      else some (applyRedactions content (ranges.insertionSort fun a b => a.1 ≤ b.1)) }

/-- `scan`. -/
def scan (d : LeakDetector) (content : List Char) : LeakScanResult :=
  d.scanWith (d.candidateIndices content) content

end LeakDetector

/-- A leak that was blocked: the pattern and the preview of what it matched. -/
structure LeakDetectionError where
  pattern : String
  preview : List Char
  deriving DecidableEq, Repr

def LeakDetectionError.display (e : LeakDetectionError) : String :=
  s!"Secret leak blocked: pattern '{e.pattern}' matched '{String.ofList e.preview}'"

namespace LeakDetector

/-- `scan_and_clean`. -/
def scanAndClean (d : LeakDetector) (content : List Char) :
    Except LeakDetectionError (List Char) :=
  let result := d.scan content
  if result.shouldBlock then
    let blocking := result.found.find? fun m => m.action == .block
    .error ⟨(blocking.map (·.patternName)).getD "", (blocking.map (·.maskedPreview)).getD []⟩
  else .ok (result.redactedContent.getD content)

/-- The header part of `scan_http_request`: the first value with a leak is named by its header. -/
def scanHeaders (d : LeakDetector) : List (String × List Char) → Except LeakDetectionError Unit
  | [] => .ok ()
  | (name, value) :: rest =>
    match d.scanAndClean value with
    | .error e => .error ⟨s!"header:{name}", e.display.toList⟩
    | .ok _ => d.scanHeaders rest

/-- `scan_http_request`. -/
def scanHttpRequest (d : LeakDetector) (url : List Char) (headers : List (String × List Char))
    (body : Option (List UInt8)) : Except LeakDetectionError Unit :=
  match d.scanAndClean url with
  | .error e => .error e
  | .ok _ =>
    match d.scanHeaders headers with
    | .error e => .error e
    | .ok _ =>
      match body with
      | none => .ok ()
      | some bytes =>
        match d.scanAndClean (Bytes.fromUtf8Lossy bytes) with
        | .error e => .error e
        | .ok _ => .ok ()

end LeakDetector

section Defaults

open Regex

def isSmallLetter (c : Char) : Bool := 'a' ≤ c && c ≤ 'z'

def isCapital (c : Char) : Bool := 'A' ≤ c && c ≤ 'Z'

def isDigit (c : Char) : Bool := '0' ≤ c && c ≤ '9'

/-- `[a-zA-Z0-9]`. -/
def isAlnum (c : Char) : Bool := isSmallLetter c || isCapital c || isDigit c

/-- `[a-zA-Z0-9_-]`. -/
def isTokenChar (c : Char) : Bool := isAlnum c || c == '_' || c == '-'

/-- `[a-fA-F0-9]`. -/
def isHex (c : Char) : Bool := ('a' ≤ c && c ≤ 'f') || ('A' ≤ c && c ≤ 'F') || isDigit c

/-- A class of ASCII characters under `(?i)` that has all letters: two more characters fold to
them. -/
def foldingLetters (p : Char → Bool) (c : Char) : Bool := p c || c == '\u017F' || c == '\u212A'

/-- `\s`. -/
def space : Regex := .set Text.isWhitespace

/-- `default_patterns`; `isWord` is the table of word characters behind `\b`. -/
def defaultPatterns (isWord : Char → Bool) : List LeakPattern :=
  [⟨"openai_api_key", "sk-(?:proj-)?[a-zA-Z0-9]{20,}(?:T3BlbkFJ[a-zA-Z0-9_-]*)?",
      seqs [lit "sk-", opt (lit "proj-"), atLeast (.set isAlnum) 20,
        opt (.seq (lit "T3BlbkFJ") (star (.set isTokenChar)))],
      .critical, .block⟩,
    ⟨"anthropic_api_key", "sk-ant-api[a-zA-Z0-9_-]{90,}",
      .seq (lit "sk-ant-api") (atLeast (.set isTokenChar) 90), .critical, .block⟩,
    ⟨"aws_access_key", "AKIA[0-9A-Z]{16}",
      .seq (lit "AKIA") (rep (.set fun c => isDigit c || isCapital c) 16), .critical, .block⟩,
    ⟨"github_token", "gh[pousr]_[A-Za-z0-9_]{36,}",
      seqs [lit "gh", .set fun c => "pousr".toList.contains c, lit "_",
        atLeast (.set fun c => isAlnum c || c == '_') 36], .critical, .block⟩,
    ⟨"github_fine_grained_pat", "github_pat_[a-zA-Z0-9]{22}_[a-zA-Z0-9]{59}",
      seqs [lit "github_pat_", rep (.set isAlnum) 22, lit "_", rep (.set isAlnum) 59],
      .critical, .block⟩,
    ⟨"stripe_api_key", "sk_(?:live|test)_[a-zA-Z0-9]{24,}",
      seqs [lit "sk_", .alt (lit "live") (lit "test"), lit "_", atLeast (.set isAlnum) 24],
      .critical, .block⟩,
    ⟨"gyre_session", "sess_[a-zA-Z0-9]{32,}",
      .seq (lit "sess_") (atLeast (.set isAlnum) 32), .critical, .block⟩,
    ⟨"pem_private_key", "-----BEGIN\\s+(?:RSA\\s+)?PRIVATE\\s+KEY-----",
      seqs [lit "-----BEGIN", plus space, opt (.seq (lit "RSA") (plus space)), lit "PRIVATE",
        plus space, lit "KEY-----"], .critical, .block⟩,
    ⟨"ssh_private_key", "-----BEGIN\\s+(?:OPENSSH|EC|DSA)\\s+PRIVATE\\s+KEY-----",
      seqs [lit "-----BEGIN", plus space, alts (lit "OPENSSH") [lit "EC", lit "DSA"], plus space,
        lit "PRIVATE", plus space, lit "KEY-----"], .critical, .block⟩,
    ⟨"google_api_key", "AIza[0-9A-Za-z_-]{35}",
      .seq (lit "AIza") (rep (.set isTokenChar) 35), .high, .block⟩,
    ⟨"slack_token", "xox[baprs]-[0-9a-zA-Z-]{10,}",
      seqs [lit "xox", .set fun c => "baprs".toList.contains c, lit "-",
        atLeast (.set fun c => isAlnum c || c == '-') 10], .high, .block⟩,
    ⟨"twilio_api_key", "SK[a-fA-F0-9]{32}",
      .seq (lit "SK") (rep (.set isHex) 32), .high, .block⟩,
    ⟨"sendgrid_api_key", "SG\\.[a-zA-Z0-9_-]{22}\\.[a-zA-Z0-9_-]{43}",
      seqs [lit "SG.", rep (.set isTokenChar) 22, lit ".", rep (.set isTokenChar) 43],
      .high, .block⟩,
    ⟨"bearer_token", "Bearer\\s+[a-zA-Z0-9_-]{20,}",
      seqs [lit "Bearer", plus space, atLeast (.set isTokenChar) 20], .high, .redact⟩,
    ⟨"auth_header", "(?i)authorization:\\s*[a-zA-Z]+\\s+[a-zA-Z0-9_-]{20,}",
      seqs [ilit "authorization:", star space,
        plus (.set (foldingLetters fun c => isSmallLetter c || isCapital c)), plus space,
        atLeast (.set (foldingLetters isTokenChar)) 20], .high, .redact⟩,
    ⟨"high_entropy_hex", "\\b[a-fA-F0-9]{64}\\b",
      seqs [.wordBoundary isWord, rep (.set isHex) 64, .wordBoundary isWord], .medium, .warn⟩]

end Defaults

/-- `LeakDetector::new`. -/
def LeakDetector.new (isWord : Char → Bool) : LeakDetector := .withPatterns (defaultPatterns isWord)

end Gyre.Safety
