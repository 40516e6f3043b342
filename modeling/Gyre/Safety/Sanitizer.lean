/- digest: Finding and neutralizing prompt injection attempts in external content. -/

import Gyre.Lib.Lines
import Gyre.Safety.Policy

set_option autoImplicit false
set_option relaxedAutoImplicit false

namespace Gyre.Safety

open Gyre.Lib

/-- A potential injection attempt; its location is in bytes. -/
structure InjectionWarning where
  pattern : String
  severity : Severity
  start : Nat
  stop : Nat
  description : String
  deriving DecidableEq, Repr

structure SanitizedOutput where
  content : List Char
  warnings : List InjectionWarning
  wasModified : Bool
  deriving DecidableEq, Repr

structure PatternInfo where
  pattern : String
  severity : Severity
  description : String
  deriving DecidableEq, Repr

structure RegexPattern where
  regex : Regex
  name : String
  severity : Severity
  description : String

structure Sanitizer where
  patterns : List PatternInfo
  regexPatterns : List RegexPattern

section Defaults

open Regex

/-- Patterns for direct instructions, roles, system messages, special tokens and commands. -/
@[grind =] def injectionPatterns : List PatternInfo :=
  [⟨"ignore previous", .high, "Attempt to override previous instructions"⟩,
    ⟨"ignore all previous", .critical, "Attempt to override all previous instructions"⟩,
    ⟨"disregard", .medium, "Potential instruction override"⟩,
    ⟨"forget everything", .high, "Attempt to reset context"⟩,
    ⟨"you are now", .high, "Attempt to change assistant role"⟩,
    ⟨"act as", .medium, "Potential role manipulation"⟩,
    ⟨"pretend to be", .medium, "Potential role manipulation"⟩,
    ⟨"system:", .critical, "Attempt to inject system message"⟩,
    ⟨"assistant:", .high, "Attempt to inject assistant response"⟩,
    ⟨"user:", .high, "Attempt to inject user message"⟩,
    ⟨"<|", .critical, "Potential special token injection"⟩,
    ⟨"|>", .critical, "Potential special token injection"⟩,
    ⟨"[INST]", .critical, "Potential instruction token injection"⟩,
    ⟨"[/INST]", .critical, "Potential instruction token injection"⟩,
    ⟨"new instructions", .high, "Attempt to provide new instructions"⟩,
    ⟨"updated instructions", .high, "Attempt to update instructions"⟩,
    ⟨"```system", .high, "Potential code block instruction injection"⟩,
    ⟨"```bash\nsudo", .medium, "Potential dangerous command injection"⟩]

/-- `[A-Za-z0-9+/=]`. -/
def isBase64Char (c : Char) : Bool := isAlnum c || c == '+' || c == '/' || c == '='

def injectionRegexes : List RegexPattern :=
  [⟨seqs [ilit "base64", plus (.set fun c => c == ':' || Text.isWhitespace c),
        atLeast (.set (foldingLetters isBase64Char)) 50],
      "base64_payload", .medium, "Potential encoded payload"⟩,
    ⟨seqs [ilit "eval", star space, lit "("], "eval_call", .high,
      "Potential code evaluation attempt"⟩,
    ⟨seqs [ilit "exec", star space, lit "("], "exec_call", .high,
      "Potential code execution attempt"⟩,
    ⟨.set (· == '\x00'), "null_byte", .critical, "Null byte injection attempt"⟩]

end Defaults

namespace Sanitizer

def new : Sanitizer := ⟨injectionPatterns, injectionRegexes⟩

/-- The patterns found by the matcher, which ignores the case of ASCII letters. -/
def patternWarnings (s : Sanitizer) (content : List Char) : List InjectionWarning :=
  (PrefixSearch.findIter (s.patterns.map fun p => p.pattern.toList.map Char.toLower)
      (content.map Char.toLower)).filterMap fun hit =>
    s.patterns[hit.word]?.map fun info =>
      ⟨info.pattern, info.severity, hit.start, hit.stop, info.description⟩

def regexWarnings (s : Sanitizer) (content : List Char) : List InjectionWarning :=
  s.regexPatterns.flatMap fun pattern =>
    (pattern.regex.findIter content).map fun m =>
      ⟨pattern.name, pattern.severity, m.start, m.stop, pattern.description⟩

/-- The escaping of a role marker at the start of a line. -/
def escapeLine (line : List Char) : List Char :=
  let trimmed := Text.toLowercase (line.dropWhile Text.isWhitespace)
  if ["system:", "user:", "assistant:"].any fun role => role.toList.isPrefixOf trimmed then
    "[ESCAPED] ".toList ++ line
  else line

/-- Escape special tokens and role markers, and remove null bytes. -/
def escapeContent (content : List Char) : List Char :=
  let escaped := Text.replace "<|".toList "\\<|".toList content
  let escaped := Text.replace "|>".toList "|\\>".toList escaped
  let escaped := Text.replace "[INST]".toList "\\[INST]".toList escaped
  let escaped := Text.replace "[/INST]".toList "\\[/INST]".toList escaped
  let escaped := Text.replace ['\x00'] [] escaped
  Text.joinLines ((Text.lines escaped).map escapeLine)

/-- Sanitize content by detecting and escaping potential injection attempts; critical ones first. -/
def sanitize (s : Sanitizer) (content : List Char) : SanitizedOutput :=
  let warnings := (s.patternWarnings content ++ s.regexWarnings content).insertionSort
    fun a b => b.severity.value ≤ a.severity.value
  if warnings.any fun w => w.severity == .critical then ⟨escapeContent content, warnings, true⟩
  else ⟨content, warnings, false⟩

end Sanitizer

end Gyre.Safety
