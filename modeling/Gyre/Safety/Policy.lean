/- digest: Safety policy rules: patterns, their severities and what a violation leads to. -/

import Gyre.Safety.LeakDetector

set_option autoImplicit false
set_option relaxedAutoImplicit false

namespace Gyre.Safety

open Gyre.Lib

/-- Severity level for safety issues. -/
inductive Severity where
  | low
  | medium
  | high
  | critical
  deriving DecidableEq, Repr

/-- The numeric value that severities are compared by. -/
def Severity.value : Severity → Nat
  | low => 1
  | medium => 2
  | high => 3
  | critical => 4

inductive PolicyAction where
  | warn
  | block
  | review
  | sanitize
  deriving DecidableEq, Repr

structure PolicyRule where
  id : String
  description : String
  pattern : Regex
  severity : Severity
  action : PolicyAction

def PolicyRule.matches (rule : PolicyRule) (content : List Char) : Bool :=
  rule.pattern.isMatch content

structure Policy where
  rules : List PolicyRule

def Policy.check (policy : Policy) (content : List Char) : List PolicyRule :=
  policy.rules.filter fun rule => rule.matches content

/-- A rule with a given action is violated. -/
def Policy.calls (policy : Policy) (action : PolicyAction) (content : List Char) : Bool :=
  (policy.check content).any fun rule => rule.action == action

section Defaults

open Regex

/-- `.`, which stands for no line break. -/
def anyChar : Regex := .set (· != '\n')

/-- `[^\s]`. -/
def solid : Regex := .set fun c => !Text.isWhitespace c

/-- `Policy::default`; `isWord` is the table of word characters behind `\w`. -/
def Policy.default (isWord : Char → Bool) : Policy where
  rules :=
    [⟨"system_file_access", "Attempt to access system files",
        alts (ilit "/etc/passwd") [ilit "/etc/shadow", ilit ".ssh/", ilit ".aws/credentials"],
        .critical, .block⟩,
      ⟨"crypto_private_key", "Potential cryptocurrency private key",
        seqs [alts (seqs [ilit "private", opt anyChar, ilit "key"])
            [seqs [ilit "seed", opt anyChar, ilit "phrase"], ilit "mnemonic"],
          .times anyChar 0 (some 20), rep (.set isHex) 64],
        .critical, .block⟩,
      ⟨"sql_pattern", "SQL-like pattern detected",
        alts (seqs [ilit "DROP", plus space, ilit "TABLE"])
          [seqs [ilit "DELETE", plus space, ilit "FROM"],
            seqs [ilit "INSERT", plus space, ilit "INTO"],
            seqs [ilit "UPDATE", plus space, plus (.set isWord), plus space, ilit "SET"]],
        .medium, .warn⟩,
      ⟨"shell_injection", "Potential shell command injection",
        alts (seqs [lit ";", star space, ilit "rm", plus space, ilit "-rf"])
          [seqs [lit ";", star space, ilit "curl", plus space, star anyChar, lit "|", star space,
              ilit "sh"],
            seqs [lit "`", star anyChar, lit "`"]],
        .critical, .block⟩,
      ⟨"excessive_urls", "Excessive number of URLs detected",
        atLeast (seqs [lit "http", opt (lit "s"), lit "://", plus solid, star space]) 10,
        .low, .warn⟩,
      ⟨"encoded_exploit", "Potential encoded exploit payload",
        alts (ilit "base64_decode")
          [seqs [ilit "eval", star space, lit "(", star space, ilit "base64"],
            seqs [ilit "atob", star space, lit "("]],
        .high, .sanitize⟩,
      ⟨"obfuscated_string", "Potential obfuscated content", atLeast solid 500, .medium, .warn⟩]

end Defaults

end Gyre.Safety
