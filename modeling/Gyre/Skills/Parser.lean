/- digest: Reading a SKILL.md: line endings, frontmatter, name and prompt. -/

import Gyre.Lib.Text
import Gyre.Skills.Skill

set_option autoImplicit false
set_option relaxedAutoImplicit false

namespace Gyre.Skills

open Gyre.Lib

/-- Maximum file size for SKILL.md. -/
def maxPromptFileSize : Nat := 64 * 1024

def maxKeywordsPerSkill : Nat := 20

def maxPatternsPerSkill : Nat := 5

def maxTagsPerSkill : Nat := 10

def minKeywordTagLength : Nat := 3

/-- `ActivationCriteria::enforce_limits`; lengths are in bytes. -/
def ActivationCriteria.enforceLimits (a : ActivationCriteria) : ActivationCriteria where
  keywords := (a.keywords.filter fun k => decide (k.utf8ByteSize ≥ minKeywordTagLength)).take
    maxKeywordsPerSkill
  patterns := a.patterns.take maxPatternsPerSkill
  tags := (a.tags.filter fun t => decide (t.utf8ByteSize ≥ minKeywordTagLength)).take
    maxTagsPerSkill
  maxContextTokens := a.maxContextTokens

/-- `validate_skill_name`: `^[a-zA-Z0-9][a-zA-Z0-9._-]{0,63}$`. -/
def validateSkillName (name : String) : Bool :=
  match name.toList with
  | [] => false
  | c :: cs =>
    c.isAlphanum && cs.all (fun d => d.isAlphanum || d == '.' || d == '_' || d == '-') &&
      decide (cs.length ≤ 63)

/-- Line endings as LF. -/
def normalizeLineEndings : List Char → List Char
  | [] => []
  | '\r' :: '\n' :: rest => '\n' :: normalizeLineEndings rest
  | c :: rest => (if c = '\r' then '\n' else c) :: normalizeLineEndings rest

inductive SkillParseError where
  | missingFrontmatter
  | invalidYaml (reason : String)
  | emptyPrompt
  | invalidName (name : String)
  deriving DecidableEq, Repr

def SkillParseError.display : SkillParseError → String
  | .missingFrontmatter =>
    "Missing YAML frontmatter delimiters (expected `---` at start of file)"
  | .invalidYaml reason => s!"Invalid YAML frontmatter: {reason}"
  | .emptyPrompt => "Prompt body is empty (no content after frontmatter)"
  | .invalidName name =>
    s!"Invalid skill name '{name}': must match [a-zA-Z0-9][a-zA-Z0-9._-]\x7b0,63\x7d"

structure ParsedSkill where
  manifest : SkillManifest
  promptContent : String
  deriving DecidableEq, Repr

/-- The text before the first `---` line and the text from it on. The text has no carriage returns
here, so the offset that `find_closing_delimiter` counts is where the line starts. -/
def findClosingDelimiter (before line : List Char) :
    List Char → Option (List Char × List Char)
  | [] => if Text.trim line = "---".toList then some (before, line) else none
  | '\n' :: rest =>
    if Text.trim line = "---".toList then some (before, line ++ '\n' :: rest)
    else findClosingDelimiter (before ++ line ++ ['\n']) [] rest
  | c :: rest => findClosingDelimiter before (line ++ [c]) rest

/-- `parse_skill_md`, given the YAML reader. -/
def parseSkillMd (frontmatter : String → Except String SkillManifest) (content : List Char) :
    Except SkillParseError ParsedSkill :=
  let content := if content.head? = some '\ufeff' then content.tail else content
  let trimmed := content.dropWhile fun c => c == '\n' || c == '\r'
  if !"---".toList.isPrefixOf trimmed then .error .missingFrontmatter
  else
    match Text.splitFirst ['\n'] (trimmed.drop 3) with
    | none => .error .missingFrontmatter
    | some (_, afterFirstLine) =>
      match findClosingDelimiter [] [] afterFirstLine with
      | none => .error .missingFrontmatter
      | some (yaml, afterYaml) =>
        match frontmatter (String.ofList yaml) with
        | .error reason => .error (.invalidYaml reason)
        | .ok manifest =>
          if !validateSkillName manifest.name then .error (.invalidName manifest.name)
          else
            let manifest := { manifest with activation := manifest.activation.enforceLimits }
            let body := ((Text.splitFirst ['\n'] afterYaml).map Prod.snd).getD []
            let promptContent := body.dropWhile (· == '\n')
            if (Text.trim promptContent).isEmpty then .error .emptyPrompt
            else .ok ⟨manifest, String.ofList promptContent⟩

end Gyre.Skills
