/- digest: The safety layer: what a tool's output goes through, and the wrapper it then stands in. -/

import Gyre.Safety.Sanitizer
import Gyre.Safety.Validator

set_option autoImplicit false
set_option relaxedAutoImplicit false

namespace Gyre.Safety

open Gyre.Lib

structure SafetyConfig where
  maxOutputLength : Nat
  injectionCheckEnabled : Bool
  deriving DecidableEq, Repr

structure SafetyLayer where
  sanitizer : Sanitizer
  validator : Validator
  policy : Policy
  leakDetector : LeakDetector
  config : SafetyConfig

/-- Escape an XML attribute value. -/
def escapeXmlAttr (s : List Char) : List Char :=
  Text.replace ['>'] "&gt;".toList (Text.replace ['<'] "&lt;".toList
    (Text.replace ['"'] "&quot;".toList (Text.replace ['&'] "&amp;".toList s)))

/-- Escape XML content. -/
def escapeXmlContent (s : List Char) : List Char :=
  Text.replace ['>'] "&gt;".toList (Text.replace ['<'] "&lt;".toList
    (Text.replace ['&'] "&amp;".toList s))

namespace SafetyLayer

def new (isWord : Char → Bool) (config : SafetyConfig) : SafetyLayer :=
  ⟨.new, .new, .default isWord, .new isWord, config⟩

/-- What stands for an output that is too long. -/
def truncatedNote (safety : SafetyLayer) (output : List Char) : List Char :=
  (s!"[Output truncated: {Regex.byteLength output} bytes exceeded maximum of " ++
    s!"{safety.config.maxOutputLength} bytes]").toList

def leakNote : List Char := "[Output blocked due to potential secret leakage]".toList

def policyNote : List Char := "[Output blocked by safety policy]".toList

/-- Sanitize tool output before it reaches the model. -/
def sanitizeToolOutput (safety : SafetyLayer) (toolName output : List Char) : SanitizedOutput :=
  if safety.config.maxOutputLength < Regex.byteLength output then
    ⟨safety.truncatedNote output,
      [⟨"output_too_large", .low, 0, Regex.byteLength output,
        s!"Output from tool '{String.ofList toolName}' was truncated due to size"⟩], true⟩
  else
    match safety.leakDetector.scanAndClean output with
    | .error _ => ⟨leakNote, [], true⟩
    | .ok cleaned =>
      let cleanedModified := cleaned != output
      if safety.policy.calls .block cleaned then ⟨policyNote, [], true⟩
      else
        let forceSanitize := safety.policy.calls .sanitize cleaned
        let wasModified := cleanedModified || forceSanitize
        if safety.config.injectionCheckEnabled || forceSanitize then
          let sanitized := safety.sanitizer.sanitize cleaned
          { sanitized with wasModified := sanitized.wasModified || wasModified }
        else ⟨cleaned, [], wasModified⟩

/-- Wrap content in safety delimiters for the model. -/
def wrapForLlm (toolName content : List Char) (sanitized : Bool) : List Char :=
  "<tool_output name=\"".toList ++ escapeXmlAttr toolName ++ "\" sanitized=\"".toList ++
    (toString sanitized).toList ++ "\">\n".toList ++ escapeXmlContent content ++
    "\n</tool_output>".toList

/-- The sanitised and wrapped form in which a tool's output reaches the model. -/
def wrapToolOutput (safety : SafetyLayer) (toolName output : String) : String :=
  let sanitized := safety.sanitizeToolOutput toolName.toList output.toList
  String.ofList (wrapForLlm toolName.toList sanitized.content sanitized.wasModified)

end SafetyLayer

section Escaping

/-- The replacement of one character. -/
theorem replace_single (c : Char) (rep s : List Char) :
    Text.replace [c] rep s = s.flatMap fun x => if x = c then rep else [x] := by
  unfold Text.replace
  induction s with
  | nil => rfl
  | cons x s ih =>
    rw [Text.replaceFrom, List.flatMap_cons]
    by_cases hx : x = c
    · subst hx
      have hfirst : [x].isPrefixOf (x :: s) = true := by simp
      rw [if_pos hfirst, if_pos rfl, List.length_singleton, ih]
    · have hfirst : ¬ [c].isPrefixOf (x :: s) = true := by simp [Ne.symm hx]
      rw [if_neg hfirst, if_neg hx, ih]
      rfl

/-- A character of the content as it stands in the wrapper. -/
def escapeChar (c : Char) : List Char :=
  if c = '&' then "&amp;".toList
  else if c = '<' then "&lt;".toList
  else if c = '>' then "&gt;".toList
  else [c]

theorem escapeXmlContent_eq (s : List Char) : escapeXmlContent s = s.flatMap escapeChar := by
  unfold escapeXmlContent
  rw [replace_single, replace_single, replace_single, List.flatMap_assoc, List.flatMap_assoc]
  congr 1
  funext c
  unfold escapeChar
  by_cases hamp : c = '&'
  · subst hamp
    rfl
  · by_cases hless : c = '<'
    · subst hless
      rfl
    · by_cases hgreater : c = '>'
      · subst hgreater
        rfl
      · simp [hamp, hless, hgreater]

/-- Escaped content has no angle brackets, so it cannot end the wrapper. -/
theorem no_bracket_in_escaped {c : Char} {s : List Char} (h : c ∈ escapeXmlContent s) :
    c ≠ '<' ∧ c ≠ '>' := by
  rw [escapeXmlContent_eq] at h
  obtain ⟨d, -, hd⟩ := List.mem_flatMap.mp h
  unfold escapeChar at hd
  split at hd
  · constructor <;> rintro rfl <;> revert hd <;> decide
  · split at hd
    · constructor <;> rintro rfl <;> revert hd <;> decide
    · split at hd
      · constructor <;> rintro rfl <;> revert hd <;> decide
      · rename_i hless hgreater
        obtain rfl := List.mem_singleton.mp hd
        exact ⟨hless, hgreater⟩

/-- What an escaped content stands for. -/
def unescapeXml : List Char → List Char
  | '&' :: 'a' :: 'm' :: 'p' :: ';' :: s => '&' :: unescapeXml s
  | '&' :: 'l' :: 't' :: ';' :: s => '<' :: unescapeXml s
  | '&' :: 'g' :: 't' :: ';' :: s => '>' :: unescapeXml s
  | c :: s => c :: unescapeXml s
  | [] => []

theorem unescapeXml_escapeXmlContent (s : List Char) : unescapeXml (escapeXmlContent s) = s := by
  rw [escapeXmlContent_eq]
  induction s with
  | nil => rfl
  | cons c s ih =>
    rw [List.flatMap_cons]
    by_cases hamp : c = '&'
    · subst hamp
      simp [escapeChar, unescapeXml, ih]
    · by_cases hless : c = '<'
      · subst hless
        simp [escapeChar, unescapeXml, ih]
      · by_cases hgreater : c = '>'
        · subst hgreater
          simp [escapeChar, unescapeXml, ih]
        · have hc : escapeChar c = [c] := by simp [escapeChar, hamp, hless, hgreater]
          rw [hc, List.singleton_append]
          simp [unescapeXml, hamp, ih]

theorem escapeXmlContent_injective : Function.Injective escapeXmlContent :=
  Function.LeftInverse.injective unescapeXml_escapeXmlContent

/-- A flag between two texts can be told from the other flag, and the text after it is what it is. -/
theorem flagged_inj {front x y : List Char} {b b' : Bool}
    (h : front ++ ((toString b).toList ++ x) = front ++ ((toString b').toList ++ y)) : x = y := by
  have hflag := List.append_cancel_left h
  have hletter (b : Bool) (rest : List Char) :
      ((toString b).toList ++ rest).head? = some (if b then 't' else 'f') := by
    cases b <;> rfl
  have hhead := congrArg List.head? hflag
  rw [hletter, hletter, Option.some.injEq] at hhead
  have hsame : b = b' := by
    cases b <;> cases b' <;> first | rfl | exact absurd hhead (by decide)
  subst hsame
  exact List.append_cancel_left hflag

/-- The wrapper gives its content away. -/
theorem wrapForLlm_content {toolName content content' : List Char} {sanitized sanitized' : Bool}
    (h : SafetyLayer.wrapForLlm toolName content sanitized =
      SafetyLayer.wrapForLlm toolName content' sanitized') : content = content' := by
  unfold SafetyLayer.wrapForLlm at h
  have hfront := List.append_cancel_right h
  rw [List.append_assoc, List.append_assoc, List.append_assoc (_ ++ _ ++ _),
    List.append_assoc (_ ++ _ ++ _)] at hfront
  have hbody := flagged_inj hfront
  exact escapeXmlContent_injective (List.append_cancel_left hbody)

end Escaping

end Gyre.Safety
