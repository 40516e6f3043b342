/- digest: What a WASM tool may reach over HTTP, and the matching of hosts. -/

import Gyre.Lib.HostNames

set_option autoImplicit false
set_option relaxedAutoImplicit false

namespace Gyre.Tools.Wasm

open Gyre.Lib Gyre.Lib.HostNames

/-- `host_matches_pattern`; a pattern `*.suffix` stands for every host under the suffix. -/
def hostMatchesPattern (host pattern : List Char) : Bool :=
  if pattern = host then true
  else match pattern with
    | '*' :: '.' :: suffix =>
      if suffix.isSuffixOf host && suffix.length < host.length then
        let before := host.take (host.length - suffix.length)
        ['.'].isSuffixOf before || before.isEmpty
      else false
    | _ => false

/-- What stands before a suffix ends in a dot. -/
private theorem dotted_iff {suffix host : List Char} :
    '.' :: suffix <:+ host ↔ suffix <:+ host ∧
      ['.'] <:+ host.take (host.length - suffix.length) := by
  constructor
  · rintro ⟨label, rfl⟩
    have hsplit : label ++ '.' :: suffix = (label ++ ['.']) ++ suffix := by simp
    have hlength : (label ++ '.' :: suffix).length - suffix.length = (label ++ ['.']).length := by
      rw [hsplit, List.length_append]
      omega
    rw [hlength, hsplit, List.take_left]
    exact ⟨List.suffix_append _ _, List.suffix_append _ _⟩
  · rintro ⟨⟨before, rfl⟩, hdot⟩
    have hlength : (before ++ suffix).length - suffix.length = before.length := by
      rw [List.length_append]
      omega
    rw [hlength, List.take_left] at hdot
    obtain ⟨label, rfl⟩ := hdot
    exact ⟨label, by simp⟩

/-- A host matches a pattern as it is written, or ends in its suffix after a dot. -/
theorem hostMatchesPattern_iff (pattern host : List Char) :
    hostMatchesPattern host pattern = true ↔
      host = pattern ∨ ∃ suffix, wildcardSuffix pattern = some suffix ∧ '.' :: suffix <:+ host := by
  by_cases heq : pattern = host
  · simp [hostMatchesPattern, heq]
  · have hother : host ≠ pattern := fun h => heq h.symm
    simp only [hostMatchesPattern, if_neg heq]
    cases hsuffix : wildcardSuffix pattern with
    | none =>
      simp only [hother, false_or, reduceCtorEq, false_and, exists_false, iff_false]
      split
      next suffix => cases hsuffix
      next => simp
    | some suffix =>
      obtain rfl := wildcardSuffix_eq_some.mp hsuffix
      simp only [hother, false_or, Option.some.injEq, exists_eq_left']
      rw [dotted_iff]
      constructor
      · intro h
        split at h
        next hends =>
          rw [Bool.and_eq_true, List.isSuffixOf_iff_suffix, decide_eq_true_eq] at hends
          rw [Bool.or_eq_true, List.isSuffixOf_iff_suffix] at h
          refine ⟨hends.1, h.resolve_right ?_⟩
          intro hempty
          have hlength := congrArg List.length (List.isEmpty_iff.mp hempty)
          rw [List.length_take, List.length_nil] at hlength
          omega
        next => cases h
      · rintro ⟨hends, hdot⟩
        have hlonger : suffix.length < host.length := by
          have hle := hdot.length_le
          rw [List.length_take, List.length_singleton] at hle
          omega
        rw [if_pos (by simp [hends, hlonger])]
        simp [hdot]

/-- Pattern for matching allowed HTTP endpoints; no methods stand for all methods. -/
structure EndpointPattern where
  host : List Char
  pathPrefix : Option (List Char)
  methods : List (List Char)

namespace EndpointPattern

/-- `host_matches`, the same text as `host_matches_pattern`. -/
def hostMatches (p : EndpointPattern) (urlHost : List Char) : Bool :=
  hostMatchesPattern urlHost p.host

def pathMatches (p : EndpointPattern) (urlPath : List Char) : Bool :=
  match p.pathPrefix with
  | none => true
  | some front => front.isPrefixOf urlPath

def methodMatches (u : Text.Unicode) (p : EndpointPattern) (method : List Char) : Bool :=
  p.methods.isEmpty || p.methods.any fun m => u.uppercase m == u.uppercase method

/-- `matches`. -/
def isMatch (u : Text.Unicode) (p : EndpointPattern) (urlHost urlPath method : List Char) : Bool :=
  p.hostMatches urlHost && p.pathMatches urlPath && p.methodMatches u method

end EndpointPattern

structure HttpCapability where
  allowlist : List EndpointPattern
  maxResponseBytes : Nat

structure Capabilities where
  http : Option HttpCapability

end Gyre.Tools.Wasm
