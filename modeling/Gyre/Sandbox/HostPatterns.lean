/- digest: The matchers of host patterns agree on host names, but for the bare domain of a wildcard. -/

import Gyre.Lib.HostNames
import Gyre.Safety.Egress
import Gyre.Sandbox.Proxy

/-!
A pattern is matched against a host by the endpoint allowlist of WASM tools, by the credential
injector, by the policy of the sandbox proxy, by its domain allowlist and by the egress policy. The
first two compare letters as they are; their hosts come out of URLs in lower case.
-/

set_option autoImplicit false
set_option relaxedAutoImplicit false

namespace Gyre.Sandbox

open Gyre.Lib Gyre.Lib.HostNames

/-- `str::to_lowercase` on a text that is ASCII. -/
def LowersAscii (u : Text.Unicode) : Prop :=
  ∀ s : List Char, (∀ c ∈ s, c.toNat < 128) → u.lowercase s = s.map Char.toLower

/-- A pattern is the name of a host, or a wildcard over one. -/
def HostPattern (pattern : List Char) : Prop :=
  HostName ((wildcardSuffix pattern).getD pattern)

instance (pattern : List Char) : Decidable (HostPattern pattern) :=
  inferInstanceAs (Decidable (HostName _))

/-- The pattern of a WASM endpoint with a host only. -/
def endpoint (pattern : List Char) : Tools.Wasm.EndpointPattern := ⟨pattern, none, []⟩

/-- All matchers give the same answer. -/
def MatchersAgree (u : Text.Unicode) (pattern host : List Char) : Prop :=
  (endpoint pattern).hostMatches host = Tools.Wasm.hostMatchesPattern host pattern ∧
    DefaultPolicyDecider.wantsCredential u host pattern = Tools.Wasm.hostMatchesPattern host pattern ∧
    (DomainPattern.new u pattern).isMatch u host = Tools.Wasm.hostMatchesPattern host pattern ∧
    Safety.hostMatches pattern host = Tools.Wasm.hostMatchesPattern host pattern

instance (u : Text.Unicode) (pattern host : List Char) : Decidable (MatchersAgree u pattern host) :=
  inferInstanceAs (Decidable (_ ∧ _ ∧ _ ∧ _))

section Matchers

/-- The egress policy wants a label of its own before the dot. -/
private theorem under_iff {suffix host : List Char} :
    Under suffix host ↔ suffix.length + 1 < host.length ∧ suffix <:+ host ∧
      host[host.length - suffix.length - 1]? = some '.' := by
  constructor
  · rintro ⟨label, hne, rfl⟩
    have hpos : 0 < label.length := List.length_pos_iff.mpr hne
    have hindex : (label ++ '.' :: suffix).length - suffix.length - 1 = label.length := by
      simp only [List.length_append, List.length_cons]
      omega
    refine ⟨?_, ⟨label ++ ['.'], by simp⟩, ?_⟩
    · simp only [List.length_append, List.length_cons]
      omega
    · rw [hindex, List.getElem?_append_right (Nat.le_refl _), Nat.sub_self]
      rfl
  · rintro ⟨hlength, ⟨before, rfl⟩, hdot⟩
    have hindex : (before ++ suffix).length - suffix.length - 1 = before.length - 1 := by
      rw [List.length_append]
      omega
    rw [List.length_append] at hlength
    have hbefore : before.length - 1 < before.length := by omega
    rw [hindex, List.getElem?_append_left hbefore, ← List.getLast?_eq_getElem?] at hdot
    obtain ⟨label, rfl⟩ := List.getLast?_eq_some_iff.mp hdot
    refine ⟨label, ?_, by simp⟩
    rintro rfl
    simp only [List.nil_append, List.length_singleton] at hlength
    omega

private theorem folded_eq {s : List Char} (hsolid : ∀ c ∈ s, Text.isWhitespace c = false)
    (hlast : s.getLast? ≠ some '.') : Safety.foldedHost s = s.map Char.toLower := by
  have hend : s.rdropWhile (· == '.') = s := by
    rw [List.rdropWhile_eq_self_iff]
    intro hne hdot
    apply hlast
    rw [List.getLast?_eq_some_getLast hne, beq_iff_eq.mp hdot]
  unfold Safety.foldedHost
  rw [Text.trim_of_solid hsolid, hend]

private theorem HostPattern.cases {pattern : List Char} (h : HostPattern pattern) :
    (wildcardSuffix pattern = none ∧ HostName pattern) ∨
      ∃ suffix, pattern = '*' :: '.' :: suffix ∧ HostName suffix := by
  unfold HostPattern at h
  cases hsuffix : wildcardSuffix pattern with
  | none =>
    rw [hsuffix] at h
    exact .inl ⟨rfl, h⟩
  | some suffix =>
    rw [hsuffix] at h
    exact .inr ⟨suffix, wildcardSuffix_eq_some.mp hsuffix, h⟩

private theorem HostPattern.ascii {pattern : List Char} (h : HostPattern pattern) :
    ∀ c ∈ pattern, c.toNat < 128 := by
  rcases h.cases with ⟨-, hname⟩ | ⟨suffix, rfl, hname⟩
  · exact hname.ascii
  · intro c hc
    rcases List.mem_cons.mp hc with rfl | hc
    · decide
    · rcases List.mem_cons.mp hc with rfl | hc
      · decide
      · exact hname.ascii c hc

private theorem HostPattern.folded {pattern : List Char} (h : HostPattern pattern) :
    Safety.foldedHost pattern = pattern.map Char.toLower := by
  rcases h.cases with ⟨-, hname⟩ | ⟨suffix, rfl, hname⟩
  · exact folded_eq hname.solid hname.last
  · apply folded_eq
    · intro c hc
      rcases List.mem_cons.mp hc with rfl | hc
      · decide
      · rcases List.mem_cons.mp hc with rfl | hc
        · decide
        · exact hname.solid c hc
    · have hne := hname.nonempty
      rw [List.getLast?_cons_of_ne_nil (by simp), List.getLast?_cons_of_ne_nil hne]
      exact hname.last

private theorem HostPattern.nonempty {pattern : List Char} (h : HostPattern pattern) :
    pattern ≠ [] := by
  rcases h.cases with ⟨-, hname⟩ | ⟨suffix, rfl, -⟩
  · exact hname.nonempty
  · simp

private theorem egress_matches_iff {pattern host : List Char} (hp : HostPattern pattern)
    (hh : HostName host) :
    Safety.hostMatches pattern host = true ↔
      Stands (pattern.map Char.toLower) (host.map Char.toLower) := by
  have hpattern : (pattern.map Char.toLower).isEmpty = false := by
    rw [List.isEmpty_map, List.isEmpty_eq_false_iff]
    exact hp.nonempty
  have hhost : (host.map Char.toLower).isEmpty = false := by
    rw [List.isEmpty_map, List.isEmpty_eq_false_iff]
    exact hh.nonempty
  unfold Safety.hostMatches Stands
  simp only [hp.folded, folded_eq hh.solid hh.last, hpattern, hhost, Bool.or_self,
    Bool.false_eq_true, if_false]
  cases hsuffix : wildcardSuffix (pattern.map Char.toLower) with
  | none =>
    split
    next suffix heq =>
      rw [heq] at hsuffix
      cases hsuffix
    next => simp
  | some suffix =>
    rw [wildcardSuffix_eq_some.mp hsuffix]
    simp only [Bool.and_eq_true, decide_eq_true_eq, List.isSuffixOf_iff_suffix, beq_iff_eq]
    rw [under_iff, and_assoc]

variable {u : Text.Unicode}

private theorem policy_matches_eq (hu : LowersAscii u) {pattern host : List Char}
    (hp : HostPattern pattern) (hh : HostName host) :
    DefaultPolicyDecider.wantsCredential u host pattern =
      Tools.Wasm.hostMatchesPattern (host.map Char.toLower) (pattern.map Char.toLower) := by
  unfold DefaultPolicyDecider.wantsCredential hostMatchesPattern
  rw [hu host hh.ascii, hu pattern hp.ascii]

private theorem lowered_matches_iff {pattern host : List Char} (hh : HostName host) :
    Tools.Wasm.hostMatchesPattern (host.map Char.toLower) (pattern.map Char.toLower) = true ↔
      Stands (pattern.map Char.toLower) (host.map Char.toLower) := by
  rw [Tools.Wasm.hostMatchesPattern_iff, stands_iff (head?_lower hh.head)]

private theorem domain_matches_iff (hu : LowersAscii u) {pattern host : List Char}
    (hp : HostPattern pattern) (hh : HostName host) :
    (DomainPattern.new u pattern).isMatch u host = true ↔
      Stands (pattern.map Char.toLower) (host.map Char.toLower) ∨
        Bare (pattern.map Char.toLower) (host.map Char.toLower) := by
  have hlowered := hu host hh.ascii
  unfold Stands Bare
  rw [wildcardSuffix_lower]
  rcases hp.cases with ⟨hnone, hname⟩ | ⟨suffix, rfl, hname⟩
  · have hexact : "*.".toList.isPrefixOf pattern = false := by
      rw [Bool.eq_false_iff]
      intro hprefixed
      obtain ⟨suffix, rfl⟩ := List.isPrefixOf_iff_prefix.mp hprefixed
      cases hnone
    simp only [DomainPattern.new, DomainPattern.isMatch, hexact, Bool.false_eq_true, if_false, hlowered,
      hu pattern hname.ascii, hnone, Option.map_none, beq_iff_eq, reduceCtorEq, or_false]
  · have hwildcard : "*.".toList.isPrefixOf ('*' :: '.' :: suffix) = true :=
      List.isPrefixOf_iff_prefix.mpr ⟨suffix, rfl⟩
    have hsuffix : wildcardSuffix ('*' :: '.' :: suffix) = some suffix := rfl
    have hunder : '.' :: suffix.map Char.toLower <:+ host.map Char.toLower ↔
        Under (suffix.map Char.toLower) (host.map Char.toLower) := suffix_iff_under (head?_lower hh.head)
    simp only [DomainPattern.new, DomainPattern.isMatch, hwildcard, if_true, hlowered, hsuffix,
      Option.map_some, Option.some.injEq, Bool.or_eq_true, beq_iff_eq, List.isSuffixOf_iff_suffix,
      List.drop_succ_cons, List.drop_zero, hu suffix hname.ascii, hunder]
    constructor
    · rintro (heq | h)
      · exact .inr heq.symm
      · exact .inl h
    · rintro (h | heq)
      · exact .inr h
      · exact .inl heq.symm

end Matchers

/-- On host names, letters apart, the egress policy and the proxy's policy match exactly what a pattern
stands for, the domain allowlist the bare domain of a wildcard as well; the allowlist and the credential
injector of WASM tools always agree, and with the others on lower case. -/
theorem host_patterns_agree {u : Text.Unicode} (hu : LowersAscii u) {pattern host : List Char}
    (hp : HostPattern pattern) (hh : HostName host) :
    (Safety.hostMatches pattern host = true ↔
      Stands (pattern.map Char.toLower) (host.map Char.toLower)) ∧
    DefaultPolicyDecider.wantsCredential u host pattern = Safety.hostMatches pattern host ∧
    ((DomainPattern.new u pattern).isMatch u host = true ↔
      Stands (pattern.map Char.toLower) (host.map Char.toLower) ∨
        Bare (pattern.map Char.toLower) (host.map Char.toLower)) ∧
    (endpoint pattern).hostMatches host = Tools.Wasm.hostMatchesPattern host pattern ∧
    (pattern.map Char.toLower = pattern → host.map Char.toLower = host →
      Tools.Wasm.hostMatchesPattern host pattern = Safety.hostMatches pattern host) := by
  have hegress := egress_matches_iff hp hh
  have hlowered : Tools.Wasm.hostMatchesPattern (host.map Char.toLower) (pattern.map Char.toLower) =
      Safety.hostMatches pattern host := by
    rw [Bool.eq_iff_iff, lowered_matches_iff hh, hegress]
  refine ⟨hegress, ?_, domain_matches_iff hu hp hh, rfl, ?_⟩
  · rw [policy_matches_eq hu hp hh, hlowered]
  · intro hpattern hhost
    rw [hpattern, hhost] at hlowered
    exact hlowered

section Examples

/-- Lower-casing that knows ASCII only. -/
private def asciiTables : Text.Unicode where
  isWord _ := false
  isPrintable _ := true
  lowercase s := s.map Char.toLower
  uppercase s := s.map Char.toUpper

theorem host_patterns_agree_subdomain :
    Safety.hostMatches "*.example.com".toList "Api.Example.com".toList = true ∧
      DefaultPolicyDecider.wantsCredential asciiTables "Api.Example.com".toList
        "*.example.com".toList = true := by
  have hu : LowersAscii asciiTables := fun _ _ => rfl
  have hp : HostPattern "*.example.com".toList := by decide
  have hh : HostName "Api.Example.com".toList := by decide
  have hagree := host_patterns_agree hu hp hh
  have hmatches : Safety.hostMatches "*.example.com".toList "Api.Example.com".toList = true := by decide
  exact ⟨hmatches, hagree.2.1.trans hmatches⟩

/-- The domain allowlist matches the bare domain of a wildcard, and no other matcher does. -/
theorem bare_domain_matched :
    ¬ MatchersAgree asciiTables "*.example.com".toList "example.com".toList := by
  decide

end Examples

end Gyre.Sandbox
