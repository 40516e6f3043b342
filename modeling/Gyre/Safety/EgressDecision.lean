/- digest: An egress request is decided by the scan, the rules and the mode, and audited once. -/

import Gyre.Safety.Egress

set_option autoImplicit false
set_option relaxedAutoImplicit false

namespace Gyre.Safety

open Gyre.Lib

namespace EgressPolicy

/-- Some rule of a list matches a host. -/
def Matched (rules : List (List Char)) (host : List Char) : Prop :=
  ∃ rule ∈ rules, hostMatches rule host = true

/-- The judge is asked, and its answer is a verdict that allows the request. -/
def JudgeAllows (fromStr : List Char → Option Wire) (p : EgressPolicy) (req : EgressRequest) :
    Prop :=
  ∃ llm content verdict, p.judgeLlm = some llm ∧ llm (judgePrompt req) = .answered content ∧
    parseJudgeVerdict fromStr content = some verdict ∧ verdict.allow = true

/-- The mode lets a request through that matches no rule. -/
def ModeAllows (fromStr : List Char → Option Wire) (p : EgressPolicy) (req : EgressRequest) : Prop :=
  p.mode = .observe ∨ p.mode = .judge ∧ p.JudgeAllows fromStr req

/-- What a request must be to be let through. -/
structure Permits (fromStr : List Char → Option Wire) (p : EgressPolicy) (req : EgressRequest) :
    Prop where
  clean : p.leakDetector.scanHttpRequest req.url req.headers req.body = .ok ()
  undenied : ¬ Matched p.deny req.host
  allowed : Matched p.allow req.host ∨ p.ModeAllows fromStr req

/-- A request was let through. -/
def Accepts (fromStr : List Char → Option Wire) (p : EgressPolicy) (req : EgressRequest) : Prop :=
  (p.checkRequest fromStr req).1 = .ok ()

/-- One event about the request was recorded, and it says whether the request was let through. -/
def AuditedOnce (req : EgressRequest) (checked : Except EgressError Unit × List EgressEvent) : Prop :=
  ∃ event, checked.2 = [event] ∧ event.tool = req.tool ∧ event.method = req.method ∧
    event.host = req.host ∧ event.path = req.path ∧
    (event.decision = .allowed ↔ checked.1 = .ok ())

section Rules

variable {p : EgressPolicy} {host : List Char}

private theorem find_matching (rules : List (List Char)) :
    (∃ rule, rules.find? (hostMatches · host) = some rule) ↔ Matched rules host := by
  constructor
  · rintro ⟨rule, hfound⟩
    have hmem := List.mem_of_find?_eq_some hfound
    have hmatches := List.find?_some hfound
    exact ⟨rule, hmem, hmatches⟩
  · rintro ⟨rule, hmem, hmatches⟩
    have hsome : (rules.find? (hostMatches · host)).isSome = true := by
      rw [List.find?_isSome]
      exact ⟨rule, hmem, hmatches⟩
    exact Option.isSome_iff_exists.mp hsome

private theorem matchRules_deny_iff :
    (∃ rule, p.matchRules host = .deny rule) ↔ Matched p.deny host := by
  rw [← find_matching]
  unfold matchRules
  cases p.deny.find? (hostMatches · host) with
  | some rule => exact ⟨fun _ => ⟨rule, rfl⟩, fun _ => ⟨rule, rfl⟩⟩
  | none =>
    cases p.allow.find? (hostMatches · host) <;> simp

private theorem matchRules_allow_iff :
    (∃ rule, p.matchRules host = .allow rule) ↔ ¬ Matched p.deny host ∧ Matched p.allow host := by
  rw [← find_matching, ← find_matching]
  unfold matchRules
  cases p.deny.find? (hostMatches · host) with
  | some rule => simp
  | none =>
    cases p.allow.find? (hostMatches · host) <;> simp

end Rules

section Audit

variable {req : EgressRequest}

private theorem accept_audited (mode reason : String) : AuditedOnce req (accept req mode reason) :=
  ⟨_, rfl, rfl, rfl, rfl, rfl, ⟨fun _ => rfl, fun _ => rfl⟩⟩

private theorem refuse_audited (mode reason : String) : AuditedOnce req (refuse req mode reason) := by
  refine ⟨_, rfl, rfl, rfl, rfl, rfl, ?_⟩
  constructor
  · intro h
    cases h
  · intro h
    cases h

end Audit

section Decision

variable (fromStr : List Char → Option Wire) (p : EgressPolicy) (req : EgressRequest)

/-- Every way the judge's call ends is audited, and lets through what the judge allows. -/
private theorem judgeUnmatched_spec :
    AuditedOnce req (p.judgeUnmatched fromStr req) ∧
      ((p.judgeUnmatched fromStr req).1 = .ok () ↔ p.JudgeAllows fromStr req) := by
  unfold judgeUnmatched JudgeAllows
  cases hllm : p.judgeLlm with
  | none =>
    refine ⟨refuse_audited _ _, ?_⟩
    simp [refuse]
  | some llm =>
    cases hreply : llm (judgePrompt req) with
    | timedOut =>
      simp only [hreply]
      refine ⟨refuse_audited _ _, ?_⟩
      simp [refuse, hreply]
    | failed e =>
      simp only [hreply]
      refine ⟨refuse_audited _ _, ?_⟩
      simp [refuse, hreply]
    | answered content =>
      cases hverdict : parseJudgeVerdict fromStr content with
      | none =>
        simp only [hreply, hverdict]
        refine ⟨refuse_audited _ _, ?_⟩
        simp [refuse, hreply, hverdict]
      | some verdict =>
        cases hallow : verdict.allow with
        | true =>
          simp only [hreply, hverdict, hallow]
          refine ⟨accept_audited _ _, ?_⟩
          simp [accept, hreply, hverdict, hallow]
        | false =>
          simp only [hreply, hverdict, hallow]
          refine ⟨refuse_audited _ _, ?_⟩
          simp [refuse, hreply, hverdict, hallow]

/-- So is what the mode decides. -/
private theorem checkUnmatched_spec :
    AuditedOnce req (p.checkUnmatched fromStr req) ∧
      ((p.checkUnmatched fromStr req).1 = .ok () ↔ p.ModeAllows fromStr req) := by
  unfold checkUnmatched ModeAllows
  cases hmode : p.mode with
  | observe =>
    refine ⟨accept_audited _ _, ?_⟩
    simp [accept]
  | enforce =>
    refine ⟨refuse_audited _ _, ?_⟩
    simp [refuse]
  | judge =>
    obtain ⟨haudited, hjudged⟩ := judgeUnmatched_spec fromStr p req
    refine ⟨haudited, ?_⟩
    simpa using hjudged

private theorem checkRequest_audited : AuditedOnce req (p.checkRequest fromStr req) := by
  unfold checkRequest
  split
  next e hleak =>
    refine ⟨_, rfl, rfl, rfl, rfl, rfl, ?_⟩
    constructor
    · intro h
      cases h
    · intro h
      cases h
  next hclean =>
    split
    next rule hrule => exact refuse_audited _ _
    next rule hrule => exact accept_audited _ _
    next hrule => exact (checkUnmatched_spec fromStr p req).1

private theorem accepts_iff : p.Accepts fromStr req ↔ p.Permits fromStr req := by
  unfold Accepts checkRequest
  cases hscan : p.leakDetector.scanHttpRequest req.url req.headers req.body with
  | error e =>
    constructor
    · intro h
      cases h
    · intro h
      have hclean := h.clean
      rw [hscan] at hclean
      cases hclean
  | ok _ =>
    have hdeny : (∃ rule, p.matchRules req.host = .deny rule) ↔ Matched p.deny req.host :=
      matchRules_deny_iff
    have hallow : (∃ rule, p.matchRules req.host = .allow rule) ↔
        ¬ Matched p.deny req.host ∧ Matched p.allow req.host := matchRules_allow_iff
    cases hrule : p.matchRules req.host with
    | deny rule =>
      have hdenied : Matched p.deny req.host := hdeny.mp ⟨rule, hrule⟩
      constructor
      · intro h
        cases h
      · intro h
        exact absurd hdenied h.undenied
    | allow rule =>
      obtain ⟨hundenied, hallowed⟩ := hallow.mp ⟨rule, hrule⟩
      constructor
      · intro _
        exact ⟨hscan, hundenied, .inl hallowed⟩
      · intro _
        rfl
    | unmatched =>
      have hundenied : ¬ Matched p.deny req.host := by
        intro h
        obtain ⟨rule, hother⟩ := hdeny.mpr h
        rw [hrule] at hother
        cases hother
      have hunallowed : ¬ Matched p.allow req.host := by
        intro h
        obtain ⟨rule, hother⟩ := hallow.mpr ⟨hundenied, h⟩
        rw [hrule] at hother
        cases hother
      constructor
      · intro h
        exact ⟨hscan, hundenied, .inr ((checkUnmatched_spec fromStr p req).2.mp h)⟩
      · intro h
        have hmode := h.allowed.resolve_left hunallowed
        exact (checkUnmatched_spec fromStr p req).2.mpr hmode

end Decision

private theorem Matched.mono {rules rules' : List (List Char)} {host : List Char}
    (h : Matched rules host) (hsubset : rules ⊆ rules') : Matched rules' host := by
  obtain ⟨rule, hmem, hmatches⟩ := h
  exact ⟨rule, hsubset hmem, hmatches⟩

/-- A request is let through exactly if its scan is clean, no deny rule matches its host, and an allow
rule does or the mode lets it through; one event is audited, which says so; and more deny rules let no
more requests through, more allow rules no fewer. -/
theorem egress_decided_and_audited (fromStr : List Char → Option Wire) (p : EgressPolicy)
    (req : EgressRequest) :
    (p.Accepts fromStr req ↔ p.Permits fromStr req) ∧
      AuditedOnce req (p.checkRequest fromStr req) ∧
      (∀ deny, p.deny ⊆ deny → ¬ p.Accepts fromStr req →
        ¬ Accepts fromStr { p with deny := deny } req) ∧
      ∀ allow, p.allow ⊆ allow → p.Accepts fromStr req →
        Accepts fromStr { p with allow := allow } req := by
  refine ⟨accepts_iff fromStr p req, checkRequest_audited fromStr p req, ?_, ?_⟩
  · intro deny hsubset hrefused haccepted
    apply hrefused
    rw [accepts_iff] at haccepted ⊢
    have hundenied : ¬ Matched p.deny req.host := fun h => haccepted.undenied (h.mono hsubset)
    exact ⟨haccepted.clean, hundenied, haccepted.allowed⟩
  · intro allow hsubset haccepted
    rw [accepts_iff] at haccepted ⊢
    have hallowed : Matched allow req.host ∨ p.ModeAllows fromStr req :=
      haccepted.allowed.imp (fun h => h.mono hsubset) id
    exact ⟨haccepted.clean, haccepted.undenied, hallowed⟩

end EgressPolicy

/-- The apex is not matched by a wildcard, nor is what only ends alike. -/
example : hostMatches "*.example.com".toList "A.B.Example.com.".toList = true ∧
    hostMatches "*.example.com".toList "example.com".toList = false ∧
    hostMatches "*.example.com".toList "evilexample.com".toList = false := by decide

end Gyre.Safety
