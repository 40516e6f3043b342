/- digest: What an export of axioms shows: shareable axioms only, and no personal data in their texts. -/

import Gyre.Template.AxiomSharing
import Mathlib.Data.List.Forall2

/-!
The filter and the predicate agree on every axiom, so the scrubbing of the export finds nothing to
do. The content hash is not looked at by either, and its digits can read as a telephone number.
-/

set_option autoImplicit false
set_option relaxedAutoImplicit false

namespace Gyre.Template

open Gyre.Lib

variable {isDigit : Char → Bool}

/-- Why an axiom that is not shareable is held back. -/
def reasonFor (isDigit : Char → Bool) (a : Axiom) : FilterReason :=
  let domain := Text.toLowercase a.domain
  if domain ∈ blockedDomains then .blockedDomain a.domain
  else if domain ∉ shareableDomains then .nonShareableDomain a.domain
  else .containsPii (", ".intercalate (piiFindings isDigit a))

section Agreement

private theorem any_eq_mem (domains : List (List Char)) (domain : List Char) :
    domains.any (· == domain) = decide (domain ∈ domains) := by
  rw [Bool.eq_iff_iff, decide_eq_true_iff, List.any_eq_true]
  constructor
  · rintro ⟨d, hd, heq⟩
    exact eq_of_beq heq ▸ hd
  · exact fun h => ⟨domain, h, beq_self_eq_true domain⟩

/-- The two detectors of the filter look for what the predicate looks for. -/
private theorem piiFindings_eq_nil_iff (a : Axiom) :
    piiFindings isDigit a = [] ↔ containsPii isDigit a.name = false ∧
      containsPii isDigit a.statement = false ∧ containsPii isDigit a.evidence = false := by
  have hfield (label : String) (text : List Char) :
      ((if emailRe.isMatch text then ["email in " ++ label] else []) ++
        (if (phoneRe isDigit).isMatch text then ["phone in " ++ label] else [])) = [] ↔
        containsPii isDigit text = false := by
    unfold containsPii
    cases emailRe.isMatch text <;> cases (phoneRe isDigit).isMatch text <;> simp
  simp only [piiFindings, List.flatMap_eq_nil_iff, hfield]
  simp [labelled]

private theorem filterOne_eq (acc : List Axiom × List FilteredAxiom) (a : Axiom) :
    filterOne isDigit acc a =
      if isShareable isDigit a then (acc.1 ++ [a], acc.2)
      else (acc.1, acc.2 ++ [⟨a.name, reasonFor isDigit a⟩]) := by
  have hfindings : piiFindings isDigit a = [] ↔ _ := piiFindings_eq_nil_iff a
  simp only [filterOne, isShareable, reasonFor, any_eq_mem, decide_eq_true_eq, Bool.not_eq_true',
    decide_eq_false_iff_not]
  by_cases hblocked : Text.toLowercase a.domain ∈ blockedDomains
  · simp [hblocked]
  · by_cases hshared : Text.toLowercase a.domain ∈ shareableDomains
    · simp only [hblocked, hshared, if_false, not_true_eq_false]
      cases hdetail : piiFindings isDigit a with
      | nil =>
        obtain ⟨hname, hstatement, hevidence⟩ := hfindings.mp hdetail
        simp [detectPiiDetail, hdetail, hname, hstatement, hevidence]
      | cons finding rest =>
        have hpii : ¬ (containsPii isDigit a.name = false ∧
            containsPii isDigit a.statement = false ∧ containsPii isDigit a.evidence = false) := by
          intro h
          rw [hfindings.mpr h] at hdetail
          cases hdetail
        have hfound : (!containsPii isDigit a.name && !containsPii isDigit a.statement &&
            !containsPii isDigit a.evidence) = false := by
          rw [Bool.eq_false_iff]
          intro h
          simp only [Bool.and_eq_true, Bool.not_eq_true'] at h
          exact hpii ⟨h.1.1, h.1.2, h.2⟩
        simp [detectPiiDetail, hdetail, hfound]
    · simp [hblocked, hshared]

/-- What the loop has passed over is split, in order, into the shareable axioms and the others. -/
private theorem foldl_filterOne (axioms : List Axiom) (acc : List Axiom × List FilteredAxiom) :
    axioms.foldl (filterOne isDigit) acc =
      (acc.1 ++ axioms.filter (isShareable isDigit),
        acc.2 ++ (axioms.filter (!isShareable isDigit ·)).map
          fun a => ⟨a.name, reasonFor isDigit a⟩) := by
  induction axioms generalizing acc with
  | nil => simp
  | cons a rest ih =>
    rw [List.foldl_cons, ih, filterOne_eq]
    cases hshared : isShareable isDigit a <;> simp [hshared]

/-- The filter splits what it is given as the predicate does. -/
theorem filter_eq (axioms : List Axiom) :
    filter isDigit axioms =
      (axioms.filter (isShareable isDigit),
        (axioms.filter (!isShareable isDigit ·)).map fun a => ⟨a.name, reasonFor isDigit a⟩) := by
  rw [filter, foldl_filterOne, List.nil_append, List.nil_append]

end Agreement

section Texts

/-- The parts of the predicate. -/
private theorem isShareable_parts {a : Axiom} (h : isShareable isDigit a = true) :
    Text.toLowercase a.domain ∉ blockedDomains ∧ Text.toLowercase a.domain ∈ shareableDomains ∧
      containsPii isDigit a.name = false ∧ containsPii isDigit a.statement = false ∧
      containsPii isDigit a.evidence = false := by
  simp only [isShareable, any_eq_mem, decide_eq_true_eq, Bool.not_eq_true', decide_eq_false_iff_not] at h
  split at h
  · cases h
  · next hblocked =>
    split at h
    · cases h
    · next hshared =>
      simp only [Bool.and_eq_true, Bool.not_eq_true'] at h
      exact ⟨hblocked, not_not.mp hshared, h.1.1, h.1.2, h.2⟩

/-- Nothing is scrubbed from a text without personal data. -/
theorem scrubPii_of_clean {text : List Char} (h : containsPii isDigit text = false) :
    scrubPii isDigit text = text := by
  obtain ⟨hemail, hphone⟩ := Bool.or_eq_false_iff.mp h
  rw [scrubPii, Regex.replaceAll_of_not_isMatch hemail, Regex.replaceAll_of_not_isMatch hphone]

/-- A domain that may be shared consists of letters. -/
private theorem domain_clean {domain : List Char} (h : Text.toLowercase domain ∈ shareableDomains) :
    containsPii isDigit domain = false := by
  have hletters : ∀ w ∈ shareableDomains, w.all (·.isLower) = true ∧ 'k' ∉ w ∧ '\u0307' ∉ w := by
    decide
  obtain ⟨hall, hk, hdot⟩ := hletters _ h
  have hlower := List.all_eq_true.mp hall
  have hmem {c : Char} (hc : c ∈ domain) (hupper : c.isUpper = false) : c.isLower = true := by
    rcases Text.mem_toLowercase hc hupper with hc | hc | hc
    · exact hlower c hc
    · exact absurd hc hk
    · exact absurd hc hdot
  have hemail : emailRe.isMatch domain = false := by
    have hneeds : Regex.Needs (· = '@') emailRe := .inr (.inl fun c hc => eq_of_beq hc)
    refine Regex.not_isMatch_of_needs hneeds fun c hc hat => ?_
    subst hat
    exact absurd (hmem hc (by decide)) (by decide)
  have hphone : (phoneRe isDigit).isMatch domain = false := by
    have hneeds : Regex.Needs (fun c => digit isDigit c = true) (phoneRe isDigit) :=
      .inr (.inl fun c hc => hc)
    refine Regex.not_isMatch_of_needs hneeds fun c hc hdigit => ?_
    have hsmall : c.isUpper = false ∧ c.isLower = false := by
      rw [← Bool.not_eq_true, ← Bool.not_eq_true]
      have hval : c.val.toNat = c.toNat := rfl
      unfold digit at hdigit
      split at hdigit
      · simp only [Char.isDigit, Bool.and_eq_true, decide_eq_true_eq, ge_iff_le, UInt32.le_iff_toNat_le,
          Char.reduceVal, UInt32.reduceToNat] at hdigit
        simp only [Text.isUpper_iff, Text.isLower_iff, ge_iff_le, UInt32.le_iff_toNat_le, Char.reduceVal,
          UInt32.reduceToNat]
        omega
      · simp only [Text.isUpper_iff, Text.isLower_iff, ge_iff_le, UInt32.le_iff_toNat_le, Char.reduceVal,
          UInt32.reduceToNat]
        omega
    rw [hmem hc hsmall.1] at hsmall
    exact absurd hsmall.2 (by decide)
  rw [containsPii, hemail, hphone, Bool.or_self]

end Texts

section Export

variable {env : Surroundings}

/-- What an export shows of an axiom, and that it may. -/
structure Shown (env : Surroundings) (a : Axiom) (e : AnonymizedAxiom) : Prop where
  domain : Text.toLowercase a.domain ∉ blockedDomains
  texts : e.name = a.name ∧ e.statement = a.statement ∧ e.domain = a.domain ∧ e.evidence = a.evidence
  clean : ∀ text ∈ [e.name, e.statement, e.domain, e.evidence], containsPii env.isDigit text = false
  hash : e.contentHash = computeContentHash env.sha256 e.statement e.domain 10

private theorem anonymizeAxiom_shown {a : Axiom} (h : isShareable env.isDigit a = true) :
    Shown env a (anonymizeAxiom env a) := by
  obtain ⟨hblocked, hshared, hname, hstatement, hevidence⟩ := isShareable_parts h
  have hdomain : containsPii env.isDigit a.domain = false := domain_clean hshared
  refine ⟨hblocked, ⟨scrubPii_of_clean hname, scrubPii_of_clean hstatement, rfl,
    scrubPii_of_clean hevidence⟩, ?_, rfl⟩
  intro text htext
  simp only [anonymizeAxiom, scrubPii_of_clean hname, scrubPii_of_clean hstatement,
    scrubPii_of_clean hevidence, List.mem_cons, List.not_mem_nil, or_false] at htext
  rcases htext with rfl | rfl | rfl | rfl
  · exact hname
  · exact hstatement
  · exact hdomain
  · exact hevidence

/-- A row that is in force and holds a shareable axiom. -/
def AxiomRow.shareable (env : Surroundings) (row : AxiomRow) : Bool :=
  row.active == 1 && isShareable env.isDigit (readAxiom env row)

private theorem listActive_filter (rows : List AxiomRow) :
    (listActive env rows).filter (isShareable env.isDigit) =
      (rows.filter (AxiomRow.shareable env)).map (readAxiom env) := by
  rw [listActive, List.filter_map, List.filter_filter]
  refine congrArg (List.map (readAxiom env)) (List.filter_congr fun row _ => ?_)
  exact Bool.and_comm _ _

/-- The filter gives the shareable axioms and reports each other one, in order; what is exported are the
shareable axioms in force, their texts without personal data; the other rows make no difference. -/
theorem export_private (env : Surroundings) (rows : List AxiomRow) :
    (∀ axioms : List Axiom,
      filter env.isDigit axioms =
        (axioms.filter (isShareable env.isDigit),
          (axioms.filter (!isShareable env.isDigit ·)).map
            fun a => ⟨a.name, reasonFor env.isDigit a⟩)) ∧
    List.Forall₂ (Shown env) ((listActive env rows).filter (isShareable env.isDigit))
      (exportShareable env rows) ∧
    ∀ others : List AxiomRow,
      others.filter (AxiomRow.shareable env) = rows.filter (AxiomRow.shareable env) →
        exportShareable env others = exportShareable env rows := by
  have hexport (rows : List AxiomRow) : exportShareable env rows =
      ((listActive env rows).filter (isShareable env.isDigit)).map (anonymizeAxiom env) := by
    rw [exportShareable, filter_eq]
  refine ⟨filter_eq, ?_, fun others hsame => ?_⟩
  · rw [hexport, List.forall₂_map_right_iff, List.forall₂_same]
    intro a ha
    exact anonymizeAxiom_shown (List.mem_filter.mp ha).2
  · rw [hexport, hexport, listActive_filter, listActive_filter, hsame]

private def adage (name statement domain : List Char) (active : Int) : AxiomRow :=
  ⟨"7f0c".toList, name, statement, domain, [], "2026-01-01".toList, active⟩

/-- The digest of one text only, all that is needed below. -/
private def oneDigest (bytes : List UInt8) : List UInt8 :=
  if bytes = Bytes.ofText "Less is more\nuniversal\n1.0".toList then
    [0xe5, 0x21, 0x9e, 0xd3, 0x76, 0x76, 0x41, 0x73, 0xed, 0x7b, 0x5e, 0x34, 0x66, 0xff, 0x01, 0x2c,
      0xc0, 0xef, 0x71, 0xa1, 0x5b, 0x87, 0x67, 0x50, 0x99, 0x7a, 0xa9, 0xed, 0x0b, 0x9b, 0xb6, 0x81]
  else []

private def asciiSurroundings : Surroundings where
  isDigit _ := false
  sha256 := oneDigest
  parseUuid _ := none
  parseTime _ := some 1767225600
  now := 1767225600

theorem export_private_adage :
    exportShareable asciiSurroundings [adage "brevity".toList "Less is more".toList "universal".toList 1,
        adage "pref".toList "Greg prefers dark mode".toList "Personal".toList 1,
        adage "draft".toList "Haste makes waste".toList "general".toList 0] =
      exportShareable asciiSurroundings
        [adage "brevity".toList "Less is more".toList "universal".toList 1] :=
  (export_private asciiSurroundings
    [adage "brevity".toList "Less is more".toList "universal".toList 1]).2.2 _ (by decide +kernel)

/-- The content hash is a text as well, and has a match of a telephone number in it. -/
theorem hash_reads_as_phone :
    ¬ ∀ (env : Surroundings) (rows : List AxiomRow), ∀ e ∈ exportShareable env rows,
      containsPii env.isDigit e.contentHash = false := by
  intro h
  have hfound : (exportShareable asciiSurroundings
      [adage "brevity".toList "Less is more".toList "universal".toList 1]).any
        (fun e => containsPii asciiSurroundings.isDigit e.contentHash) = true := by
    decide +kernel
  obtain ⟨e, he, hpii⟩ := List.any_eq_true.mp hfound
  rw [h asciiSurroundings _ e he] at hpii
  cases hpii

end Export

end Gyre.Template
