/- digest: Choosing the skills for a message: scores, the candidate limit and the context budget. -/

import Mathlib.Algebra.BigOperators.Ring.List
import Mathlib.Algebra.Order.BigOperators.Group.List
import Mathlib.Algebra.Order.Group.Nat
import Mathlib.Algebra.Ring.Nat
import Gyre.Lib.Greedy
import Gyre.Lib.Rounding
import Gyre.Skills.Parser

/-!
An operation that overflows ends the selection, as it does where overflow checks are on.
-/

set_option autoImplicit false
set_option relaxedAutoImplicit false

namespace Gyre.Skills

open Gyre.Lib

def maxKeywordScore : Nat := 30

def maxTagScore : Nat := 15

def maxRegexScore : Nat := 40

/-- What decides whether a skill matches a message: the tables of the standard library and the
regular expressions, compiled where they can be. -/
structure Matching where
  lowercase : List Char → List Char
  isAlphanumeric : Char → Bool
  compile : String → Option (List Char → Bool)

/-- Addition of `u32`. -/
@[grind =] def addU32 (a b : Nat) : Option Nat := if a + b < 2 ^ 32 then some (a + b) else none

/-- A score that grows from 0. -/
def tally (points : List Nat) : Option Nat := points.foldlM addU32 0

/-- `trim_matches`. -/
def trimMatches (p : Char → Bool) (s : List Char) : List Char :=
  ((s.dropWhile p).reverse.dropWhile p).reverse

section Scores

variable (m : Matching)

def keywordPoints (messageLower kwLower : List Char) : Nat :=
  if (Text.splitWhitespace messageLower).any fun word =>
      trimMatches (fun c => !m.isAlphanumeric c) word == kwLower then 10
  else if Text.contains kwLower messageLower then 5 else 0

def tagPoints (messageLower tagLower : List Char) : Nat :=
  if Text.contains tagLower messageLower then 3 else 0

def scoreSkill (skill : LoadedSkill) (messageLower messageOriginal : List Char) : Option Nat := do
  let a := skill.manifest.activation
  let keywordScore ← tally (a.keywords.map fun k => keywordPoints m messageLower (m.lowercase k.toList))
  let tagScore ← tally (a.tags.map fun t => tagPoints messageLower (m.lowercase t.toList))
  let regexScore ← tally ((a.patterns.filterMap m.compile).map fun re =>
    if re messageOriginal then 20 else 0)
  let score ← addU32 0 (min keywordScore maxKeywordScore)
  let score ← addU32 score (min tagScore maxTagScore)
  addU32 score (min regexScore maxRegexScore)

end Scores

structure ScoredSkill where
  skill : LoadedSkill
  score : Nat
  deriving DecidableEq, Repr

/-- About a quarter of a token for a byte, computed in double precision. -/
def approxTokens (skill : LoadedSkill) : Nat := roundTo 53 skill.promptContent.utf8ByteSize / 4

def declaredTokens (skill : LoadedSkill) : Nat := skill.manifest.activation.maxContextTokens

/-- The actual estimate counts only where it is more than twice what the skill declares. -/
def tokenCost (skill : LoadedSkill) : Nat :=
  max (if approxTokens skill > declaredTokens skill * 2 then approxTokens skill
    else declaredTokens skill) 1

/-- The cost, where twice the declared number is a `usize`. -/
def checkedCost (skill : LoadedSkill) : Option Nat :=
  if declaredTokens skill * 2 < 2 ^ 64 then some (tokenCost skill) else none

@[grind =] def selectLoop (maxCandidates : Nat) :
    List ScoredSkill → (result : List LoadedSkill) → (budgetRemaining : Nat) → Option (List LoadedSkill)
  | [], result, _ => some result
  | entry :: entries, result, budgetRemaining =>
    if maxCandidates ≤ result.length then some result
    else (checkedCost entry.skill).bind fun cost =>
      if cost ≤ budgetRemaining then
        selectLoop maxCandidates entries (result ++ [entry.skill]) (budgetRemaining - cost)
      else selectLoop maxCandidates entries result budgetRemaining

/-- The skills with a positive score. -/
def scoredSkills (m : Matching) (message : List Char) (availableSkills : List LoadedSkill) :
    Option (List ScoredSkill) :=
  (availableSkills.mapM fun skill =>
    (scoreSkill m skill (m.lowercase message) message).map (ScoredSkill.mk skill)).map
      (List.filter fun e => decide (0 < e.score))

/-- Highest score first, in a stable sort. -/
def ranked (scored : List ScoredSkill) : List ScoredSkill :=
  scored.mergeSort fun a b => decide (b.score ≤ a.score)

def prefilterSkills (m : Matching) (message : List Char) (availableSkills : List LoadedSkill)
    (maxCandidates maxContextTokens : Nat) : Option (List LoadedSkill) :=
  if availableSkills.isEmpty || message.isEmpty then some []
  else (scoredSkills m message availableSkills).bind fun scored =>
    selectLoop maxCandidates (ranked scored) [] maxContextTokens

section Sums

theorem tally_of_lt {points : List Nat} (h : points.sum < 2 ^ 32) : tally points = some points.sum := by
  have hfrom : ∀ start, start + points.sum < 2 ^ 32 →
      points.foldlM addU32 start = some (start + points.sum) := by
    intro start hstart
    induction points generalizing start with
    | nil => rfl
    | cons p points ih =>
      rw [List.sum_cons] at h hstart ⊢
      have hfirst : addU32 start p = some (start + p) := if_pos (by omega)
      rw [List.foldlM_cons, hfirst, Option.bind_eq_bind, Option.bind_some,
        ih (by omega) (start + p) (by omega), Nat.add_assoc]
  rw [tally, hfrom 0 (by omega), Nat.zero_add]

theorem tally_of_bounded {points : List Nat} {bound count : Nat} (hbound : ∀ p ∈ points, p ≤ bound)
    (hcount : points.length ≤ count) (h : count * bound < 2 ^ 32) : ∃ n, tally points = some n := by
  have hsum : points.sum ≤ points.length * bound := by
    rw [← Nat.nsmul_eq_mul]
    exact List.sum_le_card_nsmul points bound hbound
  have hmore : points.length * bound ≤ count * bound := Nat.mul_le_mul_right _ hcount
  exact ⟨points.sum, tally_of_lt (by omega)⟩

/-- The limits that are enforced when a skill is loaded. -/
def Limited (skill : LoadedSkill) : Prop :=
  ∃ a : ActivationCriteria, skill.manifest.activation = a.enforceLimits

/-- A loaded skill is scored without an overflow. -/
theorem exists_score (m : Matching) {skill : LoadedSkill} (h : Limited skill)
    (messageLower message : List Char) : ∃ n, scoreSkill m skill messageLower message = some n := by
  obtain ⟨a, ha⟩ := h
  have hkeywords : skill.manifest.activation.keywords.length ≤ 20 := by
    rw [ha]
    exact List.length_take_le _ _
  have htags : skill.manifest.activation.tags.length ≤ 10 := by
    rw [ha]
    exact List.length_take_le _ _
  have hpatterns : (skill.manifest.activation.patterns.filterMap m.compile).length ≤ 5 := by
    refine (List.length_filterMap_le _ _).trans ?_
    rw [ha]
    exact List.length_take_le _ _
  have hkeywordPoints : ∀ p ∈ skill.manifest.activation.keywords.map fun k =>
      keywordPoints m messageLower (m.lowercase k.toList), p ≤ 10 := by
    intro p hp
    obtain ⟨k, -, rfl⟩ := List.mem_map.mp hp
    unfold keywordPoints
    split
    · exact le_rfl
    · split <;> omega
  have htagPoints : ∀ p ∈ skill.manifest.activation.tags.map fun t =>
      tagPoints messageLower (m.lowercase t.toList), p ≤ 3 := by
    intro p hp
    obtain ⟨t, -, rfl⟩ := List.mem_map.mp hp
    unfold tagPoints
    split <;> omega
  have hregexPoints : ∀ p ∈ (skill.manifest.activation.patterns.filterMap m.compile).map fun re =>
      if re message then 20 else 0, p ≤ 20 := by
    intro p hp
    obtain ⟨re, -, rfl⟩ := List.mem_map.mp hp
    split <;> omega
  obtain ⟨keywordScore, hkeyword⟩ :=
    tally_of_bounded hkeywordPoints ((List.length_map _).trans_le hkeywords) (by omega)
  obtain ⟨tagScore, htag⟩ := tally_of_bounded htagPoints ((List.length_map _).trans_le htags) (by omega)
  obtain ⟨regexScore, hregex⟩ :=
    tally_of_bounded hregexPoints ((List.length_map _).trans_le hpatterns) (by omega)
  have hadd : ∀ x y, x + y < 2 ^ 32 → addU32 x y = some (x + y) := fun x y hxy => if_pos hxy
  have hcaps : maxKeywordScore = 30 ∧ maxTagScore = 15 ∧ maxRegexScore = 40 := ⟨rfl, rfl, rfl⟩
  unfold scoreSkill
  dsimp only
  rw [hkeyword, htag, hregex]
  refine ⟨0 + min keywordScore maxKeywordScore + min tagScore maxTagScore +
    min regexScore maxRegexScore, ?_⟩
  simp only [Option.bind_eq_bind, Option.bind_some]
  rw [hadd _ _ (by omega), Option.bind_some, hadd _ _ (by omega), Option.bind_some,
    hadd _ _ (by omega)]

end Sums

section Selection

variable {m : Matching} {message : List Char} {availableSkills : List LoadedSkill}
  {maxCandidates maxContextTokens : Nat}

theorem checkedCost_eq {skill : LoadedSkill} (h : declaredTokens skill < 2 ^ 63) :
    checkedCost skill = some (tokenCost skill) := if_pos (by omega)

/-- A skill is estimated at no more than twice what it costs. -/
theorem approxTokens_le (skill : LoadedSkill) : approxTokens skill ≤ 2 * tokenCost skill := by
  unfold tokenCost
  split <;> omega

/-- The loop chooses greedily, under the count and what is left of the budget. -/
theorem selectLoop_chosen {entries taken : List ScoredSkill}
    (hdeclared : ∀ e ∈ entries, declaredTokens e.skill < 2 ^ 63)
    (hbudget : (taken.map fun e => tokenCost e.skill).sum ≤ maxContextTokens) :
    ∃ r, Chosen (fun e => tokenCost e.skill) maxCandidates maxContextTokens taken entries r ∧
      selectLoop maxCandidates entries (taken.map ScoredSkill.skill)
        (maxContextTokens - (taken.map fun e => tokenCost e.skill).sum) =
          some ((taken ++ r).map ScoredSkill.skill) := by
  induction entries generalizing taken with
  | nil => exact ⟨[], .nil taken, by rw [List.append_nil, selectLoop]⟩
  | cons e entries ih =>
    have hrest := fun x hx => hdeclared x (List.mem_cons_of_mem e hx)
    rw [selectLoop, List.length_map]
    by_cases hcount : maxCandidates ≤ taken.length
    · rw [if_pos hcount]
      exact ⟨[], .of_full hcount _, by rw [List.append_nil]⟩
    · rw [if_neg hcount, checkedCost_eq (hdeclared e List.mem_cons_self), Option.bind_some]
      by_cases hfits : (taken.map fun e => tokenCost e.skill).sum + tokenCost e.skill ≤ maxContextTokens
      · have htaken : ((taken ++ [e]).map fun e => tokenCost e.skill).sum =
            (taken.map fun e => tokenCost e.skill).sum + tokenCost e.skill := by
          rw [List.map_append, List.sum_append, List.map_singleton, List.sum_singleton]
        obtain ⟨r, hr, hloop⟩ := ih hrest (by rw [htaken]; exact hfits)
        refine ⟨e :: r, .take (by omega) hfits hr, ?_⟩
        rw [if_pos (by omega)]
        rw [htaken, List.map_append, List.map_singleton, List.append_assoc, List.singleton_append,
          ← Nat.sub_sub] at hloop
        exact hloop
      · obtain ⟨r, hr, hloop⟩ := ih hrest hbudget
        refine ⟨r, .skip (.inr (by omega)) hr, ?_⟩
        rw [if_neg (by omega)]
        exact hloop

/-- What is chosen for a message from skills in the order of their scores. -/
structure Selects (m : Matching) (message : List Char) (availableSkills : List LoadedSkill)
    (maxCandidates maxContextTokens : Nat) (ranking chosen : List ScoredSkill) : Prop where
  scores : ∀ e ∈ ranking, scoreSkill m e.skill (m.lowercase message) message = some e.score
  positive : ∀ e ∈ ranking, 0 < e.score
  everyone : (ranking.map ScoredSkill.skill).Perm (availableSkills.filter fun skill =>
    decide (∃ n ∈ scoreSkill m skill (m.lowercase message) message, 0 < n))
  ordered : ranking.Pairwise fun a b => b.score ≤ a.score
  part : chosen.Sublist ranking
  count : chosen.length ≤ maxCandidates
  cost : (chosen.map fun e => tokenCost e.skill).sum ≤ maxContextTokens
  estimate : (chosen.map fun e => approxTokens e.skill).sum ≤ 2 * maxContextTokens
  left_out : ∀ before e after, ranking = before ++ e :: after →
    ∃ taken rest, chosen = taken ++ rest ∧ taken.Sublist before ∧
      ((∃ rest', rest = e :: rest') ∨ maxCandidates ≤ taken.length ∨
        maxContextTokens < (taken.map fun e => tokenCost e.skill).sum + tokenCost e.skill)

theorem ranked_perm (scored : List ScoredSkill) : (ranked scored).Perm scored :=
  List.mergeSort_perm scored _

theorem ranked_ordered (scored : List ScoredSkill) :
    (ranked scored).Pairwise fun a b => b.score ≤ a.score := by
  have hsorted : (ranked scored).Pairwise fun a b => decide (b.score ≤ a.score) = true := by
    refine List.pairwise_mergeSort (fun a b c hab hbc => ?_) (fun a b => ?_) scored
    · rw [decide_eq_true_eq] at hab hbc ⊢
      omega
    · rw [Bool.or_eq_true, decide_eq_true_eq, decide_eq_true_eq]
      omega
  exact hsorted.imp fun h => of_decide_eq_true h

variable (m message) in
/-- Loaded skills are all scored, and those with a positive score are kept. -/
theorem scoredSkills_spec (hloaded : ∀ skill ∈ availableSkills, Limited skill) :
    ∃ scored, scoredSkills m message availableSkills = some scored ∧
      (∀ e ∈ scored, scoreSkill m e.skill (m.lowercase message) message = some e.score ∧ 0 < e.score) ∧
      scored.map ScoredSkill.skill = availableSkills.filter fun skill =>
        decide (∃ n ∈ scoreSkill m skill (m.lowercase message) message, 0 < n) := by
  induction availableSkills with
  | nil => exact ⟨[], rfl, by simp, rfl⟩
  | cons skill rest ih =>
    obtain ⟨scored, hscored, hgood, hskills⟩ := ih fun s hs => hloaded s (List.mem_cons_of_mem _ hs)
    obtain ⟨n, hn⟩ := exists_score m (hloaded skill List.mem_cons_self) (m.lowercase message) message
    unfold scoredSkills at hscored ⊢
    obtain ⟨all, hall, rfl⟩ := Option.map_eq_some_iff.mp hscored
    rw [List.mapM_cons, hn, Option.map_some, hall]
    refine ⟨_, rfl, ?_⟩
    have hmem : (∃ k ∈ some n, 0 < k) ↔ 0 < n := by simp
    by_cases hpos : 0 < n
    · have hcons : (ScoredSkill.mk skill n :: all).filter (fun e => decide (0 < e.score)) =
          ScoredSkill.mk skill n :: all.filter fun e => decide (0 < e.score) :=
        List.filter_cons_of_pos (decide_eq_true hpos)
      rw [hcons, List.filter_cons_of_pos (by rw [hn]; exact decide_eq_true (hmem.mpr hpos)),
        List.map_cons, hskills, List.forall_mem_cons]
      exact ⟨⟨⟨hn, hpos⟩, hgood⟩, rfl⟩
    · have hcons : (ScoredSkill.mk skill n :: all).filter (fun e => decide (0 < e.score)) =
          all.filter fun e => decide (0 < e.score) :=
        List.filter_cons_of_neg (by rwa [decide_eq_true_eq])
      rw [hcons, List.filter_cons_of_neg (by rw [hn, decide_eq_true_eq, hmem]; exact hpos)]
      exact ⟨hgood, hskills⟩

/-- The early return for no skills changes nothing. -/
theorem prefilterSkills_eq (hmessage : message ≠ []) :
    prefilterSkills m message availableSkills maxCandidates maxContextTokens =
      (scoredSkills m message availableSkills).bind fun scored =>
        selectLoop maxCandidates (ranked scored) [] maxContextTokens := by
  have hfull : message.isEmpty = false := List.isEmpty_eq_false_iff.mpr hmessage
  unfold prefilterSkills
  cases availableSkills with
  | nil =>
    have hnone : scoredSkills m message [] = some [] := rfl
    rw [hnone, Option.bind_some, ranked, List.mergeSort_nil, selectLoop]
    rfl
  | cons skill rest =>
    rw [hfull]
    rfl

/-- A selection ends without an overflow; for a message that is not empty it chooses, in the order of
their scores, the skills that score and fit. Their declared limits are below half of a `usize`. -/
theorem prefilterSkills_selects (m : Matching) (message : List Char)
    (availableSkills : List LoadedSkill) (maxCandidates maxContextTokens : Nat)
    (hloaded : ∀ skill ∈ availableSkills, Limited skill)
    (hdeclared : ∀ skill ∈ availableSkills,
      (∃ n ∈ scoreSkill m skill (m.lowercase message) message, 0 < n) →
        declaredTokens skill < 2 ^ 63) :
    ∃ ranking chosen : List ScoredSkill,
      prefilterSkills m message availableSkills maxCandidates maxContextTokens =
          some (chosen.map ScoredSkill.skill) ∧
        (message = [] → chosen = []) ∧
        (message ≠ [] →
          Selects m message availableSkills maxCandidates maxContextTokens ranking chosen) := by
  by_cases hmessage : message = []
  · refine ⟨[], [], ?_, fun _ => rfl, fun h => absurd hmessage h⟩
    rw [prefilterSkills, hmessage, if_pos (by simp)]
    rfl
  · obtain ⟨scored, hscored, hgood, hskills⟩ := scoredSkills_spec m message hloaded
    have hperm := ranked_perm scored
    have hranked : ∀ e ∈ ranked scored,
        scoreSkill m e.skill (m.lowercase message) message = some e.score ∧ 0 < e.score :=
      fun e he => hgood e (hperm.mem_iff.mp he)
    have hlimits : ∀ e ∈ ranked scored, declaredTokens e.skill < 2 ^ 63 := by
      intro e he
      have hmem : e.skill ∈ availableSkills.filter fun skill =>
          decide (∃ n ∈ scoreSkill m skill (m.lowercase message) message, 0 < n) := by
        rw [← hskills]
        exact List.mem_map_of_mem (hperm.mem_iff.mp he)
      obtain ⟨havailable, hscores⟩ := List.mem_filter.mp hmem
      exact hdeclared _ havailable (of_decide_eq_true hscores)
    obtain ⟨chosen, hchosen, hloop⟩ :=
      @selectLoop_chosen maxCandidates maxContextTokens (ranked scored) [] hlimits (Nat.zero_le _)
    rw [List.map_nil, List.map_nil, List.sum_nil, Nat.sub_zero, List.nil_append] at hloop
    refine ⟨ranked scored, chosen, ?_, fun h => absurd h hmessage, fun _ => ?_⟩
    · rw [prefilterSkills_eq hmessage, hscored, Option.bind_some]
      exact hloop
    · have hcost : (chosen.map fun e => tokenCost e.skill).sum ≤ maxContextTokens :=
        hchosen.cost_le (Nat.zero_le _)
      refine ⟨fun e he => (hranked e he).1, fun e he => (hranked e he).2, ?_, ranked_ordered scored,
        hchosen.sublist, hchosen.length_le (Nat.zero_le _), hcost, ?_, ?_⟩
      · rw [← hskills]
        exact hperm.map _
      · have hestimate : (chosen.map fun e => approxTokens e.skill).sum ≤
            (chosen.map fun e => 2 * tokenCost e.skill).sum :=
          List.sum_le_sum fun e _ => approxTokens_le e.skill
        rw [List.sum_map_mul_left] at hestimate
        omega
      · intro before e after hranking
        obtain ⟨taken, rest, hsplit, htaken, hreason⟩ := hchosen.passed_over hranking
        exact ⟨taken, rest, hsplit, htaken.sublist, hreason⟩

/-- ASCII text only, and no regular expressions. -/
def asciiMatching : Matching := ⟨List.map Char.toLower, Char.isAlphanum, fun _ => none⟩

/-- A skill that declares `declared` tokens for eight bytes of prompt. -/
def reviewSkill (declared : Nat) : LoadedSkill where
  manifest := {
    name := "review"
    version := "1"
    description := ""
    activation := { keywords := ["review"], patterns := [], tags := [], maxContextTokens := declared }
    requires := none }
  promptContent := "01234567"
  trust := .trusted
  source := .user ""

private theorem limited_reviewSkill (declared : Nat) : Limited (reviewSkill declared) :=
  ⟨(reviewSkill declared).manifest.activation, by
    simp only [reviewSkill, ActivationCriteria.enforceLimits]
    rfl⟩

theorem review_selected : ∃ ranking chosen : List ScoredSkill,
    prefilterSkills asciiMatching "review".toList [reviewSkill 2] 1 2 =
        some (chosen.map ScoredSkill.skill) ∧
      ("review".toList = [] → chosen = []) ∧
      ("review".toList ≠ [] →
        Selects asciiMatching "review".toList [reviewSkill 2] 1 2 ranking chosen) :=
  prefilterSkills_selects asciiMatching "review".toList [reviewSkill 2] 1 2
    (fun skill hskill => List.mem_singleton.mp hskill ▸ limited_reviewSkill 2)
    (fun skill hskill _ => by
      rw [List.mem_singleton.mp hskill]
      decide)

/-- A skill estimated at twice what it declares fits into a budget of what it declares. -/
theorem estimate_over_budget :
    prefilterSkills asciiMatching "review".toList [reviewSkill 1] 1 1 = some [reviewSkill 1] ∧
      1 < approxTokens (reviewSkill 1) := by
  have hscored : scoredSkills asciiMatching "review".toList [reviewSkill 1] =
      some [⟨reviewSkill 1, 10⟩] := by
    decide +kernel
  constructor
  · rw [prefilterSkills_eq (by decide), hscored, Option.bind_some, ranked, List.mergeSort_singleton]
    decide +kernel
  · decide +kernel

end Selection

end Gyre.Skills
