/- digest: Regular expressions with leftmost-first matching, and all their matches in a text. -/

import Mathlib.Algebra.GroupWithZero.Nat
import Mathlib.Data.List.Basic

/-!
A match prefers the earliest start, then the first alternative and the longest repetition that let
the rest of the expression match. All ends of an expression at a place are listed in that order, so
the match is the first of them.
-/

set_option autoImplicit false
set_option relaxedAutoImplicit false

namespace Gyre.Lib

/-- Regular expressions. `wordBoundary` holds between a word character and something else, and
`times r least most` repeats `r` greedily, without bound when `most` is `none`. -/
inductive Regex where
  | empty
  | set (p : Char → Bool)
  | wordBoundary (isWord : Char → Bool)
  | seq (r s : Regex)
  | alt (r s : Regex)
  | times (r : Regex) (least : Nat) (most : Option Nat)

namespace Regex

/-- A place in a text: the character before it and what follows. -/
structure Place where
  previous : Option Char
  rest : List Char
  deriving DecidableEq, Repr

/-- Up to `fuel` further iterations, more of them first. An iteration that consumes nothing is not
repeated. -/
@[grind =] def greedy (body : Place → List Place) : Nat → Place → List Place
  | 0, place => [place]
  | fuel + 1, place =>
    ((body place).filter fun next => decide (next.rest.length < place.rest.length)).flatMap
      (greedy body fuel) ++ [place]

/-- Exactly `n` iterations. -/
def exactly (body : Place → List Place) : Nat → Place → List Place
  | 0, place => [place]
  | n + 1, place => (body place).flatMap (exactly body n)

/-- The places at which a match of the expression can end, the preferred ones first. -/
def ends : Regex → Place → List Place
  | .empty, place => [place]
  | .set p, place =>
    match place.rest with
    | [] => []
    | c :: rest => if p c then [⟨some c, rest⟩] else []
  | .wordBoundary isWord, place =>
    let before := (place.previous.map isWord).getD false
    let after := (place.rest.head?.map isWord).getD false
    if before != after then [place] else []
  | .seq r s, place => (ends r place).flatMap (ends s)
  | .alt r s, place => ends r place ++ ends s place
  | .times r least most, place =>
    (exactly (ends r) least place).flatMap fun next =>
      greedy (ends r) ((most.map (· - least)).getD next.rest.length) next

/-- The number of bytes of a text in UTF-8. -/
def byteLength (s : List Char) : Nat := (s.map Char.utf8Size).sum

/-- A match: where it starts and stops, in bytes, and its text. -/
structure Match where
  start : Nat
  stop : Nat
  text : List Char
  deriving DecidableEq, Repr

/-- The matches in what is left of a text. `skip` characters still belong to the match before, and
an empty match right after a match does not count. -/
def matchesFrom (r : Regex) :
    (skip : Nat) → (fresh : Bool) → (previous : Option Char) → (offset : Nat) → List Char →
      List Match
  | skip + 1, _, _, offset, c :: rest =>
    matchesFrom r skip false (some c) (offset + c.utf8Size) rest
  | 0, fresh, previous, offset, c :: rest =>
    match (ends r ⟨previous, c :: rest⟩).head? with
    | none => matchesFrom r 0 true (some c) (offset + c.utf8Size) rest
    | some stop =>
      let text := (c :: rest).take (rest.length + 1 - stop.rest.length)
      match text.length with
      | 0 =>
        (if fresh then [⟨offset, offset, []⟩] else []) ++
          matchesFrom r 0 true (some c) (offset + c.utf8Size) rest
      | n + 1 =>
        ⟨offset, offset + byteLength text, text⟩ ::
          matchesFrom r n false (some c) (offset + c.utf8Size) rest
  | 0, fresh, previous, offset, [] =>
    if fresh && !(ends r ⟨previous, []⟩).isEmpty then [⟨offset, offset, []⟩] else []
  | _ + 1, _, _, _, [] => []

/-- `find_iter`: the leftmost matches that do not overlap. -/
def findIter (r : Regex) (content : List Char) : List Match :=
  matchesFrom r 0 true none 0 content

/-- `is_match`. -/
def isMatch (r : Regex) (content : List Char) : Bool := !(findIter r content).isEmpty

/-- What a replacement of all matches leaves of the rest of a text, with the matches found as by
`matchesFrom`. -/
def replaceFrom (r : Regex) (rep : List Char) :
    (skip : Nat) → (fresh : Bool) → (previous : Option Char) → List Char → List Char
  | skip + 1, _, _, c :: rest => replaceFrom r rep skip false (some c) rest
  | 0, fresh, previous, c :: rest =>
    match (ends r ⟨previous, c :: rest⟩).head? with
    | none => c :: replaceFrom r rep 0 true (some c) rest
    | some stop =>
      match rest.length + 1 - stop.rest.length with
      | 0 => (if fresh then rep else []) ++ c :: replaceFrom r rep 0 true (some c) rest
      | n + 1 => rep ++ replaceFrom r rep n false (some c) rest
  | 0, fresh, previous, [] => if fresh && !(ends r ⟨previous, []⟩).isEmpty then rep else []
  | _ + 1, _, _, [] => []

/-- `replace_all`, with a replacement that refers to no group. -/
def replaceAll (r : Regex) (rep content : List Char) : List Char :=
  replaceFrom r rep 0 true none content

/-- What a replacement of all matches leaves, when what stands for a match is made of its text. -/
@[grind =] def replaceFromWith (r : Regex) (f : List Char → List Char) :
    (skip : Nat) → (fresh : Bool) → (previous : Option Char) → List Char → List Char
  | skip + 1, _, _, c :: rest => replaceFromWith r f skip false (some c) rest
  | 0, fresh, previous, c :: rest =>
    match (ends r ⟨previous, c :: rest⟩).head? with
    | none => c :: replaceFromWith r f 0 true (some c) rest
    | some stop =>
      match rest.length + 1 - stop.rest.length with
      | 0 => (if fresh then f [] else []) ++ c :: replaceFromWith r f 0 true (some c) rest
      | n + 1 => f (c :: rest.take n) ++ replaceFromWith r f n false (some c) rest
  | 0, fresh, previous, [] => if fresh && !(ends r ⟨previous, []⟩).isEmpty then f [] else []
  | _ + 1, _, _, [] => []

/-- `replace_all`, with a closure that sees the text of the match. -/
def replaceAllWith (r : Regex) (f : List Char → List Char) (content : List Char) : List Char :=
  replaceFromWith r f 0 true none content

section Syntax

/-- One given character. -/
@[grind =] def char (c : Char) : Regex := .set (· == c)

/-- A text, character by character. -/
def lit (s : String) : Regex := s.toList.foldr (fun c r => .seq (char c) r) .empty

/-- The other characters that differ from an ASCII letter in case only. -/
def sameLetter (c d : Char) : Bool :=
  c.toLower == d.toLower || (c.toLower == 'k' && d == '\u212A') ||
    (c.toLower == 's' && d == '\u017F')

/-- A text under `(?i)`. -/
def ilit (s : String) : Regex := s.toList.foldr (fun c r => .seq (.set (sameLetter c)) r) .empty

def star (r : Regex) : Regex := .times r 0 none

def plus (r : Regex) : Regex := .times r 1 none

def opt (r : Regex) : Regex := .times r 0 (some 1)

/-- `{n}`. -/
def rep (r : Regex) (n : Nat) : Regex := .times r n (some n)

/-- `{n,}`. -/
def atLeast (r : Regex) (n : Nat) : Regex := .times r n none

/-- One expression after the other. -/
def seqs : List Regex → Regex
  | [] => .empty
  | [r] => r
  | r :: rest => .seq r (seqs rest)

/-- One of several expressions, the first ones preferred; there is at least one. -/
def alts (r : Regex) : List Regex → Regex
  | [] => r
  | s :: rest => .alt r (alts s rest)

end Syntax

section Matches

variable {r : Regex}

/-- A text without a match is left as it is. -/
theorem replaceAll_of_not_isMatch {rep content : List Char} (h : isMatch r content = false) :
    replaceAll r rep content = content := by
  have hnone : matchesFrom r 0 true none 0 content = [] := by
    simpa [isMatch, findIter] using h
  have hsame (previous : Option Char) (offset : Nat) :
      matchesFrom r 0 true previous offset content = [] →
        replaceFrom r rep 0 true previous content = content := by
    clear h hnone
    induction content generalizing previous offset with
    | nil =>
      intro hnone
      simp only [matchesFrom] at hnone
      simp only [replaceFrom]
      cases hends : (ends r ⟨previous, []⟩).isEmpty with
      | true => simp
      | false => simp [hends] at hnone
    | cons c rest ih =>
      intro hnone
      simp only [matchesFrom] at hnone
      simp only [replaceFrom]
      cases hends : (ends r ⟨previous, c :: rest⟩).head? with
      | none =>
        simp only [hends] at hnone ⊢
        rw [ih (some c) _ hnone]
      | some stop =>
        simp only [hends] at hnone ⊢
        cases hlen : rest.length + 1 - stop.rest.length with
        | zero => simp [hlen] at hnone
        | succ n => simp [hlen] at hnone
  exact hsame none 0 hnone

private theorem greedy_suffix {body : Place → List Place}
    (hbody : ∀ place, ∀ next ∈ body place, next.rest <:+ place.rest) (fuel : Nat) :
    ∀ place, ∀ next ∈ greedy body fuel place, next.rest <:+ place.rest := by
  induction fuel with
  | zero =>
    intro place next h
    exact List.mem_singleton.mp h ▸ List.suffix_refl _
  | succ fuel ih =>
    intro place next h
    rcases List.mem_append.mp h with h | h
    · obtain ⟨between, hbetween, hnext⟩ := List.mem_flatMap.mp h
      exact (ih between next hnext).trans (hbody place between (List.mem_filter.mp hbetween).1)
    · exact List.mem_singleton.mp h ▸ List.suffix_refl _

private theorem exactly_suffix {body : Place → List Place}
    (hbody : ∀ place, ∀ next ∈ body place, next.rest <:+ place.rest) (n : Nat) :
    ∀ place, ∀ next ∈ exactly body n place, next.rest <:+ place.rest := by
  induction n with
  | zero =>
    intro place next h
    exact List.mem_singleton.mp h ▸ List.suffix_refl _
  | succ n ih =>
    intro place next h
    obtain ⟨between, hbetween, hnext⟩ := List.mem_flatMap.mp h
    exact (ih between next hnext).trans (hbody place between hbetween)

/-- A match leaves a rest of what was there. -/
theorem ends_suffix (r : Regex) : ∀ place, ∀ next ∈ ends r place, next.rest <:+ place.rest := by
  induction r with
  | empty =>
    intro place next h
    exact List.mem_singleton.mp h ▸ List.suffix_refl _
  | set p =>
    intro place next h
    simp only [ends] at h
    split at h
    · cases h
    · next c rest hrest =>
      split at h
      · rw [List.mem_singleton.mp h, hrest]
        exact List.suffix_cons c rest
      · cases h
  | wordBoundary isWord =>
    intro place next h
    simp only [ends] at h
    split at h
    · exact List.mem_singleton.mp h ▸ List.suffix_refl _
    · cases h
  | seq r s ihr ihs =>
    intro place next h
    obtain ⟨between, hbetween, hnext⟩ := List.mem_flatMap.mp h
    exact (ihs between next hnext).trans (ihr place between hbetween)
  | alt r s ihr ihs =>
    intro place next h
    rcases List.mem_append.mp h with h | h
    · exact ihr place next h
    · exact ihs place next h
  | times r least most ih =>
    intro place next h
    obtain ⟨between, hbetween, hnext⟩ := List.mem_flatMap.mp h
    have hbefore := exactly_suffix ih least place between hbetween
    exact (greedy_suffix ih _ between next hnext).trans hbefore

/-- Every match takes up a character with a property. -/
def Needs (p : Char → Prop) : Regex → Prop
  | .set q => ∀ c, q c = true → p c
  | .seq r s => Needs p r ∨ Needs p s
  | .alt r s => Needs p r ∧ Needs p s
  | .times r least _ => 0 < least ∧ Needs p r
  | _ => False

/-- Where no such character is left, there is no match. -/
theorem ends_eq_nil {p : Char → Prop} (hneeds : Needs p r) {place : Place}
    (h : ∀ c ∈ place.rest, ¬ p c) : ends r place = [] := by
  induction r generalizing place with
  | empty => exact hneeds.elim
  | set q =>
    simp only [ends]
    split
    · rfl
    · next c rest hrest =>
      have hc : ¬ p c := h c (hrest ▸ List.mem_cons_self)
      rw [if_neg fun hq => hc (hneeds c hq)]
  | wordBoundary isWord => exact hneeds.elim
  | seq r s ihr ihs =>
    simp only [ends]
    rcases hneeds with hneeds | hneeds
    · rw [ihr hneeds h, List.flatMap_nil]
    · refine List.flatMap_eq_nil_iff.mpr fun between hbetween => ihs hneeds fun c hc => ?_
      exact h c ((ends_suffix r place between hbetween).subset hc)
  | alt r s ihr ihs =>
    simp only [ends]
    rw [ihr hneeds.1 h, ihs hneeds.2 h, List.append_nil]
  | times r least most ih =>
    obtain ⟨n, rfl⟩ := Nat.exists_eq_succ_of_ne_zero (Nat.ne_of_gt hneeds.1)
    simp only [ends, exactly]
    rw [ih hneeds.2 h, List.flatMap_nil, List.flatMap_nil]

/-- A text without such a character has no match. -/
theorem not_isMatch_of_needs {p : Char → Prop} (hneeds : Needs p r) {content : List Char}
    (h : ∀ c ∈ content, ¬ p c) : isMatch r content = false := by
  have hnone (fresh : Bool) (previous : Option Char) (offset : Nat) :
      matchesFrom r 0 fresh previous offset content = [] := by
    induction content generalizing fresh previous offset with
    | nil =>
      have hends : ends r ⟨previous, []⟩ = [] := ends_eq_nil hneeds h
      simp [matchesFrom, hends]
    | cons c rest ih =>
      have hends : ends r ⟨previous, c :: rest⟩ = [] := ends_eq_nil hneeds h
      simp only [matchesFrom, hends, List.head?_nil]
      exact ih (fun d hd => h d (List.mem_cons_of_mem c hd)) true (some c) _
  simp [isMatch, findIter, hnone]

end Matches

end Regex

end Gyre.Lib
