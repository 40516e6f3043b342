/- digest: Tags in every spelling a reader would take for them, and escaping them. -/

import Gyre.Lib.Regex
import Gyre.Lib.Text

/-!
A tag begins with an angle bracket. Between the bracket and the name of the tag white space, null
characters and slashes may stand, and the name is in any letter case.
-/

set_option autoImplicit false
set_option relaxedAutoImplicit false

namespace Gyre.Lib.Fences

/-- What may stand between the bracket and the name. -/
def isFiller (c : Char) : Bool := Text.isWhitespace c || c == '\x00' || c == '/'

/-- A text begins with a name, in some letter case. -/
@[grind =] def spells : (name : List Char) → List Char → Bool
  | [], _ => true
  | _ :: _, [] => false
  | n :: name, c :: s => Regex.sameLetter n c && spells name s

/-- A tag of a name begins here. -/
@[grind =] def tagAt (name : List Char) : List Char → Bool
  | [] => false
  | c :: s => c == '<' && spells name (s.dropWhile isFiller)

/-- A closing tag: one with a slash in front of its name. -/
@[grind =] def closingAt (name : List Char) : List Char → Bool
  | [] => false
  | c :: s => tagAt name (c :: s) && (s.takeWhile isFiller).contains '/'

@[grind =] def openingAt (name s : List Char) : Bool := tagAt name s && !closingAt name s

theorem spells_self (name s : List Char) : spells name (name ++ s) = true := by
  induction name with
  | nil => rfl
  | cons n name ih =>
    have hsame : Regex.sameLetter n n = true := by
      unfold Regex.sameLetter
      rw [beq_self_eq_true, Bool.true_or, Bool.true_or]
    rw [List.cons_append, spells, hsame, ih]
    rfl

/-- At how many places of a text something begins. -/
@[grind =] def count (begins : List Char → Bool) : List Char → Nat
  | [] => 0
  | c :: s => (if begins (c :: s) then 1 else 0) + count begins s

/-- A text with an escape for the bracket wherever something begins. -/
@[grind =] def escapeAt (begins : List Char → Bool) (escape : List Char) : List Char → List Char
  | [] => []
  | c :: s =>
    if begins (c :: s) then escape ++ escapeAt begins escape s
    else c :: escapeAt begins escape s

/-- A letter of a name is none of the characters that brackets and escapes begin with. -/
def Plain (name : List Char) : Prop :=
  ∀ n ∈ name, Regex.sameLetter n '<' = false ∧ Regex.sameLetter n '&' = false ∧
    ∀ c, isFiller c = true → Regex.sameLetter n c = false

section Names

/-- A name of letters and underscores. -/
@[grind =] def isWordy (n : Char) : Bool :=
  decide (97 ≤ n.toLower.toNat ∧ n.toLower.toNat ≤ 122) || n.toLower.toNat == 95

private theorem toLower_of_not_upper {c : Char} (h : ¬ (65 ≤ c.toNat ∧ c.toNat ≤ 90)) :
    c.toLower = c := by
  unfold Char.toLower
  refine dif_neg fun hupper => h ?_
  obtain ⟨hlow, hhigh⟩ := hupper
  rw [ge_iff_le, UInt32.le_iff_toNat_le] at hlow
  rw [UInt32.le_iff_toNat_le] at hhigh
  exact ⟨hlow, hhigh⟩

private theorem not_sameLetter {n c : Char} (hn : isWordy n = true)
    (hc : ¬ (65 ≤ c.toNat ∧ c.toNat ≤ 90) ∧ ¬ (97 ≤ c.toNat ∧ c.toNat ≤ 122) ∧ c.toNat ≠ 95 ∧
      c.toNat ≠ 0x212A ∧ c.toNat ≠ 0x17F) : Regex.sameLetter n c = false := by
  obtain ⟨hupper, hlower, hscore, hkelvin, hlong⟩ := hc
  have hsame : (n.toLower == c.toLower) = false := by
    rw [beq_eq_false_iff_ne, toLower_of_not_upper hupper]
    intro heq
    rw [isWordy, heq, Bool.or_eq_true, decide_eq_true_iff, beq_iff_eq] at hn
    rcases hn with hn | hn
    · exact hlower hn
    · exact hscore hn
  have hk : (c == '\u212A') = false := by
    rw [beq_eq_false_iff_ne]
    rintro rfl
    exact hkelvin rfl
  have hs : (c == '\u017F') = false := by
    rw [beq_eq_false_iff_ne]
    rintro rfl
    exact hlong rfl
  unfold Regex.sameLetter
  rw [hsame, hk, hs, Bool.and_false, Bool.and_false]
  rfl

/-- Words are plain. -/
theorem plain_of_isWordy {name : List Char} (h : name.all isWordy = true) : Plain name := by
  intro n hn
  have hwordy := List.all_eq_true.mp h n hn
  refine ⟨not_sameLetter hwordy (by decide), not_sameLetter hwordy (by decide), fun c hc => ?_⟩
  apply not_sameLetter hwordy
  unfold isFiller Text.isWhitespace at hc
  rw [Bool.or_eq_true, Bool.or_eq_true, decide_eq_true_iff, beq_iff_eq, beq_iff_eq] at hc
  rcases hc with (hspace | rfl) | rfl
  · omega
  · decide
  · decide

end Names

section Counting

variable {begins other : List Char → Bool} {name a b s : List Char} {c : Char}

theorem count_congr (h : ∀ c s, begins (c :: s) = other (c :: s)) (s : List Char) :
    count begins s = count other s := by
  induction s with
  | nil => rfl
  | cons c s ih => rw [count, count, h, ih]

theorem count_eq_zero_iff :
    count begins s = 0 ↔ ∀ t, t ≠ [] → t <:+ s → begins t = false := by
  induction s with
  | nil =>
    refine ⟨fun _ t hne ht => absurd (List.suffix_nil.mp ht) hne, fun _ => rfl⟩
  | cons c s ih =>
    rw [count]
    constructor
    · intro h t hne ht
      have hhead : (if begins (c :: s) then 1 else 0) = 0 := by omega
      have htail : count begins s = 0 := by omega
      rcases List.suffix_cons_iff.mp ht with rfl | ht
      · simpa using hhead
      · exact ih.mp htail t hne ht
    · intro h
      have hhead := h (c :: s) (List.cons_ne_nil c s) List.suffix_rfl
      have htail := ih.mpr fun t hne ht => h t hne (ht.trans (List.suffix_cons c s))
      rw [hhead, htail]
      rfl

/-- Where nothing begins before a point, the count is that of what follows. -/
theorem count_append (h : ∀ c u, c :: u <:+ a → begins (c :: (u ++ b)) = false) :
    count begins (a ++ b) = count begins b := by
  induction a with
  | nil => rfl
  | cons c a ih =>
    have hhead := h c a List.suffix_rfl
    have htail := ih fun d u hu => h d u (hu.trans (List.suffix_cons c a))
    rw [List.cons_append, count, hhead, htail]
    exact Nat.zero_add _

theorem tagAt_of_ne (hc : c ≠ '<') : tagAt name (c :: s) = false := by
  have hbeq : (c == '<') = false := beq_eq_false_iff_ne.mpr hc
  rw [tagAt, hbeq, Bool.false_and]

theorem tagAt_of_closingAt (h : closingAt name (c :: s) = true) : tagAt name (c :: s) = true := by
  rw [closingAt, Bool.and_eq_true] at h
  exact h.1

theorem tagAt_of_openingAt (h : openingAt name s = true) : tagAt name s = true := by
  rw [openingAt, Bool.and_eq_true] at h
  exact h.1

/-- No tag begins in a text without brackets, whatever follows. -/
theorem count_append_of_no_bracket (htag : ∀ c s, begins (c :: s) = true → tagAt name (c :: s) = true)
    (h : '<' ∉ a) : count begins (a ++ b) = count begins b := by
  apply count_append
  intro c u hu
  have hc : c ≠ '<' := by
    rintro rfl
    exact h (hu.subset List.mem_cons_self)
  rw [Bool.eq_false_iff]
  intro hbegins
  have hfalse : tagAt name (c :: (u ++ b)) = false := tagAt_of_ne hc
  rw [htag c _ hbegins] at hfalse
  cases hfalse

/-- A tag whose name follows the bracket is no closing tag. -/
theorem closingAt_of_not_filler (hc : isFiller c = false) : closingAt name ('<' :: c :: s) = false := by
  rw [closingAt, List.takeWhile_cons_of_neg (by simp [hc])]
  exact Bool.and_false _

theorem closingAt_slash (hc : isFiller c = false) :
    closingAt name ('<' :: '/' :: c :: s) = spells name (c :: s) := by
  have hslash : isFiller '/' = true := by decide
  rw [closingAt, tagAt, List.takeWhile_cons_of_pos hslash, List.dropWhile_cons_of_pos hslash,
    List.dropWhile_cons_of_neg (by simp [hc])]
  simp

/-- The text of an opening tag closes nothing. -/
theorem count_open (hc : isFiller c = false) (ha : '<' ∉ c :: a) :
    count (closingAt name) ('<' :: c :: (a ++ b)) = count (closingAt name) b := by
  have hrest : count (closingAt name) ((c :: a) ++ b) = count (closingAt name) b :=
    count_append_of_no_bracket (fun _ _ h => tagAt_of_closingAt h) ha
  rw [count, closingAt_of_not_filler hc, ← hrest]
  exact Nat.zero_add _

/-- The text of a closing tag closes what it spells. -/
theorem count_close (hc : isFiller c = false) (ha : '<' ∉ c :: a) :
    count (closingAt name) ('<' :: '/' :: c :: (a ++ b)) =
      (if spells name (c :: (a ++ b)) then 1 else 0) + count (closingAt name) b := by
  have hclean : '<' ∉ '/' :: c :: a := by
    intro hmem
    rcases List.mem_cons.mp hmem with heq | hmem
    · exact absurd heq (by decide)
    · exact ha hmem
  have hrest : count (closingAt name) (('/' :: c :: a) ++ b) = count (closingAt name) b :=
    count_append_of_no_bracket (fun _ _ h => tagAt_of_closingAt h) hclean
  rw [count, closingAt_slash hc, ← hrest]
  rfl

end Counting

section Escapes

variable {begins : List Char → Bool} {name s x : List Char} {c : Char}

/-- Escaping where a bracket stands does not change which names are spelled. -/
theorem spells_escapeAt (hbracket : ∀ c s, begins (c :: s) = true → c = '<')
    (hname : Plain name) (escape : List Char) (s : List Char) :
    spells name (escapeAt begins ('&' :: escape) s) = spells name s := by
  induction name generalizing s with
  | nil => rfl
  | cons n name ih =>
    obtain ⟨hless, hamp, -⟩ := hname n List.mem_cons_self
    cases s with
    | nil => rfl
    | cons c s =>
      rw [escapeAt]
      by_cases hbegins : begins (c :: s) = true
      · obtain rfl := hbracket c s hbegins
        rw [if_pos hbegins, List.cons_append, spells, spells, hless, hamp]
        rfl
      · rw [if_neg hbegins, spells, spells, ih fun m hm => hname m (List.mem_cons_of_mem n hm)]

/-- Nor does it change which names are spelled behind the filling. -/
theorem spells_dropWhile_escapeAt (hbracket : ∀ c s, begins (c :: s) = true → c = '<')
    (hname : Plain name) (hne : name ≠ []) (escape : List Char) (s : List Char) :
    spells name ((escapeAt begins ('&' :: escape) s).dropWhile isFiller) =
      spells name (s.dropWhile isFiller) := by
  induction s with
  | nil => rfl
  | cons c s ih =>
    by_cases hbegins : begins (c :: s) = true
    · obtain rfl := hbracket c s hbegins
      have hamp : isFiller '&' = false := by decide
      have hless : isFiller '<' = false := by decide
      obtain ⟨n, rest, rfl⟩ := List.exists_cons_of_ne_nil hne
      obtain ⟨hnless, hnamp, -⟩ := hname n List.mem_cons_self
      rw [escapeAt, if_pos hbegins, List.cons_append, List.dropWhile_cons_of_neg (by simp [hamp]),
        List.dropWhile_cons_of_neg (by simp [hless]), spells, spells, hnless, hnamp]
      rfl
    · have hsame : escapeAt begins ('&' :: escape) (c :: s) =
          c :: escapeAt begins ('&' :: escape) s := by rw [escapeAt, if_neg hbegins]
      by_cases hfiller : isFiller c = true
      · rw [hsame, List.dropWhile_cons_of_pos hfiller, List.dropWhile_cons_of_pos hfiller]
        exact ih
      · rw [List.dropWhile_cons_of_neg hfiller, ← spells_escapeAt hbracket hname escape (c :: s),
          hsame, List.dropWhile_cons_of_neg hfiller]

/-- The tags of an escaped text are those that the escaping has passed over. -/
theorem count_tagAt_escapeAt (hbracket : ∀ c s, begins (c :: s) = true → c = '<')
    (hname : Plain name) (hne : name ≠ []) {escape : List Char} (hescape : '<' ∉ escape)
    (s : List Char) :
    count (tagAt name) (escapeAt begins ('&' :: escape) s) =
      count (fun t => tagAt name t && !begins t) s := by
  induction s with
  | nil => rfl
  | cons c s ih =>
    rw [escapeAt, count]
    by_cases hbegins : begins (c :: s) = true
    · have hclean : '<' ∉ '&' :: escape := by
        intro hmem
        rcases List.mem_cons.mp hmem with heq | hmem
        · exact absurd heq (by decide)
        · exact hescape hmem
      rw [if_pos hbegins, hbegins, count_append_of_no_bracket (fun _ _ h => h) hclean, ih,
        Bool.not_true, Bool.and_false, if_neg Bool.false_ne_true, Nat.zero_add]
    · have htag : tagAt name (c :: escapeAt begins ('&' :: escape) s) = tagAt name (c :: s) := by
        rw [tagAt, tagAt, spells_dropWhile_escapeAt hbracket hname hne]
      rw [Bool.not_eq_true] at hbegins
      rw [hbegins, if_neg Bool.false_ne_true, count, htag, ih, Bool.not_false, Bool.and_true]

end Escapes

section Boundaries

variable {begins : List Char → Bool} {name a x : List Char}

/-- A text that no tag can run into: it goes on with no letter of the name, also behind filling. -/
structure Stops (name x : List Char) : Prop where
  first : ∀ n ∈ name, ∀ c ∈ x.head?, Regex.sameLetter n c = false
  behind : spells name (x.dropWhile isFiller) = false

theorem spells_append (hfirst : ∀ n ∈ name, ∀ c ∈ x.head?, Regex.sameLetter n c = false)
    (h : spells name (a ++ x) = true) : spells name a = true := by
  induction name generalizing a with
  | nil => rfl
  | cons n name ih =>
    cases a with
    | nil =>
      cases x with
      | nil => exact h
      | cons c x =>
        rw [List.nil_append, spells, hfirst n List.mem_cons_self c rfl, Bool.false_and] at h
        cases h
    | cons c a =>
      rw [List.cons_append, spells, Bool.and_eq_true] at h
      rw [spells, Bool.and_eq_true]
      exact ⟨h.1, ih (fun m hm => hfirst m (List.mem_cons_of_mem n hm)) h.2⟩

/-- A tag that begins before such a text lies in front of it. -/
theorem tagAt_append (hstops : Stops name x) {c : Char} {u : List Char}
    (h : tagAt name (c :: (u ++ x)) = true) : tagAt name (c :: u) = true := by
  rw [tagAt, Bool.and_eq_true] at h
  rw [tagAt, Bool.and_eq_true]
  refine ⟨h.1, ?_⟩
  rw [List.dropWhile_append] at h
  split at h
  next hall =>
    rw [hstops.behind] at h
    exact absurd h.2 Bool.false_ne_true
  next => exact spells_append hstops.first h.2

/-- A text without tags adds none in front of such a text. -/
theorem count_append_of_stops (htag : ∀ c s, begins (c :: s) = true → tagAt name (c :: s) = true)
    (hnone : count (tagAt name) a = 0) (hstops : Stops name x) :
    count begins (a ++ x) = count begins x := by
  apply count_append
  intro c u hu
  rw [Bool.eq_false_iff]
  intro hbegins
  have htagged := tagAt_append hstops (htag c _ hbegins)
  rw [count_eq_zero_iff.mp hnone (c :: u) (List.cons_ne_nil c u) hu] at htagged
  cases htagged

end Boundaries

section Expressions

open Regex

variable {r X : Regex} {p : Char → Bool} {name : List Char}

/-- A match of a name takes up its letters and no more. -/
theorem ends_ilit (name : List Char) (place : Place) :
    (ends (name.foldr (fun c r => .seq (.set (sameLetter c)) r) .empty) place).map (·.rest) =
      if spells name place.rest then [place.rest.drop name.length] else [] := by
  induction name generalizing place with
  | nil => rfl
  | cons n name ih =>
    obtain ⟨previous, rest⟩ := place
    cases rest with
    | nil => rfl
    | cons c rest =>
      rw [List.foldr_cons, ends, ends]
      dsimp only
      by_cases hc : sameLetter n c = true
      · rw [if_pos hc, List.flatMap_singleton, ih, spells, hc, Bool.true_and]
        rfl
      · rw [Bool.not_eq_true] at hc
        rw [if_neg (by simp [hc]), List.flatMap_nil, spells, hc, Bool.false_and]
        rfl

/-- After a repetition, an expression that cannot begin with its characters matches only behind all
of them. -/
theorem ends_greedy_set (hX : ∀ previous c rest, p c = true → ends X ⟨previous, c :: rest⟩ = [])
    (fuel : Nat) (place : Place) (hfuel : place.rest.length ≤ fuel) :
    ∃ previous, (greedy (ends (.set p)) fuel place).flatMap (ends X) =
      ends X ⟨previous, place.rest.dropWhile p⟩ := by
  induction fuel generalizing place with
  | zero =>
    obtain ⟨previous, rest⟩ := place
    have hrest : rest = [] := List.eq_nil_of_length_eq_zero (Nat.le_zero.mp hfuel)
    subst hrest
    exact ⟨previous, List.flatMap_singleton ..⟩
  | succ fuel ih =>
    obtain ⟨previous, rest⟩ := place
    cases rest with
    | nil => exact ⟨previous, List.flatMap_singleton ..⟩
    | cons c rest =>
      have hlength : rest.length ≤ fuel := Nat.le_of_succ_le_succ hfuel
      by_cases hc : p c = true
      · obtain ⟨previous', hih⟩ := ih ⟨some c, rest⟩ hlength
        refine ⟨previous', ?_⟩
        have hstep : (ends (.set p) ⟨previous, c :: rest⟩).filter
            (fun next => decide (next.rest.length < (c :: rest).length)) = [⟨some c, rest⟩] := by
          simp [ends, hc]
        rw [greedy, hstep, List.flatMap_append, List.flatMap_singleton, List.flatMap_singleton,
          hX previous c rest hc, List.append_nil, hih, List.dropWhile_cons_of_pos hc]
      · have hstep : ends (.set p) ⟨previous, c :: rest⟩ = [] := by
          simp [ends, hc]
        refine ⟨previous, ?_⟩
        rw [greedy, hstep, List.filter_nil, List.flatMap_nil, List.nil_append,
          List.flatMap_singleton, List.dropWhile_cons_of_neg hc]

theorem ends_star_seq (hX : ∀ previous c rest, p c = true → ends X ⟨previous, c :: rest⟩ = [])
    (place : Place) :
    ∃ previous, ends (.seq (star (.set p)) X) place = ends X ⟨previous, place.rest.dropWhile p⟩ := by
  obtain ⟨previous, h⟩ := ends_greedy_set hX place.rest.length place (Nat.le_refl _)
  refine ⟨previous, ?_⟩
  have hstar : ends (star (.set p)) place = greedy (ends (.set p)) place.rest.length place := by
    unfold Regex.star
    rw [ends, exactly, List.flatMap_singleton]
    rfl
  rw [ends, hstar, h]

/-- What an expression does with one character before anything else. -/
theorem ends_char_seq (c : Char) (X : Regex) (previous : Option Char) (d : Char) (rest : List Char) :
    ends (.seq (char c) X) ⟨previous, d :: rest⟩ =
      if d == c then ends X ⟨some d, rest⟩ else [] := by
  rw [ends, char, ends]
  dsimp only
  by_cases hd : (d == c) = true
  · rw [if_pos hd, if_pos hd, List.flatMap_singleton]
  · rw [if_neg hd, if_neg hd, List.flatMap_nil]

variable {begins : List Char → Bool}

/-- An expression that matches where something begins, and over a stretch within which nothing
begins. -/
structure MatchesAt (r : Regex) (begins : List Char → Bool) : Prop where
  match_ : ∀ previous c rest, begins (c :: rest) = true →
    ∃ stop n, (ends r ⟨previous, c :: rest⟩).head? = some stop ∧
      rest.length + 1 - stop.rest.length = n + 1 ∧
      ∀ u v, rest.take n = u ++ v → v ≠ [] → begins (v ++ rest.drop n) = false
  noMatch : ∀ previous s, begins s = false → ends r ⟨previous, s⟩ = []
  nonempty : begins [] = false

/-- While the characters of a match are skipped, nothing begins among them. -/
private theorem escapeAt_skipped {escape : List Char} (a b : List Char)
    (h : ∀ u v, a = u ++ v → v ≠ [] → begins (v ++ b) = false) :
    escapeAt begins escape (a ++ b) = a ++ escapeAt begins escape b := by
  induction a with
  | nil => rfl
  | cons c a ih =>
    have hhead := h [] (c :: a) rfl (List.cons_ne_nil c a)
    have htail := ih fun u v hsplit hne => h (c :: u) v (by rw [hsplit]; rfl) hne
    rw [List.cons_append, escapeAt, ← List.cons_append, hhead, if_neg Bool.false_ne_true, htail]
    rfl

/-- Replacing the first character of every match is escaping where something begins. -/
theorem replaceAllWith_eq_escapeAt (h : MatchesAt r begins) (escape content : List Char) :
    replaceAllWith r (fun m => escape ++ m.drop 1) content = escapeAt begins escape content := by
  have hskip : ∀ (s : List Char) (skip : Nat) (fresh : Bool) (previous : Option Char),
      replaceFromWith r (fun m => escape ++ m.drop 1) skip fresh previous s =
        escapeAt begins escape (s.drop skip) := by
    intro s
    induction s with
    | nil =>
      intro skip fresh previous
      cases skip with
      | zero =>
        rw [replaceFromWith, h.noMatch previous [] h.nonempty]
        simp [escapeAt]
      | succ skip => rfl
    | cons c s ih =>
      intro skip fresh previous
      cases skip with
      | succ skip => exact ih skip false (some c)
      | zero =>
        rw [replaceFromWith, List.drop_zero, escapeAt]
        by_cases hbegins : begins (c :: s) = true
        · obtain ⟨stop, n, hstop, hlength, hwithin⟩ := h.match_ previous c s hbegins
          rw [hstop, if_pos hbegins]
          simp only [hlength, List.drop_succ_cons, List.drop_zero]
          rw [ih, List.append_assoc, ← escapeAt_skipped _ _ hwithin, List.take_append_drop]
        · rw [Bool.not_eq_true] at hbegins
          rw [h.noMatch previous (c :: s) hbegins, hbegins, if_neg Bool.false_ne_true]
          simp only [List.head?_nil, ih, List.drop_zero]
  exact hskip content 0 true none

/-- The letters that spell a name are no brackets. -/
theorem not_mem_take_of_spells (hname : Plain name) {s : List Char} (h : spells name s = true) :
    '<' ∉ s.take name.length := by
  induction name generalizing s with
  | nil => exact List.not_mem_nil
  | cons n name ih =>
    cases s with
    | nil => cases h
    | cons c s =>
      rw [spells, Bool.and_eq_true] at h
      have htail := ih (fun m hm => hname m (List.mem_cons_of_mem n hm)) h.2
      intro hmem
      rcases List.mem_cons.mp hmem with rfl | hmem
      · rw [(hname n List.mem_cons_self).1] at h
        exact absurd h.1 Bool.false_ne_true
      · exact htail hmem

/-- Filling and a name behind it are free of brackets. -/
theorem not_mem_stretch (hp : p '<' = false) (hname : Plain name) {s : List Char}
    (h : spells name (s.dropWhile p) = true) :
    '<' ∉ s.takeWhile p ++ (s.dropWhile p).take name.length := by
  intro hmem
  rcases List.mem_append.mp hmem with hmem | hmem
  · have hless := List.mem_takeWhile_imp hmem
    rw [hp] at hless
    cases hless
  · exact not_mem_take_of_spells hname h hmem

/-- A stretch without brackets is as long as what a match takes up, and nothing begins in it. -/
theorem exists_stretch (hbracket : ∀ c s, begins (c :: s) = true → c = '<') {stop : Place}
    {a b : List Char} (hstop : stop.rest = b) (ha : '<' ∉ a) :
    ∃ n, (a ++ b).length + 1 - stop.rest.length = n + 1 ∧
      ∀ u v, (a ++ b).take n = u ++ v → v ≠ [] → begins (v ++ (a ++ b).drop n) = false := by
  refine ⟨a.length, ?_, fun u v hsplit hne => ?_⟩
  · rw [hstop, List.length_append]
    omega
  · rw [List.take_left] at hsplit
    obtain ⟨c, v, rfl⟩ := List.exists_cons_of_ne_nil hne
    rw [List.drop_left, List.cons_append, Bool.eq_false_iff]
    intro hbegins
    obtain rfl := hbracket c _ hbegins
    exact ha (hsplit ▸ List.mem_append_right u List.mem_cons_self)

end Expressions

end Gyre.Lib.Fences
