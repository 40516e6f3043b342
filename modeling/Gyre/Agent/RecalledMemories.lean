/- digest: Excerpts of recalled documents, fenced in before the model reads them. -/

import Gyre.Lib.Fences

set_option autoImplicit false
set_option relaxedAutoImplicit false

namespace Gyre.Agent.RecalledMemories

open Gyre.Lib Gyre.Lib.Fences

/-- A score as it is shown with two digits. -/
inductive Score where
  | nan
  | infinite (negative : Bool)
  | finite (negative : Bool) (hundredths : Nat)
  deriving DecidableEq, Repr

/-- `{:.2}`. -/
def Score.display : Score → List Char
  | .nan => "NaN".toList
  | .infinite negative => (if negative then ['-'] else []) ++ "inf".toList
  | .finite negative hundredths =>
    (if negative then ['-'] else []) ++ Nat.toDigits 10 (hundredths / 100) ++
      ['.', Nat.digitChar (hundredths % 100 / 10), Nat.digitChar (hundredths % 10)]

structure SearchResult where
  content : List Char
  score : Score
  deriving DecidableEq, Repr

/-- `RECALL_EXCERPT_MAX_CHARS`, which counts bytes. -/
def recallExcerptMaxChars : Nat := 600

def recalledMemories : List Char := "recalled_memories".toList

def memory : List Char := "memory".toList

/-- `MEMORY_TAG_RE`. -/
def memoryTagRe : Regex :=
  .seq (.char '<') (.seq (.star (.set isFiller))
    (.alt (.ilit "recalled_memories") (.ilit "memory")))

def escapeMemoryFences (content : List Char) : List Char :=
  Regex.replaceAllWith memoryTagRe (fun matched => "&lt;".toList ++ matched.drop 1) content

/-- The excerpt of a result, which is cut before it is escaped. -/
def excerpt (result : SearchResult) : List Char :=
  let cut := Text.cutBytes recallExcerptMaxChars result.content
  escapeMemoryFences cut ++ (if cut.length < result.content.length then ['…'] else [])

def formatMemory (result : SearchResult) : List Char :=
  "\n<memory score=\"".toList ++ result.score.display ++ "\">\n".toList ++ excerpt result ++
    "\n</memory>\n".toList

def opening : List Char :=
  ("<recalled_memories>\n" ++
    "Memories recalled from your persistent workspace based on the current message. " ++
    "They may or may not be relevant — use your judgment, and ignore anything that doesn't " ++
    "apply.\n").toList

def formatRecalledMemories (results : List SearchResult) : List Char :=
  opening ++ results.flatMap formatMemory ++ "</recalled_memories>".toList

/-- Where a tag of either name begins. -/
def memoryTagAt (s : List Char) : Bool := tagAt recalledMemories s || tagAt memory s

section Escaping

variable {name : List Char}

theorem plain_recalledMemories : Plain recalledMemories := plain_of_isWordy (by decide)

theorem plain_memory : Plain memory := plain_of_isWordy (by decide)

theorem bracket_of_memoryTagAt (c : Char) (s : List Char) (h : memoryTagAt (c :: s) = true) :
    c = '<' := by
  by_contra hc
  rw [memoryTagAt, tagAt_of_ne hc, tagAt_of_ne hc] at h
  cases h

/-- The two names as the expression looks for them behind the filling. -/
def namesRe : Regex := .alt (.ilit "recalled_memories") (.ilit "memory")

theorem ends_namesRe (place : Regex.Place) :
    (Regex.ends namesRe place).map (·.rest) =
      (if spells recalledMemories place.rest then [place.rest.drop recalledMemories.length] else []) ++
        if spells memory place.rest then [place.rest.drop memory.length] else [] := by
  rw [namesRe, Regex.ends, List.map_append]
  exact congrArg₂ (· ++ ·) (ends_ilit recalledMemories place) (ends_ilit memory place)

/-- A name begins with no filling. -/
theorem not_spells_of_filler (hname : Plain name) (hne : name ≠ []) {c : Char} {s : List Char}
    (hc : isFiller c = true) : spells name (c :: s) = false := by
  obtain ⟨n, rest, rfl⟩ := List.exists_cons_of_ne_nil hne
  rw [spells, (hname n List.mem_cons_self).2.2 c hc, Bool.false_and]

theorem ends_namesRe_of_filler (previous : Option Char) (c : Char) (rest : List Char)
    (hc : isFiller c = true) : Regex.ends namesRe ⟨previous, c :: rest⟩ = [] := by
  have hmap := ends_namesRe ⟨previous, c :: rest⟩
  dsimp only at hmap
  rw [not_spells_of_filler plain_recalledMemories (by decide) hc,
    not_spells_of_filler plain_memory (by decide) hc] at hmap
  exact List.map_eq_nil_iff.mp hmap

/-- Behind a bracket the expression matches what the names spell behind the filling. -/
theorem ends_memoryTagRe (previous : Option Char) (rest : List Char) :
    ∃ previous', Regex.ends memoryTagRe ⟨previous, '<' :: rest⟩ =
      Regex.ends namesRe ⟨previous', rest.dropWhile isFiller⟩ := by
  obtain ⟨previous', h⟩ := ends_star_seq ends_namesRe_of_filler ⟨some '<', rest⟩
  refine ⟨previous', ?_⟩
  rw [memoryTagRe, ends_char_seq, if_pos (beq_self_eq_true '<')]
  exact h

theorem ends_memoryTagRe_of_ne {c : Char} (hc : c ≠ '<') (previous : Option Char) (rest : List Char) :
    Regex.ends memoryTagRe ⟨previous, c :: rest⟩ = [] := by
  have hbeq : (c == '<') = false := beq_eq_false_iff_ne.mpr hc
  rw [memoryTagRe, ends_char_seq, hbeq, if_neg Bool.false_ne_true]

private theorem exists_match {rest : List Char} (hname : Plain name) {stop : Regex.Place}
    (hspells : spells name (rest.dropWhile isFiller) = true)
    (hstop : stop.rest = (rest.dropWhile isFiller).drop name.length) :
    ∃ n, rest.length + 1 - stop.rest.length = n + 1 ∧
      ∀ u v, rest.take n = u ++ v → v ≠ [] → memoryTagAt (v ++ rest.drop n) = false := by
  have hsplit : rest = (rest.takeWhile isFiller ++ (rest.dropWhile isFiller).take name.length) ++
      (rest.dropWhile isFiller).drop name.length := by
    rw [List.append_assoc, List.take_append_drop, List.takeWhile_append_dropWhile]
  have hclean := not_mem_stretch (by decide) hname hspells
  obtain ⟨n, hn⟩ := exists_stretch bracket_of_memoryTagAt hstop hclean
  rw [← hsplit] at hn
  exact ⟨n, hn⟩

/-- The expression finds exactly the places where a tag begins. -/
theorem memoryTagRe_matchesAt : MatchesAt memoryTagRe memoryTagAt where
  match_ previous c rest hbegins := by
    obtain rfl := bracket_of_memoryTagAt c rest hbegins
    obtain ⟨previous', hends⟩ := ends_memoryTagRe previous rest
    have hmap := ends_namesRe ⟨previous', rest.dropWhile isFiller⟩
    rw [← hends] at hmap
    dsimp only at hmap
    by_cases hrecalled : spells recalledMemories (rest.dropWhile isFiller) = true
    · rw [if_pos hrecalled] at hmap
      obtain ⟨stop, others, hlist, hstop, -⟩ := List.map_eq_cons_iff.mp hmap
      obtain ⟨n, hn⟩ := exists_match plain_recalledMemories hrecalled hstop
      exact ⟨stop, n, by rw [hlist]; rfl, hn⟩
    · have hmemory : spells memory (rest.dropWhile isFiller) = true := by
        simpa [memoryTagAt, tagAt, hrecalled] using hbegins
      rw [if_neg hrecalled, if_pos hmemory] at hmap
      obtain ⟨stop, others, hlist, hstop, -⟩ := List.map_eq_cons_iff.mp hmap
      obtain ⟨n, hn⟩ := exists_match plain_memory hmemory hstop
      exact ⟨stop, n, by rw [hlist]; rfl, hn⟩
  noMatch previous s hnone := by
    cases s with
    | nil => rfl
    | cons c rest =>
      by_cases hc : c = '<'
      · subst hc
        obtain ⟨previous', hends⟩ := ends_memoryTagRe previous rest
        have hmap := ends_namesRe ⟨previous', rest.dropWhile isFiller⟩
        rw [memoryTagAt, Bool.or_eq_false_iff, tagAt, tagAt, beq_self_eq_true, Bool.true_and,
          Bool.true_and] at hnone
        dsimp only at hmap
        rw [hnone.1, hnone.2, ← hends] at hmap
        exact List.map_eq_nil_iff.mp hmap
      · exact ends_memoryTagRe_of_ne hc previous rest
  nonempty := rfl

theorem escapeMemoryFences_eq (content : List Char) :
    escapeMemoryFences content = escapeAt memoryTagAt "&lt;".toList content :=
  replaceAllWith_eq_escapeAt memoryTagRe_matchesAt "&lt;".toList content

/-- Escaped content has no tag of either name. -/
theorem count_escapeMemoryFences (hname : name = recalledMemories ∨ name = memory)
    (content : List Char) : count (tagAt name) (escapeMemoryFences content) = 0 := by
  have hplain : Plain name := by
    rcases hname with rfl | rfl
    · exact plain_recalledMemories
    · exact plain_memory
  have hne : name ≠ [] := by
    rcases hname with rfl | rfl
    · decide
    · decide
  have hescaped : count (tagAt name) (escapeAt memoryTagAt ('&' :: "lt;".toList) content) =
      count (fun t => tagAt name t && !memoryTagAt t) content :=
    count_tagAt_escapeAt bracket_of_memoryTagAt hplain hne (by decide) content
  have hsame : "&lt;".toList = '&' :: "lt;".toList := rfl
  rw [escapeMemoryFences_eq, hsame, hescaped, count_eq_zero_iff]
  intro t _ _
  unfold memoryTagAt
  rcases hname with rfl | rfl
  · cases tagAt recalledMemories t <;> rfl
  · cases tagAt memory t <;> simp

end Escaping

section Counting

variable {name x : List Char}

theorem digitChar_ne {n : Nat} (hn : n < 10) : Nat.digitChar n ≠ '<' := by
  intro heq
  have hdigit := congrArg Char.toNat heq
  rw [Nat.toNat_digitChar_of_lt_ten hn] at hdigit
  have hless : '<'.toNat = 60 := rfl
  omega

/-- A score is shown without brackets. -/
theorem not_mem_display (score : Score) : '<' ∉ score.display := by
  cases score with
  | nan => decide
  | infinite negative => cases negative <;> decide
  | finite negative hundredths =>
    have hwhole : '<' ∉ Nat.toDigits 10 (hundredths / 100) := by
      intro hmem
      have hdigit : '<'.isDigit = true :=
        Nat.isDigit_of_mem_toDigits (Nat.zero_lt_succ 9) (Nat.le_refl 10) hmem
      revert hdigit
      decide
    have htens : Nat.digitChar (hundredths % 100 / 10) ≠ '<' := digitChar_ne (by omega)
    have hones : Nat.digitChar (hundredths % 10) ≠ '<' := digitChar_ne (by omega)
    unfold Score.display
    cases negative <;> simp [hwhole, Ne.symm htens, Ne.symm hones]

theorem ellipsis_no_letter {n : Char} (hn : n ∈ recalledMemories ∨ n ∈ memory) :
    Regex.sameLetter n '…' = false := by
  have hall : (recalledMemories ++ memory).all (fun n => !Regex.sameLetter n '…') = true := by
    decide
  have hone := List.all_eq_true.mp hall n (List.mem_append.mpr hn)
  simpa using hone

/-- What follows an excerpt lets no tag of it go on. -/
theorem stops_of_head (hname : name = recalledMemories ∨ name = memory) {c : Char}
    (hc : c = '…' ∨ c = '\n' ∧ ∃ y, x = '<' :: y) : Stops name (c :: x) := by
  have hplain : Plain name := by
    rcases hname with rfl | rfl
    · exact plain_recalledMemories
    · exact plain_memory
  have hfirst : ∀ n ∈ name, Regex.sameLetter n c = false := by
    rcases hc with rfl | ⟨rfl, -⟩
    · rcases hname with rfl | rfl
      · exact fun n hn => ellipsis_no_letter (.inl hn)
      · exact fun n hn => ellipsis_no_letter (.inr hn)
    · exact fun n hn => (hplain n hn).2.2 '\n' (by decide)
  have hne : name ≠ [] := by
    rcases hname with rfl | rfl
    · decide
    · decide
  refine ⟨fun n hn d hd => ?_, ?_⟩
  · obtain rfl := Option.mem_some.mp hd
    exact hfirst n hn
  · obtain ⟨n, rest, rfl⟩ := List.exists_cons_of_ne_nil hne
    rcases hc with rfl | ⟨rfl, y, rfl⟩
    · rw [List.dropWhile_cons_of_neg (by decide), spells, hfirst n List.mem_cons_self,
        Bool.false_and]
    · rw [List.dropWhile_cons_of_pos (by decide), List.dropWhile_cons_of_neg (by decide), spells,
        (hplain n List.mem_cons_self).1, Bool.false_and]

private theorem closes (c : Char) (s : List Char) (h : closingAt name (c :: s) = true) :
    tagAt name (c :: s) = true := tagAt_of_closingAt h

/-- An excerpt closes nothing before what follows it. -/
theorem count_excerpt (hname : name = recalledMemories ∨ name = memory) (result : SearchResult)
    (y : List Char) :
    count (closingAt name) (excerpt result ++ '\n' :: '<' :: y) =
      count (closingAt name) ('\n' :: '<' :: y) := by
  have hnone := count_escapeMemoryFences hname (Text.cutBytes recallExcerptMaxChars result.content)
  unfold excerpt
  dsimp only
  split
  · have hellipsis : count (closingAt name) (['…'] ++ '\n' :: '<' :: y) =
        count (closingAt name) ('\n' :: '<' :: y) :=
      count_append_of_no_bracket closes (by decide)
    rw [List.append_assoc, ← hellipsis]
    exact count_append_of_stops closes hnone (stops_of_head hname (.inl rfl))
  · rw [List.append_nil]
    exact count_append_of_stops closes hnone (stops_of_head hname (.inr ⟨rfl, y, rfl⟩))

/-- A result adds its own closing tag. -/
theorem count_formatMemory (hname : name = recalledMemories ∨ name = memory) (result : SearchResult)
    (x : List Char) :
    count (closingAt name) (formatMemory result ++ x) =
      (if name = memory then 1 else 0) + count (closingAt name) x := by
  let tag := "emory score=\"".toList ++ (result.score.display ++ "\">\n".toList)
  have htag : '<' ∉ 'm' :: tag := by
    have hscore := not_mem_display result.score
    simp [tag, hscore]
  have hparts : formatMemory result ++ x =
      ['\n'] ++ '<' :: 'm' :: (tag ++ (excerpt result ++
        '\n' :: '<' :: '/' :: 'm' :: ("emory>\n".toList ++ x))) := by
    have hopening : "\n<memory score=\"".toList = '\n' :: '<' :: 'm' :: "emory score=\"".toList := rfl
    have hclosing : "\n</memory>\n".toList = '\n' :: '<' :: '/' :: 'm' :: "emory>\n".toList := rfl
    unfold formatMemory
    rw [hopening, hclosing]
    simp only [tag, List.append_assoc, List.cons_append, List.nil_append]
  have hspells : spells name ('m' :: ("emory>\n".toList ++ x)) = decide (name = memory) := by
    rcases hname with rfl | rfl <;> rfl
  rw [hparts, count_append_of_no_bracket closes (by decide), count_open (by decide) htag,
    count_excerpt hname]
  have hbreak : ∀ y, count (closingAt name) ('\n' :: y) = count (closingAt name) y := fun y =>
    count_append_of_no_bracket (a := ['\n']) closes (by decide)
  rw [hbreak, count_close (by decide) (by decide), hspells]
  simp only [decide_eq_true_eq]

theorem opening_one_bracket : opening = '<' :: 'r' :: opening.drop 2 ∧ '<' ∉ 'r' :: opening.drop 2 := by
  have hopening : opening = _ :=
    Text.toList_append_of_eq (Text.toList_append_of_eq (Text.toList_append_of_eq
      (Text.toList_of_eq rfl) (Text.toList_of_eq rfl)) (Text.toList_of_eq rfl)) (Text.toList_of_eq rfl)
  rw [hopening]
  decide +kernel

theorem count_opening (x : List Char) :
    count (closingAt name) (opening ++ x) = count (closingAt name) x := by
  rw [opening_one_bracket.1, List.cons_append, List.cons_append]
  exact count_open (by decide) opening_one_bracket.2

theorem count_results (hname : name = recalledMemories ∨ name = memory) (results : List SearchResult)
    (x : List Char) :
    count (closingAt name) (results.flatMap formatMemory ++ x) =
      (if name = memory then results.length else 0) + count (closingAt name) x := by
  induction results with
  | nil => simp
  | cons result results ih =>
    rw [List.flatMap_cons, List.append_assoc, count_formatMemory hname, ih, List.length_cons]
    split
    · omega
    · omega

/-- Whatever was recalled, each result is closed once, by its own tag, and the block once, at its end. -/
theorem memory_fences_hold (results : List SearchResult) :
    count (closingAt recalledMemories) (formatRecalledMemories results) = 1 ∧
      count (closingAt memory) (formatRecalledMemories results) = results.length ∧
      "</recalled_memories>".toList <:+ formatRecalledMemories results := by
  have hnames : recalledMemories ≠ memory := by decide
  have hblock : count (closingAt recalledMemories) "</recalled_memories>".toList = 1 := by decide
  have hmemory : count (closingAt memory) "</recalled_memories>".toList = 0 := by decide
  refine ⟨?_, ?_, List.suffix_append _ _⟩
  · rw [formatRecalledMemories, List.append_assoc, count_opening, count_results (.inl rfl),
      if_neg hnames, hblock]
  · rw [formatRecalledMemories, List.append_assoc, count_opening, count_results (.inr rfl),
      if_pos rfl, hmemory]
    rfl

end Counting

end Gyre.Agent.RecalledMemories
