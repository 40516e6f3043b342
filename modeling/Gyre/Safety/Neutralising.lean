/- digest: When the sanitizer neutralizes what it calls critical. -/

import Gyre.Lib.Marks
import Gyre.Safety.Layer
import Mathlib.Data.List.Infix

/-!
Tokens are escaped one pattern after another, then null bytes are removed, then lines that begin with
a role marker get a mark. The matcher that looks for all of these ignores the case of letters, and
finds a token also behind its escape.
-/

set_option autoImplicit false
set_option relaxedAutoImplicit false

namespace Gyre.Safety.Neutralising

open Gyre.Lib Gyre.Lib.Marks
open Sanitizer

@[grind =] def withoutNulls (content : List Char) : List Char := content.filter (· != '\x00')

@[grind =] def specialTokens : List String := ["<|", "|>", "[INST]", "[/INST]"]

/-- A text with escape marks inserted. -/
inductive Marked : List Char → List Char → Prop
  | nil : Marked [] []
  | keep {s t : List Char} (c : Char) : Marked s t → Marked (c :: s) (c :: t)
  | slash {s t : List Char} : Marked s t → Marked s ('\\' :: t)
  | escaped {s t : List Char} : Marked s t → Marked s ("[ESCAPED] ".toList ++ t)

/-- A line that begins with a system marker, in any letter case. -/
def startsSystem (line : List Char) : Bool :=
  "system:".toList.isPrefixOf ((line.dropWhile Text.isWhitespace).map Char.toLower)

/-- Blanks at the start of a line, behind the mark of an escaped line if there is one. -/
def IsLead (lead : List Char) : Prop :=
  ∃ blank, (∀ c ∈ blank, Text.isWhitespace c = true) ∧
    (lead = blank ∨ lead = "[ESCAPED] ".toList ++ blank)

/-- Where a system marker that was to be escaped stands in what is returned: at the start of a line
that began with it in the content. -/
def MarkerAt (content returned : List Char) (start : Nat) : Prop :=
  ∃ front line back front' lead rest back',
    (withoutNulls content).splitOn '\n' = front ++ line :: back ∧ startsSystem line = true ∧
    returned.splitOn '\n' = front' ++ (lead ++ rest) :: back' ∧ front'.length = front.length ∧
    IsLead lead ∧ "system:".toList <+: rest.map Char.toLower ∧
    start = Text.byteLen (front'.flatMap (· ++ ['\n']) ++ lead)

/-- What is returned for the content has no critical part left that was to be escaped, escaping it
again changes nothing, and it is the content with marks and without null bytes. -/
structure Neutralised (content returned : List Char) : Prop where
  tokens : ∀ w ∈ (Sanitizer.new.sanitize returned).warnings, w.severity = .critical →
    w.pattern ∉ specialTokens ∧ w.pattern ≠ "null_byte" ∧
      (w.pattern = "system:" → ¬ MarkerAt content returned w.start)
  idempotent : escapeContent returned = returned
  marked : Marked (withoutNulls content) returned

/-- Content that escaping can neutralise. -/
structure Escapable (content : List Char) : Prop where
  noOpening : ¬ "<|".toList <:+: withoutNulls content
  noInst : ¬ "[inst]".toList <:+: (withoutNulls content).map Char.toLower
  noInstEnd : ¬ "[/inst]".toList <:+: (withoutNulls content).map Char.toLower
  noSplitClosing : ∀ k, ¬ '|' :: (List.replicate (k + 1) '\x00' ++ ['>']) <:+: content
  noSystem : ∀ line ∈ (withoutNulls content).splitOn '\n', startsSystem line = false
  noReturn : ¬ ['\r', '\n'] <:+: withoutNulls content
  noLastEnding : (withoutNulls content).getLast? ≠ some '\n'

section Steps

variable {content w : List Char}

/-- The four replacements. -/
def escapeTokens (content : List Char) : List Char :=
  Text.replace "[/INST]".toList "\\[/INST]".toList
    (Text.replace "[INST]".toList "\\[INST]".toList
      (Text.replace "|>".toList "|\\>".toList
        (Text.replace "<|".toList "\\<|".toList content)))

/-- The content before its lines are looked at. -/
def bare (content : List Char) : List Char := withoutNulls (escapeTokens content)

theorem escapeContent_eq (content : List Char) :
    escapeContent content = Text.joinLines ((Text.lines (bare content)).map escapeLine) := by
  have hnulls (s : List Char) : Text.replace ['\x00'] [] s = withoutNulls s := by
    rw [replace_single, withoutNulls]
    induction s with
    | nil => rfl
    | cons c s ih =>
      rw [List.flatMap_cons, ih]
      by_cases hc : c = '\x00'
      · rw [if_pos hc, List.filter_cons_of_neg (by simp [hc])]
        rfl
      · rw [if_neg hc, List.filter_cons_of_pos (by simp [hc])]
        rfl
  unfold escapeContent
  simp only [hnulls]
  rfl

/-- Where the replacements put their backslashes. -/
def cut (q : Option Char) (c : Char) : Prop := c = '<' ∨ c = '[' ∨ c = '>' ∧ q = some '|'

def loose (_ : Option Char) (c : Char) : Prop := c = '<' ∨ c = '[' ∨ c = '>'

theorem loose_of_cut (q : Option Char) (c : Char) (h : cut q c) : loose q c := by
  rcases h with h | h | h
  · exact .inl h
  · exact .inr (.inl h)
  · exact .inr (.inr h.1)

private theorem inserted_first (front : List Char) {c : Char} (back s : List Char)
    (hc : ∀ q, (front = [] ∨ q = front.getLast?) → cut q c) :
    Inserted '\\' cut none s
      (Text.replace (front ++ c :: back) (front ++ '\\' :: c :: back) s) := by
  refine (inserted_replace front c back s).mono fun q d hd => ?_
  rw [hd.1]
  exact hc q hd.2

/-- A closing bracket that is not escaped was not there before. -/
private theorem closing_of_replace {s : List Char}
    (h : (Text.replace "|>".toList "|\\>".toList s).head? = some '>') : s.head? = some '>' := by
  cases s with
  | nil => cases h
  | cons c s =>
    by_cases hbegin : "|>".toList <+: c :: s
    · obtain ⟨rest, hrest⟩ := hbegin
      rw [← hrest, Text.replace_append (by decide)] at h
      exact absurd (Option.some.inj h) (by decide)
    · rw [Text.replace_cons_of_not_begins hbegin] at h
      exact h

/-- Every closing token is escaped. -/
theorem not_infix_replace (s : List Char) :
    ¬ "|>".toList <:+: Text.replace "|>".toList "|\\>".toList s := by
  induction hlength : s.length using Nat.strong_induction_on generalizing s with
  | _ n ih =>
    subst hlength
    cases s with
    | nil => decide
    | cons c s =>
      by_cases hbegin : "|>".toList <+: c :: s
      · obtain ⟨rest, hrest⟩ := hbegin
        have hshorter : rest.length < (c :: s).length := by
          rw [← hrest, List.length_append]
          exact Nat.lt_add_of_pos_left (by decide)
        have hrest' := ih rest.length hshorter rest rfl
        rw [← hrest, Text.replace_append (by decide)]
        intro hpart
        have hcons : "|\\>".toList ++ Text.replace "|>".toList "|\\>".toList rest =
            '|' :: '\\' :: '>' :: Text.replace "|>".toList "|\\>".toList rest := rfl
        rw [hcons, List.infix_cons_iff, List.infix_cons_iff, List.infix_cons_iff] at hpart
        rcases hpart with hfirst | hsecond | hthird | hlater
        · exact absurd (List.cons_prefix_cons.mp (List.cons_prefix_cons.mp hfirst).2).1 (by decide)
        · exact absurd (List.cons_prefix_cons.mp hsecond).1 (by decide)
        · exact absurd (List.cons_prefix_cons.mp hthird).1 (by decide)
        · exact hrest' hlater
      · rw [Text.replace_cons_of_not_begins hbegin]
        intro hpart
        rcases List.infix_cons_iff.mp hpart with hfirst | hlater
        · obtain ⟨rfl, hnext⟩ := List.cons_prefix_cons.mp hfirst
          have hhead : (Text.replace "|>".toList "|\\>".toList s).head? = some '>' := by
            obtain ⟨rest, hrest⟩ := hnext
            rw [← hrest]
            rfl
          have hclosing := closing_of_replace hhead
          obtain ⟨rest, rfl⟩ := List.head?_eq_some_iff.mp hclosing
          exact hbegin ⟨rest, rfl⟩
        · exact ih s.length (Nat.lt_succ_self _) s rfl hlater

/-- A chain of texts, each with backslashes inserted into the one before. -/
theorem escapeTokens_chain (content : List Char) :
    ∃ a b c, Inserted '\\' cut none content a ∧ Inserted '\\' cut none a b ∧
      ¬ "|>".toList <:+: b ∧ Inserted '\\' cut none b c ∧
        Inserted '\\' cut none c (escapeTokens content) := by
  refine ⟨_, _, _, inserted_first [] (c := '<') ['|'] content fun q _ => .inl rfl,
    inserted_first ['|'] (c := '>') [] _ fun q hq => .inr (.inr ⟨rfl, ?_⟩), not_infix_replace _,
    inserted_first [] (c := '[') "INST]".toList _ fun q _ => .inr (.inl rfl),
    inserted_first [] (c := '[') "/INST]".toList _ fun q _ => .inr (.inl rfl)⟩
  exact hq.resolve_left (List.cons_ne_nil _ _)

/-- What the backslashes do not cut stands in the escaped text. -/
theorem infix_escapeTokens (hw : Uncut cut w) (h : w <:+: content) : w <:+: escapeTokens content := by
  obtain ⟨a, b, c, ha, hb, -, hc, hd⟩ := escapeTokens_chain content
  exact hd.keeps hw (hc.keeps hw (hb.keeps hw (ha.keeps hw h)))

/-- Texts related by four insertions that do not look at the character before. -/
def Spread (s t : List Char) : Prop :=
  ∃ a b c, Inserted '\\' loose none s a ∧ Inserted '\\' loose none a b ∧
    Inserted '\\' loose none b c ∧ Inserted '\\' loose none c t

theorem spread_bare (content : List Char) : Spread (withoutNulls content) (bare content) := by
  obtain ⟨a, b, c, ha, hb, -, hc, hd⟩ := escapeTokens_chain content
  have hfilter : ∀ {s t : List Char}, Inserted '\\' cut none s t →
      Inserted '\\' loose none (withoutNulls s) (withoutNulls t) := by
    intro s t h
    refine (h.mono loose_of_cut).filter (by decide) (fun q d hd => ?_) fun _ _ _ h => h
    rcases hd with rfl | rfl | rfl <;> decide
  exact ⟨_, _, _, hfilter ha, hfilter hb, hfilter hc, hfilter hd⟩

theorem Spread.map_toLower {s t : List Char} (h : Spread s t) :
    Spread (s.map Char.toLower) (t.map Char.toLower) := by
  obtain ⟨a, b, c, ha, hb, hc, hd⟩ := h
  have hmap : ∀ {s t : List Char}, Inserted '\\' loose none s t →
      Inserted '\\' loose none (s.map Char.toLower) (t.map Char.toLower) := by
    intro s t h
    refine h.map (by decide) fun q d hd q' => ?_
    rcases hd with rfl | rfl | rfl
    · exact .inl (by decide)
    · exact .inr (.inl (by decide))
    · exact .inr (.inr (by decide))
  exact ⟨_, _, _, hmap ha, hmap hb, hmap hc, hmap hd⟩

theorem Spread.infix_iff {s t : List Char} (h : Spread s t) (hcut : Uncut loose w) (hw : '\\' ∉ w) :
    w <:+: t ↔ w <:+: s := by
  obtain ⟨a, b, c, ha, hb, hc, hd⟩ := h
  constructor
  · exact fun hpart => ha.had hw (hb.had hw (hc.had hw (hd.had hw hpart)))
  · exact fun hpart => hd.keeps hcut (hc.keeps hcut (hb.keeps hcut (ha.keeps hcut hpart)))

theorem Spread.getLast? {s t : List Char} (h : Spread s t) : t.getLast? = s.getLast? := by
  obtain ⟨a, b, c, ha, hb, hc, hd⟩ := h
  rw [hd.getLast?, hc.getLast?, hb.getLast?, ha.getLast?]

end Steps

section Lines

private theorem isPrefixOf_inserted {pat : List Char} (hpat : ∀ p ∈ pat, ¬ loose none p ∧ p ≠ '\\')
    {previous : Option Char} {s t : List Char} (h : Inserted '\\' loose previous s t) :
    pat.isPrefixOf (s.map Char.toLower) = pat.isPrefixOf (t.map Char.toLower) := by
  induction h generalizing pat with
  | nil => rfl
  | keep _ ih =>
    cases pat with
    | nil => rfl
    | cons p pat =>
      rw [List.map_cons, List.map_cons, List.isPrefixOf_cons_cons, List.isPrefixOf_cons_cons,
        ih fun q hq => hpat q (List.mem_cons_of_mem p hq)]
  | @insert previous c s t hallowed _ _ =>
    cases pat with
    | nil => rfl
    | cons p pat =>
      obtain ⟨hp, hslash⟩ := hpat p List.mem_cons_self
      have hlower : loose none c.toLower := by
        rcases hallowed with rfl | rfl | rfl
        · exact .inl (by decide)
        · exact .inr (.inl (by decide))
        · exact .inr (.inr (by decide))
      have hne : (p == c.toLower) = false := by
        rw [beq_eq_false_iff_ne]
        rintro rfl
        exact hp hlower
      have hne' : (p == Char.toLower '\\') = false := by
        rw [beq_eq_false_iff_ne]
        exact hslash
      rw [List.map_cons, List.map_cons, List.isPrefixOf_cons_cons, List.isPrefixOf_cons_cons, hne, hne']
      rfl

/-- Backslashes come neither among the blanks at the start of a line nor into a role. -/
theorem startsSystem_inserted {previous : Option Char} {s t : List Char}
    (h : Inserted '\\' loose previous s t) : startsSystem s = startsSystem t := by
  have hpat : ∀ p ∈ "system:".toList, ¬ loose none p ∧ p ≠ '\\' := by
    intro p hp
    have hall : "system:".toList.all (fun p => p != '<' && p != '[' && p != '>' && p != '\\') = true := by
      decide
    have hone := List.all_eq_true.mp hall p hp
    simp only [Bool.and_eq_true, bne_iff_ne] at hone
    obtain ⟨⟨⟨hless, hbracket⟩, hgreater⟩, hslash⟩ := hone
    refine ⟨?_, hslash⟩
    rintro (heq | heq | heq)
    · exact hless heq
    · exact hbracket heq
    · exact hgreater heq
  unfold startsSystem
  induction h with
  | nil => rfl
  | @keep previous c s t hrest ih =>
    by_cases hc : Text.isWhitespace c = true
    · rw [List.dropWhile_cons_of_pos hc, List.dropWhile_cons_of_pos hc]
      exact ih
    · rw [List.dropWhile_cons_of_neg hc, List.dropWhile_cons_of_neg hc]
      have hkeep : Inserted '\\' loose previous (c :: s) (c :: t) := .keep hrest
      exact isPrefixOf_inserted hpat hkeep
  | @insert previous c s t hallowed hrest _ =>
    have hc : ¬ Text.isWhitespace c = true := by
      rcases hallowed with rfl | rfl | rfl <;> decide
    have hslash : ¬ Text.isWhitespace '\\' = true := by decide
    rw [List.dropWhile_cons_of_neg hc, List.dropWhile_cons_of_neg hslash]
    exact isPrefixOf_inserted hpat (.insert hallowed hrest)

/-- The same lines begin with a marker before and after. -/
theorem Spread.startsSystem {s t : List Char} (h : Spread s t) :
    (s.splitOn '\n').map startsSystem = (t.splitOn '\n').map startsSystem := by
  have hstep : ∀ {s t : List Char}, Inserted '\\' loose none s t →
      (s.splitOn '\n').map Neutralising.startsSystem = (t.splitOn '\n').map Neutralising.startsSystem := by
    intro s t h
    have hnewline : ∀ q, ¬ loose q '\n' := by
      rintro q (hq | hq | hq) <;> exact absurd hq (by decide)
    have hpieces : List.Forall₂ (Inserted '\\' loose none) (s.splitOn '\n') (t.splitOn '\n') :=
      h.splitOn (by decide) hnewline fun _ _ _ h => h
    revert hpieces
    generalize s.splitOn '\n' = pieces
    generalize t.splitOn '\n' = pieces'
    intro hpieces
    induction hpieces with
    | nil => rfl
    | cons hfirst _ ih => rw [List.map_cons, List.map_cons, startsSystem_inserted hfirst, ih]
  obtain ⟨a, b, c, ha, hb, hc, hd⟩ := h
  rw [hstep ha, hstep hb, hstep hc, hstep hd]

/-- `escapeLine` leaves what it has escaped. -/
theorem escapeLine_escapeLine (line : List Char) : escapeLine (escapeLine line) = escapeLine line := by
  by_cases hrole : (["system:", "user:", "assistant:"].any fun role =>
      role.toList.isPrefixOf (Text.toLowercase (line.dropWhile Text.isWhitespace))) = true
  · have hline : escapeLine line = "[ESCAPED] ".toList ++ line := if_pos hrole
    rw [hline]
    rfl
  · have hline : escapeLine line = line := if_neg hrole
    rw [hline, hline]

theorem escapeLine_eq (line : List Char) :
    escapeLine line = line ∨ escapeLine line = "[ESCAPED] ".toList ++ line := by
  unfold escapeLine
  dsimp only
  split
  · exact .inr rfl
  · exact .inl rfl

private theorem isPrefixOf_toLowercase {pat s : List Char}
    (hpat : ∀ p ∈ pat, p ≠ '\u212A' ∧ p ≠ '\u0130') (h : pat <+: s.map Char.toLower) :
    pat <+: Text.toLowercase s := by
  induction pat generalizing s with
  | nil => exact List.nil_prefix
  | cons p pat ih =>
    cases s with
    | nil => exact absurd (List.prefix_nil.mp h) (List.cons_ne_nil p pat)
    | cons c s =>
      rw [List.map_cons] at h
      obtain ⟨hp, hrest⟩ := List.cons_prefix_cons.mp h
      obtain ⟨hkelvin, hdotted⟩ := hpat p List.mem_cons_self
      have hc : c ≠ '\u212A' := by
        rintro rfl
        exact hkelvin hp
      have hc' : c ≠ '\u0130' := by
        rintro rfl
        exact hdotted hp
      have hsame : Text.toLowercase (c :: s) = c.toLower :: Text.toLowercase s := by
        unfold Text.toLowercase
        rw [List.flatMap_cons, if_neg hc, if_neg hc']
        rfl
      rw [hsame]
      exact List.cons_prefix_cons.mpr ⟨hp, ih (fun q hq => hpat q (List.mem_cons_of_mem p hq)) hrest⟩

/-- A line that begins with a system marker gets a mark. -/
theorem escapeLine_of_startsSystem {line : List Char} (h : startsSystem line = true) :
    escapeLine line = "[ESCAPED] ".toList ++ line := by
  have hlower : "system:".toList <+: Text.toLowercase (line.dropWhile Text.isWhitespace) := by
    refine isPrefixOf_toLowercase (fun p hp => ?_) (List.isPrefixOf_iff_prefix.mp h)
    have hall : "system:".toList.all (fun p => p != '\u212A' && p != '\u0130') = true := by decide
    have hone := List.all_eq_true.mp hall p hp
    simpa using hone
  have hrole : "system:".toList.isPrefixOf
      (Text.toLowercase (line.dropWhile Text.isWhitespace)) = true :=
    List.isPrefixOf_iff_prefix.mpr hlower
  refine if_pos ?_
  rw [List.any_cons, hrole, Bool.true_or]

theorem newline_notMem_escapeLine {line : List Char} (h : '\n' ∉ line) : '\n' ∉ escapeLine line := by
  rcases escapeLine_eq line with heq | heq
  · rwa [heq]
  · rw [heq]
    intro hmem
    rcases List.mem_append.mp hmem with hmark | hmem
    · exact absurd hmark (by decide)
    · exact h hmem

theorem getLast?_escapeLine {line : List Char} (h : line.getLast? ≠ some '\r') :
    (escapeLine line).getLast? ≠ some '\r' := by
  rcases escapeLine_eq line with heq | heq
  · rwa [heq]
  · rw [heq, List.getLast?_append]
    intro hlast
    rcases Option.or_eq_some_iff.mp hlast with hlast | ⟨-, hmark⟩
    · exact h hlast
    · exact absurd hmark (by decide)

theorem newline_notMem_of_mem_lines {s l : List Char} (h : l ∈ Text.lines s) : '\n' ∉ l := by
  obtain ⟨front, last, -, -, hclean, hlines⟩ := Text.exists_pieces s
  rw [hlines] at h
  rcases List.mem_append.mp h with h | h
  · obtain ⟨p, hp, rfl⟩ := List.mem_map.mp h
    exact fun hmem => hclean p (List.mem_append_left _ hp) ((Text.stripReturn_sublist p).subset hmem)
  · split at h
    · cases h
    · exact hclean l (List.mem_append_right _ h)

end Lines

section Marks

variable {s t u : List Char}

theorem Marked.refl (s : List Char) : Marked s s := by
  induction s with
  | nil => exact .nil
  | cons c s ih => exact .keep c ih

theorem Marked.append {s' t' : List Char} (h : Marked s t) (h' : Marked s' t') :
    Marked (s ++ s') (t ++ t') := by
  induction h with
  | nil => exact h'
  | keep c _ ih => exact .keep c ih
  | slash _ ih => exact .slash ih
  | escaped _ ih =>
    rw [List.append_assoc]
    exact .escaped ih

/-- Marks may be added to a text that has backslashes already. -/
theorem Marked.of_inserted {ok : Option Char → Char → Prop} {previous : Option Char}
    (hs : Inserted '\\' ok previous s t) (h : Marked t u) : Marked s u := by
  induction h generalizing s previous with
  | nil =>
    cases hs
    exact .nil
  | keep c h ih =>
    cases hs with
    | keep hrest => exact .keep c (ih hrest)
    | @insert _ d s t hallowed hrest =>
      have hkeep : Inserted '\\' ok previous (d :: s) (d :: t) := .keep hrest
      exact .slash (ih hkeep)
  | slash _ ih => exact .slash (ih hs)
  | escaped _ ih => exact .escaped (ih hs)

theorem marked_escapeLine (line : List Char) : Marked line (escapeLine line) := by
  rcases escapeLine_eq line with heq | heq
  · rw [heq]
    exact .refl line
  · rw [heq]
    exact .escaped (.refl line)

theorem marked_joinLines (ls : List (List Char)) :
    Marked (Text.joinLines ls) (Text.joinLines (ls.map escapeLine)) := by
  induction ls with
  | nil => exact .nil
  | cons l ls ih =>
    cases ls with
    | nil =>
      have hone (x : List Char) : Text.joinLines [x] = x := List.append_nil x
      rw [List.map_cons, List.map_nil, hone, hone]
      exact marked_escapeLine l
    | cons l' ls =>
      have hleft : Text.joinLines (l :: l' :: ls) = l ++ '\n' :: Text.joinLines (l' :: ls) :=
        Text.joinLines_cons (List.cons_ne_nil l' ls)
      have hright : Text.joinLines (escapeLine l :: (l' :: ls).map escapeLine) =
          escapeLine l ++ '\n' :: Text.joinLines ((l' :: ls).map escapeLine) :=
        Text.joinLines_cons (List.cons_ne_nil _ _)
      rw [List.map_cons, hleft, hright]
      exact (marked_escapeLine l).append (.keep '\n' ih)

/-- Marks have no part of an ending in them. -/
theorem Marked.breaks (h : Marked s t) : t.filter Text.isBreak = s.filter Text.isBreak := by
  induction h with
  | nil => rfl
  | keep c _ ih =>
    rw [List.filter_cons, List.filter_cons, ih]
  | slash _ ih =>
    rw [List.filter_cons_of_neg (by decide), ih]
  | escaped _ ih =>
    have hmark : "[ESCAPED] ".toList.filter Text.isBreak = [] := by decide
    rw [List.filter_append, hmark, ih]
    rfl

theorem Spread.marked (h : Spread s t) (hu : Marked t u) : Marked s u := by
  obtain ⟨a, b, c, ha, hb, hc, hd⟩ := h
  exact .of_inserted ha (.of_inserted hb (.of_inserted hc (.of_inserted hd hu)))

theorem Spread.breaks (h : Spread s t) : t.filter Text.isBreak = s.filter Text.isBreak :=
  (h.marked (.refl t)).breaks

/-- Splitting into lines keeps what no endings get lost of. -/
theorem joinLines_lines_bare_iff (content : List Char) :
    Text.joinLines (Text.lines (bare content)) = bare content ↔
      ¬ ['\r', '\n'] <:+: withoutNulls content ∧ (withoutNulls content).getLast? ≠ some '\n' := by
  have hspread := spread_bare content
  have hcut : Uncut loose ['\r', '\n'] := by
    refine ⟨?_, trivial⟩
    rintro (h | h | h) <;> exact absurd h (by decide)
  rw [Text.joinLines_lines_iff, hspread.infix_iff hcut (by decide), hspread.getLast?]

/-- The content is only marked when none of its endings get lost. -/
theorem marked_escapeContent_iff (content : List Char) :
    Marked (withoutNulls content) (escapeContent content) ↔
      ¬ ['\r', '\n'] <:+: withoutNulls content ∧ (withoutNulls content).getLast? ≠ some '\n' := by
  have hspread := spread_bare content
  have hlines := marked_joinLines (Text.lines (bare content))
  rw [← joinLines_lines_bare_iff, escapeContent_eq]
  constructor
  · intro h
    refine Text.joinLines_lines_of_breaks ?_
    rw [← hlines.breaks, h.breaks, hspread.breaks]
  · intro h
    rw [h] at hlines
    exact hspread.marked hlines

end Marks

section Tokens

variable {content w : List Char}

/-- A lower-cased text that neither line endings nor the mark of a line can be part of. -/
structure Inert (w : List Char) : Prop where
  nonempty : w ≠ []
  solid : ∀ c ∈ w, Text.isBreak c = false
  unmarked : ∀ x, w <:+: "[escaped] ".toList ++ x → w <:+: x

theorem toLower_of_isBreak {c : Char} (h : Text.isBreak c = true) : c.toLower = c := by
  unfold Text.isBreak at h
  rw [Bool.or_eq_true, beq_iff_eq, beq_iff_eq] at h
  rcases h with rfl | rfl <;> decide

/-- Such a text is in what is returned when it is in what the lines are taken from. -/
theorem infix_returned_iff (hw : Inert w) :
    w <:+: (escapeContent content).map Char.toLower ↔ w <:+: (bare content).map Char.toLower := by
  have hsolid : ∀ v : List Char, w = v.map Char.toLower → v ≠ [] ∧ ∀ c ∈ v, Text.isBreak c = false := by
    rintro v rfl
    refine ⟨fun hnil => hw.nonempty (by rw [hnil]; rfl), fun c hc => ?_⟩
    rw [Bool.eq_false_iff]
    intro hbreak
    have hlower := hw.solid _ (List.mem_map_of_mem hc)
    rw [toLower_of_isBreak hbreak, hbreak] at hlower
    cases hlower
  rw [List.infix_map_iff, escapeContent_eq]
  constructor
  · rintro ⟨v, hv, rfl⟩
    obtain ⟨hne, hclean⟩ := hsolid v rfl
    have hnewline : '\n' ∉ v := fun hmem => absurd (hclean _ hmem) (by decide)
    obtain ⟨marked, hmarked, hpart⟩ := Text.exists_infix_of_joinLines hne hnewline hv
    obtain ⟨line, hline, rfl⟩ := List.mem_map.mp hmarked
    have hlower : v.map Char.toLower <:+: line.map Char.toLower := by
      rcases escapeLine_eq line with heq | heq
      · rw [heq] at hpart
        exact hpart.map Char.toLower
      · rw [heq] at hpart
        have hmap := hpart.map Char.toLower
        rw [List.map_append] at hmap
        exact hw.unmarked _ hmap
    exact hlower.trans ((Text.infix_of_mem_lines hline).map Char.toLower)
  · intro hpart
    obtain ⟨v, hv, rfl⟩ := List.infix_map_iff.mp hpart
    obtain ⟨hne, hclean⟩ := hsolid v rfl
    obtain ⟨line, hline, hv⟩ := Text.exists_infix_of_lines hne hclean hv
    have hmarked : line <:+: escapeLine line := by
      rcases escapeLine_eq line with heq | heq
      · exact ⟨[], [], by rw [heq, List.nil_append, List.append_nil]⟩
      · rw [heq]
        exact (List.suffix_append _ _).isInfix
    refine ⟨v, (hv.trans hmarked).trans ?_, rfl⟩
    exact Text.infix_joinLines (List.mem_map_of_mem hline)

private theorem solid_of_all (h : (w.all fun c => !Text.isBreak c) = true) :
    ∀ c ∈ w, Text.isBreak c = false := by
  intro c hc
  have hone := List.all_eq_true.mp h c hc
  rwa [Bool.not_eq_true'] at hone

theorem inert_opening : Inert "<|".toList where
  nonempty := by decide
  solid := solid_of_all (by decide)
  unmarked x h := by
    simpa [List.infix_cons_iff, List.cons_prefix_cons] using h

theorem inert_closing : Inert "|>".toList where
  nonempty := by decide
  solid := solid_of_all (by decide)
  unmarked x h := by
    simpa [List.infix_cons_iff, List.cons_prefix_cons] using h

theorem inert_inst : Inert "[inst]".toList where
  nonempty := by decide
  solid := solid_of_all (by decide)
  unmarked x h := by
    simpa [List.infix_cons_iff, List.cons_prefix_cons] using h

theorem inert_instEnd : Inert "[/inst]".toList where
  nonempty := by decide
  solid := solid_of_all (by decide)
  unmarked x h := by
    simpa [List.infix_cons_iff, List.cons_prefix_cons] using h

theorem inert_null : Inert ['\x00'] where
  nonempty := by decide
  solid := solid_of_all (by decide)
  unmarked x h := by
    simpa [List.infix_cons_iff, List.cons_prefix_cons] using h

/-- A token that backslashes come in front of is still there. -/
theorem token_returned_iff (hw : Inert w) (hcut : Uncut loose w) (hslash : '\\' ∉ w) :
    w <:+: (escapeContent content).map Char.toLower ↔ w <:+: (withoutNulls content).map Char.toLower := by
  rw [infix_returned_iff hw]
  exact (spread_bare content).map_toLower.infix_iff hcut hslash

/-- A bracket that null bytes keep apart from its bar. -/
theorem exists_gap {s : List Char} (h : "|>".toList <:+: withoutNulls s) :
    ∃ k, '|' :: (List.replicate k '\x00' ++ ['>']) <:+: s := by
  have hclosing : ∀ {s : List Char}, ['>'] <+: withoutNulls s →
      ∃ k, List.replicate k '\x00' ++ ['>'] <+: s := by
    intro s
    induction s with
    | nil => exact fun h => absurd (List.prefix_nil.mp h) (by decide)
    | cons c s ih =>
      intro h
      unfold withoutNulls at h
      by_cases hc : c = '\x00'
      · subst hc
        rw [List.filter_cons_of_neg (by decide)] at h
        obtain ⟨k, hk⟩ := ih h
        exact ⟨k + 1, List.cons_prefix_cons.mpr ⟨rfl, hk⟩⟩
      · rw [List.filter_cons_of_pos (by simp [hc])] at h
        obtain ⟨rfl, -⟩ := List.cons_prefix_cons.mp h
        exact ⟨0, List.cons_prefix_cons.mpr ⟨rfl, List.nil_prefix⟩⟩
  induction s with
  | nil => exact absurd (List.infix_nil.mp h) (by decide)
  | cons c s ih =>
    unfold withoutNulls at h
    by_cases hc : c = '\x00'
    · subst hc
      rw [List.filter_cons_of_neg (by decide)] at h
      obtain ⟨k, hk⟩ := ih h
      exact ⟨k, List.infix_cons hk⟩
    · rw [List.filter_cons_of_pos (by simp [hc])] at h
      rcases List.infix_cons_iff.mp h with hfirst | hlater
      · obtain ⟨rfl, hnext⟩ := List.cons_prefix_cons.mp hfirst
        obtain ⟨k, hk⟩ := hclosing hnext
        exact ⟨k, (List.cons_prefix_cons.mpr ⟨rfl, hk⟩).isInfix⟩
      · obtain ⟨k, hk⟩ := ih hlater
        exact ⟨k, List.infix_cons hk⟩

private theorem uncut_gap (k : Nat) : Uncut cut ('|' :: (List.replicate (k + 1) '\x00' ++ ['>'])) := by
  have hnull : ∀ q, ¬ cut q '\x00' := by
    rintro q (h | h | ⟨h, -⟩) <;> exact absurd h (by decide)
  have hnulls : ∀ k, Uncut cut (List.replicate (k + 1) '\x00' ++ ['>']) := by
    intro k
    induction k with
    | zero =>
      refine ⟨?_, trivial⟩
      rintro (h | h | ⟨-, h⟩) <;> exact absurd h (by decide)
    | succ k ih => exact ⟨hnull _, ih⟩
  exact ⟨hnull _, hnulls k⟩

/-- What lowers to a text without letters is this text. -/
theorem eq_of_map_toLower {v : List Char}
    (hw : (w.all fun d => decide (d.toNat < 97 ∨ 122 < d.toNat)) = true)
    (h : v.map Char.toLower = w) : v = w := by
  subst h
  have hletters : ∀ d ∈ v.map Char.toLower, d.toNat < 97 ∨ 122 < d.toNat :=
    fun d hd => of_decide_eq_true (List.all_eq_true.mp hw d hd)
  clear hw
  induction v with
  | nil => rfl
  | cons c v ih =>
    have hc : c.isUpper = false := by
      rw [Bool.eq_false_iff]
      intro hupper
      obtain ⟨hlower, hfirst, hlast⟩ := Text.toNat_toLower hupper
      have hrange := hletters c.toLower List.mem_cons_self
      omega
    rw [List.map_cons, Text.toLower_eq_self hc,
      ← ih fun d hd => hletters d (List.mem_cons_of_mem _ hd)]

/-- A closing token is in what is returned exactly when null bytes have kept it apart. -/
theorem closing_returned_iff :
    "|>".toList <:+: (escapeContent content).map Char.toLower ↔
      ∃ k, '|' :: (List.replicate (k + 1) '\x00' ++ ['>']) <:+: content := by
  have hplain : "|>".toList <:+: (bare content).map Char.toLower ↔ "|>".toList <:+: bare content := by
    constructor
    · intro h
      obtain ⟨v, hv, hlower⟩ := List.infix_map_iff.mp h
      exact eq_of_map_toLower (by decide) hlower.symm ▸ hv
    · exact fun h => h.map Char.toLower
  rw [infix_returned_iff inert_closing, hplain]
  obtain ⟨a, b, c, ha, hb, hnone, hc, hd⟩ := escapeTokens_chain content
  constructor
  · intro h
    obtain ⟨k, hk⟩ := exists_gap h
    have hslash : '\\' ∉ '|' :: (List.replicate k '\x00' ++ ['>']) := by
      simp
    have hescaped := hc.had hslash (hd.had hslash hk)
    cases k with
    | zero => exact absurd hescaped hnone
    | succ k => exact ⟨k, ha.had hslash (hb.had hslash hescaped)⟩
  · rintro ⟨k, hk⟩
    have hkept := (infix_escapeTokens (uncut_gap k) hk).filter (· != '\x00')
    have htoken : ('|' :: (List.replicate (k + 1) '\x00' ++ ['>'])).filter (· != '\x00') = "|>".toList := by
      simp
    rwa [htoken] at hkept

end Tokens

section Search

open PrefixSearch

variable {r w before after : List Char}

/-- The words that the matcher looks for. -/
def words : List (List Char) := injectionPatterns.map fun p => p.pattern.toList.map Char.toLower

/-- No word ends within a proper beginning of this one, and no other word ends with it. -/
def alone (w : List Char) : Bool :=
  words.all fun v =>
    ((List.range w.length).all fun n => !(v.isSuffixOf (w.take n))) &&
      (decide (v.length ≤ w.length) || !(w.isSuffixOf v))

/-- A word without a beginning at which another one ends. -/
def separate (w : List Char) : Bool :=
  words.all fun v => (List.range w.length).all fun n => n == 0 || !((w.take n).isSuffixOf v)

/-- The matcher has every word once and no empty one; the tokens and the system marker stand alone;
and few words end with a beginning of the closing token or of the marker. -/
theorem words_facts :
    (words.Nodup ∧ words.all (fun w => !w.isEmpty) = true) ∧
      (["<|", "[inst]", "[/inst]", "|>", "system:"].all (fun w => alone w.toList) = true ∧
        ["<|", "[inst]", "[/inst]"].all (fun w => separate w.toList) = true) ∧
      words.all (fun v => !(['|'].isSuffixOf v) || v == "<|".toList) = true ∧
        words.all (fun v => (List.range 7).all fun n => n == 0 ||
          !(("system:".toList.take n).isSuffixOf v) ||
            ((v.take (v.length - n)).getLast?.any fun d => !Text.isWhitespace d)) = true := by
  decide +kernel

theorem alone_of_mem {name : String} (h : name ∈ ["<|", "[inst]", "[/inst]", "|>", "system:"]) :
    alone name.toList = true := List.all_eq_true.mp words_facts.2.1.1 name h

theorem separate_of_mem {name : String} (h : name ∈ ["<|", "[inst]", "[/inst]"]) :
    separate name.toList = true := List.all_eq_true.mp words_facts.2.1.2 name h

private theorem take_of_append {x y : List Char} (h : w = x ++ y) (hy : y ≠ []) :
    x.length < w.length ∧ w.take x.length = x := by
  have hpos := List.length_pos_of_ne_nil hy
  rw [h, List.length_append, List.take_left]
  exact ⟨by omega, rfl⟩

/-- What can still end within the word has one of its beginnings at its own end. -/
theorem undisturbed_of_alone (halone : alone w = true)
    (hover : ∀ v ∈ words, ∀ x y, w = x ++ y → x ≠ [] → y ≠ [] → x <:+ v → ¬ v <:+ before ++ x) :
    Undisturbed words before w where
  within v hv x y hsplit hx hy hends := by
    rcases List.suffix_or_suffix_of_suffix hends (List.suffix_append before x) with hin | hout
    · obtain ⟨hlength, htake⟩ := take_of_append hsplit hy
      have hall := List.all_eq_true.mp halone v hv
      rw [Bool.and_eq_true] at hall
      have hone := List.all_eq_true.mp hall.1 x.length (List.mem_range.mpr hlength)
      rw [htake, List.isSuffixOf_iff_suffix.mpr hin] at hone
      cases hone
    · exact hover v hv x y hsplit hx hy hout hends
  longest v hv hends := by
    rcases List.suffix_or_suffix_of_suffix hends (List.suffix_append before w) with hin | hout
    · exact hin.length_le
    · have hall := List.all_eq_true.mp halone v hv
      rw [Bool.and_eq_true, Bool.or_eq_true, List.isSuffixOf_iff_suffix.mpr hout, decide_eq_true_iff] at hall
      exact hall.2.resolve_right Bool.false_ne_true

theorem undisturbed_of_separate (halone : alone w = true) (hseparate : separate w = true) :
    Undisturbed words before w := by
  refine undisturbed_of_alone halone fun v hv x y hsplit hx hy hout => ?_
  obtain ⟨hlength, htake⟩ := take_of_append hsplit hy
  have hall := List.all_eq_true.mp hseparate v hv
  have hone := List.all_eq_true.mp hall x.length (List.mem_range.mpr hlength)
  rw [htake, List.isSuffixOf_iff_suffix.mpr hout, Bool.or_eq_true, beq_iff_eq] at hone
  rcases hone with hzero | hone
  · exact absurd (List.eq_nil_of_length_eq_zero hzero) hx
  · cases hone

theorem undisturbed_token {name : String} (h : name ∈ ["<|", "[inst]", "[/inst]"]) :
    Undisturbed words before name.toList := by
  have halone : name ∈ ["<|", "[inst]", "[/inst]", "|>", "system:"] :=
    List.mem_append_left ["|>", "system:"] h
  exact undisturbed_of_separate (alone_of_mem halone) (separate_of_mem h)

/-- Where the opening token is not about, nothing ends before the closing token does. -/
theorem undisturbed_closing (h : ¬ "<|".toList <:+: before ++ ("|>".toList ++ after)) :
    Undisturbed words before "|>".toList := by
  refine undisturbed_of_alone (alone_of_mem (by simp)) fun v hv x y hsplit hx hy hout hends => ?_
  obtain ⟨hlength, htake⟩ := take_of_append hsplit hy
  have hx1 : x.length = 1 := by
    have hpos := List.length_pos_of_ne_nil hx
    have htwo : "|>".toList.length = 2 := rfl
    omega
  rw [hx1] at htake
  obtain rfl : ['|'] = x := htake
  have hone := List.all_eq_true.mp words_facts.2.2.1 v hv
  rw [List.isSuffixOf_iff_suffix.mpr hout, Bool.not_true, Bool.false_or, beq_iff_eq] at hone
  subst hone
  refine h (hends.isInfix.trans ?_)
  exact ⟨[], '>' :: after, by simp⟩

/-- Behind a blank nothing ends before a system marker does. -/
theorem undisturbed_system {c : Char} (hlast : before.getLast? = some c)
    (hc : Text.isWhitespace c = true) : Undisturbed words before "system:".toList := by
  refine undisturbed_of_alone (alone_of_mem (by simp)) fun v hv x y hsplit hx hy hout hends => ?_
  obtain ⟨hlength, htake⟩ := take_of_append hsplit hy
  obtain ⟨start, rfl⟩ := hout
  have hstart : start <:+ before := by
    obtain ⟨front, hfront⟩ := hends
    rw [← List.append_assoc] at hfront
    exact ⟨front, List.append_cancel_right hfront⟩
  have hall := List.all_eq_true.mp words_facts.2.2.2 _ hv
  have hone := List.all_eq_true.mp hall x.length (List.mem_range.mpr hlength)
  have hfront : (start ++ x).take ((start ++ x).length - x.length) = start := by
    rw [List.length_append, Nat.add_sub_cancel, List.take_left]
  rw [htake, List.isSuffixOf_iff_suffix.mpr (List.suffix_append start x), hfront] at hone
  simp only [Bool.not_true, Bool.or_false, Bool.or_eq_true, beq_iff_eq] at hone
  rcases hone with hzero | hone
  · exact hx (List.eq_nil_of_length_eq_zero hzero)
  · obtain ⟨front, rfl⟩ := hstart
    cases hend : start.getLast? with
    | none =>
      rw [hend] at hone
      cases hone
    | some d =>
      rw [List.getLast?_append, hend] at hlast
      obtain rfl := Option.some.inj hlast
      rw [hend, Option.any_some, hc] at hone
      cases hone

/-- An undisturbed word is reported where it stands. -/
theorem exists_warning {info : PatternInfo} (hinfo : info ∈ injectionPatterns)
    (hr : r.map Char.toLower = before ++ (info.pattern.toList.map Char.toLower ++ after))
    (hclear : Undisturbed words before (info.pattern.toList.map Char.toLower)) :
    ∃ stop, (⟨info.pattern, info.severity, size before, stop, info.description⟩ : InjectionWarning) ∈
      (Sanitizer.new.sanitize r).warnings := by
  have hword : info.pattern.toList.map Char.toLower ∈ words := List.mem_map_of_mem hinfo
  have hne : info.pattern.toList.map Char.toLower ≠ [] := by
    have hone := List.all_eq_true.mp words_facts.1.2 _ hword
    rwa [Bool.not_eq_true', List.isEmpty_eq_false_iff] at hone
  obtain ⟨hit, hhit, hget, hstart⟩ := exists_mem_findIter after hword hne hclear
  rw [← hr] at hhit
  have hindex : injectionPatterns[hit.word]? = some info := by
    obtain ⟨i, hi⟩ := List.getElem?_of_mem hinfo
    have hsame : words[i]? = some (info.pattern.toList.map Char.toLower) := by
      unfold words
      rw [List.getElem?_map, hi, Option.map_some]
    have hlt : i < words.length := (List.getElem?_eq_some_iff.mp hsame).1
    rw [← (List.getElem?_inj hlt words_facts.1.1).mp (hsame.trans hget.symm)]
    exact hi
  refine ⟨hit.stop, ?_⟩
  have hpatterns : (⟨info.pattern, info.severity, size before, hit.stop, info.description⟩ :
      InjectionWarning) ∈ Sanitizer.new.patternWarnings r := by
    refine List.mem_filterMap.mpr ⟨hit, hhit, ?_⟩
    have hnew : Sanitizer.new.patterns = injectionPatterns := rfl
    rw [hnew, hindex, ← hstart]
    rfl
  have hwarnings : (Sanitizer.new.sanitize r).warnings =
      (Sanitizer.new.patternWarnings r ++ Sanitizer.new.regexWarnings r).insertionSort
        fun a b => b.severity.value ≤ a.severity.value := by
    unfold Sanitizer.sanitize
    dsimp only
    split
    · rfl
    · rfl
  rw [hwarnings, List.mem_insertionSort]
  exact List.mem_append_left _ hpatterns

/-- A warning is about a pattern of the matcher that is in the text, or about an expression that
matches. -/
theorem of_warning {warning : InjectionWarning} (h : warning ∈ (Sanitizer.new.sanitize r).warnings) :
    (∃ info ∈ injectionPatterns, warning.pattern = info.pattern ∧
      info.pattern.toList.map Char.toLower <:+: r.map Char.toLower) ∨
    ∃ pattern ∈ injectionRegexes, warning.pattern = pattern.name ∧ pattern.regex.findIter r ≠ [] := by
  have hmem : warning ∈ Sanitizer.new.patternWarnings r ++ Sanitizer.new.regexWarnings r := by
    unfold Sanitizer.sanitize at h
    dsimp only at h
    split at h
    · exact List.mem_insertionSort _ |>.mp h
    · exact List.mem_insertionSort _ |>.mp h
  rcases List.mem_append.mp hmem with hmem | hmem
  · left
    obtain ⟨hit, hhit, hwarning⟩ := List.mem_filterMap.mp hmem
    obtain ⟨info, hinfo, heq⟩ := Option.map_eq_some_iff.mp hwarning
    obtain ⟨word, hword, hpart⟩ := infix_of_mem_findIter hhit
    rw [List.getElem?_map, hinfo, Option.map_some] at hword
    obtain rfl := Option.some.inj hword
    refine ⟨info, List.mem_of_getElem? hinfo, ?_, hpart⟩
    rw [← heq]
  · right
    obtain ⟨pattern, hpattern, hmatch⟩ := List.mem_flatMap.mp hmem
    obtain ⟨m, hm, heq⟩ := List.mem_map.mp hmatch
    refine ⟨pattern, hpattern, by rw [← heq], List.ne_nil_of_mem hm⟩

end Search

section Warnings

open PrefixSearch

variable {content r : List Char}

theorem size_eq (s : List Char) : size (s.map Char.toLower) = Text.byteLen s := by
  unfold size Text.byteLen
  rw [List.map_map]
  congr 1
  refine List.map_congr_left fun c _ => ?_
  exact Text.utf8Size_toLower c

/-- A token that stands in a text is reported, unless it is disturbed. -/
theorem token_reported (info : PatternInfo) (hinfo : info ∈ injectionPatterns)
    (hpart : info.pattern.toList.map Char.toLower <:+: r.map Char.toLower)
    (hclear : ∀ before after, r.map Char.toLower =
      before ++ (info.pattern.toList.map Char.toLower ++ after) →
        Undisturbed words before (info.pattern.toList.map Char.toLower))
    (hcritical : info.severity = .critical) (htoken : info.pattern ∈ specialTokens) :
    ∃ w ∈ (Sanitizer.new.sanitize r).warnings, w.severity = .critical ∧ w.pattern ∈ specialTokens := by
  obtain ⟨before, after, hsplit⟩ := hpart
  rw [List.append_assoc] at hsplit
  obtain ⟨stop, hwarning⟩ := exists_warning hinfo hsplit.symm (hclear before after hsplit.symm)
  exact ⟨_, hwarning, hcritical, htoken⟩

/-- Without warnings about tokens none is in the text. -/
theorem no_token_of_quiet (h : ∀ w ∈ (Sanitizer.new.sanitize r).warnings, w.severity = .critical →
    w.pattern ∉ specialTokens) :
    ¬ "<|".toList <:+: r.map Char.toLower ∧ ¬ "[inst]".toList <:+: r.map Char.toLower ∧
      ¬ "[/inst]".toList <:+: r.map Char.toLower ∧ ¬ "|>".toList <:+: r.map Char.toLower := by
  have hquiet : ¬ ∃ w ∈ (Sanitizer.new.sanitize r).warnings,
      w.severity = .critical ∧ w.pattern ∈ specialTokens := by
    rintro ⟨w, hw, hcritical, htoken⟩
    exact h w hw hcritical htoken
  have hopening : ¬ "<|".toList <:+: r.map Char.toLower := by
    intro hpart
    exact hquiet <| token_reported ⟨"<|", .critical, "Potential special token injection"⟩ (by decide)
      hpart (fun before _ _ =>
        (undisturbed_token (by simp) : Undisturbed words before "<|".toList))
      rfl (by decide)
  refine ⟨hopening, fun hpart => ?_, fun hpart => ?_, fun hpart => ?_⟩
  · exact hquiet <| token_reported ⟨"[INST]", .critical, "Potential instruction token injection"⟩
      (by decide) hpart (fun before _ _ =>
        (undisturbed_token (by simp) : Undisturbed words before "[inst]".toList))
      rfl (by decide)
  · exact hquiet <| token_reported ⟨"[/INST]", .critical, "Potential instruction token injection"⟩
      (by decide) hpart (fun before _ _ =>
        (undisturbed_token (by simp) : Undisturbed words before "[/inst]".toList))
      rfl (by decide)
  · refine hquiet <| token_reported ⟨"|>", .critical, "Potential special token injection"⟩ (by decide)
      hpart (fun before after hsplit => ?_) rfl (by decide)
    rw [hsplit] at hopening
    exact undisturbed_closing hopening

end Warnings

section Neutralising

open PrefixSearch

variable {content : List Char}

theorem null_notMem_returned (content : List Char) : '\x00' ∉ escapeContent content := by
  intro hmem
  have hnull : ['\x00'] <:+: (escapeContent content).map Char.toLower := by
    rw [List.singleton_infix_iff]
    exact List.mem_map.mpr ⟨'\x00', hmem, by decide⟩
  have hbare := (infix_returned_iff inert_null).mp hnull
  obtain ⟨v, hv, hlower⟩ := List.infix_map_iff.mp hbare
  obtain rfl := eq_of_map_toLower (by decide) hlower.symm
  have hkept := List.of_mem_filter ((List.singleton_infix_iff _ _).mp hv)
  cases hkept

/-- What holds no token of any kind is left by the replacements. -/
theorem escapeTokens_eq_self {s : List Char} (hopening : ¬ "<|".toList <:+: s) (hclosing : ¬ "|>".toList <:+: s)
    (hinst : ¬ "[INST]".toList <:+: s) (hinstEnd : ¬ "[/INST]".toList <:+: s) : escapeTokens s = s := by
  unfold escapeTokens
  rw [Text.replace_of_not_infix hopening, Text.replace_of_not_infix hclosing,
    Text.replace_of_not_infix hinst, Text.replace_of_not_infix hinstEnd]

theorem withoutNulls_eq_self {s : List Char} (h : '\x00' ∉ s) : withoutNulls s = s := by
  refine List.filter_eq_self.mpr fun c hc => ?_
  rw [bne_iff_ne]
  rintro rfl
  exact h hc

private theorem uncut_inst : Uncut loose "[inst]".toList ∧ Uncut loose "[/inst]".toList := by
  have hnot {q : Option Char} {c : Char} (h : c ≠ '<' ∧ c ≠ '[' ∧ c ≠ '>') : ¬ loose q c := by
    rintro (rfl | rfl | rfl)
    · exact h.1 rfl
    · exact h.2.1 rfl
    · exact h.2.2 rfl
  constructor
  · exact ⟨hnot (by decide), hnot (by decide), hnot (by decide), hnot (by decide), hnot (by decide), trivial⟩
  · exact ⟨hnot (by decide), hnot (by decide), hnot (by decide), hnot (by decide), hnot (by decide),
      hnot (by decide), trivial⟩

private theorem uncut_opening : Uncut loose "<|".toList := by
  refine ⟨?_, trivial⟩
  rintro (h | h | h) <;> exact absurd h (by decide)

theorem opening_lower_iff {s : List Char} : "<|".toList <:+: s.map Char.toLower ↔ "<|".toList <:+: s := by
  constructor
  · intro h
    obtain ⟨v, hv, hlower⟩ := List.infix_map_iff.mp h
    exact eq_of_map_toLower (by decide) hlower.symm ▸ hv
  · exact fun h => h.map Char.toLower

/-- The tokens in what is returned, in any letter case. -/
theorem returned_tokens (content : List Char) :
    ("<|".toList <:+: (escapeContent content).map Char.toLower ↔ "<|".toList <:+: withoutNulls content) ∧
      ("[inst]".toList <:+: (escapeContent content).map Char.toLower ↔
        "[inst]".toList <:+: (withoutNulls content).map Char.toLower) ∧
      ("[/inst]".toList <:+: (escapeContent content).map Char.toLower ↔
        "[/inst]".toList <:+: (withoutNulls content).map Char.toLower) := by
  refine ⟨?_, ?_, ?_⟩
  · rw [token_returned_iff inert_opening uncut_opening (by decide), opening_lower_iff]
  · exact token_returned_iff inert_inst uncut_inst.1 (by decide)
  · exact token_returned_iff inert_instEnd uncut_inst.2 (by decide)

/-- No token is in what is returned for escapable content. -/
theorem Escapable.tokens (h : Escapable content) :
    ¬ "<|".toList <:+: (escapeContent content).map Char.toLower ∧
      ¬ "[inst]".toList <:+: (escapeContent content).map Char.toLower ∧
        ¬ "[/inst]".toList <:+: (escapeContent content).map Char.toLower ∧
          ¬ "|>".toList <:+: (escapeContent content).map Char.toLower := by
  obtain ⟨hopening, hinst, hinstEnd⟩ := returned_tokens content
  refine ⟨fun hpart => ?_, fun hpart => ?_, fun hpart => ?_, fun hpart => ?_⟩
  · exact h.noOpening (hopening.mp hpart)
  · exact h.noInst (hinst.mp hpart)
  · exact h.noInstEnd (hinstEnd.mp hpart)
  · obtain ⟨k, hk⟩ := closing_returned_iff.mp hpart
    exact h.noSplitClosing k hk

/-- Escaping again leaves what is returned for escapable content. -/
theorem Escapable.idempotent (h : Escapable content) :
    escapeContent (escapeContent content) = escapeContent content := by
  obtain ⟨hopening, hinst, hinstEnd, hclosing⟩ := h.tokens
  have hbare : bare (escapeContent content) = escapeContent content := by
    have htokens : escapeTokens (escapeContent content) = escapeContent content := by
      refine escapeTokens_eq_self (fun hpart => ?_) (fun hpart => ?_) (fun hpart => ?_) fun hpart => ?_
      · exact hopening (hpart.map Char.toLower)
      · exact hclosing (hpart.map Char.toLower)
      · exact hinst (hpart.map Char.toLower)
      · exact hinstEnd (hpart.map Char.toLower)
    unfold bare
    rw [htokens, withoutNulls_eq_self (null_notMem_returned content)]
  rw [escapeContent_eq, hbare]
  by_cases hempty : bare content = []
  · have hreturned : escapeContent content = [] := by
      rw [escapeContent_eq, hempty]
      rfl
    rw [hreturned]
    rfl
  · have hkept := (joinLines_lines_bare_iff content).mpr ⟨h.noReturn, h.noLastEnding⟩
    obtain ⟨front, last, hlines, hplain⟩ := Text.exists_plain hkept hempty
    have hmarked : Text.Plain (front.map escapeLine) (escapeLine last) := by
      refine ⟨fun l hl => ?_, fun hnil => ?_, fun p hp => ?_⟩
      · have hmap : l ∈ (front ++ [last]).map escapeLine := by
          rw [List.map_append]
          exact hl
        obtain ⟨line, hline, rfl⟩ := List.mem_map.mp hmap
        exact newline_notMem_escapeLine (hplain.clean line hline)
      · rcases escapeLine_eq last with heq | heq
        · exact hplain.last (heq ▸ hnil)
        · rw [heq] at hnil
          exact absurd (List.append_eq_nil_iff.mp hnil).1 (by decide)
      · obtain ⟨line, hline, rfl⟩ := List.mem_map.mp hp
        exact getLast?_escapeLine (hplain.front line hline)
    have hreturned : escapeContent content =
        Text.joinLines (front.map escapeLine ++ [escapeLine last]) := by
      rw [escapeContent_eq, hlines, List.map_append]
      rfl
    rw [hreturned, Text.lines_of_plain hmarked, List.map_append, List.map_map]
    have htwice : (escapeLine ∘ escapeLine) = escapeLine := funext escapeLine_escapeLine
    rw [htwice, List.map_singleton, escapeLine_escapeLine]

private theorem findIter_null_eq_nil {pattern : RegexPattern} (hpattern : pattern ∈ injectionRegexes)
    (hname : pattern.name = "null_byte") {s : List Char} (h : '\x00' ∉ s) :
    pattern.regex.findIter s = [] := by
  have hregex : pattern.regex = .set (· == '\x00') := by
    unfold injectionRegexes at hpattern
    rw [List.mem_cons, List.mem_cons, List.mem_cons, List.mem_singleton] at hpattern
    rcases hpattern with rfl | rfl | rfl | rfl
    · exact absurd hname (by decide)
    · exact absurd hname (by decide)
    · exact absurd hname (by decide)
    · rfl
  have hneeds : Regex.Needs (· = '\x00') pattern.regex := by
    rw [hregex]
    exact fun c hc => beq_iff_eq.mp hc
  have hnone := Regex.not_isMatch_of_needs hneeds fun c hc heq => h (heq ▸ hc)
  unfold Regex.isMatch at hnone
  rw [Bool.not_eq_false', List.isEmpty_iff] at hnone
  exact hnone

/-- Nothing critical is found in what is returned for escapable content that was to be escaped. -/
theorem Escapable.neutralised (h : Escapable content) : Neutralised content (escapeContent content) where
  tokens w hw hcritical := by
    obtain ⟨hopening, hinst, hinstEnd, hclosing⟩ := h.tokens
    have hnames : injectionPatterns.all (fun p => p.pattern != "null_byte") = true := by
      simp [injectionPatterns]
    have hmarker : ¬ MarkerAt content (escapeContent content) w.start := by
      rintro ⟨front, line, back, _, _, _, _, hlines, hline, -⟩
      have hmem : line ∈ (withoutNulls content).splitOn '\n' := by
        rw [hlines]
        exact List.mem_append_right _ List.mem_cons_self
      rw [h.noSystem line hmem] at hline
      cases hline
    rcases of_warning hw with ⟨info, hinfo, hname, hpart⟩ | ⟨pattern, hpattern, hname, hmatch⟩
    · refine ⟨fun htoken => ?_, fun hnull => ?_, fun _ => hmarker⟩
      · rw [hname] at htoken
        unfold specialTokens at htoken
        rw [List.mem_cons, List.mem_cons, List.mem_cons, List.mem_singleton] at htoken
        rcases htoken with htoken | htoken | htoken | htoken
        · rw [htoken] at hpart
          exact hopening hpart
        · rw [htoken] at hpart
          exact hclosing hpart
        · rw [htoken] at hpart
          exact hinst hpart
        · rw [htoken] at hpart
          exact hinstEnd hpart
      · have hone := List.all_eq_true.mp hnames info hinfo
        rw [bne_iff_ne] at hone
        exact hone (hname ▸ hnull)
    · refine ⟨fun htoken => ?_, fun hnull => ?_, fun _ => hmarker⟩
      · have hmem : pattern.name ∈ injectionRegexes.map (·.name) := List.mem_map_of_mem hpattern
        have hregexes : injectionRegexes.map (·.name) =
            ["base64_payload", "eval_call", "exec_call", "null_byte"] := rfl
        have hother : specialTokens.all (fun t => t ∉ injectionRegexes.map (·.name)) = true := by
          simp [hregexes, specialTokens]
        rw [hname] at htoken
        exact of_decide_eq_true (List.all_eq_true.mp hother _ htoken) hmem
      · refine hmatch (findIter_null_eq_nil hpattern (hname ▸ hnull) ?_)
        exact null_notMem_returned content
  idempotent := h.idempotent
  marked := (marked_escapeContent_iff content).mpr ⟨h.noReturn, h.noLastEnding⟩

private theorem toLower_of_isWhitespace {c : Char} (h : Text.isWhitespace c = true) : c.toLower = c := by
  refine Text.toLower_eq_self ?_
  rw [Bool.eq_false_iff]
  intro hupper
  obtain ⟨-, hfirst, hlast⟩ := Text.toNat_toLower hupper
  have hspace := of_decide_eq_true h
  omega

/-- A line that is to be escaped is found again behind its mark. -/
theorem system_reported (hmarked : Marked (withoutNulls content) (escapeContent content))
    {line : List Char} (hline : line ∈ (withoutNulls content).splitOn '\n')
    (hsystem : startsSystem line = true) :
    ∃ w ∈ (Sanitizer.new.sanitize (escapeContent content)).warnings,
      w.severity = .critical ∧ w.pattern = "system:" ∧ MarkerAt content (escapeContent content) w.start := by
  have hkept := (joinLines_lines_bare_iff content).mpr ((marked_escapeContent_iff content).mp hmarked)
  have hpieces := (spread_bare content).startsSystem
  obtain ⟨front, back, hsplit⟩ := List.append_of_mem hline
  rw [hsplit, List.map_append, List.map_cons, hsystem] at hpieces
  obtain ⟨front', tail', hbare, hfront, htail⟩ := List.map_eq_append_iff.mp hpieces.symm
  obtain ⟨line', back', rfl, hline', -⟩ := List.map_eq_cons_iff.mp htail
  have hne : bare content ≠ [] := by
    intro hempty
    have hmem : line' ∈ (bare content).splitOn '\n' := hbare ▸ List.mem_append_right _ List.mem_cons_self
    rw [hempty] at hmem
    obtain rfl : line' = [] := List.mem_singleton.mp hmem
    cases hline'
  have hlines : Text.lines (bare content) = front' ++ line' :: back' := by
    rw [Text.lines_eq_splitOn hkept hne, hbare]
  have hreturned : escapeContent content =
      Text.joinLines (front'.map escapeLine ++ escapeLine line' :: back'.map escapeLine) := by
    rw [escapeContent_eq, hlines, List.map_append, List.map_cons]
  have hreturnedPieces : (escapeContent content).splitOn '\n' =
      front'.map escapeLine ++ escapeLine line' :: back'.map escapeLine := by
    rw [hreturned]
    refine Text.splitOn_joinLines (fun l hl => ?_) (by simp)
    have hmap : l ∈ (front' ++ line' :: back').map escapeLine := by
      rw [List.map_append, List.map_cons]
      exact hl
    obtain ⟨l', hl', rfl⟩ := List.mem_map.mp hmap
    exact newline_notMem_escapeLine (Text.newline_notMem_of_mem_splitOn (hbare ▸ hl'))
  obtain ⟨rest, hrest⟩ := List.isPrefixOf_iff_prefix.mp hline'
  let blank := line'.takeWhile Text.isWhitespace
  let front'' := (front'.map escapeLine).flatMap (· ++ ['\n'])
  let lead := "[ESCAPED] ".toList ++ blank
  have hescaped : escapeLine line' = lead ++ line'.dropWhile Text.isWhitespace := by
    rw [escapeLine_of_startsSystem hline', List.append_assoc, List.takeWhile_append_dropWhile]
  have hlower : (escapeContent content).map Char.toLower = (front'' ++ lead).map Char.toLower ++
      ("system:".toList.map Char.toLower ++
        (rest ++ ((back'.map escapeLine).flatMap ('\n' :: ·)).map Char.toLower)) := by
    have hword : "system:".toList.map Char.toLower = "system:".toList := by decide
    rw [hreturned, Text.joinLines_around, hescaped, hword]
    simp only [List.map_append, List.append_assoc, ← hrest]
    rfl
  obtain ⟨c, hlast, hc⟩ : ∃ c, ((front'' ++ lead).map Char.toLower).getLast? = some c ∧
      Text.isWhitespace c = true := by
    have hlead : ∃ c, lead.getLast? = some c ∧ Text.isWhitespace c = true := by
      cases hblank : blank.getLast? with
      | none =>
        refine ⟨' ', ?_, by decide⟩
        rw [List.getLast?_append, hblank]
        rfl
      | some d =>
        refine ⟨d, ?_, List.mem_takeWhile_imp (List.mem_of_getLast? hblank)⟩
        rw [List.getLast?_append, hblank]
        rfl
    obtain ⟨c, hlast, hc⟩ := hlead
    refine ⟨c, ?_, hc⟩
    rw [List.getLast?_map, List.getLast?_append, hlast, Option.some_or, Option.map_some,
      toLower_of_isWhitespace hc]
  obtain ⟨stop, hwarning⟩ :
      ∃ stop, (⟨"system:", .critical, size ((front'' ++ lead).map Char.toLower), stop,
        "Attempt to inject system message"⟩ : InjectionWarning) ∈
          (Sanitizer.new.sanitize (escapeContent content)).warnings := by
    have hinfo : (⟨"system:", .critical, "Attempt to inject system message"⟩ : PatternInfo) ∈
        injectionPatterns := by decide
    exact exists_warning hinfo hlower (undisturbed_system hlast hc)
  refine ⟨_, hwarning, rfl, rfl, front, line, back, front'.map escapeLine, lead,
    line'.dropWhile Text.isWhitespace, back'.map escapeLine, hsplit, hsystem, ?_, ?_, ?_, ?_, ?_⟩
  · rw [hreturnedPieces, hescaped]
  · have hlength := congrArg List.length hfront
    simpa using hlength
  · exact ⟨blank, fun c hc => List.mem_takeWhile_imp hc, .inr rfl⟩
  · exact ⟨rest, hrest⟩
  · exact size_eq _

/-- Content that is neutralised has none of what escaping misses. -/
theorem Escapable.of_neutralised (h : Neutralised content (escapeContent content)) : Escapable content := by
  obtain ⟨hopening, hinst, hinstEnd, hclosing⟩ :=
    no_token_of_quiet fun w hw hcritical => (h.tokens w hw hcritical).1
  obtain ⟨hopening', hinst', hinstEnd'⟩ := returned_tokens content
  have hendings := (marked_escapeContent_iff content).mp h.marked
  refine ⟨fun hpart => ?_, fun hpart => ?_, fun hpart => ?_, fun k hk => ?_, fun line hline => ?_,
    hendings.1, hendings.2⟩
  · exact hopening (hopening'.mpr hpart)
  · exact hinst (hinst'.mpr hpart)
  · exact hinstEnd (hinstEnd'.mpr hpart)
  · exact hclosing (closing_returned_iff.mpr ⟨k, hk⟩)
  · rw [Bool.eq_false_iff]
    intro hsystem
    obtain ⟨w, hw, hcritical, hname, hmarker⟩ := system_reported h.marked hline hsystem
    exact (h.tokens w hw hcritical).2.2 hname hmarker

/-- Where a critical warning is reported the text is escaped. -/
theorem content_of_critical (h : ∃ w ∈ (Sanitizer.new.sanitize content).warnings, w.severity = .critical) :
    (Sanitizer.new.sanitize content).content = escapeContent content := by
  obtain ⟨w, hw, hcritical⟩ := h
  unfold Sanitizer.sanitize at hw ⊢
  dsimp only at hw ⊢
  split at hw
  · rename_i hany
    rw [if_pos hany]
  · rename_i hnone
    refine absurd (List.any_eq_true.mpr ⟨w, hw, ?_⟩) hnone
    rw [hcritical]
    rfl

/-- Content with a critical warning is neutralised exactly when escaping can do it: nothing in it is an
opening or instruction token in any letter case, no closing token is put together by removing null
bytes, no line begins with a system marker, and no ending is one that splitting into lines loses. -/
theorem neutralised_iff (content : List Char)
    (h : ∃ w ∈ (Sanitizer.new.sanitize content).warnings, w.severity = .critical) :
    Neutralised content (Sanitizer.new.sanitize content).content ↔ Escapable content := by
  rw [content_of_critical h]
  exact ⟨Escapable.of_neutralised, Escapable.neutralised⟩

private theorem null_byte_escapable : Escapable "a\x00b".toList where
  noOpening := by decide
  noInst := by decide
  noInstEnd := by decide
  noSplitClosing k h := absurd (h.subset List.mem_cons_self) (by decide)
  noSystem := by decide +kernel
  noReturn := by decide
  noLastEnding := by decide

/-- A null byte is removed. -/
theorem null_byte_neutralised :
    (∃ w ∈ (Sanitizer.new.sanitize "a\x00b".toList).warnings, w.severity = .critical) ∧
      Neutralised "a\x00b".toList (Sanitizer.new.sanitize "a\x00b".toList).content := by
  have hcritical : ∃ w ∈ (Sanitizer.new.sanitize "a\x00b".toList).warnings, w.severity = .critical := by
    decide +kernel
  exact ⟨hcritical, (neutralised_iff _ hcritical).mpr null_byte_escapable⟩

/-- The backslash in front of an opening token leaves the token as it is. -/
theorem opening_not_neutralised :
    (∃ w ∈ (Sanitizer.new.sanitize "<|x".toList).warnings, w.severity = .critical) ∧
      ¬ Neutralised "<|x".toList (Sanitizer.new.sanitize "<|x".toList).content := by
  refine ⟨by decide +kernel, fun h => ?_⟩
  have hagain : ∃ w ∈ (Sanitizer.new.sanitize (Sanitizer.new.sanitize "<|x".toList).content).warnings,
      w.severity = .critical ∧ w.pattern ∈ specialTokens := by
    decide +kernel
  obtain ⟨w, hw, hcritical, htoken⟩ := hagain
  exact (h.tokens w hw hcritical).1 htoken

end Neutralising

end Gyre.Safety.Neutralising
