/- digest: The lines of a text, and the texts that lines make up. -/

import Gyre.Lib.Text
import Mathlib.Data.List.Forall2

set_option autoImplicit false
set_option relaxedAutoImplicit false

namespace Gyre.Lib.Text

/-- A line without the carriage return of its ending. -/
def stripReturn (line : List Char) : List Char :=
  if line.getLast? = some '\r' then line.dropLast else line

/-- `str::lines`: the endings are not part of the lines, and nothing follows the last of them. -/
def lines (s : List Char) : List (List Char) :=
  let pieces := s.splitOn '\n'
  let last := pieces.getLast?.getD []
  pieces.dropLast.map stripReturn ++ if last.isEmpty then [] else [last]

/-- `join("\n")`. -/
def joinLines (ls : List (List Char)) : List Char := ['\n'].intercalate ls

theorem joinLines_splitOn (s : List Char) : joinLines (s.splitOn '\n') = s :=
  List.intercalate_splitOn '\n'

theorem splitOn_joinLines {ls : List (List Char)} (h : ∀ l ∈ ls, '\n' ∉ l) (hls : ls ≠ []) :
    (joinLines ls).splitOn '\n' = ls := List.splitOn_intercalate '\n' h hls

/-- No piece of a text has the separator in it. -/
theorem notMem_of_mem_splitOn {α : Type*} [BEq α] [LawfulBEq α] {d : α} {s piece : List α}
    (h : piece ∈ s.splitOn d) : d ∉ piece := by
  induction s generalizing piece with
  | nil =>
    rw [List.splitOn_nil, List.mem_singleton] at h
    rw [h]
    exact List.not_mem_nil
  | cons c cs ih =>
    rw [List.splitOn_cons_eq_if_modifyHead] at h
    split at h
    · rcases List.mem_cons.mp h with rfl | h
      · exact List.not_mem_nil
      · exact ih h
    · next hc =>
      obtain ⟨first, rest, hpieces⟩ := List.exists_cons_of_ne_nil (List.splitOn_ne_nil d cs)
      rw [hpieces, List.modifyHead_cons] at h
      rcases List.mem_cons.mp h with rfl | h
      · intro hmem
        rcases List.mem_cons.mp hmem with hsame | hmem
        · exact hc (beq_iff_eq.mpr hsame.symm)
        · exact ih (hpieces ▸ List.mem_cons_self) hmem
      · exact ih (hpieces ▸ List.mem_cons_of_mem first h)

theorem newline_notMem_of_mem_splitOn {s piece : List Char} (h : piece ∈ s.splitOn '\n') :
    '\n' ∉ piece := notMem_of_mem_splitOn h

/-- The lines that a text begins with are its first pieces. -/
theorem splitOn_terminated {ls : List (List Char)} (h : ∀ l ∈ ls, '\n' ∉ l) (s : List Char) :
    (ls.flatMap (· ++ ['\n']) ++ s).splitOn '\n' = ls ++ s.splitOn '\n' := by
  induction ls with
  | nil => rfl
  | cons l rest ih =>
    obtain ⟨hline, hrest⟩ := List.forall_mem_cons.mp h
    have htext : (l :: rest).flatMap (· ++ ['\n']) ++ s = l ++ '\n' :: (rest.flatMap (· ++ ['\n']) ++ s) := by
      simp
    rw [htext, List.splitOn_append_cons_self_of_not_mem hline, ih hrest, List.cons_append]

/-- Lines with an ending before each are their text with one more in front. -/
theorem cons_joinLines {ls : List (List Char)} (hls : ls ≠ []) :
    '\n' :: joinLines ls = ls.flatMap ('\n' :: ·) := by
  unfold joinLines
  induction ls with
  | nil => exact absurd rfl hls
  | cons l rest ih =>
    cases rest with
    | nil => simp
    | cons l' rest =>
      have hrest := ih (List.cons_ne_nil l' rest)
      rw [List.intercalate_cons_cons, List.flatMap_cons, ← hrest]
      simp

private theorem dropWhile_append_space {p : Char → Bool} {c : Char} (hc : p c = true) (s : List Char) :
    ((s ++ [c]).dropWhile p = s.dropWhile p ++ [c] ∧ s.dropWhile p ≠ []) ∨
      ((s ++ [c]).dropWhile p = [] ∧ s.dropWhile p = []) := by
  induction s with
  | nil => exact .inr ⟨by simp [hc], rfl⟩
  | cons d rest ih =>
    by_cases hd : p d = true
    · simpa [hd] using ih
    · exact .inl ⟨by simp [hd], by simp [hd]⟩

/-- A carriage return at the end of a line is trimmed with it. -/
theorem trim_stripReturn (line : List Char) : trim (stripReturn line) = trim line := by
  unfold stripReturn
  split
  · next hlast =>
    obtain ⟨front, rfl⟩ := List.getLast?_eq_some_iff.mp hlast
    rw [List.dropLast_concat]
    have hreturn : isWhitespace '\r' = true := by decide
    unfold trim
    rcases dropWhile_append_space hreturn front with ⟨hfront, -⟩ | ⟨hboth, hfront⟩
    · rw [hfront, List.reverse_append]
      simp [hreturn]
    · rw [hboth, hfront]
  · rfl

theorem trim_sublist (s : List Char) : (trim s).Sublist s := (trim_isInfix s).sublist

section Kept

/-- The characters that endings are made of. -/
def isBreak (c : Char) : Bool := c == '\r' || c == '\n'

theorem joinLines_cons {l : List Char} {ls : List (List Char)} (hls : ls ≠ []) :
    joinLines (l :: ls) = l ++ '\n' :: joinLines ls := by
  obtain ⟨l', rest, rfl⟩ := List.exists_cons_of_ne_nil hls
  unfold joinLines
  rw [List.intercalate_cons_cons, List.append_assoc]
  rfl

/-- The pieces of a text are some that endings follow, and a last one. -/
theorem exists_pieces (s : List Char) :
    ∃ front last, s.splitOn '\n' = front ++ [last] ∧ s = joinLines (front ++ [last]) ∧
      (∀ l ∈ front ++ [last], '\n' ∉ l) ∧
        lines s = front.map stripReturn ++ if last.isEmpty then [] else [last] := by
  have hne := List.splitOn_ne_nil '\n' s
  obtain ⟨front, last, hpieces⟩ : ∃ front last, s.splitOn '\n' = front ++ [last] :=
    ⟨_, _, (List.dropLast_append_getLast hne).symm⟩
  refine ⟨front, last, hpieces, ?_, fun l hl => ?_, ?_⟩
  · rw [← hpieces, joinLines_splitOn]
  · exact newline_notMem_of_mem_splitOn (hpieces ▸ hl)
  · unfold lines
    rw [hpieces]
    simp

private theorem return_newline_append {p x : List Char} (hp : '\n' ∉ p)
    (h : ['\r', '\n'] <:+: p ++ '\n' :: x) : p.getLast? = some '\r' ∨ ['\r', '\n'] <:+: x := by
  induction p with
  | nil =>
    rcases List.infix_cons_iff.mp h with hbegin | hpart
    · exact absurd (List.cons_prefix_cons.mp hbegin).1 (by decide)
    · exact .inr hpart
  | cons c p ih =>
    have hrest : '\n' ∉ p := fun hmem => hp (List.mem_cons_of_mem c hmem)
    rcases List.infix_cons_iff.mp h with hbegin | hpart
    · obtain ⟨rfl, hnext⟩ := List.cons_prefix_cons.mp hbegin
      cases p with
      | nil => exact .inl rfl
      | cons d p =>
        obtain ⟨rfl, -⟩ := List.cons_prefix_cons.mp hnext
        exact absurd List.mem_cons_self hrest
    · rcases ih hrest hpart with hlast | hx
      · left
        cases p with
        | nil => cases hlast
        | cons d p => exact hlast
      · exact .inr hx

/-- A carriage return in front of an ending is the last character of a piece that an ending follows. -/
theorem return_newline_iff {front : List (List Char)} {last : List Char}
    (h : ∀ l ∈ front ++ [last], '\n' ∉ l) :
    ['\r', '\n'] <:+: joinLines (front ++ [last]) ↔ ∃ p ∈ front, p.getLast? = some '\r' := by
  induction front with
  | nil =>
    refine iff_of_false (fun hpart => ?_) fun ⟨p, hp, _⟩ => absurd hp List.not_mem_nil
    have hlast : joinLines [last] = last := List.append_nil last
    rw [List.nil_append, hlast] at hpart
    exact h last List.mem_cons_self (hpart.subset (List.mem_cons_of_mem _ List.mem_cons_self))
  | cons p front ih =>
    have hp : '\n' ∉ p := h p List.mem_cons_self
    have hrest := ih fun l hl => h l (List.mem_cons_of_mem p hl)
    have hne : front ++ [last] ≠ [] := List.append_ne_nil_of_right_ne_nil front (List.cons_ne_nil last [])
    rw [List.cons_append, joinLines_cons hne]
    constructor
    · intro hpart
      rcases return_newline_append hp hpart with hlast | hpart
      · exact ⟨p, List.mem_cons_self, hlast⟩
      · obtain ⟨q, hq, hlast⟩ := hrest.mp hpart
        exact ⟨q, List.mem_cons_of_mem p hq, hlast⟩
    · rintro ⟨q, hq, hlast⟩
      rcases List.mem_cons.mp hq with rfl | hq
      · obtain ⟨start, rfl⟩ := List.getLast?_eq_some_iff.mp hlast
        exact ⟨start, joinLines (front ++ [last]), by simp⟩
      · have hpart := hrest.mpr ⟨q, hq, hlast⟩
        exact hpart.trans ((List.suffix_cons _ _).trans (List.suffix_append _ _)).isInfix

private theorem stripReturn_eq_self_iff {p : List Char} :
    stripReturn p = p ↔ p.getLast? ≠ some '\r' := by
  unfold stripReturn
  split
  · next hlast =>
    refine iff_of_false (fun heq => ?_) (not_not.mpr hlast)
    have hlength := congrArg List.length heq
    obtain ⟨start, rfl⟩ := List.getLast?_eq_some_iff.mp hlast
    simp at hlength
  · next hlast => exact iff_of_true rfl hlast

theorem stripReturn_sublist (p : List Char) : (stripReturn p).Sublist p := by
  unfold stripReturn
  split
  · exact List.dropLast_sublist p
  · exact List.Sublist.refl p

private theorem joinLines_sublist {ls ls' : List (List Char)} (h : List.Forall₂ List.Sublist ls ls') :
    (joinLines ls).Sublist (joinLines ls') := by
  induction h with
  | nil => exact List.Sublist.refl _
  | @cons l l' rest rest' hl hrest ih =>
    cases hrest with
    | nil =>
      have hone (x : List Char) : joinLines [x] = x := List.append_nil x
      rw [hone, hone]
      exact hl
    | cons hnext hmore =>
      rw [joinLines_cons (List.cons_ne_nil _ _), joinLines_cons (List.cons_ne_nil _ _)]
      exact hl.append (ih.cons_cons '\n')

private theorem joinLines_dropLast_sublist (front : List (List Char)) (last : List Char) :
    (joinLines front).Sublist (joinLines (front ++ [last])) := by
  induction front with
  | nil => exact List.nil_sublist _
  | cons p front ih =>
    have hne : front ++ [last] ≠ [] := List.append_ne_nil_of_right_ne_nil front (List.cons_ne_nil last [])
    rw [List.cons_append, joinLines_cons hne]
    cases front with
    | nil =>
      have hone : joinLines [p] = p := List.append_nil p
      rw [hone]
      exact List.sublist_append_left _ _
    | cons q front =>
      rw [joinLines_cons (List.cons_ne_nil q front)]
      exact (List.Sublist.refl p).append (ih.cons_cons '\n')

/-- Splitting and joining only takes characters away. -/
theorem joinLines_lines_sublist (s : List Char) : (joinLines (lines s)).Sublist s := by
  obtain ⟨front, last, -, hs, -, hlines⟩ := exists_pieces s
  have hstrip : List.Forall₂ List.Sublist (front.map stripReturn) front := by
    rw [List.forall₂_map_left_iff, List.forall₂_same]
    exact fun p _ => stripReturn_sublist p
  rw [hlines]
  conv_rhs => rw [hs]
  split
  · rw [List.append_nil]
    exact (joinLines_sublist hstrip).trans (joinLines_dropLast_sublist front last)
  · exact joinLines_sublist (List.rel_append hstrip (.cons (List.Sublist.refl last) .nil))

private theorem filter_joinLines (ls : List (List Char)) :
    (joinLines ls).filter (!isBreak ·) = ls.flatMap fun l => l.filter (!isBreak ·) := by
  induction ls with
  | nil => rfl
  | cons l ls ih =>
    cases ls with
    | nil =>
      have hone : joinLines [l] = l := List.append_nil l
      rw [hone, List.flatMap_cons, List.flatMap_nil, List.append_nil]
    | cons l' ls =>
      rw [joinLines_cons (List.cons_ne_nil l' ls), List.filter_append,
        List.filter_cons_of_neg (by decide), ih]
      rfl

private theorem filter_stripReturn (p : List Char) :
    (stripReturn p).filter (!isBreak ·) = p.filter (!isBreak ·) := by
  unfold stripReturn
  split
  · next hlast =>
    obtain ⟨start, rfl⟩ := List.getLast?_eq_some_iff.mp hlast
    rw [List.dropLast_concat, List.filter_append, List.filter_cons_of_neg (by decide), List.filter_nil,
      List.append_nil]
  · rfl

/-- Nothing but endings is taken away. -/
theorem filter_joinLines_lines (s : List Char) :
    (joinLines (lines s)).filter (!isBreak ·) = s.filter (!isBreak ·) := by
  obtain ⟨front, last, -, hs, -, hlines⟩ := exists_pieces s
  have hstrip : (front.map stripReturn).flatMap (fun l => l.filter (!isBreak ·)) =
      front.flatMap fun l => l.filter (!isBreak ·) := by
    rw [List.flatMap_map]
    simp only [filter_stripReturn]
  rw [hlines, filter_joinLines]
  conv_rhs => rw [hs, filter_joinLines]
  rw [List.flatMap_append, List.flatMap_append, hstrip]
  split
  · next hlast =>
    rw [List.isEmpty_iff.mp hlast]
    rfl
  · rfl

/-- A text whose endings are all still there is the same. -/
theorem joinLines_lines_of_breaks {s : List Char}
    (h : (joinLines (lines s)).filter isBreak = s.filter isBreak) : joinLines (lines s) = s := by
  refine (joinLines_lines_sublist s).eq_of_length ?_
  have hother := congrArg List.length (filter_joinLines_lines s)
  have hbreaks := congrArg List.length h
  have hsum (x : List Char) :
      x.length = (x.filter isBreak).length + (x.filter (!isBreak ·)).length :=
    List.length_eq_length_filter_add isBreak
  rw [hsum, hsum s]
  omega

/-- An empty piece at the end is an ending. -/
theorem joinLines_concat_nil {ls : List (List Char)} (hls : ls ≠ []) :
    joinLines (ls ++ [[]]) = joinLines ls ++ ['\n'] := by
  induction ls with
  | nil => exact absurd rfl hls
  | cons l ls ih =>
    have hne : ls ++ [[]] ≠ [] := by simp
    rw [List.cons_append, joinLines_cons hne]
    cases ls with
    | nil =>
      have hone (x : List Char) : joinLines [x] = x := List.append_nil x
      rw [List.nil_append, hone, hone]
    | cons l' ls =>
      rw [ih (List.cons_ne_nil l' ls), joinLines_cons (List.cons_ne_nil l' ls), List.append_assoc]
      rfl

/-- Splitting and joining keeps a text without carriage returns in front of its endings and without an
ending at its end. -/
theorem joinLines_lines_iff (s : List Char) :
    joinLines (lines s) = s ↔ ¬ ['\r', '\n'] <:+: s ∧ s.getLast? ≠ some '\n' := by
  obtain ⟨front, last, hpieces, hs, hclean, hlines⟩ := exists_pieces s
  have hreturn := return_newline_iff hclean
  rw [← hs] at hreturn
  rw [hreturn, hlines]
  cases last with
  | nil =>
    rw [List.isEmpty_nil, if_pos rfl, List.append_nil]
    cases front with
    | nil =>
      have hnil : s = [] := hs
      subst hnil
      exact iff_of_true rfl ⟨fun ⟨p, hp, _⟩ => absurd hp List.not_mem_nil, by decide⟩
    | cons p front =>
      have hends : s = joinLines (p :: front) ++ ['\n'] := by
        rw [hs]
        exact joinLines_concat_nil (List.cons_ne_nil p front)
      refine iff_of_false (fun heq => ?_) fun ⟨_, hlast⟩ => hlast (by rw [hends]; simp)
      have hstrip : List.Forall₂ List.Sublist ((p :: front).map stripReturn) (p :: front) := by
        rw [List.forall₂_map_left_iff, List.forall₂_same]
        exact fun q _ => stripReturn_sublist q
      have hshort := (joinLines_sublist hstrip).length_le
      rw [heq, hends, List.length_append, List.length_singleton] at hshort
      omega
  | cons c last =>
    have hlast : s.getLast? ≠ some '\n' := by
      intro hend
      obtain ⟨start, hstart⟩ := List.getLast?_eq_some_iff.mp hend
      have hsplit : s.splitOn '\n' = start.splitOn '\n' ++ [[]] := by
        rw [hstart, List.splitOn_append_cons_self]
        rfl
      rw [hpieces] at hsplit
      have hnil := (List.append_inj' hsplit rfl).2
      cases hnil
    rw [List.isEmpty_cons, if_neg Bool.false_ne_true, and_iff_left hlast]
    have hstripClean : ∀ l ∈ front.map stripReturn ++ [c :: last], '\n' ∉ l := by
      intro l hl
      rcases List.mem_append.mp hl with hl | hl
      · obtain ⟨p, hp, rfl⟩ := List.mem_map.mp hl
        exact fun hmem => hclean p (List.mem_append_left _ hp) ((stripReturn_sublist p).subset hmem)
      · rw [List.mem_singleton.mp hl]
        exact hclean _ (List.mem_append_right _ List.mem_cons_self)
    constructor
    · rintro heq ⟨p, hp, hreturn⟩
      have hsame := splitOn_joinLines hstripClean (by simp)
      rw [heq, hpieces] at hsame
      have hfront : front = front.map stripReturn := (List.append_inj' hsame rfl).1
      have hstrip : stripReturn p = p := by
        have hmap : front.map stripReturn = front.map id := by rw [List.map_id, ← hfront]
        exact List.map_inj_left.mp hmap p hp
      exact stripReturn_eq_self_iff.mp hstrip hreturn
    · intro hnone
      have hfront : front.map stripReturn = front := by
        have hmap : front.map stripReturn = front.map id := by
          refine List.map_inj_left.mpr fun p hp => stripReturn_eq_self_iff.mpr fun hlast => ?_
          exact hnone ⟨p, hp, hlast⟩
        rw [hmap, List.map_id]
      rw [hfront, ← hs]

/-- Lines that are pieces of their text. -/
structure Plain (front : List (List Char)) (last : List Char) : Prop where
  clean : ∀ l ∈ front ++ [last], '\n' ∉ l
  last : last ≠ []
  front : ∀ p ∈ front, p.getLast? ≠ some '\r'

theorem lines_of_plain {front : List (List Char)} {last : List Char} (h : Plain front last) :
    lines (joinLines (front ++ [last])) = front ++ [last] := by
  have hpieces := splitOn_joinLines h.clean (by simp)
  have hstrip : front.map stripReturn = front.map id :=
    List.map_inj_left.mpr fun p hp => stripReturn_eq_self_iff.mpr (h.front p hp)
  have hlast : last.isEmpty = false := by
    cases last with
    | nil => exact absurd rfl h.last
    | cons c last => rfl
  unfold lines
  rw [hpieces]
  dsimp only
  rw [List.dropLast_concat, List.getLast?_concat, Option.getD_some, hstrip, List.map_id, hlast,
    if_neg Bool.false_ne_true]

/-- The lines of a text that splitting and joining keeps. -/
theorem exists_plain {s : List Char} (h : joinLines (lines s) = s) (hne : s ≠ []) :
    ∃ front last, lines s = front ++ [last] ∧ Plain front last := by
  obtain ⟨hreturn, hlast⟩ := (joinLines_lines_iff s).mp h
  obtain ⟨front, last, -, hs, hclean, -⟩ := exists_pieces s
  have hplain : Plain front last := by
    refine ⟨hclean, ?_, fun p hp hend => hreturn ?_⟩
    · rintro rfl
      cases front with
      | nil => exact hne hs
      | cons p front =>
        rw [joinLines_concat_nil (List.cons_ne_nil p front)] at hs
        exact hlast (hs ▸ List.getLast?_concat ..)
    · rw [hs]
      exact (return_newline_iff hclean).mpr ⟨p, hp, hend⟩
  refine ⟨front, last, ?_, hplain⟩
  conv_lhs => rw [hs]
  exact lines_of_plain hplain

/-- The lines of such a text are its pieces. -/
theorem lines_eq_splitOn {s : List Char} (h : joinLines (lines s) = s) (hne : s ≠ []) :
    lines s = s.splitOn '\n' := by
  obtain ⟨front, last, hlines, hplain⟩ := exists_plain h hne
  have hpieces := splitOn_joinLines hplain.clean (by simp)
  rw [← hlines, h] at hpieces
  exact hpieces.symm

end Kept

section Infixes

variable {w : List Char} {ls : List (List Char)}

/-- A line among others, with the text around it. -/
theorem joinLines_around (front : List (List Char)) (l : List Char) (back : List (List Char)) :
    joinLines (front ++ l :: back) =
      front.flatMap (· ++ ['\n']) ++ (l ++ back.flatMap ('\n' :: ·)) := by
  induction front with
  | nil =>
    rw [List.nil_append, List.flatMap_nil, List.nil_append]
    cases back with
    | nil => rfl
    | cons m back =>
      rw [joinLines_cons (List.cons_ne_nil m back), cons_joinLines (List.cons_ne_nil m back)]
  | cons m front ih =>
    have hne : front ++ l :: back ≠ [] := List.append_ne_nil_of_right_ne_nil front (List.cons_ne_nil l back)
    rw [List.cons_append, joinLines_cons hne, ih, List.flatMap_cons]
    simp

theorem infix_joinLines {l : List Char} (hl : l ∈ ls) : l <:+: joinLines ls := by
  obtain ⟨front, back, rfl⟩ := List.append_of_mem hl
  rw [joinLines_around]
  exact (List.prefix_append _ _).isInfix.trans (List.suffix_append _ _).isInfix

private theorem prefix_before_newline {l x : List Char} (hw : '\n' ∉ w) (h : w <+: l ++ '\n' :: x) :
    w <+: l := by
  rcases List.prefix_or_prefix_of_prefix h (List.prefix_append l _) with hl | ⟨w', rfl⟩
  · exact hl
  · have hw' := (List.prefix_append_right_inj l).mp h
    cases w' with
    | nil => exact ⟨[], by rw [List.append_nil, List.append_nil]⟩
    | cons c w' =>
      obtain ⟨rfl, -⟩ := List.cons_prefix_cons.mp hw'
      exact absurd (List.mem_append_right l List.mem_cons_self) hw

/-- What has no ending in it stands in a line. -/
theorem exists_infix_of_joinLines (hne : w ≠ []) (hw : '\n' ∉ w) (h : w <:+: joinLines ls) :
    ∃ l ∈ ls, w <:+: l := by
  have hsplit : ∀ {l x : List Char}, w <:+: l ++ '\n' :: x → w <:+: l ∨ w <:+: x := by
    intro l x hpart
    induction l with
    | nil =>
      rcases List.infix_cons_iff.mp hpart with hbegin | hpart
      · have hnil := List.prefix_nil.mp (prefix_before_newline (l := []) hw hbegin)
        exact absurd hnil hne
      · exact .inr hpart
    | cons c l ih =>
      rcases List.infix_cons_iff.mp hpart with hbegin | hpart
      · exact .inl (prefix_before_newline (l := c :: l) hw hbegin).isInfix
      · rcases ih hpart with hl | hx
        · exact .inl (List.infix_cons hl)
        · exact .inr hx
  induction ls with
  | nil => exact absurd (List.infix_nil.mp h) hne
  | cons l ls ih =>
    cases ls with
    | nil =>
      have hone : joinLines [l] = l := List.append_nil l
      rw [hone] at h
      exact ⟨l, List.mem_cons_self, h⟩
    | cons m ls =>
      rw [joinLines_cons (List.cons_ne_nil m ls)] at h
      rcases hsplit h with hl | hrest
      · exact ⟨l, List.mem_cons_self, hl⟩
      · obtain ⟨l', hl', hpart⟩ := ih hrest
        exact ⟨l', List.mem_cons_of_mem l hl', hpart⟩

theorem infix_of_mem_lines {s l : List Char} (h : l ∈ lines s) : l <:+: s := by
  obtain ⟨front, last, -, hs, -, hlines⟩ := exists_pieces s
  rw [hlines] at h
  rcases List.mem_append.mp h with h | h
  · obtain ⟨p, hp, rfl⟩ := List.mem_map.mp h
    have hbegin : stripReturn p <+: p := by
      unfold stripReturn
      split
      · exact List.dropLast_prefix p
      · exact List.prefix_rfl
    rw [hs]
    exact hbegin.isInfix.trans (infix_joinLines (List.mem_append_left _ hp))
  · split at h
    · cases h
    · rw [List.mem_singleton.mp h, hs]
      exact infix_joinLines (List.mem_append_right _ List.mem_cons_self)

/-- What has no part of an ending in it stands in one of the lines. -/
theorem exists_infix_of_lines {s : List Char} (hne : w ≠ []) (hbreak : ∀ c ∈ w, isBreak c = false)
    (h : w <:+: s) : ∃ l ∈ lines s, w <:+: l := by
  obtain ⟨front, last, -, hs, -, hlines⟩ := exists_pieces s
  have hnewline : '\n' ∉ w := fun hmem => absurd (hbreak _ hmem) (by decide)
  rw [hs] at h
  obtain ⟨p, hp, hpart⟩ := exists_infix_of_joinLines hne hnewline h
  rw [hlines]
  rcases List.mem_append.mp hp with hp | hp
  · refine ⟨stripReturn p, List.mem_append_left _ (List.mem_map_of_mem hp), ?_⟩
    unfold stripReturn
    split
    · next hlast =>
      obtain ⟨start, rfl⟩ := List.getLast?_eq_some_iff.mp hlast
      rw [List.dropLast_concat]
      rcases List.infix_concat_iff.mp hpart with hsuffix | hstart
      · rcases List.suffix_concat_iff.mp hsuffix with hnil | ⟨w', hw', -⟩
        · exact absurd hnil hne
        · have hreturn : '\r' ∈ w := hw' ▸ List.mem_append_right w' List.mem_cons_self
          exact absurd (hbreak _ hreturn) (by decide)
      · exact hstart
    · exact hpart
  · obtain rfl := List.mem_singleton.mp hp
    cases p with
    | nil => exact absurd (List.infix_nil.mp hpart) hne
    | cons c p => exact ⟨c :: p, List.mem_append_right _ List.mem_cons_self, hpart⟩

end Infixes

section Bytes

def byteLen (s : List Char) : Nat := (s.map Char.utf8Size).sum

theorem byteLen_append (s t : List Char) : byteLen (s ++ t) = byteLen s + byteLen t := by
  simp [byteLen]

theorem byteLen_le_of_sublist {s t : List Char} (h : s.Sublist t) : byteLen s ≤ byteLen t := by
  have hcons (c : Char) (cs : List Char) : byteLen (c :: cs) = c.utf8Size + byteLen cs := rfl
  induction h with
  | slnil => exact Nat.le_refl _
  | cons c _ ih =>
    rw [hcons]
    omega
  | cons_cons c _ ih =>
    rw [hcons, hcons]
    omega

theorem byteLen_cutBytes_le (bytes : Nat) (s : List Char) : byteLen (cutBytes bytes s) ≤ bytes :=
  cutBytes_le bytes s

/-- What fits is kept whole, and what comes after it takes the room that is left. -/
theorem cutBytes_append_of_le {bytes : Nat} {s : List Char} (h : byteLen s ≤ bytes) (t : List Char) :
    cutBytes bytes (s ++ t) = s ++ cutBytes (bytes - byteLen s) t := by
  induction s generalizing bytes with
  | nil => rfl
  | cons c cs ih =>
    have hsize : byteLen (c :: cs) = c.utf8Size + byteLen cs := rfl
    rw [hsize] at h ⊢
    rw [List.cons_append, cutBytes, if_pos (by omega), ih (by omega), Nat.sub_sub]
    rfl

/-- Of what does not fit nothing after it is kept. -/
theorem cutBytes_append_of_lt {bytes : Nat} {s : List Char} (h : bytes < byteLen s) (t : List Char) :
    cutBytes bytes (s ++ t) = cutBytes bytes s := by
  induction s generalizing bytes with
  | nil => exact absurd h (Nat.not_lt_zero _)
  | cons c cs ih =>
    have hsize : byteLen (c :: cs) = c.utf8Size + byteLen cs := rfl
    rw [hsize] at h
    rw [List.cons_append, cutBytes, cutBytes]
    split
    · rw [ih (by omega)]
    · rfl

/-- A cut leaves less than one character's room. -/
theorem lt_byteLen_cutBytes {bytes : Nat} {s : List Char} (h : bytes < byteLen s) :
    bytes < byteLen (cutBytes bytes s) + 4 := by
  induction s generalizing bytes with
  | nil => exact absurd h (Nat.not_lt_zero _)
  | cons c cs ih =>
    have hsize : byteLen (c :: cs) = c.utf8Size + byteLen cs := rfl
    have hmost := c.utf8Size_le_four
    rw [hsize] at h
    rw [cutBytes]
    split
    · next hfits =>
      have hrest : bytes - c.utf8Size < byteLen (cutBytes (bytes - c.utf8Size) cs) + 4 := ih (by omega)
      have hkept : byteLen (c :: cutBytes (bytes - c.utf8Size) cs) =
          c.utf8Size + byteLen (cutBytes (bytes - c.utf8Size) cs) := rfl
      omega
    · omega

end Bytes

end Gyre.Lib.Text
