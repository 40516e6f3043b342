/- digest: The segments of a list between separators, and the lists that are made of segments. -/

import Mathlib.Data.List.Basic
import Gyre.Lib.Lines

set_option autoImplicit false
set_option relaxedAutoImplicit false

namespace Gyre.Lib.Segments

universe u

variable {α : Type u} [DecidableEq α] (d : α)

/-- The pieces between separators that are not empty. -/
def segments (s : List α) : List (List α) := (s.splitOn d).filter fun piece => !piece.isEmpty

/-- Without the separators that stand at its ends. -/
def strip (s : List α) : List α := ((s.dropWhile (· == d)).reverse.dropWhile (· == d)).reverse

/-- Without the separators that follow a separator. -/
@[grind =] def collapse : (afterSeparator : Bool) → List α → List α
  | _, [] => []
  | after, c :: s =>
    if c = d then (if after then collapse true s else c :: collapse true s) else c :: collapse false s

def join (pieces : List (List α)) : List α := [d].intercalate pieces

/-- Segments as a list has them. -/
def Solid (pieces : List (List α)) : Prop := ∀ piece ∈ pieces, piece ≠ [] ∧ d ∉ piece

variable {d} {s : List α} {pieces : List (List α)}

theorem segments_solid (s : List α) : Solid d (segments d s) := by
  intro piece hpiece
  obtain ⟨hmem, hne⟩ := List.mem_filter.mp hpiece
  refine ⟨?_, Text.notMem_of_mem_splitOn hmem⟩
  rintro rfl
  cases hne

theorem segments_join (h : Solid d pieces) : segments d (join d pieces) = pieces := by
  unfold segments join
  cases pieces with
  | nil => rfl
  | cons piece rest =>
    rw [List.splitOn_intercalate d (fun l hl => (h l hl).2) (List.cons_ne_nil piece rest),
      List.filter_eq_self]
    intro l hl
    simp [(h l hl).1]

theorem segments_cons_self (s : List α) : segments d (d :: s) = segments d s := by
  have hsplit : (d :: s).splitOn d = [] :: s.splitOn d := List.splitOn_append_cons_self [] s
  unfold segments
  rw [hsplit]
  rfl

theorem segments_append_self (s : List α) : segments d (s ++ [d]) = segments d s := by
  have hsplit : (s ++ [d]).splitOn d = s.splitOn d ++ [].splitOn d := List.splitOn_append_cons_self s []
  unfold segments
  rw [hsplit, List.filter_append]
  exact List.append_nil _

theorem segments_dropWhile (s : List α) : segments d (s.dropWhile (· == d)) = segments d s := by
  induction s with
  | nil => rfl
  | cons c s ih =>
    rw [List.dropWhile_cons]
    split
    · next hc =>
      obtain rfl := beq_iff_eq.mp hc
      rw [ih, segments_cons_self]
    · rfl

private theorem segments_dropWhile_reverse (s : List α) :
    segments d (s.dropWhile (· == d)).reverse = segments d s.reverse := by
  induction s with
  | nil => rfl
  | cons c s ih =>
    rw [List.dropWhile_cons]
    split
    · next hc =>
      obtain rfl := beq_iff_eq.mp hc
      rw [ih, List.reverse_cons, segments_append_self]
    · rfl

theorem segments_strip (s : List α) : segments d (strip d s) = segments d s := by
  unfold strip
  rw [segments_dropWhile_reverse, List.reverse_reverse, segments_dropWhile]

theorem strip_head (s : List α) : (strip d s).head? ≠ some d := by
  unfold strip
  rw [List.head?_reverse]
  intro hlast
  have hfront : (s.dropWhile (· == d)).head? = some d := by
    have hsuffix := List.dropWhile_suffix (l := (s.dropWhile (· == d)).reverse) (· == d)
    obtain ⟨taken, htaken⟩ := hsuffix
    have hreversed := congrArg List.getLast? htaken
    rw [List.getLast?_reverse, List.getLast?_append, hlast] at hreversed
    exact hreversed.symm
  have hnot := List.head?_dropWhile_not (· == d) s
  rw [hfront] at hnot
  exact absurd hnot (by simp)

theorem strip_last (s : List α) : (strip d s).getLast? ≠ some d := by
  unfold strip
  rw [List.getLast?_reverse]
  intro hhead
  have hnot := List.head?_dropWhile_not (· == d) (s.dropWhile (· == d)).reverse
  rw [hhead] at hnot
  exact absurd hnot (by simp)

theorem segments_cons_of_ne {c : α} (hc : c ≠ d) (s : List α) : ∃ first rest,
    s.splitOn d = first :: rest ∧
      segments d (c :: s) = (c :: first) :: rest.filter fun piece => !piece.isEmpty := by
  obtain ⟨first, rest, hsplit⟩ := List.exists_cons_of_ne_nil (List.splitOn_ne_nil d s)
  refine ⟨first, rest, hsplit, ?_⟩
  have hbeq : ¬ (c == d) = true := by simpa using hc
  unfold segments
  rw [List.splitOn_cons_eq_if_modifyHead, if_neg hbeq, hsplit]
  rfl

/-- What does not end with a separator has a segment. -/
theorem segments_ne_nil (hne : s ≠ []) (hlast : s.getLast? ≠ some d) : segments d s ≠ [] := by
  induction s with
  | nil => exact absurd rfl hne
  | cons c s ih =>
    by_cases hc : c = d
    · subst hc
      rw [segments_cons_self]
      cases s with
      | nil => exact absurd rfl hlast
      | cons e s =>
        rw [List.getLast?_cons_cons] at hlast
        exact ih (List.cons_ne_nil e s) hlast
    · obtain ⟨first, rest, -, hsegments⟩ := segments_cons_of_ne hc s
      rw [hsegments]
      exact List.cons_ne_nil _ _

section Joining

omit [DecidableEq α]

theorem join_cons_cons (piece next : List α) (rest : List (List α)) :
    join d (piece :: next :: rest) = piece ++ d :: join d (next :: rest) := by
  unfold join
  rw [List.intercalate_cons_cons, List.append_assoc]
  rfl

theorem join_singleton (piece : List α) : join d [piece] = piece := by simp [join, List.intercalate]

theorem join_cons_head (c : α) (piece : List α) (rest : List (List α)) :
    join d ((c :: piece) :: rest) = c :: join d (piece :: rest) := by
  cases rest with
  | nil => rw [join_singleton, join_singleton]
  | cons next rest => rw [join_cons_cons, join_cons_cons, List.cons_append]

theorem join_snoc (hpieces : pieces ≠ []) (piece : List α) :
    join d (pieces ++ [piece]) = join d pieces ++ d :: piece := by
  induction pieces with
  | nil => exact absurd rfl hpieces
  | cons first rest ih =>
    cases rest with
    | nil => rw [List.singleton_append, join_cons_cons, join_singleton, join_singleton]
    | cons next rest =>
      rw [List.cons_append, List.cons_append, join_cons_cons, ← List.cons_append, ih (List.cons_ne_nil _ _),
        join_cons_cons, List.append_assoc, List.cons_append]

end Joining

theorem collapse_eq_true {after : Bool} (h : s.head? ≠ some d) : collapse d after s = collapse d true s := by
  cases s with
  | nil => cases after <;> rfl
  | cons c s =>
    have hc : c ≠ d := fun hc => h (congrArg some hc)
    cases after with
    | true => rfl
    | false => rw [collapse, collapse, if_neg hc, if_neg hc]

/-- A list that does not end with a separator has its segments joined when the separators that follow
each other, and those in front, are left out. -/
theorem collapse_eq_join (h : s.getLast? ≠ some d) : collapse d true s = join d (segments d s) := by
  induction s with
  | nil => rfl
  | cons c s ih =>
    by_cases hc : c = d
    · subst hc
      rw [collapse, if_pos rfl, if_pos rfl, segments_cons_self]
      cases s with
      | nil => rfl
      | cons e s => exact ih (by rwa [List.getLast?_cons_cons] at h)
    · obtain ⟨first, rest, hsplit, hsegments⟩ := segments_cons_of_ne hc s
      rw [collapse, if_neg hc, hsegments, join_cons_head]
      cases s with
      | nil =>
        cases hsplit
        rfl
      | cons e s =>
        rw [List.getLast?_cons_cons] at h
        by_cases he : e = d
        · subst he
          have hne : s ≠ [] := by
            rintro rfl
            exact h rfl
          have hlast : s.getLast? ≠ some e := by
            obtain ⟨b, t, rfl⟩ := List.exists_cons_of_ne_nil hne
            rwa [List.getLast?_cons_cons] at h
          have hbegin : (e :: s).splitOn e = [] :: s.splitOn e := List.splitOn_append_cons_self [] s
          rw [hbegin] at hsplit
          obtain ⟨rfl, rfl⟩ := List.cons.inj hsplit
          have hrest := ih h
          rw [collapse, if_pos rfl, if_pos rfl, segments_cons_self] at hrest
          rw [collapse, if_pos rfl, if_neg Bool.false_ne_true, hrest]
          obtain ⟨piece, more, hmore⟩ := List.exists_cons_of_ne_nil (segments_ne_nil hne hlast)
          unfold segments at hmore ⊢
          rw [hmore, join_cons_cons]
          rfl
        · have hhead : (e :: s).head? ≠ some d := fun hhead => he (Option.some.inj hhead)
          obtain ⟨first', rest', hsplit', hsegments'⟩ := segments_cons_of_ne he s
          have hbeq : ¬ (e == d) = true := by simpa using he
          rw [List.splitOn_cons_eq_if_modifyHead, if_neg hbeq, hsplit'] at hsplit
          obtain ⟨rfl, rfl⟩ := List.cons.inj hsplit
          rw [collapse_eq_true hhead, ih h, hsegments']

theorem length_collapse_le (after : Bool) (s : List α) : (collapse d after s).length ≤ s.length := by
  induction s generalizing after with
  | nil => cases after <;> exact Nat.le_refl _
  | cons c s ih =>
    have htrue := ih true
    have hfalse := ih false
    rw [collapse]
    split
    · split
      · rw [List.length_cons]
        omega
      · rw [List.length_cons, List.length_cons]
        omega
    · rw [List.length_cons, List.length_cons]
      omega

theorem length_strip_le (s : List α) : (strip d s).length ≤ s.length := by
  have hfront := (List.dropWhile_suffix (l := s) (· == d)).length_le
  have hback := (List.dropWhile_suffix (l := (s.dropWhile (· == d)).reverse) (· == d)).length_le
  rw [List.length_reverse] at hback
  unfold strip
  rw [List.length_reverse]
  exact hback.trans hfront

section Ends

omit [DecidableEq α]

theorem head?_join {piece : List α} (hne : piece ≠ []) (rest : List (List α)) :
    (join d (piece :: rest)).head? = piece.head? := by
  obtain ⟨c, piece, rfl⟩ := List.exists_cons_of_ne_nil hne
  rw [join_cons_head]
  rfl

theorem getLast?_join {piece : List α} (hne : piece ≠ []) (front : List (List α)) :
    (join d (front ++ [piece])).getLast? = piece.getLast? := by
  obtain ⟨c, hc⟩ : ∃ c, piece.getLast? = some c := ⟨_, List.getLast?_eq_some_getLast hne⟩
  cases front with
  | nil => rw [List.nil_append, join_singleton]
  | cons first rest =>
    rw [join_snoc (List.cons_ne_nil first rest), List.getLast?_append, List.getLast?_cons, hc]
    rfl

theorem head_join_ne (h : Solid d pieces) : (join d pieces).head? ≠ some d := by
  cases pieces with
  | nil => exact nofun
  | cons piece rest =>
    obtain ⟨hne, hnot⟩ := h piece List.mem_cons_self
    rw [head?_join hne]
    exact fun hhead => hnot (List.mem_of_mem_head? hhead)

theorem last_join_ne (h : Solid d pieces) : (join d pieces).getLast? ≠ some d := by
  rcases List.eq_nil_or_concat pieces with rfl | ⟨front, piece, rfl⟩
  · exact nofun
  · rw [List.concat_eq_append] at h ⊢
    obtain ⟨hne, hnot⟩ := h piece (by simp)
    rw [getLast?_join hne]
    exact fun hlast => hnot (List.mem_of_getLast? hlast)

end Ends

end Gyre.Lib.Segments
