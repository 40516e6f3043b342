/- digest: Texts with a mark inserted in front of some of their characters. -/

import Gyre.Lib.Text
import Mathlib.Data.List.Forall2

/-!
A replacement that only adds a mark to what it replaces leaves every other text in place: what does
not reach over a place for a mark stands in the new text exactly when it stood in the old one.
-/

set_option autoImplicit false
set_option relaxedAutoImplicit false

namespace Gyre.Lib.Marks

/-- Marks come in front of characters, as a condition on the character and the one before it allows. -/
inductive Inserted (mark : Char) (ok : Option Char → Char → Prop) :
    Option Char → List Char → List Char → Prop
  | nil {previous : Option Char} : Inserted mark ok previous [] []
  | keep {previous : Option Char} {c : Char} {s t : List Char} :
      Inserted mark ok (some c) s t → Inserted mark ok previous (c :: s) (c :: t)
  | insert {previous : Option Char} {c : Char} {s t : List Char} : ok previous c →
      Inserted mark ok (some c) s t → Inserted mark ok previous (c :: s) (mark :: c :: t)

/-- No mark goes in between the characters of a text. -/
def Uncut (ok : Option Char → Char → Prop) : List Char → Prop
  | [] => True
  | [_] => True
  | c :: d :: s => ¬ ok (some c) d ∧ Uncut ok (d :: s)

variable {mark : Char} {ok ok' : Option Char → Char → Prop} {previous : Option Char}
  {s t w : List Char}

theorem Inserted.mono (hok : ∀ p c, ok p c → ok' p c) (h : Inserted mark ok previous s t) :
    Inserted mark ok' previous s t := by
  induction h with
  | nil => exact .nil
  | keep _ ih => exact .keep ih
  | insert hallowed _ ih => exact .insert (hok _ _ hallowed) ih

/-- Where only the marked character counts, the one before it does not. -/
theorem Inserted.loosen (hloose : ∀ q q' c, ok q c → ok q' c) {previous' : Option Char}
    (h : Inserted mark ok previous s t) : Inserted mark ok previous' s t := by
  cases h with
  | nil => exact .nil
  | keep hrest => exact .keep hrest
  | insert hallowed hrest => exact .insert (hloose _ _ _ hallowed) hrest

theorem Inserted.refl (s : List Char) : Inserted mark ok previous s s := by
  induction s generalizing previous with
  | nil => exact .nil
  | cons c s ih => exact .keep ih

theorem Inserted.append_refl (s : List Char) {x y : List Char}
    (h : ∀ p, Inserted mark ok p x y) : Inserted mark ok previous (s ++ x) (s ++ y) := by
  induction s generalizing previous with
  | nil => exact h previous
  | cons c s ih => exact .keep ih

/-- What comes before a mark decides whether it may stand there. -/
theorem inserted_front (front : List Char) {x y : List Char}
    (h : ∀ q, (front = [] ∨ q = front.getLast?) → Inserted mark ok q x y) :
    Inserted mark ok previous (front ++ x) (front ++ y) := by
  have hfront : ∀ (front : List Char) (previous : Option Char),
      (∀ q, ((front = [] ∧ q = previous) ∨ (front ≠ [] ∧ q = front.getLast?)) →
        Inserted mark ok q x y) → Inserted mark ok previous (front ++ x) (front ++ y) := by
    intro front
    induction front with
    | nil => exact fun previous h => h previous (.inl ⟨rfl, rfl⟩)
    | cons c front ih =>
      intro previous h
      refine .keep (ih (some c) fun q hq => h q (.inr ⟨List.cons_ne_nil c front, ?_⟩))
      rcases hq with ⟨rfl, rfl⟩ | ⟨hne, rfl⟩
      · rfl
      · rw [List.getLast?_cons_of_ne_nil hne]
  refine hfront front previous fun q hq => h q ?_
  rcases hq with ⟨hnil, -⟩ | ⟨-, hlast⟩
  · exact .inl hnil
  · exact .inr hlast

section Occurrences

private theorem prefix_insert (hw : Uncut ok w) (h : Inserted mark ok previous s t) (hbegin : w <+: s)
    (hfront : ∀ c ∈ w.head?, ¬ ok previous c) : w <+: t := by
  induction h generalizing w with
  | nil => exact hbegin
  | keep _ ih =>
    cases w with
    | nil => exact List.nil_prefix
    | cons d w =>
      obtain ⟨rfl, hrest⟩ := List.cons_prefix_cons.mp hbegin
      refine List.cons_prefix_cons.mpr ⟨rfl, ih ?_ hrest ?_⟩
      · cases w with
        | nil => exact trivial
        | cons e w => exact hw.2
      · intro e he
        cases w with
        | nil => cases he
        | cons f w =>
          cases he
          exact hw.1
  | insert hallowed =>
    cases w with
    | nil => exact List.nil_prefix
    | cons d w =>
      obtain ⟨rfl, -⟩ := List.cons_prefix_cons.mp hbegin
      exact absurd hallowed (hfront _ rfl)

private theorem prefix_insert_tail (hw : Uncut ok w) {c : Char} (h : Inserted mark ok (some c) s t)
    (hbegin : w <+: c :: s) : w <+: c :: t := by
  cases w with
  | nil => exact List.nil_prefix
  | cons d w =>
    obtain ⟨rfl, hrest⟩ := List.cons_prefix_cons.mp hbegin
    refine List.cons_prefix_cons.mpr ⟨rfl, prefix_insert ?_ h hrest ?_⟩
    · cases w with
      | nil => exact trivial
      | cons e w => exact hw.2
    · intro e he
      cases w with
      | nil => cases he
      | cons f w =>
        cases he
        exact hw.1

/-- A text that marks do not cut stays. -/
theorem Inserted.keeps (hw : Uncut ok w) (h : Inserted mark ok previous s t) (hpart : w <:+: s) :
    w <:+: t := by
  induction h with
  | nil => exact hpart
  | keep hrest ih =>
    rcases List.infix_cons_iff.mp hpart with hbegin | hpart
    · exact (prefix_insert_tail hw hrest hbegin).isInfix
    · exact List.infix_cons (ih hpart)
  | insert _ hrest ih =>
    rcases List.infix_cons_iff.mp hpart with hbegin | hpart
    · exact List.infix_cons (prefix_insert_tail hw hrest hbegin).isInfix
    · exact List.infix_cons (List.infix_cons (ih hpart))

private theorem prefix_of_insert (hw : mark ∉ w) (h : Inserted mark ok previous s t) (hbegin : w <+: t) :
    w <+: s := by
  induction h generalizing w with
  | nil => exact hbegin
  | keep _ ih =>
    cases w with
    | nil => exact List.nil_prefix
    | cons d w =>
      obtain ⟨rfl, hrest⟩ := List.cons_prefix_cons.mp hbegin
      exact List.cons_prefix_cons.mpr ⟨rfl, ih (fun hmem => hw (List.mem_cons_of_mem _ hmem)) hrest⟩
  | insert =>
    cases w with
    | nil => exact List.nil_prefix
    | cons d w =>
      obtain ⟨rfl, -⟩ := List.cons_prefix_cons.mp hbegin
      exact absurd List.mem_cons_self hw

/-- A text without marks was there before. -/
theorem Inserted.had (hw : mark ∉ w) (h : Inserted mark ok previous s t) (hpart : w <:+: t) :
    w <:+: s := by
  induction h with
  | nil => exact hpart
  | @keep previous c s t hrest ih =>
    have hkeep : Inserted mark ok previous (c :: s) (c :: t) := .keep hrest
    rcases List.infix_cons_iff.mp hpart with hbegin | hpart
    · exact (prefix_of_insert hw hkeep hbegin).isInfix
    · exact List.infix_cons (ih hpart)
  | @insert previous c s t hallowed hrest ih =>
    have hkeep : Inserted mark ok previous (c :: s) (c :: t) := .keep hrest
    rcases List.infix_cons_iff.mp hpart with hbegin | hpart
    · exact (prefix_of_insert hw (.insert hallowed hrest) hbegin).isInfix
    · rcases List.infix_cons_iff.mp hpart with hbegin | hpart
      · exact (prefix_of_insert hw hkeep hbegin).isInfix
      · exact List.infix_cons (ih hpart)

theorem Inserted.getLast? (h : Inserted mark ok previous s t) : t.getLast? = s.getLast? := by
  induction h with
  | nil => rfl
  | keep _ ih => rw [List.getLast?_cons, List.getLast?_cons, ih]
  | insert _ _ ih => rw [List.getLast?_cons, List.getLast?_cons, List.getLast?_cons, ih]; rfl

/-- Removing other characters does not undo the marks. -/
theorem Inserted.filter {p : Char → Bool} (hmark : p mark = true)
    (hok : ∀ q c, ok q c → p c = true) (hloose : ∀ q q' c, ok q c → ok q' c) {previous' : Option Char}
    (h : Inserted mark ok previous s t) : Inserted mark ok previous' (s.filter p) (t.filter p) := by
  induction h generalizing previous' with
  | nil => exact .nil
  | @keep previous c s t _ ih =>
    by_cases hc : p c = true
    · rw [List.filter_cons_of_pos hc, List.filter_cons_of_pos hc]
      exact .keep ih
    · rw [List.filter_cons_of_neg hc, List.filter_cons_of_neg hc]
      exact ih
  | @insert previous c s t hallowed _ ih =>
    have hc : p c = true := hok _ _ hallowed
    rw [List.filter_cons_of_pos hc, List.filter_cons_of_pos hmark, List.filter_cons_of_pos hc]
    exact .insert (hloose _ _ _ hallowed) ih

theorem Inserted.map {f : Char → Char} (hmark : f mark = mark) (hok : ∀ q c, ok q c → ∀ q', ok' q' (f c))
    {previous' : Option Char} (h : Inserted mark ok previous s t) :
    Inserted mark ok' previous' (s.map f) (t.map f) := by
  induction h generalizing previous' with
  | nil => exact .nil
  | keep _ ih => exact .keep ih
  | insert hallowed _ ih =>
    rw [List.map_cons, List.map_cons, List.map_cons, hmark]
    exact .insert (hok _ _ hallowed _) ih

/-- Marks stay within the pieces of a text. -/
theorem Inserted.splitOn {newline : Char} (hmark : mark ≠ newline)
    (hok : ∀ q, ¬ ok q newline) (hloose : ∀ q q' c, ok q c → ok q' c)
    (h : Inserted mark ok previous s t) :
    List.Forall₂ (Inserted mark ok none) (s.splitOn newline) (t.splitOn newline) := by
  induction h with
  | nil => exact .cons .nil .nil
  | @keep previous c s t _ ih =>
    rw [List.splitOn_cons_eq_if_modifyHead, List.splitOn_cons_eq_if_modifyHead]
    split
    · exact .cons .nil ih
    · revert ih
      generalize s.splitOn newline = pieces
      generalize t.splitOn newline = pieces'
      intro ih
      cases ih with
      | nil => exact .nil
      | cons hfirst hrest => exact .cons (.keep (hfirst.loosen hloose)) hrest
  | @insert previous c s t hallowed _ ih =>
    have hc : (c == newline) = false := by
      rw [beq_eq_false_iff_ne]
      rintro rfl
      exact hok _ hallowed
    have hm : (mark == newline) = false := beq_eq_false_iff_ne.mpr hmark
    rw [List.splitOn_cons_eq_if_modifyHead, List.splitOn_cons_eq_if_modifyHead mark,
      List.splitOn_cons_eq_if_modifyHead c t, hc, hm]
    revert ih
    generalize s.splitOn newline = pieces
    generalize t.splitOn newline = pieces'
    intro ih
    cases ih with
    | nil => exact .nil
    | cons hfirst hrest => exact .cons (.insert (hloose _ _ _ hallowed) (hfirst.loosen hloose)) hrest

end Occurrences

section Replacements

/-- A mark within a pattern is inserted wherever the pattern is replaced. -/
theorem inserted_replace (front : List Char) (c : Char) (back : List Char) (s : List Char) :
    Inserted mark (fun q d => d = c ∧ (front = [] ∨ q = front.getLast?)) previous s
      (Text.replace (front ++ c :: back) (front ++ mark :: c :: back) s) := by
  have hpat : front ++ c :: back ≠ [] := by simp
  induction hlength : s.length using Nat.strong_induction_on generalizing s previous with
  | _ n ih =>
    subst hlength
    cases s with
    | nil => exact .nil
    | cons d s =>
      by_cases hbegin : front ++ c :: back <+: d :: s
      · obtain ⟨rest, hrest⟩ := hbegin
        have hshorter : rest.length < (d :: s).length := by
          rw [← hrest]
          simp only [List.length_append, List.length_cons]
          omega
        have htail : ∀ q, Inserted mark (fun q d => d = c ∧ (front = [] ∨ q = front.getLast?)) q rest
            (Text.replace (front ++ c :: back) (front ++ mark :: c :: back) rest) :=
          fun q => ih rest.length hshorter rest rfl
        rw [← hrest, Text.replace_append hpat, List.append_assoc, List.append_assoc]
        exact inserted_front _ fun q hq => .insert ⟨rfl, hq⟩ (.append_refl back htail)
      · rw [Text.replace_cons_of_not_begins hbegin]
        exact .keep (ih s.length (Nat.lt_succ_self _) s rfl)

end Replacements

end Gyre.Lib.Marks
