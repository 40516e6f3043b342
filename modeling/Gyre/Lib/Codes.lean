/- digest: When fields written one after the other can be told apart again. -/

import Mathlib.Data.List.Basic

set_option autoImplicit false
set_option relaxedAutoImplicit false

namespace Gyre.Lib

universe u v

variable {α : Type u} {β : Type v} {f : α → List β} {z : β}

/-- What stands before the first separator. -/
theorem append_separator_inj {as bs x y : List β} (has : z ∉ as) (hbs : z ∉ bs)
    (h : as ++ z :: x = bs ++ z :: y) : as = bs ∧ x = y := by
  induction as generalizing bs with
  | nil =>
    cases bs with
    | nil => exact ⟨rfl, (List.cons.inj h).2⟩
    | cons b bs => exact absurd ((List.cons.inj h).1 ▸ List.mem_cons_self) hbs
  | cons a as ih =>
    cases bs with
    | nil => exact absurd ((List.cons.inj h).1 ▸ List.mem_cons_self) has
    | cons b bs =>
      obtain ⟨hhead, htail⟩ := List.cons.inj h
      obtain ⟨hrest, hxy⟩ := ih (fun ha => has (List.mem_cons_of_mem _ ha))
        (fun hb => hbs (List.mem_cons_of_mem _ hb)) htail
      rw [hhead, hrest]
      exact ⟨rfl, hxy⟩

/-- A list of codes, each with an end mark that is in none of them. -/
theorem flatMap_terminated_inj (hf : Function.Injective f) {as bs : List α}
    (has : ∀ a ∈ as, z ∉ f a) (hbs : ∀ b ∈ bs, z ∉ f b)
    (h : as.flatMap (fun a => f a ++ [z]) = bs.flatMap fun b => f b ++ [z]) : as = bs := by
  induction as generalizing bs with
  | nil =>
    cases bs with
    | nil => rfl
    | cons b bs => simp at h
  | cons a as ih =>
    cases bs with
    | nil => simp at h
    | cons b bs =>
      rw [List.flatMap_cons, List.flatMap_cons, List.append_assoc, List.append_assoc] at h
      obtain ⟨hhead, htail⟩ :=
        append_separator_inj (has a List.mem_cons_self) (hbs b List.mem_cons_self) h
      have hrest := ih (fun a ha => has a (List.mem_cons_of_mem _ ha))
        (fun b hb => hbs b (List.mem_cons_of_mem _ hb)) htail
      rw [hf hhead, hrest]

/-- A field that may be left out: the separator after it can be told from its code where both sides
have it or neither has, or where its code does not begin with the separator. -/
theorem optional_separated_inj (hf : Function.Injective f) {n : Nat}
    (hlength : ∀ a, (f a).length = n + 1) {o o' : Option α} {x y : List β}
    (ho : o.isSome = o'.isSome ∨ ∀ a ∈ o.or o', (f a).head? ≠ some z)
    (h : (o.map f).getD [] ++ z :: x = (o'.map f).getD [] ++ z :: y) : o = o' ∧ x = y := by
  -- a code on one side only would begin with the separator
  have hbegins (a : α) (rest rest' : List β) (heq : z :: rest = f a ++ z :: rest') :
      (f a).head? = some z := by
    cases hcode : f a with
    | nil =>
      have hzero := hlength a
      rw [hcode] at hzero
      cases hzero
    | cons c code =>
      rw [hcode] at heq
      rw [(List.cons.inj heq).1]
      rfl
  cases o with
  | none =>
    cases o' with
    | none => exact ⟨rfl, (List.cons.inj h).2⟩
    | some b =>
      rcases ho with ho | ho
      · cases ho
      · exact absurd (hbegins b x y h) (ho b rfl)
  | some a =>
    cases o' with
    | none =>
      rcases ho with ho | ho
      · cases ho
      · exact absurd (hbegins a y x h.symm) (ho a rfl)
    | some b =>
      have hsame : (f a).length = (f b).length := by rw [hlength, hlength]
      obtain ⟨hcode, hrest⟩ := List.append_inj h hsame
      rw [hf hcode]
      exact ⟨rfl, (List.cons.inj hrest).2⟩

end Gyre.Lib
