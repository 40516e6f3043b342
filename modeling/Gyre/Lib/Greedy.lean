/- digest: Choosing from a ranked list, one after the other, under a count and a budget. -/

import Mathlib.Algebra.GroupWithZero.Nat
import Mathlib.Data.List.Basic

set_option autoImplicit false
set_option relaxedAutoImplicit false

namespace Gyre.Lib

universe u

variable {α : Type u} {cost : α → Nat} {limit budget : Nat}

/-- What is chosen from a list after others were taken: an item is passed over only if the count is
reached or the item does not fit. -/
inductive Chosen (cost : α → Nat) (limit budget : Nat) : List α → List α → List α → Prop
  | nil (taken : List α) : Chosen cost limit budget taken [] []
  | take {taken l r : List α} {a : α} (count : taken.length < limit)
      (fits : (taken.map cost).sum + cost a ≤ budget)
      (rest : Chosen cost limit budget (taken ++ [a]) l r) :
      Chosen cost limit budget taken (a :: l) (a :: r)
  | skip {taken l r : List α} {a : α}
      (reason : limit ≤ taken.length ∨ budget < (taken.map cost).sum + cost a)
      (rest : Chosen cost limit budget taken l r) :
      Chosen cost limit budget taken (a :: l) r

namespace Chosen

variable {taken l r : List α}

theorem sublist (h : Chosen cost limit budget taken l r) : r.Sublist l := by
  induction h with
  | nil taken => exact List.Sublist.refl []
  | take count fits rest ih => exact ih.cons_cons _
  | skip reason rest ih => exact ih.cons _

theorem length_le (h : Chosen cost limit budget taken l r) (htaken : taken.length ≤ limit) :
    (taken ++ r).length ≤ limit := by
  induction h with
  | nil taken => rwa [List.append_nil]
  | @take taken l r a count fits rest ih =>
    have hrest := ih (by rw [List.length_append, List.length_singleton]; omega)
    rwa [List.append_assoc, List.singleton_append] at hrest
  | skip reason rest ih => exact ih htaken

theorem cost_le (h : Chosen cost limit budget taken l r) (htaken : (taken.map cost).sum ≤ budget) :
    ((taken ++ r).map cost).sum ≤ budget := by
  induction h with
  | nil taken => rwa [List.append_nil]
  | @take taken l r a count fits rest ih =>
    have hrest := ih (by
      rw [List.map_append, List.sum_append, List.map_singleton, List.sum_singleton]
      exact fits)
    rwa [List.append_assoc, List.singleton_append] at hrest
  | skip reason rest ih => exact ih htaken

/-- When the count is reached, nothing more is chosen. -/
theorem of_full (h : limit ≤ taken.length) (l : List α) : Chosen cost limit budget taken l [] := by
  induction l with
  | nil => exact .nil taken
  | cons a l ih => exact .skip (.inl h) ih

/-- What was chosen of the items before any one of them, and why it was passed over if it was. -/
theorem passed_over (h : Chosen cost limit budget taken l r) {before after : List α} {a : α}
    (hl : l = before ++ a :: after) :
    ∃ chosen rest, r = chosen ++ rest ∧ Chosen cost limit budget taken before chosen ∧
      ((∃ rest', rest = a :: rest') ∨ limit ≤ (taken ++ chosen).length ∨
        budget < ((taken ++ chosen).map cost).sum + cost a) := by
  induction h generalizing before with
  | nil taken => simp at hl
  | @take taken l r b count fits rest ih =>
    cases before with
    | nil =>
      cases hl
      exact ⟨[], a :: r, rfl, .nil taken, .inl ⟨r, rfl⟩⟩
    | cons c before =>
      cases hl
      obtain ⟨chosen, rest', hr, hchosen, hreason⟩ := ih rfl
      refine ⟨b :: chosen, rest', congrArg (b :: ·) hr, .take count fits hchosen, ?_⟩
      rwa [List.append_assoc, List.singleton_append] at hreason
  | @skip taken l r b reason rest ih =>
    cases before with
    | nil =>
      cases hl
      refine ⟨[], r, rfl, .nil taken, .inr ?_⟩
      rwa [List.append_nil]
    | cons c before =>
      cases hl
      obtain ⟨chosen, rest', hr, hchosen, hreason⟩ := ih rfl
      exact ⟨chosen, rest', hr, .skip reason hchosen, hreason⟩

end Chosen

end Gyre.Lib
