/- digest: The members of a list when one of them changes, and how many of them have a property. -/

import Mathlib.Data.List.Basic

set_option autoImplicit false
set_option relaxedAutoImplicit false

namespace Gyre.Lib

universe u

variable {α : Type u} {l : List α} {p : α → Bool} {i : Nat} {a : α}

theorem getElem?_set_cases {j : Nat} {b x : α} (h : (l.set i b)[j]? = some x) :
    (j = i ∧ x = b) ∨ (j ≠ i ∧ l[j]? = some x) := by
  rw [List.getElem?_set] at h
  split at h
  · next heq =>
    split at h
    · exact .inl ⟨heq.symm, (Option.some.inj h).symm⟩
    · cases h
  · next hne => exact .inr ⟨Ne.symm hne, h⟩

theorem eq_or_mem_set {x : α} (h : l[i]? = some a) (b : α) (hx : x ∈ l) : x = a ∨ x ∈ l.set i b := by
  obtain ⟨j, hj⟩ := List.getElem?_of_mem hx
  by_cases heq : i = j
  · subst heq
    rw [h] at hj
    exact .inl (Option.some.inj hj).symm
  · rw [← List.getElem?_set_ne heq] at hj
    exact .inr (List.mem_of_getElem? hj)

/-- What leaves the count is the old member, and what joins it the new one. -/
theorem countP_set_add (h : l[i]? = some a) (b : α) :
    (l.set i b).countP p + (if p a then 1 else 0) = l.countP p + (if p b then 1 else 0) := by
  induction l generalizing i with
  | nil => cases h
  | cons c rest ih =>
    cases i with
    | zero =>
      cases h
      simp only [List.set_cons_zero, List.countP_cons]
      omega
    | succ i =>
      have hrest := ih (i := i) h
      simp only [List.set_cons_succ, List.countP_cons]
      omega

theorem countP_set_le (h : l[i]? = some a) {b : α} (hb : p b = true → p a = true) :
    (l.set i b).countP p ≤ l.countP p := by
  have hcount := countP_set_add (p := p) h b
  cases hpb : p b with
  | false =>
    rw [hpb] at hcount
    simp only [Bool.false_eq_true, if_false] at hcount
    omega
  | true =>
    rw [hpb, hb hpb] at hcount
    simp only [if_true] at hcount
    omega

end Gyre.Lib
