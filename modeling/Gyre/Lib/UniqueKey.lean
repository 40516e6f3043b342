/- digest: Rows under a unique key: which of a list are taken in when a taken key is ignored. -/

import Mathlib.Data.List.Nodup

set_option autoImplicit false
set_option relaxedAutoImplicit false

namespace Gyre.Lib

universe u v

variable {α : Type u} {κ : Type v} [DecidableEq κ] (key : α → κ)

/-- The members of a list whose key is not taken, the first one of each key. -/
@[grind =] def firsts (taken : List κ) : List α → List α
  | [] => []
  | a :: rest =>
    if key a ∈ taken then firsts taken rest else a :: firsts (key a :: taken) rest

/-- A row is written, or ignored when its key is taken. -/
@[grind =] def putNew (rows : List α) (a : α) : List α :=
  if key a ∈ rows.map key then rows else rows ++ [a]

variable {key}

theorem firsts_congr {taken other : List κ} (h : ∀ k, k ∈ taken ↔ k ∈ other) (l : List α) :
    firsts key taken l = firsts key other l := by
  induction l generalizing taken other with
  | nil => rfl
  | cons a rest ih =>
    have hcons : ∀ k, k ∈ key a :: taken ↔ k ∈ key a :: other := by
      intro k
      rw [List.mem_cons, List.mem_cons, h k]
    by_cases htaken : key a ∈ taken
    · have hother : key a ∈ other := (h _).mp htaken
      simp only [firsts, htaken, hother, if_true]
      exact ih h
    · have hother : key a ∉ other := fun hin => htaken ((h _).mpr hin)
      simp only [firsts, htaken, hother, if_false]
      rw [ih hcons]

theorem foldl_putNew (rows l : List α) :
    l.foldl (putNew key) rows = rows ++ firsts key (rows.map key) l := by
  induction l generalizing rows with
  | nil => exact (List.append_nil rows).symm
  | cons a rest ih =>
    rw [List.foldl_cons, ih]
    by_cases htaken : key a ∈ rows.map key
    · simp only [putNew, firsts, htaken, if_true]
    · have hsame : ∀ k, k ∈ (rows ++ [a]).map key ↔ k ∈ key a :: rows.map key := by
        intro k
        rw [List.map_append, List.mem_append, List.mem_cons, or_comm]
        simp
      simp only [putNew, firsts, htaken, if_false]
      rw [firsts_congr hsame, List.append_assoc, List.singleton_append]

theorem firsts_sublist (taken : List κ) (l : List α) : (firsts key taken l).Sublist l := by
  induction l generalizing taken with
  | nil => exact List.Sublist.refl _
  | cons a rest ih =>
    unfold firsts
    split
    · exact (ih taken).cons a
    · exact (ih _).cons_cons a

/-- Nothing is ignored exactly when the keys are new and told apart. -/
theorem firsts_eq_self_iff (taken : List κ) (l : List α) :
    firsts key taken l = l ↔ (l.map key).Nodup ∧ ∀ a ∈ l, key a ∉ taken := by
  induction l generalizing taken with
  | nil => simp [firsts]
  | cons a rest ih =>
    by_cases htaken : key a ∈ taken
    · have hlength := (firsts_sublist taken rest : (firsts key taken rest).Sublist rest).length_le
      have hshort : firsts key taken rest ≠ a :: rest := by
        intro h
        rw [h, List.length_cons] at hlength
        omega
      simp [firsts, htaken, hshort]
    · simp only [firsts, htaken, if_false, List.cons.injEq, true_and, ih, List.map_cons,
        List.nodup_cons, List.mem_cons, not_or, List.mem_map, forall_eq_or_imp, not_false_iff]
      constructor
      · rintro ⟨hnodup, hnew⟩
        refine ⟨⟨?_, hnodup⟩, fun b hb => (hnew b hb).2⟩
        rintro ⟨b, hb, hkey⟩
        exact (hnew b hb).1 hkey
      · rintro ⟨⟨hapart, hnodup⟩, hnew⟩
        exact ⟨hnodup, fun b hb => ⟨fun hkey => hapart ⟨b, hb, hkey⟩, hnew b hb⟩⟩

theorem length_firsts_iff (taken : List κ) (l : List α) :
    (firsts key taken l).length = l.length ↔ (l.map key).Nodup ∧ ∀ a ∈ l, key a ∉ taken := by
  rw [← firsts_eq_self_iff]
  exact ⟨fun h => (firsts_sublist taken l).eq_of_length h, fun h => by rw [h]⟩

/-- What is taken in depends on the keys alone. -/
theorem firsts_map {β : Type u} (keyOf : β → κ) (f : α → β) (h : ∀ a, keyOf (f a) = key a)
    (taken : List κ) (l : List α) :
    firsts keyOf taken (l.map f) = (firsts key taken l).map f := by
  induction l generalizing taken with
  | nil => rfl
  | cons a rest ih =>
    simp only [List.map_cons, firsts, h]
    split
    · exact ih taken
    · rw [ih, List.map_cons]

end Gyre.Lib
