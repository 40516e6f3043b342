/- digest: Association lists: several keys erased, and the entries that changes leave. -/

import Mathlib.Data.List.AList

set_option autoImplicit false
set_option relaxedAutoImplicit false

namespace Gyre.Lib

universe u v

variable {α : Type u} {β : Type v}

theorem length_keys (table : AList fun _ : α => β) : table.keys.length = table.entries.length := by
  unfold AList.keys List.keys
  exact List.length_map _

variable [DecidableEq α]

theorem lookup_foldl_erase (keys : List α) (table : AList fun _ : α => β) (a : α) :
    (keys.foldl (fun table key => table.erase key) table).lookup a =
      if a ∈ keys then none else table.lookup a := by
  induction keys generalizing table with
  | nil => rfl
  | cons key rest ih =>
    rw [List.foldl_cons, ih]
    by_cases hrest : a ∈ rest
    · simp [hrest]
    · by_cases hkey : a = key
      · subst hkey
        simp [hrest]
      · simp [hrest, hkey, AList.lookup_erase_ne hkey]

section Entries

variable {table : AList fun _ : α => β} {a : α} {b : β} {e : Sigma fun _ : α => β}

theorem mem_entries_erase (h : e ∈ (table.erase a).entries) : e ∈ table.entries :=
  (List.kerase_sublist a table.entries).subset h

theorem mem_entries_insert (h : e ∈ (table.insert a b).entries) : e = ⟨a, b⟩ ∨ e ∈ table.entries := by
  rw [AList.entries_insert] at h
  rcases List.mem_cons.mp h with hnew | hold
  · exact .inl hnew
  · exact .inr (mem_entries_erase hold)

theorem mem_entries_replace (h : e ∈ (table.replace a b).entries) :
    e = ⟨a, b⟩ ∨ e ∈ table.entries := by
  have hlist (l : List (Sigma fun _ : α => β)) (hmem : e ∈ l.kreplace a b) :
      e = ⟨a, b⟩ ∨ e ∈ l := by
    induction l with
    | nil => exact absurd hmem List.not_mem_nil
    | cons head rest ih =>
      unfold List.kreplace at hmem
      rw [List.lookmap_cons] at hmem
      by_cases hkey : a = head.1
      · simp only [hkey, if_true] at hmem
        rw [← hkey] at hmem
        exact (List.mem_cons.mp hmem).imp_right (List.mem_cons_of_mem head)
      · simp only [hkey, if_false] at hmem
        rcases List.mem_cons.mp hmem with rfl | hmem
        · exact .inr List.mem_cons_self
        · exact (ih hmem).imp_right (List.mem_cons_of_mem head)
  exact hlist table.entries h

theorem length_entries_erase (h : a ∈ table) :
    (table.erase a).entries.length + 1 = table.entries.length := by
  rw [← length_keys, ← length_keys, AList.keys_erase, List.length_erase_of_mem (AList.mem_keys.mp h)]
  have hpositive := List.length_pos_of_mem (AList.mem_keys.mp h)
  omega

theorem length_entries_replace : (table.replace a b).entries.length = table.entries.length := by
  rw [← length_keys, ← length_keys, AList.keys_replace]

theorem length_entries_insert_le : (table.insert a b).entries.length ≤ table.entries.length + 1 := by
  rw [AList.entries_insert, List.length_cons]
  have hle := (List.kerase_sublist a table.entries).length_le
  omega

end Entries

end Gyre.Lib
