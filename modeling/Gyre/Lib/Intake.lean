/- digest: A list that takes in a fixed number of items and counts what comes after them. -/

import Mathlib.Data.List.Basic
import Mathlib.Data.List.Forall2

set_option autoImplicit false
set_option relaxedAutoImplicit false

namespace Gyre.Lib

/-- What was taken in, whether more is, and how many items were dropped. -/
structure Intake (β : Type) where
  entries : List β
  enabled : Bool
  dropped : Nat
  deriving DecidableEq, Repr

namespace Intake

variable {α β : Type}

def empty : Intake β := ⟨[], true, 0⟩

/-- An item is dropped once the list is full, and stored before; storing may fail. -/
def offer (capacity : Nat) (store : α → Option β) (q : Intake β) (a : α) : Option (Intake β) :=
  if !q.enabled then some { q with dropped := q.dropped + 1 }
  else if capacity ≤ q.entries.length then
    some { q with enabled := false, dropped := q.dropped + 1 }
  else (store a).map fun entry => { q with entries := q.entries ++ [entry] }

def offerAll (capacity : Nat) (store : α → Option β) (q : Intake β) (items : List α) :
    Option (Intake β) := items.foldlM (offer capacity store) q

/-- The items are stored one by one. -/
def storeAll (store : α → Option β) : List α → Option (List β)
  | [] => some []
  | a :: rest => (store a).bind fun entry => (storeAll store rest).map (entry :: ·)

/-- The first items, and no more than there is room for, are in the list as they should be, and every
other item is counted. -/
structure Holds (capacity : Nat) (StoredAs : α → β → Prop) (items : List α) (q : Intake β) : Prop where
  few : q.entries.length ≤ capacity
  stored : List.Forall₂ StoredAs (items.take capacity) q.entries
  counted : q.entries.length + q.dropped = items.length

section Runs

variable {capacity : Nat} {store : α → Option β}

theorem storeAll_isSome_iff {items : List α} :
    (storeAll store items).isSome = true ↔ ∀ a ∈ items, (store a).isSome = true := by
  induction items with
  | nil => simp [storeAll]
  | cons a rest ih =>
    rw [List.forall_mem_cons, ← ih, storeAll]
    cases store a <;> simp

theorem storeAll_forall₂ {items : List α} {entries : List β} (h : storeAll store items = some entries) :
    List.Forall₂ (fun a entry => store a = some entry) items entries := by
  induction items generalizing entries with
  | nil =>
    cases h
    exact .nil
  | cons a rest ih =>
    obtain ⟨entry, hentry, hrest⟩ := Option.bind_eq_some_iff.mp h
    obtain ⟨entries', hentries, rfl⟩ := Option.map_eq_some_iff.mp hrest
    exact .cons hentry (ih hentries)

/-- A list that takes no more only counts. -/
theorem offerAll_disabled (entries : List β) (dropped : Nat) (items : List α) :
    offerAll capacity store ⟨entries, false, dropped⟩ items =
      some ⟨entries, false, dropped + items.length⟩ := by
  induction items generalizing dropped with
  | nil => rfl
  | cons a rest ih =>
    have hstep : offer capacity store ⟨entries, false, dropped⟩ a =
        some ⟨entries, false, dropped + 1⟩ := rfl
    rw [offerAll, List.foldlM_cons, hstep]
    have hrest := ih (dropped + 1)
    rw [List.length_cons, Nat.add_comm rest.length, ← Nat.add_assoc]
    exact hrest

/-- The first items are stored until the list is full; the others are counted. -/
theorem offerAll_enabled (entries : List β) (hroom : entries.length ≤ capacity) (items : List α) :
    offerAll capacity store ⟨entries, true, 0⟩ items =
      (storeAll store (items.take (capacity - entries.length))).map fun stored =>
        ⟨entries ++ stored, decide (items.length ≤ capacity - entries.length),
          items.length - (capacity - entries.length)⟩ := by
  induction items generalizing entries with
  | nil =>
    rw [List.take_nil, storeAll, Option.map_some, List.append_nil]
    simp [offerAll]
  | cons a rest ih =>
    by_cases hfull : capacity ≤ entries.length
    · have hnone : capacity - entries.length = 0 := by omega
      have hstep : offer capacity store ⟨entries, true, 0⟩ a = some ⟨entries, false, 1⟩ := by
        simp [offer, hfull]
      have hrest : offerAll capacity store ⟨entries, false, 1⟩ rest =
          some ⟨entries, false, 1 + rest.length⟩ := offerAll_disabled entries 1 rest
      rw [hnone, List.take_zero, storeAll, Option.map_some, List.append_nil, offerAll,
        List.foldlM_cons, hstep]
      rw [Nat.add_comm] at hrest
      exact hrest
    · have hroom' : capacity - entries.length = (capacity - (entries.length + 1)) + 1 := by omega
      rw [hroom', List.take_succ_cons, storeAll, offerAll, List.foldlM_cons]
      cases hstore : store a with
      | none =>
        have hstep : offer capacity store ⟨entries, true, 0⟩ a = none := by
          simp [offer, hfull, hstore]
        rw [hstep]
        rfl
      | some entry =>
        have hstep : offer capacity store ⟨entries, true, 0⟩ a =
            some ⟨entries ++ [entry], true, 0⟩ := by
          simp [offer, hfull, hstore]
        have hrest := ih (entries ++ [entry]) (by rw [List.length_append]; exact Nat.lt_of_not_le hfull)
        rw [List.length_append, List.length_singleton] at hrest
        rw [hstep]
        refine hrest.trans ?_
        cases storeAll store (rest.take (capacity - (entries.length + 1))) with
        | none => rfl
        | some stored => simp

theorem offerAll_empty (items : List α) :
    offerAll capacity store empty items =
      (storeAll store (items.take capacity)).map fun stored =>
        ⟨stored, decide (items.length ≤ capacity), items.length - capacity⟩ :=
  offerAll_enabled [] (Nat.zero_le _) items

/-- A run of offers goes through, and leaves what it should, exactly if the items that are not
dropped can be stored. -/
theorem offerAll_holds_iff (capacity : Nat) (store : α → Option β) {StoredAs : α → β → Prop}
    (hstore : ∀ a entry, store a = some entry → StoredAs a entry) (items : List α) :
    (∃ q, offerAll capacity store empty items = some q ∧ Holds capacity StoredAs items q) ↔
      ∀ a ∈ items.take capacity, (store a).isSome = true := by
  rw [← storeAll_isSome_iff, offerAll_empty]
  constructor
  · rintro ⟨q, hq, -⟩
    obtain ⟨entries, hentries, -⟩ := Option.map_eq_some_iff.mp hq
    rw [hentries]
    rfl
  · intro h
    obtain ⟨entries, hentries⟩ := Option.isSome_iff_exists.mp h
    have hstored := storeAll_forall₂ hentries
    have hlength := hstored.length_eq
    rw [List.length_take] at hlength
    refine ⟨_, by rw [hentries]; rfl, ?_, hstored.imp hstore, ?_⟩
    · dsimp only
      omega
    · dsimp only
      omega

end Runs

end Intake

end Gyre.Lib
