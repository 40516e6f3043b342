/- digest: Entries of a map that collect what several items contribute, and the sums they come to. -/

import Mathlib.Algebra.Order.BigOperators.Group.List
import Mathlib.Data.List.AList
import Mathlib.Data.Rat.Defs
import Mathlib.Algebra.Order.Ring.Rat
import Mathlib.Tactic.Linarith

set_option autoImplicit false
set_option relaxedAutoImplicit false

namespace Gyre.Lib

universe u v w

section Entries

variable {κ : Type u} [DecidableEq κ] {α : Type v} {β : Type w}

/-- `entry(key).and_modify(modify).or_insert(start)`. -/
def putEntry (table : AList fun _ : κ => β) (key : κ) (modify : β → β) (start : β) :
    AList fun _ : κ => β :=
  table.insert key (((table.lookup key).map modify).getD start)

variable (key : α → κ) (modify : α → β → β) (start : α → β)

/-- A map to which each of a list of items contributes under its key. -/
def collect (items : List α) : AList fun _ : κ => β :=
  items.foldl (fun table a => putEntry table (key a) (modify a) (start a)) ∅

variable {key modify start}

/-- A property of entries that each contribution keeps holds of every entry. -/
theorem collect_induction {P : List α → β → Prop} {x : κ} {items : List α} {b : β}
    (first : ∀ a, key a = x → P [a] (start a))
    (next : ∀ before a b, key a = x → P before b → P (before ++ [a]) (modify a b))
    (h : (collect key modify start items).lookup x = some b) :
    P (items.filter fun a => decide (key a = x)) b := by
  have hfold : ∀ (items before : List α) (table : AList fun _ : κ => β),
      (∀ c, table.lookup x = some c → P before c) → (table.lookup x = none → before = []) →
      ∀ b, (items.foldl (fun table a => putEntry table (key a) (modify a) (start a)) table).lookup x =
        some b → P (before ++ items.filter fun a => decide (key a = x)) b := by
    intro items
    induction items with
    | nil =>
      intro before table hsome _ b hb
      rw [List.filter_nil, List.append_nil]
      exact hsome b hb
    | cons a items ih =>
      intro before table hsome hnone b hb
      rw [List.foldl_cons] at hb
      by_cases ha : key a = x
      · subst ha
        have hlookup : (putEntry table (key a) (modify a) (start a)).lookup (key a) =
            some (((table.lookup (key a)).map (modify a)).getD (start a)) := AList.lookup_insert _
        rw [List.filter_cons_of_pos (by simp), ← List.singleton_append, ← List.append_assoc]
        refine ih (before ++ [a]) _ (fun c hc => ?_) (fun hc => ?_) b hb
        · rw [hlookup] at hc
          cases hc
          cases ht : table.lookup (key a) with
          | none =>
            rw [hnone ht]
            exact first a rfl
          | some d => exact next before a d rfl (hsome d ht)
        · rw [hlookup] at hc
          cases hc
      · have hlookup : (putEntry table (key a) (modify a) (start a)).lookup x = table.lookup x :=
          AList.lookup_insert_ne fun h => ha h.symm
        rw [List.filter_cons_of_neg (by simpa using ha)]
        refine ih before _ (fun c hc => ?_) (fun hc => ?_) b hb
        · rw [hlookup] at hc
          exact hsome c hc
        · rw [hlookup] at hc
          exact hnone hc
  exact hfold items [] ∅ (fun c hc => by simp at hc) (fun _ => rfl) b h

/-- The keys of the map are those of the items. -/
theorem mem_collect {items : List α} {x : κ} :
    x ∈ collect key modify start items ↔ ∃ a ∈ items, key a = x := by
  have hfold : ∀ (items : List α) (table : AList fun _ : κ => β),
      x ∈ items.foldl (fun table a => putEntry table (key a) (modify a) (start a)) table ↔
        x ∈ table ∨ ∃ a ∈ items, key a = x := by
    intro items
    induction items with
    | nil => simp
    | cons a items ih =>
      intro table
      rw [List.foldl_cons, ih, putEntry, AList.mem_insert, List.exists_mem_cons_iff, eq_comm (a := x)]
      tauto
  rw [collect, hfold]
  simp

end Entries

section Sums

variable {α : Type u} (weight : α → ℚ) (p : α → Bool)

/-- What all items of a kind contribute. -/
def allShares (l : List α) : ℚ := ((l.filter p).map weight).sum

/-- What the first item of a kind contributes. -/
def firstShare (l : List α) : ℚ := ((l.find? p).map weight).getD 0

variable {weight p} {l : List α}

/-- The first contributes no more than all, and as much exactly if there is no other. -/
theorem firstShare_le (hpos : ∀ a ∈ l, 0 < weight a) :
    firstShare weight p l ≤ allShares weight p l ∧
      (firstShare weight p l = allShares weight p l ↔ l.countP p ≤ 1) := by
  have hmem : ∀ a ∈ l.filter p, 0 < weight a := fun a ha => hpos a (List.mem_of_mem_filter ha)
  unfold firstShare allShares
  rw [← List.head?_filter, List.countP_eq_length_filter]
  cases hfilter : l.filter p with
  | nil => simp
  | cons a rest =>
    rw [hfilter] at hmem
    rw [List.head?_cons, Option.map_some, Option.getD_some, List.map_cons, List.sum_cons]
    cases rest with
    | nil => simp
    | cons b rest =>
      have hrest : 0 < ((b :: rest).map weight).sum := by
        refine List.sum_pos _ (fun q hq => ?_) (by simp)
        obtain ⟨c, hc, rfl⟩ := List.mem_map.mp hq
        exact hmem c (List.mem_cons_of_mem a hc)
      refine ⟨(lt_add_of_pos_right _ hrest).le, iff_of_false (lt_add_of_pos_right _ hrest).ne ?_⟩
      simp

variable (weight p) in
/-- What the first items of a kind in each of several lists contribute. -/
def firstShares (lists : List (List α)) : ℚ := (lists.map (firstShare weight p)).sum

theorem allShares_flatten (lists : List (List α)) :
    allShares weight p lists.flatten = (lists.map (allShares weight p)).sum := by
  induction lists with
  | nil => rfl
  | cons l lists ih =>
    rw [List.map_cons, List.sum_cons, ← ih]
    unfold allShares
    rw [List.flatten_cons, List.filter_append, List.map_append, List.sum_append]

theorem firstShares_le {lists : List (List α)} (hpos : ∀ l ∈ lists, ∀ a ∈ l, 0 < weight a) :
    firstShares weight p lists ≤ allShares weight p lists.flatten ∧
      (firstShares weight p lists = allShares weight p lists.flatten ↔
        ∀ l ∈ lists, l.countP p ≤ 1) := by
  rw [allShares_flatten]
  unfold firstShares
  induction lists with
  | nil => simp
  | cons l lists ih =>
    obtain ⟨hle, heq⟩ := ih fun l' hl' => hpos l' (List.mem_cons_of_mem l hl')
    obtain ⟨hfirst, hsame⟩ := firstShare_le (p := p) (hpos l List.mem_cons_self)
    rw [List.map_cons, List.map_cons, List.sum_cons, List.sum_cons, List.forall_mem_cons, ← hsame,
      ← heq]
    refine ⟨add_le_add hfirst hle, fun h => ?_, fun h => by rw [h.1, h.2]⟩
    constructor
    · linarith
    · linarith

/-- An item of a kind contributes a positive amount. -/
theorem allShares_pos (hpos : ∀ a ∈ l, 0 < weight a) {a : α} (ha : a ∈ l) (hp : p a = true) :
    0 < allShares weight p l := by
  refine List.sum_pos _ (fun q hq => ?_) ?_
  · obtain ⟨b, hb, rfl⟩ := List.mem_map.mp hq
    exact hpos b (List.mem_of_mem_filter hb)
  · intro hnil
    rw [List.map_eq_nil_iff, List.filter_eq_nil_iff] at hnil
    exact hnil a ha hp

end Sums

end Gyre.Lib
