/- digest: The best of a list by a score, in a stable sort, and when the list's order decides on them. -/

import Mathlib.Data.List.Nodup
import Mathlib.Data.List.Perm.Basic
import Mathlib.Data.List.Perm.Subperm
import Mathlib.Data.Nat.Basic
import Mathlib.Order.MinMax

/-!
A list is sorted with the highest score first and cut off. Two orders of the same list give the same
result exactly if no item of the result ties with another.
-/

set_option autoImplicit false
set_option relaxedAutoImplicit false

namespace Gyre.Lib

universe u v w

section Ranking

variable {α : Type u} {β : Type v} [LinearOrder β] (score : α → β) (limit : Nat)

/-- Highest score first; items of one score stay in their order. -/
def rankBy (l : List α) : List α := l.mergeSort fun a b => decide (score b ≤ score a)

/-- The first of the ranking. -/
def topBy (l : List α) : List α := (rankBy score l).take limit

/-- How many items of a list score higher. -/
def above (l : List α) (x : α) : Nat := (l.filter fun z => decide (score x < score z)).length

/-- The items that some order of the list puts among the first. -/
def InTop (l : List α) (x : α) : Prop := x ∈ l ∧ above score l x < limit

variable {score limit} {l l' : List α} {x y : α}

theorem rankBy_perm (l : List α) : (rankBy score l).Perm l := List.mergeSort_perm l _

private theorem ranks_trans (a b c : α) : decide (score b ≤ score a) = true →
    decide (score c ≤ score b) = true → decide (score c ≤ score a) = true := by
  intro hab hbc
  exact decide_eq_true ((of_decide_eq_true hbc).trans (of_decide_eq_true hab))

private theorem ranks_total (a b : α) :
    (decide (score b ≤ score a) || decide (score a ≤ score b)) = true := by
  rw [Bool.or_eq_true, decide_eq_true_eq, decide_eq_true_eq]
  exact le_total _ _

variable (score) in
theorem rankBy_ordered (l : List α) : (rankBy score l).Pairwise fun a b => score b ≤ score a := by
  have hsorted : (rankBy score l).Pairwise fun a b => decide (score b ≤ score a) = true :=
    List.pairwise_mergeSort ranks_trans ranks_total l
  exact hsorted.imp fun h => of_decide_eq_true h

/-- A list in the order of its scores is made of what is above a value, on it and below it. -/
theorem ordered_eq (h : l.Pairwise fun a b => score b ≤ score a) (v : β) :
    l = (l.filter fun z => decide (v < score z)) ++ ((l.filter fun z => decide (score z = v)) ++
      l.filter fun z => decide (score z < v)) := by
  induction l with
  | nil => rfl
  | cons a l ih =>
    obtain ⟨hhead, htail⟩ := List.pairwise_cons.mp h
    have hbelow : score a ≤ v → (l.filter fun z => decide (v < score z)) = [] := by
      intro hle
      refine List.filter_eq_nil_iff.mpr fun z hz hlt => ?_
      exact absurd ((of_decide_eq_true hlt).trans_le (hhead z hz)) (not_lt.mpr hle)
    rcases lt_trichotomy (score a) v with hlt | heq | hgt
    · have hnone : (l.filter fun z => decide (score z = v)) = [] := by
        refine List.filter_eq_nil_iff.mpr fun z hz hsame => ?_
        rw [← of_decide_eq_true hsame] at hlt
        exact absurd (hhead z hz) (not_le.mpr hlt)
      have hrest := ih htail
      rw [hbelow hlt.le, hnone, List.nil_append, List.nil_append] at hrest
      simp only [List.filter_cons, hlt, hlt.not_gt, hlt.ne, decide_true, decide_false, if_true,
        Bool.false_eq_true, if_false]
      rw [hbelow hlt.le, hnone, List.nil_append, List.nil_append, ← hrest]
    · have hrest := ih htail
      rw [hbelow heq.le, List.nil_append] at hrest
      simp only [List.filter_cons, heq, lt_irrefl, decide_true, decide_false, if_true,
        Bool.false_eq_true, if_false]
      rw [hbelow heq.le, List.nil_append, List.cons_append, ← hrest]
    · simp only [List.filter_cons, hgt, hgt.not_gt, hgt.ne', decide_true, decide_false, if_true,
        Bool.false_eq_true, if_false]
      rw [List.cons_append, ← ih htail]

/-- In a list in the order of its scores, few stand above an item of the front. -/
theorem countP_above_lt (h : l.Pairwise fun a b => score b ≤ score a) (hx : x ∈ l.take limit) :
    l.countP (fun z => decide (score x < score z)) < limit := by
  rw [← List.take_append_drop limit l, List.pairwise_append] at h
  have hrest : (l.drop limit).countP (fun z => decide (score x < score z)) = 0 := by
    refine List.countP_eq_zero.mpr fun z hz hlt => ?_
    exact absurd (of_decide_eq_true hlt) (not_lt.mpr (h.2.2 x hx z hz))
  have hfront : (l.take limit).countP (fun z => decide (score x < score z)) < (l.take limit).length := by
    refine Nat.lt_of_le_of_ne List.countP_le_length fun hall => ?_
    exact lt_irrefl _ (of_decide_eq_true (List.countP_eq_length.mp hall x hx))
  have hlength := List.length_take_le limit l
  have hsum : l.countP (fun z => decide (score x < score z)) =
      (l.take limit).countP (fun z => decide (score x < score z)) +
        (l.drop limit).countP fun z => decide (score x < score z) := by
    rw [← List.countP_append, List.take_append_drop]
  omega

/-- In a list in the order of its scores, an item with few that score as much stands in the front. -/
theorem mem_take_of_countP (h : l.Pairwise fun a b => score b ≤ score a) (hx : x ∈ l)
    (hfew : l.countP (fun z => decide (score x ≤ score z)) ≤ limit) : x ∈ l.take limit := by
  by_contra hout
  rw [← List.take_append_drop limit l, List.mem_append] at hx
  have hdrop := hx.resolve_left hout
  rw [← List.take_append_drop limit l, List.pairwise_append] at h
  have hfront : (l.take limit).countP (fun z => decide (score x ≤ score z)) = (l.take limit).length :=
    List.countP_eq_length.mpr fun z hz => decide_eq_true (h.2.2 z hz x hdrop)
  have hrest : 0 < (l.drop limit).countP fun z => decide (score x ≤ score z) :=
    List.countP_pos_iff.mpr ⟨x, hdrop, decide_eq_true le_rfl⟩
  have hlong : limit < l.length := by
    have hpos := List.length_pos_of_mem hdrop
    rw [List.length_drop] at hpos
    omega
  have hlength : (l.take limit).length = limit := List.length_take_of_le hlong.le
  have hsum : l.countP (fun z => decide (score x ≤ score z)) =
      (l.take limit).countP (fun z => decide (score x ≤ score z)) +
        (l.drop limit).countP fun z => decide (score x ≤ score z) := by
    rw [← List.countP_append, List.take_append_drop]
  omega

/-- The items of one score keep their order. -/
theorem filter_rankBy (l : List α) (v : β) :
    ((rankBy score l).filter fun z => decide (score z = v)) = l.filter fun z => decide (score z = v) := by
  have hsame : (l.filter fun z => decide (score z = v)).Pairwise
      fun a b => decide (score b ≤ score a) = true := by
    refine List.Pairwise.imp_of_mem ?_ (List.pairwise_of_forall fun _ _ => trivial)
    intro a b ha hb _
    have hav := of_decide_eq_true (List.mem_filter.mp ha).2
    have hbv := of_decide_eq_true (List.mem_filter.mp hb).2
    exact decide_eq_true (hbv.trans hav.symm).le
  have hsub : (l.filter fun z => decide (score z = v)).Sublist (rankBy score l) :=
    List.sublist_mergeSort ranks_trans ranks_total hsame List.filter_sublist
  have hfiltered := hsub.filter fun z => decide (score z = v)
  rw [List.filter_filter] at hfiltered
  simp only [Bool.and_self] at hfiltered
  refine (hfiltered.eq_of_length ?_).symm
  exact ((rankBy_perm l).filter _).length_eq.symm

variable (score) in
/-- What is ranked above an item, the items of its score, and the rest. -/
theorem rankBy_eq (l : List α) (v : β) : ∃ front rest,
    rankBy score l = front ++ ((l.filter fun z => decide (score z = v)) ++ rest) ∧
      front.length = (l.filter fun z => decide (v < score z)).length ∧ ∀ z ∈ front, v < score z := by
  refine ⟨(rankBy score l).filter fun z => decide (v < score z),
    (rankBy score l).filter fun z => decide (score z < v), ?_, ?_, fun z hz => ?_⟩
  · have hsplit := ordered_eq (rankBy_ordered score l) v
    rwa [filter_rankBy] at hsplit
  · exact ((rankBy_perm l).filter _).length_eq
  · exact of_decide_eq_true (List.mem_filter.mp hz).2

theorem getElem?_topBy {i : Nat} (hi : i < limit) :
    (topBy score limit l)[i]? = (rankBy score l)[i]? := List.getElem?_take_of_lt hi

theorem lt_of_getElem?_topBy {i : Nat} (h : (topBy score limit l)[i]? = some x) : i < limit := by
  obtain ⟨hi, -⟩ := List.getElem?_eq_some_iff.mp h
  exact Nat.lt_of_lt_of_le hi (List.length_take_le _ _)

/-- An item among the first has fewer than `limit` above it. -/
theorem inTop_of_mem (h : x ∈ topBy score limit l) : InTop score limit l x := by
  have hmem : x ∈ l := (rankBy_perm l).mem_iff.mp (List.mem_of_mem_take h)
  refine ⟨hmem, ?_⟩
  obtain ⟨front, rest, hrank, hlength, hfront⟩ := rankBy_eq score l (score x)
  obtain ⟨i, hat⟩ := List.mem_iff_getElem?.mp h
  have hlimit := lt_of_getElem?_topBy hat
  rw [getElem?_topBy hlimit] at hat
  unfold above
  rw [← hlength]
  by_contra hlt
  have hbefore : i < front.length := by omega
  rw [hrank, List.getElem?_append_left hbefore] at hat
  exact lt_irrefl _ (hfront x (List.mem_of_getElem? hat))

variable (score) in
/-- The first of its score in the list stands right after what is above it. -/
theorem getElem?_rankBy_cons (x : α) (l : List α) :
    (rankBy score (x :: l))[above score l x]? = some x := by
  obtain ⟨front, rest, hrank, hlength, -⟩ := rankBy_eq score (x :: l) (score x)
  have hfront : front.length = above score l x := by
    rw [hlength, List.filter_cons_of_neg (by simp)]
    rfl
  have hsame : ((x :: l).filter fun z => decide (score z = score x)) =
      x :: l.filter fun z => decide (score z = score x) := by
    simp only [List.filter_cons, decide_true, if_true]
  rw [hrank, hsame, ← hfront, List.getElem?_append_right le_rfl, Nat.sub_self]
  rfl

theorem above_perm (h : l.Perm l') (x : α) : above score l x = above score l' x :=
  (h.filter _).length_eq

theorem above_cons_self (x : α) (l : List α) : above score (x :: l) x = above score l x := by
  unfold above
  rw [List.filter_cons_of_neg (by simp)]

theorem mem_topBy_cons (h : above score l x < limit) : x ∈ topBy score limit (x :: l) := by
  refine @List.mem_of_getElem? _ _ (above score l x) x ?_
  rw [getElem?_topBy h]
  exact getElem?_rankBy_cons score x l

/-- No item that some order puts among the first ties with another. -/
def Separated (score : α → β) (limit : Nat) (l : List α) : Prop :=
  ∀ x, InTop score limit l x → ∀ y ∈ l, score y = score x → y = x

private theorem getElem?_rankBy_of_separated (hnodup : l.Nodup) (h : Separated score limit l)
    (hx : InTop score limit l x) : (rankBy score l)[above score l x]? = some x := by
  obtain ⟨front, rest, hrank, hlength, -⟩ := rankBy_eq score l (score x)
  have hsame : (l.filter fun z => decide (score z = score x)) = [x] := by
    have hmem : x ∈ l.filter fun z => decide (score z = score x) :=
      List.mem_filter.mpr ⟨hx.1, decide_eq_true rfl⟩
    have hall : ∀ z ∈ l.filter fun z => decide (score z = score x), z = x := by
      intro z hz
      obtain ⟨hz, hscore⟩ := List.mem_filter.mp hz
      exact h x hx z hz (of_decide_eq_true hscore)
    have hcount := List.eq_replicate_of_mem hall
    have hone : (l.filter fun z => decide (score z = score x)).length = 1 := by
      have hle := hnodup.filter fun z => decide (score z = score x)
      rw [hcount, List.nodup_replicate] at hle
      have hpos := List.length_pos_of_mem hmem
      omega
    rw [hcount, hone]
    rfl
  rw [hrank, hsame, above, ← hlength, List.getElem?_append_right le_rfl, Nat.sub_self]
  rfl

/-- If nothing ties, every order of the list gives the same first items. -/
theorem topBy_eq_of_perm (hperm : l.Perm l') (hnodup : l.Nodup) (h : Separated score limit l) :
    topBy score limit l = topBy score limit l' := by
  have hother : Separated score limit l' := by
    intro x hx y hy hsame
    refine h x ⟨hperm.mem_iff.mpr hx.1, ?_⟩ y (hperm.mem_iff.mpr hy) hsame
    rw [above_perm hperm]
    exact hx.2
  have hkeep : ∀ (p q : List α), p.Perm q → p.Nodup → Separated score limit p →
      Separated score limit q → ∀ (i : Nat) (x : α), (topBy score limit p)[i]? = some x →
        (topBy score limit q)[i]? = some x := by
    intro p q hpq hp hsep hsep' i x hat
    have hx : InTop score limit p x := inTop_of_mem (List.mem_of_getElem? hat)
    have hx' : InTop score limit q x := by
      refine ⟨hpq.mem_iff.mp hx.1, ?_⟩
      rw [← above_perm hpq]
      exact hx.2
    have hlimit := lt_of_getElem?_topBy hat
    rw [getElem?_topBy hlimit] at hat ⊢
    have hplace := getElem?_rankBy_of_separated hp hsep hx
    have hrank : i = above score p x := by
      have hdistinct : (rankBy score p).Nodup := (rankBy_perm p).nodup_iff.mpr hp
      exact (List.getElem?_inj (List.getElem?_eq_some_iff.mp hat).1 hdistinct).mp (hat.trans hplace.symm)
    have hplace' := getElem?_rankBy_of_separated (hpq.nodup_iff.mp hp) hsep' hx'
    rwa [← above_perm hpq, ← hrank] at hplace'
  refine List.ext_getElem? fun i => Option.ext fun x => ?_
  exact ⟨hkeep l l' hperm hnodup h hother i x,
    hkeep l' l hperm.symm (hperm.nodup_iff.mp hnodup) hother h i x⟩

/-- If two items tie, two orders of the list give different first items. -/
theorem topBy_ne_of_tie (hx : InTop score limit l x) (hy : y ∈ l) (hscore : score y = score x)
    (hne : y ≠ x) [DecidableEq α] :
    ∃ p q : List α, p.Perm l ∧ q.Perm l ∧ topBy score limit p ≠ topBy score limit q := by
  refine ⟨x :: l.erase x, y :: l.erase y, (List.perm_cons_erase hx.1).symm,
    (List.perm_cons_erase hy).symm, fun heq => hne ?_⟩
  have habove : ∀ z ∈ l, score z = score x → above score (l.erase z) z = above score l x := by
    intro z hz hzx
    rw [← above_cons_self, above_perm (List.perm_cons_erase hz).symm]
    unfold above
    rw [hzx]
  have hfirst := getElem?_rankBy_cons score x (l.erase x)
  have hsecond := getElem?_rankBy_cons score y (l.erase y)
  rw [habove x hx.1 rfl] at hfirst
  rw [habove y hy hscore] at hsecond
  have hget : (topBy score limit (x :: l.erase x))[above score l x]? =
      (topBy score limit (y :: l.erase y))[above score l x]? := by
    rw [heq]
  rw [getElem?_topBy hx.2, getElem?_topBy hx.2, hfirst, hsecond] at hget
  exact (Option.some.inj hget).symm

/-- The order of the list does not matter exactly if nothing among the first ties. -/
theorem topBy_unique_iff [DecidableEq α] (hnodup : l.Nodup) :
    (∀ p q : List α, p.Perm l → q.Perm l → topBy score limit p = topBy score limit q) ↔
      Separated score limit l := by
  constructor
  · intro h x hx y hy hscore
    by_contra hne
    obtain ⟨p, q, hp, hq, hdiffer⟩ := topBy_ne_of_tie hx hy hscore hne
    exact hdiffer (h p q hp hq)
  · intro h p q hp hq
    rw [← topBy_eq_of_perm hp.symm hnodup h, topBy_eq_of_perm hq.symm hnodup h]

variable (score limit) in
/-- In every order of the list the first items have a property and are the same, exactly if each item
that some order puts among the first has the property and ties with no other. -/
theorem topBy_agree_iff [DecidableEq α] (hnodup : l.Nodup) {P : α → Prop} :
    ((∀ p : List α, p.Perm l → ∀ x ∈ topBy score limit p, P x) ∧
      ∀ p q : List α, p.Perm l → q.Perm l → topBy score limit p = topBy score limit q) ↔
      ∀ x, InTop score limit l x → P x ∧ ∀ y ∈ l, score y = score x → y = x := by
  rw [topBy_unique_iff hnodup]
  constructor
  · rintro ⟨hall, hsep⟩ x hx
    refine ⟨hall (x :: l.erase x) (List.perm_cons_erase hx.1).symm x (mem_topBy_cons ?_), hsep x hx⟩
    rw [← above_cons_self, above_perm (List.perm_cons_erase hx.1).symm]
    exact hx.2
  · intro h
    refine ⟨fun p hp x hx => ?_, fun x hx => (h x hx).2⟩
    obtain ⟨hmem, habove⟩ := inTop_of_mem hx
    rw [above_perm hp] at habove
    exact (h x ⟨hp.mem_iff.mp hmem, habove⟩).1

theorem topBy_ordered (l : List α) : (topBy score limit l).Pairwise fun a b => score b ≤ score a :=
  (rankBy_ordered score l).sublist (List.take_sublist _ _)

theorem length_topBy (l : List α) : (topBy score limit l).length = min limit l.length := by
  unfold topBy
  rw [List.length_take, (rankBy_perm l).length_eq]

/-- What is not among the first scores no higher than what is. -/
theorem topBy_best (hx : x ∈ topBy score limit l) (hy : y ∈ l) (hout : y ∉ topBy score limit l) :
    score y ≤ score x := by
  have hrank := rankBy_ordered score l
  rw [← List.take_append_drop limit (rankBy score l), List.pairwise_append] at hrank
  have hmem : y ∈ rankBy score l := (rankBy_perm l).mem_iff.mpr hy
  rw [← List.take_append_drop limit (rankBy score l), List.mem_append] at hmem
  exact hrank.2.2 x hx y (hmem.resolve_left hout)

variable {γ : Type w} {other : γ → β}

theorem topBy_map {f : γ → α} {l : List γ} (h : ∀ c ∈ l, score (f c) = other c) :
    topBy score limit (l.map f) = (topBy other limit l).map f := by
  unfold topBy rankBy
  rw [List.map_take]
  congr 1
  refine (List.map_mergeSort fun a ha b hb => ?_).symm
  rw [h a ha, h b hb]

theorem above_map {f : γ → α} {l : List γ} (h : ∀ c ∈ l, score (f c) = other c) {c : γ} (hc : c ∈ l) :
    above score (l.map f) (f c) = above other l c := by
  unfold above
  rw [List.filter_map, List.length_map]
  congr 1
  refine List.filter_congr fun d hd => ?_
  rw [Function.comp_apply, h c hc, h d hd]

/-- A list of the items that pass is what some order of all of them leaves. -/
theorem exists_filter_eq {keep : α → Bool} {p : List α} (hp : p.Perm (l.filter keep)) :
    ∃ p' : List α, p'.Perm l ∧ p'.filter keep = p := by
  refine ⟨p ++ l.filter fun a => !keep a, ?_, ?_⟩
  · exact (hp.append_right _).trans (List.filter_append_perm keep l)
  · have hkept : p.filter keep = p :=
      List.filter_eq_self.mpr fun a ha => (List.mem_filter.mp (hp.mem_iff.mp ha)).2
    have hdropped : ((l.filter fun a => !keep a).filter keep) = [] := by
      refine List.filter_eq_nil_iff.mpr fun a ha hpass => ?_
      have hnot := (List.mem_filter.mp ha).2
      rw [hpass] at hnot
      cases hnot
    rw [List.filter_append, hkept, hdropped, List.append_nil]

theorem nodup_map_topBy {f : α → γ} (hnodup : (l.map f).Nodup) :
    ((topBy score limit l).map f).Nodup := by
  have hranked : ((rankBy score l).map f).Nodup := ((rankBy_perm l).map f).nodup_iff.mpr hnodup
  exact hranked.sublist ((List.take_sublist limit _).map f)

theorem nodup_topBy (hnodup : l.Nodup) : (topBy score limit l).Nodup :=
  ((rankBy_perm l).nodup_iff.mpr hnodup).sublist (List.take_sublist _ _)

/-- A list of values has the same highest one in every order. -/
theorem max?_perm {m m' : List β} (h : m.Perm m') : m.max? = m'.max? := by
  cases hl : m.max? with
  | none =>
    rw [List.max?_eq_none_iff] at hl
    rw [hl] at h
    rw [← h.nil_eq]
    rfl
  | some a =>
    rw [List.max?_eq_some_iff] at hl
    refine (List.max?_eq_some_iff.mpr ⟨h.mem_iff.mp hl.1, fun b hb => ?_⟩).symm
    exact hl.2 b (h.mem_iff.mpr hb)

/-- An order of the images is an order of the items. -/
theorem exists_map_eq_of_perm {g : γ → α} {items : List γ} {p : List α} (h : p.Perm (items.map g)) :
    ∃ order : List γ, order.Perm items ∧ order.map g = p := by
  have himages : List.Forall₂ (fun a c => a = g c) (items.map g) items :=
    List.forall₂_map_left_iff.mpr (List.forall₂_same.mpr fun _ _ => rfl)
  obtain ⟨order, hsame, horder⟩ := List.perm_comp_forall₂ h himages
  have heq : List.Forall₂ (· = ·) p (order.map g) := List.forall₂_map_right_iff.mpr hsame
  rw [List.forall₂_eq_eq_eq] at heq
  exact ⟨order, horder, heq.symm⟩

/-- Two lists of items are one if their images are, where the map keeps items apart. -/
theorem map_inj_of_mem {g : γ → α} {S : γ → Prop} (hinj : ∀ c d, S c → S d → g c = g d → c = d)
    {p q : List γ} (hp : ∀ c ∈ p, S c) (hq : ∀ c ∈ q, S c) (h : p.map g = q.map g) : p = q := by
  induction p generalizing q with
  | nil => exact (List.map_eq_nil_iff.mp h.symm).symm
  | cons c p ih =>
    cases q with
    | nil => cases h
    | cons d q =>
      obtain ⟨hfirst, hrest⟩ := List.cons.inj h
      rw [hinj c d (hp c List.mem_cons_self) (hq d List.mem_cons_self) hfirst,
        ih (fun x hx => hp x (List.mem_cons_of_mem c hx)) (fun x hx => hq x (List.mem_cons_of_mem d hx))
          hrest]

end Ranking

section Meant

variable {α : Type u} {β : Type v} [LinearOrder β] (meant : α → β) (keep : β → Bool) (limit : Nat)

/-- A selection from a list by the score that is meant: as many as there should be, and none better
is left out. -/
structure BestOf (l : List α) (out : List α) : Prop where
  kept : ∀ x ∈ out, x ∈ l.filter fun x => keep (meant x)
  count : out.length = min limit (l.filter fun x => keep (meant x)).length
  best : ∀ y ∈ l.filter fun x => keep (meant x), y ∉ out → ∀ x ∈ out, meant y ≤ meant x

/-- What is left out has as many ahead of it as can be selected. -/
def Outdone (score : α → β) (l : List α) (y : α) : Prop :=
  limit ≤ ((l.filter fun x => keep (score x)).filter fun x => decide (meant y ≤ score x)).length

variable {meant keep limit} {score : α → β} {l : List α}

private theorem outdone_of_bestOf {out p : List α} (hp : p.Perm (l.filter fun x => keep (score x)))
    (hnodup : l.Nodup) (hout : out = topBy score limit p)
    (hscore : ∀ x ∈ out, score x = meant x) (hbest : BestOf meant keep limit l out) {y : α}
    (hy : y ∈ l.filter fun x => keep (meant x)) (hyout : y ∉ out) : Outdone meant keep limit score l y := by
  have hdistinct : out.Nodup := by
    rw [hout]
    exact nodup_topBy (hp.nodup_iff.mpr (hnodup.filter _))
  have hless : out.length < (l.filter fun x => keep (meant x)).length := by
    have hmore : (y :: out).Nodup := List.nodup_cons.mpr ⟨hyout, hdistinct⟩
    have hsub : (y :: out).Subperm (l.filter fun x => keep (meant x)) :=
      hmore.subperm fun z hz => (List.mem_cons.mp hz).elim (fun h => h ▸ hy) (hbest.kept z)
    exact hsub.length_le
  have hfull : out.length = limit := by
    have hcount := hbest.count
    omega
  have hahead : out.Subperm ((l.filter fun x => keep (score x)).filter fun x =>
      decide (meant y ≤ score x)) := by
    refine hdistinct.subperm fun x hx => List.mem_filter.mpr ⟨?_, decide_eq_true ?_⟩
    · rw [hout] at hx
      exact hp.mem_iff.mp (inTop_of_mem hx).1
    · rw [hscore x hx]
      exact hbest.best y hy hyout x hx
  unfold Outdone
  rw [← hfull]
  exact hahead.length_le

private theorem bestOf_of_outdone {out p : List α} (hp : p.Perm (l.filter fun x => keep (score x)))
    (hnodup : l.Nodup) (hout : out = topBy score limit p)
    (hscore : ∀ x ∈ out, score x = meant x)
    (hmore : ∀ y ∈ l.filter fun x => keep (meant x), y ∈ out ∨ Outdone meant keep limit score l y) :
    BestOf meant keep limit l out := by
  have hmem : ∀ x ∈ out, InTop score limit (l.filter fun x => keep (score x)) x := by
    intro x hx
    rw [hout] at hx
    obtain ⟨hin, habove⟩ := inTop_of_mem hx
    rw [above_perm hp] at habove
    exact ⟨hp.mem_iff.mp hin, habove⟩
  have hdistinct : out.Nodup := by
    rw [hout]
    exact nodup_topBy (hp.nodup_iff.mpr (hnodup.filter _))
  have hlength : out.length = min limit (l.filter fun x => keep (score x)).length := by
    rw [hout, length_topBy, hp.length_eq]
  have hkept : ∀ x ∈ out, x ∈ l.filter fun x => keep (meant x) := by
    intro x hx
    obtain ⟨hin, hpass⟩ := List.mem_filter.mp (hmem x hx).1
    rw [hscore x hx] at hpass
    exact List.mem_filter.mpr ⟨hin, hpass⟩
  have hle : out.length ≤ (l.filter fun x => keep (meant x)).length :=
    (hdistinct.subperm hkept).length_le
  refine ⟨hkept, ?_, fun y hy hyout x hx => ?_⟩
  · rcases Nat.lt_or_ge (l.filter fun x => keep (score x)).length limit with hfew | hmany
    · -- Everything that passes is selected, so nothing can be outdone.
      have hall : ∀ y ∈ l.filter fun x => keep (meant x), y ∈ out := by
        intro y hy
        refine (hmore y hy).resolve_right fun houtdone => ?_
        have hcut := (List.filter_sublist (l := l.filter fun x => keep (score x))
          (p := fun x => decide (meant y ≤ score x))).length_le
        unfold Outdone at houtdone
        omega
      have hge := ((hnodup.filter fun x => keep (meant x)).subperm hall).length_le
      omega
    · omega
  · have houtdone := (hmore y hy).resolve_left hyout
    rw [← hscore x hx]
    by_contra hlt
    rw [not_le] at hlt
    have hahead : ((l.filter fun x => keep (score x)).filter fun z =>
        decide (meant y ≤ score z)).length ≤ above score (l.filter fun x => keep (score x)) x := by
      unfold above
      refine (List.monotone_filter_right _ fun z hz => ?_).length_le
      exact decide_eq_true (hlt.trans_le (of_decide_eq_true hz))
    have habove := (hmem x hx).2
    unfold Outdone at houtdone
    omega

/-- A selection by a score is, in every order of the list, the same one and the one that is meant,
exactly if what can be selected has the score that is meant and ties with nothing, and what cannot is
outdone by what its score is meant to be. -/
theorem topBy_meant_iff [DecidableEq α] (hnodup : l.Nodup) :
    ((∀ p : List α, p.Perm l →
        (∀ x ∈ topBy score limit (p.filter fun x => keep (score x)), score x = meant x) ∧
          BestOf meant keep limit l (topBy score limit (p.filter fun x => keep (score x)))) ∧
      ∀ p q : List α, p.Perm l → q.Perm l → topBy score limit (p.filter fun x => keep (score x)) =
        topBy score limit (q.filter fun x => keep (score x))) ↔
      (∀ x, InTop score limit (l.filter fun x => keep (score x)) x → score x = meant x ∧
        ∀ y ∈ l.filter fun x => keep (score x), score y = score x → y = x) ∧
      ∀ y ∈ l.filter fun x => keep (meant x),
        InTop score limit (l.filter fun x => keep (score x)) y ∨ Outdone meant keep limit score l y := by
  have hagree := topBy_agree_iff score limit (P := fun x => score x = meant x)
    (hnodup.filter fun x => keep (score x))
  constructor
  · rintro ⟨hall, hsame⟩
    refine ⟨hagree.mp ⟨fun p hp => ?_, fun p q hp hq => ?_⟩, fun y hy => ?_⟩
    · obtain ⟨p', hp', rfl⟩ := exists_filter_eq hp
      exact (hall p' hp').1
    · obtain ⟨p', hp', rfl⟩ := exists_filter_eq hp
      obtain ⟨q', hq', rfl⟩ := exists_filter_eq hq
      exact hsame p' q' hp' hq'
    · obtain ⟨hscore, hbest⟩ := hall l (List.Perm.refl l)
      by_cases hin : y ∈ topBy score limit (l.filter fun x => keep (score x))
      · exact Or.inl (inTop_of_mem hin)
      · exact Or.inr (outdone_of_bestOf (List.Perm.refl _) hnodup rfl hscore hbest hy hin)
  · rintro ⟨htop, hrest⟩
    obtain ⟨hscore, hsame⟩ := hagree.mpr htop
    refine ⟨fun p hp => ?_, fun p q hp hq => hsame _ _ (hp.filter _) (hq.filter _)⟩
    refine ⟨hscore _ (hp.filter _), bestOf_of_outdone (hp.filter _) hnodup rfl (hscore _ (hp.filter _))
      fun y hy => ?_⟩
    rcases hrest y hy with hin | houtdone
    · left
      rw [hsame _ (y :: (l.filter fun x => keep (score x)).erase y) (hp.filter _)
        (List.perm_cons_erase hin.1).symm]
      refine mem_topBy_cons ?_
      rw [← above_cons_self, above_perm (List.perm_cons_erase hin.1).symm]
      exact hin.2
    · exact Or.inr houtdone

end Meant

end Gyre.Lib
