/- digest: Windows: the recent part of an ascending list, and what a counter that restarts with each of its windows says. -/

import Mathlib.Algebra.Order.Monoid.Defs
import Mathlib.Data.List.Basic
import Mathlib.Order.Defs.PartialOrder

/-!
A counter of recorded times is set back to zero when its window has expired, and takes no more than its
limit in one window. An interval as long as a window meets two windows at most.
-/

set_option autoImplicit false
set_option relaxedAutoImplicit false

namespace Gyre.Lib

universe u v

section Ascending

variable {α : Type u} [Preorder α] [DecidableLT α]

/-- Dropping what lies before a bound from the front of an ascending list drops it everywhere. -/
theorem dropWhile_lt_eq_filter {xs : List α} (h : xs.Pairwise (· ≤ ·)) (bound : α) :
    xs.dropWhile (fun x => decide (x < bound)) = xs.filter fun x => !decide (x < bound) := by
  induction xs with
  | nil => rfl
  | cons x xs ih =>
    obtain ⟨hx, hxs⟩ := List.pairwise_cons.mp h
    by_cases hlt : x < bound
    · rw [List.dropWhile_cons_of_pos (by simpa using hlt),
        List.filter_cons_of_neg (by simpa using hlt), ih hxs]
    · rw [List.dropWhile_cons_of_neg (by simpa using hlt)]
      refine (List.filter_eq_self.mpr fun y hy => ?_).symm
      rcases List.mem_cons.mp hy with rfl | hy
      · simpa using hlt
      · simpa using fun hy' => hlt (lt_of_le_of_lt (hx y hy) hy')

/-- A window that has lost only items from before the bound still holds all items since then. -/
theorem length_window_since {β : Type v} {f : β → α} {items : List β} {lost window : List α}
    (hsplit : items.map f = lost ++ window) (hascending : (items.map f).Pairwise (· ≤ ·))
    {bound : α} (hlost : ∀ x ∈ lost, x < bound) {since : β → Bool}
    (hsince : ∀ item, since item = true ↔ ¬ f item < bound) :
    (window.dropWhile fun x => decide (x < bound)).length = (items.filter since).length := by
  rw [hsplit] at hascending
  rw [dropWhile_lt_eq_filter (List.pairwise_append.mp hascending).2.1]
  have hnone : lost.filter (fun x => !decide (x < bound)) = [] :=
    List.filter_eq_nil_iff.mpr fun x hx => by simpa using hlost x hx
  have hwindow : window.filter (fun x => !decide (x < bound)) =
      (items.map f).filter fun x => !decide (x < bound) := by
    rw [hsplit, List.filter_append, hnone, List.nil_append]
  rw [hwindow, List.filter_map, List.length_map]
  refine congrArg List.length (List.filter_congr fun item _ => ?_)
  rw [Bool.eq_iff_iff, hsince item]
  simp

end Ascending

variable {α : Type u} [LinearOrder α]

/-- How many of some times lie in an interval, its ends included. -/
def within (times : List α) (first last : α) : Nat :=
  times.countP fun t => decide (first ≤ t ∧ t ≤ last)

/-- How many of some times are not before another one. -/
def since (times : List α) (start : α) : Nat := times.countP fun t => decide (start ≤ t)

theorem since_append (times : List α) (now start : α) :
    since (times ++ [now]) start = since times start + if start ≤ now then 1 else 0 := by
  simp [since, List.countP_append, List.countP_cons]

theorem within_append (times : List α) (now first last : α) :
    within (times ++ [now]) first last =
      within times first last + if first ≤ now ∧ now ≤ last then 1 else 0 := by
  simp [within, List.countP_append, List.countP_cons]

/-- A property split into two is counted by both together. -/
theorem countP_le_add {β : Type u} {p q r : β → Bool} {l : List β}
    (h : ∀ b, p b = true → q b = true ∨ r b = true) : l.countP p ≤ l.countP q + l.countP r := by
  induction l with
  | nil => exact Nat.le_refl 0
  | cons b rest ih =>
    simp only [List.countP_cons]
    have hb := h b
    cases hp : p b with
    | false =>
      simp only [Bool.false_eq_true, if_false]
      omega
    | true =>
      rcases hb hp with hq | hr
      · simp only [hq, if_true]
        omega
      · simp only [hr, if_true]
        omega

variable [AddCommMonoid α]

/-- The recorded times behind the window of a counter: `expired start now` tells when it ends. -/
structure Windowed (expired : α → α → Bool) (d : α) (limit : Nat) (start : α) (count : Nat)
    (times : List α) : Prop where
  running : ∀ t ∈ times, expired start t = false
  current : since times start ≤ count
  full : count ≤ limit
  /-- Less than a window's length before the start only times of one window are recorded. -/
  before : (times.countP fun t => decide (start ≤ t + d ∧ t < start)) ≤ limit
  spread : ∀ a, within times a (a + d) ≤ 2 * limit

namespace Windowed

variable {expired : α → α → Bool} {d start now : α} {limit count : Nat} {times : List α}

theorem fresh : Windowed expired d limit start 0 [] where
  running := by simp
  current := Nat.le_refl 0
  full := Nat.zero_le limit
  before := Nat.zero_le limit
  spread a := Nat.zero_le (2 * limit)

/-- A window may be charged for what is not recorded. -/
theorem charge (h : Windowed expired d limit start count times) (hroom : count < limit) :
    Windowed expired d limit start (count + 1) times :=
  { h with current := Nat.le_succ_of_le h.current, full := hroom }

variable [IsOrderedCancelAddMonoid α]

/-- An expired window is followed by an empty one. -/
theorem restart (h : Windowed expired d limit start count times) (hnow : expired start now = true)
    (hlong : start + d ≤ now) (hearlier : ∀ t ∈ times, t ≤ now)
    (hexpired : ∀ t < now, expired now t = false) : Windowed expired d limit now 0 times := by
  have hbefore (t : α) (ht : t ∈ times) : t < now := by
    refine lt_of_le_of_ne (hearlier t ht) ?_
    rintro rfl
    exact absurd ((h.running t ht).symm.trans hnow) Bool.false_ne_true
  refine ⟨fun t ht => hexpired t (hbefore t ht), ?_, Nat.zero_le limit, ?_, h.spread⟩
  · rw [since, Nat.le_zero, List.countP_eq_zero]
    intro t ht
    simpa using hbefore t ht
  · -- an old time this close to the new start lies in the window that has expired
    refine (List.countP_mono_left fun t _ ht => ?_).trans (h.current.trans h.full)
    obtain ⟨hclose, -⟩ := of_decide_eq_true ht
    exact decide_eq_true (le_of_add_le_add_right (hlong.trans hclose))

/-- What an interval around the present holds was recorded in this window or less than a window's
length before its start. -/
private theorem within_le (h : Windowed expired d limit start count times) {a : α}
    (hclose : start ≤ a + d) : within times a (a + d) ≤ limit + since times start := by
  have hsplit : within times a (a + d) ≤
      (times.countP fun t => decide (start ≤ t + d ∧ t < start)) + since times start := by
    refine countP_le_add fun t ht => ?_
    obtain ⟨hfirst, -⟩ := of_decide_eq_true ht
    rcases lt_or_ge t start with hbefore | hcurrent
    · have hnear : start ≤ t + d := hclose.trans (add_le_add_left hfirst d)
      exact .inl (decide_eq_true ⟨hnear, hbefore⟩)
    · exact .inr (decide_eq_true hcurrent)
  exact hsplit.trans (Nat.add_le_add_right h.before _)

/-- A time is recorded in a window that has room for it. -/
theorem record (h : Windowed expired d limit start count times) (hroom : count < limit)
    (hnow : expired start now = false) (hstart : start ≤ now) :
    Windowed expired d limit start (count + 1) (times ++ [now]) := by
  refine ⟨?_, ?_, hroom, ?_, fun a => ?_⟩
  · intro t ht
    rcases List.mem_append.mp ht with ht | ht
    · exact h.running t ht
    · rw [List.mem_singleton.mp ht]
      exact hnow
  · rw [since_append, if_pos hstart]
    exact Nat.succ_le_succ h.current
  · have hafter : ¬ (start ≤ now + d ∧ now < start) := fun hnow => absurd hnow.2 (not_lt.mpr hstart)
    have hnone : decide (start ≤ now + d ∧ now < start) = false := decide_eq_false hafter
    rw [List.countP_append, List.countP_singleton, hnone]
    exact h.before
  · rw [within_append]
    by_cases haround : a ≤ now ∧ now ≤ a + d
    · have hle := h.within_le (hstart.trans haround.2)
      have hcurrent := h.current
      rw [if_pos haround]
      omega
    · rw [if_neg haround]
      exact h.spread a

end Windowed

end Gyre.Lib
