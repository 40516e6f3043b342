/- digest: A bounded timeline: a present value, the values before it and the values undone. -/

import Mathlib.Data.List.Basic
import Mathlib.Logic.Function.Iterate

set_option autoImplicit false
set_option relaxedAutoImplicit false

namespace Gyre.Lib

universe u

/-- The values one can go back to and those one has come back from, the nearest of each last. -/
structure Timeline (α : Type u) where
  past : List α
  present : α
  future : List α

namespace Timeline

variable {α : Type u}

/-- The last values of a list, up to a limit. -/
def keepLast (limit : Nat) (xs : List α) : List α := xs.drop (xs.length - limit)

theorem keepLast_of_length_le {limit : Nat} {xs : List α} (h : xs.length ≤ limit) :
    keepLast limit xs = xs := by
  have hzero : xs.length - limit = 0 := by omega
  rw [keepLast, hzero, List.drop_zero]

theorem length_keepLast_le (limit : Nat) (xs : List α) : (keepLast limit xs).length ≤ limit := by
  rw [keepLast, List.length_drop]
  omega

/-- The latest value is kept by any limit but zero. -/
theorem keepLast_concat {limit : Nat} (h : 0 < limit) (xs : List α) (x : α) :
    ∃ kept, keepLast limit (xs ++ [x]) = kept ++ [x] := by
  refine ⟨xs.drop (xs.length + 1 - limit), ?_⟩
  have hle : xs.length + 1 - limit ≤ xs.length := by omega
  rw [keepLast, List.length_append, List.length_singleton, List.drop_append_of_le_length hle]

def back (l : Timeline α) : Timeline α :=
  match l.past.getLast? with
  | none => l
  | some x => ⟨l.past.dropLast, x, l.future ++ [l.present]⟩

def forward (limit : Nat) (l : Timeline α) : Timeline α :=
  match l.future.getLast? with
  | none => l
  | some x => ⟨keepLast limit (l.past ++ [l.present]), x, l.future.dropLast⟩

/-- A new step: a value is saved, and what was undone is gone. -/
def advance (limit : Nat) (saved present : α) (l : Timeline α) : Timeline α :=
  ⟨keepLast limit (l.past ++ [saved]), present, []⟩

def write (present : α) (l : Timeline α) : Timeline α := { l with present := present }

def count (l : Timeline α) : Nat := l.past.length + l.future.length

theorem back_of_past {l : Timeline α} {before : List α} {x : α} (h : l.past = before ++ [x]) :
    l.back = ⟨before, x, l.future ++ [l.present]⟩ := by
  simp [back, h]

theorem forward_of_future {l : Timeline α} {before : List α} {x : α}
    (h : l.future = before ++ [x]) (limit : Nat) :
    l.forward limit = ⟨keepLast limit (l.past ++ [l.present]), x, before⟩ := by
  simp [forward, h]

theorem count_back (l : Timeline α) : l.back.count = l.count := by
  rcases List.eq_nil_or_concat' l.past with hnil | ⟨before, x, hpast⟩
  · simp [back, hnil]
  · rw [back_of_past hpast]
    simp only [count, hpast, List.length_append, List.length_singleton]
    omega

theorem count_forward {limit : Nat} {l : Timeline α} (h : l.count ≤ limit) :
    (l.forward limit).count = l.count := by
  rcases List.eq_nil_or_concat' l.future with hnil | ⟨before, x, hfuture⟩
  · simp [forward, hnil]
  · have hroom : (l.past ++ [l.present]).length ≤ limit := by
      simp only [count, hfuture, List.length_append, List.length_singleton] at h ⊢
      omega
    rw [forward_of_future hfuture, keepLast_of_length_le hroom]
    simp only [count, hfuture, List.length_append, List.length_singleton]
    omega

theorem count_advance_le (limit : Nat) (saved present : α) (l : Timeline α) :
    (l.advance limit saved present).count ≤ limit := by
  simp only [count, advance, List.length_nil, Nat.add_zero]
  exact length_keepLast_le limit _

/-- Going forward undoes going back. -/
theorem forward_back {limit : Nat} {l : Timeline α} (hfits : l.count ≤ limit)
    (hpast : l.past ≠ []) : l.back.forward limit = l := by
  obtain ⟨past, present, future⟩ := l
  rcases List.eq_nil_or_concat' past with hnil | ⟨before, x, rfl⟩
  · exact absurd hnil hpast
  · have hroom : (before ++ [x]).length ≤ limit := by
      simp only [count] at hfits
      omega
    rw [back_of_past rfl, forward_of_future rfl]
    simp only [keepLast_of_length_le hroom]

/-- Some steps back and as many forward. -/
theorem forward_iterate_back {limit : Nat} {l : Timeline α} (hfits : l.count ≤ limit) (k : Nat)
    (hk : k ≤ l.past.length) : (forward limit)^[k] (back^[k] l) = l := by
  induction k generalizing l with
  | zero => rfl
  | succ k ih =>
    have hne : l.past ≠ [] := by
      intro hnil
      rw [hnil] at hk
      simp at hk
    obtain ⟨before, x, hpast⟩ := (List.eq_nil_or_concat' l.past).resolve_left hne
    have hback : k ≤ l.back.past.length := by
      rw [back_of_past hpast]
      simp only [hpast, List.length_append, List.length_singleton] at hk
      exact Nat.le_of_succ_le_succ hk
    rw [Function.iterate_succ_apply', Function.iterate_succ_apply,
      ih (count_back l ▸ hfits) hback, forward_back hfits hne]

/-- The step back from a step forward finds the value that was saved. -/
theorem back_of_advance {limit : Nat} (hlimit : 0 < limit) {saved present : α} {l m : Timeline α}
    (h : m.past = (l.advance limit saved present).past) : m.back.present = saved := by
  obtain ⟨kept, hkept⟩ := keepLast_concat hlimit l.past saved
  rw [back_of_past (h.trans hkept)]

/-- What can happen to a timeline. -/
inductive Move (α : Type u) where
  | advance (saved present : α)
  | back
  | forward
  | write (present : α)
  /-- Past and future are forgotten. -/
  | forget (present : α)
  /-- The past from a place on is forgotten, and the future. -/
  | cut (pos : Nat) (present : α)

def Move.apply (limit : Nat) (l : Timeline α) : Move α → Timeline α
  | .advance saved present => l.advance limit saved present
  | .back => l.back
  | .forward => l.forward limit
  | .write present => l.write present
  | .forget present => ⟨[], present, []⟩
  | .cut pos present => ⟨l.past.take pos, present, []⟩

def replay (limit : Nat) (l : Timeline α) (moves : List (Move α)) : Timeline α :=
  moves.foldl (Move.apply limit) l

/-- The limit is kept by every move. -/
theorem count_apply_le {limit : Nat} {l : Timeline α} (h : l.count ≤ limit) (m : Move α) :
    (m.apply limit l).count ≤ limit := by
  cases m with
  | advance saved present => exact count_advance_le limit saved present l
  | back => exact Nat.le_trans (Nat.le_of_eq (count_back l)) h
  | forward => exact Nat.le_trans (Nat.le_of_eq (count_forward h)) h
  | write present => exact h
  | forget present => exact Nat.zero_le _
  | cut pos present =>
    simp only [count] at h
    simp only [count, Move.apply, List.length_take, List.length_nil]
    omega

theorem count_replay_le {limit : Nat} {l : Timeline α} (h : l.count ≤ limit)
    (moves : List (Move α)) : (l.replay limit moves).count ≤ limit := by
  induction moves generalizing l with
  | nil => exact h
  | cons m ms ih => exact ih (count_apply_le h m)

end Timeline

end Gyre.Lib
