/- digest: One-shot grants: asked for, withdrawn or used, with at most one open grant for each key. -/

import Mathlib.Logic.Function.Basic
import Mathlib.Data.List.Count
import Mathlib.Data.List.Induction

set_option autoImplicit false
set_option relaxedAutoImplicit false

namespace Gyre.Lib.Grants

universe u v

/-- What can happen to the grant of a key: a new one replaces whatever was open. -/
inductive Move (κ : Type u) (π : Type v) where
  | ask (key : κ) (grant : π)
  | withdraw (key : κ)
  | use (key : κ) (grant : π)
  deriving DecidableEq

variable {κ : Type u} {π : Type v}

def Move.key : Move κ π → κ
  | .ask key _ => key
  | .withdraw key => key
  | .use key _ => key

variable [DecidableEq κ]

/-- The open grants after a move. -/
def apply (held : κ → Option π) : Move κ π → κ → Option π
  | .ask key grant => Function.update held key (some grant)
  | .withdraw key => Function.update held key none
  | .use key _ => Function.update held key none

def replay (held : κ → Option π) (moves : List (Move κ π)) : κ → Option π :=
  moves.foldl apply held

/-- Only the open grant of a key may be used. -/
def Allowed (held : κ → Option π) : Move κ π → Prop
  | .use key grant => held key = some grant
  | _ => True

/-- Every move of the list is allowed where it happens. -/
def Valid (held : κ → Option π) : List (Move κ π) → Prop
  | [] => True
  | m :: ms => Allowed held m ∧ Valid (apply held m) ms

@[simp] theorem replay_nil (held : κ → Option π) : replay held [] = held := rfl

@[simp] theorem replay_cons (held : κ → Option π) (m : Move κ π) (ms : List (Move κ π)) :
    replay held (m :: ms) = replay (apply held m) ms := rfl

theorem replay_append (held : κ → Option π) (ms ns : List (Move κ π)) :
    replay held (ms ++ ns) = replay (replay held ms) ns := by
  simp [replay, List.foldl_append]

theorem valid_append {held : κ → Option π} {ms ns : List (Move κ π)} :
    Valid held (ms ++ ns) ↔ Valid held ms ∧ Valid (replay held ms) ns := by
  induction ms generalizing held with
  | nil => simp [Valid]
  | cons m ms ih => simp [Valid, ih, and_assoc]

theorem apply_of_ne {held : κ → Option π} {m : Move κ π} {k : κ} (h : m.key ≠ k) :
    apply held m k = held k := by
  cases m <;> exact Function.update_of_ne (Ne.symm h) _ _

/-- A grant that has come to be open was asked for, and nothing has happened to its key since. -/
theorem asked_of_replay {held : κ → Option π} {k : κ} {p : π} (hnone : held k = none)
    (ms : List (Move κ π)) (h : replay held ms k = some p) :
    ∃ older newer, ms = older ++ .ask k p :: newer ∧ ∀ m ∈ newer, m.key ≠ k := by
  induction ms using List.reverseRecOn with
  | nil =>
    rw [replay_nil, hnone] at h
    exact absurd h (Option.some_ne_none p).symm
  | append_singleton ms m ih =>
    rw [replay_append, replay_cons, replay_nil] at h
    by_cases hk : m.key = k
    · subst hk
      cases m with
      | ask key grant =>
        have hg : grant = p := by simpa [apply, Move.key] using h
        exact ⟨ms, [], by simp [Move.key, hg], by simp⟩
      | withdraw key => simp [apply, Move.key] at h
      | use key grant => simp [apply, Move.key] at h
    · rw [apply_of_ne hk] at h
      obtain ⟨older, newer, rfl, hnewer⟩ := ih h
      refine ⟨older, newer ++ [m], by simp, ?_⟩
      intro n hn
      rcases List.mem_append.mp hn with hn | hn
      · exact hnewer n hn
      · rw [List.mem_singleton.mp hn]
        exact hk

/-- What is open after a grant was withdrawn has been asked for since. -/
theorem ask_mem_of_withdrawn {held : κ → Option π} {k : κ} {p : π} (before after : List (Move κ π))
    (h : replay held (before ++ .withdraw k :: after) k = some p) : .ask k p ∈ after := by
  rw [replay_append, replay_cons] at h
  have hnone : apply (replay held before) (.withdraw k) k = none := Function.update_self _ _ _
  obtain ⟨older, newer, rfl, -⟩ := asked_of_replay hnone after h
  exact List.mem_append_right older (List.mem_cons_self ..)

/-- A grant is only used when it is the one asked for last on its key, and neither used nor
withdrawn since. -/
theorem use_of_latest_ask {k : κ} {p : π} {ms before after : List (Move κ π)}
    (hv : Valid (fun _ => none) ms) (hm : ms = before ++ .use k p :: after) :
    ∃ older newer, before = older ++ .ask k p :: newer ∧ ∀ m ∈ newer, m.key ≠ k := by
  subst hm
  exact asked_of_replay rfl before (valid_append.mp hv).2.1

variable [DecidableEq π]

/-- Uses so far, and the use still open, are covered by what was asked for. -/
private theorem uses_and_open_le (k : κ) (p : π) (ms : List (Move κ π))
    (hv : Valid (fun _ => none) ms) :
    ms.count (.use k p) + (if replay (fun _ => none) ms k = some p then 1 else 0) ≤
      ms.count (.ask k p) := by
  induction ms using List.reverseRecOn with
  | nil => simp
  | append_singleton ms m ih =>
    obtain ⟨hms, hm⟩ := valid_append.mp hv
    have ih := ih hms
    rw [replay_append, replay_cons, replay_nil, List.count_append, List.count_append]
    generalize replay (fun _ => none) ms = held at ih hm ⊢
    cases m with
    | ask key grant =>
      by_cases hk : key = k
      · subst hk
        by_cases hg : grant = p
        · subst hg
          simp [apply]
          split at ih <;> omega
        · simp [apply, hg]
          split at ih <;> omega
      · have hne : Function.update held key (some grant) k = held k :=
          Function.update_of_ne (Ne.symm hk) _ _
        simp [apply, hne, hk]
        exact ih
    | withdraw key =>
      by_cases hk : key = k
      · subst hk
        simp [apply]
        split at ih <;> omega
      · have hne : Function.update held key none k = held k :=
          Function.update_of_ne (Ne.symm hk) _ _
        simp [apply, hne]
        exact ih
    | use key grant =>
      have hheld : held key = some grant := hm.1
      by_cases hk : key = k
      · subst hk
        by_cases hg : grant = p
        · subst hg
          simp [apply]
          simpa [hheld] using ih
        · simp [apply, hg]
          split at ih <;> omega
      · have hne : Function.update held key none k = held k :=
          Function.update_of_ne (Ne.symm hk) _ _
        simp [apply, hne, hk]
        exact ih

/-- No grant is used more often than it was asked for. -/
theorem count_use_le_ask (k : κ) (p : π) (ms : List (Move κ π)) (hv : Valid (fun _ => none) ms) :
    ms.count (.use k p) ≤ ms.count (.ask k p) :=
  Nat.le_trans (Nat.le_add_right _ _) (uses_and_open_le k p ms hv)

end Gyre.Lib.Grants
