/- digest: A table whose writes are carried out later: what its rows will hold. -/

import Mathlib.Data.List.Basic
import Mathlib.Logic.Function.Basic

/-!
Writes of one key that are carried out in the order they were handed over leave what each row will
hold in the end as it is; the order of writes of different keys does not matter.
-/

set_option autoImplicit false
set_option relaxedAutoImplicit false

namespace Gyre.Lib.WriteBehind

universe u v w

variable {κ : Type u} {β : Type v} {ω : Type w} [DecidableEq κ]

/-- The table after one write. -/
def carryOut (key : ω → κ) (onRow : ω → β → β) (table : κ → β) (x : ω) : κ → β :=
  Function.update table (key x) (onRow x (table (key x)))

/-- The row of a key once all pending writes have been carried out. -/
def settled (key : ω → κ) (onRow : ω → β → β) (pending : List ω) (table : κ → β) (k : κ) : β :=
  (pending.filter fun x => decide (key x = k)).foldl (fun row x => onRow x row) (table k)

variable {key : ω → κ} {onRow : ω → β → β} {pending : List ω} {table : κ → β} {x : ω} {k : κ}

theorem settled_append : settled key onRow (pending ++ [x]) table k =
    if k = key x then onRow x (settled key onRow pending table k)
    else settled key onRow pending table k := by
  unfold settled
  by_cases hk : k = key x
  · subst hk
    simp
  · simp [hk, Ne.symm hk]

theorem settled_of_nothing_pending (h : ∀ x ∈ pending, key x ≠ k) :
    settled key onRow pending table k = table k := by
  unfold settled
  rw [List.filter_eq_nil_iff.mpr]
  · rfl
  · intro x hx
    simpa using h x hx

/-- Writes before the one taken out do not see its key. -/
private theorem filter_eraseIdx {n : Nat} (hx : pending[n]? = some x)
    (hfirst : ∀ m y, m < n → pending[m]? = some y → key y ≠ key x) (k : κ) :
    pending.filter (fun y => decide (key y = k)) =
      if key x = k then x :: (pending.eraseIdx n).filter fun y => decide (key y = k)
      else (pending.eraseIdx n).filter fun y => decide (key y = k) := by
  induction pending generalizing n with
  | nil => cases hx
  | cons y rest ih =>
    cases n with
    | zero =>
      cases hx
      by_cases hk : key x = k
      · simp [hk]
      · simp [hk]
    | succ n =>
      have hrest := ih hx fun m z hm hz => hfirst (m + 1) z (by omega) hz
      have hy : key y ≠ key x := hfirst 0 y (by omega) rfl
      rw [List.eraseIdx_cons_succ, List.filter_cons, List.filter_cons, hrest]
      by_cases hk : key x = k
      · subst hk
        simp [hy]
      · simp [hk]

/-- The first pending write of its key may be carried out without a trace. -/
theorem settled_carryOut {n : Nat} (hx : pending[n]? = some x)
    (hfirst : ∀ m y, m < n → pending[m]? = some y → key y ≠ key x) :
    settled key onRow (pending.eraseIdx n) (carryOut key onRow table x) k =
      settled key onRow pending table k := by
  unfold settled carryOut
  rw [filter_eraseIdx hx hfirst]
  by_cases hk : key x = k
  · subst hk
    simp
  · simp [hk, Function.update_of_ne (Ne.symm hk)]

end Gyre.Lib.WriteBehind
