/- digest: Interaction of a system with a client that chooses by the answers it has had. -/

import Mathlib.Data.List.Basic

set_option autoImplicit false
set_option relaxedAutoImplicit false

namespace Gyre.Lib

universe u v w

variable {σ : Type u} {ω : Type v} {α : Type w}

/-- The state and the answers after a number of rounds. A step may depend on the round; the client's
next operation depends on the answers so far, so a client that stops is covered by the rounds before
it does. -/
def interact (step : Nat → σ → ω → σ × α) (client : List α → ω) (s : σ) : Nat → σ × List α
  | 0 => (s, [])
  | n + 1 =>
    let before := interact step client s n
    let next := step n before.1 (client before.2)
    (next.1, before.2 ++ [next.2])

section Unwinding

variable {step : Nat → σ → ω → σ × α} {client : List α → ω} {low : σ → σ → Prop}
  {Alike : Nat → σ → σ → ω → Prop} {s t : σ}

/-- Two runs whose rounds were all alike are at states that agree on what is public, with the same
answers. -/
theorem interact_alike
    (answers : ∀ n s t o, low s t → ((step n s o).2 = (step n t o).2 ↔ Alike n s t o))
    (keeps : ∀ n s t o, low s t → Alike n s t o → low (step n s o).1 (step n t o).1)
    (start : low s t) (n : Nat)
    (alike : ∀ k < n, Alike k (interact step client s k).1 (interact step client t k).1
      (client (interact step client s k).2)) :
    low (interact step client s n).1 (interact step client t n).1 ∧
      (interact step client s n).2 = (interact step client t n).2 := by
  induction n with
  | zero => exact ⟨start, rfl⟩
  | succ n ih =>
    obtain ⟨hlow, hsame⟩ := ih fun k hk => alike k (Nat.lt_succ_of_lt hk)
    have hround := alike n (Nat.lt_succ_self n)
    simp only [interact]
    rw [← hsame]
    exact ⟨keeps _ _ _ _ hlow hround, by rw [(answers _ _ _ _ hlow).mpr hround]⟩

/-- Where a round answers alike exactly under a condition that also keeps the public part the same,
two runs look the same to the client exactly when all their rounds meet the condition. -/
theorem interact_same_iff
    (answers : ∀ n s t o, low s t → ((step n s o).2 = (step n t o).2 ↔ Alike n s t o))
    (keeps : ∀ n s t o, low s t → Alike n s t o → low (step n s o).1 (step n t o).1)
    (start : low s t) :
    (∀ n, (interact step client s n).2 = (interact step client t n).2) ↔
      ∀ n, Alike n (interact step client s n).1 (interact step client t n).1
        (client (interact step client s n).2) := by
  constructor
  · intro hsame n
    induction n using Nat.strongRecOn with
    | ind n ih =>
      obtain ⟨hlow, hbefore⟩ := interact_alike answers keeps start n ih
      have hnext := hsame (n + 1)
      simp only [interact] at hnext
      rw [← hbefore] at hnext
      have hlast := List.append_cancel_left hnext
      rw [List.cons.injEq] at hlast
      exact (answers n _ _ _ hlow).mp hlast.1
  · intro halike n
    exact (interact_alike answers keeps start n fun k _ => halike k).2

end Unwinding

end Gyre.Lib
