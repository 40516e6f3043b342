/- digest: A broadcast channel that keeps the newest values, and what a receiver gets at its place. -/

import Mathlib.Data.List.Basic

set_option autoImplicit false
set_option relaxedAutoImplicit false

namespace Gyre.Lib

universe u

/-- All values that were sent; of these the newest `capacity` can still be received. -/
structure Broadcast (α : Type u) where
  sent : List α
  capacity : Nat

/-- What a receiver meets, with the place it goes on from. -/
inductive Received (α : Type u) where
  | item (a : α) (next : Nat)
  | lagged (skipped next : Nat)
  | empty

namespace Broadcast

variable {α : Type u} (b : Broadcast α)

/-- The place of the oldest value that is still there. -/
def oldest : Nat := b.sent.length - b.capacity

def send (a : α) : Broadcast α := { b with sent := b.sent ++ [a] }

/-- A receiver that has fallen behind is moved to the oldest value. -/
def recv (next : Nat) : Received α :=
  if next < b.oldest then .lagged (b.oldest - next) b.oldest
  else
    match b.sent[next]? with
    | some a => .item a (next + 1)
    | none => .empty

variable {b} {next : Nat}

/-- What waits for a receiver that gets an item: that item, and then what waits at the next place. -/
theorem drop_of_recv {a : α} {next' : Nat} (h : b.recv next = .item a next') :
    next' = next + 1 ∧ next < b.sent.length ∧ b.sent.drop next = a :: b.sent.drop next' := by
  unfold recv at h
  split at h
  · cases h
  · cases hget : b.sent[next]? with
    | none =>
      rw [hget] at h
      cases h
    | some a' =>
      rw [hget] at h
      cases h
      obtain ⟨hlt, hat⟩ := List.getElem?_eq_some_iff.mp hget
      exact ⟨rfl, hlt, by rw [← hat, List.drop_eq_getElem_cons hlt]⟩

/-- A receiver that is within the capacity gets the first value that waits. -/
theorem recv_of_drop {a : α} {rest : List α} (hwithin : (b.sent.drop next).length ≤ b.capacity)
    (h : b.sent.drop next = a :: rest) : b.recv next = .item a (next + 1) := by
  have hlt : next < b.sent.length := by
    by_contra hge
    rw [List.drop_eq_nil_of_le (by omega)] at h
    cases h
  have hnear : ¬ next < b.oldest := by
    rw [List.length_drop] at hwithin
    unfold oldest
    omega
  have hget : b.sent[next]? = some a := by
    have hhead := congrArg (fun l => l[0]?) h
    simpa [List.getElem?_drop] using hhead
  rw [recv, if_neg hnear, hget]

theorem place_of_lagged {skipped next' : Nat} (h : b.recv next = .lagged skipped next') :
    next' ≤ b.sent.length := by
  unfold recv at h
  split at h
  · cases h
    exact Nat.sub_le _ _
  · split at h <;> cases h

theorem drop_send (hle : next ≤ b.sent.length) (a : α) :
    (b.send a).sent.drop next = b.sent.drop next ++ [a] :=
  List.drop_append_of_le_length hle

end Broadcast

end Gyre.Lib
