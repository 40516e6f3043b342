/- digest: The states a system reaches by allowed steps, in any order, and the rule for invariants. -/

set_option autoImplicit false
set_option relaxedAutoImplicit false

namespace Gyre.Lib

universe u v

variable {σ : Type u} {ω : Type v}

/-- The states that steps which are allowed where they are taken lead to. -/
inductive Reached (step : σ → ω → σ) (allowed : σ → ω → Prop) (init : σ) : σ → Prop
  | start : Reached step allowed init init
  | next {s : σ} (o : ω) (reached : Reached step allowed init s) (h : allowed s o) :
      Reached step allowed init (step s o)

namespace Reached

variable {step : σ → ω → σ} {allowed : σ → ω → Prop} {init s : σ}

/-- What holds at the start and is kept by every allowed step holds in every state reached. -/
theorem invariant (Inv : σ → Prop) (hinit : Inv init)
    (keep : ∀ s o, allowed s o → Inv s → Inv (step s o)) (h : Reached step allowed init s) :
    Inv s := by
  induction h with
  | start => exact hinit
  | next o _ hallowed ih => exact keep _ o hallowed ih

theorem mono {weaker : σ → ω → Prop} (himp : ∀ s o, allowed s o → weaker s o)
    (h : Reached step allowed init s) : Reached step weaker init s := by
  induction h with
  | start => exact .start
  | next o _ hallowed ih => exact .next o ih (himp _ o hallowed)

end Reached

/-- Every one of some operations is allowed where it is taken. -/
def AllowedAlong (step : σ → ω → σ) (allowed : σ → ω → Prop) : σ → List ω → Prop
  | _, [] => True
  | s, o :: os => allowed s o ∧ AllowedAlong step allowed (step s o) os

instance AllowedAlong.decidable (step : σ → ω → σ) (allowed : σ → ω → Prop)
    [dec : ∀ s o, Decidable (allowed s o)] :
    ∀ (s : σ) (os : List ω), Decidable (AllowedAlong step allowed s os)
  | _, [] => inferInstanceAs (Decidable True)
  | s, o :: os => @instDecidableAnd _ _ (dec s o) (AllowedAlong.decidable step allowed (step s o) os)

/-- Allowed operations lead from a state reached to another one. -/
theorem Reached.foldl {step : σ → ω → σ} {allowed : σ → ω → Prop} {init s : σ} (os : List ω)
    (h : Reached step allowed init s) (hallowed : AllowedAlong step allowed s os) :
    Reached step allowed init (os.foldl step s) := by
  induction os generalizing s with
  | nil => exact h
  | cons o os ih => exact ih (.next o h hallowed.1) hallowed.2

/-- A run comes by a state where it applies an operation. -/
def ComesBy (step : σ → ω → σ) (init : σ) (os : List ω) (s : σ) (o : ω) : Prop :=
  ∃ before after, os = before ++ o :: after ∧ s = before.foldl step init

/-- What every step keeps that a run comes by holds at its end. -/
theorem foldl_invariant_of {step : σ → ω → σ} {init : σ} (Inv : σ → Prop) (os : List ω)
    (hinit : Inv init) (keep : ∀ s o, ComesBy step init os s o → Inv s → Inv (step s o)) :
    Inv (os.foldl step init) := by
  have hfrom : ∀ after before, os = before ++ after → Inv (before.foldl step init) →
      Inv (os.foldl step init) := by
    intro after
    induction after with
    | nil =>
      intro before hos hbefore
      rw [hos, List.append_nil]
      exact hbefore
    | cons o after ih =>
      intro before hos hbefore
      refine ih (before ++ [o]) (by rw [hos, List.append_assoc, List.singleton_append]) ?_
      rw [List.foldl_append]
      exact keep _ o ⟨before, after, hos, rfl⟩ hbefore
  exact hfrom os [] rfl hinit

end Gyre.Lib
