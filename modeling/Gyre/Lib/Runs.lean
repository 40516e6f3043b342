/- digest: Runs of systems whose steps emit observations, and the induction rules over them. -/

import Mathlib.Data.List.Induction

set_option autoImplicit false
set_option relaxedAutoImplicit false

namespace Gyre.Lib

universe u v w

variable {σ : Type u} {ω : Type v} {ε : Type w}

/-- Execute a list of operations, collecting what every step emits. -/
@[grind =] def run (step : σ → ω → σ × List ε) (s : σ) : List ω → σ × List ε
  | [] => (s, [])
  | o :: os =>
    let next := step s o
    let rest := run step next.1 os
    (rest.1, next.2 ++ rest.2)

@[simp] theorem run_nil (step : σ → ω → σ × List ε) (s : σ) : run step s [] = (s, []) := rfl

theorem run_append (step : σ → ω → σ × List ε) (s : σ) (os ps : List ω) :
    run step s (os ++ ps) =
      ((run step (run step s os).1 ps).1,
        (run step s os).2 ++ (run step (run step s os).1 ps).2) := by
  induction os generalizing s with
  | nil => rfl
  | cons o os ih =>
    simp only [List.cons_append, run]
    rw [ih]
    simp [List.append_assoc]

theorem run_concat (step : σ → ω → σ × List ε) (s : σ) (os : List ω) (o : ω) :
    run step s (os ++ [o]) =
      ((step (run step s os).1 o).1, (run step s os).2 ++ (step (run step s os).1 o).2) := by
  rw [run_append]
  simp [run]

/-- A relation between the state and everything emitted so far that holds at the start and is kept
by every step holds at the end of every run. -/
theorem run_invariant {step : σ → ω → σ × List ε} {s : σ} (Inv : σ → List ε → Prop)
    (init : Inv s [])
    (keep : ∀ s log o, Inv s log → Inv (step s o).1 (log ++ (step s o).2))
    (os : List ω) : Inv (run step s os).1 (run step s os).2 := by
  induction os using List.reverseRecOn with
  | nil => exact init
  | append_singleton os o ih =>
    rw [run_concat]
    exact keep _ _ _ ih

/-- Operations that leave a view of the state as it is, and emit nothing that is shown, can be left out:
the others work on the view as they would on the state. -/
theorem run_purge {step : σ → ω → σ × List ε} {keep : ω → Bool} {shown : ε → Bool}
    (view : σ → σ)
    (hdrop : ∀ s o, keep o = false → view (step s o).1 = view s ∧ (step s o).2.filter shown = [])
    (hkeep : ∀ s o, keep o = true →
      view (step s o).1 = (step (view s) o).1 ∧ (step s o).2.filter shown = (step (view s) o).2)
    (s : σ) (os : List ω) :
    (run step s os).2.filter shown = (run step (view s) (os.filter keep)).2 := by
  induction os generalizing s with
  | nil => rfl
  | cons o os ih =>
    simp only [run, List.filter_append, ih]
    cases hkept : keep o with
    | false =>
      obtain ⟨hview, hnothing⟩ := hdrop s o hkept
      rw [List.filter_cons_of_neg (by simp [hkept]), hnothing, hview, List.nil_append]
    | true =>
      obtain ⟨hview, hsame⟩ := hkeep s o hkept
      rw [List.filter_cons_of_pos hkept, hsame, hview]
      rfl

/-- The operations of a run, each with the state it was applied to. -/
@[grind =] def visited (step : σ → ω → σ × List ε) (s : σ) : List ω → List (σ × ω)
  | [] => []
  | o :: os => (s, o) :: visited step (step s o).1 os

theorem visited_append (step : σ → ω → σ × List ε) (s : σ) (os ps : List ω) :
    visited step s (os ++ ps) = visited step s os ++ visited step (run step s os).1 ps := by
  induction os generalizing s with
  | nil => rfl
  | cons o os ih => simp [visited, run, ih]

/-- Where a run applies an operation, it splits. -/
theorem mem_visited_iff {step : σ → ω → σ × List ε} {s : σ} {os : List ω} {p : σ × ω} :
    p ∈ visited step s os ↔
      ∃ before after, os = before ++ p.2 :: after ∧ p.1 = (run step s before).1 := by
  constructor
  · intro h
    induction os generalizing s with
    | nil => simp [visited] at h
    | cons o os ih =>
      rcases List.mem_cons.mp h with rfl | h
      · exact ⟨[], os, rfl, rfl⟩
      · obtain ⟨before, after, rfl, hstate⟩ := ih h
        exact ⟨o :: before, after, rfl, hstate⟩
  · rintro ⟨before, after, rfl, hstate⟩
    rw [visited_append]
    refine List.mem_append_right _ (List.mem_cons.mpr (.inl ?_))
    rw [← hstate]

/-- `run_invariant` for a run whose steps all meet a condition. -/
theorem run_invariant_of {step : σ → ω → σ × List ε} {s : σ} (C : σ → ω → Prop)
    (Inv : σ → List ε → Prop) (init : Inv s [])
    (keep : ∀ s log o, C s o → Inv s log → Inv (step s o).1 (log ++ (step s o).2))
    (os : List ω) (h : ∀ p ∈ visited step s os, C p.1 p.2) :
    Inv (run step s os).1 (run step s os).2 := by
  induction os using List.reverseRecOn with
  | nil => exact init
  | append_singleton os o ih =>
    rw [visited_append] at h
    rw [run_concat]
    apply keep
    · exact h (_, o) (List.mem_append_right _ (List.mem_singleton.mpr rfl))
    · exact ih fun p hp => h p (List.mem_append_left _ hp)

/-- An invariant of the state holds wherever a run applies an operation. -/
theorem visited_invariant {step : σ → ω → σ × List ε} {s : σ} (Inv : σ → Prop) (init : Inv s)
    (keep : ∀ s o, Inv s → Inv (step s o).1) (os : List ω) :
    ∀ p ∈ visited step s os, Inv p.1 := by
  induction os generalizing s with
  | nil => simp [visited]
  | cons o os ih =>
    intro p hp
    rcases List.mem_cons.mp hp with rfl | hp
    · exact init
    · exact ih (keep s o init) p hp

/-- `visited_invariant` for a run whose steps all meet a condition. -/
theorem visited_invariant_of {step : σ → ω → σ × List ε} {s : σ} (C : σ → ω → Prop) (Inv : σ → Prop)
    (init : Inv s) (keep : ∀ s o, C s o → Inv s → Inv (step s o).1) (os : List ω)
    (h : ∀ p ∈ visited step s os, C p.1 p.2) : ∀ p ∈ visited step s os, Inv p.1 := by
  induction os generalizing s with
  | nil => simp [visited]
  | cons o os ih =>
    obtain ⟨hfirst, hrest⟩ := List.forall_mem_cons.mp h
    intro p hp
    rcases List.mem_cons.mp hp with rfl | hp
    · exact init
    · exact ih (keep s o hfirst init) hrest p hp

/-- Where a step emits something once or not at all, a run emits it as often as its steps do. -/
theorem count_run [BEq ε] {step : σ → ω → σ × List ε} {a : ε} {emits : σ × ω → Bool}
    (h : ∀ s o, (step s o).2.count a = if emits (s, o) then 1 else 0) (s : σ) (os : List ω) :
    (run step s os).2.count a = (visited step s os).countP emits := by
  induction os generalizing s with
  | nil => rfl
  | cons o os ih =>
    rw [run, visited, List.count_append, ih, h, List.countP_cons, Nat.add_comm]

/-- Where the steps that meet a condition keep an invariant, and the condition is exact for a step from
it, the condition is exact for a run. -/
theorem visited_iff {step : σ → ω → σ × List ε} {s : σ} {Inv : σ → Prop} {Keeps C : σ → ω → Prop}
    (init : Inv s) (keep : ∀ s o, Inv s → C s o → Inv (step s o).1)
    (iff : ∀ s o, Inv s → (Keeps s o ↔ C s o)) (os : List ω) :
    (∀ p ∈ visited step s os, Keeps p.1 p.2) ↔ ∀ p ∈ visited step s os, C p.1 p.2 := by
  induction os generalizing s with
  | nil => simp [visited]
  | cons o os ih =>
    simp only [visited, List.forall_mem_cons]
    constructor
    · rintro ⟨hfirst, hrest⟩
      have hmet := (iff s o init).mp hfirst
      exact ⟨hmet, (ih (keep s o init hmet)).mp hrest⟩
    · rintro ⟨hfirst, hrest⟩
      exact ⟨(iff s o init).mpr hfirst, (ih (keep s o init hfirst)).mpr hrest⟩

/-- Where a step keeps an invariant exactly under a condition, a run keeps it exactly when all its
steps meet the condition. -/
theorem visited_keeps_iff {step : σ → ω → σ × List ε} {s : σ} {Inv : σ → Prop} {Keeps : σ → ω → Prop}
    (init : Inv s) {C : σ → ω → Prop} (hkeeps : ∀ s o, Keeps s o → Inv (step s o).1)
    (iff : ∀ s o, Inv s → (Keeps s o ↔ C s o)) (os : List ω) :
    (∀ p ∈ visited step s os, Keeps p.1 p.2) ↔ ∀ p ∈ visited step s os, C p.1 p.2 :=
  visited_iff init (fun s o hs hc => hkeeps s o ((iff s o hs).mpr hc)) iff os

/-- What a run emits is what its steps emit, in order. -/
theorem run_log (step : σ → ω → σ × List ε) (s : σ) (os : List ω) :
    (run step s os).2 = (visited step s os).flatMap fun p => (step p.1 p.2).2 := by
  induction os generalizing s with
  | nil => rfl
  | cons o os ih => simp [run, visited, ih]

end Gyre.Lib
