/- digest: What holds of every entry of a log and the entries before it. -/

import Mathlib.Data.List.Basic
import Gyre.Lib.Runs

set_option autoImplicit false
set_option relaxedAutoImplicit false

namespace Gyre.Lib

universe u v w

variable {σ : Type u} {ω : Type v} {ε : Type w}

/-- A relation between what a log holds so far and the entry that follows, at each of its entries. -/
def Always (P : List ε → ε → Prop) (log : List ε) : Prop :=
  ∀ before e after, log = before ++ e :: after → P before e

theorem always_nil (P : List ε → ε → Prop) : Always P [] := by
  intro before e after h
  simp at h

theorem Always.append {P : List ε → ε → Prop} {log es : List ε} (h : Always P log)
    (hes : Always (fun before e => P (log ++ before) e) es) : Always P (log ++ es) := by
  intro before e after hsplit
  rcases List.append_eq_append_iff.mp hsplit with ⟨rest, rfl, hrest⟩ | ⟨rest, hlog, hrest⟩
  · exact hes rest e after hrest
  · rcases rest with _ | ⟨first, rest⟩
    · rw [List.append_nil] at hlog
      subst hlog
      simpa using hes [] e after (by simpa using hrest.symm)
    · have hfirst : first = e := (List.cons.inj hrest).1.symm
      subst hfirst
      exact h before first rest hlog

theorem always_singleton {P : List ε → ε → Prop} {e : ε} (h : P [] e) : Always P [e] := by
  intro before x after hsplit
  rcases before with _ | ⟨first, before⟩
  · have hx : e = x := (List.cons.inj hsplit).1
    rw [← hx]
    exact h
  · simp at hsplit

theorem Always.of_append {P : List ε → ε → Prop} {log es : List ε} (h : Always P (log ++ es)) :
    Always P log := by
  intro before e after hsplit
  apply h before e (after ++ es)
  rw [hsplit, List.append_assoc, List.cons_append]

theorem Always.imp {P Q : List ε → ε → Prop} {log : List ε} (h : Always P log)
    (hpq : ∀ before e, P before e → Q before e) : Always Q log :=
  fun before e after hsplit => hpq before e (h before e after hsplit)

/-- In a run, a relation holds at every entry of the log if an invariant makes it hold wherever a step
adds entries. -/
theorem run_always {step : σ → ω → σ × List ε} {s : σ} {P : List ε → ε → Prop}
    (Inv : σ → List ε → Prop) (init : Inv s [])
    (keep : ∀ s log o, Inv s log → Inv (step s o).1 (log ++ (step s o).2))
    (emit : ∀ s log o, Inv s log → Always (fun before e => P (log ++ before) e) (step s o).2)
    (os : List ω) : Always P (run step s os).2 := by
  have both : Inv (run step s os).1 (run step s os).2 ∧ Always P (run step s os).2 :=
    run_invariant (fun s log => Inv s log ∧ Always P log) ⟨init, always_nil P⟩
      (fun s log o h => ⟨keep s log o h.1, h.2.append (emit s log o h.1)⟩) os
  exact both.2

/-- Entries belong to someone, and nothing of one's stands before its opening. -/
def OpensFirst {κ : Type*} (owner opens : ε → Option κ) (before : List ε) (e : ε) : Prop :=
  ∀ k, opens e = some k → ∀ x ∈ before, owner x ≠ some k

/-- Whatever else belongs to the same one stands after the opening. -/
theorem after_opening {κ : Type*} {owner opens : ε → Option κ} {log before after : List ε} {k : κ}
    {o e : ε} (h : Always (OpensFirst owner opens) log) (hlog : log = before ++ o :: after)
    (ho : opens o = some k) (he : e ∈ log) (howner : owner e = some k) (hopens : opens e = none) :
    e ∈ after := by
  subst hlog
  rcases List.mem_append.mp he with hbefore | hrest
  · exact absurd howner (h before o after rfl k ho e hbefore)
  · rcases List.mem_cons.mp hrest with rfl | hafter
    · rw [hopens] at ho
      exact absurd ho (Option.some_ne_none k).symm
    · exact hafter

end Gyre.Lib
