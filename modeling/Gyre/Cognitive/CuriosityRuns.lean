/- digest: Whole runs of the curiosity cycles: the daily pace, and what each law needs of a run. -/

import Gyre.Cognitive.CuriosityLaws
import Gyre.Lib.Runs

set_option autoImplicit false
set_option relaxedAutoImplicit false

namespace Gyre.Cognitive

open Gyre.Lib Gyre.Llm

section Accounts

variable {maxDailyTasks : Nat} {s s' : Curiosity} {e : CuriosityEvent}

/-- One caller at most is inside of a cycle. -/
private def Alone (s : Curiosity) : Prop :=
  ∀ v w, (s.control v).inCycle = true → (s.control w).inCycle = true → v = w

/-- A turn of a caller that was inside of a cycle before leaves it the only one. -/
private theorem alone_turn {control : Nat → Control} {w : Nat} {c : Control}
    (hc : c.inCycle = true → (control w).inCycle = true ∨ ∀ v, (control v).inCycle = false)
    (h : ∀ v w, (control v).inCycle = true → (control w).inCycle = true → v = w) :
    ∀ v u, (Function.update control w c v).inCycle = true →
      (Function.update control w c u).inCycle = true → v = u := by
  have hother {v : Nat} (hvw : v ≠ w) (hv : (control v).inCycle = true) (hin : c.inCycle = true) :
      False := by
    rcases hc hin with hw | hnone
    · exact hvw (h v w hv hw)
    · have hfree := hnone v
      rw [hv] at hfree
      cases hfree
  intro v u hv hu
  rcases turn_cases (rfl : Function.update control w c v = _) with ⟨hvw, hcv⟩ | ⟨hvw, hcv⟩ <;>
    rcases turn_cases (rfl : Function.update control w c u = _) with ⟨huw, hcu⟩ | ⟨huw, hcu⟩
  · exact hvw.trans huw.symm
  · rw [← hcv] at hv
    rw [← hcu] at hu
    exact (hother huw hu hv).elim
  · rw [← hcv] at hv
    rw [← hcu] at hu
    exact (hother hvw hv hu).elim
  · rw [← hcv] at hv
    rw [← hcu] at hu
    exact h v u hv hu

private theorem inCycle_of_today {c : Control} {d : Int} (h : c.today = some d) : c.inCycle = true := by
  rw [Control.inCycle, h]
  rfl

private theorem isExecuting_of_held {c : Control} (h : c.held = none) : c.isExecuting = false := by
  cases c with
  | executing t start => cases h
  | _ => rfl

private theorem inCycle_of_looking {c : Control} (h : c.held = none) (hin : c.inCycle = true) :
    ∃ d, c.today = some d := by
  rw [Control.inCycle, isExecuting_of_held h, Bool.or_false] at hin
  exact Option.isSome_iff_exists.mp hin

private theorem alone_effect (h : Effect maxDailyTasks s e s') (hc : OneAtATime s e) (hs : Alone s) :
    Alone s' := by
  cases h with
  | stay e => exact hs
  | look e w c clock free looking found today =>
    refine alone_turn (fun hin => ?_) hs
    obtain ⟨d, hd⟩ := inCycle_of_looking looking hin
    rcases today d hd with hsame | ⟨gaps, rfl, -⟩
    · exact .inl (inCycle_of_today hsame)
    · exact .inr hc.2.2
  | insert w id now task resume stands fresh =>
    refine alone_turn (fun hin => .inl ?_) hs
    rw [stands]
    cases resume with
    | none => cases hin
    | some r => exact hin
  | claim w t today stands =>
    refine alone_turn (fun hin => .inl ?_) hs
    rw [stands]
    cases today with
    | none => cases hin
    | some d => exact hin
  | execute w now t today stands =>
    refine alone_turn (fun hin => .inl ?_) hs
    rw [stands]
    rfl
  | finish w t start f e stands marking event => exact alone_turn (fun hin => by cases hin) hs
  | drop e control dropped =>
    have hold {v : Nat} (hv : (control v).inCycle = true) : (s.control v).inCycle = true := by
      rcases dropped v with hsame | ⟨hidle, -⟩
      · rwa [hsame] at hv
      · rw [hidle] at hv
        cases hv
    exact fun v w hv hw => hs v w (hold hv) (hold hw)
  | mark id f e marking event => exact hs

/-- What was executed is being executed, or is marked as done at a later time. -/
private structure Accounted (s : Curiosity) : Prop where
  once : (s.executions.map (·.id)).Nodup
  accounted : ∀ x ∈ s.executions, (∃ w t, s.control w = .executing t x.start ∧ t.id = x.id) ∨
    ∃ r ∈ s.queue.rows, r.id = x.id ∧ r.status = .done ∧ ∃ c, r.completedAt = some c ∧ x.start < c
  known : ∀ x ∈ s.executions, x.id ∈ s.queue.rows.map (·.id)
  settled : ∀ x ∈ s.executions, ∀ r ∈ s.queue.rows, r.id = x.id → r.status ≠ .pending
  sought : ∀ w t today, s.control w = .claiming t today → t.id ∈ s.queue.rows.map (·.id)
  claimed : ∀ w t today, s.control w = .claimed t today → t.id ∈ s.queue.rows.map (·.id) ∧
    (∀ r ∈ s.queue.rows, r.id = t.id → r.status ≠ .pending) ∧ ∀ x ∈ s.executions, x.id ≠ t.id
  executing : ∀ w t start, s.control w = .executing t start →
    ∃ x ∈ s.executions, x.id = t.id ∧ x.start = start

/-- An execution goes on being accounted for while callers other than its own move. -/
private theorem accounted_turn {control : Nat → Control} {w : Nat} {c : Control} {x : Execution}
    {rows rows' : List ResearchTask} (hfree : (control w).isExecuting = false)
    (hrows : ∀ r ∈ rows, r.id = x.id → r.status = .done → r ∈ rows')
    (h : (∃ v t, control v = .executing t x.start ∧ t.id = x.id) ∨
      ∃ r ∈ rows, r.id = x.id ∧ r.status = .done ∧ ∃ c, r.completedAt = some c ∧ x.start < c) :
    (∃ v t, Function.update control w c v = .executing t x.start ∧ t.id = x.id) ∨
      ∃ r ∈ rows', r.id = x.id ∧ r.status = .done ∧ ∃ c, r.completedAt = some c ∧ x.start < c := by
  rcases h with ⟨v, t, hv, hid⟩ | ⟨r, hr, hid, hdone, hlater⟩
  · have hother : v ≠ w := by
      rintro rfl
      rw [hv] at hfree
      cases hfree
    exact .inl ⟨v, t, turn_other hother hv, hid⟩
  · exact .inr ⟨r, hrows r hr hid hdone, hid, hdone, hlater⟩

/-- Marking a task leaves none pending that was not. -/
private theorem accounts_closed {f : ResearchTask → ResearchTask} {id i : Uuid} (hf : Marking f)
    (h : ∀ r ∈ s.queue.rows, r.id = i → r.status ≠ .pending) :
    ∀ r ∈ (s.queue.update id f).rows, r.id = i → r.status ≠ .pending := by
  intro r hr hid
  obtain ⟨q, hq, ⟨-, rfl⟩ | ⟨-, rfl⟩⟩ := mem_update.mp hr
  · intro hpending
    have hclosed := (hf.frame q).2.2
    rw [hpending] at hclosed
    cases hclosed
  · exact h q hq hid

private theorem accounted_effect (h : Effect maxDailyTasks s e s') (hc : OneAtATime s e)
    (halone : Alone s) (hs : Accounted s) : Accounted s' := by
  cases h with
  | stay e => exact hs
  | look e w c clock free looking found =>
    refine ⟨hs.once, fun x hx => ?_, hs.known, hs.settled, fun v t today hv => ?_,
      fun v t today hv => ?_, fun v t start hv => ?_⟩
    · exact accounted_turn (isExecuting_of_held free) (fun r hr _ _ => hr) (hs.accounted x hx)
    · rcases turn_cases hv with ⟨-, hv⟩ | ⟨-, hv⟩
      · exact List.mem_map_of_mem (List.mem_filter.mp (found t today hv)).1
      · exact hs.sought v t today hv
    · rcases turn_cases hv with ⟨-, hv⟩ | ⟨-, hv⟩
      · rw [hv] at looking
        cases looking
      · exact hs.claimed v t today hv
    · rcases turn_cases hv with ⟨-, hv⟩ | ⟨-, hv⟩
      · rw [hv] at looking
        cases looking
      · exact hs.executing v t start hv
  | insert w id now task resume stands fresh =>
    have hnew {i : Uuid} (hi : i ∈ s.queue.rows.map (·.id)) {r : ResearchTask}
        (hr : r ∈ s.queue.rows ++ [ResearchQueue.newTask id now task.topic task.priority task.source])
        (hid : r.id = i) : r ∈ s.queue.rows := by
      rcases List.mem_append.mp hr with hr | hr
      · exact hr
      · rw [List.mem_singleton.mp hr] at hid
        have hsame : id = i := hid
        exact absurd (hsame ▸ hi) fresh
    have hkeep {i : Uuid} (hi : i ∈ s.queue.rows.map (·.id)) :
        i ∈ (s.queue.rows ++ [ResearchQueue.newTask id now task.topic task.priority task.source]).map
          (·.id) := by
      rw [List.map_append]
      exact List.mem_append_left _ hi
    refine ⟨hs.once, fun x hx => ?_, fun x hx => hkeep (hs.known x hx), fun x hx r hr hid => ?_,
      fun v t today hv => ?_, fun v t today hv => ?_, fun v t start hv => ?_⟩
    · have hfree : (s.control w).isExecuting = false := by rw [stands]; rfl
      exact accounted_turn hfree (fun r hr _ _ => List.mem_append_left _ hr) (hs.accounted x hx)
    · exact hs.settled x hx r (hnew (hs.known x hx) hr hid) hid
    · rcases turn_cases hv with ⟨-, hv⟩ | ⟨-, hv⟩
      · cases resume <;> cases hv
      · exact hkeep (hs.sought v t today hv)
    · rcases turn_cases hv with ⟨-, hv⟩ | ⟨-, hv⟩
      · cases resume <;> cases hv
      · obtain ⟨hknown, hsettled, hfirst⟩ := hs.claimed v t today hv
        exact ⟨hkeep hknown, fun r hr hid => hsettled r (hnew hknown hr hid) hid, hfirst⟩
    · rcases turn_cases hv with ⟨-, hv⟩ | ⟨-, hv⟩
      · cases resume <;> cases hv
      · exact hs.executing v t start hv
  | claim w t today stands =>
    have hpending := hc.1 t today stands
    have hids : (s.queue.claim t.id).rows.map (·.id) = s.queue.rows.map (·.id) := update_ids fun _ => rfl
    have hsettled {i : Uuid} (h : ∀ r ∈ s.queue.rows, r.id = i → r.status ≠ .pending) :
        ∀ r ∈ (s.queue.claim t.id).rows, r.id = i → r.status ≠ .pending := by
      intro r hr hid
      obtain ⟨q, hq, ⟨-, rfl⟩ | ⟨-, rfl⟩⟩ := mem_update.mp hr
      · exact fun h => by cases h
      · exact h q hq hid
    -- What is claimed was pending, and nothing that was executed is.
    obtain ⟨row, hrow, hrowid⟩ := List.mem_map.mp (hs.sought w t today stands)
    have hfirst : ∀ x ∈ s.executions, x.id ≠ t.id := fun x hx hid =>
      hs.settled x hx row hrow (hrowid.trans hid.symm) (hpending row hrow hrowid)
    refine ⟨hs.once, fun x hx => ?_, fun x hx => ?_, fun x hx => hsettled (hs.settled x hx),
      fun v t' today' hv => ?_, fun v t' today' hv => ?_, fun v t' start hv => ?_⟩
    · have hfree : (s.control w).isExecuting = false := by rw [stands]; rfl
      refine accounted_turn hfree (fun r hr hid _ => ?_) (hs.accounted x hx)
      exact mem_update.mpr ⟨r, hr, .inr ⟨fun h => hfirst x hx (hid.symm.trans h), rfl⟩⟩
    · rw [hids]
      exact hs.known x hx
    · rw [hids]
      rcases turn_cases hv with ⟨-, hv⟩ | ⟨-, hv⟩
      · cases today <;> cases hv
      · exact hs.sought v t' today' hv
    · rw [hids]
      rcases turn_cases hv with ⟨-, hv⟩ | ⟨-, hv⟩
      · cases today with
        | none => cases hv
        | some d =>
          cases hv
          refine ⟨hs.sought w t _ stands, fun r hr hid => ?_, hfirst⟩
          obtain ⟨q, hq, ⟨-, rfl⟩ | ⟨hne, rfl⟩⟩ := mem_update.mp hr
          · exact fun h => by cases h
          · exact absurd hid hne
      · obtain ⟨hknown, hnot, hnone⟩ := hs.claimed v t' today' hv
        exact ⟨hknown, hsettled hnot, hnone⟩
    · rcases turn_cases hv with ⟨-, hv⟩ | ⟨-, hv⟩
      · cases today <;> cases hv
      · exact hs.executing v t' start hv
  | execute w now t today stands =>
    obtain ⟨hknown, hsettled, hfirst⟩ := hs.claimed w t today stands
    have hfree : (s.control w).isExecuting = false := by rw [stands]; rfl
    refine ⟨?_, fun x hx => ?_, fun x hx => ?_, fun x hx => ?_, fun v t' today' hv => ?_,
      fun v t' today' hv => ?_, fun v t' start hv => ?_⟩
    · refine List.nodup_cons.mpr ⟨fun hmem => ?_, hs.once⟩
      obtain ⟨x, hx, hid⟩ := List.mem_map.mp hmem
      exact hfirst x hx hid
    · rcases List.mem_cons.mp hx with rfl | hx
      · exact .inl ⟨w, t, turn_self rfl, rfl⟩
      · exact accounted_turn hfree (fun r hr _ _ => hr) (hs.accounted x hx)
    · rcases List.mem_cons.mp hx with rfl | hx
      · exact hknown
      · exact hs.known x hx
    · rcases List.mem_cons.mp hx with rfl | hx
      · exact hsettled
      · exact hs.settled x hx
    · rcases turn_cases hv with ⟨-, hv⟩ | ⟨-, hv⟩
      · cases hv
      · exact hs.sought v t' today' hv
    · rcases turn_cases hv with ⟨-, hv⟩ | ⟨hvw, hv⟩
      · cases hv
      · have hin : (s.control w).inCycle = true := by rw [stands]; rfl
        exact absurd (halone v w (by rw [hv]; rfl) hin) hvw
    · rcases turn_cases hv with ⟨-, hv⟩ | ⟨-, hv⟩
      · cases hv
        exact ⟨_, List.mem_cons_self, rfl, rfl⟩
      · obtain ⟨x, hx, hxs⟩ := hs.executing v t' start hv
        exact ⟨x, List.mem_cons_of_mem _ hx, hxs⟩
  | finish w t start f e stands marking event =>
    obtain ⟨now, rfl, rfl⟩ : ∃ now, e = .succeed w now ∧
        f = fun t => { t with status := .done, completedAt := some now } := by
      rcases event with hdone | ⟨reason, rfl, -⟩
      · exact hdone
      · have hidle := hc.2
        simp only [stands] at hidle
        cases hidle
    have hlater : start < now := hc.2 t start stands
    have hids : (s.queue.update t.id fun t => { t with status := .done, completedAt := some now }).rows.map
        (·.id) = s.queue.rows.map (·.id) := update_ids fun _ => rfl
    obtain ⟨y, hy, hyid, hystart⟩ := hs.executing w t start stands
    refine ⟨hs.once, fun x hx => ?_, fun x hx => ?_, fun x hx => accounts_closed marking (hs.settled x hx),
      fun v t' today hv => ?_, fun v t' today hv => ?_, fun v t' start' hv => ?_⟩
    · by_cases hid : x.id = t.id
      · -- The task that is marked was executed once only, from `start` on.
        have hxy : x = y := List.inj_on_of_nodup_map hs.once hx hy (hid.trans hyid.symm)
        obtain ⟨row, hrow, hrowid⟩ := List.mem_map.mp (hs.known x hx)
        refine .inr ⟨_, mem_update.mpr ⟨row, hrow, .inl ⟨hrowid.trans hid, rfl⟩⟩, hrowid, rfl, now, rfl, ?_⟩
        rw [hxy, hystart]
        exact hlater
      · rcases hs.accounted x hx with ⟨v, t', hv, hvid⟩ | ⟨r, hr, hrid, hdone⟩
        · have hother : v ≠ w := by
            rintro rfl
            rw [stands] at hv
            cases hv
            exact hid hvid.symm
          exact .inl ⟨v, t', turn_other hother hv, hvid⟩
        · exact .inr ⟨r, mem_update.mpr ⟨r, hr, .inr ⟨fun h => hid (hrid.symm.trans h), rfl⟩⟩, hrid, hdone⟩
    · rw [hids]
      exact hs.known x hx
    · rw [hids]
      rcases turn_cases hv with ⟨-, hv⟩ | ⟨-, hv⟩
      · cases hv
      · exact hs.sought v t' today hv
    · rw [hids]
      rcases turn_cases hv with ⟨-, hv⟩ | ⟨-, hv⟩
      · cases hv
      · obtain ⟨hknown, hnot, hnone⟩ := hs.claimed v t' today hv
        exact ⟨hknown, accounts_closed marking hnot, hnone⟩
    · rcases turn_cases hv with ⟨-, hv⟩ | ⟨-, hv⟩
      · cases hv
      · exact hs.executing v t' start' hv
  | drop e control dropped =>
    have hold {v : Nat} {c : Control} (hc : c ≠ .idle) (hv : control v = c) : s.control v = c := by
      rcases dropped v with hsame | ⟨hidle, -⟩
      · exact hsame.symm.trans hv
      · exact absurd (hv.symm.trans hidle) hc
    refine ⟨hs.once, fun x hx => ?_, hs.known, hs.settled,
      fun v t today hv => hs.sought v t today (hold (by simp) hv),
      fun v t today hv => hs.claimed v t today (hold (by simp) hv),
      fun v t start hv => hs.executing v t start (hold (by simp) hv)⟩
    rcases hs.accounted x hx with ⟨v, t, hv, hid⟩ | hdone
    · have hexecuting : (s.control v).isExecuting = true := by rw [hv]; rfl
      rcases dropped v with hsame | ⟨-, rfl | rfl⟩
      · exact .inl ⟨v, t, hsame.trans hv, hid⟩
      · rw [hc.2] at hexecuting
        cases hexecuting
      · rw [hc.2 v] at hexecuting
        cases hexecuting
    · exact .inr hdone
  | mark id f e marking event =>
    have hothers : ∀ x ∈ s.executions, x.id ≠ id := by
      rcases event with ⟨completedAt, rfl, -⟩ | ⟨reason, rfl, -⟩
      · exact hc.2
      · exact hc.2
    have hids : (s.queue.update id f).rows.map (·.id) = s.queue.rows.map (·.id) :=
      update_ids fun t => (marking.frame t).1
    refine ⟨hs.once, fun x hx => ?_, fun x hx => ?_, fun x hx => accounts_closed marking (hs.settled x hx),
      fun v t today hv => ?_, fun v t today hv => ?_, hs.executing⟩
    · rcases hs.accounted x hx with hexecuting | ⟨r, hr, hrid, hdone⟩
      · exact .inl hexecuting
      · refine .inr ⟨r, mem_update.mpr ⟨r, hr, .inr ⟨fun h => ?_, rfl⟩⟩, hrid, hdone⟩
        exact hothers x hx (hrid.symm.trans h)
    · rw [hids]
      exact hs.known x hx
    · rw [hids]
      exact hs.sought v t today hv
    · rw [hids]
      obtain ⟨hknown, hnot, hnone⟩ := hs.claimed v t today hv
      exact ⟨hknown, accounts_closed marking hnot, hnone⟩

end Accounts

section Pace

variable {maxDailyTasks : Nat} {s s' : Curiosity} {e : CuriosityEvent}

/-- While no cycle runs, everything that was executed on a day counts for that day. -/
private theorem executedOn_le_count (hs : Accounted s) (hnone : ∀ v, (s.control v).inCycle = false)
    (now : Int) : (executedOn s (now / Curiosity.dayNanos)).length ≤
      s.queue.dailyCompletedCount (Curiosity.startOfDay now) := by
  let counts : ResearchTask → Bool := fun t => decide (t.status = .done) &&
    (t.completedAt.map (decide <| Curiosity.startOfDay now < ·)).getD false
  have honce : ((executedOn s (now / Curiosity.dayNanos)).map (·.id)).Nodup :=
    hs.once.sublist (List.filter_sublist.map _)
  have hcounted : (executedOn s (now / Curiosity.dayNanos)).map (·.id) ⊆
      (s.queue.rows.filter counts).map (·.id) := by
    intro i hi
    obtain ⟨x, hx, rfl⟩ := List.mem_map.mp hi
    obtain ⟨hx, hday⟩ := List.mem_filter.mp hx
    rcases hs.accounted x hx with ⟨v, t, hv, -⟩ | ⟨r, hr, hid, hdone, c, hc, hlater⟩
    · have hidle := hnone v
      rw [hv] at hidle
      cases hidle
    · have hstart : Curiosity.startOfDay now ≤ x.start := by
        rw [Curiosity.startOfDay, ← of_decide_eq_true hday]
        exact Int.ediv_mul_le _ (by decide)
      refine hid ▸ List.mem_map_of_mem (List.mem_filter.mpr ⟨hr, ?_⟩)
      simp only [counts, hdone, hc, Option.map_some, Option.getD_some, decide_true, Bool.true_and]
      exact decide_eq_true (by omega)
  calc (executedOn s (now / Curiosity.dayNanos)).length
      = ((executedOn s (now / Curiosity.dayNanos)).map (·.id)).length := (List.length_map _).symm
    _ ≤ ((s.queue.rows.filter counts).map (·.id)).length := (List.subperm_of_subset honce hcounted).length_le
    _ = s.queue.dailyCompletedCount (Curiosity.startOfDay now) := by
      rw [List.length_map, ← List.countP_eq_length_filter]
      rfl

private theorem today_cases {control : Nat → Control} {v w : Nat} {c : Control} {d : Int}
    (h : (Function.update control w c v).today = some d) :
    (v = w ∧ c.today = some d) ∨ (v ≠ w ∧ (control v).today = some d) := by
  rcases turn_cases (rfl : Function.update control w c v = _) with ⟨hvw, hc⟩ | ⟨hvw, hc⟩
  · rw [← hc] at h
    exact .inl ⟨hvw, h⟩
  · rw [← hc] at h
    exact .inr ⟨hvw, h⟩

/-- A cycle that has yet to execute has room left on the day it checked, and nothing was executed after
its check. -/
private structure Paced (maxDailyTasks : Nat) (s : Curiosity) : Prop where
  room : ∀ w d, (s.control w).today = some d →
    (executedOn s (d / Curiosity.dayNanos)).length < maxDailyTasks ∧
      (∀ x ∈ s.executions, x.start ≤ d) ∧ d ≤ s.clock
  past : ∀ x ∈ s.executions, x.start ≤ s.clock
  daily : WithinDaily maxDailyTasks s

/-- Steps that execute nothing keep the pace when cycles keep the day they checked. -/
private theorem paced_quiet {control : Nat → Control} {queue : ResearchQueue}
    {popped : List (Nat × Uuid)} (hs : Paced maxDailyTasks s)
    (htoday : ∀ w d, (control w).today = some d → (s.control w).today = some d) :
    Paced maxDailyTasks ⟨queue, control, popped, s.executions, s.clock⟩ :=
  ⟨fun w d hd => hs.room w d (htoday w d hd), hs.past, hs.daily⟩

/-- Of the day checked and of a day after it, either has room for one more. -/
private theorem room_at (hs : Paced maxDailyTasks s) {w : Nat} {d now : Int}
    (hd : (s.control w).today = some d) (hnow : s.clock ≤ now) :
    (executedOn s (now / Curiosity.dayNanos)).length < maxDailyTasks := by
  obtain ⟨hroom, hpast, hclock⟩ := hs.room w d hd
  by_cases hday : now / Curiosity.dayNanos = d / Curiosity.dayNanos
  · rw [hday]
    exact hroom
  · have hempty : executedOn s (now / Curiosity.dayNanos) = [] := by
      refine List.filter_eq_nil_iff.mpr fun x hx hsame => hday ?_
      have hle : now / Curiosity.dayNanos ≤ d / Curiosity.dayNanos := by
        rw [← of_decide_eq_true hsame]
        exact Int.ediv_le_ediv (by decide) (hpast x hx)
      have hge : d / Curiosity.dayNanos ≤ now / Curiosity.dayNanos :=
        Int.ediv_le_ediv (by decide) (hclock.trans hnow)
      exact Int.le_antisymm hle hge
    rw [hempty]
    exact Nat.zero_lt_of_lt hroom

private theorem paced_effect (h : Effect maxDailyTasks s e s') (hc : OneAtATime s e) (halone : Alone s)
    (haccounted : Accounted s) (hs : Paced maxDailyTasks s) : Paced maxDailyTasks s' := by
  cases h with
  | stay e => exact hs
  | look e w c clock free looking found today ticks =>
    have hclock : s.clock ≤ clock := by
      rcases ticks with rfl | ⟨gaps, rfl⟩
      · exact Int.le_refl _
      · exact hc.2.1
    refine ⟨fun v d hd => ?_, fun x hx => (hs.past x hx).trans hclock, hs.daily⟩
    rcases today_cases hd with ⟨rfl, hmine⟩ | ⟨-, hd⟩
    · rcases today d hmine with hsame | ⟨gaps, rfl, rfl, hlimit⟩
      · obtain ⟨hroom, hpast, hle⟩ := hs.room _ d hsame
        exact ⟨hroom, hpast, hle.trans hclock⟩
      · refine ⟨?_, fun x hx => (hs.past x hx).trans hclock, Int.le_refl _⟩
        exact (executedOn_le_count haccounted hc.2.2 clock).trans_lt hlimit
    · obtain ⟨hroom, hpast, hle⟩ := hs.room v d hd
      exact ⟨hroom, hpast, hle.trans hclock⟩
  | insert w id now task resume stands fresh =>
    refine paced_quiet hs fun v d hd => ?_
    rcases today_cases hd with ⟨rfl, hmine⟩ | ⟨-, hd⟩
    · rw [stands]
      cases resume with
      | none => cases hmine
      | some r => exact hmine
    · exact hd
  | claim w t today stands =>
    refine paced_quiet hs fun v d hd => ?_
    rcases today_cases hd with ⟨rfl, hmine⟩ | ⟨-, hd⟩
    · rw [stands]
      cases today with
      | none => cases hmine
      | some d => exact hmine
    · exact hd
  | execute w now t today stands =>
    have htoday : (s.control w).today = some today := by rw [stands]; rfl
    refine ⟨fun v d hd => ?_, fun x hx => ?_, fun day => ?_⟩
    · rcases today_cases hd with ⟨rfl, hmine⟩ | ⟨hvw, hd⟩
      · cases hmine
      · exact absurd (halone v w (inCycle_of_today hd) (inCycle_of_today htoday)) hvw
    · rcases List.mem_cons.mp hx with rfl | hx
      · exact Int.le_refl _
      · exact (hs.past x hx).trans hc.2
    · have hroom := room_at hs htoday hc.2
      unfold executedOn at hroom ⊢
      rw [List.filter_cons]
      split
      · next hday =>
        rw [← of_decide_eq_true hday, List.length_cons]
        exact hroom
      · exact hs.daily day
  | finish w t start f e stands marking event =>
    refine paced_quiet hs fun v d hd => ?_
    rcases today_cases hd with ⟨rfl, hmine⟩ | ⟨-, hd⟩
    · cases hmine
    · exact hd
  | drop e control dropped =>
    refine paced_quiet hs fun v d hd => ?_
    rcases dropped v with hsame | ⟨hidle, -⟩
    · rwa [hsame] at hd
    · rw [hidle] at hd
      cases hd
  | mark id f e marking event => exact paced_quiet hs fun v d hd => hd

/-- What one cycle at a time keeps. -/
private structure AtPace (maxDailyTasks : Nat) (s : Curiosity) : Prop where
  alone : Alone s
  accounted : Accounted s
  paced : Paced maxDailyTasks s

private theorem atPace_start (maxDailyTasks : Nat) : AtPace maxDailyTasks Curiosity.start := by
  refine ⟨fun v w hv => ?_, ⟨List.nodup_nil, fun x hx => ?_, fun x hx => ?_, fun x hx => ?_,
    fun w t today hw => ?_, fun w t today hw => ?_, fun w t start hw => ?_⟩,
    ⟨fun w d hd => ?_, fun x hx => ?_, fun day => Nat.zero_le _⟩⟩
  · cases hv
  · cases hx
  · cases hx
  · cases hx
  · cases hw
  · cases hw
  · cases hw
  · cases hd
  · cases hx

private theorem atPace_effect (h : Effect maxDailyTasks s e s') (hc : OneAtATime s e)
    (hs : AtPace maxDailyTasks s) : AtPace maxDailyTasks s' where
  alone := alone_effect h hc hs.alone
  accounted := accounted_effect h hc hs.alone hs.accounted
  paced := paced_effect h hc hs.alone hs.accounted hs.paced

end Pace

section Runs

variable (order : PriorityOrder) (maxDailyTasks : Nat)

/-- A step, as a move that emits nothing. -/
def Curiosity.move (s : Curiosity) (e : CuriosityEvent) : Curiosity × List Unit :=
  (s.step order maxDailyTasks e, [])

/-- Where events lead from an empty queue. -/
def Curiosity.after (events : List CuriosityEvent) : Curiosity :=
  (run (Curiosity.move order maxDailyTasks) Curiosity.start events).1

/-- Every event of a run meets a condition where it happens. -/
def Curiosity.Met (C : Curiosity → CuriosityEvent → Prop) (events : List CuriosityEvent) : Prop :=
  ∀ p ∈ visited (Curiosity.move order maxDailyTasks) Curiosity.start events, C p.1 p.2

variable {order maxDailyTasks}

private theorem after_of_met (C : Curiosity → CuriosityEvent → Prop) (Inv : Curiosity → Prop)
    (init : Inv Curiosity.start)
    (keep : ∀ s s' e, Effect maxDailyTasks s e s' → C s e → Inv s → Inv s')
    {events : List CuriosityEvent} (h : Curiosity.Met order maxDailyTasks C events) :
    Inv (Curiosity.after order maxDailyTasks events) :=
  run_invariant_of C (fun s _ => Inv s) init
    (fun s _ e hc hs => keep s _ e (step_effect order maxDailyTasks s e) hc hs) events h

private def firstId : Uuid := Uuid.ofNat 1

private def secondId : Uuid := Uuid.ofNat 2

/-- A cycle that researches one topic from its push to its mark. -/
private def quietDay : List CuriosityEvent :=
  [.push 0 ['a'] 5 "chat", .insert 0 firstId 0, .startCycle 0 10 [], .popForCycle 0, .claim 0,
    .execute 0 11, .succeed 0 12]

private theorem met_cons {C : Curiosity → CuriosityEvent → Prop} {s : Curiosity} {e : CuriosityEvent}
    {events : List CuriosityEvent} (h : C s e)
    (hrest : ∀ p ∈ visited (Curiosity.move order maxDailyTasks) (s.step order maxDailyTasks e) events,
      C p.1 p.2) :
    ∀ p ∈ visited (Curiosity.move order maxDailyTasks) s (e :: events), C p.1 p.2 :=
  List.forall_mem_cons.mpr ⟨h, hrest⟩

/-- A condition on the run, met event by event. -/
private theorem quietDay_met {C : Curiosity → CuriosityEvent → Prop}
    (hfree : ∀ s e, ClaimsPending s e → e = .push 0 ['a'] 5 "chat" ∨ e = .popForCycle 0 ∨ e = .claim 0 →
      C s e)
    (hinsert : C (Curiosity.after .stable 1 (quietDay.take 1)) (.insert 0 firstId 0))
    (hstart : C (Curiosity.after .stable 1 (quietDay.take 2)) (.startCycle 0 10 []))
    (hexecute : C (Curiosity.after .stable 1 (quietDay.take 5)) (.execute 0 11))
    (hsucceed : C (Curiosity.after .stable 1 (quietDay.take 6)) (.succeed 0 12)) :
    Curiosity.Met .stable 1 C quietDay := by
  unfold Curiosity.Met quietDay
  refine met_cons (hfree _ _ trivial (.inl rfl)) <| met_cons hinsert <| met_cons hstart <|
    met_cons (hfree _ _ trivial (.inr (.inl rfl))) <| met_cons (hfree _ _ ?_ (.inr (.inr rfl))) <|
    met_cons hexecute <| met_cons hsucceed fun p hp => by cases hp
  intro t today hw r hr hid
  rw [List.mem_singleton.mp hr]
  rfl

end Runs

end Gyre.Cognitive
