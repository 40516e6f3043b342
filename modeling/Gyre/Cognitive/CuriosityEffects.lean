/- digest: What a step of the curiosity cycles can do to the queue and its callers. -/

import Gyre.Cognitive.CuriosityCycle

set_option autoImplicit false
set_option relaxedAutoImplicit false

namespace Gyre.Cognitive

open Gyre.Lib Gyre.Llm

section Positions

namespace Control

/-- The task that a cycle has popped and not yet marked. -/
def held : Control → Option Uuid
  | claimed t _ => some t.id
  | executing t _ => some t.id
  | _ => none

/-- When a cycle that has not yet begun to execute checked the daily limit. -/
def today : Control → Option Int
  | inserting _ resume => resume.map Prod.snd
  | checked _ today => some today
  | claiming _ today => today
  | claimed _ today => some today
  | _ => none

def isExecuting : Control → Bool
  | executing _ _ => true
  | _ => false

/-- Somewhere inside of a cycle. -/
def inCycle (c : Control) : Bool := c.today.isSome || c.isExecuting

/-- Where an insertion goes on. -/
def resumed (resume : Option (List GapTask × Int)) : Control :=
  (resume.map fun r => checked r.1 r.2).getD idle

/-- Where a claim goes on. -/
def afterClaim (t : ResearchTask) (today : Option Int) : Control :=
  (today.map fun d => claimed t d).getD idle

end Control

end Positions

section Effects

variable {order : PriorityOrder} {maxDailyTasks : Nat} {s s' : Curiosity} {e : CuriosityEvent}

/-- How a task is marked: as done at a time, or as failed once more. -/
inductive Marking : (ResearchTask → ResearchTask) → Prop
  | done (completedAt : Int) :
    Marking fun t => { t with status := .done, completedAt := some completedAt }
  | failed (reason : List Char) : Marking (ResearchQueue.failOnce reason)

theorem Marking.frame {f : ResearchTask → ResearchTask} (h : Marking f) (t : ResearchTask) :
    (f t).id = t.id ∧ (f t).topic = t.topic ∧ (f t).status.isOpen = false := by
  cases h with
  | done completedAt => exact ⟨rfl, rfl, rfl⟩
  | failed reason =>
    refine ⟨rfl, rfl, ?_⟩
    unfold ResearchQueue.failOnce
    dsimp only
    split <;> rfl

/-- What a step can do, once its guards are met. -/
inductive Effect (maxDailyTasks : Nat) (s : Curiosity) : CuriosityEvent → Curiosity → Prop
  | stay (e : CuriosityEvent) : Effect maxDailyTasks s e s
  | look (e : CuriosityEvent) (w : Nat) (c : Control) (clock : Int)
      (free : (s.control w).held = none) (looking : c.held = none)
      (found : ∀ t today, c = .claiming t today → t ∈ s.queue.pending)
      (today : ∀ d, c.today = some d → (s.control w).today = some d ∨
        ∃ gaps, e = .startCycle w d gaps ∧ clock = d ∧
          s.queue.dailyCompletedCount (Curiosity.startOfDay d) < maxDailyTasks)
      (ticks : clock = s.clock ∨ ∃ gaps, e = .startCycle w clock gaps) :
      Effect maxDailyTasks s e { s with control := Function.update s.control w c, clock := clock }
  | insert (w : Nat) (id : Uuid) (now : Int) (task : GapTask) (resume : Option (List GapTask × Int))
      (stands : s.control w = .inserting task resume) (fresh : id ∉ s.queue.rows.map (·.id)) :
      Effect maxDailyTasks s (.insert w id now)
        { s with
          queue := ⟨s.queue.rows ++
            [ResearchQueue.newTask id now task.topic task.priority task.source]⟩
          control := Function.update s.control w (Control.resumed resume) }
  | claim (w : Nat) (t : ResearchTask) (today : Option Int) (stands : s.control w = .claiming t today) :
      Effect maxDailyTasks s (.claim w)
        { s with
          queue := s.queue.claim t.id
          control := Function.update s.control w (Control.afterClaim t today)
          popped := (today.map fun _ => (w, t.id)).toList ++ s.popped }
  | execute (w : Nat) (now : Int) (t : ResearchTask) (today : Int)
      (stands : s.control w = .claimed t today) :
      Effect maxDailyTasks s (.execute w now)
        { s with
          control := Function.update s.control w (.executing t now)
          executions := ⟨t.id, t.topic, now, Curiosity.barred s.queue t.topic⟩ :: s.executions
          clock := now }
  | finish (w : Nat) (t : ResearchTask) (start : Int) (f : ResearchTask → ResearchTask)
      (e : CuriosityEvent) (stands : s.control w = .executing t start) (marking : Marking f)
      (event : (∃ now, e = .succeed w now ∧
          f = fun t => { t with status := .done, completedAt := some now }) ∨
        ∃ reason, e = .fail w reason ∧ f = ResearchQueue.failOnce reason) :
      Effect maxDailyTasks s e
        { s with queue := s.queue.update t.id f, control := Function.update s.control w .idle }
  | drop (e : CuriosityEvent) (control : Nat → Control)
      (dropped : ∀ w, control w = s.control w ∨ (control w = .idle ∧ (e = .stop w ∨ e = .restart))) :
      Effect maxDailyTasks s e { s with control := control }
  | mark (id : Uuid) (f : ResearchTask → ResearchTask) (e : CuriosityEvent) (marking : Marking f)
      (event : (∃ completedAt, e = .markDone id completedAt ∧
          f = fun t => { t with status := .done, completedAt := some completedAt }) ∨
        ∃ reason, e = .markFailed id reason ∧ f = ResearchQueue.failOnce reason) :
      Effect maxDailyTasks s e { s with queue := s.queue.update id f }

/-- An id that no row has leaves the queue as it is. -/
private theorem markFailed_fst (q : ResearchQueue) (id : Uuid) (reason : List Char) :
    (q.markFailed id reason).1 = q.update id (ResearchQueue.failOnce reason) := by
  unfold ResearchQueue.markFailed
  split
  · rfl
  · next hnone =>
    have hsame : (q.update id (ResearchQueue.failOnce reason)).rows = q.rows := by
      rw [ResearchQueue.update]
      refine (List.map_congr_left fun t ht => ?_).trans (List.map_id _)
      refine if_neg fun hid => hnone ?_
      exact List.any_eq_true.mpr ⟨t, ht, beq_iff_eq.mpr hid⟩
    cases q
    exact congrArg ResearchQueue.mk hsame.symm

private theorem look_effect {w : Nat} {c : Control} (e : CuriosityEvent)
    (free : (s.control w).held = none) (looking : c.held = none)
    (found : ∀ t today, c = .claiming t today → t ∈ s.queue.pending)
    (today : ∀ d, c.today = some d → (s.control w).today = some d) :
    Effect maxDailyTasks s e (s.setControl w c) :=
  .look e w c s.clock free looking found (fun d hd => .inl (today d hd)) (.inl rfl)

private theorem lookForTopic_effect {w : Nat} {task : GapTask} {resume : Option (List GapTask × Int)}
    {otherwise : Control} (e : CuriosityEvent) (free : (s.control w).held = none)
    (looking : otherwise.held = none) (found : ∀ t today, otherwise ≠ .claiming t today)
    (hresume : ∀ d, resume.map Prod.snd = some d → (s.control w).today = some d)
    (today : ∀ d, otherwise.today = some d → (s.control w).today = some d) :
    Effect maxDailyTasks s e (s.lookForTopic w task resume otherwise) := by
  unfold Curiosity.lookForTopic
  dsimp only
  split
  · exact look_effect e free looking (fun t d h => absurd h (found t d)) today
  · exact look_effect e free rfl (fun t d h => by cases h) hresume

private theorem lookForTask_effect {w : Nat} {day : Option Int} (e : CuriosityEvent)
    (free : (s.control w).held = none) (today : ∀ d, day = some d → (s.control w).today = some d) :
    Effect maxDailyTasks s e (s.lookForTask order w day) := by
  unfold Curiosity.lookForTask
  split
  · exact look_effect e free rfl (fun t d h => by cases h) fun d hd => by cases hd
  · next t hnext =>
    refine look_effect e free rfl (fun t' d h => ?_) fun d hd => today d hd
    cases h
    exact (order.perm _).mem_iff.mp (List.mem_of_mem_head? hnext)

/-- Every step has one of these effects. -/
theorem step_effect (order : PriorityOrder) (maxDailyTasks : Nat) (s : Curiosity) (e : CuriosityEvent) :
    Effect maxDailyTasks s e (Curiosity.step order maxDailyTasks s e) := by
  cases e with
  | push w topic priority source =>
    simp only [Curiosity.step]
    split
    · next hc =>
      exact lookForTopic_effect _ (by rw [hc]; rfl) rfl (fun t d h => by cases h)
        (fun d hd => by cases hd) fun d hd => by cases hd
    · exact .stay _
  | insert w id now =>
    simp only [Curiosity.step]
    split
    · next task resume hc =>
      unfold ResearchQueue.insert
      split
      · refine look_effect _ (by rw [hc]; rfl) ?_ ?_ ?_
        · cases resume <;> rfl
        · cases resume <;> exact fun t d h => by cases h
        · rw [hc]
          cases resume with
          | none => exact fun d hd => by cases hd
          | some r => exact fun d hd => hd
      · next hfree =>
        refine .insert w id now task resume hc fun hmem => hfree ?_
        obtain ⟨t, ht, hid⟩ := List.mem_map.mp hmem
        exact List.any_eq_true.mpr ⟨t, ht, beq_iff_eq.mpr hid⟩
    · exact .stay _
  | pop w =>
    simp only [Curiosity.step]
    split
    · next hc => exact lookForTask_effect _ (by rw [hc]; rfl) fun d hd => by cases hd
    · exact .stay _
  | claim w =>
    simp only [Curiosity.step]
    split
    · next t hc => exact .claim w t none hc
    · next t today hc => exact .claim w t (some today) hc
    · exact .stay _
  | startCycle w now gaps =>
    simp only [Curiosity.step]
    split
    · next hc =>
      split
      · exact .stay _
      · next hlimit =>
        refine .look _ w _ now (by rw [hc]; rfl) rfl (fun t d h => by cases h) (fun d hd => ?_)
          (.inr ⟨gaps, rfl⟩)
        cases hd
        exact .inr ⟨gaps, rfl, rfl, Nat.lt_of_not_le hlimit⟩
    · exact .stay _
  | enqueueGap w =>
    simp only [Curiosity.step]
    split
    · next gap gaps today hc =>
      exact lookForTopic_effect _ (by rw [hc]; rfl) rfl (fun t d h => by cases h)
        (fun d hd => by rw [hc]; exact hd) fun d hd => by rw [hc]; exact hd
    · exact .stay _
  | popForCycle w =>
    simp only [Curiosity.step]
    split
    · next today hc => exact lookForTask_effect _ (by rw [hc]; rfl) fun d hd => by rw [hc]; exact hd
    · exact .stay _
  | execute w now =>
    simp only [Curiosity.step]
    split
    · next t today hc => exact .execute w now t today hc
    · exact .stay _
  | succeed w now =>
    simp only [Curiosity.step]
    split
    · next t start hc => exact .finish w t start _ _ hc (.done now) (.inl ⟨now, rfl, rfl⟩)
    · exact .stay _
  | fail w reason =>
    simp only [Curiosity.step]
    split
    · next t start hc =>
      rw [markFailed_fst]
      exact .finish w t start _ _ hc (.failed reason) (.inr ⟨reason, rfl, rfl⟩)
    · exact .stay _
  | stop w =>
    refine .drop _ _ fun v => ?_
    by_cases hv : v = w
    · subst hv
      exact .inr ⟨Function.update_self .., .inl rfl⟩
    · exact .inl (Function.update_of_ne hv ..)
  | restart => exact .drop _ _ fun v => .inr ⟨rfl, .inr rfl⟩
  | markDone id completedAt => exact .mark id _ _ (.done completedAt) (.inl ⟨completedAt, rfl, rfl⟩)
  | markFailed id reason =>
    simp only [Curiosity.step]
    rw [markFailed_fst]
    exact .mark id _ _ (.failed reason) (.inr ⟨reason, rfl, rfl⟩)

end Effects

section Updates

variable {q : ResearchQueue} {id : Uuid} {f : ResearchTask → ResearchTask}

theorem mem_update {t : ResearchTask} :
    t ∈ (q.update id f).rows ↔ ∃ r ∈ q.rows, (r.id = id ∧ f r = t) ∨ (r.id ≠ id ∧ r = t) := by
  simp only [ResearchQueue.update, List.mem_map]
  refine exists_congr fun r => and_congr_right fun _ => ?_
  by_cases hid : r.id = id
  · simp [hid]
  · simp [hid]

theorem update_ids (hf : ∀ t, (f t).id = t.id) :
    (q.update id f).rows.map (·.id) = q.rows.map (·.id) := by
  rw [ResearchQueue.update, List.map_map]
  refine List.map_congr_left fun t _ => ?_
  rw [Function.comp_apply]
  split
  · exact hf t
  · rfl

end Updates

section Turns

variable {control : Nat → Control} {v w : Nat} {c x : Control}

theorem turn_cases (h : Function.update control w c v = x) :
    (v = w ∧ c = x) ∨ (v ≠ w ∧ control v = x) := by
  by_cases hvw : v = w
  · subst hvw
    rw [Function.update_self] at h
    exact .inl ⟨rfl, h⟩
  · rw [Function.update_of_ne hvw] at h
    exact .inr ⟨hvw, h⟩

theorem turn_self (h : c = x) : Function.update control w c w = x :=
  (Function.update_self ..).trans h

theorem turn_other (hvw : v ≠ w) (h : control v = x) : Function.update control w c v = x :=
  (Function.update_of_ne hvw ..).trans h

/-- What another caller holds stays with it. -/
theorem held_turn {i : Uuid} (hvw : v ≠ w) (h : (control v).held = some i) :
    (Function.update control w c v).held = some i := by
  rw [Function.update_of_ne hvw]
  exact h

end Turns

end Gyre.Cognitive
