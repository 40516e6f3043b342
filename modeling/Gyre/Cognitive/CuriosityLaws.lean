/- digest: The laws of the research queue under curiosity cycles, each with what it needs of a run. -/

import Gyre.Cognitive.CuriosityEffects

/-!
Nothing puts a failed task back, nothing takes back a task whose cycle ended early, and only tasks
that were completed count for the day; so each law holds of the runs that keep clear of its gap.
-/

set_option autoImplicit false
set_option relaxedAutoImplicit false

namespace Gyre.Cognitive

open Gyre.Lib Gyre.Llm

section Laws

def ResearchQueue.openTopics (q : ResearchQueue) : List (List Char) :=
  (q.rows.filter (·.status.isOpen)).map (·.topic)

/-- At most one task of a topic is pending or in progress. -/
def OneOpen (s : Curiosity) : Prop := s.queue.openTopics.Nodup

/-- A task in progress is held by the cycle that popped it. -/
def InProgressHeld (s : Curiosity) : Prop :=
  ∀ p ∈ s.popped, ∀ t ∈ s.queue.rows, t.id = p.2 → t.status = .inProgress →
    (s.control p.1).held = some p.2

/-- A task that failed can be popped again, its attempts kept. -/
def FailedReturn (s : Curiosity) : Prop :=
  ∀ t ∈ s.queue.rows, t.status = .failed → t.attempts < maxAttempts →
    ∃ again ∈ s.queue.pending, again.topic = t.topic ∧ again.attempts = t.attempts

/-- No task was executed while one of its topic was exhausted. -/
def ExhaustedRest (s : Curiosity) : Prop := ∀ e ∈ s.executions, e.barred = false

/-- The executions that began on a day. -/
def executedOn (s : Curiosity) (day : Int) : List Execution :=
  s.executions.filter fun e => e.start / Curiosity.dayNanos = day

def WithinDaily (maxDailyTasks : Nat) (s : Curiosity) : Prop :=
  ∀ day, (executedOn s day).length ≤ maxDailyTasks

end Laws

section Conditions

/-- A pop claims a task that is still pending. -/
def ClaimsPending (s : Curiosity) : CuriosityEvent → Prop
  | .claim w => ∀ t today, s.control w = .claiming t today →
      ∀ r ∈ s.queue.rows, r.id = t.id → r.status = .pending
  | _ => True

/-- And a push inserts a topic of which still no task is open. -/
def PushesAlone (s : Curiosity) (e : CuriosityEvent) : Prop :=
  ClaimsPending s e ∧
  match e with
  | .insert w _ _ => ∀ task resume, s.control w = .inserting task resume →
      s.queue.openTask task.topic = none
  | _ => True

/-- And no cycle is ended while it holds a task. -/
def CyclesFinish (s : Curiosity) (e : CuriosityEvent) : Prop :=
  ClaimsPending s e ∧
  match e with
  | .stop w => (s.control w).held = none
  | .restart => ∀ w, (s.control w).held = none
  | _ => True

/-- A task that is marked as failed is exhausted. -/
def NothingFails (s : Curiosity) : CuriosityEvent → Prop
  | .fail w _ => ∀ t start, s.control w = .executing t start →
      ∀ r ∈ s.queue.rows, r.id = t.id → maxAttempts ≤ r.attempts + 1
  | .markFailed id _ => ∀ r ∈ s.queue.rows, r.id = id → maxAttempts ≤ r.attempts + 1
  | _ => True

/-- A task of the id that is exhausted by one more failure leaves no other task of its topic open, or
popped and not yet executed. -/
def LeavesNone (s : Curiosity) (id : Uuid) : Prop :=
  ∀ r ∈ s.queue.rows, r.id = id → maxAttempts ≤ r.attempts + 1 →
    (∀ other ∈ s.queue.rows, other.topic = r.topic → other.id ≠ id → other.status.isOpen = false) ∧
    ∀ v t today, s.control v = .claimed t today → t.topic ≠ r.topic

/-- Pops claim pending tasks, no topic with an exhausted task is pushed, and exhaustion leaves no task
of the topic behind. -/
def ExhaustedShunned (s : Curiosity) (e : CuriosityEvent) : Prop :=
  ClaimsPending s e ∧
  match e with
  | .insert w _ _ => ∀ task resume, s.control w = .inserting task resume →
      Curiosity.barred s.queue task.topic = false
  | .fail w _ => ∀ t start, s.control w = .executing t start → LeavesNone s t.id
  | .markFailed id _ => LeavesNone s id
  | _ => True

/-- Cycles run one at a time, by a clock that does not go back; what a cycle begins to execute succeeds
later on; and other callers mark none of it. -/
def OneAtATime (s : Curiosity) (e : CuriosityEvent) : Prop :=
  ClaimsPending s e ∧
  match e with
  | .startCycle _ now _ => s.clock ≤ now ∧ ∀ v, (s.control v).inCycle = false
  | .execute _ now => s.clock ≤ now
  | .succeed w now => ∀ t start, s.control w = .executing t start → start < now
  | .fail w _ | .stop w => (s.control w).isExecuting = false
  | .restart => ∀ v, (s.control v).isExecuting = false
  | .markDone id _ | .markFailed id _ => ∀ x ∈ s.executions, x.id ≠ id
  | _ => True

end Conditions

section Updates

variable {q : ResearchQueue} {id : Uuid} {f : ResearchTask → ResearchTask}

private theorem openTopics_marked (hf : Marking f) : (q.update id f).openTopics.Sublist q.openTopics := by
  have hrows (rows : List ResearchTask) :
      ((rows.map fun t => if t.id = id then f t else t).filter (·.status.isOpen)).map (·.topic) |>.Sublist
        ((rows.filter (·.status.isOpen)).map (·.topic)) := by
    induction rows with
    | nil => exact List.Sublist.slnil
    | cons t rest ih =>
      by_cases hid : t.id = id
      · simp only [List.map_cons, hid, if_true, List.filter_cons, (hf.frame t).2.2, Bool.false_eq_true,
          if_false]
        split
        · exact ih.cons _
        · exact ih
      · simp only [List.map_cons, hid, if_false, List.filter_cons]
        split
        · exact ih.cons_cons _
        · exact ih
  exact hrows q.rows

private theorem openTopics_claim (h : ∀ r ∈ q.rows, r.id = id → r.status = .pending) :
    (q.claim id).openTopics = q.openTopics := by
  have hrows (rows : List ResearchTask) (h : ∀ r ∈ rows, r.id = id → r.status = .pending) :
      ((rows.map fun t => if t.id = id then { t with status := .inProgress } else t).filter
        (·.status.isOpen)).map (·.topic) = (rows.filter (·.status.isOpen)).map (·.topic) := by
    induction rows with
    | nil => rfl
    | cons t rest ih =>
      have hrest := ih fun r hr => h r (List.mem_cons_of_mem t hr)
      by_cases hid : t.id = id
      · have hpending := h t List.mem_cons_self hid
        simp only [List.map_cons, hid, if_true, List.filter_cons, hpending, TaskStatus.isOpen]
        exact congrArg (t.topic :: ·) hrest
      · simp only [List.map_cons, hid, if_false, List.filter_cons]
        split
        · rw [List.map_cons, List.map_cons, hrest]
        · exact hrest
  exact hrows q.rows h

end Updates

section Keeping

variable {maxDailyTasks : Nat} {s s' : Curiosity} {e : CuriosityEvent}

theorem oneOpen_effect (h : Effect maxDailyTasks s e s') (hc : PushesAlone s e) (hs : OneOpen s) :
    OneOpen s' := by
  cases h with
  | stay e => exact hs
  | look e w c clock => exact hs
  | insert w id now task resume stands fresh =>
    have hfree := List.find?_eq_none.mp (hc.2 task resume stands)
    unfold OneOpen ResearchQueue.openTopics at hs ⊢
    rw [List.filter_append, List.map_append, List.nodup_append]
    refine ⟨hs, List.nodup_singleton _, fun a ha b hb heq => ?_⟩
    obtain ⟨t, ht, rfl⟩ := List.mem_map.mp ha
    have htopic : t.topic = task.topic := heq.trans (List.mem_singleton.mp hb)
    obtain ⟨hrow, hopen⟩ := List.mem_filter.mp ht
    exact hfree t hrow (by simp [htopic, hopen])
  | claim w t today stands =>
    unfold OneOpen
    rw [openTopics_claim (hc.1 t today stands)]
    exact hs
  | execute w now t today stands => exact hs
  | finish w t start f e stands marking event => exact (openTopics_marked marking).nodup hs
  | drop e control dropped => exact hs
  | mark id f e marking event => exact (openTopics_marked marking).nodup hs

/-- What cycles popped is there, is not pending again, and is held while it is in progress. -/
structure PopsHeld (s : Curiosity) : Prop where
  sought : ∀ w t today, s.control w = .claiming t today → t.id ∈ s.queue.rows.map (·.id)
  known : ∀ p ∈ s.popped, p.2 ∈ s.queue.rows.map (·.id)
  claimed : ∀ p ∈ s.popped, ∀ t ∈ s.queue.rows, t.id = p.2 → t.status ≠ .pending
  held : InProgressHeld s

theorem popsHeld_start : PopsHeld Curiosity.start where
  sought := fun w t today hw => by cases hw
  known := fun p hp => by cases hp
  claimed := fun p hp => by cases hp
  held := fun p hp => by cases hp

private theorem not_isOpen {status : TaskStatus} (h : status.isOpen = false) :
    status ≠ .pending ∧ status ≠ .inProgress := by
  cases status <;> simp_all [TaskStatus.isOpen]

private theorem popsHeld_marked {f : ResearchTask → ResearchTask} {id : Uuid} {control : Nat → Control}
    (hf : Marking f) (hs : PopsHeld s)
    (hsought : ∀ w t today, control w = .claiming t today → s.control w = .claiming t today)
    (hheld : ∀ w i, i ≠ id → (s.control w).held = some i → (control w).held = some i) :
    PopsHeld { s with queue := s.queue.update id f, control := control } := by
  have hids : (s.queue.update id f).rows.map (·.id) = s.queue.rows.map (·.id) :=
    update_ids fun t => (hf.frame t).1
  refine ⟨fun w t today hw => ?_, fun p hp => ?_, fun p hp t ht hid => ?_, fun p hp t ht hid hprogress => ?_⟩
  · rw [hids]
    exact hs.sought w t today (hsought w t today hw)
  · rw [hids]
    exact hs.known p hp
  · obtain ⟨r, hr, ⟨-, rfl⟩ | ⟨-, rfl⟩⟩ := mem_update.mp ht
    · exact (not_isOpen (hf.frame r).2.2).1
    · exact hs.claimed p hp r hr hid
  · obtain ⟨r, hr, ⟨-, rfl⟩ | ⟨hne, rfl⟩⟩ := mem_update.mp ht
    · exact absurd hprogress (not_isOpen (hf.frame r).2.2).2
    · exact hheld p.1 p.2 (hid ▸ hne) (hs.held p hp r hr hid hprogress)

theorem popsHeld_effect (h : Effect maxDailyTasks s e s') (hc : CyclesFinish s e)
    (hs : PopsHeld s) : PopsHeld s' := by
  cases h with
  | stay e => exact hs
  | look e w c clock free looking found =>
    refine ⟨fun v t today hv => ?_, hs.known, hs.claimed, fun p hp t ht hid hprogress => ?_⟩
    · rcases turn_cases hv with ⟨-, hv⟩ | ⟨-, hv⟩
      · exact List.mem_map_of_mem (List.mem_filter.mp (found t today hv)).1
      · exact hs.sought v t today hv
    · have hheld := hs.held p hp t ht hid hprogress
      have hother : p.1 ≠ w := by
        rintro rfl
        rw [free] at hheld
        cases hheld
      exact held_turn hother hheld
  | insert w id now task resume stands fresh =>
    refine ⟨fun v t today hv => ?_, fun p hp => ?_, fun p hp t ht hid => ?_,
      fun p hp t ht hid hprogress => ?_⟩
    · rw [List.map_append]
      rcases turn_cases hv with ⟨-, hv⟩ | ⟨-, hv⟩
      · cases resume <;> cases hv
      · exact List.mem_append_left _ (hs.sought v t today hv)
    · rw [List.map_append]
      exact List.mem_append_left _ (hs.known p hp)
    · rcases List.mem_append.mp ht with ht | ht
      · exact hs.claimed p hp t ht hid
      · rw [List.mem_singleton.mp ht] at hid
        have hsame : id = p.2 := hid
        exact absurd (hsame ▸ hs.known p hp) fresh
    · rcases List.mem_append.mp ht with ht | ht
      · have hheld := hs.held p hp t ht hid hprogress
        have hother : p.1 ≠ w := by
          rintro rfl
          rw [stands] at hheld
          cases hheld
        exact held_turn hother hheld
      · rw [List.mem_singleton.mp ht] at hid
        have hsame : id = p.2 := hid
        exact absurd (hsame ▸ hs.known p hp) fresh
  | claim w t today stands =>
    have hpending := hc.1 t today stands
    have hids : (s.queue.claim t.id).rows.map (·.id) = s.queue.rows.map (·.id) := update_ids fun _ => rfl
    have hnew {p : Nat × Uuid} (hp : p ∈ (today.map fun _ => (w, t.id)).toList ++ s.popped) :
        (p = (w, t.id) ∧ today ≠ none) ∨ p ∈ s.popped := by
      rcases List.mem_append.mp hp with hp | hp
      · cases today with
        | none => cases hp
        | some d => exact .inl ⟨List.mem_singleton.mp hp, Option.some_ne_none d⟩
      · exact .inr hp
    refine ⟨fun v t' today' hv => ?_, fun p hp => ?_, fun p hp r hr hid => ?_,
      fun p hp r hr hid hprogress => ?_⟩
    · rw [hids]
      rcases turn_cases hv with ⟨-, hv⟩ | ⟨-, hv⟩
      · cases today <;> cases hv
      · exact hs.sought v t' today' hv
    · rw [hids]
      rcases hnew hp with ⟨rfl, -⟩ | hp
      · exact hs.sought w t today stands
      · exact hs.known p hp
    · obtain ⟨x, hx, ⟨-, rfl⟩ | ⟨hne, rfl⟩⟩ := mem_update.mp hr
      · exact fun h => by cases h
      · rcases hnew hp with ⟨rfl, -⟩ | hp
        · exact absurd hid hne
        · exact hs.claimed p hp x hx hid
    · obtain ⟨x, hx, ⟨hxid, rfl⟩ | ⟨hne, rfl⟩⟩ := mem_update.mp hr
      · rcases hnew hp with ⟨rfl, hcycle⟩ | hp
        · cases today with
          | none => exact absurd rfl hcycle
          | some d => exact congrArg Control.held (turn_self rfl)
        · exact absurd (hpending x hx hxid) (hs.claimed p hp x hx hid)
      · rcases hnew hp with ⟨rfl, -⟩ | hp
        · exact absurd hid hne
        · have hheld := hs.held p hp x hx hid hprogress
          have hother : p.1 ≠ w := by
            rintro rfl
            rw [stands] at hheld
            cases hheld
          exact held_turn hother hheld
  | execute w now t today stands =>
    refine ⟨fun v t' today' hv => ?_, hs.known, hs.claimed, fun p hp r hr hid hprogress => ?_⟩
    · rcases turn_cases hv with ⟨-, hv⟩ | ⟨-, hv⟩
      · cases hv
      · exact hs.sought v t' today' hv
    · have hheld := hs.held p hp r hr hid hprogress
      by_cases hvw : p.1 = w
      · rw [hvw, stands] at hheld
        exact hvw ▸ (congrArg Control.held (turn_self rfl)).trans hheld
      · exact held_turn hvw hheld
  | finish w t start f e stands marking event =>
    refine popsHeld_marked marking hs (fun v t' today hv => ?_) fun v i hne hheld => ?_
    · rcases turn_cases hv with ⟨-, hv⟩ | ⟨-, hv⟩
      · cases hv
      · exact hv
    · have hother : v ≠ w := by
        rintro rfl
        rw [stands] at hheld
        exact hne (Option.some.inj hheld).symm
      exact held_turn hother hheld
  | drop e control dropped =>
    refine ⟨fun v t today hv => ?_, hs.known, hs.claimed, fun p hp t ht hid hprogress => ?_⟩
    · rcases dropped v with hsame | ⟨hidle, -⟩
      · exact hs.sought v t today (hsame.symm.trans hv)
      · exact absurd (hidle.symm.trans hv) fun h => by cases h
    · have hheld := hs.held p hp t ht hid hprogress
      rcases dropped p.1 with hsame | ⟨-, rfl | rfl⟩
      · exact (congrArg Control.held hsame).trans hheld
      · rw [hc.2] at hheld
        cases hheld
      · rw [hc.2 p.1] at hheld
        cases hheld
  | mark id f e marking event => exact popsHeld_marked marking hs (fun _ _ _ h => h) fun _ _ _ h => h

/-- No task is left as failed. -/
def NoneFailed (s : Curiosity) : Prop := ∀ t ∈ s.queue.rows, t.status ≠ .failed

theorem noneFailed_effect (h : Effect maxDailyTasks s e s') (hc : NothingFails s e)
    (hs : NoneFailed s) : NoneFailed s' := by
  have hmarked {id : Uuid} {f : ResearchTask → ResearchTask}
      (hf : (∃ now : Int, f = fun t => { t with status := .done, completedAt := some now }) ∨
        ((∃ reason, f = ResearchQueue.failOnce reason) ∧
          ∀ r ∈ s.queue.rows, r.id = id → maxAttempts ≤ r.attempts + 1)) :
      ∀ t ∈ (s.queue.update id f).rows, t.status ≠ .failed := by
    intro t ht
    obtain ⟨r, hr, ⟨hid, rfl⟩ | ⟨-, rfl⟩⟩ := mem_update.mp ht
    · rcases hf with ⟨now, rfl⟩ | ⟨⟨reason, rfl⟩, hlast⟩
      · exact fun h => by cases h
      · simp [ResearchQueue.failOnce, hlast r hr hid]
    · exact hs r hr
  cases h with
  | stay e => exact hs
  | look e w c clock => exact hs
  | insert w id now task resume stands fresh =>
    intro t ht
    rcases List.mem_append.mp ht with ht | ht
    · exact hs t ht
    · rw [List.mem_singleton.mp ht]
      exact fun h => by cases h
  | claim w t today stands =>
    intro r hr
    obtain ⟨x, hx, ⟨-, rfl⟩ | ⟨-, rfl⟩⟩ := mem_update.mp hr
    · exact fun h => by cases h
    · exact hs x hx
  | execute w now t today stands => exact hs
  | finish w t start f e stands marking event =>
    rcases event with ⟨now, rfl, hf⟩ | ⟨reason, rfl, hf⟩
    · exact hmarked (.inl ⟨now, hf⟩)
    · exact hmarked (.inr ⟨⟨reason, hf⟩, hc t start stands⟩)
  | drop e control dropped => exact hs
  | mark id f e marking event =>
    rcases event with ⟨now, rfl, hf⟩ | ⟨reason, rfl, hf⟩
    · exact hmarked (.inl ⟨now, hf⟩)
    · exact hmarked (.inr ⟨⟨reason, hf⟩, hc⟩)

/-- A topic with an exhausted task has no task that is open, or popped and yet to be executed. -/
structure Shunned (s : Curiosity) : Prop where
  rest : ∀ x ∈ s.queue.rows, x.status = .exhausted →
    ∀ t ∈ s.queue.rows, t.topic = x.topic → t.status.isOpen = false
  claimed : ∀ w t today, s.control w = .claimed t today →
    ∀ x ∈ s.queue.rows, x.status = .exhausted → x.topic ≠ t.topic
  sought : ∀ w t today, s.control w = .claiming t today →
    ∃ r ∈ s.queue.rows, r.id = t.id ∧ r.topic = t.topic
  record : ExhaustedRest s

theorem shunned_start : Shunned Curiosity.start where
  rest := fun x hx => by cases hx
  claimed := fun w t today hw => by cases hw
  sought := fun w t today hw => by cases hw
  record := fun x hx => by cases hx

private theorem barred_eq_false {q : ResearchQueue} {topic : List Char} :
    Curiosity.barred q topic = false ↔ ∀ x ∈ q.rows, x.status = .exhausted → x.topic ≠ topic := by
  unfold Curiosity.barred
  rw [List.any_eq_false]
  refine forall₂_congr fun x _ => ?_
  simp only [Bool.and_eq_true, beq_iff_eq, decide_eq_true_eq, not_and]
  exact ⟨fun h hx ht => h ht hx, fun h ht hx => h hx ht⟩

private theorem sought_update {q : ResearchQueue} {id i : Uuid} {topic : List Char}
    {f : ResearchTask → ResearchTask} (hf : ∀ t, (f t).id = t.id ∧ (f t).topic = t.topic)
    (h : ∃ r ∈ q.rows, r.id = i ∧ r.topic = topic) :
    ∃ r ∈ (q.update id f).rows, r.id = i ∧ r.topic = topic := by
  obtain ⟨r, hr, hid, htopic⟩ := h
  by_cases hrid : r.id = id
  · exact ⟨f r, mem_update.mpr ⟨r, hr, .inl ⟨hrid, rfl⟩⟩, (hf r).1.trans hid, (hf r).2.trans htopic⟩
  · exact ⟨r, mem_update.mpr ⟨r, hr, .inr ⟨hrid, rfl⟩⟩, hid, htopic⟩

/-- A marking that exhausts a task leaves none of its topic. -/
private theorem shunned_marked {f : ResearchTask → ResearchTask} {id : Uuid} {control : Nat → Control}
    (hf : Marking f) (hs : Shunned s)
    (hlast : (∃ now : Int, f = fun t => { t with status := .done, completedAt := some now }) ∨
      (∃ reason, f = ResearchQueue.failOnce reason) ∧ LeavesNone s id)
    (hcontrol : ∀ w, control w = s.control w ∨ control w = .idle) :
    Shunned { s with queue := s.queue.update id f, control := control } := by
  have hframe (t : ResearchTask) : (f t).id = t.id ∧ (f t).topic = t.topic :=
    ⟨(hf.frame t).1, (hf.frame t).2.1⟩
  have hexhausted {r : ResearchTask} (hr : r ∈ s.queue.rows) (hid : r.id = id)
      (h : (f r).status = .exhausted) :
      (∀ other ∈ s.queue.rows, other.topic = r.topic → other.id ≠ id → other.status.isOpen = false) ∧
        ∀ v t today, s.control v = .claimed t today → t.topic ≠ r.topic := by
    rcases hlast with ⟨now, rfl⟩ | ⟨⟨reason, rfl⟩, hleaves⟩
    · cases h
    · refine hleaves r hr hid ?_
      by_contra hmore
      simp [ResearchQueue.failOnce, hmore] at h
  refine ⟨fun x hx hxe t ht htopic => ?_, fun w t today hw x hx hxe => ?_, fun w t today hw => ?_, hs.record⟩
  · obtain ⟨r, hr, ⟨hrid, rfl⟩ | ⟨hrid, rfl⟩⟩ := mem_update.mp hx <;>
      obtain ⟨q, hq, ⟨hqid, rfl⟩ | ⟨hqid, rfl⟩⟩ := mem_update.mp ht
    · exact (hf.frame q).2.2
    · exact (hexhausted hr hrid hxe).1 q hq (htopic.trans (hframe r).2) hqid
    · exact (hf.frame q).2.2
    · exact hs.rest r hr hxe q hq htopic
  · have hclaimed : s.control w = .claimed t today := by
      rcases hcontrol w with hsame | hidle
      · exact hsame.symm.trans hw
      · exact absurd (hidle.symm.trans hw) fun h => by cases h
    obtain ⟨r, hr, ⟨hrid, rfl⟩ | ⟨-, rfl⟩⟩ := mem_update.mp hx
    · rw [(hframe r).2]
      exact ((hexhausted hr hrid hxe).2 w t today hclaimed).symm
    · exact hs.claimed w t today hclaimed r hr hxe
  · rcases hcontrol w with hsame | hidle
    · exact sought_update hframe (hs.sought w t today (hsame.symm.trans hw))
    · exact absurd (hidle.symm.trans hw) fun h => by cases h

theorem shunned_effect (h : Effect maxDailyTasks s e s') (hc : ExhaustedShunned s e)
    (hs : Shunned s) : Shunned s' := by
  cases h with
  | stay e => exact hs
  | look e w c clock free looking found =>
    refine ⟨hs.rest, fun v t today hv => ?_, fun v t today hv => ?_, hs.record⟩
    · rcases turn_cases hv with ⟨-, hv⟩ | ⟨-, hv⟩
      · rw [hv] at looking
        cases looking
      · exact hs.claimed v t today hv
    · rcases turn_cases hv with ⟨-, hv⟩ | ⟨-, hv⟩
      · exact ⟨t, (List.mem_filter.mp (found t today hv)).1, rfl, rfl⟩
      · exact hs.sought v t today hv
  | insert w id now task resume stands fresh =>
    have hbarred := barred_eq_false.mp (hc.2 task resume stands)
    have hold {x : ResearchTask} (hx : x ∈ s.queue.rows ++
        [ResearchQueue.newTask id now task.topic task.priority task.source])
        (hxe : x.status = .exhausted) : x ∈ s.queue.rows := by
      rcases List.mem_append.mp hx with hx | hx
      · exact hx
      · rw [List.mem_singleton.mp hx] at hxe
        cases hxe
    refine ⟨fun x hx hxe t ht htopic => ?_, fun v t today hv x hx hxe => ?_, fun v t today hv => ?_,
      hs.record⟩
    · rcases List.mem_append.mp ht with ht | ht
      · exact hs.rest x (hold hx hxe) hxe t ht htopic
      · rw [List.mem_singleton.mp ht] at htopic
        exact absurd htopic.symm (hbarred x (hold hx hxe) hxe)
    · rcases turn_cases hv with ⟨-, hv⟩ | ⟨-, hv⟩
      · cases resume <;> cases hv
      · exact hs.claimed v t today hv x (hold hx hxe) hxe
    · rcases turn_cases hv with ⟨-, hv⟩ | ⟨-, hv⟩
      · cases resume <;> cases hv
      · obtain ⟨r, hr, hid⟩ := hs.sought v t today hv
        exact ⟨r, List.mem_append_left _ hr, hid⟩
  | claim w t today stands =>
    have hpending := hc.1 t today stands
    have hold {x : ResearchTask} (hx : x ∈ (s.queue.claim t.id).rows) (hxe : x.status = .exhausted) :
        x ∈ s.queue.rows := by
      obtain ⟨r, hr, ⟨-, rfl⟩ | ⟨-, rfl⟩⟩ := mem_update.mp hx
      · cases hxe
      · exact hr
    refine ⟨fun x hx hxe r hr htopic => ?_, fun v t' today' hv x hx hxe => ?_, fun v t' today' hv => ?_,
      hs.record⟩
    · obtain ⟨q, hq, ⟨hqid, rfl⟩ | ⟨-, rfl⟩⟩ := mem_update.mp hr
      · have hclosed := hs.rest x (hold hx hxe) hxe q hq htopic
        rw [hpending q hq hqid] at hclosed
        cases hclosed
      · exact hs.rest x (hold hx hxe) hxe q hq htopic
    · rcases turn_cases hv with ⟨-, hv⟩ | ⟨-, hv⟩
      · -- The task that is popped was pending, so none of its topic is exhausted.
        obtain ⟨r, hr, hid, htopic⟩ := hs.sought w t today stands
        cases today with
        | none => cases hv
        | some d =>
          cases hv
          intro hsame
          have hclosed := hs.rest x (hold hx hxe) hxe r hr (htopic.trans hsame.symm)
          rw [hpending r hr hid] at hclosed
          cases hclosed
      · exact hs.claimed v t' today' hv x (hold hx hxe) hxe
    · rcases turn_cases hv with ⟨-, hv⟩ | ⟨-, hv⟩
      · cases today <;> cases hv
      · exact sought_update (fun _ => ⟨rfl, rfl⟩) (hs.sought v t' today' hv)
  | execute w now t today stands =>
    refine ⟨hs.rest, fun v t' today' hv => ?_, fun v t' today' hv => ?_, ?_⟩
    · rcases turn_cases hv with ⟨-, hv⟩ | ⟨-, hv⟩
      · cases hv
      · exact hs.claimed v t' today' hv
    · rcases turn_cases hv with ⟨-, hv⟩ | ⟨-, hv⟩
      · cases hv
      · exact hs.sought v t' today' hv
    · intro x hx
      rcases List.mem_cons.mp hx with rfl | hx
      · exact barred_eq_false.mpr (hs.claimed w t today stands)
      · exact hs.record x hx
  | finish w t start f e stands marking event =>
    refine shunned_marked marking hs ?_ fun v => ?_
    · rcases event with ⟨now, rfl, hf⟩ | ⟨reason, rfl, hf⟩
      · exact .inl ⟨now, hf⟩
      · exact .inr ⟨⟨reason, hf⟩, hc.2 t start stands⟩
    · by_cases hvw : v = w
      · exact .inr (hvw ▸ turn_self rfl)
      · exact .inl (turn_other hvw rfl)
  | drop e control dropped =>
    refine ⟨hs.rest, fun v t today hv => ?_, fun v t today hv => ?_, hs.record⟩
    · rcases dropped v with hsame | ⟨hidle, -⟩
      · exact hs.claimed v t today (hsame.symm.trans hv)
      · exact absurd (hidle.symm.trans hv) fun h => by cases h
    · rcases dropped v with hsame | ⟨hidle, -⟩
      · exact hs.sought v t today (hsame.symm.trans hv)
      · exact absurd (hidle.symm.trans hv) fun h => by cases h
  | mark id f e marking event =>
    refine shunned_marked marking hs ?_ fun v => .inl rfl
    rcases event with ⟨now, rfl, hf⟩ | ⟨reason, rfl, hf⟩
    · exact .inl ⟨now, hf⟩
    · exact .inr ⟨⟨reason, hf⟩, hc.2⟩

end Keeping

end Gyre.Cognitive
