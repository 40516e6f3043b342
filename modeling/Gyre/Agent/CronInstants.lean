/- digest: No instant fires a cron routine twice where runs store their state before the next listing. -/

import Mathlib.Data.List.Nodup
import Gyre.Agent.RoutineEngine
import Gyre.Lib.Reach

set_option autoImplicit false
set_option relaxedAutoImplicit false

namespace Gyre.Agent

open Gyre.Llm Gyre.Lib

/-- The routines a check of the cron routines has still to look at. -/
def TriggerCall.due : TriggerCall → List Routine
  | cron rest => rest
  | cronCounting r rest | cronFiring r rest => r :: rest
  | _ => []

/-- The engine with the latest reading of its clock. -/
structure ClockedWorld where
  world : RoutineWorld
  latest : Int

namespace RoutineWorld

/-- The routine and the stored `next_fire_at` behind each cron fire. -/
@[grind =] def cronFires (w : RoutineWorld) : List (Uuid × Option Int) :=
  (w.tasks.filter fun t => t.kind == .cron).map fun t => (t.routine.id, t.routine.nextFireAt)

def FiredAt (w : RoutineWorld) (id : Uuid) (instant : Int) : Prop :=
  ∃ t ∈ w.tasks, t.kind = .cron ∧ t.routine.id = id ∧ t.routine.nextFireAt = some instant

/-- A check has found the routine due and may still fire it. -/
def Listed (w : RoutineWorld) (id : Uuid) (instant : Int) : Prop :=
  ∃ call ∈ w.calls, ∃ r ∈ call.due, r.id = id ∧ r.nextFireAt = some instant

/-- Every cron fire of the routine has moved `next_fire_at` on. -/
def MovedOn (w : RoutineWorld) (id : Uuid) : Prop :=
  ∀ t ∈ w.tasks, t.kind = .cron → t.routine.id = id → t.phase = .stored

/-- What keeps the cron fires apart. -/
structure OnSchedule (now : Int) (w : RoutineWorld) : Prop where
  ahead : ∀ schedule time next, w.nextCronFire schedule time = some next → time < next
  fired : ∀ id instant, w.FiredAt id instant → instant ≤ now
  listed : ∀ id instant, w.Listed id instant →
    instant ≤ now ∧ ∀ earlier, w.FiredAt id earlier → earlier < instant
  dated : ∀ call ∈ w.calls, ∀ r ∈ call.due, ∃ instant, r.nextFireAt = some instant
  apart : ∀ call ∈ w.calls, (call.due.map (·.id)).Nodup
  single : ∀ (i j : Nat) call call', w.calls[i]? = some call → w.calls[j]? = some call' →
    call.isCron = true → call'.isCron = true → i = j
  stored : ∀ r ∈ w.routines.rows, ∀ instant earlier, r.nextFireAt = some instant →
    w.MovedOn r.id → w.FiredAt r.id earlier → earlier < instant
  storing : ∀ t ∈ w.tasks, ∀ time next failures, t.phase = .storing time (some next) failures →
    ∀ instant, w.FiredAt t.routine.id instant ∨ w.Listed t.routine.id instant → instant < next
  distinct : w.cronFires.Nodup

end RoutineWorld

namespace ClockedWorld

def step (c : ClockedWorld) (act : RoutineAct) : ClockedWorld where
  world := c.world.step act
  latest := act.reading.getD c.latest

/-- The clock does not go back, and a tick that finds a routine due finds every cron fire of it
stored and none of its runs about to store a `next_fire_at`. -/
def InTime (c : ClockedWorld) (act : RoutineAct) : Prop :=
  (∀ now, act.reading = some now → c.latest ≤ now) ∧
    match act with
    | .advance i env => c.world.calls[i]? = some .cronListing → ∀ r ∈ c.world.routines.rows,
        r.isDue env.now = true → c.world.MovedOn r.id ∧
          ∀ t ∈ c.world.tasks, t.routine.id = r.id → t.phase.isStoring = false
    | _ => True

end ClockedWorld

namespace RoutineWorld

section Frames

variable {w w' : RoutineWorld} {now : Int} {i : Nat} {t : RunTask} {r : Routine}

theorem OnSchedule.congr (hs : w.OnSchedule now) (hnext : w'.nextCronFire = w.nextCronFire)
    (hrows : w'.routines.rows = w.routines.rows) (hcalls : w'.calls = w.calls)
    (htasks : w'.tasks = w.tasks) : w'.OnSchedule now := by
  have hfired (id : Uuid) (instant : Int) : w'.FiredAt id instant ↔ w.FiredAt id instant := by
    unfold FiredAt
    rw [htasks]
  have hlisted (id : Uuid) (instant : Int) : w'.Listed id instant ↔ w.Listed id instant := by
    unfold Listed
    rw [hcalls]
  have hmoved (id : Uuid) : w'.MovedOn id ↔ w.MovedOn id := by
    unfold MovedOn
    rw [htasks]
  constructor
  · simpa only [hnext] using hs.ahead
  · simpa only [hfired] using hs.fired
  · simpa only [hfired, hlisted] using hs.listed
  · simpa only [hcalls] using hs.dated
  · simpa only [hcalls] using hs.apart
  · simpa only [hcalls] using hs.single
  · simpa only [hrows, hfired, hmoved] using hs.stored
  · simpa only [htasks, hfired, hlisted] using hs.storing
  · simpa only [cronFires, htasks] using hs.distinct

theorem OnSchedule.later {now' : Int} (hs : w.OnSchedule now) (h : now ≤ now') :
    w.OnSchedule now' := by
  refine { hs with fired := ?_, listed := ?_ }
  · intro id instant hfired
    exact Int.le_trans (hs.fired id instant hfired) h
  · intro id instant hlisted
    obtain ⟨hle, hlt⟩ := hs.listed id instant hlisted
    exact ⟨Int.le_trans hle h, hlt⟩

theorem due_eq_nil_of_not_isCron {call : TriggerCall} (h : call.isCron = false) : call.due = [] := by
  cases call with
  | cronListing | cron | cronCounting | cronFiring => cases h
  | event | eventCounting | eventFiring | manual | manualCounting | manualRecording | dryRun
  | dryRunning | ended => rfl

/-- A call that goes on does not become a second check of the cron routines. -/
theorem OnSchedule.single_goCall (hs : w.OnSchedule now) {call call' : TriggerCall}
    (hcall : w.calls[i]? = some call) (hcron : call'.isCron = true → call.isCron = true)
    (k j : Nat) (first second : TriggerCall) (hfirst : (w.goCall i call').calls[k]? = some first)
    (hsecond : (w.goCall i call').calls[j]? = some second) (hcron₁ : first.isCron = true)
    (hcron₂ : second.isCron = true) : k = j := by
  have hold : ∀ (k : Nat) other, (w.calls.set i call')[k]? = some other → other.isCron = true →
      ∃ before, w.calls[k]? = some before ∧ before.isCron = true := by
    intro k other hother hcronOther
    rw [List.getElem?_set] at hother
    split at hother
    next heq =>
      subst heq
      split at hother
      · cases hother
        exact ⟨call, hcall, hcron hcronOther⟩
      · cases hother
    next => exact ⟨other, hother, hcronOther⟩
  obtain ⟨before₁, hbefore₁, hcron₁'⟩ := hold k first hfirst hcron₁
  obtain ⟨before₂, hbefore₂, hcron₂'⟩ := hold j second hsecond hcron₂
  exact hs.single k j before₁ before₂ hbefore₁ hbefore₂ hcron₁' hcron₂'

/-- A call goes on with what it has listed. -/
theorem OnSchedule.goCall (hs : w.OnSchedule now) {call call' : TriggerCall}
    (hcall : w.calls[i]? = some call) (hcron : call'.isCron = true → call.isCron = true)
    (hdue : call'.due.Sublist call.due) : (w.goCall i call').OnSchedule now := by
  have hmem := List.mem_of_getElem? hcall
  have hlisted : ∀ id instant, (w.goCall i call').Listed id instant → w.Listed id instant := by
    rintro id instant ⟨other, hother, r, hr, hrest⟩
    rcases List.mem_or_eq_of_mem_set hother with hother | rfl
    · exact ⟨other, hother, r, hr, hrest⟩
    · exact ⟨call, hmem, r, hdue.subset hr, hrest⟩
  refine ⟨hs.ahead, hs.fired, ?_, ?_, ?_, ?_, hs.stored, ?_, hs.distinct⟩
  · intro id instant h
    exact hs.listed id instant (hlisted id instant h)
  · intro other hother r hr
    rcases List.mem_or_eq_of_mem_set hother with hother | rfl
    · exact hs.dated other hother r hr
    · exact hs.dated call hmem r (hdue.subset hr)
  · intro other hother
    rcases List.mem_or_eq_of_mem_set hother with hother | rfl
    · exact hs.apart other hother
    · exact (hs.apart call hmem).sublist (hdue.map _)
  · exact hs.single_goCall hcall hcron
  · intro t ht time next failures hphase instant h
    refine hs.storing t ht time next failures hphase instant ?_
    exact h.imp_right (hlisted t.routine.id instant)

/-- A call that lists nothing is added; a check of the cron routines only where there is none. -/
theorem OnSchedule.addCall (hs : w.OnSchedule now) {call : TriggerCall} (hdue : call.due = [])
    (hcron : call.isCron = true → ∀ other ∈ w.calls, other.isCron = false) :
    OnSchedule now { w with calls := w.calls ++ [call] } := by
  have hlisted : ∀ id instant, Listed { w with calls := w.calls ++ [call] } id instant →
      w.Listed id instant := by
    rintro id instant ⟨other, hother, r, hr, hrest⟩
    rcases List.mem_append.mp hother with hother | hother
    · exact ⟨other, hother, r, hr, hrest⟩
    · rw [List.mem_singleton.mp hother, hdue] at hr
      cases hr
  have hold : ∀ other ∈ w.calls ++ [call], other ∈ w.calls ∨ other.due = [] := by
    intro other hother
    rcases List.mem_append.mp hother with hother | hother
    · exact .inl hother
    · rw [List.mem_singleton.mp hother]
      exact .inr hdue
  refine ⟨hs.ahead, hs.fired, ?_, ?_, ?_, ?_, hs.stored, ?_, hs.distinct⟩
  · intro id instant h
    exact hs.listed id instant (hlisted id instant h)
  · intro other hother r hr
    rcases hold other hother with hother | hnone
    · exact hs.dated other hother r hr
    · rw [hnone] at hr
      cases hr
  · intro other hother
    rcases hold other hother with hother | hnone
    · exact hs.apart other hother
    · rw [hnone]
      exact List.nodup_nil
  · have hplace : ∀ (k : Nat) other, (w.calls ++ [call])[k]? = some other →
        w.calls[k]? = some other ∨ k = w.calls.length ∧ other = call := by
      intro k other hother
      rw [List.getElem?_append] at hother
      split at hother
      · exact .inl hother
      next hlength =>
        rw [List.getElem?_singleton] at hother
        split at hother
        · exact .inr ⟨by omega, (Option.some.inj hother).symm⟩
        · cases hother
    intro k j first second hfirst hsecond hcron₁ hcron₂
    rcases hplace k first hfirst with hold₁ | ⟨hk, rfl⟩
    · rcases hplace j second hsecond with hold₂ | ⟨-, rfl⟩
      · exact hs.single k j first second hold₁ hold₂ hcron₁ hcron₂
      · rw [hcron hcron₂ first (List.mem_of_getElem? hold₁)] at hcron₁
        cases hcron₁
    · rcases hplace j second hsecond with hold₂ | ⟨hj, -⟩
      · rw [hcron hcron₁ second (List.mem_of_getElem? hold₂)] at hcron₂
        cases hcron₂
      · rw [hk, hj]
  · intro t ht time next failures hphase instant h
    exact hs.storing t ht time next failures hphase instant
      (h.imp_right (hlisted t.routine.id instant))

theorem firedAt_addTask {kind : FireKind} {run : Uuid} {phase : RunPhase} {id : Uuid}
    {instant : Int} : (w.addTask r kind run phase).FiredAt id instant ↔
      w.FiredAt id instant ∨ kind = .cron ∧ r.id = id ∧ r.nextFireAt = some instant := by
  unfold FiredAt addTask
  constructor
  · rintro ⟨t, ht, hrest⟩
    rcases List.mem_append.mp ht with ht | ht
    · exact .inl ⟨t, ht, hrest⟩
    · rw [List.mem_singleton.mp ht] at hrest
      exact .inr hrest
  · rintro (⟨t, ht, hrest⟩ | hrest)
    · exact ⟨t, List.mem_append_left _ ht, hrest⟩
    · exact ⟨_, List.mem_append_right _ (List.mem_singleton.mpr rfl), hrest⟩

theorem movedOn_of_addTask {kind : FireKind} {run : Uuid} {phase : RunPhase} {id : Uuid}
    (h : (w.addTask r kind run phase).MovedOn id) : w.MovedOn id :=
  fun t ht => h t (List.mem_append_left _ ht)

/-- A run that no tick has fired does not matter. -/
theorem OnSchedule.addTask (hs : w.OnSchedule now) {kind : FireKind} (hkind : kind ≠ .cron)
    (run : Uuid) {phase : RunPhase} (hphase : phase.isStoring = false) :
    (w.addTask r kind run phase).OnSchedule now := by
  have hfired (id : Uuid) (instant : Int) :
      (w.addTask r kind run phase).FiredAt id instant ↔ w.FiredAt id instant := by
    rw [firedAt_addTask]
    exact or_iff_left fun h => hkind h.1
  refine ⟨hs.ahead, ?_, ?_, hs.dated, hs.apart, hs.single, ?_, ?_, ?_⟩
  · intro id instant h
    exact hs.fired id instant ((hfired id instant).mp h)
  · intro id instant h
    obtain ⟨hle, hlt⟩ := hs.listed id instant h
    exact ⟨hle, fun earlier h' => hlt earlier ((hfired id earlier).mp h')⟩
  · intro row hrow instant earlier hnext hmoved h
    exact hs.stored row hrow instant earlier hnext (movedOn_of_addTask hmoved)
      ((hfired row.id earlier).mp h)
  · intro t ht time next failures htime instant h
    rcases List.mem_append.mp ht with ht | ht
    · exact hs.storing t ht time next failures htime instant
        (h.imp_left (hfired t.routine.id instant).mp)
    · rw [List.mem_singleton.mp ht] at htime
      exact absurd htime (RunPhase.ne_storing hphase time (some next) failures)
  · have hsame : (w.addTask r kind run phase).cronFires = w.cronFires := by
      unfold cronFires RoutineWorld.addTask
      rw [List.filter_append]
      simp [hkind]
    rw [hsame]
    exact hs.distinct

/-- The tick fires a routine it has listed. -/
theorem OnSchedule.fire (hs : w.OnSchedule now) {rest : List Routine} (run : Uuid)
    (hcall : w.calls[i]? = some (.cronFiring r rest)) :
    ((w.addTask r .cron run .spawned).goCall i (.cron rest)).OnSchedule now := by
  have hmem := List.mem_of_getElem? hcall
  obtain ⟨date, hdate⟩ := hs.dated _ hmem r List.mem_cons_self
  obtain ⟨hle, hlt⟩ := hs.listed r.id date ⟨_, hmem, r, List.mem_cons_self, rfl, hdate⟩
  have hgone : (w.goCall i (.cron rest)).OnSchedule now :=
    hs.goCall hcall (fun _ => rfl) (List.sublist_cons_self r rest)
  have hids : r.id ∉ rest.map (·.id) := (List.nodup_cons.mp (hs.apart _ hmem)).1
  -- the other listed routines are other routines
  have hother : ∀ id instant, (w.goCall i (.cron rest)).Listed id instant → id ≠ r.id := by
    rintro id instant ⟨call, hcalls, r', hr', rfl, -⟩
    obtain ⟨k, hk⟩ := List.mem_iff_getElem?.mp hcalls
    have hset : (w.calls.set i (.cron rest))[k]? = some call := hk
    rw [List.getElem?_set] at hset
    split at hset
    next =>
      split at hset
      · cases hset
        exact fun heq => hids (heq ▸ List.mem_map_of_mem hr')
      · cases hset
    next hne =>
      have hcron : call.isCron = true := by
        cases hc : call.isCron with
        | true => rfl
        | false =>
          rw [due_eq_nil_of_not_isCron hc] at hr'
          cases hr'
      exact absurd (hs.single i k _ call hcall hset rfl hcron) hne
  have hfired (id : Uuid) (instant : Int) :
      ((w.addTask r .cron run .spawned).goCall i (.cron rest)).FiredAt id instant ↔
        w.FiredAt id instant ∨ r.id = id ∧ r.nextFireAt = some instant := by
    show (w.addTask r .cron run .spawned).FiredAt id instant ↔ _
    rw [firedAt_addTask]
    simp
  refine ⟨hs.ahead, ?_, ?_, hgone.dated, hgone.apart, hgone.single, ?_, ?_, ?_⟩
  · intro id instant h
    rcases (hfired id instant).mp h with h | ⟨-, h⟩
    · exact hs.fired id instant h
    · rw [hdate] at h
      cases h
      exact hle
  · intro id instant h
    have hlisted : (w.goCall i (.cron rest)).Listed id instant := h
    obtain ⟨hle', hlt'⟩ := hgone.listed id instant hlisted
    refine ⟨hle', fun earlier h' => ?_⟩
    rcases (hfired id earlier).mp h' with h' | ⟨heq, -⟩
    · exact hlt' earlier h'
    · exact absurd heq.symm (hother id instant hlisted)
  · intro row hrow instant earlier hnext hmoved h
    have hold : (w.addTask r .cron run .spawned).MovedOn row.id := hmoved
    rcases (hfired row.id earlier).mp h with h | ⟨heq, -⟩
    · exact hs.stored row hrow instant earlier hnext (movedOn_of_addTask hold) h
    · have hlast := hold _ (List.mem_append_right _ (List.mem_singleton.mpr rfl)) rfl heq
      cases hlast
  · intro t ht time next failures htime instant h
    rcases List.mem_append.mp ht with ht | ht
    · rcases h with h | h
      · rcases (hfired t.routine.id instant).mp h with h | ⟨heq, h⟩
        · exact hs.storing t ht time next failures htime instant (.inl h)
        · exact hs.storing t ht time next failures htime instant
            (.inr ⟨_, hmem, r, List.mem_cons_self, heq, h⟩)
      · have hlisted : (w.goCall i (.cron rest)).Listed t.routine.id instant := h
        exact hgone.storing t ht time next failures htime instant (.inr hlisted)
    · rw [List.mem_singleton.mp ht] at htime
      cases htime
  · have hadded : ((w.addTask r .cron run .spawned).goCall i (.cron rest)).cronFires =
        w.cronFires ++ [(r.id, r.nextFireAt)] := by
      unfold cronFires RoutineWorld.goCall RoutineWorld.addTask
      rw [List.filter_append, List.map_append]
      rfl
    rw [hadded, hdate]
    refine List.nodup_append'.mpr ⟨hs.distinct, List.nodup_singleton _, ?_⟩
    intro entry hentry hlast
    rw [List.mem_singleton.mp hlast] at hentry
    obtain ⟨t, ht, heq⟩ := List.mem_map.mp hentry
    obtain ⟨ht, hcron⟩ := List.mem_filter.mp ht
    obtain ⟨hid, hnext⟩ := Prod.mk.inj heq
    have hbefore := hlt date ⟨t, ht, by simpa using hcron, hid, hnext⟩
    exact absurd hbefore (Int.lt_irrefl date)

/-- The due routines are listed. -/
theorem OnSchedule.list (hs : w.OnSchedule now) (hcall : w.calls[i]? = some .cronListing)
    (hready : ∀ r ∈ w.routines.rows, r.isDue now = true → w.MovedOn r.id ∧
      ∀ t ∈ w.tasks, t.routine.id = r.id → t.phase.isStoring = false) :
    (w.goCall i (.cron (w.routines.rows.filter fun r => r.isDue now))).OnSchedule now := by
  have hmem := List.mem_of_getElem? hcall
  have hdue : ∀ r ∈ w.routines.rows.filter (fun r => r.isDue now), r ∈ w.routines.rows ∧
      r.isDue now = true ∧ ∃ instant, r.nextFireAt = some instant ∧ instant ≤ now := by
    intro r hr
    obtain ⟨hrow, hisDue⟩ := List.mem_filter.mp hr
    refine ⟨hrow, hisDue, ?_⟩
    unfold Routine.isDue at hisDue
    split at hisDue
    next instant _ hnext =>
      rw [Bool.and_eq_true, decide_eq_true_eq] at hisDue
      exact ⟨instant, hnext, hisDue.2⟩
    next => cases hisDue
  have hlisted : ∀ id instant,
      (w.goCall i (.cron (w.routines.rows.filter fun r => r.isDue now))).Listed id instant →
        w.Listed id instant ∨ ∃ r ∈ w.routines.rows, r.isDue now = true ∧ r.id = id ∧
          r.nextFireAt = some instant ∧ instant ≤ now := by
    rintro id instant ⟨call, hcalls, r, hr, rfl, hnext⟩
    rcases List.mem_or_eq_of_mem_set hcalls with hcalls | rfl
    · exact .inl ⟨call, hcalls, r, hr, rfl, hnext⟩
    · obtain ⟨hrow, hisDue, date, hdate, hle⟩ := hdue r hr
      have hsame : date = instant := Option.some.inj (hdate.symm.trans hnext)
      exact .inr ⟨r, hrow, hisDue, rfl, hnext, hsame ▸ hle⟩
  refine ⟨hs.ahead, hs.fired, ?_, ?_, ?_, ?_, hs.stored, ?_, hs.distinct⟩
  · intro id instant h
    rcases hlisted id instant h with h | ⟨r, hrow, hisDue, rfl, hnext, hle⟩
    · exact hs.listed id instant h
    · refine ⟨hle, fun earlier hearlier => ?_⟩
      exact hs.stored r hrow instant earlier hnext (hready r hrow hisDue).1 hearlier
  · intro call hcalls r hr
    rcases List.mem_or_eq_of_mem_set hcalls with hcalls | rfl
    · exact hs.dated call hcalls r hr
    · obtain ⟨-, -, date, hdate, -⟩ := hdue r hr
      exact ⟨date, hdate⟩
  · intro call hcalls
    rcases List.mem_or_eq_of_mem_set hcalls with hcalls | rfl
    · exact hs.apart call hcalls
    · exact w.routines.distinct.sublist (List.filter_sublist.map _)
  · exact hs.single_goCall hcall fun _ => rfl
  · intro t ht time next failures htime instant h
    rcases h with h | h
    · exact hs.storing t ht time next failures htime instant (.inl h)
    · rcases hlisted t.routine.id instant h with h | ⟨r, hrow, hisDue, hid, -, -⟩
      · exact hs.storing t ht time next failures htime instant (.inr h)
      · have hnot := (hready r hrow hisDue).2 t ht hid.symm
        exact absurd htime (RunPhase.ne_storing hnot time (some next) failures)

private theorem mem_goTask (ht : w.tasks[i]? = some t) (phase : RunPhase) {t' : RunTask}
    (ht' : t' ∈ w.tasks) : t' ∈ (w.goTask i t phase).tasks ∨
      t' = t ∧ { t with phase := phase } ∈ (w.goTask i t phase).tasks := by
  obtain ⟨k, hk⟩ := List.mem_iff_getElem?.mp ht'
  by_cases heq : i = k
  · subst heq
    rw [ht, Option.some.injEq] at hk
    have hset : (w.goTask i t phase).tasks[i]? = some { t with phase := phase } :=
      List.getElem?_set_self (List.getElem?_eq_some_iff.mp ht).1
    exact .inr ⟨hk.symm, List.mem_of_getElem? hset⟩
  · have hset : (w.goTask i t phase).tasks[k]? = some t' := (List.getElem?_set_ne heq).trans hk
    exact .inl (List.mem_of_getElem? hset)

theorem firedAt_goTask (ht : w.tasks[i]? = some t) {phase : RunPhase} {id : Uuid} {instant : Int} :
    (w.goTask i t phase).FiredAt id instant ↔ w.FiredAt id instant := by
  constructor
  · rintro ⟨t', ht', hrest⟩
    rcases List.mem_or_eq_of_mem_set ht' with ht' | rfl
    · exact ⟨t', ht', hrest⟩
    · exact ⟨t, List.mem_of_getElem? ht, hrest⟩
  · rintro ⟨t', ht', hrest⟩
    rcases mem_goTask ht phase ht' with ht' | ⟨rfl, ht'⟩
    · exact ⟨t', ht', hrest⟩
    · exact ⟨_, ht', hrest⟩

theorem cronFires_goTask (ht : w.tasks[i]? = some t) (phase : RunPhase) :
    (w.goTask i t phase).cronFires = w.cronFires := by
  have hview : ∀ tasks : List RunTask, (tasks.filter fun t => t.kind == .cron).map
      (fun t => (t.routine.id, t.routine.nextFireAt)) =
        (tasks.map fun t => (t.kind, t.routine.id, t.routine.nextFireAt)).filterMap fun entry =>
          if entry.1 == .cron then some entry.2 else none := by
    intro tasks
    induction tasks with
    | nil => rfl
    | cons t rest ih =>
      rw [List.filter_cons, List.map_cons, List.filterMap_cons, ← ih]
      split
      · simp
      · simp
  unfold cronFires
  rw [hview, hview]
  congr 1
  show (w.tasks.set i { t with phase := phase }).map _ = _
  rw [List.map_set]
  apply List.ext_getElem?
  intro k
  rw [List.getElem?_set]
  split
  next heq =>
    subst heq
    rw [List.getElem?_map, ht]
    split
    · rfl
    next hlength => exact absurd (by simpa using (List.getElem?_eq_some_iff.mp ht).1) hlength
  next => rfl

/-- A run goes on without a state stored. -/
theorem OnSchedule.goTask (hs : w.OnSchedule now) (ht : w.tasks[i]? = some t) {phase : RunPhase}
    (hphase : phase ≠ .stored)
    (hahead : ∀ time next failures, phase = .storing time (some next) failures → now < next) :
    (w.goTask i t phase).OnSchedule now := by
  have hmem := List.mem_of_getElem? ht
  have hmoved : ∀ id, (w.goTask i t phase).MovedOn id → w.MovedOn id := by
    intro id h t' ht' hcron hid
    rcases mem_goTask ht phase ht' with ht' | ⟨rfl, ht'⟩
    · exact h t' ht' hcron hid
    · exact absurd (h _ ht' hcron hid) hphase
  refine ⟨hs.ahead, ?_, ?_, hs.dated, hs.apart, hs.single, ?_, ?_, ?_⟩
  · intro id instant h
    exact hs.fired id instant ((firedAt_goTask ht).mp h)
  · intro id instant h
    obtain ⟨hle, hlt⟩ := hs.listed id instant h
    exact ⟨hle, fun earlier h' => hlt earlier ((firedAt_goTask ht).mp h')⟩
  · intro row hrow instant earlier hnext h hearlier
    exact hs.stored row hrow instant earlier hnext (hmoved row.id h)
      ((firedAt_goTask ht).mp hearlier)
  · intro t' ht' time next failures htime instant h
    have h' : w.FiredAt t'.routine.id instant ∨ w.Listed t'.routine.id instant :=
      h.imp_left (firedAt_goTask ht).mp
    rcases List.mem_or_eq_of_mem_set ht' with ht' | rfl
    · exact hs.storing t' ht' time next failures htime instant h'
    · have hnext := hahead time next failures htime
      have hle : instant ≤ now := by
        rcases h' with h' | h'
        · exact hs.fired _ instant h'
        · exact (hs.listed _ instant h').1
      omega
  · rw [cronFires_goTask ht]
    exact hs.distinct

theorem OnSchedule.pass (hs : w.OnSchedule now) (ht : w.tasks[i]? = some t) {phase : RunPhase}
    (hphase : phase ≠ .stored) (hstoring : phase.isStoring = false) :
    (w.goTask i t phase).OnSchedule now :=
  hs.goTask ht hphase fun time next failures h =>
    absurd h (RunPhase.ne_storing hstoring time (some next) failures)

/-- A run stores when its routine fires next. -/
theorem OnSchedule.store (hs : w.OnSchedule now) (ht : w.tasks[i]? = some t) {time : Int}
    {next : Option Int} {failures : Nat} (hphase : t.phase = .storing time next failures)
    (runCount : Nat) :
    OnSchedule now { w.goTask i t .stored with
      routines := w.routines.updateRuntime t.routine.id time next runCount failures } := by
  have hmem := List.mem_of_getElem? ht
  refine ⟨hs.ahead, ?_, ?_, hs.dated, hs.apart, hs.single, ?_, ?_, ?_⟩
  · intro id instant h
    exact hs.fired id instant ((firedAt_goTask ht).mp h)
  · intro id instant h
    obtain ⟨hle, hlt⟩ := hs.listed id instant h
    exact ⟨hle, fun earlier h' => hlt earlier ((firedAt_goTask ht).mp h')⟩
  · intro row hrow instant earlier hnext hmoved hearlier
    obtain ⟨r, hr, rfl⟩ := List.mem_map.mp hrow
    have hfired := (firedAt_goTask ht).mp hearlier
    split at hnext
    next hid =>
      have hsame : t.phase = .storing time (some instant) failures := by
        rw [hphase, show next = some instant from hnext]
      simp only [hid, if_true] at hfired
      exact hs.storing t hmem time instant failures hsame earlier (.inl hfired)
    next hid =>
      simp only [hid, if_false] at hfired hmoved
      refine hs.stored r hr instant earlier hnext (fun t' ht' hcron hid' => ?_) hfired
      rcases mem_goTask ht .stored ht' with ht' | ⟨rfl, -⟩
      · exact hmoved t' ht' hcron hid'
      · exact absurd hid'.symm hid
  · intro t' ht' time' next' failures' htime instant h
    rcases List.mem_or_eq_of_mem_set ht' with ht' | rfl
    · exact hs.storing t' ht' time' next' failures' htime instant
        (h.imp_left (firedAt_goTask ht).mp)
    · cases htime
  · have hsame := cronFires_goTask ht .stored
    show (w.goTask i t .stored).cronFires.Nodup
    rw [hsame]
    exact hs.distinct

end Frames

section Steps

variable {w : RoutineWorld} {now : Int} {i : Nat} {t : RunTask}

theorem OnSchedule.createRun (hs : w.OnSchedule now) (id routineId : Uuid) (env : Surroundings) :
    (w.createRun id routineId env).1.OnSchedule now := by
  unfold RoutineWorld.createRun
  split
  · exact hs.congr rfl rfl rfl rfl
  · exact hs

theorem OnSchedule.advance (env : Surroundings) (hs : w.OnSchedule env.now) {call : TriggerCall}
    (hcall : w.calls[i]? = some call)
    (hready : call = .cronListing → ∀ r ∈ w.routines.rows, r.isDue env.now = true →
      w.MovedOn r.id ∧ ∀ t ∈ w.tasks, t.routine.id = r.id → t.phase.isStoring = false) :
    (w.advance i env call).OnSchedule env.now := by
  -- a call that lists nothing goes on to one that lists nothing
  have hplain {call' : TriggerCall} (hcron : call'.isCron = false) :
      (w.goCall i call').OnSchedule env.now := by
    refine hs.goCall hcall (fun h => ?_) ?_
    · rw [hcron] at h
      cases h
    · rw [due_eq_nil_of_not_isCron hcron]
      exact List.nil_sublist _
  cases call with
  | event channel content rest =>
    cases rest with
    | nil => exact hplain rfl
    | cons r rest =>
      simp only [RoutineWorld.advance]
      split
      · exact hplain rfl
      · exact hplain rfl
  | eventCounting channel content r rest =>
    simp only [RoutineWorld.advance]
    split
    · exact hplain rfl
    · exact hplain rfl
  | eventFiring channel content r rest =>
    simp only [RoutineWorld.advance]
    split
    · exact hplain rfl
    · have hadded : (w.addTask r .event env.drawn .spawned).OnSchedule env.now :=
        hs.addTask (by decide) env.drawn rfl
      exact hadded.goCall hcall (absurd · Bool.false_ne_true) (List.nil_sublist _)
  | cronListing =>
    simp only [RoutineWorld.advance]
    split
    · exact hs.list hcall (hready rfl)
    · exact hplain rfl
  | cron rest =>
    cases rest with
    | nil => exact hplain rfl
    | cons r rest =>
      simp only [RoutineWorld.advance]
      split
      · exact hplain rfl
      · split
        · exact hs.goCall hcall (fun _ => rfl) (List.Sublist.refl _)
        · exact hs.goCall hcall (fun _ => rfl) (List.sublist_cons_self r rest)
  | cronCounting r rest =>
    simp only [RoutineWorld.advance]
    split
    · exact hs.goCall hcall (fun _ => rfl) (List.Sublist.refl _)
    · exact hs.goCall hcall (fun _ => rfl) (List.sublist_cons_self r rest)
  | cronFiring r rest => exact hs.fire env.drawn hcall
  | manual id =>
    simp only [RoutineWorld.advance]
    split
    · split
      · exact hplain rfl
      · exact hplain rfl
    · exact hplain rfl
  | manualCounting r =>
    simp only [RoutineWorld.advance]
    split
    · exact hplain rfl
    · exact hplain rfl
  | manualRecording r =>
    simp only [RoutineWorld.advance]
    split
    next recorded hrecorded =>
      have hkept := hs.createRun env.drawn r.id env
      rw [hrecorded] at hkept
      have hcalls : recorded.calls[i]? = some (.manualRecording r) := by
        have hsame := createRun_calls w env.drawn r.id env
        rw [hrecorded] at hsame
        rw [hsame]
        exact hcall
      have hadded : (recorded.addTask r .manual env.drawn .recorded).OnSchedule env.now :=
        hkept.addTask (by decide) env.drawn rfl
      exact hadded.goCall hcalls (absurd · Bool.false_ne_true) (List.nil_sublist _)
    next => exact hplain rfl
  | dryRun id =>
    simp only [RoutineWorld.advance]
    split
    · split
      · exact hplain rfl
      · exact hplain rfl
    · exact hplain rfl
  | dryRunning r =>
    have hadded : (w.addTask r .dryRun env.drawn .executing).OnSchedule env.now :=
      hs.addTask (by decide) env.drawn rfl
    have hcounted : OnSchedule env.now
        { w.addTask r .dryRun env.drawn .executing with runningCount := w.runningCount + 1 } :=
      hadded.congr rfl rfl rfl rfl
    exact hcounted.goCall hcall (absurd · Bool.false_ne_true) (List.nil_sublist _)
  | ended => exact hs

theorem OnSchedule.runTask (env : Surroundings) (hs : w.OnSchedule env.now)
    (ht : w.tasks[i]? = some t) (step : RunStep) :
    (w.runTask i t env step).OnSchedule env.now := by
  cases step with
  | record =>
    simp only [RoutineWorld.runTask]
    split
    · split
      next recorded hrecorded =>
        have hkept := hs.createRun t.run t.routine.id env
        rw [hrecorded] at hkept
        have htasks : recorded.tasks[i]? = some t := by
          have hsame := createRun_tasks w t.run t.routine.id env
          rw [hrecorded] at hsame
          rw [hsame]
          exact ht
        exact hkept.pass htasks (by decide) rfl
      next => exact hs.pass ht (by decide) rfl
    · exact hs
  | begin =>
    simp only [RoutineWorld.runTask]
    split
    · have hmoved : (w.goTask i t .executing).OnSchedule env.now := hs.pass ht (by decide) rfl
      exact hmoved.congr rfl rfl rfl rfl
    · exact hs
  | finish status =>
    simp only [RoutineWorld.runTask]
    split
    · split
      · have hmoved : (w.goTask i t .gone).OnSchedule env.now := hs.pass ht (by decide) rfl
        exact hmoved.congr rfl rfl rfl rfl
      · have hmoved : (w.goTask i t (.executed status)).OnSchedule env.now :=
          hs.pass ht (by simp) rfl
        exact hmoved.congr rfl rfl rfl rfl
    · exact hs
  | complete =>
    simp only [RoutineWorld.runTask]
    split
    next status _ =>
      have hmoved : (w.goTask i t (.completed status)).OnSchedule env.now := hs.pass ht (by simp) rfl
      exact hmoved.congr rfl rfl rfl rfl
    next => exact hs
  | compute =>
    simp only [RoutineWorld.runTask]
    split
    next status _ =>
      refine hs.goTask ht (by simp [runtimeOf]) fun time next failures hstoring => ?_
      unfold RoutineWorld.runtimeOf at hstoring
      obtain ⟨-, hnext, -⟩ := RunPhase.storing.inj hstoring
      split at hnext
      next schedule _ => exact hs.ahead schedule env.now next hnext
      next => cases hnext
    next => exact hs
  | store =>
    simp only [RoutineWorld.runTask]
    split
    next time next failures hphase =>
      split
      · exact hs.store ht hphase (t.routine.runCount + 1)
      · exact hs.pass ht (by decide) rfl
    next => exact hs
  | panic =>
    simp only [RoutineWorld.runTask]
    split
    · exact hs.pass ht (by decide) rfl
    · exact hs

end Steps

end RoutineWorld

theorem ClockedWorld.step_onSchedule {c : ClockedWorld} (hs : c.world.OnSchedule c.latest)
    {act : RoutineAct} (hact : c.InTime act) :
    (c.step act).world.OnSchedule (c.step act).latest := by
  obtain ⟨hclock, hready⟩ := hact
  cases act with
  | refresh =>
    show (c.world.step .refresh).OnSchedule c.latest
    simp only [RoutineWorld.step]
    split
    · exact hs
    · exact hs.congr rfl rfl rfl rfl
  | message channel content => exact hs.addCall rfl (absurd · Bool.false_ne_true)
  | tick =>
    show (c.world.step .tick).OnSchedule c.latest
    simp only [RoutineWorld.step]
    split
    next => exact hs
    next hnone =>
      refine hs.addCall rfl fun _ other hother => ?_
      rw [List.any_eq_true] at hnone
      cases hcron : other.isCron with
      | true => exact absurd ⟨other, hother, hcron⟩ hnone
      | false => rfl
  | fireManual id => exact hs.addCall rfl (absurd · Bool.false_ne_true)
  | test id => exact hs.addCall rfl (absurd · Bool.false_ne_true)
  | advance i env =>
    have hlater := hs.later (hclock env.now rfl)
    show (c.world.step (.advance i env)).OnSchedule env.now
    simp only [RoutineWorld.step]
    split
    next call hcall =>
      refine hlater.advance env hcall fun hlisting => ?_
      subst hlisting
      exact hready hcall
    next => exact hlater
  | run i next env =>
    have hlater := hs.later (hclock env.now rfl)
    show (c.world.step (.run i next env)).OnSchedule env.now
    simp only [RoutineWorld.step]
    split
    next t ht => exact hlater.runTask env ht next
    next => exact hlater

theorem new_onSchedule (maxConcurrentRoutines : Nat) (isMatch : String → String → Bool)
    {nextCronFire : String → Int → Option Int}
    (hahead : ∀ schedule now next, nextCronFire schedule now = some next → now < next)
    (routines : RoutineTable) (runs : List RoutineRun) (start : Int) :
    (RoutineWorld.new maxConcurrentRoutines isMatch nextCronFire routines runs).OnSchedule
      start := by
  constructor
  · exact hahead
  · rintro id instant ⟨t, ht, -⟩
    cases ht
  · rintro id instant ⟨call, hcall, -⟩
    cases hcall
  · intro call hcall
    cases hcall
  · intro call hcall
    cases hcall
  · intro i j call call' hcall
    cases hcall
  · rintro r - instant earlier - - ⟨t, ht, -⟩
    cases ht
  · intro t ht
    cases ht
  · exact List.nodup_nil

private def minute : Int := 60000000000

/-- The next full minute, as the schedule "0 * * * * *" has it. -/
private def everyMinute (_ : String) (now : Int) : Option Int :=
  some ((now / minute + 1) * minute)

private theorem everyMinute_ahead (schedule : String) (now next : Int)
    (h : everyMinute schedule now = some next) : now < next := by
  unfold everyMinute minute at h
  rw [Option.some.injEq] at h
  omega

/-- A routine that fires every minute, for the first time after one. -/
private def minutely (maxConcurrent : Nat) : Routine where
  id := .ofNat 1
  enabled := true
  trigger := .cron "0 * * * * *"
  guardrails := ⟨0, maxConcurrent⟩
  lastRunAt := none
  nextFireAt := some minute
  runCount := 0
  consecutiveFailures := 0

private def clockwork (maxConcurrent : Nat) : ClockedWorld :=
  ⟨.new 9 (fun _ _ => false) everyMinute ⟨[minutely maxConcurrent], List.nodup_singleton _⟩ [], 0⟩

private def playClock (maxConcurrent : Nat) (acts : List RoutineAct) : ClockedWorld :=
  acts.foldl ClockedWorld.step (clockwork maxConcurrent)

private def atSecond (second : Int) (drawn : Nat) : Surroundings :=
  ⟨minute + second * 1000000000, .ofNat drawn, true⟩

/-- A tick that finds the routine due and fires it. -/
private def ticked (call : Nat) (second : Int) (drawn : Nat) : List RoutineAct :=
  [.tick, .advance call (atSecond second drawn), .advance call (atSecond second drawn),
    .advance call (atSecond second drawn), .advance call (atSecond second drawn),
    .advance call (atSecond second drawn)]

private theorem inTime_of_no_tasks {c : ClockedWorld} (htasks : c.world.tasks = []) {i : Nat}
    {env : Surroundings} (hclock : c.latest ≤ env.now) : c.InTime (.advance i env) := by
  refine ⟨fun now hnow => ?_, fun _ r _ _ => ⟨?_, ?_⟩⟩
  · cases hnow
    exact hclock
  · intro t ht
    rw [htasks] at ht
    cases ht
  · intro t ht
    rw [htasks] at ht
    cases ht

private theorem ticked_reached : Reached ClockedWorld.step ClockedWorld.InTime (clockwork 1)
    (playClock 1 ((ticked 0 0 10).take 5)) := by
  have hnext {acts : List RoutineAct}
      (h : Reached ClockedWorld.step ClockedWorld.InTime (clockwork 1) (playClock 1 acts))
      (htasks : (playClock 1 acts).world.tasks = [])
      (hclock : (playClock 1 acts).latest ≤ (atSecond 0 10).now) :
      Reached ClockedWorld.step ClockedWorld.InTime (clockwork 1)
        ((playClock 1 acts).step (.advance 0 (atSecond 0 10))) :=
    .next _ h (inTime_of_no_tasks htasks hclock)
  have htick : Reached ClockedWorld.step ClockedWorld.InTime (clockwork 1)
      (playClock 1 ((ticked 0 0 10).take 1)) :=
    .next RoutineAct.tick .start ⟨fun _ h => absurd h.symm (Option.some_ne_none _), trivial⟩
  have hlisted : Reached ClockedWorld.step ClockedWorld.InTime (clockwork 1)
      (playClock 1 ((ticked 0 0 10).take 2)) := hnext htick (by decide +kernel) (by decide +kernel)
  have hchecked : Reached ClockedWorld.step ClockedWorld.InTime (clockwork 1)
      (playClock 1 ((ticked 0 0 10).take 3)) := hnext hlisted (by decide +kernel) (by decide +kernel)
  have hcounted : Reached ClockedWorld.step ClockedWorld.InTime (clockwork 1)
      (playClock 1 ((ticked 0 0 10).take 4)) := hnext hchecked (by decide +kernel) (by decide +kernel)
  exact hnext hcounted (by decide +kernel) (by decide +kernel)

/-- The run of the first tick still executes when the next tick comes. -/
private def longRun : List RoutineAct :=
  ticked 0 0 10 ++ [.run 0 .record (atSecond 1 0), .run 0 .begin (atSecond 1 0)] ++ ticked 1 15 11

/-- The run of the first tick is on record as completed when the next tick comes, and has not stored
its state. -/
private def unstoredRun : List RoutineAct :=
  ticked 0 0 10 ++ [.run 0 .record (atSecond 1 0), .run 0 .begin (atSecond 1 0),
    .run 0 (.finish .ok) (atSecond 14 0), .run 0 .complete (atSecond 14 0)] ++ ticked 1 15 11

end Gyre.Agent
