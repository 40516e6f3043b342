/- digest: The learning loop: what reflections append to the telos files, over whole runs. -/

import Gyre.Cognitive.AutoMemory
import Gyre.Cognitive.LayeredRecall
import Gyre.Lib.Ranking
import Gyre.Lib.Runs

set_option autoImplicit false
set_option relaxedAutoImplicit false

namespace Gyre.Cognitive

open Gyre.Lib Gyre.Llm

/-- The telos files that reflections append to. -/
inductive TelosFile where
  | experiences
  | beliefs
  | goals
  deriving DecidableEq, Repr

def TelosFile.name : TelosFile → String
  | .experiences => "EXPERIENCES.md"
  | .beliefs => "BELIEFS.md"
  | .goals => "GOALS.md"

/-- Without lines that are front matter markers, and without null bytes. -/
def sanitizeTelosContent (content : List Char) : List Char :=
  (Text.joinLines ((Text.lines content).filter fun line => Text.trim line ≠ Uocs.fence)).filter
    fun c => c ≠ Char.ofNat 0

/-- The file after an append: a line of its own, and a new line. -/
def appendTelosFile (existing : Option (List Char)) (content : List Char) : List Char :=
  let old := existing.getD []
  if old.isEmpty then content ++ ['\n']
  else if old.getLast? = some '\n' then old ++ content ++ ['\n']
  else old ++ '\n' :: content ++ ['\n']

/-- The rows of a stream; `id` is the primary key. -/
structure KeyedStream where
  stream : MemoryStream
  ids_nodup : (stream.entries.map (·.id)).Nodup

namespace KeyedStream

def entries (s : KeyedStream) : List MemoryEntry := s.stream.entries

theorem entries_add (s : MemoryStream) (entry : MemoryEntry) :
    (s.add entry).entries = s.entries ++ [MemoryStream.columns entry] := by
  unfold MemoryStream.add MemoryStream.entries
  rw [List.map_append]
  rfl

/-- An id that is taken makes the insertion fail. -/
def add (s : KeyedStream) (entry : MemoryEntry) : KeyedStream :=
  if h : entry.id ∈ s.entries.map (·.id) then s
  else
    ⟨s.stream.add entry, by
      rw [entries_add, List.map_append]
      refine List.nodup_append.mpr ⟨s.ids_nodup, List.nodup_singleton _, fun i hi j hj hij => h ?_⟩
      have hid : i = entry.id := hij.trans (List.mem_singleton.mp hj)
      rw [← hid]
      exact hi⟩

/-- `recent` -/
def recent (order : RecencyOrder) (s : KeyedStream) (limit : Nat) : List MemoryEntry :=
  s.stream.recallByRecency order limit

theorem entries_subset_add (s : KeyedStream) (entry : MemoryEntry) :
    ∀ e ∈ s.entries, e ∈ (s.add entry).entries := by
  intro e he
  unfold add
  split
  · exact he
  · unfold entries
    rw [entries_add]
    exact List.mem_append_left _ he

end KeyedStream

/-- What is fixed for an agent: the letters and the order of equal times are the libraries'. -/
structure LearningAgent where
  isUppercase : Char → Bool
  order : RecencyOrder
  date : Int → List Char
  autoMemoryConfig : AutoMemoryConfig
  turnsBeforeReflection : Nat
  turns_pos : 0 < turnsBeforeReflection

namespace LearningAgent

variable (agent : LearningAgent)

/-- The entries that belong into a file. -/
def belongs : TelosFile → MemoryEntry → Bool
  | .experiences, e => decide (e.kind = .lesson)
  | .beliefs, e => decide (e.kind = .decision ∧ 8 < e.importance)
  | .goals, e => decide (e.kind = .commitment)

/-- What is appended for an entry. -/
def block : TelosFile → MemoryEntry → List Char
  | .experiences, e =>
    "### ".toList ++ agent.date e.createdAt ++ '\n' :: sanitizeTelosContent e.content ++ ['\n']
  | .beliefs, e =>
    "### Candidate Belief (".toList ++ agent.date e.createdAt ++ ")\n".toList ++
      sanitizeTelosContent e.content ++
        "\n*(from Decision memory — review and accept if appropriate)*\n".toList
  | .goals, e =>
    "### Active Commitment (".toList ++ agent.date e.createdAt ++ ")\n".toList ++
      sanitizeTelosContent e.content ++ ['\n']

/-- The contents of the telos files. -/
abbrev Telos := TelosFile → Option (List Char)

/-- An entry in a file. -/
abbrev Append := TelosFile × MemoryEntry

def Telos.append (telos : Telos) (a : Append) : Telos :=
  Function.update telos a.1 (some (appendTelosFile (telos a.1) (agent.block a.1 a.2)))

/-- One of the loops of `reflect`. `io` is the error of the so-and-so-many-th append of a reflection,
if it has one, and `done` what was appended before. -/
@[grind =] def appendEach (io : Nat → Option (List Char)) (file : TelosFile) :
    List MemoryEntry → Telos × List Append → (Telos × List Append) × Option (List Char)
  | [], (telos, done) => ((telos, done), none)
  | e :: rest, (telos, done) =>
    match io done.length with
    | some error => ((telos, done), some error)
    | none => appendEach io file rest (Telos.append agent telos (file, e), done ++ [(file, e)])

/-- The files, what was appended to them, and the error, if there was one. -/
def reflect (io : Nat → Option (List Char)) (telos : Telos) (recentMemories : List MemoryEntry) :
    (Telos × List Append) × Option (List Char) :=
  match agent.appendEach io .experiences (recentMemories.filter (belongs .experiences)) (telos, []) with
  | (first, some error) => (first, some error)
  | (first, none) =>
    match agent.appendEach io .beliefs (recentMemories.filter (belongs .beliefs)) first with
    | (second, some error) => (second, some error)
    | (second, none) =>
      agent.appendEach io .goals (recentMemories.filter (belongs .goals)) second

structure State where
  memories : KeyedStream
  telos : Telos
  turnCount : Nat

/-- A turn, and what goes wrong in it. -/
structure Turn where
  response : List Char
  draw : Draw
  poisoned : Bool
  recentFails : Bool
  io : Nat → Option (List Char)

/-- A turn ends, or something is written into the stream. -/
inductive Step where
  | turn (t : Turn)
  | write (entry : MemoryEntry)

/-- The stream after the memories of a turn are stored. -/
def stored (s : State) (t : Turn) : KeyedStream :=
  (extractMemoriesFromTurn agent.isUppercase agent.autoMemoryConfig t.draw t.response).foldl
    KeyedStream.add s.memories

/-- The count is a `u32`. -/
def nextCount (s : State) : Nat := (s.turnCount + 1) % 2 ^ 32

/-- The memories that a reflection reads. -/
def recentMemories (s : State) (t : Turn) : List MemoryEntry :=
  if t.recentFails then [] else (agent.stored s t).recent agent.order 20

/-- `post_turn`, with what is appended. -/
def postTurn (s : State) (t : Turn) : State × List Append :=
  if t.poisoned then (s, [])
  else if nextCount s % agent.turnsBeforeReflection = 0 then
    let reflected := agent.reflect t.io s.telos (agent.recentMemories s t)
    (⟨agent.stored s t, reflected.1.1, nextCount s⟩, reflected.1.2)
  else (⟨agent.stored s t, s.telos, nextCount s⟩, [])

def step (s : State) : Step → State × List Append
  | .turn t => agent.postTurn s t
  | .write entry => (⟨s.memories.add entry, s.telos, s.turnCount⟩, [])

/-- What a reflection appends if nothing fails, in its order. -/
def planned (recentMemories : List MemoryEntry) : List Append :=
  (recentMemories.filter (belongs .experiences)).map (TelosFile.experiences, ·) ++
    ((recentMemories.filter (belongs .beliefs)).map (TelosFile.beliefs, ·) ++
      (recentMemories.filter (belongs .goals)).map (TelosFile.goals, ·))

/-- Appends one after the other, up to the first that fails. -/
@[grind =] def appendAll (io : Nat → Option (List Char)) :
    List Append → Telos × List Append → (Telos × List Append) × Option (List Char)
  | [], (telos, done) => ((telos, done), none)
  | a :: rest, (telos, done) =>
    match io done.length with
    | some error => ((telos, done), some error)
    | none => appendAll io rest (Telos.append agent telos a, done ++ [a])

section Reflect

variable {agent} {io : Nat → Option (List Char)}

theorem appendEach_eq (file : TelosFile) (entries : List MemoryEntry) (p : Telos × List Append) :
    agent.appendEach io file entries p = agent.appendAll io (entries.map (file, ·)) p := by
  induction entries generalizing p with
  | nil => rfl
  | cons e rest ih =>
    obtain ⟨telos, done⟩ := p
    rw [List.map_cons, appendEach, appendAll]
    cases io done.length with
    | some error => rfl
    | none => exact ih _

theorem appendAll_append (as bs : List Append) (p : Telos × List Append) :
    agent.appendAll io (as ++ bs) p =
      match agent.appendAll io as p with
      | (q, some error) => (q, some error)
      | (q, none) => agent.appendAll io bs q := by
  induction as generalizing p with
  | nil => rfl
  | cons a rest ih =>
    obtain ⟨telos, done⟩ := p
    rw [List.cons_append, appendAll, appendAll]
    cases io done.length with
    | some error => rfl
    | none => exact ih _

/-- The three loops are one. -/
theorem reflect_eq (telos : Telos) (recentMemories : List MemoryEntry) :
    agent.reflect io telos recentMemories = agent.appendAll io (planned recentMemories) (telos, []) := by
  unfold reflect planned
  rw [appendAll_append, appendEach_eq]
  split
  · rename_i first error hfirst
    rw [hfirst]
  · rename_i first hfirst
    rw [hfirst]
    dsimp only
    rw [appendAll_append, appendEach_eq]
    split
    · rename_i second error hsecond
      rw [hsecond]
    · rename_i second hsecond
      rw [hsecond]
      exact appendEach_eq _ _ _

/-- A first part is appended, up to the first failure. -/
theorem appendAll_spec (as : List Append) (telos : Telos) (done : List Append) :
    ∃ k ≤ as.length,
      (agent.appendAll io as (telos, done)).1 =
        ((as.take k).foldl (Telos.append agent) telos, done ++ as.take k) ∧
      (∀ i < k, io (done.length + i) = none) ∧ (k < as.length → io (done.length + k) ≠ none) := by
  induction as generalizing telos done with
  | nil =>
    refine ⟨0, le_rfl, ?_, fun i hi => absurd hi (Nat.not_lt_zero i), fun h => absurd h (lt_irrefl 0)⟩
    rw [List.take_nil, List.append_nil]
    rfl
  | cons a rest ih =>
    rw [appendAll]
    cases hio : io done.length with
    | some error =>
      refine ⟨0, Nat.zero_le _, ?_, fun i hi => absurd hi (Nat.not_lt_zero i), fun _ h => ?_⟩
      · rw [List.take_zero, List.append_nil]
        rfl
      · rw [Nat.add_zero, hio] at h
        cases h
    | none =>
      obtain ⟨k, hk, hresult, hok, hend⟩ := ih (Telos.append agent telos a) (done ++ [a])
      rw [List.length_append, List.length_singleton] at hok hend
      refine ⟨k + 1, Nat.succ_le_succ hk, ?_, fun i hi => ?_, fun hlt => ?_⟩
      · rw [List.take_succ_cons, List.foldl_cons]
        refine hresult.trans ?_
        rw [List.append_assoc]
        rfl
      · cases i with
        | zero => exact hio
        | succ i =>
          have hnext := hok i (Nat.lt_of_succ_lt_succ hi)
          rwa [Nat.add_assoc, Nat.add_comm 1 i] at hnext
      · have hnext := hend (Nat.lt_of_succ_lt_succ hlt)
        rwa [Nat.add_assoc, Nat.add_comm 1 k] at hnext

theorem reflect_spec (telos : Telos) (recentMemories : List MemoryEntry) :
    ∃ k ≤ (planned recentMemories).length,
      (agent.reflect io telos recentMemories).1 =
        (((planned recentMemories).take k).foldl (Telos.append agent) telos,
          (planned recentMemories).take k) ∧
      (∀ i < k, io i = none) ∧ (k < (planned recentMemories).length → io k ≠ none) := by
  obtain ⟨k, hk, hresult, hok, hend⟩ :=
    @appendAll_spec agent io (planned recentMemories) telos []
  simp only [List.length_nil, Nat.zero_add, List.nil_append] at hok hend hresult
  rw [reflect_eq]
  exact ⟨k, hk, hresult, hok, hend⟩

theorem mem_planned {recentMemories : List MemoryEntry} {a : Append} :
    a ∈ planned recentMemories ↔ a.2 ∈ recentMemories ∧ belongs a.1 a.2 = true := by
  obtain ⟨file, e⟩ := a
  unfold planned
  simp only [List.mem_append, List.mem_map, List.mem_filter]
  constructor
  · rintro (⟨x, hx, heq⟩ | ⟨x, hx, heq⟩ | ⟨x, hx, heq⟩) <;> cases heq <;> exact hx
  · intro h
    cases file with
    | experiences => exact Or.inl ⟨e, h, rfl⟩
    | beliefs => exact Or.inr (Or.inl ⟨e, h, rfl⟩)
    | goals => exact Or.inr (Or.inr ⟨e, h, rfl⟩)

theorem nodup_planned {recentMemories : List MemoryEntry} (h : recentMemories.Nodup) :
    (planned recentMemories).Nodup := by
  have hpart : ∀ file, ((recentMemories.filter (belongs file)).map (file, ·)).Nodup := fun file =>
    (h.filter _).map fun x y heq => (Prod.mk.inj heq).2
  have hapart : ∀ (file file' : TelosFile), file ≠ file' → ∀ {p q : List MemoryEntry},
      ∀ a ∈ p.map (file, ·), ∀ b ∈ q.map (file', ·), a ≠ b := by
    intro file file' hne p q a ha b hb hab
    obtain ⟨x, -, rfl⟩ := List.mem_map.mp ha
    obtain ⟨y, -, rfl⟩ := List.mem_map.mp hb
    exact hne (Prod.mk.inj hab).1
  unfold planned
  refine List.nodup_append.mpr
    ⟨hpart _, List.nodup_append.mpr ⟨hpart _, hpart _, hapart .beliefs .goals nofun⟩, ?_⟩
  intro a ha b hb
  rcases List.mem_append.mp hb with hb | hb
  · exact hapart .experiences .beliefs nofun a ha b hb
  · exact hapart .experiences .goals nofun a ha b hb

end Reflect

section Step

variable {agent} {s : State} {t : Turn} {e : MemoryEntry}

variable (agent) in
theorem entries_subset_stored (s : State) (t : Turn) :
    ∀ e ∈ s.memories.entries, e ∈ (agent.stored s t).entries := by
  have hfold : ∀ (new : List MemoryEntry) (stream : KeyedStream), ∀ e ∈ stream.entries,
      e ∈ (new.foldl KeyedStream.add stream).entries := by
    intro new
    induction new with
    | nil => exact fun stream e he => he
    | cons entry new ih =>
      exact fun stream e he => ih _ e (KeyedStream.entries_subset_add stream entry e he)
  exact hfold _ _

theorem nodup_entries (stream : KeyedStream) : stream.entries.Nodup :=
  List.Nodup.of_map _ stream.ids_nodup

theorem recent_nodup (order : RecencyOrder) (stream : KeyedStream) (limit : Nat) :
    (stream.recent order limit).Nodup :=
  ((order.perm _).nodup_iff.mpr (nodup_entries stream)).sublist (List.take_sublist _ _)

theorem mem_of_mem_recent {order : RecencyOrder} {stream : KeyedStream} {limit : Nat}
    (h : e ∈ stream.recent order limit) : e ∈ stream.entries :=
  (order.perm _).mem_iff.mp (List.mem_of_mem_take h)

variable (agent) in
theorem recentMemories_nodup (s : State) (t : Turn) : (agent.recentMemories s t).Nodup := by
  unfold recentMemories
  split
  · exact List.nodup_nil
  · exact recent_nodup _ _ _

theorem mem_of_mem_recentMemories (h : e ∈ agent.recentMemories s t) :
    e ∈ (agent.stored s t).entries := by
  unfold recentMemories at h
  split at h
  · cases h
  · exact mem_of_mem_recent h

/-- An entry with few that are as new is among the recent ones, and one with many newer is not. -/
theorem recent_window (order : RecencyOrder) (stream : KeyedStream) (he : e ∈ stream.entries) :
    ((stream.entries.countP fun x => decide (e.createdAt ≤ x.createdAt)) ≤ 20 →
        e ∈ stream.recent order 20) ∧
      (20 ≤ (stream.entries.countP fun x => decide (e.createdAt < x.createdAt)) →
        e ∉ stream.recent order 20) := by
  have hperm := order.perm stream.entries
  have hsorted := order.sorted stream.entries
  constructor
  · intro hfew
    rw [← hperm.countP_eq] at hfew
    exact mem_take_of_countP hsorted (hperm.mem_iff.mpr he) hfew
  · intro hmany hin
    rw [← hperm.countP_eq] at hmany
    exact absurd (countP_above_lt hsorted hin) (not_lt.mpr hmany)

/-- A turn that ends with a reflection. -/
def Reflects (agent : LearningAgent) (s : State) (t : Turn) : Prop :=
  t.poisoned = false ∧ nextCount s % agent.turnsBeforeReflection = 0

instance (s : State) (t : Turn) : Decidable (agent.Reflects s t) := inferInstanceAs (Decidable (_ ∧ _))

variable (agent) in
/-- The step is a reflection that finds the entry and gets to it before an append fails. -/
def reaches (a : Append) : State × Step → Bool
  | (s, .turn t) => decide (agent.Reflects s t ∧ a ∈ planned (agent.recentMemories s t) ∧
      ∀ i < (planned (agent.recentMemories s t)).idxOf a + 1, t.io i = none)
  | (_, .write _) => false

variable (agent) in
theorem step_turn (s : State) (t : Turn) :
    (agent.Reflects s t ∧ agent.step s (.turn t) =
      (⟨agent.stored s t, (agent.reflect t.io s.telos (agent.recentMemories s t)).1.1, nextCount s⟩,
        (agent.reflect t.io s.telos (agent.recentMemories s t)).1.2)) ∨
    (¬agent.Reflects s t ∧ (agent.step s (.turn t)).2 = [] ∧
      (agent.step s (.turn t)).1.telos = s.telos ∧
        ((agent.step s (.turn t)).1.memories = s.memories ∨
          (agent.step s (.turn t)).1.memories = agent.stored s t)) := by
  unfold step postTurn Reflects
  dsimp only
  by_cases hpoisoned : t.poisoned = true
  · rw [if_pos hpoisoned]
    refine Or.inr ⟨fun h => ?_, rfl, rfl, Or.inl rfl⟩
    rw [hpoisoned] at h
    cases h.1
  · rw [if_neg hpoisoned]
    by_cases hdue : nextCount s % agent.turnsBeforeReflection = 0
    · rw [if_pos hdue]
      exact Or.inl ⟨⟨Bool.eq_false_iff.mpr hpoisoned, hdue⟩, rfl⟩
    · rw [if_neg hdue]
      exact Or.inr ⟨fun h => hdue h.2, rfl, rfl, Or.inr rfl⟩

theorem count_step (a : Append) (s : State) (o : Step) :
    (agent.step s o).2.count a = if agent.reaches a (s, o) then 1 else 0 := by
  cases o with
  | write entry => rfl
  | turn t =>
    rcases step_turn agent s t with ⟨hreflects, hstep⟩ | ⟨hnot, hnone, -, -⟩
    · obtain ⟨k, hk, hresult, hok, hend⟩ :=
        @reflect_spec agent t.io s.telos (agent.recentMemories s t)
      have hnodup := nodup_planned (recentMemories_nodup agent s t)
      have hreach : agent.reaches a (s, .turn t) = true ↔
          a ∈ (planned (agent.recentMemories s t)).take k := by
        unfold reaches
        rw [decide_eq_true_eq, and_iff_right hreflects]
        constructor
        · rintro ⟨hmem, hreached⟩
          rw [List.mem_take_iff_idxOf_lt hmem]
          by_contra hout
          rw [not_lt] at hout
          have hlength := List.idxOf_lt_length_of_mem hmem
          exact hend (hout.trans_lt hlength) (hreached k (Nat.lt_succ_of_le hout))
        · intro hmem
          have hin := List.mem_of_mem_take hmem
          have hbefore := (List.mem_take_iff_idxOf_lt hin).mp hmem
          exact ⟨hin, fun i hi => hok i (hi.trans_le hbefore)⟩
      rw [hstep, hresult]
      by_cases hmem : a ∈ (planned (agent.recentMemories s t)).take k
      · rw [if_pos (hreach.mpr hmem)]
        exact List.count_eq_one_of_mem (hnodup.sublist (List.take_sublist _ _)) hmem
      · rw [if_neg fun h => hmem (hreach.mp h)]
        exact List.count_eq_zero_of_not_mem hmem
    · have hfalse : agent.reaches a (s, .turn t) = false := by
        unfold reaches
        exact decide_eq_false fun h => hnot h.1
      rw [hnone, hfalse]
      rfl

theorem telos_step (s : State) (o : Step) :
    (agent.step s o).1.telos = (agent.step s o).2.foldl (Telos.append agent) s.telos := by
  cases o with
  | write entry => rfl
  | turn t =>
    rcases step_turn agent s t with ⟨-, hstep⟩ | ⟨-, hnone, htelos, -⟩
    · obtain ⟨k, -, hresult, -⟩ := @reflect_spec agent t.io s.telos (agent.recentMemories s t)
      rw [hstep, hresult]
    · rw [hnone, htelos]
      rfl

theorem entries_subset_step (s : State) (o : Step) :
    ∀ e ∈ s.memories.entries, e ∈ (agent.step s o).1.memories.entries := by
  intro e he
  cases o with
  | write entry => exact KeyedStream.entries_subset_add _ _ e he
  | turn t =>
    rcases step_turn agent s t with ⟨-, hstep⟩ | ⟨-, -, -, hsame | hstored⟩
    · rw [hstep]
      exact entries_subset_stored agent s t e he
    · rw [hsame]
      exact he
    · rw [hstored]
      exact entries_subset_stored agent s t e he

/-- What is appended belongs into its file and is in the stream. -/
theorem mem_step {a : Append} {s : State} {o : Step} (h : a ∈ (agent.step s o).2) :
    belongs a.1 a.2 = true ∧ a.2 ∈ (agent.step s o).1.memories.entries := by
  cases o with
  | write entry => cases h
  | turn t =>
    rcases step_turn agent s t with ⟨-, hstep⟩ | ⟨-, hnone, -, -⟩
    · obtain ⟨k, -, hresult, -⟩ := @reflect_spec agent t.io s.telos (agent.recentMemories s t)
      rw [hstep, hresult] at h
      rw [hstep]
      obtain ⟨hrecent, hbelongs⟩ := mem_planned.mp (List.mem_of_mem_take h)
      exact ⟨hbelongs, mem_of_mem_recentMemories hrecent⟩
    · rw [hnone] at h
      cases h

/-- How many entries are newer. -/
def newer (stream : KeyedStream) (e : MemoryEntry) : Nat :=
  stream.entries.countP fun x => decide (e.createdAt < x.createdAt)

theorem newer_mono {stream stream' : KeyedStream} (h : ∀ e ∈ stream.entries, e ∈ stream'.entries)
    (e : MemoryEntry) : newer stream e ≤ newer stream' e :=
  ((nodup_entries stream).subperm h).countP_le _

/-- Behind twenty newer entries a reflection does not reach an entry. -/
theorem reaches_eq_false {file : TelosFile} {s : State} (h : 20 ≤ newer s.memories e) (o : Step) :
    agent.reaches (file, e) (s, o) = false := by
  cases o with
  | write entry => rfl
  | turn t =>
    refine decide_eq_false fun hreached => ?_
    have hmem := (mem_planned.mp hreached.2.1).1
    have hmany := h.trans (newer_mono (entries_subset_stored agent s t) e)
    have hwindow := recent_window agent.order (agent.stored s t) (mem_of_mem_recentMemories hmem)
    unfold recentMemories at hmem
    split at hmem
    · cases hmem
    · exact hwindow.2 hmany hmem

end Step

/-- Ten turns between reflections. -/
private def byDefault : LearningAgent :=
  ⟨fun _ => false, RecencyOrder.stable, fun _ => [], .default, 10, by decide⟩

private def empty : State := ⟨⟨⟨[]⟩, List.nodup_nil⟩, fun _ => none, 0⟩

private def learned (n : Nat) : MemoryEntry :=
  ⟨.ofNat n, ['x'], .lesson, 8, n, Namespaces.personal⟩

/-- A turn with nothing to remember. -/
private def silent (io : Nat → Option (List Char)) : Step :=
  .turn ⟨[], ⟨fun _ => .ofNat 0, 0⟩, false, false, io⟩

private def fine : Nat → Option (List Char) := fun _ => none

private def secondFails : Nat → Option (List Char) := fun i => if i = 1 then some [] else none

end LearningAgent

end Gyre.Cognitive
