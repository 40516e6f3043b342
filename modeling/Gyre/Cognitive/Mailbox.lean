/- digest: When the messages to an agent are all listed, each once and in full. -/

import Gyre.Cognitive.A2a
import Gyre.Lib.Runs
import Mathlib.Data.List.Perm.Basic

/-!
A message is a task of the receiver's queue: its text is cut like any topic, it merges with any open
task of the same topic, and the list is taken from the hundred tasks in front.
-/

set_option autoImplicit false
set_option relaxedAutoImplicit false

namespace Gyre.Cognitive

open Gyre.Lib Gyre.Llm

section Format

/-- A sender and a text. -/
abbrev Note := List Char × List Char

/-- The sender and the text that a topic gives away. -/
def readNote (topic : List Char) : Option Note :=
  if "[FROM:".toList.isPrefixOf topic then Text.splitFirst "] ".toList (topic.drop 6) else none

private theorem splitFirst_eq_some {pat s : List Char} {parts : List Char × List Char}
    (h : Text.splitFirst pat s = some parts) : s = parts.1 ++ pat ++ parts.2 := by
  induction s generalizing parts with
  | nil =>
    rw [Text.splitFirst] at h
    split at h
    · next hempty =>
      cases h
      rw [List.isEmpty_iff.mp hempty]
      rfl
    · cases h
  | cons c cs ih =>
    rw [Text.splitFirst] at h
    split at h
    · next hfront =>
      cases h
      obtain ⟨rest, hrest⟩ := List.isPrefixOf_iff_prefix.mp hfront
      rw [← hrest, List.drop_left]
      rfl
    · obtain ⟨found, hfound, rfl⟩ := Option.map_eq_some_iff.mp h
      rw [ih hfound]
      rfl

private theorem splitFirst_of_not_mem {c : Char} {pat front rest : List Char} (h : c ∉ front) :
    Text.splitFirst (c :: pat) (front ++ (c :: pat) ++ rest) = some (front, rest) := by
  induction front with
  | nil => simp [Text.splitFirst]
  | cons d front ih =>
    have hd : (c == d) = false := by
      rw [beq_eq_false_iff_ne]
      exact fun heq => h (heq ▸ List.mem_cons_self)
    have hrest := ih fun hmem => h (List.mem_cons_of_mem d hmem)
    have hnot : (c :: pat).isPrefixOf (d :: (front ++ (c :: pat) ++ rest)) = false := by
      rw [List.isPrefixOf_cons_cons, hd, Bool.false_and]
    rw [List.cons_append, List.cons_append, Text.splitFirst, hnot, if_neg Bool.false_ne_true, hrest]
    rfl

private theorem append_four (a b c d : List Char) : a ++ b ++ c ++ d = a ++ (b ++ c ++ d) := by
  simp only [List.append_assoc]

private theorem formattedTask_eq (fromAgent task : List Char) :
    A2ARouter.formattedTask fromAgent task = "[FROM:".toList ++ (fromAgent ++ "] ".toList ++ task) :=
  append_four ..

private theorem opening_length : "[FROM:".toList.length = 6 := by decide

/-- What is read from a topic is what it was made of. -/
theorem formattedTask_of_readNote {topic : List Char} {note : Note} (h : readNote topic = some note) :
    topic = A2ARouter.formattedTask note.1 note.2 := by
  rw [formattedTask_eq]
  unfold readNote at h
  split at h
  · next hfront =>
    obtain ⟨rest, rfl⟩ := List.isPrefixOf_iff_prefix.mp hfront
    rw [List.drop_left' opening_length] at h
    exact congrArg _ (splitFirst_eq_some h)
  · cases h

/-- The sender and the text can be read from the topic. -/
theorem readNote_formattedTask {fromAgent : List Char} (h : ']' ∉ fromAgent) (task : List Char) :
    readNote (A2ARouter.formattedTask fromAgent task) = some (fromAgent, task) := by
  have hfront : "[FROM:".toList.isPrefixOf ("[FROM:".toList ++ (fromAgent ++ "] ".toList ++ task)) = true :=
    List.isPrefixOf_iff_prefix.mpr (List.prefix_append _ _)
  rw [formattedTask_eq, readNote, hfront, if_pos rfl, List.drop_left' opening_length]
  exact splitFirst_of_not_mem h

/-- A sender that is let through has no bracket in its name. -/
theorem sender_of_validate {r : A2ARouter} {msg : A2AMessage} (h : r.validate msg = .ok ()) :
    ']' ∉ msg.fromAgent := by
  intro hmem
  have hid : validateAgentId r.table msg.fromAgent = .ok () := by
    unfold A2ARouter.validate at h
    split at h
    · cases h
    · next hok => exact hok
  unfold validateAgentId at hid
  simp only at hid
  split at hid
  · cases hid
  · split at hid
    · cases hid
    · split at hid
      · cases hid
      · next hall =>
        simp only [Bool.not_eq_true', Bool.not_eq_false] at hall
        have hbracket := List.all_eq_true.mp hall ']' hmem
        simp [isAlphanumeric] at hbracket

end Format

section Mailbox

/-- The queue of an agent, and the messages to it that have not been popped. -/
structure Mailbox where
  queue : ResearchQueue
  inbox : List Note

/-- What happens to a queue. Other tasks than messages have other sources. -/
inductive MailEvent where
  | send (id : Uuid) (now : Int) (msg : A2AMessage)
  | push (id : Uuid) (now : Int) (topic : List Char) (priority : Rat)
      (source : { source : String // source ≠ "a2a" })
  | pop
  | markDone (id : Uuid) (completedAt : Int)
  | markFailed (id : Uuid) (reason : List Char)

variable (r : A2ARouter) (order : PriorityOrder)

/-- What popping a task takes out of the inbox. -/
def takeOut (inbox : List Note) (t : ResearchTask) : List Note :=
  if t.source = "a2a" then ((readNote t.topic).map inbox.erase).getD inbox else inbox

/-- One step; it emits the task that is popped. -/
def mailStep (m : Mailbox) : MailEvent → Mailbox × List ResearchTask
  | .send id now msg =>
    match r.send m.queue id now msg with
    | (queue, .ok _) => (⟨queue, m.inbox ++ [(msg.fromAgent, msg.task)]⟩, [])
    | (queue, .error _) => (⟨queue, m.inbox⟩, [])
  | .push id now topic priority source =>
    (⟨(m.queue.push id now topic priority source.val).1, m.inbox⟩, [])
  | .pop =>
    match m.queue.popNext order with
    | (queue, some t) => (⟨queue, takeOut m.inbox t⟩, [t])
    | (queue, none) => (⟨queue, m.inbox⟩, [])
  | .markDone id completedAt => (⟨m.queue.markDone id completedAt, m.inbox⟩, [])
  | .markFailed id reason => (⟨(m.queue.markFailed id reason).1, m.inbox⟩, [])

/-- Each message that has not been popped is listed once, as a message of its sender and in full, and
nothing else is. -/
def Listed (m : Mailbox) : Prop :=
  ((pendingMessages order m.queue).map fun t => (t.source, readNote t.topic)).Perm
    (m.inbox.map fun note => ("a2a", some note))

/-- No message is behind the first hundred tasks. -/
def Visible (q : ResearchQueue) : Prop :=
  ∀ t ∈ (order.sort q.pending).drop 100, t.source ≠ "a2a"

/-- A message that gets through fits into a topic, and no open task has that topic; and no message is
marked that has not been popped. -/
def Undisturbed (m : Mailbox) : MailEvent → Prop
  | .send id now msg => (r.send m.queue id now msg).2 = .ok () →
      ((A2ARouter.formattedTask msg.fromAgent msg.task).map Char.utf8Size).sum ≤ maxTopicLen ∧
        m.queue.openTask (A2ARouter.formattedTask msg.fromAgent msg.task) = none
  | .markDone id _ => ∀ t ∈ m.queue.pending, t.id = id → t.source ≠ "a2a"
  | .markFailed id _ => ∀ t ∈ m.queue.pending, t.id = id → t.source ≠ "a2a"
  | _ => True

end Mailbox

section Messages

/-- The messages among the pending tasks. -/
def ResearchQueue.messages (q : ResearchQueue) : List ResearchTask := q.pending.filter (·.source == "a2a")

variable {order : PriorityOrder} {q : ResearchQueue}

private theorem mem_messages {t : ResearchTask} :
    t ∈ q.messages ↔ t ∈ q.rows ∧ t.status = .pending ∧ t.source = "a2a" := by
  simp only [ResearchQueue.messages, ResearchQueue.pending, List.mem_filter, decide_eq_true_eq,
    beq_iff_eq, and_assoc]

/-- The list and what is behind its end are the messages. -/
private theorem pendingMessages_perm (order : PriorityOrder) (q : ResearchQueue) :
    (pendingMessages order q ++ ((order.sort q.pending).drop 100).filter (·.source == "a2a")).Perm
      q.messages := by
  rw [pendingMessages, ResearchQueue.peek, ← List.filter_append, List.take_append_drop]
  exact (order.perm q.pending).filter _

/-- What `push` can do: nothing, as the topic is taken; nothing, as the id is; or add a task. -/
theorem push_cases (q : ResearchQueue) (id : Uuid) (now : Int) (topic : List Char) (priority : Rat)
    (source : String) :
    (∃ existing, q.openTask (Text.cutBytes maxTopicLen topic) = some existing ∧
      q.push id now topic priority source = (q, .ok existing.id)) ∨
    (∃ error, q.push id now topic priority source = (q, .error error)) ∨
    (q.openTask (Text.cutBytes maxTopicLen topic) = none ∧ id ∉ q.rows.map (·.id) ∧
      q.push id now topic priority source = (⟨q.rows ++
        [ResearchQueue.newTask id now (Text.cutBytes maxTopicLen topic) priority source]⟩, .ok id)) := by
  unfold ResearchQueue.push
  dsimp only
  cases hopen : q.openTask (Text.cutBytes maxTopicLen topic) with
  | some existing => exact .inl ⟨existing, rfl, rfl⟩
  | none =>
    right
    dsimp only
    unfold ResearchQueue.insert
    split
    · exact .inl ⟨_, rfl⟩
    · next hfree =>
      refine .inr ⟨rfl, fun hmem => hfree ?_, rfl⟩
      obtain ⟨t, ht, hid⟩ := List.mem_map.mp hmem
      exact List.any_eq_true.mpr ⟨t, ht, beq_iff_eq.mpr hid⟩

private theorem messages_concat (t : ResearchTask) : (ResearchQueue.mk (q.rows ++ [t])).messages =
    q.messages ++ if t.status = .pending ∧ t.source = "a2a" then [t] else [] := by
  by_cases hpending : t.status = .pending <;> by_cases hsource : t.source = "a2a" <;>
    simp [ResearchQueue.messages, ResearchQueue.pending, hpending, hsource]

/-- A task that is written as no longer pending is no message any more. -/
private theorem messages_update {f : ResearchTask → ResearchTask} (hf : ∀ t, (f t).status ≠ .pending)
    (id : Uuid) : (q.update id f).messages = q.messages.filter fun t => t.id ≠ id := by
  simp only [ResearchQueue.messages, ResearchQueue.pending, ResearchQueue.update, List.filter_map,
    List.filter_filter]
  rw [List.filter_congr (q := fun t =>
    decide (t.id ≠ id) && (t.source == "a2a" && decide (t.status = .pending)))]
  · refine (List.map_congr_left fun t ht => ?_).trans (List.map_id _)
    have hne := (List.mem_filter.mp ht).2
    simp only [Bool.and_eq_true, decide_eq_true_eq] at hne
    exact if_neg hne.1
  · intro t _
    by_cases hid : t.id = id
    · simp [hid, hf]
    · simp [hid]

end Messages

section Steps

variable {r : A2ARouter} {order : PriorityOrder} {m : Mailbox}

/-- The messages among the tasks are those of the inbox. -/
structure Kept (m : Mailbox) : Prop where
  ids : (m.queue.rows.map (·.id)).Nodup
  short : ∀ t ∈ m.queue.rows, (t.topic.map Char.utf8Size).sum ≤ maxTopicLen
  notes : (m.queue.messages.map fun t => readNote t.topic).Perm (m.inbox.map some)

private theorem listed_eq (order : PriorityOrder) (m : Mailbox) : Listed order m ↔
    ((pendingMessages order m.queue).map fun t => readNote t.topic).Perm (m.inbox.map some) := by
  have hleft : ((pendingMessages order m.queue).map fun t => (t.source, readNote t.topic)) =
      ((pendingMessages order m.queue).map fun t => readNote t.topic).map fun n => ("a2a", n) := by
    rw [List.map_map]
    refine List.map_congr_left fun t ht => ?_
    have hsource : t.source = "a2a" := by simpa using (List.mem_filter.mp ht).2
    rw [hsource]
    rfl
  have hright : (m.inbox.map fun note => ("a2a", some note)) =
      (m.inbox.map some).map fun n : Option Note => ("a2a", n) := by
    rw [List.map_map]
    rfl
  rw [Listed, hleft, hright]
  exact List.map_perm_map_iff fun a b h => (Prod.mk.inj h).2

/-- Where the messages are those of the inbox, they are listed exactly if the list reaches far enough. -/
private theorem listed_iff (hm : Kept m) : Listed order m ↔ Visible order m.queue := by
  have hperm := pendingMessages_perm order m.queue
  have hlen := hperm.length_eq
  have hnotes := hm.notes.length_eq
  rw [listed_eq]
  simp only [List.length_append, List.length_map] at hlen hnotes
  constructor
  · intro h t ht hsource
    have hlisted := h.length_eq
    simp only [List.length_map] at hlisted
    have hbehind : t ∈ ((order.sort m.queue.pending).drop 100).filter (·.source == "a2a") :=
      List.mem_filter.mpr ⟨ht, by simpa using hsource⟩
    have hpos := List.length_pos_of_mem hbehind
    omega
  · intro h
    have hnone : ((order.sort m.queue.pending).drop 100).filter (·.source == "a2a") = [] := by
      rw [List.filter_eq_nil_iff]
      intro t ht
      simpa using h t ht
    rw [hnone, List.append_nil] at hperm
    exact (hperm.map _).trans hm.notes

/-- A list is never longer than the messages. -/
private theorem listed_length (h : Listed order m) : m.inbox.length ≤ m.queue.messages.length := by
  have hlen := (pendingMessages_perm order m.queue).length_eq
  have hlisted := ((listed_eq order m).mp h).length_eq
  simp only [List.length_append, List.length_map] at hlen hlisted
  omega

private theorem short_newTask {id : Uuid} {now : Int} {topic : List Char} {priority : Rat}
    {source : String} (h : ∀ t ∈ m.queue.rows, (t.topic.map Char.utf8Size).sum ≤ maxTopicLen) :
    ∀ t ∈ m.queue.rows ++
      [ResearchQueue.newTask id now (Text.cutBytes maxTopicLen topic) priority source],
        (t.topic.map Char.utf8Size).sum ≤ maxTopicLen := by
  intro t ht
  rcases List.mem_append.mp ht with ht | ht
  · exact h t ht
  · rw [List.mem_singleton.mp ht]
    exact Text.cutBytes_le _ _

/-- What a send does that gets through or fails. -/
private theorem send_cases (id : Uuid) (now : Int) (msg : A2AMessage) :
    (∃ error, (r.send m.queue id now msg) = (m.queue, .error error)) ∨
    (r.validate msg = .ok () ∧ ∃ result,
      r.send m.queue id now msg = ((m.queue.push id now
        (A2ARouter.formattedTask msg.fromAgent msg.task) msg.priority "a2a").1, .ok ()) ∧
      (m.queue.push id now (A2ARouter.formattedTask msg.fromAgent msg.task) msg.priority "a2a").2 =
        .ok result) := by
  unfold A2ARouter.send
  cases hvalid : r.validate msg with
  | error e => exact .inl ⟨e, rfl⟩
  | ok u =>
    rcases push_cases m.queue id now (A2ARouter.formattedTask msg.fromAgent msg.task) msg.priority "a2a" with
      ⟨existing, -, hpush⟩ | ⟨error, hpush⟩ | ⟨-, -, hpush⟩
    · rw [hpush]
      exact .inr ⟨rfl, _, rfl, rfl⟩
    · rw [hpush]
      exact .inl ⟨_, rfl⟩
    · rw [hpush]
      exact .inr ⟨rfl, _, rfl, rfl⟩

private theorem kept_insert {t : ResearchTask} {inbox : List Note} (hm : Kept m)
    (hid : t.id ∉ m.queue.rows.map (·.id)) (hshort : (t.topic.map Char.utf8Size).sum ≤ maxTopicLen)
    (hnotes : ((ResearchQueue.mk (m.queue.rows ++ [t])).messages.map fun t => readNote t.topic).Perm
      (inbox.map some)) : Kept ⟨⟨m.queue.rows ++ [t]⟩, inbox⟩ := by
  refine ⟨?_, ?_, hnotes⟩
  · rw [List.map_append, List.nodup_append]
    refine ⟨hm.ids, List.nodup_singleton _, fun a ha b hb heq => hid ?_⟩
    have hsame : a = t.id := heq.trans (List.mem_singleton.mp hb)
    exact hsame ▸ ha
  · intro s hs
    rcases List.mem_append.mp hs with hs | hs
    · exact hm.short s hs
    · rwa [List.mem_singleton.mp hs]

/-- A task that is written as no longer pending leaves the messages. -/
private theorem kept_update {f : ResearchTask → ResearchTask} {id : Uuid} {inbox : List Note}
    (hm : Kept m) (hf : ∀ t, (f t).status ≠ .pending ∧ (f t).id = t.id ∧ (f t).topic = t.topic)
    (hnotes : ((m.queue.messages.filter fun t => t.id ≠ id).map fun t => readNote t.topic).Perm
      (inbox.map some)) : Kept ⟨m.queue.update id f, inbox⟩ := by
  refine ⟨?_, ?_, ?_⟩
  · have hids : (m.queue.update id f).rows.map (·.id) = m.queue.rows.map (·.id) := by
      rw [ResearchQueue.update, List.map_map]
      refine List.map_congr_left fun t _ => ?_
      rw [Function.comp_apply]
      split
      · exact (hf t).2.1
      · rfl
    exact hids ▸ hm.ids
  · intro s hs
    obtain ⟨t, ht, rfl⟩ := List.mem_map.mp hs
    split
    · rw [(hf t).2.2]
      exact hm.short t ht
    · exact hm.short t ht
  · rw [messages_update fun t => (hf t).1]
    exact hnotes

private theorem messages_filter_self {id : Uuid} (h : ∀ t ∈ m.queue.pending, t.id = id → t.source ≠ "a2a") :
    m.queue.messages.filter (fun t => t.id ≠ id) = m.queue.messages := by
  rw [List.filter_eq_self]
  intro t ht
  refine decide_eq_true fun hid => ?_
  obtain ⟨hpending, hsource⟩ := List.mem_filter.mp ht
  exact h t hpending hid (by simpa using hsource)

/-- A popped task leaves the messages as it leaves the inbox. -/
private theorem notes_takeOut (hm : Kept m) {t : ResearchTask} (ht : t ∈ m.queue.pending) :
    ((m.queue.messages.filter fun s => s.id ≠ t.id).map fun s => readNote s.topic).Perm
      ((takeOut m.inbox t).map some) := by
  have hrow : t ∈ m.queue.rows := (List.mem_filter.mp ht).1
  have hsame {s : ResearchTask} (hs : s ∈ m.queue.pending) (hid : s.id = t.id) : s = t :=
    List.inj_on_of_nodup_map hm.ids (List.mem_filter.mp hs).1 hrow hid
  by_cases hsource : t.source = "a2a"
  · have hmessage : t ∈ m.queue.messages := List.mem_filter.mpr ⟨ht, by simpa using hsource⟩
    have hnodup : m.queue.messages.Nodup :=
      ((hm.ids.of_map _).filter _).filter _
    have hothers : (m.queue.messages.filter fun s => s.id ≠ t.id) = m.queue.messages.erase t := by
      rw [hnodup.erase_eq_filter]
      refine List.filter_congr fun s hs => ?_
      have hid : s.id ≠ t.id ↔ s ≠ t :=
        not_congr ⟨hsame (List.mem_filter.mp hs).1, fun heq => heq ▸ rfl⟩
      simp [hid, bne, beq_eq_decide]
    have hcons := (List.perm_cons_erase hmessage).map fun s => readNote s.topic
    have hread : readNote t.topic ∈ m.inbox.map some :=
      hm.notes.mem_iff.mp (List.mem_map_of_mem hmessage)
    obtain ⟨note, hnote, heq⟩ := List.mem_map.mp hread
    have htaken : takeOut m.inbox t = m.inbox.erase note := by
      rw [takeOut, if_pos hsource, ← heq]
      rfl
    have hinbox := (List.perm_cons_erase hnote).map some
    rw [hothers, htaken]
    refine List.Perm.cons_inv (hcons.symm.trans (hm.notes.trans ?_))
    show (m.inbox.map some).Perm (readNote t.topic :: (m.inbox.erase note).map some)
    rw [← heq]
    exact hinbox
  · have hall : ∀ s ∈ m.queue.pending, s.id = t.id → s.source ≠ "a2a" :=
      fun s hs hid => hsame hs hid ▸ hsource
    rw [messages_filter_self hall, takeOut, if_neg hsource]
    exact hm.notes

/-- Steps that disturb no message keep the messages those of the inbox. -/
private theorem kept_step {e : MailEvent} (hm : Kept m) (h : Undisturbed r m e) :
    Kept (mailStep r order m e).1 := by
  cases e with
  | send id now msg =>
    rcases send_cases (r := r) (m := m) id now msg with ⟨error, hsend⟩ | ⟨hvalid, result, hsend, hpush⟩
    · simp only [mailStep, hsend]
      exact hm
    · obtain ⟨hfits, hfree⟩ := h (by rw [hsend])
      have hcut := Text.cutBytes_of_le hfits
      simp only [mailStep, hsend]
      rcases push_cases m.queue id now (A2ARouter.formattedTask msg.fromAgent msg.task) msg.priority
        "a2a" with ⟨existing, hopen, -⟩ | ⟨error, herror⟩ | ⟨-, hid, hpushed⟩
      · rw [hcut, hfree] at hopen
        cases hopen
      · rw [herror] at hpush
        cases hpush
      · rw [hpushed]
        refine kept_insert hm hid (Text.cutBytes_le _ _) ?_
        rw [messages_concat, if_pos ⟨rfl, rfl⟩, List.map_append, List.map_append]
        refine hm.notes.append (List.Perm.of_eq ?_)
        rw [List.map_singleton, List.map_singleton]
        simp only [ResearchQueue.newTask, hcut, readNote_formattedTask (sender_of_validate hvalid)]
  | push id now topic priority source =>
    simp only [mailStep]
    rcases push_cases m.queue id now topic priority source.val with
      ⟨existing, -, hpush⟩ | ⟨error, hpush⟩ | ⟨-, hid, hpush⟩
    · rw [hpush]
      exact hm
    · rw [hpush]
      exact hm
    · rw [hpush]
      refine kept_insert hm hid (Text.cutBytes_le _ _) ?_
      rw [messages_concat, if_neg fun hsource => source.property hsource.2, List.append_nil]
      exact hm.notes
  | pop =>
    simp only [mailStep, ResearchQueue.popNext]
    cases hnext : m.queue.nextTask order with
    | none => exact hm
    | some t =>
      have ht : t ∈ m.queue.pending :=
        (order.perm _).mem_iff.mp (List.mem_of_mem_head? hnext)
      have hnotes := notes_takeOut hm ht
      exact kept_update hm (fun s => ⟨by simp, rfl, rfl⟩) hnotes
  | markDone id completedAt =>
    refine kept_update hm (fun s => ⟨by simp, rfl, rfl⟩) ?_
    rw [messages_filter_self h]
    exact hm.notes
  | markFailed id reason =>
    simp only [mailStep, ResearchQueue.markFailed]
    split
    · refine kept_update hm (fun s => ⟨?_, rfl, rfl⟩) ?_
      · simp only [ResearchQueue.failOnce]
        split <;> simp
      · rw [messages_filter_self h]
        exact hm.notes
    · exact hm

/-- Where the list is right after a step, the step disturbed no message. -/
private theorem undisturbed_of_listed {e : MailEvent} (hm : Kept m)
    (h : Listed order (mailStep r order m e).1) : Undisturbed r m e := by
  have hlen := hm.notes.length_eq
  simp only [List.length_map] at hlen
  have hmarked {id : Uuid} (hle : m.inbox.length ≤ (m.queue.messages.filter fun t => t.id ≠ id).length) :
      ∀ t ∈ m.queue.pending, t.id = id → t.source ≠ "a2a" := by
    intro t ht hid hsource
    have hmessage : t ∈ m.queue.messages := List.mem_filter.mpr ⟨ht, by simpa using hsource⟩
    have hfewer : (m.queue.messages.filter fun t => t.id ≠ id).length < m.queue.messages.length :=
      List.length_filter_lt_length_iff_exists.mpr ⟨t, hmessage, by simpa using hid⟩
    omega
  cases e with
  | send id now msg =>
    intro hok
    rcases send_cases (r := r) (m := m) id now msg with ⟨error, hsend⟩ | ⟨hvalid, result, hsend, hpush⟩
    · rw [hsend] at hok
      cases hok
    · simp only [mailStep, hsend] at h
      rcases push_cases m.queue id now (A2ARouter.formattedTask msg.fromAgent msg.task) msg.priority
        "a2a" with ⟨existing, hopen, hpushed⟩ | ⟨error, herror⟩ | ⟨hfree, hid, hpushed⟩
      · rw [hpushed] at h
        have hlisted := listed_length h
        simp only [List.length_append, List.length_singleton] at hlisted
        omega
      · rw [herror] at hpush
        cases hpush
      · rw [hpushed] at h
        -- The message is listed in full, so its topic is a task's.
        have hread : some (msg.fromAgent, msg.task) ∈
            (m.inbox ++ [(msg.fromAgent, msg.task)]).map some :=
          List.mem_map_of_mem (List.mem_append_right _ List.mem_cons_self)
        obtain ⟨t, ht, heq⟩ := List.mem_map.mp (((listed_eq order _).mp h).mem_iff.mpr hread)
        have htopic := formattedTask_of_readNote heq
        have hrow : t ∈ m.queue.rows ++ [ResearchQueue.newTask id now (Text.cutBytes maxTopicLen
            (A2ARouter.formattedTask msg.fromAgent msg.task)) msg.priority "a2a"] := by
          have hsorted := List.mem_of_mem_take (List.mem_filter.mp ht).1
          exact (List.mem_filter.mp ((order.perm _).mem_iff.mp hsorted)).1
        have hfits := short_newTask hm.short t hrow
        rw [htopic] at hfits
        rw [Text.cutBytes_of_le hfits] at hfree
        exact ⟨hfits, hfree⟩
  | push id now topic priority source => trivial
  | pop => trivial
  | markDone id completedAt =>
    have hlisted := listed_length h
    simp only [mailStep, ResearchQueue.markDone] at hlisted
    rw [messages_update fun t => by simp] at hlisted
    exact hmarked hlisted
  | markFailed id reason =>
    have hlisted := listed_length h
    simp only [mailStep, ResearchQueue.markFailed] at hlisted
    split at hlisted
    · rw [messages_update fun t => by unfold ResearchQueue.failOnce; dsimp only; split <;> simp] at hlisted
      exact hmarked hlisted
    · next hnone =>
      intro t ht hid
      have hany : (m.queue.rows.any fun t => t.id == id) = true :=
        List.any_eq_true.mpr ⟨t, (List.mem_filter.mp ht).1, beq_iff_eq.mpr hid⟩
      exact absurd hany hnone

/-- In a run from an empty queue the messages are listed after every step, each once and in full,
exactly if no step disturbs one and the list reaches far enough. -/
theorem mailbox_listed_iff (r : A2ARouter) (order : PriorityOrder) (events : List MailEvent) :
    (∀ p ∈ visited (mailStep r order) ⟨⟨[]⟩, []⟩ events, Listed order (mailStep r order p.1 p.2).1) ↔
      ∀ p ∈ visited (mailStep r order) ⟨⟨[]⟩, []⟩ events,
        Undisturbed r p.1 p.2 ∧ Visible order (mailStep r order p.1 p.2).1.queue := by
  have hstart : Kept ⟨⟨[]⟩, []⟩ := ⟨List.nodup_nil, fun t ht => absurd ht List.not_mem_nil, .nil⟩
  have hkeep (m : Mailbox) (e : MailEvent) (hm : Kept m)
      (h : Undisturbed r m e ∧ Visible order (mailStep r order m e).1.queue) :
      Kept (mailStep r order m e).1 := kept_step hm h.1
  have hexact (m : Mailbox) (e : MailEvent) (hm : Kept m) : Listed order (mailStep r order m e).1 ↔
      Undisturbed r m e ∧ Visible order (mailStep r order m e).1.queue := by
    constructor
    · intro h
      have hquiet := undisturbed_of_listed hm h
      exact ⟨hquiet, (listed_iff (kept_step hm hquiet)).mp h⟩
    · rintro ⟨hquiet, hvisible⟩
      exact (listed_iff (kept_step hm hquiet)).mpr hvisible
  exact visited_iff hstart hkeep hexact events

private instance (order : PriorityOrder) (m : Mailbox) : Decidable (Listed order m) :=
  inferInstanceAs (Decidable (List.Perm _ _))

private def kimiRouter : A2ARouter := ⟨fun _ => false, "/agents", ["kimi".toList, "teagan".toList]⟩

private def toTeagan (text : List Char) : MailEvent :=
  .send (Uuid.ofNat 0) 0 ⟨"kimi".toList, "teagan".toList, text, 5⟩

private def errand (n : Nat) (topic : List Char) : MailEvent :=
  .push (Uuid.ofNat (n + 1)) n topic 10 ⟨"manual", by decide⟩

/-- A long message is cut, one whose topic is taken is merged away, and one behind a hundred other
tasks is not listed. -/
theorem messages_unlisted :
    ¬ Listed .stable (run (mailStep kimiRouter .stable) ⟨⟨[]⟩, []⟩
      [toTeagan (List.replicate 489 'x')]).1 ∧
    ¬ Listed .stable (run (mailStep kimiRouter .stable) ⟨⟨[]⟩, []⟩
      [errand 0 "[FROM:kimi] hello".toList, toTeagan "hello".toList]).1 ∧
    ¬ Listed .stable (run (mailStep kimiRouter .stable) ⟨⟨[]⟩, []⟩
      (toTeagan "hello".toList :: (List.range 100).map fun n => errand n (Nat.toDigits 10 n))).1 := by
  refine ⟨?_, ?_, ?_⟩ <;> decide +kernel

end Steps

end Gyre.Cognitive
