/- digest: The log stream of the web gateway: recent entries, then live ones, and no gap between the two. -/

import Gyre.Lib.Broadcast
import Gyre.Lib.Counting
import Gyre.Lib.Reach
import Gyre.Safety.LeakDetector

/-!
A call of `send` is three steps (the entry is scrubbed, put into the ring buffer, broadcast) and a
connection two (the receiver is attached, the ring buffer is copied). Between any two of them everything
else may happen, so the ring and the channel may take the same entries in different orders.
-/

set_option autoImplicit false
set_option relaxedAutoImplicit false

namespace Gyre.Channels.Web.LogStream

open Gyre.Lib Gyre.Safety

/-- `HISTORY_CAP`. -/
def historyCap : Nat := 500

structure LogEntry where
  level : String
  target : String
  message : List Char
  timestamp : String

/-- The first step of `send`: what the leak detector leaves of the message. -/
def scrub (detector : LeakDetector) (entry : LogEntry) : LogEntry :=
  match detector.scanAndClean entry.message with
  | .ok message => { entry with message := message }
  | .error _ => { entry with message := "[log message redacted: contained blocked secret]".toList }

/-- A scrubbed entry, with the number of the call of `send` that it comes from. -/
structure Line where
  call : Nat
  entry : LogEntry

inductive SendPhase where
  | scrubbed
  | stashed
  | sent
  deriving DecidableEq, Repr

structure SendCall where
  entry : LogEntry
  phase : SendPhase

/-- The ring buffer takes an entry in, and drops the oldest one when it is full. -/
def stash (recent : List Line) (line : Line) : List Line :=
  (if historyCap ≤ recent.length then recent.tail else recent) ++ [line]

/-- A connection of `logs_events_handler`: the place where its receiver was attached and the one where it
is now, the copy of the ring buffer with the number of entries which the ring had taken in by then, how
much of the copy has been replayed, and what the receiver has got and has skipped since. -/
structure Client where
  start : Nat
  next : Nat
  copied : Option Nat
  history : List Line
  replayed : Nat
  live : List Line
  skipped : List Line

def Client.subscribe (tx : Broadcast Line) : Client :=
  ⟨tx.sent.length, tx.sent.length, none, [], 0, [], []⟩

/-- The history comes first; of the live stream the entries alone are kept. -/
def Client.poll (tx : Broadcast Line) (c : Client) : Client :=
  match c.copied with
  | none => c
  | some _ =>
    if c.replayed < c.history.length then { c with replayed := c.replayed + 1 }
    else
      match tx.recv c.next with
      | .item line next => { c with next := next, live := c.live ++ [line] }
      | .lagged skipped next =>
        { c with next := next, skipped := c.skipped ++ (tx.sent.drop c.next).take skipped }
      | .empty => c

/-- The broadcaster, with all that its ring buffer ever took in, and everybody who uses it. -/
structure LogWorld where
  recent : List Line
  stashed : List Line
  tx : Broadcast Line
  calls : List SendCall
  clients : List Client

def LogWorld.new : LogWorld := ⟨[], [], ⟨[], 512⟩, [], []⟩

inductive Action where
  | send (entry : LogEntry)
  | proceed (call : Nat)
  | subscribe
  | copyRecent (client : Nat)
  | poll (client : Nat)

/-- One step of a call of `send`. -/
def LogWorld.proceed (detector : LeakDetector) (w : LogWorld) (i : Nat) (call : SendCall) : LogWorld :=
  let line : Line := ⟨i, scrub detector call.entry⟩
  match call.phase with
  | .scrubbed =>
    { w with
      recent := stash w.recent line
      stashed := w.stashed ++ [line]
      calls := w.calls.set i { call with phase := .stashed } }
  | .stashed => { w with tx := w.tx.send line, calls := w.calls.set i { call with phase := .sent } }
  | .sent => w

/-- `recent_entries`, once for a connection. -/
def LogWorld.copyRecent (w : LogWorld) (c : Client) : Client :=
  match c.copied with
  | none => { c with copied := some w.stashed.length, history := w.recent }
  | some _ => c

def LogWorld.step (detector : LeakDetector) (w : LogWorld) : Action → LogWorld
  | .send entry => { w with calls := w.calls ++ [⟨entry, .scrubbed⟩] }
  | .proceed i =>
    match w.calls[i]? with
    | some call => w.proceed detector i call
    | none => w
  | .subscribe => { w with clients := w.clients ++ [.subscribe w.tx] }
  | .copyRecent i =>
    match w.clients[i]? with
    | some c => { w with clients := w.clients.set i (w.copyRecent c) }
    | none => w
  | .poll i =>
    match w.clients[i]? with
    | some c => { w with clients := w.clients.set i (c.poll w.tx) }
    | none => w

/-- What the world is after some actions, in any order. -/
def LogWorld.run (detector : LeakDetector) (actions : List Action) : LogWorld :=
  actions.foldl (LogWorld.step detector) .new

section Ring

variable {stashed : List Line}

/-- The ring buffer holds the newest entries that it has taken in. -/
theorem stash_newest (line : Line) :
    stash (stashed.drop (stashed.length - historyCap)) line =
      (stashed ++ [line]).drop ((stashed ++ [line]).length - historyCap) := by
  have hlength : (stashed ++ [line]).length = stashed.length + 1 := List.length_append
  rw [hlength]
  unfold stash
  rw [List.length_drop]
  by_cases hfull : historyCap ≤ stashed.length
  · have hnext : stashed.length + 1 - historyCap = stashed.length - historyCap + 1 := by omega
    have hpos : 0 < historyCap := by decide
    rw [if_pos (by omega), List.tail_drop, hnext, List.drop_append_of_le_length (by omega)]
  · have hall : stashed.length - historyCap = 0 := by omega
    have hall' : stashed.length + 1 - historyCap = 0 := by omega
    rw [if_neg (by omega), hall, hall', List.drop_zero, List.drop_zero]

/-- An entry that the ring has taken in is still there, unless the ring is full of later ones. -/
theorem mem_newest_or_evicted {line : Line} (h : line ∈ stashed) :
    line ∈ stashed.drop (stashed.length - historyCap) ∨
      (stashed.drop (stashed.length - historyCap)).length = historyCap ∧
        line ∈ stashed.take (stashed.length - historyCap) := by
  rw [← List.take_append_drop (stashed.length - historyCap) stashed] at h
  rcases List.mem_append.mp h with hold | hnew
  · refine .inr ⟨?_, hold⟩
    have hsome := List.length_pos_of_mem hold
    rw [List.length_take] at hsome
    rw [List.length_drop]
    omega
  · exact .inl hnew

end Ring

section Receivers

variable {sent : List Line} {start next next' : Nat}

/-- What a receiver passes by when it moves on. -/
theorem passed_append (hstart : start ≤ next) (hmove : next ≤ next') (hnext : next ≤ sent.length) :
    (sent.take next').drop start = (sent.take next).drop start ++ (sent.drop next).take (next' - next) := by
  obtain ⟨moved, rfl⟩ := Nat.exists_eq_add_of_le hmove
  rw [List.take_add, Nat.add_sub_cancel_left, List.drop_append_of_le_length]
  rw [List.length_take]
  omega

/-- Where a receiver goes that has fallen behind, and how much it skips. -/
theorem skipped_of_lagged {tx : Broadcast Line} {skipped : Nat} (h : tx.recv next = .lagged skipped next') :
    skipped = next' - next ∧ next < next' ∧ next' = tx.oldest := by
  unfold Broadcast.recv at h
  split at h
  · next hbehind =>
    cases h
    exact ⟨rfl, hbehind, rfl⟩
  · split at h <;> cases h

/-- A receiver that waits has come to the end. -/
theorem end_of_empty {tx : Broadcast Line} (h : tx.recv next = .empty) : tx.sent.length ≤ next := by
  unfold Broadcast.recv at h
  split at h
  · cases h
  · split at h
    · cases h
    · next hnone => exact List.getElem?_eq_none_iff.mp hnone

end Receivers

/-- What holds of a connection, by what the ring and the channel have taken. -/
structure Client.Sound (stashed : List Line) (tx : Broadcast Line) (c : Client) : Prop where
  places : c.start ≤ c.next ∧ c.next ≤ tx.sent.length
  copy : ∀ n, c.copied = some n →
    n ≤ stashed.length ∧ c.history = (stashed.take n).drop ((stashed.take n).length - historyCap) ∧
      ∀ line ∈ tx.sent.take c.start, line ∈ stashed.take n
  opening : c.copied = none → c.history = []
  passed : (c.live ++ c.skipped).Perm ((tx.sent.take c.next).drop c.start)
  inOrder : c.live.Sublist ((tx.sent.take c.next).drop c.start)
  behind : ∀ line ∈ c.skipped, line ∈ tx.sent.take tx.oldest

namespace Client.Sound

variable {stashed : List Line} {tx tx' : Broadcast Line} {c : Client}

/-- Whatever is logged later leaves a connection as it is. -/
theorem grow (h : c.Sound stashed tx) (stashed' : List Line) {sent' : List Line}
    (hsent : tx'.sent = tx.sent ++ sent') (hcapacity : tx'.capacity = tx.capacity) :
    c.Sound (stashed ++ stashed') tx' := by
  have hstart := h.places.1.trans h.places.2
  have holdest : tx.oldest ≤ tx'.oldest := by
    unfold Broadcast.oldest
    rw [hsent, hcapacity, List.length_append]
    omega
  refine ⟨⟨h.places.1, ?_⟩, ?_, h.opening, ?_, ?_, ?_⟩
  · rw [hsent, List.length_append]
    exact h.places.2.trans (Nat.le_add_right _ _)
  · intro n hn
    obtain ⟨hle, hhistory, hearlier⟩ := h.copy n hn
    rw [hsent, List.take_append_of_le_length hle, List.take_append_of_le_length hstart]
    refine ⟨?_, hhistory, hearlier⟩
    rw [List.length_append]
    exact hle.trans (Nat.le_add_right _ _)
  · rw [hsent, List.take_append_of_le_length h.places.2]
    exact h.passed
  · rw [hsent, List.take_append_of_le_length h.places.2]
    exact h.inOrder
  · intro line hline
    rw [hsent]
    refine List.take_subset_take_left _ holdest ?_
    rw [List.take_append]
    exact List.mem_append_left _ (h.behind line hline)

theorem subscribe (stashed : List Line) (tx : Broadcast Line) : (Client.subscribe tx).Sound stashed tx := by
  have hnone : (tx.sent.take tx.sent.length).drop tx.sent.length = [] := by simp
  refine ⟨⟨le_rfl, le_rfl⟩, fun n hn => ?_, fun _ => rfl, ?_, List.nil_sublist _, fun line hline => ?_⟩
  · cases hn
  · change ([] : List Line).Perm ((tx.sent.take tx.sent.length).drop tx.sent.length)
    rw [hnone]
  · cases hline

/-- The ring buffer is copied after the receiver is attached: what was broadcast before is in the ring, or
has been. -/
theorem copyRecent {w : LogWorld} (h : c.Sound w.stashed w.tx)
    (hrecent : w.recent = w.stashed.drop (w.stashed.length - historyCap))
    (hannounced : ∀ line ∈ w.tx.sent, line ∈ w.stashed) : (w.copyRecent c).Sound w.stashed w.tx := by
  unfold LogWorld.copyRecent
  split
  · refine ⟨h.places, fun n hn => ?_, fun hn => ?_, h.passed, h.inOrder, h.behind⟩
    · cases hn
      rw [List.take_length]
      exact ⟨le_rfl, hrecent, fun line hline => hannounced line (List.mem_of_mem_take hline)⟩
    · cases hn
  · exact h

theorem poll (h : c.Sound stashed tx) : (c.poll tx).Sound stashed tx := by
  unfold Client.poll
  split
  · exact h
  split
  · exact ⟨h.places, h.copy, h.opening, h.passed, h.inOrder, h.behind⟩
  split
  · next line next hrecv =>
    obtain ⟨rfl, hlt, hwaits⟩ := Broadcast.drop_of_recv hrecv
    have hone : (tx.sent.drop c.next).take (c.next + 1 - c.next) = [line] := by
      rw [hwaits, Nat.add_sub_cancel_left]
      rfl
    have hpassed := passed_append h.places.1 (Nat.le_succ c.next) h.places.2
    rw [hone] at hpassed
    refine ⟨⟨h.places.1.trans (Nat.le_succ _), hlt⟩, h.copy, h.opening, ?_, ?_, h.behind⟩
    · change ((c.live ++ [line]) ++ c.skipped).Perm ((tx.sent.take (c.next + 1)).drop c.start)
      rw [hpassed, List.append_assoc]
      refine (List.Perm.append_left c.live List.perm_append_comm).trans ?_
      rw [← List.append_assoc]
      exact h.passed.append_right [line]
    · change (c.live ++ [line]).Sublist ((tx.sent.take (c.next + 1)).drop c.start)
      rw [hpassed]
      exact h.inOrder.append (List.Sublist.refl _)
  · next skipped next hrecv =>
    obtain ⟨rfl, hmove, holdest⟩ := skipped_of_lagged hrecv
    have hpassed := passed_append h.places.1 hmove.le h.places.2
    refine ⟨⟨h.places.1.trans hmove.le, holdest ▸ Nat.sub_le _ _⟩, h.copy, h.opening, ?_, ?_, ?_⟩
    · change (c.live ++ (c.skipped ++ (tx.sent.drop c.next).take (next - c.next))).Perm
        ((tx.sent.take next).drop c.start)
      rw [hpassed, ← List.append_assoc]
      exact h.passed.append_right _
    · change c.live.Sublist ((tx.sent.take next).drop c.start)
      rw [hpassed]
      exact h.inOrder.trans (List.sublist_append_left _ _)
    · intro line hline
      rcases List.mem_append.mp hline with hbefore | hnow
      · exact h.behind line hbefore
      · rw [← List.drop_take, holdest] at hnow
        exact List.mem_of_mem_drop hnow
  · exact h

end Client.Sound

/-- What holds of the broadcaster: the ring buffer is the newest that it has taken in, each call puts one
line into it and broadcasts that line later, and connections are sound. -/
structure Coherent (detector : LeakDetector) (w : LogWorld) : Prop where
  capacity : w.tx.capacity = 512
  recent : w.recent = w.stashed.drop (w.stashed.length - historyCap)
  genuine : ∀ line ∈ w.stashed, ∃ call, w.calls[line.call]? = some call ∧ call.phase ≠ .scrubbed ∧
    line.entry = scrub detector call.entry
  announced : ∀ line ∈ w.tx.sent, line ∈ w.stashed ∧
    ∃ call, w.calls[line.call]? = some call ∧ call.phase = .sent
  kept : ∀ (i : Nat) (call : SendCall), w.calls[i]? = some call → call.phase ≠ .scrubbed →
    ⟨i, scrub detector call.entry⟩ ∈ w.stashed
  stashedOnce : (w.stashed.map Line.call).Nodup
  sentOnce : (w.tx.sent.map Line.call).Nodup
  clients : ∀ c ∈ w.clients, c.Sound w.stashed w.tx

section Steps

variable {detector : LeakDetector} {w : LogWorld}

theorem coherent_new : Coherent detector .new where
  capacity := rfl
  recent := rfl
  genuine line hline := by cases hline
  announced line hline := by cases hline
  kept i call hcall := by cases hcall
  stashedOnce := List.nodup_nil
  sentOnce := List.nodup_nil
  clients c hc := by cases hc

private theorem coherent_send (h : Coherent detector w) (entry : LogEntry) :
    Coherent detector { w with calls := w.calls ++ [⟨entry, .scrubbed⟩] } := by
  have hstays : ∀ (i : Nat) (call : SendCall), w.calls[i]? = some call →
      (w.calls ++ [⟨entry, SendPhase.scrubbed⟩])[i]? = some call := by
    intro i call hcall
    rw [List.getElem?_append_left (List.getElem?_eq_some_iff.mp hcall).1]
    exact hcall
  refine ⟨h.capacity, h.recent, ?_, ?_, ?_, h.stashedOnce, h.sentOnce, h.clients⟩
  · intro line hline
    obtain ⟨call, hcall, hrest⟩ := h.genuine line hline
    exact ⟨call, hstays _ _ hcall, hrest⟩
  · intro line hline
    obtain ⟨hstashed, call, hcall, hphase⟩ := h.announced line hline
    exact ⟨hstashed, call, hstays _ _ hcall, hphase⟩
  · intro i call hcall hphase
    by_cases hlt : i < w.calls.length
    · rw [List.getElem?_append_left hlt] at hcall
      exact h.kept i call hcall hphase
    · rw [List.getElem?_append_right (by omega)] at hcall
      obtain rfl : call = ⟨entry, .scrubbed⟩ := List.mem_singleton.mp (List.mem_of_getElem? hcall)
      exact absurd rfl hphase

/-- One more line, of a call that has none yet. -/
private theorem nodup_line {lines : List Line} {new : Line} (h : (lines.map Line.call).Nodup)
    (hnew : ∀ line ∈ lines, line.call ≠ new.call) : ((lines ++ [new]).map Line.call).Nodup := by
  rw [List.map_append]
  refine List.nodup_append'.mpr ⟨h, List.nodup_singleton _, ?_⟩
  intro j hj hi
  obtain ⟨line, hline, rfl⟩ := List.mem_map.mp hj
  exact hnew line hline (List.mem_singleton.mp hi)

/-- When a call goes on, the other calls stay as they are. -/
private theorem other_call {i j : Nat} {call : SendCall} (hne : j ≠ i) (hcall : w.calls[j]? = some call)
    (after : SendCall) : (w.calls.set i after)[j]? = some call := by
  rw [List.getElem?_set_ne (Ne.symm hne)]
  exact hcall

/-- A call that goes on keeps its entry, and the other calls stay as they are. -/
private theorem call_set {i : Nat} {call : SendCall} (hcall : w.calls[i]? = some call) (phase : SendPhase)
    {j : Nat} {call' : SendCall} (hcall' : w.calls[j]? = some call') :
    (j = i ∧ call' = call ∧ (w.calls.set i { call with phase := phase })[j]? = some { call with phase := phase }) ∨
      (j ≠ i ∧ (w.calls.set i { call with phase := phase })[j]? = some call') := by
  by_cases heq : j = i
  · subst heq
    rw [hcall] at hcall'
    cases hcall'
    exact .inl ⟨rfl, rfl, List.getElem?_set_self (List.getElem?_eq_some_iff.mp hcall).1⟩
  · exact .inr ⟨heq, other_call heq hcall' _⟩

private theorem coherent_stash (h : Coherent detector w) {i : Nat} {call : SendCall}
    (hcall : w.calls[i]? = some call) (hphase : call.phase = .scrubbed) :
    Coherent detector
      { w with
        recent := stash w.recent ⟨i, scrub detector call.entry⟩
        stashed := w.stashed ++ [⟨i, scrub detector call.entry⟩]
        calls := w.calls.set i { call with phase := .stashed } } := by
  have hlater : ∀ line ∈ w.stashed, line.call ≠ i := by
    rintro line hline rfl
    obtain ⟨call', hcall', hphase', -⟩ := h.genuine line hline
    rw [hcall] at hcall'
    cases hcall'
    exact hphase' hphase
  refine ⟨h.capacity, ?_, ?_, ?_, ?_, ?_, h.sentOnce, ?_⟩
  · change stash w.recent _ = _
    rw [h.recent]
    exact stash_newest _
  · intro line hline
    rcases List.mem_append.mp hline with hold | hnew
    · obtain ⟨call', hcall', hrest⟩ := h.genuine line hold
      exact ⟨call', other_call (hlater line hold) hcall' _, hrest⟩
    · cases List.mem_singleton.mp hnew
      exact ⟨{ call with phase := .stashed },
        List.getElem?_set_self (List.getElem?_eq_some_iff.mp hcall).1, SendPhase.noConfusion, rfl⟩
  · intro line hline
    obtain ⟨hstashed, call', hcall', hphase'⟩ := h.announced line hline
    exact ⟨List.mem_append_left _ hstashed, call', other_call (hlater line hstashed) hcall' _, hphase'⟩
  · intro j call' hcall' hphase'
    rcases getElem?_set_cases hcall' with ⟨rfl, rfl⟩ | ⟨-, hbefore⟩
    · exact List.mem_append_right _ (List.mem_singleton.mpr rfl)
    · exact List.mem_append_left _ (h.kept j call' hbefore hphase')
  · exact nodup_line h.stashedOnce hlater
  · intro c hc
    exact (h.clients c hc).grow _ (List.append_nil _).symm rfl

private theorem coherent_broadcast (h : Coherent detector w) {i : Nat} {call : SendCall}
    (hcall : w.calls[i]? = some call) (hphase : call.phase = .stashed) :
    Coherent detector
      { w with
        tx := w.tx.send ⟨i, scrub detector call.entry⟩
        calls := w.calls.set i { call with phase := .sent } } := by
  have hset : (w.calls.set i { call with phase := .sent })[i]? = some { call with phase := .sent } :=
    List.getElem?_set_self (List.getElem?_eq_some_iff.mp hcall).1
  refine ⟨h.capacity, h.recent, ?_, ?_, ?_, h.stashedOnce, ?_, ?_⟩
  · intro line hline
    obtain ⟨call', hcall', hphase', hentry⟩ := h.genuine line hline
    rcases call_set hcall .sent hcall' with ⟨-, rfl, hnow⟩ | ⟨-, hnow⟩
    · exact ⟨_, hnow, SendPhase.noConfusion, hentry⟩
    · exact ⟨call', hnow, hphase', hentry⟩
  · intro line hline
    rcases List.mem_append.mp hline with hold | hnew
    · obtain ⟨hstashed, call', hcall', hphase'⟩ := h.announced line hold
      rcases call_set hcall .sent hcall' with ⟨-, -, hnow⟩ | ⟨-, hnow⟩
      · exact ⟨hstashed, _, hnow, rfl⟩
      · exact ⟨hstashed, call', hnow, hphase'⟩
    · cases List.mem_singleton.mp hnew
      exact ⟨h.kept i call hcall (by rw [hphase]; exact SendPhase.noConfusion), _, hset, rfl⟩
  · intro j call' hcall' hphase'
    rcases getElem?_set_cases hcall' with ⟨rfl, rfl⟩ | ⟨-, hbefore⟩
    · exact h.kept j call hcall (by rw [hphase]; exact SendPhase.noConfusion)
    · exact h.kept j call' hbefore hphase'
  · refine nodup_line h.sentOnce ?_
    rintro line hline rfl
    obtain ⟨-, call', hcall', hphase'⟩ := h.announced line hline
    rw [hcall] at hcall'
    cases hcall'
    rw [hphase] at hphase'
    cases hphase'
  · intro c hc
    have hgrow := @Client.Sound.grow _ _ (w.tx.send ⟨i, scrub detector call.entry⟩) _ (h.clients c hc) [] _ rfl rfl
    rwa [List.append_nil] at hgrow

private theorem coherent_client (h : Coherent detector w) {c : Client} (hc : c.Sound w.stashed w.tx) (i : Nat) :
    Coherent detector { w with clients := w.clients.set i c } := by
  refine ⟨h.capacity, h.recent, h.genuine, h.announced, h.kept, h.stashedOnce, h.sentOnce, ?_⟩
  intro c' hc'
  rcases List.mem_or_eq_of_mem_set hc' with hbefore | rfl
  · exact h.clients c' hbefore
  · exact hc

theorem coherent_step (h : Coherent detector w) (action : Action) :
    Coherent detector (w.step detector action) := by
  cases action with
  | send entry => exact coherent_send h entry
  | proceed i =>
    change Coherent detector (match w.calls[i]? with
      | some call => w.proceed detector i call
      | none => w)
    split
    · next call hcall =>
      unfold LogWorld.proceed
      split
      · next hphase => exact coherent_stash h hcall hphase
      · next hphase => exact coherent_broadcast h hcall hphase
      · exact h
    · exact h
  | subscribe =>
    refine ⟨h.capacity, h.recent, h.genuine, h.announced, h.kept, h.stashedOnce, h.sentOnce, ?_⟩
    intro c hc
    rcases List.mem_append.mp hc with hbefore | hnew
    · exact h.clients c hbefore
    · rw [List.mem_singleton.mp hnew]
      exact .subscribe w.stashed w.tx
  | copyRecent i =>
    change Coherent detector (match w.clients[i]? with
      | some c => { w with clients := w.clients.set i (w.copyRecent c) }
      | none => w)
    split
    · next c hc =>
      exact coherent_client h ((h.clients c (List.mem_of_getElem? hc)).copyRecent h.recent
        fun line hline => (h.announced line hline).1) i
    · exact h
  | poll i =>
    change Coherent detector (match w.clients[i]? with
      | some c => { w with clients := w.clients.set i (c.poll w.tx) }
      | none => w)
    split
    · next c hc => exact coherent_client h (h.clients c (List.mem_of_getElem? hc)).poll i
    · exact h

end Steps

theorem coherent_run (detector : LeakDetector) (actions : List Action) :
    Coherent detector (LogWorld.run detector actions) :=
  foldl_invariant_of (Coherent detector) actions coherent_new fun _ action _ h => coherent_step h action

/-- Whatever has been broadcast is in a client's history, or has come live, or is waiting for it, unless the
client fell so far behind that it was skipped, or five hundred later entries had filled the ring when it
connected. -/
def LogWorld.GapFree (w : LogWorld) : Prop :=
  ∀ c ∈ w.clients, ∀ n, c.copied = some n → ∀ line ∈ w.tx.sent,
    line ∈ c.history ∨ line ∈ c.live ∨ line ∈ w.tx.sent.drop c.next ∨
      (line ∈ c.skipped ∧ line ∈ w.tx.sent.take (w.tx.sent.length - 512)) ∨
      (c.history.length = 500 ∧ line ∈ w.stashed.take (n - 500))

theorem Coherent.gapFree {detector : LeakDetector} {w : LogWorld} (h : Coherent detector w) : w.GapFree := by
  intro c hc n hn line hline
  have hsound := h.clients c hc
  obtain ⟨hle, hhistory, hearlier⟩ := hsound.copy n hn
  rw [← List.take_append_drop c.start w.tx.sent] at hline
  rcases List.mem_append.mp hline with hbefore | hafter
  · have hlength : (w.stashed.take n).length = n := List.length_take_of_le hle
    rcases mem_newest_or_evicted (hearlier line hbefore) with hkept | ⟨hfull, hevicted⟩
    · exact .inl (hhistory ▸ hkept)
    · refine .inr (.inr (.inr (.inr ⟨hhistory ▸ hfull, ?_⟩)))
      rw [hlength, List.take_take] at hevicted
      exact List.take_subset_take_left _ (Nat.min_le_left _ _) hevicted
  · have hplaces := hsound.places
    rw [← List.take_append_drop c.next w.tx.sent,
      List.drop_append_of_le_length (by rw [List.length_take]; omega)] at hafter
    rcases List.mem_append.mp hafter with hpassed | hwaits
    · rcases List.mem_append.mp (hsound.passed.mem_iff.mpr hpassed) with hlive | hskipped
      · exact .inr (.inl hlive)
      · have hbehind := hsound.behind line hskipped
        unfold Broadcast.oldest at hbehind
        rw [h.capacity] at hbehind
        exact .inr (.inr (.inr (.inl ⟨hskipped, hbehind⟩)))
    · exact .inr (.inr (.inl hwaits))

/-- In whatever order entries are logged and clients connect and read, there is no gap between the history a
client is sent and the live stream that follows it. -/
theorem gap_free (detector : LeakDetector) (actions : List Action) :
    (LogWorld.run detector actions).GapFree := by
  have h := coherent_run detector actions
  exact h.gapFree

/-- An entry that is logged while a client connects may come twice: in the history, and then live. -/
example : (LogWorld.run ⟨[], []⟩ [.send ⟨"INFO", "gyre", [], ""⟩, .proceed 0, .subscribe, .copyRecent 0,
    .proceed 0, .poll 0, .poll 0]).clients.map (fun c => (c.history.map Line.call, c.live.map Line.call)) =
      [([0], [0])] := rfl

section Reading

variable {detector : LeakDetector} {w : LogWorld} {c : Client} {n : Nat}

/-- How much a connection has still to read. -/
def Client.remaining (tx : Broadcast Line) (c : Client) : Nat :=
  (c.history.length - c.replayed) + (tx.sent.length - c.next)

/-- A poll takes a connection nearer to the end, and leaves the copy of the ring buffer as it is. -/
theorem remaining_poll {tx : Broadcast Line} (hcopied : c.copied = some n) :
    (c.poll tx).copied = some n ∧ (c.poll tx).remaining tx ≤ c.remaining tx - 1 := by
  unfold Client.poll
  rw [hcopied]
  change (ite _ _ _ : Client).copied = _ ∧ (ite _ _ _ : Client).remaining tx ≤ _
  split
  · refine ⟨rfl, ?_⟩
    unfold Client.remaining
    dsimp only
    omega
  · next hreplayed =>
    split
    · next line next hrecv =>
      obtain ⟨rfl, hlt, -⟩ := Broadcast.drop_of_recv hrecv
      refine ⟨rfl, ?_⟩
      unfold Client.remaining
      dsimp only
      omega
    · next skipped next hrecv =>
      obtain ⟨-, hmove, holdest⟩ := skipped_of_lagged hrecv
      have hle : tx.oldest ≤ tx.sent.length := Nat.sub_le _ _
      refine ⟨rfl, ?_⟩
      unfold Client.remaining
      dsimp only
      omega
    · next hrecv =>
      have hend := end_of_empty hrecv
      refine ⟨hcopied, ?_⟩
      unfold Client.remaining
      omega

/-- A connection that is polled often enough, with nothing logged in between, comes to the end. -/
theorem read_to_end {i k : Nat} (h : Coherent detector w) (hc : w.clients[i]? = some c)
    (hcopied : c.copied = some n) (hk : c.remaining w.tx ≤ k) :
    ∃ w' c', (List.replicate k (Action.poll i)).foldl (LogWorld.step detector) w = w' ∧
      Coherent detector w' ∧ w'.tx = w.tx ∧ w'.stashed = w.stashed ∧ w'.clients[i]? = some c' ∧
        c'.copied = some n ∧ c'.remaining w.tx = 0 := by
  induction k generalizing w c with
  | zero => exact ⟨w, c, rfl, h, rfl, rfl, hc, hcopied, Nat.le_zero.mp hk⟩
  | succ k ih =>
    have hstep : w.step detector (.poll i) = { w with clients := w.clients.set i (c.poll w.tx) } := by
      change (match w.clients[i]? with
        | some c => { w with clients := w.clients.set i (c.poll w.tx) }
        | none => w) = _
      rw [hc]
    obtain ⟨hcopied', hless⟩ := @remaining_poll c n w.tx hcopied
    have hleft : (c.poll w.tx).remaining w.tx ≤ k := by omega
    have hkept := coherent_step h (.poll i)
    rw [hstep] at hkept
    obtain ⟨w', c', hw', hrest⟩ := ih hkept
      (List.getElem?_set_self (List.getElem?_eq_some_iff.mp hc).1) hcopied' hleft
    refine ⟨w', c', ?_, hrest⟩
    rw [List.replicate_succ, List.foldl_cons, hstep]
    exact hw'

end Reading

/-- A client that goes on reading, while nothing new is logged, sees everything that has been broadcast,
apart from what it was skipped past and what had left the ring when it connected. -/
def LogWorld.Delivers (detector : LeakDetector) (w : LogWorld) : Prop :=
  ∀ i c n, w.clients[i]? = some c → c.copied = some n →
    ∃ polls w' c', (List.replicate polls (Action.poll i)).foldl (LogWorld.step detector) w = w' ∧
      w'.clients[i]? = some c' ∧ ∀ line ∈ w.tx.sent,
        line ∈ c'.history.take c'.replayed ∨ line ∈ c'.live ∨ line ∈ c'.skipped ∨
          (c'.history.length = 500 ∧ line ∈ w.stashed.take (n - 500))

/-- From every state that logging, connecting and reading in any order lead to, a client that reads on sees
all there is to see. -/
theorem everything_delivered (detector : LeakDetector) (actions : List Action) :
    (LogWorld.run detector actions).Delivers detector := by
  have h := coherent_run detector actions
  intro i c n hc hcopied
  obtain ⟨w', c', hw', hcoherent, htx, hstashed, hc', hcopied', hend⟩ := read_to_end h hc hcopied le_rfl
  refine ⟨_, w', c', hw', hc', fun line hline => ?_⟩
  unfold Client.remaining at hend
  rw [← htx] at hline hend
  rcases hcoherent.gapFree c' (List.mem_of_getElem? hc') n hcopied' line hline with
    hhistory | hlive | hwaits | ⟨hskipped, -⟩ | ⟨hfull, hevicted⟩
  · rw [List.take_of_length_le (by omega)]
    exact .inl hhistory
  · exact .inr (.inl hlive)
  · rw [List.drop_eq_nil_of_le (by omega)] at hwaits
    cases hwaits
  · exact .inr (.inr (.inl hskipped))
  · exact .inr (.inr (.inr ⟨hfull, hstashed ▸ hevicted⟩))

/-- What a client is shown is scrubbed lines alone, none of them twice in its history or twice live, and
each in the order of the ring buffer or of the channel. -/
structure Client.ShownScrubbed (detector : LeakDetector) (w : LogWorld) (c : Client) : Prop where
  scrubbed : ∀ line ∈ c.history ++ c.live, ∃ call, w.calls[line.call]? = some call ∧
    line.entry = scrub detector call.entry
  historyOnce : (c.history.map Line.call).Nodup
  liveOnce : (c.live.map Line.call).Nodup
  historyInOrder : c.history.Sublist w.stashed
  liveInOrder : c.live.Sublist w.tx.sent

def LogWorld.ShowsScrubbed (detector : LeakDetector) (w : LogWorld) : Prop :=
  ∀ c ∈ w.clients, c.ShownScrubbed detector w

/-- No client of the log stream ever sees a message that the leak detector has not been over, or sees one
twice by the same way. -/
theorem shows_scrubbed (detector : LeakDetector) (actions : List Action) :
    (LogWorld.run detector actions).ShowsScrubbed detector := by
  have h := coherent_run detector actions
  intro c hc
  have hsound := h.clients c hc
  have hhistory : c.history.Sublist (LogWorld.run detector actions).stashed := by
    cases hcopied : c.copied with
    | none =>
      rw [hsound.opening hcopied]
      exact List.nil_sublist _
    | some n =>
      rw [(hsound.copy n hcopied).2.1]
      exact (List.drop_sublist _ _).trans (List.take_sublist _ _)
  have hlive : c.live.Sublist (LogWorld.run detector actions).tx.sent :=
    hsound.inOrder.trans ((List.drop_sublist _ _).trans (List.take_sublist _ _))
  refine ⟨fun line hline => ?_, h.stashedOnce.sublist (hhistory.map _), h.sentOnce.sublist (hlive.map _),
    hhistory, hlive⟩
  have hstashed : line ∈ (LogWorld.run detector actions).stashed := by
    rcases List.mem_append.mp hline with hold | hnew
    · exact hhistory.subset hold
    · exact (h.announced line (hlive.subset hnew)).1
  obtain ⟨call, hcall, -, hentry⟩ := h.genuine line hstashed
  exact ⟨call, hcall, hentry⟩

end Gyre.Channels.Web.LogStream
