/- digest: The event stream of the web gateway: subscriptions under a limit, and who receives what. -/

import Gyre.Lib.Broadcast
import Gyre.Lib.Counting
import Gyre.Lib.Runs

/-!
A subscription is two steps, between which everything else may happen: the counter is raised if the
limit allows it, then a receiver is attached. Dropping the stream lowers the counter.
-/

set_option autoImplicit false
set_option relaxedAutoImplicit false

namespace Gyre.Channels.Web

open Gyre.Lib

inductive SseKind where
  | response
  | thinking
  | toolStarted
  | toolCompleted
  | toolResult
  | streamChunk
  | status
  | approvalNeeded
  | authRequired
  | authCompleted
  | error
  | jobStarted
  | jobMessage
  | jobToolUse
  | jobToolResult
  | jobStatus
  | jobResult
  | agentStatus
  | brainUpdate
  | heartbeat
  deriving DecidableEq, Repr

/-- An event: its variant, and the text it is serialized to. -/
structure SseEvent where
  kind : SseKind
  data : String
  deriving DecidableEq, Repr

def SseKind.eventType : SseKind → String
  | response => "response"
  | thinking => "thinking"
  | toolStarted => "tool_started"
  | toolCompleted => "tool_completed"
  | toolResult => "tool_result"
  | streamChunk => "stream_chunk"
  | status => "status"
  | approvalNeeded => "approval_needed"
  | authRequired => "auth_required"
  | authCompleted => "auth_completed"
  | error => "error"
  | jobStarted => "job_started"
  | jobMessage => "job_message"
  | jobToolUse => "job_tool_use"
  | jobToolResult => "job_tool_result"
  | jobStatus => "job_status"
  | jobResult => "job_result"
  | agentStatus => "agent_status"
  | brainUpdate => "brain_update"
  | heartbeat => "heartbeat"

/-- The two kinds of stream: `subscribe_raw` and `subscribe`. -/
inductive StreamKind where
  | raw
  | sse
  deriving DecidableEq, Repr

inductive StreamItem where
  | raw (event : SseEvent)
  | sse (eventType data : String)
  deriving DecidableEq, Repr

/-- An event as a stream yields it. -/
def render : StreamKind → SseEvent → StreamItem
  | .raw, e => .raw e
  | .sse, e => .sse e.kind.eventType e.data

/-- A subscription: counted and without its receiver, receiving from a place on, or dropped. -/
inductive Connection where
  | counted (kind : StreamKind)
  | live (kind : StreamKind) (next : Nat)
  | dropped
  deriving DecidableEq, Repr

namespace Connection

def isLive : Connection → Bool
  | live .. => true
  | _ => false

/-- Accepted and not dropped. -/
def isOpen : Connection → Bool
  | dropped => false
  | _ => true

end Connection

structure SseManager where
  tx : Broadcast SseEvent
  connectionCount : UInt64
  maxConnections : UInt64
  connections : List Connection

namespace SseManager

def maxConnectionsDefault : UInt64 := 100

/-- A manager with a limit; `SseManager::new` has the default one. -/
def withLimit (maxConnections : UInt64) : SseManager := ⟨⟨[], 256⟩, 0, maxConnections, []⟩

def new : SseManager := withLimit maxConnectionsDefault

end SseManager

inductive SseOp where
  | request (kind : StreamKind)
  | attach (id : Nat)
  | broadcast (event : SseEvent)
  | poll (id : Nat)
  | drop (id : Nat)

/-- What can be seen of the manager. -/
inductive Seen where
  | accepted (id : Nat)
  | refused
  | attached (id : Nat)
  | sent (event : SseEvent)
  | delivered (id : Nat) (item : StreamItem)
  | skipped (id events : Nat)
  | dropped (id : Nat)
  deriving DecidableEq, Repr

/-- The counter's `fetch_update`: raised below the limit, otherwise left alone. -/
def reserve (s : SseManager) (kind : StreamKind) : SseManager × List Seen :=
  if s.connectionCount < s.maxConnections then
    ({ s with
        connectionCount := s.connectionCount + 1
        connections := s.connections ++ [.counted kind] }, [.accepted s.connections.length])
  else (s, [.refused])

/-- `tx.subscribe()`: the receiver starts after everything sent so far. -/
def attach (s : SseManager) (id : Nat) : SseManager × List Seen :=
  match s.connections[id]? with
  | some (.counted kind) =>
    ({ s with connections := s.connections.set id (.live kind s.tx.sent.length) }, [.attached id])
  | _ => (s, [])

/-- `broadcast`: without a receiver the event is not kept. -/
def broadcast (s : SseManager) (e : SseEvent) : SseManager × List Seen :=
  (if s.connections.any Connection.isLive then { s with tx := s.tx.send e } else s, [.sent e])

/-- One receive of a stream; an error for missed events is filtered out. -/
def poll (s : SseManager) (id : Nat) : SseManager × List Seen :=
  match s.connections[id]? with
  | some (.live kind next) =>
    match s.tx.recv next with
    | .item e next' =>
      ({ s with connections := s.connections.set id (.live kind next') },
        [.delivered id (render kind e)])
    | .lagged skipped next' =>
      ({ s with connections := s.connections.set id (.live kind next') }, [.skipped id skipped])
    | .empty => (s, [])
  | _ => (s, [])

/-- `CountedStream::drop`: the counter is lowered, whatever it is. -/
def dropStream (s : SseManager) (id : Nat) : SseManager × List Seen :=
  match s.connections[id]? with
  | some (.live _ _) =>
    ({ s with
        connectionCount := s.connectionCount - 1
        connections := s.connections.set id .dropped }, [.dropped id])
  | _ => (s, [])

def sseStep (s : SseManager) : SseOp → SseManager × List Seen
  | .request kind => reserve s kind
  | .attach id => attach s id
  | .broadcast e => broadcast s e
  | .poll id => poll s id
  | .drop id => dropStream s id

/-- What a step can do. -/
inductive Turn (s : SseManager) : SseManager → List Seen → Prop where
  | idle : Turn s s []
  | refused : Turn s s [.refused]
  | accepted (kind : StreamKind) (room : s.connectionCount < s.maxConnections) :
    Turn s { s with
        connectionCount := s.connectionCount + 1
        connections := s.connections ++ [.counted kind] } [.accepted s.connections.length]
  | attached {id : Nat} {kind : StreamKind} (was : s.connections[id]? = some (.counted kind)) :
    Turn s { s with connections := s.connections.set id (.live kind s.tx.sent.length) }
      [.attached id]
  | sent (e : SseEvent) (heard : s.connections.any Connection.isLive = true) :
    Turn s { s with tx := s.tx.send e } [.sent e]
  | unheard (e : SseEvent) (alone : s.connections.any Connection.isLive = false) :
    Turn s s [.sent e]
  | delivered {id next next' : Nat} {kind : StreamKind} {e : SseEvent}
    (was : s.connections[id]? = some (.live kind next)) (got : s.tx.recv next = .item e next') :
    Turn s { s with connections := s.connections.set id (.live kind next') }
      [.delivered id (render kind e)]
  | skipped {id next next' events : Nat} {kind : StreamKind}
    (was : s.connections[id]? = some (.live kind next))
    (behind : s.tx.recv next = .lagged events next') :
    Turn s { s with connections := s.connections.set id (.live kind next') } [.skipped id events]
  | dropped {id next : Nat} {kind : StreamKind} (was : s.connections[id]? = some (.live kind next)) :
    Turn s { s with
        connectionCount := s.connectionCount - 1
        connections := s.connections.set id .dropped } [.dropped id]

theorem reserve_turn (s : SseManager) (kind : StreamKind) :
    Turn s (reserve s kind).1 (reserve s kind).2 := by
  unfold reserve
  split
  next room => exact .accepted kind room
  · exact .refused

theorem attach_turn (s : SseManager) (id : Nat) : Turn s (attach s id).1 (attach s id).2 := by
  unfold attach
  split
  next kind was => exact .attached was
  · exact .idle

theorem broadcast_turn (s : SseManager) (e : SseEvent) :
    Turn s (broadcast s e).1 (broadcast s e).2 := by
  unfold broadcast
  dsimp only
  split
  next heard => exact .sent e heard
  next alone => exact .unheard e (Bool.eq_false_iff.mpr alone)

theorem poll_turn (s : SseManager) (id : Nat) : Turn s (poll s id).1 (poll s id).2 := by
  unfold poll
  split
  next kind next was =>
    split
    next got => exact .delivered was got
    next behind => exact .skipped was behind
    · exact .idle
  · exact .idle

theorem dropStream_turn (s : SseManager) (id : Nat) :
    Turn s (dropStream s id).1 (dropStream s id).2 := by
  unfold dropStream
  split
  next kind next was => exact .dropped was
  · exact .idle

theorem sseStep_turn (s : SseManager) (op : SseOp) : Turn s (sseStep s op).1 (sseStep s op).2 := by
  cases op with
  | request kind => exact reserve_turn s kind
  | attach id => exact attach_turn s id
  | broadcast e => exact broadcast_turn s e
  | poll id => exact poll_turn s id
  | drop id => exact dropStream_turn s id

section Counter

/-- The counter is the number of subscriptions that are not dropped, within the limit. -/
structure Counted (s : SseManager) : Prop where
  exact : s.connectionCount.toNat = s.connections.countP Connection.isOpen
  within : s.connectionCount.toNat ≤ s.maxConnections.toNat

private theorem countP_moved {l : List Connection} {id : Nat} {old new : Connection}
    (h : l[id]? = some old) (hsame : new.isOpen = old.isOpen) :
    l.countP Connection.isOpen = (l.set id new).countP Connection.isOpen := by
  have hcount := countP_set_add (p := Connection.isOpen) h new
  rw [hsame] at hcount
  omega

theorem Counted.turn {s s' : SseManager} {seen : List Seen} (h : Counted s)
    (hturn : Turn s s' seen) : Counted s' := by
  cases hturn with
  | idle => exact h
  | refused => exact h
  | unheard => exact h
  | sent => exact ⟨h.exact, h.within⟩
  | attached was => exact ⟨h.exact.trans (countP_moved was rfl), h.within⟩
  | delivered was => exact ⟨h.exact.trans (countP_moved was rfl), h.within⟩
  | skipped was => exact ⟨h.exact.trans (countP_moved was rfl), h.within⟩
  | accepted kind room =>
    have hlt := UInt64.lt_iff_toNat_lt.mp room
    have hmax := s.maxConnections.toNat_lt
    have hraised : (s.connectionCount + 1).toNat = s.connectionCount.toNat + 1 := by
      rw [UInt64.toNat_add, UInt64.toNat_one, Nat.mod_eq_of_lt (by omega)]
    constructor
    · rw [hraised, h.exact, List.countP_append]
      rfl
    · rw [hraised]
      exact hlt
  | dropped was =>
    have hcount := countP_set_add (p := Connection.isOpen) was .dropped
    simp only [Connection.isOpen, if_true, Bool.false_eq_true, if_false, Nat.add_zero] at hcount
    have hcounter := h.exact
    have hwithin := h.within
    have hone : (1 : UInt64) ≤ s.connectionCount := by
      rw [UInt64.le_iff_toNat_le, UInt64.toNat_one]
      omega
    have hlowered := UInt64.toNat_sub_of_le _ _ hone
    rw [UInt64.toNat_one] at hlowered
    constructor
    · rw [hlowered]
      dsimp only
      omega
    · rw [hlowered]
      dsimp only
      omega

end Counter

section Delivery

/-- Events sent since the receiver of a subscription was attached; nothing before that. -/
def noteSent (id : Nat) : Option (List SseEvent) → Seen → Option (List SseEvent)
  | none, .attached id' => if id' = id then some [] else none
  | some events, .sent e => some (events ++ [e])
  | events, _ => events

def sentSince (id : Nat) (log : List Seen) : Option (List SseEvent) := log.foldl (noteSent id) none

/-- What the stream of a subscription has yielded. -/
def deliveredTo (id : Nat) (log : List Seen) : List StreamItem :=
  log.filterMap fun
    | .delivered id' item => if id' = id then some item else none
    | _ => none

/-- The subscription was found too far behind. -/
def Lagged (id : Nat) (log : List Seen) : Prop := ∃ events, .skipped id events ∈ log

/-- A live stream that never lagged has yielded what was sent since its subscription, up to what still
waits for it. -/
structure Served (s : SseManager) (log : List Seen) (id : Nat) (kind : StreamKind) (next : Nat) :
    Prop where
  place : next ≤ s.tx.sent.length
  served : ¬ Lagged id log → ∃ heard, sentSince id log = some (heard ++ s.tx.sent.drop next) ∧
    deliveredTo id log = heard.map (render kind)

/-- Every live stream is served, and a subscription without its receiver has heard nothing. -/
structure Serving (s : SseManager) (log : List Seen) : Prop where
  live : ∀ id kind next, s.connections[id]? = some (.live kind next) → Served s log id kind next
  early : ∀ id, (s.connections[id]? = none ∨ ∃ kind, s.connections[id]? = some (.counted kind)) →
    sentSince id log = none ∧ deliveredTo id log = []

theorem sentSince_concat (id : Nat) (log : List Seen) (o : Seen) :
    sentSince id (log ++ [o]) = noteSent id (sentSince id log) o := by
  unfold sentSince
  rw [List.foldl_append]
  rfl

theorem deliveredTo_concat (id : Nat) (log : List Seen) (o : Seen) :
    deliveredTo id (log ++ [o]) = deliveredTo id log ++ deliveredTo id [o] :=
  List.filterMap_append

theorem Lagged.later {id : Nat} {log : List Seen} (h : Lagged id log) (o : Seen) :
    Lagged id (log ++ [o]) :=
  h.imp fun _ hmem => List.mem_append_left _ hmem

/-- An observation that is about no receiving of this subscription. -/
def Aside (id : Nat) (o : Seen) : Prop :=
  (∀ events, noteSent id events o = events) ∧ deliveredTo id [o] = []

theorem Served.aside {s s' : SseManager} {log : List Seen} {id : Nat} {kind : StreamKind}
    {next : Nat} {o : Seen} (h : Served s log id kind next) (ho : Aside id o) (htx : s'.tx = s.tx) :
    Served s' (log ++ [o]) id kind next := by
  constructor
  · rw [htx]
    exact h.place
  · intro hnear
    obtain ⟨heard, hsent, hgot⟩ := h.served fun hlag => hnear (hlag.later o)
    refine ⟨heard, ?_, ?_⟩
    · rw [sentSince_concat, ho.1, htx, hsent]
    · rw [deliveredTo_concat, ho.2, List.append_nil, hgot]

/-- What an event adds to a live stream's account: it waits, now. -/
theorem Served.sent {s : SseManager} {log : List Seen} {id : Nat} {kind : StreamKind} {next : Nat}
    (h : Served s log id kind next) (e : SseEvent) :
    Served { s with tx := s.tx.send e } (log ++ [.sent e]) id kind next := by
  constructor
  · have hplace := h.place
    simp only [Broadcast.send, List.length_append, List.length_singleton]
    omega
  · intro hnear
    obtain ⟨heard, hsent, hgot⟩ := h.served fun hlag => hnear (hlag.later _)
    refine ⟨heard, ?_, ?_⟩
    · rw [sentSince_concat, hsent, Broadcast.drop_send h.place]
      simp only [noteSent, List.append_assoc]
    · rw [deliveredTo_concat, hgot]
      exact List.append_nil _

/-- A step that concerns one subscription leaves the others served. -/
theorem Serving.moved {s : SseManager} {log : List Seen} (h : Serving s log) {id : Nat}
    {old new : Connection} (was : s.connections[id]? = some old) (count : UInt64) {o : Seen}
    (ho : ∀ other, other ≠ id → Aside other o) (hnew : ∀ kind, new ≠ .counted kind)
    (hserved : ∀ kind next, new = .live kind next →
      Served { s with connectionCount := count, connections := s.connections.set id new }
        (log ++ [o]) id kind next) :
    Serving { s with connectionCount := count, connections := s.connections.set id new }
      (log ++ [o]) := by
  have hself : (s.connections.set id new)[id]? = some new :=
    List.getElem?_set_self (List.getElem?_eq_some_iff.mp was).1
  have hother (other : Nat) (hne : other ≠ id) :
      (s.connections.set id new)[other]? = s.connections[other]? :=
    List.getElem?_set_ne hne.symm
  constructor
  · intro other kind next hlive
    by_cases heq : other = id
    · subst heq
      exact hserved kind next (Option.some.inj (hself.symm.trans hlive))
    · exact (h.live other kind next ((hother other heq).symm.trans hlive)).aside (ho other heq) rfl
  · intro other hearly
    by_cases heq : other = id
    · subst heq
      exfalso
      dsimp only at hearly
      rw [hself] at hearly
      rcases hearly with hnone | ⟨kind, hcounted⟩
      · cases hnone
      · exact hnew kind (Option.some.inj hcounted)
    · dsimp only at hearly
      rw [hother other heq] at hearly
      obtain ⟨hsent, hgot⟩ := h.early other hearly
      rw [sentSince_concat, deliveredTo_concat, (ho other heq).1, (ho other heq).2, hsent, hgot]
      exact ⟨rfl, rfl⟩

private theorem aside_attached {id other : Nat} (hne : other ≠ id) : Aside other (.attached id) := by
  refine ⟨fun events => ?_, rfl⟩
  cases events with
  | none => exact if_neg hne.symm
  | some events => rfl

private theorem aside_delivered {id other : Nat} (hne : other ≠ id) (item : StreamItem) :
    Aside other (.delivered id item) := by
  refine ⟨fun events => by cases events <;> rfl, ?_⟩
  simp only [deliveredTo, List.filterMap_cons, List.filterMap_nil, if_neg hne.symm]

private theorem aside_rest (id : Nat) {o : Seen}
    (h : o = .refused ∨ (∃ other, o = .accepted other) ∨ (∃ other events, o = .skipped other events) ∨
      ∃ other, o = .dropped other) : Aside id o := by
  refine ⟨fun events => ?_, ?_⟩
  · rcases h with rfl | ⟨other, rfl⟩ | ⟨other, n, rfl⟩ | ⟨other, rfl⟩ <;> cases events <;> rfl
  · rcases h with rfl | ⟨other, rfl⟩ | ⟨other, n, rfl⟩ | ⟨other, rfl⟩ <;> rfl

theorem Serving.turn {s s' : SseManager} {log seen : List Seen} (h : Serving s log)
    (hturn : Turn s s' seen) : Serving s' (log ++ seen) := by
  cases hturn with
  | idle => rwa [List.append_nil]
  | refused =>
    constructor
    · exact fun id kind next hlive => (h.live id kind next hlive).aside (aside_rest id (.inl rfl)) rfl
    · intro id hearly
      obtain ⟨hsent, hgot⟩ := h.early id hearly
      rw [sentSince_concat, deliveredTo_concat, hsent, hgot]
      exact ⟨rfl, rfl⟩
  | accepted kind room =>
    have haside (id : Nat) : Aside id (.accepted s.connections.length) :=
      aside_rest id (.inr (.inl ⟨_, rfl⟩))
    constructor
    · intro id kind' next hlive
      dsimp only at hlive
      by_cases hlt : id < s.connections.length
      · rw [List.getElem?_append_left hlt] at hlive
        exact (h.live id kind' next hlive).aside (haside id) rfl
      · rw [List.getElem?_append_right (by omega)] at hlive
        have hcounted := List.mem_singleton.mp (List.mem_of_getElem? hlive)
        cases hcounted
    · intro id hearly
      have hbefore : s.connections[id]? = none ∨ ∃ kind, s.connections[id]? = some (.counted kind) := by
        by_cases hlt : id < s.connections.length
        · dsimp only at hearly
          rwa [List.getElem?_append_left hlt] at hearly
        · exact Or.inl (List.getElem?_eq_none (by omega))
      obtain ⟨hsent, hgot⟩ := h.early id hbefore
      rw [sentSince_concat, deliveredTo_concat, hsent, hgot]
      exact ⟨rfl, rfl⟩
  | attached was =>
    refine h.moved was _ (fun other hne => aside_attached hne) (by simp) fun kind next hnew => ?_
    cases hnew
    refine ⟨Nat.le_refl _, fun _ => ⟨[], ?_, ?_⟩⟩
    · rw [sentSince_concat, (h.early _ (.inr ⟨_, was⟩)).1, List.nil_append, List.drop_length]
      exact if_pos rfl
    · rw [deliveredTo_concat, (h.early _ (.inr ⟨_, was⟩)).2]
      rfl
  | sent e heard =>
    constructor
    · exact fun id kind next hlive => (h.live id kind next hlive).sent e
    · intro id hearly
      obtain ⟨hsent, hgot⟩ := h.early id hearly
      rw [sentSince_concat, deliveredTo_concat, hsent, hgot]
      exact ⟨rfl, rfl⟩
  | unheard e alone =>
    constructor
    · intro id kind next hlive
      have hnone := List.any_eq_false.mp alone _ (List.mem_of_getElem? hlive)
      exact absurd rfl hnone
    · intro id hearly
      obtain ⟨hsent, hgot⟩ := h.early id hearly
      rw [sentSince_concat, deliveredTo_concat, hsent, hgot]
      exact ⟨rfl, rfl⟩
  | @delivered id next next' kind e was got =>
    refine h.moved was _ (fun other hne => aside_delivered hne _) (by simp) fun kind' next'' hnew => ?_
    cases hnew
    obtain ⟨rfl, hlt, hwaiting⟩ := Broadcast.drop_of_recv got
    refine ⟨hlt, fun hnear => ?_⟩
    obtain ⟨heard, hsent, hgot⟩ := (h.live id kind next was).served fun hlag => hnear (hlag.later _)
    refine ⟨heard ++ [e], ?_, ?_⟩
    · rw [sentSince_concat, hsent, hwaiting]
      simp only [noteSent, List.append_assoc, List.singleton_append]
    · rw [deliveredTo_concat, hgot, List.map_append]
      simp only [deliveredTo, List.filterMap_cons, List.filterMap_nil, if_true, List.map_cons,
        List.map_nil]
  | @skipped id next next' events kind was behind =>
    refine h.moved was _ (fun other _ => aside_rest other (.inr (.inr (.inl ⟨_, _, rfl⟩)))) (by simp)
      fun kind' next'' hnew => ?_
    cases hnew
    refine ⟨Broadcast.place_of_lagged behind, fun hnear => absurd ?_ hnear⟩
    exact ⟨events, List.mem_append_right _ (List.mem_singleton.mpr rfl)⟩
  | dropped was =>
    exact h.moved was _ (fun other _ => aside_rest other (.inr (.inr (.inr ⟨_, rfl⟩)))) (by simp)
      (by simp)

/-- The polls of a stream that is within the capacity yield everything that waits for it. -/
theorem drained {s : SseManager} {id : Nat} {kind : StreamKind} {waiting : List SseEvent} {next : Nat}
    (hlive : s.connections[id]? = some (.live kind next)) (hwaiting : s.tx.sent.drop next = waiting)
    (hwithin : waiting.length ≤ s.tx.capacity) :
    (run sseStep s (List.replicate waiting.length (.poll id))).2 =
      waiting.map fun e => .delivered id (render kind e) := by
  induction waiting generalizing s next with
  | nil => rfl
  | cons e rest ih =>
    have hgot := Broadcast.recv_of_drop (by rw [hwaiting]; exact hwithin) hwaiting
    have hstep : sseStep s (.poll id) =
        ({ s with connections := s.connections.set id (.live kind (next + 1)) },
          [.delivered id (render kind e)]) := by
      simp only [sseStep, poll, hlive, hgot]
    have hthere : (s.connections.set id (.live kind (next + 1)))[id]? =
        some (.live kind (next + 1)) :=
      List.getElem?_set_self (List.getElem?_eq_some_iff.mp hlive).1
    have hrest : s.tx.sent.drop (next + 1) = rest :=
      (List.cons.inj ((Broadcast.drop_of_recv hgot).2.2.symm.trans hwaiting)).2
    have hshort : rest.length ≤ s.tx.capacity := by
      rw [List.length_cons] at hwithin
      omega
    rw [List.length_cons, List.replicate_succ, run, hstep]
    have hlater := @ih { s with connections := s.connections.set id (.live kind (next + 1)) }
      (next + 1) hthere hrest hshort
    rw [hlater]
    rfl

end Delivery

theorem withLimit_counted (maxConnections : UInt64) : Counted (.withLimit maxConnections) :=
  ⟨rfl, Nat.zero_le _⟩

theorem withLimit_serving (maxConnections : UInt64) : Serving (.withLimit maxConnections) [] :=
  ⟨fun _ _ _ hlive => by simp [SseManager.withLimit] at hlive, fun _ _ => ⟨rfl, rfl⟩⟩

theorem reached_counted (maxConnections : UInt64) (ops : List SseOp) :
    Counted (run sseStep (.withLimit maxConnections) ops).1 :=
  run_invariant (fun s _ => Counted s) (withLimit_counted maxConnections)
    (fun s _ op h => h.turn (sseStep_turn s op)) ops

theorem reached_serving (maxConnections : UInt64) (ops : List SseOp) :
    Serving (run sseStep (.withLimit maxConnections) ops).1
      (run sseStep (.withLimit maxConnections) ops).2 :=
  run_invariant Serving (withLimit_serving maxConnections)
    (fun s _ op h => h.turn (sseStep_turn s op)) ops

theorem Turn.limits {s s' : SseManager} {seen : List Seen} (h : Turn s s' seen) :
    s'.maxConnections = s.maxConnections ∧ s'.tx.capacity = s.tx.capacity := by
  cases h <;> exact ⟨rfl, rfl⟩

theorem reached_limits (maxConnections : UInt64) (ops : List SseOp) :
    (run sseStep (.withLimit maxConnections) ops).1.maxConnections = maxConnections ∧
      (run sseStep (.withLimit maxConnections) ops).1.tx.capacity = 256 :=
  run_invariant (fun s _ => s.maxConnections = maxConnections ∧ s.tx.capacity = 256) ⟨rfl, rfl⟩
    (fun s _ op h => ⟨(sseStep_turn s op).limits.1.trans h.1, (sseStep_turn s op).limits.2.trans h.2⟩)
    ops

/-- A refused subscription leaves everything as it was. -/
theorem Turn.refusal {s s' : SseManager} {seen : List Seen} (h : Turn s s' seen)
    (hseen : .refused ∈ seen) : s' = s := by
  cases h <;> simp_all

end Gyre.Channels.Web
