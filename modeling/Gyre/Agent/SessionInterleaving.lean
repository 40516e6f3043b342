/- digest: Concurrent calls of the session manager, interleaved lock by lock. -/

import Gyre.Lib.Reach
import Gyre.Lib.Tables
import Gyre.Agent.ThreadResolution

/-!
Every call of the manager is a place in its method, before one of its locked sections; a step runs
the next section of one call. A resolved message goes on as a turn that holds the session it was
given and appends to it. The history of the calls is kept, newest first.
-/

set_option autoImplicit false
set_option relaxedAutoImplicit false

namespace Gyre.Agent

open Gyre.Llm Gyre.Lib

/-- A call of the manager, by the section it runs next. -/
inductive ManagerCall where
  | findingSession (key : ThreadKey)
  | addingSession (key : ThreadKey)
  | lookingUp (key : ThreadKey) (handle : Nat)
  | creatingThread (key : ThreadKey) (handle : Nat)
  | storingMapping (key : ThreadKey) (handle : Nat) (thread : Uuid)
  | insertingUndo (key : ThreadKey) (handle : Nat) (thread : Uuid)
  /-- The resolved message's turn, holding what it was given. -/
  | turn (key : ThreadKey) (handle : Nat) (thread : Uuid)
  | registeringMapping (userId channel : String) (thread : Uuid) (handle : Nat)
  | registeringUndo (userId : String) (thread : Uuid) (handle : Nat)
  | registeringSession (userId : String) (handle : Nat)
  | findingStale (maxIdle : Nat)
  | collectingThreads (stale : List String) (idleSince : Int)
  | removingSessions (stale : List String) (idleSince : Int) (threads : List Uuid)
  | cleaningMappings (stale : List String) (threads : List Uuid)
  | cleaningUndo (threads : List Uuid)
  deriving DecidableEq, Repr

namespace ManagerCall

/-- The first section of each method. -/
def isFirst : ManagerCall → Bool
  | findingSession _ | registeringMapping .. | findingStale _ => true
  | _ => false

/-- The user whose session a call holds, and the session's handle. -/
def held : ManagerCall → Option (String × Nat)
  | lookingUp key handle | creatingThread key handle => some (key.userId, handle)
  | storingMapping key handle _ | insertingUndo key handle _ | turn key handle _ =>
    some (key.userId, handle)
  | registeringMapping userId _ _ handle | registeringUndo userId _ handle
  | registeringSession userId handle => some (userId, handle)
  | _ => none

/-- The users a call of `prune_stale_sessions` is about to discard. -/
def discards : ManagerCall → List String
  | collectingThreads stale _ | removingSessions stale _ _ | cleaningMappings stale _ => stale
  | _ => []

/-- The time before which the sessions it is about to discard were to be last used. -/
def idleSince : ManagerCall → Option Int
  | collectingThreads _ since | removingSessions _ since _ => some since
  | _ => none

/-- The key a call has made a thread for and not answered yet. -/
def placing : ManagerCall → Option ThreadKey
  | storingMapping key _ _ | insertingUndo key _ _ => some key
  | _ => none

end ManagerCall

/-- What the history records; times are those of the clock. -/
inductive SessionUse where
  | resolved (key : ThreadKey) (handle : Nat) (thread : Uuid) (now : Int)
  | appended (handle : Nat) (thread : Uuid) (now : Int)
  | registered (handle : Nat) (thread : Uuid) (now : Int)
  /-- `prune_stale_sessions` discarded a session that was to be idle since the time given. -/
  | discarded (handle : Nat) (idleSince : Int)
  deriving DecidableEq, Repr

/-- When a session was resolved or had a thread operation. -/
def SessionUse.usedAt (handle : Nat) : SessionUse → Option Int
  | resolved _ h _ now | appended h _ now | registered h _ now =>
    if h = handle then some now else none
  | discarded .. => none

structure ManagerWorld where
  manager : SessionManager
  calls : Nat → Option ManagerCall
  history : List SessionUse

namespace ManagerWorld

def new : ManagerWorld := ⟨.new, fun _ => none, []⟩

def goTo (w : ManagerWorld) (i : Nat) (call : ManagerCall) : ManagerWorld :=
  { w with calls := Function.update w.calls i (some call) }

def leave (w : ManagerWorld) (i : Nat) : ManagerWorld :=
  { w with calls := Function.update w.calls i none }

def record (w : ManagerWorld) (use : SessionUse) : ManagerWorld :=
  { w with history := use :: w.history }

def update (w : ManagerWorld) (m : SessionManager) : ManagerWorld :=
  { w with manager := m }

/-- The discards of one removal. -/
def discardsOf (m : SessionManager) (stale : List String) (idleSince : Int) : List SessionUse :=
  (stale.filterMap m.findSession).map fun handle => .discarded handle idleSince

/-- Run the section a call stands before. `locked` tells which session locks are taken. -/
def advance (w : ManagerWorld) (i : Nat) (draw : Draw) (locked : Nat → Bool) :
    ManagerCall → ManagerWorld
  | .findingSession key =>
    match w.manager.findSession key.userId with
    | some handle => w.goTo i (.lookingUp key handle)
    | none => w.goTo i (.addingSession key)
  | .addingSession key =>
    let added := w.manager.addSession key.userId draw
    (w.update added.1).goTo i (.lookingUp key added.2)
  | .lookingUp key handle =>
    match w.manager.mappedThread handle key with
    | some thread => (w.record (.resolved key handle thread draw.now)).goTo i (.turn key handle thread)
    | none => w.goTo i (.creatingThread key handle)
  | .creatingThread key handle =>
    (w.update (w.manager.modifyShared handle (·.createThread draw.threadId draw.now))).goTo i
      (.storingMapping key handle draw.threadId)
  | .storingMapping key handle thread =>
    (w.update (w.manager.storeMapping key thread)).goTo i (.insertingUndo key handle thread)
  | .insertingUndo key handle thread =>
    ((w.update (w.manager.insertUndoManager thread)).record
      (.resolved key handle thread draw.now)).goTo i (.turn key handle thread)
  | .turn .. => w.leave i
  | .registeringMapping userId channel thread handle =>
    ((w.update (w.manager.storeMapping (SessionManager.registeredKey userId channel thread)
      thread)).record (.registered handle thread draw.now)).goTo i
        (.registeringUndo userId thread handle)
  | .registeringUndo userId thread handle =>
    (w.update (w.manager.ensureUndoManager thread)).goTo i (.registeringSession userId handle)
  | .registeringSession userId handle =>
    (w.update (w.manager.trackSession userId handle)).leave i
  | .findingStale maxIdle =>
    match w.manager.staleUsers locked (SessionManager.staleCutoff maxIdle draw.now) with
    | [] => w.leave i
    | stale => w.goTo i (.collectingThreads stale (draw.now - maxIdle))
  | .collectingThreads stale idleSince =>
    w.goTo i (.removingSessions stale idleSince (w.manager.threadsOf locked stale))
  | .removingSessions stale idleSince threads =>
    ({ w with
      manager := w.manager.removeSessions stale
      history := discardsOf w.manager stale idleSince ++ w.history }).goTo i
        (.cleaningMappings stale threads)
  | .cleaningMappings stale threads =>
    (w.update (w.manager.cleanMappings stale)).goTo i (.cleaningUndo threads)
  | .cleaningUndo threads => (w.update (w.manager.removeUndoManagers threads)).leave i

end ManagerWorld

inductive ManagerAct where
  | start (i : Nat) (call : ManagerCall)
  | advance (i : Nat) (draw : Draw) (locked : Nat → Bool)
  /-- A turn changes its thread in the session it holds. -/
  | append (i : Nat) (change : Thread → Thread) (now : Int)

namespace ManagerWorld

def step (w : ManagerWorld) : ManagerAct → ManagerWorld
  | .start i call => if w.calls i = none ∧ call.isFirst then w.goTo i call else w
  | .advance i draw locked =>
    match w.calls i with
    | some call => w.advance i draw locked call
    | none => w
  | .append i change now =>
    match w.calls i with
    | some (.turn _ handle thread) =>
      (w.update (w.manager.modifyShared handle fun s =>
        { s with session := s.session.modifyThread thread change })).record
          (.appended handle thread now)
    | _ => w

end ManagerWorld

/-- The session has been discarded. -/
def Discarded (history : List SessionUse) (handle : Nat) : Prop :=
  ∃ since, .discarded handle since ∈ history

/-- The session was not used at the time given or later. -/
def IdleSince (history : List SessionUse) (handle : Nat) (since : Int) : Prop :=
  ∀ use ∈ history, ∀ time, use.usedAt handle = some time → time < since

/-- What may be recorded after a history: a message is resolved to a session that is not discarded,
and as every earlier message of its key was whose session is not discarded; nothing is appended to a
discarded session; and a session is discarded when it was idle. -/
def Follows (before : List SessionUse) : SessionUse → Prop
  | .resolved key handle thread _ => ¬ Discarded before handle ∧
      ∀ handle' thread' now', .resolved key handle' thread' now' ∈ before →
        ¬ Discarded before handle' → handle' = handle ∧ thread' = thread
  | .appended handle _ _ => ¬ Discarded before handle
  | .registered .. => True
  | .discarded handle since => IdleSince before handle since

/-- Every entry of a history follows what is before it. -/
def OneThreadPerKey : List SessionUse → Prop
  | [] => True
  | use :: before => Follows before use ∧ OneThreadPerKey before

namespace ManagerWorld

/-- No call is about to discard the user's session. -/
def Undisturbed (w : ManagerWorld) (userId : String) : Prop :=
  ∀ i call, w.calls i = some call → userId ∉ call.discards

/-- No call holds the user's session. -/
def Unheld (w : ManagerWorld) (userId : String) : Prop :=
  ∀ i call, w.calls i = some call → ∀ handle, call.held ≠ some (userId, handle)

/-- No call has made a thread for the key and not stored its mapping. -/
def NotStoring (w : ManagerWorld) (key : ThreadKey) : Prop :=
  ∀ i handle thread, w.calls i ≠ some (.storingMapping key handle thread)

/-- The sections that go right where they run: a thread is made, or registered, for a key that is
not mapped to another one of the session's threads and has none in the making; the sessions found
stale are idle and nobody holds them; and nobody looks up or makes the session of a user whose
session is about to be discarded. A drawn identifier is new. -/
def Undisputed (w : ManagerWorld) (draw : Draw) (locked : Nat → Bool) : ManagerCall → Prop
  | .findingSession key | .addingSession key => w.Undisturbed key.userId
  | .creatingThread key handle =>
    w.manager.mappedThread handle key = none ∧ w.NotStoring key ∧
      ∀ other, w.manager.threadMap other ≠ some draw.threadId
  | .registeringMapping userId channel thread handle =>
    let key := SessionManager.registeredKey userId channel thread
    (∀ other, w.manager.mappedThread handle key = some other → other = thread) ∧ w.NotStoring key
  | .findingStale maxIdle =>
    ∀ userId ∈ w.manager.staleUsers locked (SessionManager.staleCutoff maxIdle draw.now),
      w.Unheld userId ∧ ∀ handle, w.manager.findSession userId = some handle →
        IdleSince w.history handle (draw.now - maxIdle)
  | _ => True

/-- A step that goes right; a thread is registered with the session the user has. -/
def Allowed (w : ManagerWorld) : ManagerAct → Prop
  | .start _ (.registeringMapping userId _ _ handle) =>
    w.manager.findSession userId = some handle ∧ w.Undisturbed userId
  | .advance i draw locked => ∀ call, w.calls i = some call → w.Undisputed draw locked call
  | _ => True

/-- What holds of a call and the world around it. -/
structure Fits (w : ManagerWorld) (i : Nat) (call : ManagerCall) : Prop where
  current : ∀ userId handle, call.held = some (userId, handle) →
    w.manager.findSession userId = some handle
  undisturbed : ∀ userId handle, call.held = some (userId, handle) →
    ∀ j other, j ≠ i → w.calls j = some other → userId ∉ other.discards
  quiet : ∀ userId ∈ call.discards, ∀ j other, j ≠ i → w.calls j = some other →
    ∀ handle, other.held ≠ some (userId, handle)
  idle : ∀ since, call.idleSince = some since → ∀ userId ∈ call.discards, ∀ handle,
    w.manager.findSession userId = some handle → IdleSince w.history handle since
  gone : ∀ stale threads, call = .cleaningMappings stale threads → ∀ userId ∈ stale,
    w.manager.findSession userId = none
  single : ∀ key, call.placing = some key → ∀ j other, j ≠ i → w.calls j = some other →
    other.placing ≠ some key
  storing : ∀ key handle thread, call = .storingMapping key handle thread →
    w.manager.containsThread handle thread = true ∧
      ∀ other, w.manager.threadMap key = some other →
        w.manager.containsThread handle other = false
  stored : ∀ key handle thread, call = .insertingUndo key handle thread →
    w.manager.containsThread handle thread = true ∧ w.manager.threadMap key = some thread

/-- What holds in every state the allowed steps lead to. -/
structure Settled (w : ManagerWorld) : Prop where
  owned : w.manager.Owned
  answered : ∀ key handle thread now, .resolved key handle thread now ∈ w.history →
    ¬ Discarded w.history handle → w.manager.findSession key.userId = some handle ∧
      w.manager.threadMap key = some thread ∧ w.manager.containsThread handle thread = true
  discarded : ∀ handle, Discarded w.history handle →
    handle < w.manager.shared.length ∧ ∀ userId, w.manager.findSession userId ≠ some handle
  ordered : OneThreadPerKey w.history
  fits : ∀ i call, w.calls i = some call → w.Fits i call

section Frames

variable {w : ManagerWorld} {i : Nat} {call : ManagerCall}

theorem new_settled : new.Settled := by
  refine ⟨SessionManager.new_owned, ?_, ?_, trivial, ?_⟩
  · intro key handle thread now h
    cases h
  · rintro handle ⟨since, h⟩
    cases h
  · intro i call h
    cases h

/-- A call that fits moves on. -/
theorem Settled.goTo (hs : w.Settled) (hfits : w.Fits i call) : (w.goTo i call).Settled := by
  refine ⟨hs.owned, hs.answered, hs.discarded, hs.ordered, ?_⟩
  intro j moved hmoved
  by_cases hj : j = i
  · subst hj
    have heq : call = moved := by simpa [ManagerWorld.goTo] using hmoved
    subst heq
    have hothers : ∀ k other, k ≠ j → (w.goTo j call).calls k = some other →
        w.calls k = some other := by
      intro k other hk h
      simpa [ManagerWorld.goTo, hk] using h
    exact ⟨hfits.current, fun u h hheld k other hk hother =>
        hfits.undisturbed u h hheld k other hk (hothers k other hk hother),
      fun u hu k other hk hother => hfits.quiet u hu k other hk (hothers k other hk hother),
      hfits.idle, hfits.gone,
      fun key hkey k other hk hother => hfits.single key hkey k other hk (hothers k other hk hother),
      hfits.storing, hfits.stored⟩
  · have hbefore : w.calls j = some moved := by simpa [ManagerWorld.goTo, hj] using hmoved
    have hold := hs.fits j moved hbefore
    -- another call is the one that moved, or as it was
    have hothers : ∀ k other, (w.goTo i call).calls k = some other →
        k = i ∧ other = call ∨ w.calls k = some other := by
      intro k other h
      by_cases hk : k = i
      · subst hk
        exact .inl ⟨rfl, by simpa [ManagerWorld.goTo, eq_comm] using h⟩
      · exact .inr (by simpa [ManagerWorld.goTo, hk] using h)
    refine ⟨hold.current, ?_, ?_, hold.idle, hold.gone, ?_, hold.storing, hold.stored⟩
    · intro u h hheld k other hk hother
      rcases hothers k other hother with ⟨rfl, rfl⟩ | hother
      · exact fun hu => hfits.quiet u hu j moved hj hbefore h hheld
      · exact hold.undisturbed u h hheld k other hk hother
    · intro u hu k other hk hother h hheld
      rcases hothers k other hother with ⟨rfl, rfl⟩ | hother
      · exact hfits.undisturbed u h hheld j moved hj hbefore hu
      · exact hold.quiet u hu k other hk hother h hheld
    · intro key hkey k other hk hother
      rcases hothers k other hother with ⟨rfl, rfl⟩ | hother
      · exact fun hplacing => hfits.single key hplacing j moved hj hbefore hkey
      · exact hold.single key hkey k other hk hother

theorem Settled.leave (hs : w.Settled) (i : Nat) : (w.leave i).Settled := by
  refine ⟨hs.owned, hs.answered, hs.discarded, hs.ordered, ?_⟩
  have hothers : ∀ k other, (w.leave i).calls k = some other → w.calls k = some other := by
    intro k other h
    by_cases hk : k = i
    · subst hk
      simp [ManagerWorld.leave] at h
    · simpa [ManagerWorld.leave, hk] using h
  intro j moved hmoved
  have hold := hs.fits j moved (hothers j moved hmoved)
  exact ⟨hold.current, fun u h hheld k other hk hother =>
      hold.undisturbed u h hheld k other hk (hothers k other hother),
    fun u hu k other hk hother => hold.quiet u hu k other hk (hothers k other hother),
    hold.idle, hold.gone,
    fun key hkey k other hk hother => hold.single key hkey k other hk (hothers k other hother),
    hold.storing, hold.stored⟩

theorem held_discards {p : String × Nat} (h : call.held = some p) : call.discards = [] := by
  cases call <;> first | rfl | cases h

/-- Nobody is about to discard a session that a call holds. -/
theorem Settled.undisturbed (hs : w.Settled) (hcall : w.calls i = some call) {userId : String}
    {handle : Nat} (hheld : call.held = some (userId, handle)) : w.Undisturbed userId := by
  intro j other hother
  by_cases hj : j = i
  · subst hj
    rw [hcall, Option.some.injEq] at hother
    rw [← hother, held_discards hheld]
    exact List.not_mem_nil
  · exact (hs.fits i call hcall).undisturbed userId handle hheld j other hj hother

theorem Settled.current (hs : w.Settled) (hcall : w.calls i = some call) {userId : String}
    {handle : Nat} (hheld : call.held = some (userId, handle)) :
    w.manager.findSession userId = some handle :=
  (hs.fits i call hcall).current userId handle hheld

theorem Settled.not_discarded (hs : w.Settled) {userId : String} {handle : Nat}
    (hfind : w.manager.findSession userId = some handle) : ¬ Discarded w.history handle :=
  fun h => (hs.discarded handle h).2 userId hfind

/-- A handle is one user's. -/
theorem owner_unique {m : SessionManager} (hm : m.Owned) {userId other : String} {handle : Nat}
    (h : m.findSession userId = some handle) (hother : m.findSession other = some handle) :
    userId = other := by
  obtain ⟨s, hs, huser⟩ := hm userId handle h
  obtain ⟨s', hs', huser'⟩ := hm other handle hother
  rw [hs, Option.some.injEq] at hs'
  subst hs'
  exact huser.symm.trans huser'

/-- The tables change, but nothing that a call or an answer relies on. -/
structure Extends (w : ManagerWorld) (m : SessionManager) : Prop where
  owned : m.Owned
  length : w.manager.shared.length ≤ m.shared.length
  kept : ∀ userId handle, w.manager.findSession userId = some handle →
    m.findSession userId = some handle
  added : ∀ userId handle, m.findSession userId = some handle →
    w.manager.findSession userId = some handle ∨
      w.Undisturbed userId ∧ ¬ Discarded w.history handle
  contains : ∀ handle thread, w.manager.containsThread handle thread = true →
    m.containsThread handle thread = true
  mapped : ∀ key handle thread, w.manager.findSession key.userId = some handle →
    w.manager.threadMap key = some thread → w.manager.containsThread handle thread = true →
      m.threadMap key = some thread
  storing : ∀ j key handle thread, w.calls j = some (.storingMapping key handle thread) →
    ∀ other, m.threadMap key = some other → m.containsThread handle other = false

theorem Settled.update {m : SessionManager} (hs : w.Settled) (h : w.Extends m) :
    (w.update m).Settled := by
  refine ⟨h.owned, ?_, ?_, hs.ordered, ?_⟩
  · intro key handle thread now hresolved hlive
    obtain ⟨hfind, hmap, hcontains⟩ := hs.answered key handle thread now hresolved hlive
    exact ⟨h.kept _ _ hfind, h.mapped _ _ _ hfind hmap hcontains, h.contains _ _ hcontains⟩
  · intro handle hdiscarded
    obtain ⟨hlength, hgone⟩ := hs.discarded handle hdiscarded
    refine ⟨Nat.lt_of_lt_of_le hlength h.length, fun userId hfind => ?_⟩
    rcases h.added userId handle hfind with hfind | ⟨-, hlive⟩
    · exact hgone userId hfind
    · exact hlive hdiscarded
  · intro i call hcall
    have hold := hs.fits i call hcall
    refine ⟨fun u handle hheld => h.kept u handle (hold.current u handle hheld), hold.undisturbed,
      hold.quiet, ?_, ?_, hold.single, ?_, ?_⟩
    · intro since hsince u hu handle hfind
      rcases h.added u handle hfind with hfind | ⟨hquiet, -⟩
      · exact hold.idle since hsince u hu handle hfind
      · exact absurd hu (hquiet i call hcall)
    · intro stale threads heq u hu
      cases hfind : m.findSession u with
      | none => exact hfind
      | some handle =>
        rcases h.added u handle hfind with hfind | ⟨hquiet, -⟩
        · rw [hold.gone stale threads heq u hu] at hfind
          cases hfind
        · subst heq
          exact absurd hu (hquiet i _ hcall)
    · intro key handle thread heq
      subst heq
      exact ⟨h.contains _ _ (hold.storing key handle thread rfl).1, h.storing i key handle thread hcall⟩
    · intro key handle thread heq
      obtain ⟨hcontains, hmap⟩ := hold.stored key handle thread heq
      subst heq
      have hfind : w.manager.findSession key.userId = some handle := hold.current _ _ rfl
      exact ⟨h.contains _ _ hcontains, h.mapped _ _ _ hfind hmap hcontains⟩

/-- What is recorded of a session that nobody is about to discard. -/
theorem Settled.record {use : SessionUse} (hs : w.Settled) (hfollows : Follows w.history use)
    (hused : ∀ handle time, use.usedAt handle = some time →
      ∃ userId, w.manager.findSession userId = some handle ∧ w.Undisturbed userId)
    (hanswer : ∀ key handle thread now, use = .resolved key handle thread now →
      w.manager.findSession key.userId = some handle ∧ w.manager.threadMap key = some thread ∧
        w.manager.containsThread handle thread = true)
    (hkept : ∀ handle since, use ≠ .discarded handle since) : (w.record use).Settled := by
  have hsame : ∀ handle, Discarded (w.record use).history handle ↔ Discarded w.history handle := by
    intro handle
    constructor
    · rintro ⟨since, h⟩
      rcases List.mem_cons.mp h with h | h
      · exact absurd h.symm (hkept handle since)
      · exact ⟨since, h⟩
    · rintro ⟨since, h⟩
      exact ⟨since, List.mem_cons_of_mem _ h⟩
  refine ⟨hs.owned, ?_, ?_, ⟨hfollows, hs.ordered⟩, ?_⟩
  · intro key handle thread now hresolved hlive
    rw [hsame] at hlive
    rcases List.mem_cons.mp hresolved with heq | hresolved
    · exact hanswer key handle thread now heq.symm
    · exact hs.answered key handle thread now hresolved hlive
  · intro handle hdiscarded
    exact hs.discarded handle ((hsame handle).mp hdiscarded)
  · intro i call hcall
    have hold := hs.fits i call hcall
    refine ⟨hold.current, hold.undisturbed, hold.quiet, ?_, hold.gone, hold.single, hold.storing,
      hold.stored⟩
    intro since hsince u hu handle hfind entry hentry time htime
    rcases List.mem_cons.mp hentry with rfl | hentry
    · obtain ⟨owner, howner, hquiet⟩ := hused handle time htime
      rw [owner_unique hs.owned hfind howner] at hu
      exact absurd hu (hquiet i call hcall)
    · exact hold.idle since hsince u hu handle hfind entry hentry time htime

end Frames

section Sections

variable {w : ManagerWorld} {i : Nat} {call : ManagerCall} {m : SessionManager}

/-- A change of the undo managers alone. -/
theorem Settled.extends_of_eq (hs : w.Settled) (hshared : m.shared = w.manager.shared)
    (hsessions : m.sessions = w.manager.sessions) (hmap : m.threadMap = w.manager.threadMap) :
    w.Extends m := by
  have hfind (userId : String) : m.findSession userId = w.manager.findSession userId := by
    rw [SessionManager.findSession, hsessions]
    rfl
  have hcontains (handle : Nat) (thread : Uuid) :
      m.containsThread handle thread = w.manager.containsThread handle thread := by
    rw [SessionManager.containsThread, hshared]
    rfl
  refine ⟨hs.owned.congr hshared hsessions, Nat.le_of_eq (by rw [hshared]), ?_, ?_, ?_, ?_, ?_⟩
  · intro userId handle h
    rw [hfind, h]
  · intro userId handle h
    rw [hfind] at h
    exact .inl h
  · intro handle thread h
    rw [hcontains, h]
  · intro key handle thread _ h _
    rw [hmap, h]
  · intro j key handle thread hcall other hother
    rw [hmap] at hother
    rw [hcontains]
    exact ((hs.fits j _ hcall).storing key handle thread rfl).2 other hother

private theorem containsThread_modifyShared (handle : Nat) (f : SharedSession → SharedSession)
    (other : Nat) (thread : Uuid) :
    (m.modifyShared handle f).containsThread other thread =
      m.shared[other]?.any fun s => (if other = handle then f s else s).containsThread thread := by
  unfold SessionManager.containsThread SessionManager.modifyShared
  by_cases h : other = handle
  · subst h
    simp only [List.getElem?_modify_eq, if_true]
    cases m.shared[other]? <;> rfl
  · simp [List.getElem?_modify_ne _ _ (Ne.symm h), h]

/-- A change of one session that adds at most a thread no key is mapped to. -/
theorem Settled.extends_modifyShared (hs : w.Settled) {handle : Nat}
    {f : SharedSession → SharedSession} {added : Uuid → Prop}
    (huser : ∀ s, (f s).session.userId = s.session.userId)
    (hf : ∀ s thread, (f s).containsThread thread = true ↔
      s.containsThread thread = true ∨ added thread)
    (hfresh : ∀ key thread, w.manager.threadMap key = some thread → ¬ added thread) :
    w.Extends (w.manager.modifyShared handle f) := by
  refine ⟨SessionManager.modifyShared_owned hs.owned huser, ?_, fun _ _ h => h,
    fun _ _ h => .inl h, ?_, fun _ _ _ _ h _ => h, ?_⟩
  · simp [SessionManager.modifyShared]
  · intro other thread h
    rw [containsThread_modifyShared]
    unfold SessionManager.containsThread at h
    cases hshared : w.manager.shared[other]? with
    | none => simp [hshared] at h
    | some s =>
      rw [hshared, Option.any_some] at h
      rw [Option.any_some]
      split
      · exact (hf s thread).mpr (.inl h)
      · exact h
  · intro j key other thread hcall mapped hmap
    have hold := ((hs.fits j _ hcall).storing key other thread rfl).2 mapped hmap
    rw [containsThread_modifyShared]
    unfold SessionManager.containsThread at hold
    cases hshared : w.manager.shared[other]? with
    | none => rfl
    | some s =>
      rw [hshared, Option.any_some] at hold
      rw [Option.any_some]
      split
      · by_contra hcontains
        rcases (hf s mapped).mp (by simpa using hcontains) with h | h
        · rw [hold] at h
          cases h
        · exact hfresh key mapped hmap h
      · exact hold

theorem Settled.extends_addSession (hs : w.Settled) {userId : String}
    (hquiet : w.Undisturbed userId) (draw : Draw) :
    w.Extends (w.manager.addSession userId draw).1 := by
  unfold SessionManager.addSession
  cases hlookup : w.manager.sessions.lookup userId with
  | some handle => exact hs.extends_of_eq rfl rfl rfl
  | none =>
    have hfind (other : String) (hother : other ≠ userId) :
        (w.manager.sessions.insert userId w.manager.shared.length).lookup other =
          w.manager.findSession other := AList.lookup_insert_ne hother
    have hcontains (handle : Nat) (hhandle : handle < w.manager.shared.length) :
        (w.manager.shared ++ [SharedSession.new draw.sessionId userId draw.now])[handle]? =
          w.manager.shared[handle]? := List.getElem?_append_left hhandle
    have hobtained := SessionManager.getOrCreateSession_obtained hs.owned userId draw
    simp only [SessionManager.getOrCreateSession, SessionManager.findSession, hlookup,
      SessionManager.addSession] at hobtained
    have hlt {other : String} {handle : Nat} (h : w.manager.findSession other = some handle) :
        handle < w.manager.shared.length := by
      obtain ⟨s, hshared, -⟩ := hs.owned other handle h
      exact (List.getElem?_eq_some_iff.mp hshared).1
    refine ⟨hobtained.owned, by simp, ?_, ?_, ?_, fun _ _ _ _ h _ => h, ?_⟩
    · intro other handle h
      have hother : other ≠ userId := by
        rintro rfl
        rw [SessionManager.findSession, hlookup] at h
        cases h
      exact (hfind other hother).trans h
    · intro other handle h
      by_cases hother : other = userId
      · subst hother
        have hhandle : w.manager.shared.length = handle := by
          simpa [SessionManager.findSession] using h
        refine .inr ⟨hquiet, fun hdiscarded => ?_⟩
        have hlength := (hs.discarded handle hdiscarded).1
        omega
      · exact .inl ((hfind other hother).symm.trans h)
    · intro handle thread h
      unfold SessionManager.containsThread at h ⊢
      cases hshared : w.manager.shared[handle]? with
      | none => simp [hshared] at h
      | some s =>
        rw [hcontains handle (List.getElem?_eq_some_iff.mp hshared).1]
        exact h
    · intro j key handle thread hcall other hmap
      have hfits := hs.fits j _ hcall
      have hhandle := hlt (hfits.current _ _ rfl)
      unfold SessionManager.containsThread
      rw [hcontains handle hhandle]
      exact (hfits.storing key handle thread rfl).2 other hmap

/-- Storing a mapping for a key that has no other one. -/
theorem Settled.extends_storeMapping (hs : w.Settled) {key : ThreadKey} {handle : Nat}
    {thread : Uuid} (hfind : w.manager.findSession key.userId = some handle)
    (hmap : ∀ other, w.manager.mappedThread handle key = some other → other = thread)
    (hstoring : w.NotStoring key) : w.Extends (w.manager.storeMapping key thread) := by
  refine ⟨hs.owned.congr rfl rfl, Nat.le_refl _, fun _ _ h => h, fun _ _ h => .inl h,
    fun _ _ h => h, ?_, ?_⟩
  · intro other handle' thread' hfind' hmap' hcontains
    by_cases hkey : other = key
    · subst hkey
      rw [hfind, Option.some.injEq] at hfind'
      subst hfind'
      have hsame := hmap thread' (by
        simp [SessionManager.mappedThread, hmap', Option.filter_some, hcontains])
      rw [hsame]
      exact Function.update_self _ _ _
    · exact (Function.update_of_ne hkey _ _).trans hmap'
  · intro j other handle' thread' hcall mapped hmapped
    have hkey : other ≠ key := by
      rintro rfl
      exact hstoring j handle' thread' hcall
    have hbefore : w.manager.threadMap other = some mapped :=
      (Function.update_of_ne hkey _ _).symm.trans hmapped
    exact ((hs.fits j _ hcall).storing other handle' thread' rfl).2 mapped hbefore

theorem Settled.extends_cleanMappings (hs : w.Settled) {stale : List String}
    (hgone : ∀ userId ∈ stale, w.manager.findSession userId = none) :
    w.Extends (w.manager.cleanMappings stale) := by
  refine ⟨hs.owned.congr rfl rfl, Nat.le_refl _, fun _ _ h => h, fun _ _ h => .inl h,
    fun _ _ h => h, ?_, ?_⟩
  · intro key handle thread hfind hmap _
    have hkey : key.userId ∉ stale := by
      intro hmem
      rw [hgone _ hmem] at hfind
      cases hfind
    exact (if_neg hkey).trans hmap
  · intro j key handle thread hcall other hother
    refine ((hs.fits j _ hcall).storing key handle thread rfl).2 other ?_
    by_cases hkey : key.userId ∈ stale
    · exact absurd ((if_pos hkey).symm.trans hother) nofun
    · exact (if_neg hkey).symm.trans hother

theorem findSession_removeSessions (users : List String) (userId : String) :
    (m.removeSessions users).findSession userId =
      if userId ∈ users then none else m.findSession userId :=
  lookup_foldl_erase users m.sessions userId

private theorem mem_discardsOf {stale : List String} {since : Int} {use : SessionUse} :
    use ∈ discardsOf m stale since ↔
      ∃ userId ∈ stale, ∃ handle, m.findSession userId = some handle ∧
        use = .discarded handle since := by
  simp only [discardsOf, List.mem_map, List.mem_filterMap]
  constructor
  · rintro ⟨handle, ⟨userId, hmem, hfind⟩, rfl⟩
    exact ⟨userId, hmem, handle, hfind, rfl⟩
  · rintro ⟨userId, hmem, handle, hfind, rfl⟩
    exact ⟨handle, ⟨userId, hmem, hfind⟩, rfl⟩

private theorem idleSince_append {uses history : List SessionUse} {handle : Nat} {since : Int}
    (huses : ∀ use ∈ uses, use.usedAt handle = none) (h : IdleSince history handle since) :
    IdleSince (uses ++ history) handle since := by
  intro use huse time htime
  rcases List.mem_append.mp huse with huse | huse
  · rw [huses use huse] at htime
    cases htime
  · exact h use huse time htime

private theorem ordered_discards {history : List SessionUse} (handles : List Nat) (since : Int)
    (hidle : ∀ handle ∈ handles, IdleSince history handle since) (h : OneThreadPerKey history) :
    OneThreadPerKey (handles.map (.discarded · since) ++ history) := by
  induction handles with
  | nil => exact h
  | cons handle rest ih =>
    refine ⟨?_, ih fun other hother => hidle other (List.mem_cons_of_mem _ hother)⟩
    refine idleSince_append (fun use huse => ?_) (hidle handle List.mem_cons_self)
    obtain ⟨other, -, rfl⟩ := List.mem_map.mp huse
    rfl

/-- Sessions that are idle and that nobody holds are discarded. -/
theorem Settled.remove (hs : w.Settled) {stale : List String} {since : Int}
    (hidle : ∀ userId ∈ stale, ∀ handle, w.manager.findSession userId = some handle →
      IdleSince w.history handle since)
    (hunheld : ∀ userId ∈ stale, w.Unheld userId) :
    Settled { w with
      manager := w.manager.removeSessions stale
      history := discardsOf w.manager stale since ++ w.history } := by
  have hfind (userId : String) (handle : Nat) :
      (w.manager.removeSessions stale).findSession userId = some handle ↔
        userId ∉ stale ∧ w.manager.findSession userId = some handle := by
    rw [findSession_removeSessions]
    by_cases hmem : userId ∈ stale <;> simp [hmem]
  have hkeeps {handle : Nat} {since' : Int} (h : IdleSince w.history handle since') :
      IdleSince (discardsOf w.manager stale since ++ w.history) handle since' := by
    refine idleSince_append (fun use huse => ?_) h
    obtain ⟨_, _, _, _, rfl⟩ := mem_discardsOf.mp huse
    rfl
  have hdiscarded {handle : Nat}
      (h : Discarded (discardsOf w.manager stale since ++ w.history) handle) :
      (∃ userId ∈ stale, w.manager.findSession userId = some handle) ∨
        Discarded w.history handle := by
    obtain ⟨since', h⟩ := h
    rcases List.mem_append.mp h with h | h
    · obtain ⟨userId, hmem, handle', hfound, heq⟩ := mem_discardsOf.mp h
      cases heq
      exact .inl ⟨userId, hmem, hfound⟩
    · exact .inr ⟨since', h⟩
  refine ⟨?_, ?_, ?_, ?_, ?_⟩
  · intro userId handle h
    exact hs.owned userId handle ((hfind userId handle).mp h).2
  · intro key handle thread now hresolved hlive
    have hbefore : .resolved key handle thread now ∈ w.history := by
      rcases List.mem_append.mp hresolved with h | h
      · obtain ⟨_, _, _, _, heq⟩ := mem_discardsOf.mp h
        cases heq
      · exact h
    have hlive' : ¬ Discarded w.history handle := by
      rintro ⟨since', h⟩
      exact hlive ⟨since', List.mem_append_right _ h⟩
    obtain ⟨hfound, hmap, hcontains⟩ := hs.answered key handle thread now hbefore hlive'
    refine ⟨(hfind _ _).mpr ⟨fun hmem => hlive ⟨since, ?_⟩, hfound⟩, hmap, hcontains⟩
    exact List.mem_append_left _ (mem_discardsOf.mpr ⟨_, hmem, handle, hfound, rfl⟩)
  · intro handle h
    rcases hdiscarded h with ⟨userId, hmem, hfound⟩ | h
    · obtain ⟨s, hshared, -⟩ := hs.owned userId handle hfound
      refine ⟨(List.getElem?_eq_some_iff.mp hshared).1, fun other hother => ?_⟩
      obtain ⟨hnot, hother⟩ := (hfind other handle).mp hother
      rw [owner_unique hs.owned hother hfound] at hnot
      exact hnot hmem
    · obtain ⟨hlength, hgone⟩ := hs.discarded handle h
      exact ⟨hlength, fun userId hfound => hgone userId ((hfind userId handle).mp hfound).2⟩
  · refine ordered_discards _ since (fun handle hmem => ?_) hs.ordered
    obtain ⟨userId, huser, hfound⟩ := List.mem_filterMap.mp hmem
    exact hidle userId huser handle hfound
  · intro i call hcall
    have hold := hs.fits i call hcall
    refine ⟨?_, hold.undisturbed, hold.quiet, ?_, ?_, hold.single, hold.storing, hold.stored⟩
    · intro userId handle hheld
      exact (hfind userId handle).mpr ⟨fun hmem => hunheld userId hmem i call hcall handle hheld,
        hold.current userId handle hheld⟩
    · intro since' hsince u hu handle hfound
      exact hkeeps (hold.idle since' hsince u hu handle ((hfind u handle).mp hfound).2)
    · intro stale' threads heq u hu
      have hgone := hold.gone stale' threads heq u hu
      rw [findSession_removeSessions, hgone, ite_self]

end Sections

section Steps

variable {w : ManagerWorld} {i : Nat} {call : ManagerCall}

private theorem fits_free (hheld : call.held = none) (hdiscards : call.discards = [])
    (hplacing : call.placing = none) (hgone : ∀ stale threads, call ≠ .cleaningMappings stale threads) :
    w.Fits i call := by
  refine ⟨?_, ?_, ?_, ?_, ?_, ?_, ?_, ?_⟩
  · intro userId handle h
    rw [hheld] at h
    cases h
  · intro userId handle h
    rw [hheld] at h
    cases h
  · intro userId h
    rw [hdiscards] at h
    cases h
  · intro since _ userId h
    rw [hdiscards] at h
    cases h
  · intro stale threads h
    exact absurd h (hgone stale threads)
  · intro key h
    rw [hplacing] at h
    cases h
  · rintro key handle thread rfl
    cases hplacing
  · rintro key handle thread rfl
    cases hplacing

/-- A call that holds a session nobody is about to discard, and makes no thread. -/
private theorem fits_holder {userId : String} {handle : Nat}
    (hheld : call.held = some (userId, handle)) (hplacing : call.placing = none)
    (hfind : w.manager.findSession userId = some handle) (hquiet : w.Undisturbed userId) :
    w.Fits i call := by
  have hdiscards := held_discards hheld
  refine ⟨?_, ?_, ?_, ?_, ?_, ?_, ?_, ?_⟩
  · intro other handle' h
    rw [hheld, Option.some.injEq, Prod.mk.injEq] at h
    rw [← h.1, ← h.2]
    exact hfind
  · intro other handle' h j another _ hcall
    rw [hheld, Option.some.injEq, Prod.mk.injEq] at h
    rw [← h.1]
    exact hquiet j another hcall
  · intro other h
    rw [hdiscards] at h
    cases h
  · intro since _ other h
    rw [hdiscards] at h
    cases h
  · rintro stale threads rfl
    cases hheld
  · intro key h
    rw [hplacing] at h
    cases h
  · rintro key handle thread rfl
    cases hplacing
  · rintro key handle thread rfl
    cases hplacing

/-- A call of `prune_stale_sessions` that holds nothing. -/
private theorem fits_pruner {stale : List String} (hheld : call.held = none)
    (hdiscards : call.discards = stale) (hplacing : call.placing = none)
    (hunheld : ∀ userId ∈ stale, w.Unheld userId)
    (hidle : ∀ since, call.idleSince = some since → ∀ userId ∈ stale, ∀ handle,
      w.manager.findSession userId = some handle → IdleSince w.history handle since)
    (hgone : ∀ stale' threads, call = .cleaningMappings stale' threads → ∀ userId ∈ stale',
      w.manager.findSession userId = none) : w.Fits i call := by
  subst hdiscards
  refine ⟨?_, ?_, ?_, hidle, hgone, ?_, ?_, ?_⟩
  · intro userId handle h
    rw [hheld] at h
    cases h
  · intro userId handle h
    rw [hheld] at h
    cases h
  · intro userId hmem j other _ hother handle
    exact hunheld userId hmem j other hother handle
  · intro key h
    rw [hplacing] at h
    cases h
  · rintro key handle thread rfl
    cases hplacing
  · rintro key handle thread rfl
    cases hplacing

/-- Who is about to be discarded is held by nobody. -/
theorem Settled.unheld (hs : w.Settled) (hcall : w.calls i = some call) {userId : String}
    (hmem : userId ∈ call.discards) : w.Unheld userId := by
  intro j other hother handle hheld
  exact hs.undisturbed hother hheld i call hcall hmem

/-- A message is resolved as the tables say. -/
theorem Settled.record_resolved (hs : w.Settled) {key : ThreadKey} {handle : Nat} {thread : Uuid}
    (hfind : w.manager.findSession key.userId = some handle)
    (hmap : w.manager.threadMap key = some thread)
    (hcontains : w.manager.containsThread handle thread = true) (hquiet : w.Undisturbed key.userId)
    (now : Int) : (w.record (.resolved key handle thread now)).Settled := by
  refine hs.record ⟨hs.not_discarded hfind, ?_⟩ ?_ ?_ (fun _ _ h => by cases h)
  · intro handle' thread' now' hresolved hlive
    obtain ⟨hfind', hmap', -⟩ := hs.answered key handle' thread' now' hresolved hlive
    rw [hfind, Option.some.injEq] at hfind'
    rw [hmap, Option.some.injEq] at hmap'
    exact ⟨hfind'.symm, hmap'.symm⟩
  · intro other time h
    simp only [SessionUse.usedAt, Option.ite_none_right_eq_some] at h
    exact ⟨key.userId, h.1 ▸ hfind, hquiet⟩
  · intro key' handle' thread' now' h
    cases h
    exact ⟨hfind, hmap, hcontains⟩

/-- A session in use takes an append or a registration. -/
private theorem record_used (hs : w.Settled) {userId : String} {handle : Nat} {use : SessionUse}
    (hfind : w.manager.findSession userId = some handle) (hquiet : w.Undisturbed userId)
    (huse : (∃ thread now, use = .appended handle thread now) ∨
      ∃ thread now, use = .registered handle thread now) : (w.record use).Settled := by
  rcases huse with ⟨thread, now, rfl⟩ | ⟨thread, now, rfl⟩
  · refine hs.record (hs.not_discarded hfind) ?_ (fun _ _ _ _ h => by cases h)
      (fun _ _ h => by cases h)
    intro other time h
    simp only [SessionUse.usedAt, Option.ite_none_right_eq_some] at h
    exact ⟨userId, h.1 ▸ hfind, hquiet⟩
  · refine hs.record trivial ?_ (fun _ _ _ _ h => by cases h) (fun _ _ h => by cases h)
    intro other time h
    simp only [SessionUse.usedAt, Option.ite_none_right_eq_some] at h
    exact ⟨userId, h.1 ▸ hfind, hquiet⟩

theorem mappedThread_some {m : SessionManager} {handle : Nat} {key : ThreadKey} {thread : Uuid} :
    m.mappedThread handle key = some thread ↔
      m.threadMap key = some thread ∧ m.containsThread handle thread = true := by
  simp [SessionManager.mappedThread, Option.filter_eq_some_iff]

private theorem creatingThread_settled (hs : w.Settled) {key : ThreadKey} {handle : Nat}
    (hcall : w.calls i = some (.creatingThread key handle)) (draw : Draw)
    (hunmapped : w.manager.mappedThread handle key = none) (hstoring : w.NotStoring key)
    (hfresh : ∀ other, w.manager.threadMap other ≠ some draw.threadId) :
    ((w.update (w.manager.modifyShared handle (·.createThread draw.threadId draw.now))).goTo i
      (.storingMapping key handle draw.threadId)).Settled := by
  have hfind : w.manager.findSession key.userId = some handle := hs.current hcall rfl
  have hquiet : w.Undisturbed key.userId := hs.undisturbed hcall rfl
  have hcreated (s : SharedSession) (thread : Uuid) :
      (s.createThread draw.threadId draw.now).containsThread thread = true ↔
        s.containsThread thread = true ∨ thread = draw.threadId := by
    rw [SessionManager.containsThread_createThread, Bool.or_eq_true, decide_eq_true_eq, or_comm]
  have hextends : w.Extends (w.manager.modifyShared handle (·.createThread draw.threadId draw.now)) :=
    hs.extends_modifyShared (fun s => SessionManager.createThread_userId s _ _) hcreated
      fun other thread hmap heq => hfresh other (heq ▸ hmap)
  obtain ⟨s, hshared, -⟩ := hs.owned key.userId handle hfind
  have hcontains (thread : Uuid) :
      (w.manager.modifyShared handle (·.createThread draw.threadId draw.now)).containsThread handle
        thread = true ↔ w.manager.containsThread handle thread = true ∨ thread = draw.threadId := by
    rw [containsThread_modifyShared, hshared, Option.any_some, if_pos rfl, hcreated,
      SessionManager.containsThread, hshared, Option.any_some]
  refine (hs.update hextends).goTo ⟨?_, ?_, ?_, ?_, ?_, ?_, ?_, ?_⟩
  · rintro userId handle' ⟨⟩
    exact hfind
  · rintro userId handle' ⟨⟩ j other _ hother
    exact hquiet j other hother
  · intro userId hmem
    cases hmem
  · intro since _ userId hmem
    cases hmem
  · rintro stale threads ⟨⟩
  · rintro key' ⟨⟩ j other _ hother hplacing
    -- a call that has stored its mapping would have mapped the key
    cases other <;> simp only [ManagerCall.placing, Option.some.injEq, reduceCtorEq] at hplacing
    case storingMapping key' handle' thread' =>
      subst hplacing
      exact hstoring j handle' thread' hother
    case insertingUndo key' handle' thread' =>
      subst hplacing
      have hstored := (hs.fits j _ hother).stored _ _ _ rfl
      have hsame : w.manager.findSession key'.userId = some handle' := hs.current hother rfl
      rw [hfind, Option.some.injEq] at hsame
      subst hsame
      rw [mappedThread_some.mpr ⟨hstored.2, hstored.1⟩] at hunmapped
      cases hunmapped
  · rintro key' handle' thread' ⟨⟩
    refine ⟨(hcontains _).mpr (.inr rfl), fun other hother => ?_⟩
    have hmap : w.manager.threadMap key = some other := hother
    refine (Bool.eq_false_iff).mpr fun hheld => ?_
    rcases (hcontains other).mp hheld with h | h
    · rw [mappedThread_some.mpr ⟨hmap, h⟩] at hunmapped
      cases hunmapped
    · exact hfresh key (h ▸ hmap)
  · rintro key' handle' thread' ⟨⟩

private theorem storingMapping_settled (hs : w.Settled) {key : ThreadKey} {handle : Nat}
    {thread : Uuid} (hcall : w.calls i = some (.storingMapping key handle thread)) :
    ((w.update (w.manager.storeMapping key thread)).goTo i
      (.insertingUndo key handle thread)).Settled := by
  have hfits := hs.fits i _ hcall
  have hfind : w.manager.findSession key.userId = some handle := hs.current hcall rfl
  obtain ⟨hcontains, hunmapped⟩ := hfits.storing key handle thread rfl
  have hleft := hs.leave i
  have hnotstoring : (w.leave i).NotStoring key := by
    intro j handle' thread' hother
    by_cases hj : j = i
    · subst hj
      simp [ManagerWorld.leave] at hother
    · have hbefore : w.calls j = some (.storingMapping key handle' thread') := by
        simpa [ManagerWorld.leave, hj] using hother
      exact hfits.single key rfl j _ hj hbefore rfl
  have hextends : (w.leave i).Extends (w.manager.storeMapping key thread) := by
    refine hleft.extends_storeMapping hfind (fun other hother => ?_) hnotstoring
    obtain ⟨hmap, hheld⟩ := mappedThread_some.mp hother
    have hnot : (w.leave i).manager.containsThread handle other = false := hunmapped other hmap
    rw [hnot] at hheld
    cases hheld
  have hworld : (w.update (w.manager.storeMapping key thread)).goTo i
      (.insertingUndo key handle thread) =
        (((w.leave i).update (w.manager.storeMapping key thread)).goTo i
          (.insertingUndo key handle thread)) := by
    simp [ManagerWorld.goTo, ManagerWorld.update, ManagerWorld.leave]
  rw [hworld]
  have hothers : ∀ j other, j ≠ i → (w.leave i).calls j = some other → w.calls j = some other := by
    intro j other hj hother
    simpa [ManagerWorld.leave, hj] using hother
  refine (hleft.update hextends).goTo ⟨?_, ?_, ?_, ?_, ?_, ?_, ?_, ?_⟩
  · rintro userId handle' ⟨⟩
    exact hfind
  · rintro userId handle' ⟨⟩ j other hj hother
    exact hfits.undisturbed _ _ rfl j other hj (hothers j other hj hother)
  · intro userId hmem
    cases hmem
  · intro since _ userId hmem
    cases hmem
  · rintro stale threads ⟨⟩
  · rintro key' ⟨⟩ j other hj hother
    exact hfits.single key rfl j other hj (hothers j other hj hother)
  · rintro key' handle' thread' ⟨⟩
  · rintro key' handle' thread' ⟨⟩
    exact ⟨hcontains, Function.update_self _ _ _⟩

private theorem addSession_findSession (m : SessionManager) (userId : String) (draw : Draw) :
    (m.addSession userId draw).1.findSession userId = some (m.addSession userId draw).2 := by
  unfold SessionManager.addSession
  cases hlookup : m.sessions.lookup userId with
  | some handle => exact hlookup
  | none => exact AList.lookup_insert _

/-- Every section that goes right keeps the tables settled. -/
theorem Settled.advance (hs : w.Settled) (hcall : w.calls i = some call) (draw : Draw)
    (locked : Nat → Bool) (h : w.Undisputed draw locked call) :
    (w.advance i draw locked call).Settled := by
  cases call with
  | findingSession key =>
    simp only [ManagerWorld.advance]
    split
    next handle hfind => exact hs.goTo (fits_holder rfl rfl hfind h)
    next => exact hs.goTo (fits_free rfl rfl rfl (fun _ _ heq => by cases heq))
  | addingSession key =>
    have hupdated := hs.update (hs.extends_addSession h draw)
    exact hupdated.goTo (fits_holder rfl rfl (addSession_findSession _ _ _) h)
  | lookingUp key handle =>
    have hfind := hs.current hcall (rfl : ManagerCall.held _ = some (key.userId, handle))
    have hquiet := hs.undisturbed hcall (rfl : ManagerCall.held _ = some (key.userId, handle))
    simp only [ManagerWorld.advance]
    split
    next thread hmapped =>
      obtain ⟨hmap, hcontains⟩ := mappedThread_some.mp hmapped
      have hrecorded := hs.record_resolved hfind hmap hcontains hquiet draw.now
      exact hrecorded.goTo (fits_holder rfl rfl hfind hquiet)
    next => exact hs.goTo (fits_holder rfl rfl hfind hquiet)
  | creatingThread key handle =>
    exact creatingThread_settled hs hcall draw h.1 h.2.1 h.2.2
  | storingMapping key handle thread => exact storingMapping_settled hs hcall
  | insertingUndo key handle thread =>
    have hfind := hs.current hcall (rfl : ManagerCall.held _ = some (key.userId, handle))
    have hquiet := hs.undisturbed hcall (rfl : ManagerCall.held _ = some (key.userId, handle))
    obtain ⟨hcontains, hmap⟩ := (hs.fits i _ hcall).stored key handle thread rfl
    have hupdated : (w.update (w.manager.insertUndoManager thread)).Settled :=
      hs.update (hs.extends_of_eq rfl rfl rfl)
    have hrecorded := hupdated.record_resolved hfind hmap hcontains hquiet draw.now
    exact hrecorded.goTo (fits_holder rfl rfl hfind hquiet)
  | turn key handle thread => exact hs.leave i
  | registeringMapping userId channel thread handle =>
    have hfind := hs.current hcall (rfl : ManagerCall.held _ = some (userId, handle))
    have hquiet := hs.undisturbed hcall (rfl : ManagerCall.held _ = some (userId, handle))
    have hupdated : (w.update (w.manager.storeMapping
        (SessionManager.registeredKey userId channel thread) thread)).Settled :=
      hs.update (hs.extends_storeMapping hfind h.1 h.2)
    have hrecorded : ((w.update (w.manager.storeMapping
        (SessionManager.registeredKey userId channel thread) thread)).record
          (.registered handle thread draw.now)).Settled :=
      record_used hupdated hfind hquiet (.inr ⟨thread, draw.now, rfl⟩)
    exact hrecorded.goTo (fits_holder rfl rfl hfind hquiet)
  | registeringUndo userId thread handle =>
    have hfind := hs.current hcall (rfl : ManagerCall.held _ = some (userId, handle))
    have hquiet := hs.undisturbed hcall (rfl : ManagerCall.held _ = some (userId, handle))
    have hextends : w.Extends (w.manager.ensureUndoManager thread) := by
      unfold SessionManager.ensureUndoManager
      split
      · exact hs.extends_of_eq rfl rfl rfl
      · exact hs.extends_of_eq rfl rfl rfl
    refine (hs.update hextends).goTo (fits_holder rfl rfl ?_ hquiet)
    exact hextends.kept _ _ hfind
  | registeringSession userId handle =>
    have hfind := hs.current hcall (rfl : ManagerCall.held _ = some (userId, handle))
    have hsame := SessionManager.trackSession_of_found handle hfind
    exact (hs.update (hs.extends_of_eq (by rw [hsame]) (by rw [hsame]) (by rw [hsame]))).leave i
  | findingStale maxIdle =>
    simp only [ManagerWorld.advance]
    split
    next => exact hs.leave i
    next stale hstale =>
      refine hs.goTo (fits_pruner rfl rfl rfl (fun userId hmem => (h userId hmem).1) ?_
        (fun _ _ heq => by cases heq))
      rintro since ⟨⟩ userId hmem handle hfind
      exact (h userId hmem).2 handle hfind
  | collectingThreads stale since =>
    have hfits := hs.fits i _ hcall
    refine hs.goTo (fits_pruner rfl rfl rfl (fun userId hmem => hs.unheld hcall hmem) ?_
      (fun _ _ heq => by cases heq))
    rintro since' ⟨⟩ userId hmem handle hfind
    exact hfits.idle _ rfl userId hmem handle hfind
  | removingSessions stale since threads =>
    have hfits := hs.fits i _ hcall
    have hremoved := hs.remove (fun userId hmem => hfits.idle since rfl userId hmem)
      fun userId hmem => hs.unheld hcall hmem
    refine hremoved.goTo (fits_pruner rfl rfl rfl (fun userId hmem => hs.unheld hcall hmem)
      (fun _ heq => by cases heq) ?_)
    rintro stale' threads' ⟨⟩ userId hmem
    exact (findSession_removeSessions stale userId).trans (if_pos hmem)
  | cleaningMappings stale threads =>
    have hgone := (hs.fits i _ hcall).gone stale threads rfl
    exact (hs.update (hs.extends_cleanMappings hgone)).goTo
      (fits_free rfl rfl rfl (fun _ _ heq => by cases heq))
  | cleaningUndo threads =>
    have hextends : w.Extends (w.manager.removeUndoManagers threads) := hs.extends_of_eq rfl rfl rfl
    exact (hs.update hextends).leave i

private theorem modifyThread_containsThread (s : SharedSession) (thread other : Uuid)
    (change : Thread → Thread) :
    SharedSession.containsThread { s with session := s.session.modifyThread thread change } other =
      s.containsThread other := by
  unfold SharedSession.containsThread Session.modifyThread
  split
  next t ht =>
    by_cases hother : other = thread
    · subst hother
      simp [ht]
    · simp [hother]
  next => rfl

private theorem modifyThread_userId (s : Session) (thread : Uuid) (change : Thread → Thread) :
    (s.modifyThread thread change).userId = s.userId := by
  unfold Session.modifyThread
  split <;> rfl

theorem Settled.step (hs : w.Settled) (act : ManagerAct) (h : w.Allowed act) :
    (w.step act).Settled := by
  cases act with
  | start j first =>
    simp only [ManagerWorld.step]
    split
    next hfirst =>
      cases first with
      | findingSession key => exact hs.goTo (fits_free rfl rfl rfl (fun _ _ heq => by cases heq))
      | registeringMapping userId channel thread handle =>
        exact hs.goTo (fits_holder rfl rfl h.1 h.2)
      | findingStale maxIdle => exact hs.goTo (fits_free rfl rfl rfl (fun _ _ heq => by cases heq))
      | _ => cases hfirst.2
    next => exact hs
  | advance j draw locked =>
    simp only [ManagerWorld.step]
    split
    next call hcall => exact hs.advance hcall draw locked (h call hcall)
    next => exact hs
  | append j change now =>
    simp only [ManagerWorld.step]
    split
    next key handle thread hcall =>
      have hfind := hs.current hcall (rfl : ManagerCall.held _ = some (key.userId, handle))
      have hquiet := hs.undisturbed hcall (rfl : ManagerCall.held _ = some (key.userId, handle))
      have hsame (s : SharedSession) (other : Uuid) :
          SharedSession.containsThread { s with session := s.session.modifyThread thread change }
            other = true ↔ s.containsThread other = true ∨ False := by
        rw [modifyThread_containsThread, or_false]
      have hextends : w.Extends (w.manager.modifyShared handle fun s =>
          { s with session := s.session.modifyThread thread change }) :=
        hs.extends_modifyShared (fun s => modifyThread_userId s.session thread change) hsame
          fun _ _ _ h => h
      exact record_used (hs.update hextends) hfind hquiet (.inl ⟨thread, now, rfl⟩)
    next => exact hs

end Steps

end ManagerWorld

section Runs

open ManagerWorld

private def drawnAt (n : Nat) (now : Int) : Draw := ⟨.ofNat n, .ofNat (n + 1), now⟩

private def cliKey : ThreadKey := ⟨"alice", "cli", none⟩

private def advances (i n : Nat) (draw : Draw) : List ManagerAct :=
  List.replicate n (.advance i draw fun _ => false)

private def runFrom (w : ManagerWorld) (acts : List ManagerAct) : ManagerWorld :=
  acts.foldl ManagerWorld.step w

/-- A message resolved with nothing else under way. -/
private def resolvedOnce : ManagerWorld :=
  runFrom .new (.start 0 (.findingSession cliKey) :: advances 0 6 (drawnAt 1 0))

private def Alone (w : ManagerWorld) (call : ManagerCall) : Prop :=
  w.calls 0 = some call ∧ ∀ j, j ≠ 0 → w.calls j = none

private theorem alone_goTo {w : ManagerWorld} (h : ∀ j, j ≠ 0 → w.calls j = none)
    (call : ManagerCall) : Alone (w.goTo 0 call) call := by
  refine ⟨?_, fun j hj => ?_⟩
  · simp only [ManagerWorld.goTo, Function.update_self]
  · simp only [ManagerWorld.goTo, Function.update_of_ne hj]
    exact h j hj

private theorem alone_eq {w : ManagerWorld} {call other : ManagerCall} {j : Nat} (h : Alone w call)
    (hother : w.calls j = some other) : other = call := by
  by_cases hj : j = 0
  · subst hj
    rw [h.1, Option.some.injEq] at hother
    exact hother.symm
  · rw [h.2 j hj] at hother
    cases hother

private theorem alone_allowed {w : ManagerWorld} {call : ManagerCall} {draw : Draw}
    (h : Alone w call) (hcall : w.Undisputed draw (fun _ => false) call) :
    w.Allowed (.advance 0 draw fun _ => false) := by
  intro other hother
  rw [alone_eq h hother]
  exact hcall

private theorem alone_undisturbed {w : ManagerWorld} {call : ManagerCall} (h : Alone w call)
    (hdiscards : call.discards = []) (userId : String) : w.Undisturbed userId := by
  intro j other hother
  rw [alone_eq h hother, hdiscards]
  exact List.not_mem_nil

private theorem resolvedOnce_reached : Reached ManagerWorld.step Allowed .new resolvedOnce := by
  let thread : Uuid := .ofNat 2
  let act : ManagerAct := .advance 0 (drawnAt 1 0) fun _ => false
  let w₀ := ManagerWorld.new.step (.start 0 (.findingSession cliKey))
  have a₀ : Alone w₀ (.findingSession cliKey) := alone_goTo (fun _ _ => rfl) _
  have h₀ : Reached ManagerWorld.step Allowed .new w₀ := .next _ .start trivial
  let w₁ := w₀.step act
  have a₁ : Alone w₁ (.addingSession cliKey) := alone_goTo a₀.2 _
  have h₁ : Reached ManagerWorld.step Allowed .new w₁ :=
    .next _ h₀ (alone_allowed a₀ (alone_undisturbed a₀ rfl _))
  let w₂ := w₁.step act
  have a₂ : Alone w₂ (.lookingUp cliKey 0) := alone_goTo a₁.2 _
  have h₂ : Reached ManagerWorld.step Allowed .new w₂ :=
    .next _ h₁ (alone_allowed a₁ (alone_undisturbed a₁ rfl _))
  let w₃ := w₂.step act
  have a₃ : Alone w₃ (.creatingThread cliKey 0) := alone_goTo a₂.2 _
  have h₃ : Reached ManagerWorld.step Allowed .new w₃ := .next _ h₂ (alone_allowed a₂ trivial)
  let w₄ := w₃.step act
  have a₄ : Alone w₄ (.storingMapping cliKey 0 thread) := alone_goTo a₃.2 _
  have hcreates : w₃.Undisputed (drawnAt 1 0) (fun _ => false) (.creatingThread cliKey 0) := by
    refine ⟨rfl, fun j handle other hother => ?_, fun _ => nofun⟩
    cases alone_eq a₃ hother
  have h₄ : Reached ManagerWorld.step Allowed .new w₄ := .next _ h₃ (alone_allowed a₃ hcreates)
  let w₅ := w₄.step act
  have a₅ : Alone w₅ (.insertingUndo cliKey 0 thread) := alone_goTo a₄.2 _
  have h₅ : Reached ManagerWorld.step Allowed .new w₅ := .next _ h₄ (alone_allowed a₄ trivial)
  exact .next _ h₅ (alone_allowed a₅ trivial)

/-- Two messages of one key, each past its lookup before the other stores its mapping. -/
private def racing : ManagerWorld :=
  runFrom .new (.start 0 (.findingSession cliKey) :: .start 1 (.findingSession cliKey) ::
    advances 0 3 (drawnAt 1 0) ++ advances 1 2 (drawnAt 3 0) ++ advances 0 3 (drawnAt 1 0) ++
      advances 1 3 (drawnAt 3 0))

/-- A session made at the start, resolved again after an hour, and pruned then for ten minutes of
idleness. -/
private def prunedInUse : ManagerWorld :=
  runFrom resolvedOnce (.start 1 (.findingSession cliKey) ::
    advances 1 2 (drawnAt 3 3600000000000) ++ [.start 2 (.findingStale 600000000000)] ++
      advances 2 3 (drawnAt 5 3600000000001))

end Runs

end Gyre.Agent
