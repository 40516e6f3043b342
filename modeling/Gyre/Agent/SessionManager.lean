/- digest: The session manager: sessions by user, threads by message key, and their pruning. -/

import Gyre.Agent.Session
import Gyre.Agent.Undo

/-!
The manager's tables are locked one at a time, so every method is written as the sections that run
under one lock. Identifiers and the clock are drawn outside and arrive as arguments; times are in
nanoseconds.
-/

set_option autoImplicit false
set_option relaxedAutoImplicit false

namespace Gyre.Agent

open Gyre.Llm

/-- Key for mapping external thread ids to internal ones. -/
structure ThreadKey where
  userId : String
  channel : String
  externalThreadId : Option String
  deriving DecidableEq, Repr

/-- A session and the time of its last activity. -/
structure SharedSession where
  session : Session
  lastActiveAt : Int

namespace SharedSession

@[grind =] def new (id : Uuid) (userId : String) (now : Int) : SharedSession :=
  ⟨.new id userId, now⟩

@[grind =] def containsThread (s : SharedSession) (thread : Uuid) : Bool :=
  (s.session.thread? thread).isSome

def createThread (s : SharedSession) (thread : Uuid) (now : Int) : SharedSession :=
  ⟨s.session.createThread thread, now⟩

/-- `switch_thread`; the session stays as it is when the thread is not in it. -/
def switchThread (s : SharedSession) (thread : Uuid) (now : Int) : SharedSession :=
  match s.session.switchThread thread with
  | some session => ⟨session, now⟩
  | none => s

/-- Insert a thread loaded from the store. -/
@[grind =] def hydrate (s : SharedSession) (thread : Uuid) (t : Thread) (now : Int) : SharedSession :=
  ⟨{ s.session.setThread thread t with activeThread := some thread }, now⟩

end SharedSession

/-- What the store answers about a conversation; without a store there is nothing. -/
structure StoredConversation where
  /-- Role and content of every message, oldest first. -/
  messages : List (String × String)
  /-- `last_response_id` of the metadata. -/
  lastResponseId : Option String
  deriving DecidableEq, Repr

namespace StoredConversation

/-- The stored messages that are restored; the other roles are passed over. -/
def chatMessages (c : StoredConversation) : List ChatMessage :=
  c.messages.filterMap fun m =>
    if m.1 = "user" then some (.user m.2)
    else if m.1 = "assistant" then some (.assistant m.2)
    else none

/-- The thread built from a stored conversation. -/
def thread (c : StoredConversation) (id sessionId : Uuid) : Thread :=
  let restored :=
    if c.chatMessages = [] then Thread.withId id sessionId
    else (Thread.withId id sessionId).restoreFromMessages c.chatMessages
  match c.lastResponseId with
  | some rid => { restored with lastResponseId := some rid }
  | none => restored

end StoredConversation

/-- What an operation draws from outside. -/
structure Draw where
  sessionId : Uuid
  threadId : Uuid
  now : Int
  deriving DecidableEq, Repr

structure SessionManager where
  /-- Every session ever made; its place in the list is the handle it is shared by. -/
  shared : List SharedSession
  sessions : AList fun _ : String => Nat
  threadMap : ThreadKey → Option Uuid
  undoManagers : Uuid → Option UndoManager

namespace SessionManager

@[grind =] def new : SessionManager := ⟨[], ∅, fun _ => none, fun _ => none⟩

/-- `get_or_create_session` under the read lock. -/
@[grind =] def findSession (m : SessionManager) (userId : String) : Option Nat :=
  m.sessions.lookup userId

/-- `get_or_create_session` under the write lock, with its second look. -/
@[grind =] def addSession (m : SessionManager) (userId : String) (draw : Draw) : SessionManager × Nat :=
  match m.sessions.lookup userId with
  | some handle => (m, handle)
  | none =>
    ({ m with
      shared := m.shared ++ [.new draw.sessionId userId draw.now]
      sessions := m.sessions.insert userId m.shared.length }, m.shared.length)

def getOrCreateSession (m : SessionManager) (userId : String) (draw : Draw) :
    SessionManager × Nat :=
  match m.findSession userId with
  | some handle => (m, handle)
  | none => m.addSession userId draw

/-- A change made under a session's own lock. -/
@[grind =] def modifyShared (m : SessionManager) (handle : Nat) (f : SharedSession → SharedSession) :
    SessionManager :=
  { m with shared := m.shared.modify handle f }

@[grind =] def containsThread (m : SessionManager) (handle : Nat) (thread : Uuid) : Bool :=
  m.shared[handle]?.any (·.containsThread thread)

/-- The mapping of a key, when the session still has the thread. -/
def mappedThread (m : SessionManager) (handle : Nat) (key : ThreadKey) : Option Uuid :=
  (m.threadMap key).filter (m.containsThread handle)

def storeMapping (m : SessionManager) (key : ThreadKey) (thread : Uuid) : SessionManager :=
  { m with threadMap := Function.update m.threadMap key (some thread) }

def insertUndoManager (m : SessionManager) (thread : Uuid) : SessionManager :=
  { m with undoManagers := Function.update m.undoManagers thread (some .new) }

/-- `resolve_thread`: the handle of the session and the thread. -/
def resolveThread (m : SessionManager) (key : ThreadKey) (draw : Draw) :
    SessionManager × Nat × Uuid :=
  let (m, handle) := m.getOrCreateSession key.userId draw
  match m.mappedThread handle key with
  | some thread => (m, handle, thread)
  | none =>
    let m := m.modifyShared handle (·.createThread draw.threadId draw.now)
    let m := m.storeMapping key draw.threadId
    (m.insertUndoManager draw.threadId, handle, draw.threadId)

/-- The key under which a hydrated thread is registered. -/
@[grind =] def registeredKey (userId channel : String) (thread : Uuid) : ThreadKey :=
  ⟨userId, channel, some thread.toString⟩

/-- An undo manager for the thread unless there is one. -/
def ensureUndoManager (m : SessionManager) (thread : Uuid) : SessionManager :=
  match m.undoManagers thread with
  | some _ => m
  | none => m.insertUndoManager thread

/-- Track the session unless the user has one. -/
@[grind =] def trackSession (m : SessionManager) (userId : String) (handle : Nat) : SessionManager :=
  match m.sessions.lookup userId with
  | some _ => m
  | none => { m with sessions := m.sessions.insert userId handle }

def registerThread (m : SessionManager) (userId channel : String) (thread : Uuid) (handle : Nat) :
    SessionManager :=
  ((m.storeMapping (registeredKey userId channel thread) thread).ensureUndoManager
    thread).trackSession userId handle

/-- `maybe_hydrate_thread`; `parse` is the identifier parser. -/
@[grind =] def maybeHydrateThread (parse : String → Option Uuid) (m : SessionManager)
    (userId channel externalThreadId : String) (stored : StoredConversation) (draw : Draw) :
    SessionManager :=
  match parse externalThreadId with
  | none => m
  | some thread =>
    let (m, handle) := m.getOrCreateSession userId draw
    if m.containsThread handle thread then m
    else
      let m := m.modifyShared handle fun s =>
        s.hydrate thread (stored.thread thread s.session.id) draw.now
      m.registerThread userId channel thread handle

/-- `process_new_thread`. -/
def processNewThread (m : SessionManager) (userId : String) (draw : Draw) : SessionManager :=
  let (m, handle) := m.getOrCreateSession userId draw
  m.modifyShared handle (·.createThread draw.threadId draw.now)

/-- `process_switch_thread`. -/
def processSwitchThread (m : SessionManager) (userId : String) (target : Uuid) (draw : Draw) :
    SessionManager × Bool :=
  let (m, handle) := m.getOrCreateSession userId draw
  (m.modifyShared handle (·.switchThread target draw.now), m.containsThread handle target)

/-- The time before which a session counts as stale; the idle time is cut to whole seconds. -/
def staleCutoff (maxIdle : Nat) (now : Int) : Int :=
  now - (maxIdle / 1000000000 * 1000000000 : Nat)

/-- The users whose session is stale; a session that is locked at the moment is passed over. -/
def staleUsers (m : SessionManager) (locked : Nat → Bool) (cutoff : Int) : List String :=
  m.sessions.entries.filterMap fun entry =>
    match m.shared[entry.2]? with
    | some s =>
      if locked entry.2 = false ∧ s.lastActiveAt < cutoff then some entry.1 else none
    | none => none

/-- The threads of the users' sessions, as far as they can be locked. -/
def threadsOf (m : SessionManager) (locked : Nat → Bool) (users : List String) : List Uuid :=
  users.flatMap fun userId =>
    match m.findSession userId with
    | some handle =>
      match m.shared[handle]? with
      | some s => if locked handle then [] else s.session.threads.keys
      | none => []
    | none => []

def removeSessions (m : SessionManager) (users : List String) : SessionManager :=
  { m with sessions := users.foldl (fun sessions userId => sessions.erase userId) m.sessions }

/-- Drop the mappings of the users' keys. -/
def cleanMappings (m : SessionManager) (users : List String) : SessionManager :=
  { m with threadMap := fun key => if key.userId ∈ users then none else m.threadMap key }

def removeUndoManagers (m : SessionManager) (threads : List Uuid) : SessionManager :=
  { m with undoManagers := fun thread => if thread ∈ threads then none else m.undoManagers thread }

end SessionManager

end Gyre.Agent
