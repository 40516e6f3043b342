/- digest: Which thread a message is resolved to, over every run of the session manager. -/

import Gyre.Lib.Runs
import Gyre.Agent.SessionManager

set_option autoImplicit false
set_option relaxedAutoImplicit false

namespace Gyre.Agent

open Gyre.Llm Gyre.Lib

/-- The answers among a message list stand right behind the question they answer. -/
@[grind =] def directAnswers : List ChatMessage → Bool
  | [] => true
  | question :: rest =>
    decide (question.role = .user) &&
      match rest with
      | [] => true
      | next :: rest' =>
        if next.role = .assistant then directAnswers rest' else directAnswers (next :: rest')

section Restored

variable {msg next : ChatMessage} {rest : List ChatMessage}

/-- The messages of the turns rebuilt from a message list. -/
@[grind =] private def rebuilt (n : Nat) (messages : List ChatMessage) : List ChatMessage :=
  (turnsFromMessages n messages).flatMap fun turn =>
    ChatMessage.user turn.userInput ::
      match turn.response with
      | some response => [ChatMessage.assistant response]
      | none => []

private theorem rebuilt_answered (n : Nat) (hmsg : msg.role = .user)
    (hnext : next.role = .assistant) :
    rebuilt n (msg :: next :: rest) =
      .user msg.content :: .assistant next.content :: rebuilt (n + 1) rest := by
  unfold rebuilt
  rw [turnsFromMessages.eq_def]
  simp [hmsg, hnext, Turn.complete, Turn.new]

private theorem rebuilt_unanswered (n : Nat) (hmsg : msg.role = .user)
    (hnext : next.role ≠ .assistant) :
    rebuilt n (msg :: next :: rest) = .user msg.content :: rebuilt (n + 1) (next :: rest) := by
  unfold rebuilt
  rw [turnsFromMessages.eq_def]
  simp [hmsg, hnext, Turn.new]

private theorem rebuilt_last (n : Nat) (hmsg : msg.role = .user) :
    rebuilt n [msg] = [.user msg.content] := by
  simp [rebuilt, turnsFromMessages, hmsg, Turn.new]

private theorem rebuilt_skipped (n : Nat) (hmsg : msg.role ≠ .user) :
    rebuilt n (msg :: rest) = rebuilt n rest := by
  unfold rebuilt
  rw [turnsFromMessages.eq_def]
  simp [hmsg]

private theorem rebuilt_length (n : Nat) (messages : List ChatMessage) :
    (rebuilt n messages).length ≤ messages.length := by
  induction n, messages using turnsFromMessages.induct with
  | case1 n => simp [rebuilt, turnsFromMessages]
  | case2 n msg hmsg next rest hnext ih =>
    rw [rebuilt_answered n hmsg hnext]
    simp only [List.length_cons]
    omega
  | case3 n msg hmsg next rest hnext ih =>
    rw [rebuilt_unanswered n hmsg hnext]
    simp only [List.length_cons] at ih ⊢
    omega
  | case4 n msg hmsg => simp [rebuilt_last n hmsg]
  | case5 n msg rest hmsg ih =>
    rw [rebuilt_skipped n hmsg]
    simp only [List.length_cons]
    omega

/-- What is restored from a stored conversation. -/
private def Plain (messages : List ChatMessage) : Prop :=
  ∀ msg ∈ messages, msg = .user msg.content ∨ msg = .assistant msg.content

private theorem eq_user_of_plain (h : msg = .user msg.content ∨ msg = .assistant msg.content)
    (hrole : msg.role = .user) : ChatMessage.user msg.content = msg := by
  rcases h with h | h
  · exact h.symm
  · rw [h] at hrole
    cases hrole

private theorem eq_assistant_of_plain
    (h : msg = .user msg.content ∨ msg = .assistant msg.content) (hrole : msg.role = .assistant) :
    ChatMessage.assistant msg.content = msg := by
  rcases h with h | h
  · rw [h] at hrole
    cases hrole
  · exact h.symm

private theorem rebuilt_eq_iff (n : Nat) (messages : List ChatMessage) (h : Plain messages) :
    rebuilt n messages = messages ↔ directAnswers messages = true := by
  induction n, messages using turnsFromMessages.induct with
  | case1 n => simp [rebuilt, turnsFromMessages, directAnswers]
  | case2 n msg hmsg next rest hnext ih =>
    have hrest : Plain rest := fun m hm => h m (by simp [hm])
    rw [rebuilt_answered n hmsg hnext, eq_user_of_plain (h msg (by simp)) hmsg,
      eq_assistant_of_plain (h next (by simp)) hnext, directAnswers]
    simp [hmsg, hnext, ih hrest]
  | case3 n msg hmsg next rest hnext ih =>
    have hrest : Plain (next :: rest) := fun m hm => h m (List.mem_cons_of_mem _ hm)
    rw [rebuilt_unanswered n hmsg hnext, eq_user_of_plain (h msg (by simp)) hmsg, directAnswers]
    simp [hmsg, hnext, ih hrest]
  | case4 n msg hmsg =>
    rw [rebuilt_last n hmsg, eq_user_of_plain (h msg (by simp)) hmsg, directAnswers]
    simp [hmsg]
  | case5 n msg rest hmsg ih =>
    -- the message is dropped, and what is left is too short
    have hshort := rebuilt_length n rest
    rw [rebuilt_skipped n hmsg]
    refine iff_of_false ?_ ?_
    · intro heq
      rw [heq, List.length_cons] at hshort
      omega
    · cases rest <;> simp [directAnswers, hmsg]

theorem StoredConversation.thread_messages_iff (c : StoredConversation) (id sessionId : Uuid) :
    (c.thread id sessionId).messages = c.chatMessages ↔ directAnswers c.chatMessages = true := by
  have hplain : Plain c.chatMessages := by
    intro msg hmsg
    obtain ⟨row, -, hrow⟩ := List.mem_filterMap.mp hmsg
    split at hrow
    · exact .inl (by rw [← Option.some.inj hrow]; rfl)
    · split at hrow
      · exact .inr (by rw [← Option.some.inj hrow]; rfl)
      · cases hrow
  have hthread : (c.thread id sessionId).messages = rebuilt 0 c.chatMessages := by
    unfold StoredConversation.thread
    by_cases hnil : c.chatMessages = []
    · simp only [hnil, if_true]
      cases c.lastResponseId <;> rfl
    · simp only [hnil, if_false]
      cases c.lastResponseId <;> rfl
  rw [hthread]
  exact rebuilt_eq_iff 0 c.chatMessages hplain

end Restored

namespace SessionManager

/-- The session a user has now. -/
@[grind =] def sharedOf (m : SessionManager) (userId : String) : Option SharedSession :=
  (m.findSession userId).bind fun handle => m.shared[handle]?

/-- The session a user has, or gets on first use. -/
@[grind =] def sessionOrNew (m : SessionManager) (userId : String) (draw : Draw) : SharedSession :=
  (m.sharedOf userId).getD (.new draw.sessionId userId draw.now)

@[grind =] def Holds (m : SessionManager) (userId : String) (thread : Uuid) : Prop :=
  (m.sharedOf userId).any (·.containsThread thread) = true

instance (m : SessionManager) (userId : String) (thread : Uuid) : Decidable (m.Holds userId thread) :=
  inferInstanceAs (Decidable (_ = true))

/-- Nobody has the thread, as the identifier generator promises of what it draws. -/
def Unused (m : SessionManager) (thread : Uuid) : Prop := ∀ userId, ¬ m.Holds userId thread

/-- Every user's handle leads to a session of that user. -/
def Owned (m : SessionManager) : Prop :=
  ∀ userId handle, m.findSession userId = some handle →
    ∃ s, m.shared[handle]? = some s ∧ s.session.userId = userId

/-- Every mapping leads to a thread that the key's user has. -/
def Mapped (m : SessionManager) : Prop :=
  ∀ key thread, m.threadMap key = some thread → m.Holds key.userId thread

section Views

variable {m : SessionManager} {userId : String} {handle : Nat}

theorem new_owned : new.Owned := by
  intro userId handle h
  simp [new, findSession] at h

theorem new_mapped : new.Mapped := by
  intro key thread h
  simp [new] at h

theorem sharedOf_eq (h : m.findSession userId = some handle) :
    m.sharedOf userId = m.shared[handle]? := by
  simp [sharedOf, h]

private theorem shared_getElem? (hm : m.Owned) {other : String} {s : SharedSession}
    (h : m.sharedOf other = some s) : s.session.userId = other := by
  unfold sharedOf at h
  cases hfind : m.findSession other with
  | none => simp [hfind] at h
  | some handle =>
    obtain ⟨s', hs', huser⟩ := hm other handle hfind
    rw [hfind, Option.bind_some, hs', Option.some.injEq] at h
    rw [← h]
    exact huser

/-- A change under a session's lock is seen by the session's user alone. -/
theorem sharedOf_modifyShared (hm : m.Owned) (hfind : m.findSession userId = some handle)
    (f : SharedSession → SharedSession) :
    (m.modifyShared handle f).sharedOf =
      Function.update m.sharedOf userId ((m.sharedOf userId).map f) := by
  funext other
  by_cases hother : other = userId
  · subst hother
    rw [Function.update_self, sharedOf_eq hfind]
    have hshared : (m.modifyShared handle f).sharedOf other = (m.shared.modify handle f)[handle]? :=
      sharedOf_eq hfind
    rw [hshared, List.getElem?_modify_eq]
    rfl
  · rw [Function.update_of_ne hother]
    unfold sharedOf
    change (m.findSession other).bind (fun h => (m.shared.modify handle f)[h]?) = _
    cases hfind' : m.findSession other with
    | none => rfl
    | some handle' =>
      have hne : handle ≠ handle' := by
        rintro rfl
        obtain ⟨s, hs, huser⟩ := hm userId handle hfind
        obtain ⟨s', hs', huser'⟩ := hm other handle hfind'
        rw [hs, Option.some.injEq] at hs'
        subst hs'
        exact hother (huser'.symm.trans huser)
      simp [List.getElem?_modify_ne _ _ hne]

theorem modifyShared_owned (hm : m.Owned) {f : SharedSession → SharedSession}
    (hf : ∀ s, (f s).session.userId = s.session.userId) : (m.modifyShared handle f).Owned := by
  intro other handle' hfind
  obtain ⟨s, hs, huser⟩ := hm other handle' hfind
  by_cases hhandle : handle = handle'
  · subst hhandle
    exact ⟨f s, by simp [modifyShared, hs], (hf s).trans huser⟩
  · exact ⟨s, by simp [modifyShared, List.getElem?_modify_ne _ _ hhandle, hs], huser⟩

/-- What `get_or_create_session` leaves behind. -/
structure Obtained (m m' : SessionManager) (userId : String) (handle : Nat) (draw : Draw) : Prop where
  owned : m'.Owned
  found : m'.findSession userId = some handle
  shared : m'.sharedOf = Function.update m.sharedOf userId (some (m.sessionOrNew userId draw))
  threadMap : m'.threadMap = m.threadMap

theorem getOrCreateSession_obtained (hm : m.Owned) (userId : String) (draw : Draw) :
    Obtained m (m.getOrCreateSession userId draw).1 userId (m.getOrCreateSession userId draw).2
      draw := by
  unfold getOrCreateSession
  cases hfind : m.findSession userId with
  | some handle =>
    refine ⟨hm, hfind, ?_, rfl⟩
    obtain ⟨s, hs, -⟩ := hm userId handle hfind
    have hshared : m.sharedOf userId = some s := (sharedOf_eq hfind).trans hs
    rw [sessionOrNew, hshared, Option.getD_some, ← hshared, Function.update_eq_self]
  | none =>
    have hnone : m.sharedOf userId = none := by simp [sharedOf, hfind]
    have hlookup : m.sessions.lookup userId = none := hfind
    simp only [addSession, hlookup]
    refine ⟨?_, AList.lookup_insert _, ?_, rfl⟩
    · intro other handle h
      by_cases hother : other = userId
      · subst hother
        have hhandle : m.shared.length = handle := by simpa [findSession] using h
        subst hhandle
        exact ⟨.new draw.sessionId other draw.now, by simp, rfl⟩
      · have hbefore : m.findSession other = some handle := by
          simpa [findSession, AList.lookup_insert_ne hother] using h
        obtain ⟨s, hs, huser⟩ := hm other handle hbefore
        exact ⟨s, by rw [List.getElem?_append_left (List.getElem?_eq_some_iff.mp hs).1, hs], huser⟩
    · funext other
      by_cases hother : other = userId
      · subst hother
        simp [sharedOf, findSession, sessionOrNew, hlookup]
      · rw [Function.update_of_ne hother]
        simp only [sharedOf, findSession, AList.lookup_insert_ne hother]
        cases hbefore : m.sessions.lookup other with
        | none => rfl
        | some handle =>
          obtain ⟨s, hs, -⟩ := hm other handle hbefore
          exact List.getElem?_append_left (List.getElem?_eq_some_iff.mp hs).1

end Views

section Threads

variable {s : SharedSession} {thread other : Uuid}

theorem containsThread_createThread (now : Int) :
    (s.createThread thread now).containsThread other =
      (decide (other = thread) || s.containsThread other) := by
  unfold SharedSession.containsThread SharedSession.createThread Session.createThread
  by_cases h : other = thread
  · subst h
    simp [Session.thread?, Session.setThread]
  · simp [Session.thread?, Session.setThread, AList.lookup_insert_ne h, h]

theorem containsThread_hydrate (t : Thread) (now : Int) :
    (s.hydrate thread t now).containsThread other =
      (decide (other = thread) || s.containsThread other) := by
  unfold SharedSession.containsThread SharedSession.hydrate
  by_cases h : other = thread
  · subst h
    simp [Session.thread?, Session.setThread]
  · simp [Session.thread?, Session.setThread, AList.lookup_insert_ne h, h]

theorem containsThread_switchThread (now : Int) :
    (s.switchThread thread now).containsThread other = s.containsThread other := by
  unfold SharedSession.switchThread Session.switchThread
  split
  next session h =>
    split at h
    next =>
      cases h
      rfl
    next => cases h
  next => rfl

theorem switchThread_userId (now : Int) :
    (s.switchThread thread now).session.userId = s.session.userId := by
  unfold SharedSession.switchThread Session.switchThread
  split
  next session h =>
    split at h
    next =>
      cases h
      rfl
    next => cases h
  next => rfl

end Threads

section Operations

variable {m : SessionManager}

theorem new_containsThread (id : Uuid) (userId : String) (now : Int) (thread : Uuid) :
    (SharedSession.new id userId now).containsThread thread = false := by
  simp [SharedSession.new, SharedSession.containsThread, Session.new, Session.thread?]

theorem sessionOrNew_containsThread (userId : String) (draw : Draw) (thread : Uuid) :
    (m.sessionOrNew userId draw).containsThread thread = true ↔ m.Holds userId thread := by
  unfold sessionOrNew Holds
  cases m.sharedOf userId with
  | none => simp [new_containsThread]
  | some s => simp

namespace Obtained

variable {m' : SessionManager} {userId : String} {handle : Nat} {draw : Draw}

theorem containsThread (h : Obtained m m' userId handle draw) (thread : Uuid) :
    m'.containsThread handle thread = (m.sessionOrNew userId draw).containsThread thread := by
  have hshared : m'.shared[handle]? = some (m.sessionOrNew userId draw) := by
    rw [← sharedOf_eq h.found, h.shared, Function.update_self]
  simp [SessionManager.containsThread, hshared]

theorem mappedThread (h : Obtained m m' userId handle draw) (key : ThreadKey) :
    m'.mappedThread handle key =
      (m.threadMap key).filter (m.sessionOrNew userId draw).containsThread := by
  unfold SessionManager.mappedThread
  rw [h.threadMap]
  congr 1
  funext thread
  exact h.containsThread thread

theorem modifyShared (h : Obtained m m' userId handle draw) (f : SharedSession → SharedSession) :
    (m'.modifyShared handle f).sharedOf =
      Function.update m.sharedOf userId (some (f (m.sessionOrNew userId draw))) := by
  rw [sharedOf_modifyShared h.owned h.found, h.shared, Function.update_self,
    Function.update_idem, Option.map_some]

theorem found_modifyShared (h : Obtained m m' userId handle draw)
    (f : SharedSession → SharedSession) :
    (m'.modifyShared handle f).findSession userId = some handle := h.found

end Obtained

/-- A key whose thread its user still has is resolved to that thread, and nothing is mapped anew. -/
theorem resolveThread_of_mapped (hm : m.Owned) {key : ThreadKey} {thread : Uuid} (draw : Draw)
    (hmap : m.threadMap key = some thread) (hholds : m.Holds key.userId thread) :
    m.resolveThread key draw =
      ((m.getOrCreateSession key.userId draw).1, (m.getOrCreateSession key.userId draw).2,
        thread) := by
  have h := getOrCreateSession_obtained hm key.userId draw
  have hcontains := (sessionOrNew_containsThread key.userId draw thread).mpr hholds
  unfold resolveThread
  simp only [h.mappedThread, hmap, Option.filter_some, hcontains, if_true]

/-- Any other key gets the drawn thread. -/
theorem resolveThread_of_unmapped (hm : m.Owned) {key : ThreadKey} (draw : Draw)
    (h : ∀ thread, m.threadMap key = some thread → ¬ m.Holds key.userId thread) :
    m.resolveThread key draw =
      ((((m.getOrCreateSession key.userId draw).1.modifyShared
          (m.getOrCreateSession key.userId draw).2
          (·.createThread draw.threadId draw.now)).storeMapping key draw.threadId).insertUndoManager
            draw.threadId, (m.getOrCreateSession key.userId draw).2, draw.threadId) := by
  have hobtained := getOrCreateSession_obtained hm key.userId draw
  have hnone : (m.threadMap key).filter (m.sessionOrNew key.userId draw).containsThread = none := by
    cases hmap : m.threadMap key with
    | none => rfl
    | some thread =>
      have hcontains := mt (sessionOrNew_containsThread key.userId draw thread).mp (h thread hmap)
      simp [Option.filter_some, hcontains]
  unfold resolveThread
  simp only [hobtained.mappedThread, hnone]

/-- What an operation does to who has which thread. -/
structure Grows (m m' : SessionManager) (added : String → Uuid → Prop) : Prop where
  owned : m'.Owned
  mapped : m'.Mapped
  holds : ∀ userId thread, m'.Holds userId thread ↔ m.Holds userId thread ∨ added userId thread

private theorem holds_update {m' : SessionManager} {userId : String} {s : SharedSession}
    {draw : Draw} (h : m'.sharedOf = Function.update m.sharedOf userId (some s))
    {added : Uuid → Prop} (hs : ∀ thread, s.containsThread thread = true ↔
      (m.sessionOrNew userId draw).containsThread thread = true ∨ added thread)
    (other : String) (thread : Uuid) :
    m'.Holds other thread ↔ m.Holds other thread ∨ (other = userId ∧ added thread) := by
  by_cases hother : other = userId
  · subst hother
    have hnew : m'.Holds other thread ↔ s.containsThread thread = true := by
      rw [Holds, h, Function.update_self, Option.any_some]
    rw [hnew, hs, sessionOrNew_containsThread]
    simp
  · rw [Holds, h, Function.update_of_ne hother]
    simp [Holds, hother]

theorem getOrCreateSession_grows (hm : m.Owned) (hmapped : m.Mapped) (userId : String)
    (draw : Draw) : Grows m (m.getOrCreateSession userId draw).1 fun _ _ => False := by
  have h := getOrCreateSession_obtained hm userId draw
  have hholds (other : String) (thread : Uuid) :
      (m.getOrCreateSession userId draw).1.Holds other thread ↔ m.Holds other thread ∨ False := by
    have hsame := holds_update h.shared (fun thread => (iff_of_eq (or_false _)).symm) other thread
    rw [hsame, and_false]
  refine ⟨h.owned, ?_, hholds⟩
  intro key thread hmap
  rw [h.threadMap] at hmap
  exact (hholds _ thread).mpr (.inl (hmapped key thread hmap))

theorem sharedOf_congr {m' : SessionManager} (hshared : m'.shared = m.shared)
    (hsessions : m'.sessions = m.sessions) : m'.sharedOf = m.sharedOf := by
  funext userId
  rw [sharedOf, sharedOf, findSession, findSession, hshared, hsessions]

theorem Owned.congr {m' : SessionManager} (h : m.Owned) (hshared : m'.shared = m.shared)
    (hsessions : m'.sessions = m.sessions) : m'.Owned := by
  intro userId handle hfind
  rw [hshared]
  apply h userId handle
  rw [← hfind, findSession, findSession, hsessions]

theorem trackSession_of_found {userId : String} {handle : Nat} (other : Nat)
    (h : m.findSession userId = some handle) : m.trackSession userId other = m := by
  have hlookup : m.sessions.lookup userId = some handle := h
  simp only [trackSession, hlookup]

/-- Putting a thread into a user's session, and mapping a key of that user to it. -/
private theorem insert_grows {m' m'' : SessionManager} {userId : String} {handle : Nat}
    {draw : Draw} {thread : Uuid} {f : SharedSession → SharedSession} (hmapped : m.Mapped)
    (h : Obtained m m' userId handle draw)
    (huser : ∀ s, (f s).session.userId = s.session.userId)
    (hf : ∀ s other, (f s).containsThread other = (decide (other = thread) || s.containsThread other))
    (hshared : m''.shared = (m'.modifyShared handle f).shared)
    (hsessions : m''.sessions = m'.sessions)
    (hmap : ∀ key other, m''.threadMap key = some other →
      m.threadMap key = some other ∨ key.userId = userId ∧ other = thread) :
    Grows m m'' fun owner added => owner = userId ∧ added = thread := by
  have howned : m''.Owned := (modifyShared_owned h.owned huser).congr hshared hsessions
  have hview : m''.sharedOf =
      Function.update m.sharedOf userId (some (f (m.sessionOrNew userId draw))) :=
    (sharedOf_congr hshared hsessions).trans (h.modifyShared f)
  have hholds := holds_update hview fun other => by
    rw [hf, Bool.or_eq_true, decide_eq_true_eq, or_comm]
  refine ⟨howned, ?_, hholds⟩
  intro key other hkey
  rcases hmap key other hkey with hkey | ⟨huser, hother⟩
  · exact (hholds _ other).mpr (.inl (hmapped key other hkey))
  · exact (hholds _ other).mpr (.inr ⟨huser, hother⟩)

theorem createThread_userId (s : SharedSession) (thread : Uuid) (now : Int) :
    (s.createThread thread now).session.userId = s.session.userId := rfl

theorem hydrate_userId (s : SharedSession) (thread : Uuid) (t : Thread) (now : Int) :
    (s.hydrate thread t now).session.userId = s.session.userId := rfl

theorem processNewThread_grows (hm : m.Owned) (hmapped : m.Mapped) (userId : String) (draw : Draw) :
    Grows m (m.processNewThread userId draw) fun owner added =>
      owner = userId ∧ added = draw.threadId := by
  have h := getOrCreateSession_obtained hm userId draw
  refine insert_grows hmapped h (fun s => createThread_userId s _ _)
    (fun s other => containsThread_createThread draw.now) rfl rfl ?_
  intro key other hkey
  rw [← h.threadMap]
  exact .inl hkey

theorem processSwitchThread_grows (hm : m.Owned) (hmapped : m.Mapped) (userId : String)
    (target : Uuid) (draw : Draw) :
    Grows m (m.processSwitchThread userId target draw).1 fun _ _ => False := by
  have h := getOrCreateSession_obtained hm userId draw
  have hview := h.modifyShared (·.switchThread target draw.now)
  have hholds (other : String) (thread : Uuid) :
      (m.processSwitchThread userId target draw).1.Holds other thread ↔
        m.Holds other thread ∨ False := by
    have hsame := holds_update hview (fun thread => by
      rw [containsThread_switchThread]
      exact (iff_of_eq (or_false _)).symm) other thread
    rw [and_false] at hsame
    exact hsame
  refine ⟨modifyShared_owned h.owned fun s => switchThread_userId draw.now, ?_, hholds⟩
  intro key thread hkey
  have hmap : m.threadMap key = some thread := by
    rw [← h.threadMap]
    exact hkey
  exact (hholds _ thread).mpr (.inl (hmapped key thread hmap))

/-- The key is mapped to a thread its user still has. -/
def Maps (m : SessionManager) (key : ThreadKey) : Prop :=
  (m.threadMap key).any (fun thread => decide (m.Holds key.userId thread)) = true

instance (m : SessionManager) (key : ThreadKey) : Decidable (m.Maps key) :=
  inferInstanceAs (Decidable (_ = true))

theorem maps_iff {key : ThreadKey} :
    m.Maps key ↔ ∃ thread, m.threadMap key = some thread ∧ m.Holds key.userId thread := by
  unfold Maps
  cases m.threadMap key <;> simp

theorem resolveThread_grows (hm : m.Owned) (hmapped : m.Mapped) (key : ThreadKey) (draw : Draw) :
    Grows m (m.resolveThread key draw).1 fun owner added =>
      ¬ m.Maps key ∧ owner = key.userId ∧ added = draw.threadId := by
  by_cases hmaps : m.Maps key
  · obtain ⟨thread, hmap, hholds⟩ := maps_iff.mp hmaps
    rw [resolveThread_of_mapped hm draw hmap hholds]
    have hgrows := getOrCreateSession_grows hm hmapped key.userId draw
    refine ⟨hgrows.owned, hgrows.mapped, fun owner added => ?_⟩
    rw [hgrows.holds]
    simp [hmaps]
  · have hunmapped (thread : Uuid) (h : m.threadMap key = some thread) :
        ¬ m.Holds key.userId thread := fun hholds => hmaps (maps_iff.mpr ⟨thread, h, hholds⟩)
    have h := getOrCreateSession_obtained hm key.userId draw
    rw [resolveThread_of_unmapped hm draw hunmapped]
    simp only [hmaps, not_false_eq_true, true_and]
    refine insert_grows hmapped h (fun s => createThread_userId s _ _)
      (fun s other => containsThread_createThread draw.now) rfl rfl ?_
    intro other thread hother
    change Function.update (m.getOrCreateSession key.userId draw).1.threadMap key
      (some draw.threadId) other = some thread at hother
    rw [h.threadMap] at hother
    by_cases hkey : other = key
    · subst hkey
      rw [Function.update_self, Option.some.injEq] at hother
      exact .inr ⟨rfl, hother.symm⟩
    · rw [Function.update_of_ne hkey] at hother
      exact .inl hother

/-- What a hydration that loads a thread leaves behind. -/
theorem registerThread_shared {m' : SessionManager} {userId : String} {handle : Nat}
    (h : m'.findSession userId = some handle) (channel : String) (thread : Uuid) :
    (m'.registerThread userId channel thread handle).shared = m'.shared ∧
      (m'.registerThread userId channel thread handle).sessions = m'.sessions ∧
      (m'.registerThread userId channel thread handle).threadMap =
        Function.update m'.threadMap (registeredKey userId channel thread) (some thread) := by
  have hstored : (m'.storeMapping (registeredKey userId channel thread) thread).findSession userId =
      some handle := h
  have hinserted : ((m'.storeMapping (registeredKey userId channel thread) thread).insertUndoManager
      thread).findSession userId = some handle := h
  unfold registerThread ensureUndoManager
  split
  · rw [trackSession_of_found handle hstored]
    exact ⟨rfl, rfl, rfl⟩
  · rw [trackSession_of_found handle hinserted]
    exact ⟨rfl, rfl, rfl⟩

section Hydration

variable {parse : String → Option Uuid} {ext : String} {thread : Uuid}

theorem maybeHydrateThread_of_held (hm : m.Owned) (userId channel : String)
    (stored : StoredConversation) (draw : Draw) (hparse : parse ext = some thread)
    (hholds : m.Holds userId thread) :
    maybeHydrateThread parse m userId channel ext stored draw =
      (m.getOrCreateSession userId draw).1 := by
  have h := getOrCreateSession_obtained hm userId draw
  have hcontains := (sessionOrNew_containsThread userId draw thread).mpr hholds
  unfold maybeHydrateThread
  simp only [hparse, h.containsThread, hcontains, if_true]

/-- A thread that is not in memory is put into the session and registered. -/
theorem maybeHydrateThread_of_loaded (hm : m.Owned) (userId channel : String)
    (stored : StoredConversation) (draw : Draw) (hparse : parse ext = some thread)
    (hholds : ¬ m.Holds userId thread) :
    maybeHydrateThread parse m userId channel ext stored draw =
      ((m.getOrCreateSession userId draw).1.modifyShared (m.getOrCreateSession userId draw).2
        fun s => s.hydrate thread (stored.thread thread s.session.id) draw.now).registerThread
          userId channel thread (m.getOrCreateSession userId draw).2 := by
  have h := getOrCreateSession_obtained hm userId draw
  have hcontains := mt (sessionOrNew_containsThread userId draw thread).mp hholds
  unfold maybeHydrateThread
  simp only [hparse, h.containsThread, hcontains]
  rfl

/-- The tables after a hydration that loads a thread. -/
structure Loaded (m m' : SessionManager) (userId channel : String) (thread : Uuid)
    (stored : StoredConversation) (draw : Draw) : Prop where
  shared : m'.sharedOf = Function.update m.sharedOf userId
    (some ((m.sessionOrNew userId draw).hydrate thread
      (stored.thread thread (m.sessionOrNew userId draw).session.id) draw.now))
  threadMap : m'.threadMap =
    Function.update m.threadMap (registeredKey userId channel thread) (some thread)

theorem maybeHydrateThread_loaded (hm : m.Owned) (userId channel : String)
    (stored : StoredConversation) (draw : Draw) (hparse : parse ext = some thread)
    (hholds : ¬ m.Holds userId thread) :
    Loaded m (maybeHydrateThread parse m userId channel ext stored draw) userId channel thread stored
      draw := by
  have h := getOrCreateSession_obtained hm userId draw
  rw [maybeHydrateThread_of_loaded hm userId channel stored draw hparse hholds]
  obtain ⟨hshared, hsessions, hmap⟩ := registerThread_shared (h.found_modifyShared fun s =>
    s.hydrate thread (stored.thread thread s.session.id) draw.now) channel thread
  refine ⟨?_, hmap.trans ?_⟩
  · rw [sharedOf_congr hshared hsessions]
    exact h.modifyShared _
  · change Function.update (m.getOrCreateSession userId draw).1.threadMap _ _ = _
    rw [h.threadMap]

/-- Whether a hydration puts a thread into the user's session. -/
@[grind =] def Loads (parse : String → Option Uuid) (m : SessionManager) (userId ext : String)
    (thread : Uuid) : Prop :=
  parse ext = some thread ∧ ¬ m.Holds userId thread

theorem maybeHydrateThread_grows (parse : String → Option Uuid) (ext : String) (hm : m.Owned) (hmapped : m.Mapped) (userId channel : String)
    (stored : StoredConversation) (draw : Draw) :
    Grows m (maybeHydrateThread parse m userId channel ext stored draw) fun owner added =>
      owner = userId ∧ Loads parse m userId ext added := by
  cases hparse : parse ext with
  | none =>
    have hsame : maybeHydrateThread parse m userId channel ext stored draw = m := by
      simp only [maybeHydrateThread, hparse]
    rw [hsame]
    refine ⟨hm, hmapped, fun owner added => ?_⟩
    simp [Loads, hparse]
  | some thread =>
    by_cases hholds : m.Holds userId thread
    · rw [maybeHydrateThread_of_held hm userId channel stored draw hparse hholds]
      have hgrows := getOrCreateSession_grows hm hmapped userId draw
      refine ⟨hgrows.owned, hgrows.mapped, fun owner added => (hgrows.holds owner added).trans ?_⟩
      constructor
      · exact fun h => .inl (h.resolve_right id)
      · rintro (h | ⟨rfl, hload, hmiss⟩)
        · exact .inl h
        · rw [hparse, Option.some.injEq] at hload
          exact absurd (hload ▸ hholds) hmiss
    · have h := getOrCreateSession_obtained hm userId draw
      obtain ⟨hshared, hsessions, hmap⟩ := registerThread_shared (h.found_modifyShared fun s =>
        s.hydrate thread (stored.thread thread s.session.id) draw.now) channel thread
      rw [maybeHydrateThread_of_loaded hm userId channel stored draw hparse hholds]
      have hgrows := insert_grows hmapped h (fun s => hydrate_userId s thread _ draw.now)
        (fun s other => containsThread_hydrate (stored.thread thread s.session.id) draw.now) hshared
        hsessions fun key other hkey => by
          rw [hmap] at hkey
          by_cases hregistered : key = registeredKey userId channel thread
          · subst hregistered
            rw [Function.update_self, Option.some.injEq] at hkey
            exact .inr ⟨rfl, hkey.symm⟩
          · rw [Function.update_of_ne hregistered] at hkey
            exact .inl (h.threadMap ▸ hkey)
      refine ⟨hgrows.owned, hgrows.mapped, fun owner added => (hgrows.holds owner added).trans ?_⟩
      rw [Loads, hparse, Option.some.injEq]
      constructor
      · rintro (h | ⟨rfl, rfl⟩)
        · exact .inl h
        · exact .inr ⟨rfl, rfl, hholds⟩
      · rintro (h | ⟨rfl, rfl, -⟩)
        · exact .inl h
        · exact .inr ⟨rfl, rfl⟩

end Hydration

end Operations

end SessionManager

/-- The operations that decide which thread a message goes to. -/
inductive ManagerOp where
  | resolve (key : ThreadKey)
  | hydrate (userId channel externalThreadId : String) (stored : StoredConversation)
  | newThread (userId : String)
  | switchThread (userId : String) (target : Uuid)
  deriving DecidableEq, Repr

inductive ManagerEvent where
  | created (userId : String) (thread : Uuid)
  | hydrated (userId : String) (thread : Uuid)
  deriving DecidableEq, Repr

namespace ManagerOp

variable (parse : String → Option Uuid)

/-- One operation with what it draws. -/
@[grind =] def step (m : SessionManager) : ManagerOp × Draw → SessionManager × List ManagerEvent
  | (.resolve key, draw) =>
    ((m.resolveThread key draw).1, if m.Maps key then [] else [.created key.userId draw.threadId])
  | (.hydrate userId channel ext stored, draw) =>
    (SessionManager.maybeHydrateThread parse m userId channel ext stored draw,
      match parse ext with
      | some thread => if m.Holds userId thread then [] else [.hydrated userId thread]
      | none => [])
  | (.newThread userId, draw) => (m.processNewThread userId draw, [.created userId draw.threadId])
  | (.switchThread userId target, draw) => ((m.processSwitchThread userId target draw).1, [])

/-- A hydration of a thread that another user has. -/
def LoadsForeign (m : SessionManager) : ManagerOp → Prop
  | .hydrate userId _ ext _ =>
    ∃ thread other, SessionManager.Loads parse m userId ext thread ∧ other ≠ userId ∧
      m.Holds other thread
  | _ => False

end ManagerOp

/-- The thread was made or loaded for the user. -/
@[grind =] def MadeFor (log : List ManagerEvent) (userId : String) (thread : Uuid) : Prop :=
  .created userId thread ∈ log ∨ .hydrated userId thread ∈ log

section Runs

open SessionManager ManagerOp

variable {parse : String → Option Uuid} {m : SessionManager} {log : List ManagerEvent}

theorem step_grows (parse : String → Option Uuid) (hm : m.Owned) (hmapped : m.Mapped) (op : ManagerOp × Draw) :
    Grows m (ManagerOp.step parse m op).1 (MadeFor (ManagerOp.step parse m op).2) := by
  obtain ⟨op, draw⟩ := op
  cases op with
  | resolve key =>
    have hgrows := resolveThread_grows hm hmapped key draw
    refine ⟨hgrows.owned, hgrows.mapped, fun owner added => (hgrows.holds owner added).trans ?_⟩
    simp only [ManagerOp.step, MadeFor]
    split
    next hmaps => simp [hmaps]
    next hmaps => simp [hmaps]
  | hydrate userId channel ext stored =>
    have hgrows := maybeHydrateThread_grows parse ext hm hmapped userId channel stored draw
    refine ⟨hgrows.owned, hgrows.mapped, fun owner added => (hgrows.holds owner added).trans ?_⟩
    simp only [ManagerOp.step, MadeFor, Loads]
    split
    next thread hparse =>
      rw [hparse, Option.some.injEq]
      split
      next hholds =>
        simp only [List.not_mem_nil, or_self, or_false, or_iff_left_iff_imp]
        rintro ⟨-, rfl, hmiss⟩
        exact absurd hholds hmiss
      next hholds =>
        simp only [List.mem_singleton, reduceCtorEq, false_or, ManagerEvent.hydrated.injEq]
        constructor
        · rintro (h | ⟨howner, rfl, -⟩)
          · exact .inl h
          · exact .inr ⟨howner, rfl⟩
        · rintro (h | ⟨howner, rfl⟩)
          · exact .inl h
          · exact .inr ⟨howner, rfl, hholds⟩
    next hparse => simp [hparse]
  | newThread userId =>
    have hgrows := processNewThread_grows hm hmapped userId draw
    refine ⟨hgrows.owned, hgrows.mapped, fun owner added => (hgrows.holds owner added).trans ?_⟩
    simp [ManagerOp.step, MadeFor]
  | switchThread userId target =>
    have hgrows := processSwitchThread_grows hm hmapped userId target draw
    refine ⟨hgrows.owned, hgrows.mapped, fun owner added => (hgrows.holds owner added).trans ?_⟩
    simp [ManagerOp.step, MadeFor]

/-- What every run keeps: the users' threads are the ones made or loaded for them. -/
structure Accounted (m : SessionManager) (log : List ManagerEvent) : Prop where
  owned : m.Owned
  mapped : m.Mapped
  madeFor : ∀ userId thread, m.Holds userId thread ↔ MadeFor log userId thread

theorem run_accounted (parse : String → Option Uuid) (ops : List (ManagerOp × Draw)) :
    Accounted (run (ManagerOp.step parse) SessionManager.new ops).1
      (run (ManagerOp.step parse) SessionManager.new ops).2 := by
  refine run_invariant Accounted ⟨new_owned, new_mapped, fun userId thread => ?_⟩ ?_ ops
  · simp [Holds, sharedOf, SessionManager.new, findSession, MadeFor]
  · intro m log op h
    have hgrows := step_grows parse h.owned h.mapped op
    refine ⟨hgrows.owned, hgrows.mapped, fun userId thread => ?_⟩
    rw [hgrows.holds, h.madeFor]
    simp only [MadeFor, List.mem_append]
    tauto

/-- In every state a run reaches, a key is resolved to what it is mapped to, or to the drawn
thread. -/
theorem resolveThread_thread (hm : m.Owned) (hmapped : m.Mapped) (key : ThreadKey) (draw : Draw) :
    (m.resolveThread key draw).2.2 = (m.threadMap key).getD draw.threadId := by
  cases hmap : m.threadMap key with
  | some thread => rw [resolveThread_of_mapped hm draw hmap (hmapped key thread hmap)]; rfl
  | none =>
    rw [resolveThread_of_unmapped hm draw fun thread h => absurd (hmap.symm.trans h) nofun]
    rfl

/-- A thread as the session behind a handle has it. -/
@[grind =] def SessionManager.threadAt (m : SessionManager) (handle : Nat) (thread : Uuid) : Option Thread :=
  m.shared[handle]?.bind fun s => s.session.thread? thread

theorem resolveThread_threadAt (hm : m.Owned) (hmapped : m.Mapped) {key : ThreadKey}
    {thread : Uuid} (draw : Draw) (hmap : m.threadMap key = some thread) :
    (m.resolveThread key draw).1.threadAt (m.resolveThread key draw).2.1 thread =
      (m.sharedOf key.userId).bind fun s => s.session.thread? thread := by
  have hholds := hmapped key thread hmap
  have h := getOrCreateSession_obtained hm key.userId draw
  rw [resolveThread_of_mapped hm draw hmap hholds, threadAt, ← sharedOf_eq h.found, h.shared,
    Function.update_self]
  unfold sessionOrNew
  unfold Holds at hholds
  cases hshared : m.sharedOf key.userId with
  | none => simp [hshared] at hholds
  | some s => rfl

/-- A key that is mapped nowhere or elsewhere is not resolved to a thread that is already there. -/
private theorem resolveThread_eq_iff (hm : m.Owned) (hmapped : m.Mapped) (key : ThreadKey)
    {draw : Draw} {thread : Uuid} {userId : String} (hdraw : m.Unused draw.threadId)
    (hholds : m.Holds userId thread) :
    (m.resolveThread key draw).2.2 = thread ↔ m.threadMap key = some thread := by
  rw [resolveThread_thread hm hmapped]
  cases m.threadMap key with
  | some other => simp
  | none =>
    simp only [Option.getD_none, reduceCtorEq, iff_false]
    rintro rfl
    exact hdraw userId hholds

theorem newThread_not_resolved (hm : m.Owned) (hmapped : m.Mapped) (key : ThreadKey)
    {draw later : Draw} (hdraw : m.Unused draw.threadId)
    (hlater : (m.processNewThread key.userId draw).Unused later.threadId) :
    ((m.processNewThread key.userId draw).resolveThread key later).2.2 ≠ draw.threadId := by
  have hgrows := processNewThread_grows hm hmapped key.userId draw
  have hmade := (hgrows.holds key.userId draw.threadId).mpr (.inr ⟨rfl, rfl⟩)
  rw [Ne, resolveThread_eq_iff hgrows.owned hgrows.mapped key hlater hmade]
  intro hmap
  have hbefore : m.threadMap key = some draw.threadId := by
    rw [← (getOrCreateSession_obtained hm key.userId draw).threadMap]
    exact hmap
  exact hdraw key.userId (hmapped key _ hbefore)

theorem switchThread_resolved_iff (hm : m.Owned) (hmapped : m.Mapped) (key : ThreadKey)
    {target : Uuid} {draw later : Draw}
    (hswitched : (m.processSwitchThread key.userId target draw).2 = true)
    (hlater : (m.processSwitchThread key.userId target draw).1.Unused later.threadId) :
    ((m.processSwitchThread key.userId target draw).1.resolveThread key later).2.2 = target ↔
      m.threadMap key = some target := by
  have h := getOrCreateSession_obtained hm key.userId draw
  have hgrows := processSwitchThread_grows hm hmapped key.userId target draw
  have htarget : m.Holds key.userId target :=
    (sessionOrNew_containsThread key.userId draw target).mp ((h.containsThread target) ▸ hswitched)
  have hkept := (hgrows.holds key.userId target).mpr (.inl htarget)
  rw [resolveThread_eq_iff hgrows.owned hgrows.mapped key hlater hkept, ← h.threadMap]
  rfl

/-- The message is resolved to the thread, and the thread has the stored messages. -/
def ResolvesStored (m : SessionManager) (key : ThreadKey) (draw : Draw) (thread : Uuid)
    (stored : StoredConversation) : Prop :=
  (m.resolveThread key draw).2.2 = thread ∧
    ((m.resolveThread key draw).1.threadAt (m.resolveThread key draw).2.1 thread).map
      Thread.messages = some stored.chatMessages

/-- When hydrating a conversation makes a message for it find it: a thread already in memory is
found if this very key is mapped to it and its messages are the stored ones; a thread that is loaded,
if the message spells the identifier as it is printed and no stored answer lacks its question. -/
def Hydratable (m : SessionManager) (userId channel ext : String) (thread : Uuid)
    (stored : StoredConversation) : Prop :=
  if m.Holds userId thread then
    m.threadMap ⟨userId, channel, some ext⟩ = some thread ∧
      ((m.sharedOf userId).bind fun s => s.session.thread? thread).map Thread.messages =
        some stored.chatMessages
  else ext = thread.toString ∧ directAnswers stored.chatMessages = true

theorem hydrated_resolved_iff (hm : m.Owned) (hmapped : m.Mapped) (userId channel : String)
    {ext : String} (stored : StoredConversation) {thread : Uuid} {draw later : Draw}
    (hparse : parse ext = some thread)
    (hlater : (maybeHydrateThread parse m userId channel ext stored draw).Unused later.threadId) :
    ResolvesStored (maybeHydrateThread parse m userId channel ext stored draw)
        ⟨userId, channel, some ext⟩ later thread stored ↔
      Hydratable m userId channel ext thread stored := by
  have hgrows := maybeHydrateThread_grows parse ext hm hmapped userId channel stored draw
  unfold ResolvesStored Hydratable
  by_cases hholds : m.Holds userId thread
  · have hkept := (hgrows.holds userId thread).mpr (.inl hholds)
    rw [resolveThread_eq_iff hgrows.owned hgrows.mapped _ hlater hkept, if_pos hholds]
    have h := getOrCreateSession_obtained hm userId draw
    have hsame := maybeHydrateThread_of_held hm userId channel stored draw hparse hholds
    have hshared : (maybeHydrateThread parse m userId channel ext stored draw).sharedOf userId =
        m.sharedOf userId := by
      unfold Holds at hholds
      rw [hsame, h.shared, Function.update_self, sessionOrNew]
      cases hs : m.sharedOf userId with
      | none => simp [hs] at hholds
      | some s => rfl
    have hmap : (maybeHydrateThread parse m userId channel ext stored draw).threadMap =
        m.threadMap := by rw [hsame, h.threadMap]
    rw [hmap]
    refine and_congr_right fun hkey => ?_
    rw [resolveThread_threadAt hgrows.owned hgrows.mapped later (hmap.symm ▸ hkey), hshared]
  · have hloaded := maybeHydrateThread_loaded hm userId channel stored draw hparse hholds
    have hnow := (hgrows.holds userId thread).mpr (.inr ⟨rfl, hparse, hholds⟩)
    rw [resolveThread_eq_iff hgrows.owned hgrows.mapped _ hlater hnow, if_neg hholds]
    have hkey : (maybeHydrateThread parse m userId channel ext stored draw).threadMap
        ⟨userId, channel, some ext⟩ = some thread ↔ ext = thread.toString := by
      rw [hloaded.threadMap]
      by_cases hext : ext = thread.toString
      · subst hext
        exact iff_of_true (Function.update_self _ _ _) rfl
      · rw [Function.update_of_ne (by simp [registeredKey, hext])]
        exact iff_of_false (fun hmap => hholds (hmapped _ thread hmap)) hext
    rw [hkey]
    refine and_congr_right fun hext => ?_
    rw [resolveThread_threadAt hgrows.owned hgrows.mapped later (hkey.mpr hext), hloaded.shared,
      Function.update_self, ← stored.thread_messages_iff thread
        (m.sessionOrNew userId draw).session.id]
    simp [SharedSession.hydrate, Session.thread?, Session.setThread]

/-- No thread made or loaded for one user is returned for another, whatever message comes next. -/
def KeepsOwners (m : SessionManager) (log : List ManagerEvent) : Prop :=
  ∀ owner thread, MadeFor log owner thread → ∀ key draw, m.Unused draw.threadId →
    (m.resolveThread key draw).2.2 = thread → key.userId = owner

/-- No two users have one thread. -/
private structure Apart (m : SessionManager) (log : List ManagerEvent) : Prop extends
    Accounted m log where
  single : ∀ {userId other thread}, m.Holds userId thread → m.Holds other thread → userId = other

private theorem Apart.keepsOwners (h : Apart m log) : KeepsOwners m log := by
  intro owner thread hmade key draw hdraw hresolved
  have hholds := (h.madeFor owner thread).mpr hmade
  have hmap := (resolveThread_eq_iff h.owned h.mapped key hdraw hholds).mp hresolved
  exact h.single (h.mapped key thread hmap) hholds

/-- A step gives a thread to one user, and to nobody when someone else has it. -/
private theorem step_apart {op : ManagerOp × Draw}
    (hdraw : m.Unused op.2.threadId) (hforeign : ¬ op.1.LoadsForeign parse m) :
    ∃ userId, ∀ owner thread, MadeFor (ManagerOp.step parse m op).2 owner thread →
      owner = userId ∧ ∀ other, m.Holds other thread → other = owner := by
  obtain ⟨op, draw⟩ := op
  cases op with
  | resolve key =>
    refine ⟨key.userId, fun owner thread h => ?_⟩
    simp only [ManagerOp.step, MadeFor] at h
    split at h
    next => simp at h
    next =>
      simp only [List.mem_singleton, ManagerEvent.created.injEq, reduceCtorEq, or_false] at h
      obtain ⟨rfl, rfl⟩ := h
      exact ⟨rfl, fun other hholds => absurd hholds (hdraw other)⟩
  | hydrate userId channel ext stored =>
    refine ⟨userId, fun owner thread h => ?_⟩
    simp only [ManagerOp.step, MadeFor] at h
    split at h
    next loaded hparse =>
      split at h
      next => simp at h
      next hmiss =>
        simp only [List.mem_singleton, reduceCtorEq, false_or, ManagerEvent.hydrated.injEq] at h
        obtain ⟨rfl, rfl⟩ := h
        refine ⟨rfl, fun other hholds => ?_⟩
        by_contra hother
        exact hforeign ⟨thread, other, ⟨hparse, hmiss⟩, hother, hholds⟩
    next => simp at h
  | newThread userId =>
    refine ⟨userId, fun owner thread h => ?_⟩
    simp only [ManagerOp.step, MadeFor, List.mem_singleton, ManagerEvent.created.injEq,
      reduceCtorEq, or_false] at h
    obtain ⟨rfl, rfl⟩ := h
    exact ⟨rfl, fun other hholds => absurd hholds (hdraw other)⟩
  | switchThread userId target =>
    exact ⟨userId, fun owner thread h => by simp [ManagerOp.step, MadeFor] at h⟩

private theorem run_apart (ops : List (ManagerOp × Draw))
    (hdraw : ∀ p ∈ visited (ManagerOp.step parse) SessionManager.new ops,
      p.1.Unused p.2.2.threadId)
    (hforeign : ∀ p ∈ visited (ManagerOp.step parse) SessionManager.new ops,
      ¬ p.2.1.LoadsForeign parse p.1) :
    Apart (run (ManagerOp.step parse) SessionManager.new ops).1
      (run (ManagerOp.step parse) SessionManager.new ops).2 := by
  have hinit : Apart SessionManager.new [] := by
    refine ⟨run_accounted parse [], fun {userId other thread} h _ => ?_⟩
    simp [Holds, sharedOf, SessionManager.new, findSession] at h
  refine run_invariant_of (fun m op => m.Unused op.2.threadId ∧ ¬ op.1.LoadsForeign parse m) Apart
    hinit ?_ ops fun p hp => ⟨hdraw p hp, hforeign p hp⟩
  intro m log op ⟨hdraw, hforeign⟩ h
  have hgrows := step_grows parse h.owned h.mapped op
  obtain ⟨adder, hadded⟩ := step_apart hdraw hforeign
  refine ⟨⟨hgrows.owned, hgrows.mapped, fun userId thread => ?_⟩, ?_⟩
  · rw [hgrows.holds, h.madeFor]
    simp only [MadeFor, List.mem_append]
    tauto
  · intro userId other thread huser hother
    rcases (hgrows.holds userId thread).mp huser with huser | huser
    · rcases (hgrows.holds other thread).mp hother with hother | hother
      · exact h.single huser hother
      · exact (hadded other thread hother).2 userId huser
    · rcases (hgrows.holds other thread).mp hother with hother | hother
      · exact ((hadded userId thread huser).2 other hother).symm
      · exact (hadded userId thread huser).1.trans (hadded other thread hother).1.symm

/-- Once a thread of another user is loaded, a message resolves to it. -/
private theorem not_keepsOwners_of_foreign (h : Accounted m log) {op : ManagerOp × Draw}
    (hdraw : m.Unused op.2.threadId) (hforeign : op.1.LoadsForeign parse m) :
    ¬ KeepsOwners (ManagerOp.step parse m op).1 (log ++ (ManagerOp.step parse m op).2) := by
  obtain ⟨op, draw⟩ := op
  cases op with
  | hydrate userId channel ext stored =>
    obtain ⟨thread, other, ⟨hparse, hmiss⟩, hother, hholds⟩ := hforeign
    have hgrows := maybeHydrateThread_grows parse ext h.owned h.mapped userId channel stored draw
    have hloaded := maybeHydrateThread_loaded h.owned userId channel stored draw hparse hmiss
    have hunused : (maybeHydrateThread parse m userId channel ext stored draw).Unused
        draw.threadId := by
      intro user huser
      rcases (hgrows.holds user draw.threadId).mp huser with huser | ⟨-, hload, -⟩
      · exact hdraw user huser
      · rw [hparse, Option.some.injEq] at hload
        exact hdraw other (hload ▸ hholds)
    have hmap : (maybeHydrateThread parse m userId channel ext stored draw).threadMap
        (registeredKey userId channel thread) = some thread := by
      rw [hloaded.threadMap, Function.update_self]
    intro hkeeps
    have hmade : MadeFor (log ++ (ManagerOp.step parse m (.hydrate userId channel ext stored,
        draw)).2) other thread := by
      rcases (h.madeFor other thread).mp hholds with hmade | hmade
      · exact .inl (List.mem_append_left _ hmade)
      · exact .inr (List.mem_append_left _ hmade)
    refine hother (hkeeps other thread hmade (registeredKey userId channel thread) draw hunused ?_).symm
    change (resolveThread (maybeHydrateThread parse m userId channel ext stored draw) _ _).2.2 = _
    rw [resolveThread_thread hgrows.owned hgrows.mapped, hmap, Option.getD_some]
  | resolve key => exact hforeign.elim
  | newThread userId => exact hforeign.elim
  | switchThread userId target => exact hforeign.elim

theorem keepsOwners_iff (ops : List (ManagerOp × Draw))
    (hdraw : ∀ p ∈ visited (ManagerOp.step parse) SessionManager.new ops,
      p.1.Unused p.2.2.threadId) :
    (∀ n, KeepsOwners (run (ManagerOp.step parse) SessionManager.new (ops.take n)).1
        (run (ManagerOp.step parse) SessionManager.new (ops.take n)).2) ↔
      ∀ p ∈ visited (ManagerOp.step parse) SessionManager.new ops,
        ¬ p.2.1.LoadsForeign parse p.1 := by
  constructor
  · intro hkeeps p hp hforeign
    have hunused := hdraw p hp
    obtain ⟨before, after, rfl, hstate⟩ := mem_visited_iff.mp hp
    have htake : (before ++ p.2 :: after).take (before.length + 1) = before ++ [p.2] := by
      rw [List.take_length_add_append]
      rfl
    have hstep := hkeeps (before.length + 1)
    rw [htake, run_concat] at hstep
    rw [hstate] at hunused hforeign
    exact not_keepsOwners_of_foreign (run_accounted parse before) hunused hforeign hstep
  · intro hforeign n
    have hsub : ∀ p ∈ visited (ManagerOp.step parse) SessionManager.new (ops.take n),
        p ∈ visited (ManagerOp.step parse) SessionManager.new ops := by
      intro p hp
      rw [← List.take_append_drop n ops, visited_append]
      exact List.mem_append_left _ hp
    exact (run_apart (ops.take n) (fun p hp => hdraw p (hsub p hp))
      fun p hp => hforeign p (hsub p hp)).keepsOwners

/-- After every run: a new thread is never the one the next message of its key goes to; a thread
switched to is, exactly when the key is mapped to it; a hydrated conversation is found exactly when
it is hydratable; and threads stay with their users exactly in the runs that load no thread another
user has. -/
theorem resolved_threads_iff (parse : String → Option Uuid) (ops : List (ManagerOp × Draw)) :
    let m := (run (ManagerOp.step parse) SessionManager.new ops).1
    (∀ (key : ThreadKey) (draw later : Draw), m.Unused draw.threadId →
      (m.processNewThread key.userId draw).Unused later.threadId →
      ((m.processNewThread key.userId draw).resolveThread key later).2.2 ≠ draw.threadId) ∧
    (∀ (key : ThreadKey) (target : Uuid) (draw later : Draw),
      (m.processSwitchThread key.userId target draw).2 = true →
      (m.processSwitchThread key.userId target draw).1.Unused later.threadId →
      (((m.processSwitchThread key.userId target draw).1.resolveThread key later).2.2 = target ↔
        m.threadMap key = some target)) ∧
    (∀ (userId channel ext : String) (stored : StoredConversation) (thread : Uuid)
      (draw later : Draw), parse ext = some thread →
      (maybeHydrateThread parse m userId channel ext stored draw).Unused later.threadId →
      (ResolvesStored (maybeHydrateThread parse m userId channel ext stored draw)
          ⟨userId, channel, some ext⟩ later thread stored ↔
        Hydratable m userId channel ext thread stored)) ∧
    ((∀ p ∈ visited (ManagerOp.step parse) SessionManager.new ops, p.1.Unused p.2.2.threadId) →
      ((∀ n, KeepsOwners (run (ManagerOp.step parse) SessionManager.new (ops.take n)).1
          (run (ManagerOp.step parse) SessionManager.new (ops.take n)).2) ↔
        ∀ p ∈ visited (ManagerOp.step parse) SessionManager.new ops,
          ¬ p.2.1.LoadsForeign parse p.1)) := by
  have h := run_accounted parse ops
  refine ⟨?_, ?_, ?_, keepsOwners_iff ops⟩
  · intro key draw later hdraw hlater
    exact newThread_not_resolved h.owned h.mapped key hdraw hlater
  · intro key target draw later hswitched hlater
    exact switchThread_resolved_iff h.owned h.mapped key hswitched hlater
  · intro userId channel ext stored thread draw later hparse hlater
    exact hydrated_resolved_iff h.owned h.mapped userId channel stored hparse hlater

section Astray

private def drawn (n : Nat) : Draw := ⟨.ofNat n, .ofNat (n + 1), 0⟩

/-- One identifier is printed and parsed as itself. -/
private def parseOne (text : String) : Option Uuid :=
  if text = (Uuid.ofNat 2).toString then some (.ofNat 2) else none

private def firstMessage : SessionManager :=
  (SessionManager.new.resolveThread ⟨"alice", "cli", none⟩ (drawn 1)).1

/-- The message after a new thread goes to the old one, the message for a conversation in memory goes
to a new thread, and another user gets at the conversation. -/
theorem messages_resolved_astray :
    ((firstMessage.processNewThread "alice" (drawn 3)).resolveThread ⟨"alice", "cli", none⟩
        (drawn 5)).2.2 = .ofNat 2 ∧
    ((maybeHydrateThread parseOne firstMessage "alice" "web" (Uuid.ofNat 2).toString ⟨[], none⟩
        (drawn 3)).resolveThread ⟨"alice", "web", some (Uuid.ofNat 2).toString⟩
          (drawn 5)).2.2 = .ofNat 6 ∧
    ((maybeHydrateThread parseOne firstMessage "bob" "web" (Uuid.ofNat 2).toString ⟨[], none⟩
        (drawn 3)).resolveThread ⟨"bob", "web", some (Uuid.ofNat 2).toString⟩
          (drawn 5)).2.2 = .ofNat 2 := by
  decide +kernel

end Astray

end Runs

end Gyre.Agent
