/- digest: Approved senders stay allowed, and an approved request leaves for the list of allowed senders only. -/

import Gyre.Lib.Reach
import Gyre.Pairing.Store

/-!
Calls come one after another here, and any of their file operations may fail.
-/

set_option autoImplicit false
set_option relaxedAutoImplicit false

namespace Gyre.Pairing

open Gyre.Lib

def Phase.Returned (phase : Phase) : Prop := ∃ reply, phase = .returned reply

def Phase.isReturned : Phase → Bool
  | .returned _ => true
  | _ => false

instance Phase.Returned.decidable (phase : Phase) : Decidable phase.Returned :=
  decidable_of_iff (phase.isReturned = true) (by cases phase <;> simp [Phase.Returned, Phase.isReturned])

/-- When `approve` empties the file of pending requests, nobody else is in the list of allowed senders,
and from then on its file operations succeed. -/
def Phase.Cared (c : Channel) (env : Encounter) : Phase → Prop
  | .write .setLen _ (.approve entry) =>
    env.succeeds = true → ∀ name ∈ c.allowed, name = Text.trim entry.id
  | .write _ _ (.approve _) | .allowOpen _ | .allowLock _ | .allowRead _ | .allowTruncate _ _
  | .allowWrite _ _ | .allowUnlock _ => env.succeeds = true
  | _ => True

instance Phase.Cared.decidable (c : Channel) (env : Encounter) :
    ∀ phase : Phase, Decidable (phase.Cared c env)
  | .write .setLen _ (.approve entry) =>
    inferInstanceAs (Decidable (env.succeeds = true → ∀ name ∈ c.allowed, name = Text.trim entry.id))
  | .write .writeAll _ (.approve _) | .write .finish _ (.approve _) | .allowOpen _ | .allowLock _
  | .allowRead _ | .allowTruncate _ _ | .allowWrite _ _ | .allowUnlock _ =>
    inferInstanceAs (Decidable (env.succeeds = true))
  | .write .setLen _ .list | .write .writeAll _ .list | .write .finish _ .list
  | .write .setLen _ (.upsert _ _) | .write .writeAll _ (.upsert _ _) | .write .finish _ (.upsert _ _)
  | .listRead | .listOpen _ | .listLock _ | .upsertOpen _ _ | .upsertLock _ _ | .upsertRead _ _
  | .upsertUnlock _ | .approveCheck _ | .approveOpen _ | .approveLock _ | .approveRead _
  | .approveUnlock | .recordOpen | .recordLock | .recordRead | .recordTruncate _ | .recordWrite _
  | .recordUnlock | .readAllow | .readSender _ _ | .returned _ => isTrue trivial

def Section.IsStart (s : Section) : Prop := ∃ operation, s = .start operation

namespace PairingWorld

/-- All calls have returned. -/
def Settled (w : PairingWorld) : Prop := ∀ call ∈ w.calls, call.phase.Returned

/-- The sender whose request a call has approved. -/
def approvedBy (call : Call) : Option (List Char) :=
  match call.phase with
  | .returned (.ok (.approved (some entry))) => some entry.id
  | _ => none

/-- An `approve` has returned a request of this sender. -/
def Approved (calls : List Call) (id : List Char) : Prop := id ∈ calls.filterMap approvedBy

/-- Calls come one after another, and those that approve do so with care. -/
def Careful (w : PairingWorld) : Section → Prop
  | .start _ => w.Settled
  | .proceed call env => ∀ c, w.calls[call]? = some c → c.phase.Cared w.channel env

instance Approved.decidable (calls : List Call) (id : List Char) : Decidable (Approved calls id) :=
  inferInstanceAs (Decidable (id ∈ calls.filterMap approvedBy))

instance Settled.decidable (w : PairingWorld) : Decidable w.Settled :=
  inferInstanceAs (Decidable (∀ call ∈ w.calls, call.phase.Returned))

instance Careful.decidable (w : PairingWorld) : ∀ s, Decidable (w.Careful s)
  | .start _ => Settled.decidable w
  | .proceed call env =>
    match h : w.calls[call]? with
    | none => isTrue fun c hc => absurd (h.symm.trans hc) (by simp)
    | some found =>
      decidable_of_iff (found.phase.Cared w.channel env)
        ⟨fun hcared c hc => Option.some.inj (h.symm.trans hc) ▸ hcared, fun hall => hall found h⟩

/-- Calls come one after another. -/
def InTurn (w : PairingWorld) : Section → Prop
  | .start _ => w.Settled
  | .proceed _ _ => True

instance InTurn.decidable (w : PairingWorld) : ∀ s, Decidable (w.InTurn s)
  | .start _ => Settled.decidable w
  | .proceed _ _ => isTrue trivial

end PairingWorld

open PairingWorld (Approved Careful InTurn)

/-- What becomes of approvals, where all calls have returned. -/
structure ApprovalsKept (u : Text.Unicode) (w : PairingWorld) : Prop where
  allowed : ∀ id, Approved w.calls id → ∀ username, senderAllowed u w.channel.allowed id username = true
  approved : ∀ name ∈ w.channel.allowed, Approved w.calls name
  /-- A request that `approve` removes has expired, or its sender is allowed. -/
  removed : ∀ code after,
    Reached (PairingWorld.step u) (fun w s => Careful w s ∧ ¬ s.IsStart)
      (w.step u (.start (.approve code))) after →
    after.Settled → ∀ r ∈ w.channel.stored, r ∈ after.channel.stored ∨
      isExpired r after.clock = true ∨ r.id ∈ after.channel.allowed

section Senders

/-- Senders as `upsert_request` stores them. -/
def Trimmed (id : List Char) : Prop := Text.trim id = id ∧ id ≠ []

def AllTrimmed (requests : List PairingRequest) : Prop := ∀ r ∈ requests, Trimmed r.id

def Phase.Clean : Phase → Prop
  | .listOpen requests | .listLock requests => AllTrimmed requests
  | .write _ requests (.approve entry) => AllTrimmed requests ∧ Trimmed entry.id
  | .write _ requests _ => AllTrimmed requests
  | .allowOpen entry | .allowLock entry | .allowRead entry | .allowTruncate _ entry
  | .allowWrite _ entry | .allowUnlock entry => Trimmed entry.id
  | .upsertUnlock reply | .returned reply => ∀ entry, reply = .ok (.approved (some entry)) → Trimmed entry.id
  | _ => True

variable {u : Text.Unicode} {c : Channel} {call : Nat} {env : Encounter}

private theorem allTrimmed_unexpired {requests : List PairingRequest} (h : AllTrimmed requests) (now : Nat) :
    AllTrimmed (requests.filter fun r => !isExpired r now) :=
  fun r hr => h r (List.mem_of_mem_filter hr)

private theorem clean_upsert {requests : List PairingRequest} (h : AllTrimmed requests)
    (id : List Char) (metadata : Option Gyre.Llm.Json) : (upsert u requests id metadata env).Clean := by
  have hkept := allTrimmed_unexpired h env.nowSecs
  unfold upsert
  simp only
  generalize (requests.filter fun r => !isExpired r env.nowSecs) = kept at hkept ⊢
  split
  · intro entry heq
    exact absurd heq (by simp)
  · next hne =>
    split
    · next req hreq =>
      intro r hr
      rcases mem_or_eq_of_mem_replace hr with hr | rfl
      · exact hkept r hr
      · exact hkept req (List.mem_of_find?_eq_some hreq)
    · split
      · intro entry heq
        exact absurd heq (by simp)
      · intro r hr
        rcases List.mem_append.mp hr with hr | hr
        · exact hkept r hr
        · rw [List.mem_singleton.mp hr]
          exact ⟨Text.trim_trim id, hne⟩

private theorem clean_take {requests : List PairingRequest} (h : AllTrimmed requests) (code : List Char)
    (now : Nat) : (takeApproved u requests code now).Clean := by
  have hkept := allTrimmed_unexpired h now
  unfold takeApproved
  simp only
  split
  · next entry hentry =>
    have hmem := List.mem_of_find?_eq_some hentry
    exact ⟨fun r hr => hkept r (List.mem_of_mem_erase hr), hkept entry hmem⟩
  · trivial

private theorem clean_succeed {phase : Phase} (hstored : AllTrimmed c.stored) (h : phase.Clean) :
    AllTrimmed (succeed u c call env phase).1.stored ∧ (succeed u c call env phase).2.Clean := by
  have hnone : AllTrimmed [] := by simp [AllTrimmed]
  cases phase with
  | listRead =>
    simp only [succeed]
    split
    · exact ⟨hstored, fun _ heq => absurd heq (by simp)⟩
    · exact ⟨hstored, allTrimmed_unexpired hstored _⟩
  | listOpen requests => exact ⟨hnone, h⟩
  | listLock requests =>
    simp only [succeed]
    split
    · exact ⟨hstored, h⟩
    · exact ⟨hstored, h⟩
  | upsertOpen id metadata =>
    have hcreate : AllTrimmed (c.pairing.create.getD []) := by
      rw [Content.getD_create]
      exact hstored
    exact ⟨hcreate, trivial⟩
  | upsertRead id metadata => exact ⟨hstored, clean_upsert hstored id metadata⟩
  | upsertUnlock reply => exact ⟨hstored, h⟩
  | approveRead code => exact ⟨hstored, clean_take hstored code _⟩
  | write stage requests writer =>
    have hrequests : AllTrimmed requests := by
      cases writer with
      | list => exact h
      | upsert code created => exact h
      | approve entry => exact h.1
    cases stage with
    | setLen => exact ⟨hnone, by cases writer <;> exact h⟩
    | writeAll => exact ⟨hrequests, by cases writer <;> exact h⟩
    | finish =>
      refine ⟨hstored, ?_⟩
      cases writer with
      | list => exact fun _ heq => absurd heq (by simp)
      | upsert code created => exact fun _ heq => absurd heq (by simp)
      | approve entry =>
        simp only [succeed, afterWrite]
        rw [if_neg (by rw [h.2.1]; exact h.2.2)]
        exact h.2
  | allowOpen entry => exact ⟨hstored, h⟩
  | allowLock entry =>
    simp only [succeed]
    split
    · exact ⟨hstored, h⟩
    · exact ⟨hstored, h⟩
  | allowRead entry =>
    simp only [succeed]
    split
    · exact ⟨hstored, h⟩
    · exact ⟨hstored, h⟩
  | allowTruncate entries entry => exact ⟨hstored, h⟩
  | allowWrite entries entry => exact ⟨hstored, h⟩
  | allowUnlock entry =>
    refine ⟨hstored, fun found heq => ?_⟩
    obtain rfl : entry = found := by simpa using heq
    exact h
  | readAllow => exact ⟨hstored, fun _ heq => absurd heq (by simp)⟩
  | readSender id username => exact ⟨hstored, fun _ heq => absurd heq (by simp)⟩
  | returned reply => exact ⟨hstored, h⟩
  | recordUnlock => exact ⟨hstored, fun _ heq => absurd heq (by simp)⟩
  | approveCheck code =>
    simp only [succeed]
    split
    · exact ⟨hstored, fun _ heq => absurd heq (by simp)⟩
    · exact ⟨hstored, trivial⟩
  | approveOpen code =>
    simp only [succeed]
    split
    · exact ⟨hstored, fun _ heq => absurd heq (by simp)⟩
    · exact ⟨hstored, trivial⟩
  | upsertLock id metadata | approveLock code | recordLock =>
    simp only [succeed]
    split
    · exact ⟨hstored, trivial⟩
    · exact ⟨hstored, trivial⟩
  | approveUnlock | recordOpen | recordRead | recordTruncate _ | recordWrite _ =>
    exact ⟨hstored, trivial⟩

private theorem clean_fail {phase : Phase} (hstored : AllTrimmed c.stored) (h : phase.Clean) :
    AllTrimmed (fail u c call env phase).1.stored ∧ (fail u c call env phase).2.Clean := by
  have hnone : AllTrimmed [] := by simp [AllTrimmed]
  rcases fail_cases u c call env phase with ⟨-, hfail⟩ | ⟨hstays, hfail⟩
  · rw [hfail]
    exact ⟨hstored, fun _ heq => absurd heq (by simp)⟩
  · rw [hstays]
    refine ⟨hstored, ?_⟩
    rcases hfail with ⟨id, metadata, rfl⟩ | ⟨code, rfl⟩ | rfl | ⟨entry, rfl⟩ | ⟨reply, rfl⟩
    · exact clean_upsert hnone id metadata
    · have htaken : (takeApproved u [] code env.nowSecs).Clean := clean_take hnone code _
      exact htaken
    · trivial
    · exact h
    · exact h

/-- Senders stay trimmed, whatever fails. -/
theorem clean_advance {phase : Phase} (hstored : AllTrimmed c.stored) (h : phase.Clean) :
    AllTrimmed (advance u c call env phase).1.stored ∧ (advance u c call env phase).2.Clean := by
  unfold advance
  split
  · exact clean_succeed hstored h
  · exact clean_fail hstored h

end Senders

section Moves

variable (A : List Char → Prop) (found : List PairingRequest) (clock : Nat)

/-- The list of allowed senders is that of the senders approved. -/
def Calm (c : Channel) : Prop := ∀ name, name ∈ c.allowed ↔ A name

/-- Nobody else has been approved. -/
def Alone (entry : PairingRequest) : Prop := ∀ name, A name → name = entry.id

/-- Where the requests found by `approve` are. -/
def Covered (requests : List PairingRequest) (entry : PairingRequest) : Prop :=
  ∀ r ∈ found, r ∈ requests ∨ isExpired r clock = true ∨ r = entry

/-- What is known of the call under way: before it, senders with `A` were approved; and if it approves,
it has found some requests. -/
def Facts (c : Channel) : Phase → Prop
  | .approveCheck _ | .approveOpen _ | .approveLock _ | .approveRead _ | .approveUnlock | .recordOpen
  | .recordLock | .recordRead | .recordTruncate _ | .recordWrite _ | .recordUnlock =>
    Calm A c ∧ ∀ r ∈ found, r ∈ c.stored
  | .write .setLen requests (.approve entry) =>
    Calm A c ∧ (∀ r ∈ found, r ∈ c.stored) ∧ Covered found clock requests entry
  | .write .writeAll requests (.approve entry) =>
    Calm A c ∧ Alone A entry ∧ Covered found clock requests entry
  | .write .finish _ (.approve entry) | .allowOpen entry =>
    Calm A c ∧ Alone A entry ∧ Covered found clock c.stored entry
  | .allowLock entry | .allowRead entry =>
    c.allowed = [] ∧ Alone A entry ∧ Covered found clock c.stored entry
  | .allowTruncate entries entry | .allowWrite entries entry =>
    entries = [entry.id] ∧ Alone A entry ∧ Covered found clock c.stored entry
  | .allowUnlock entry | .returned (.ok (.approved (some entry))) =>
    c.allowed = [entry.id] ∧ Alone A entry ∧ Covered found clock c.stored entry
  | .returned _ => Calm A c ∧ ∀ r ∈ found, r ∈ c.stored
  | .upsertUnlock reply => Calm A c ∧ found = [] ∧ ∀ entry, reply ≠ .ok (.approved (some entry))
  | _ => Calm A c ∧ found = []

variable {A found clock} {u : Text.Unicode} {c : Channel} {call : Nat} {env : Encounter}

theorem isExpired_mono {r : PairingRequest} {now later : Nat} (hle : now ≤ later)
    (h : isExpired r now = true) : isExpired r later = true := by
  have hnow : pairingPendingTtlSecs < now - r.createdAt := of_decide_eq_true h
  exact decide_eq_true (by omega)

private theorem Covered.later {requests : List PairingRequest} {entry : PairingRequest}
    (h : Covered found clock requests entry) (later : Nat) :
    Covered found (max clock later) requests entry := by
  intro r hr
  rcases h r hr with hmem | hexpired | heq
  · exact .inl hmem
  · exact .inr (.inl (isExpired_mono (Nat.le_max_left ..) hexpired))
  · exact .inr (.inr heq)

private theorem facts_returned {reply : Except PairingStoreError Answer}
    (h : ∀ entry, reply ≠ .ok (.approved (some entry)))
    (hcalm : Calm A c) (hfound : ∀ r ∈ found, r ∈ c.stored) : Facts A found clock c (.returned reply) := by
  unfold Facts
  split <;> first | exact ⟨hcalm, hfound⟩ | simp_all

/-- What is known of a call does not grow old. -/
private theorem facts_later {phase : Phase} (h : Facts A found clock c phase) (later : Nat) :
    Facts A found (max clock later) c phase := by
  cases phase with
  | write stage requests writer =>
    cases writer with
    | approve entry =>
      cases stage with
      | setLen => exact ⟨h.1, h.2.1, h.2.2.later _⟩
      | writeAll => exact ⟨h.1, h.2.1, h.2.2.later _⟩
      | finish => exact ⟨h.1, h.2.1, h.2.2.later _⟩
    | list => cases stage <;> exact h
    | upsert code created => cases stage <;> exact h
  | allowOpen entry | allowLock entry | allowRead entry | allowTruncate _ entry | allowWrite _ entry
  | allowUnlock entry => exact ⟨h.1, h.2.1, h.2.2.later _⟩
  | returned reply =>
    unfold Facts at h ⊢
    split at h
    all_goals first | exact h | exact ⟨h.1, h.2.1, h.2.2.later _⟩
  | _ => exact h

private theorem facts_take {requests : List PairingRequest} (hcalm : Calm A c)
    (hfound : ∀ r ∈ found, r ∈ c.stored) (hread : requests = c.stored ∨ requests = []) (code : List Char)
    (now : Nat) : Facts A found (max clock now) c (takeApproved u requests code now) := by
  unfold takeApproved
  simp only
  split
  · next entry hentry =>
    refine ⟨hcalm, hfound, ?_⟩
    rcases hread with rfl | rfl
    · intro r hr
      by_cases hexpired : isExpired r now = true
      · exact .inr (.inl (isExpired_mono (Nat.le_max_right ..) hexpired))
      · by_cases heq : r = entry
        · exact .inr (.inr heq)
        · refine .inl ((List.mem_erase_of_ne heq).mpr (List.mem_filter.mpr ⟨hfound r hr, ?_⟩))
          simpa using hexpired
    · exact absurd hentry (by simp)
  · exact ⟨hcalm, hfound⟩

private theorem facts_upsert {requests : List PairingRequest} (hcalm : Calm A c) (hfound : found = [])
    (id : List Char) (metadata : Option Gyre.Llm.Json) :
    Facts A found clock c (upsert u requests id metadata env) := by
  unfold upsert
  simp only
  split
  · exact ⟨hcalm, hfound, by simp⟩
  · split
    · exact ⟨hcalm, hfound⟩
    · split
      · exact ⟨hcalm, hfound, by simp⟩
      · exact ⟨hcalm, hfound⟩

/-- Where a failure is allowed for and the call returns, approvals are as they were. -/
private theorem calm_of_fail {phase : Phase} (h : Facts A found clock c phase)
    (hcared : phase.Cared c env) (hfails : ¬ env.succeeds = true)
    (hnot : ∀ reply, phase ≠ .returned reply) : Calm A c ∧ ∀ r ∈ found, r ∈ c.stored := by
  cases phase with
  | listRead | listOpen _ | listLock _ | upsertOpen _ _ | upsertLock _ _ | upsertRead _ _ | readAllow
  | readSender _ _ => exact ⟨h.1, by simp [h.2]⟩
  | upsertUnlock reply => exact ⟨h.1, by simp [h.2.1]⟩
  | approveCheck _ | approveOpen _ | approveLock _ | approveRead _ | approveUnlock | recordOpen
  | recordLock | recordRead | recordTruncate _ | recordWrite _ | recordUnlock => exact h
  | write stage requests writer =>
    cases writer with
    | list => cases stage <;> exact ⟨h.1, by simp [h.2]⟩
    | upsert code created => cases stage <;> exact ⟨h.1, by simp [h.2]⟩
    | approve entry =>
      cases stage with
      | setLen => exact ⟨h.1, h.2.1⟩
      | writeAll => exact absurd hcared hfails
      | finish => exact absurd hcared hfails
  | allowOpen entry | allowLock entry | allowRead entry | allowTruncate _ entry | allowWrite _ entry
  | allowUnlock entry => exact absurd hcared hfails
  | returned reply => exact absurd rfl (hnot reply)

private theorem facts_fail {phase : Phase} (h : Facts A found clock c phase)
    (hcared : phase.Cared c env) (hfails : ¬ env.succeeds = true) :
    Facts A found (max clock env.nowSecs) (fail u c call env phase).1 (fail u c call env phase).2 := by
  rcases fail_cases u c call env phase with ⟨hnot, hfail⟩ | ⟨hstays, hfail⟩
  · rw [hfail]
    exact calm_of_fail h hcared hfails hnot
  · rw [hstays]
    rcases hfail with ⟨id, metadata, rfl⟩ | ⟨code, rfl⟩ | rfl | ⟨entry, rfl⟩ | ⟨reply, rfl⟩
    · have hnext : Facts A found (max clock env.nowSecs) c (upsert u [] id metadata env) :=
        facts_upsert h.1 h.2 id metadata
      exact hnext
    · have hnext : Facts A found (max clock env.nowSecs) c (takeApproved u [] code env.nowSecs) :=
        facts_take h.1 h.2 (.inr rfl) code _
      exact hnext
    · exact h
    · exact absurd hcared hfails
    · exact facts_later h _

private theorem facts_succeed {phase : Phase} (h : Facts A found clock c phase) (hclean : phase.Clean)
    (hcared : phase.Cared c env) (hsucceeds : env.succeeds = true) :
    Facts A found (max clock env.nowSecs) (succeed u c call env phase).1
      (succeed u c call env phase).2 := by
  cases phase with
  | listRead =>
    simp only [succeed]
    split
    · exact facts_returned (by simp) h.1 (by simp [h.2])
    · exact h
  | listLock requests =>
    simp only [succeed]
    split <;> exact h
  | upsertOpen id metadata => exact h
  | upsertLock id metadata =>
    simp only [succeed]
    split <;> exact h
  | upsertRead id metadata => exact facts_upsert h.1 h.2 id metadata
  | upsertUnlock reply => exact facts_returned h.2.2 h.1 (by simp [h.2.1])
  | approveCheck code =>
    simp only [succeed]
    split
    · exact facts_returned (by simp) h.1 h.2
    · exact h
  | approveOpen code =>
    simp only [succeed]
    split
    · exact facts_returned (by simp) h.1 h.2
    · exact h
  | approveLock code =>
    simp only [succeed]
    split <;> exact h
  | approveRead code => exact facts_take h.1 h.2 (.inl rfl) code _
  | recordLock =>
    simp only [succeed]
    split <;> exact h
  | recordUnlock => exact facts_returned (by simp) h.1 h.2
  | write stage requests writer =>
    cases writer with
    | list =>
      cases stage with
      | setLen => exact h
      | writeAll => exact h
      | finish => exact facts_returned (by simp) h.1 (by simp [h.2])
    | upsert code created =>
      cases stage with
      | setLen => exact h
      | writeAll => exact h
      | finish => exact facts_returned (by simp) h.1 (by simp [h.2])
    | approve entry =>
      cases stage with
      | setLen =>
        have halone : Alone A entry := fun name hname =>
          (hcared hsucceeds name ((h.1 name).mpr hname)).trans hclean.2.1
        exact ⟨h.1, halone, h.2.2.later _⟩
      | writeAll => exact ⟨h.1, h.2.1, h.2.2.later _⟩
      | finish =>
        simp only [succeed, afterWrite]
        rw [if_neg (by rw [hclean.2.1]; exact hclean.2.2)]
        exact ⟨h.1, h.2.1, h.2.2.later _⟩
  | allowOpen entry => exact ⟨rfl, h.2.1, h.2.2.later _⟩
  | allowLock entry =>
    simp only [succeed]
    split <;> exact ⟨h.1, h.2.1, h.2.2.later _⟩
  | allowRead entry =>
    simp only [succeed, h.1, List.any_nil]
    exact ⟨by rw [hclean.1]; rfl, h.2.1, h.2.2.later _⟩
  | allowTruncate entries entry => exact ⟨h.1, h.2.1, h.2.2.later _⟩
  | allowWrite entries entry => exact ⟨h.1, h.2.1, h.2.2.later _⟩
  | allowUnlock entry => exact ⟨h.1, h.2.1, h.2.2.later _⟩
  | readAllow => exact facts_returned (by simp) h.1 (by simp [h.2])
  | readSender id username => exact facts_returned (by simp) h.1 (by simp [h.2])
  | returned reply => exact facts_later h _
  | listOpen requests => exact h
  | approveUnlock | recordOpen | recordRead | recordTruncate _ | recordWrite _ => exact h

theorem facts_advance {phase : Phase} (h : Facts A found clock c phase) (hclean : phase.Clean)
    (hcared : phase.Cared c env) :
    Facts A found (max clock env.nowSecs) (advance u c call env phase).1
      (advance u c call env phase).2 := by
  unfold advance
  split
  · next hsucceeds => exact facts_succeed h hclean hcared hsucceeds
  · next hfails => exact facts_fail h hcared hfails

/-- What has become of the requests that a call found, once it has returned. -/
private theorem kept_of_facts {reply : Except PairingStoreError Answer}
    (h : Facts A found clock c (.returned reply)) (r : PairingRequest) (hr : r ∈ found) :
    r ∈ c.stored ∨ isExpired r clock = true ∨ r.id ∈ c.allowed := by
  by_cases hentry : ∃ entry, reply = .ok (.approved (some entry))
  · obtain ⟨entry, rfl⟩ := hentry
    obtain ⟨hallowed, -, hcovered⟩ := h
    rcases hcovered r hr with hstored | hexpired | rfl
    · exact .inl hstored
    · exact .inr (.inl hexpired)
    · refine .inr (.inr ?_)
      rw [hallowed]
      exact List.mem_singleton_self _
  · unfold Facts at h
    split at h
    all_goals first | exact .inl (h.2 r hr) | simp_all

end Moves

section Runs

variable {u : Text.Unicode} {w : PairingWorld} {found : List PairingRequest}

/-- Between calls. -/
structure Idle (w : PairingWorld) : Prop where
  settled : w.Settled
  calm : Calm (Approved w.calls) w.channel
  clean : AllTrimmed w.channel.stored

/-- During the last call, or right after it. -/
structure Busy (found : List PairingRequest) (finished : List Call) (current : Call) (w : PairingWorld) :
    Prop where
  calls : w.calls = finished ++ [current]
  settled : ∀ call ∈ finished, call.phase.Returned
  stored : AllTrimmed w.channel.stored
  clean : current.phase.Clean
  facts : Facts (Approved finished) found w.clock w.channel current.phase

/-- The requests that a call finds, as far as it matters. -/
def foundBy (c : Channel) : Operation → List PairingRequest
  | .approve _ => c.stored
  | _ => []

private theorem busy_start (h : Idle w) (operation : Operation) :
    Busy (foundBy w.channel operation) w.calls ⟨operation, begin u operation, none⟩
      (w.step u (.start operation)) where
  calls := rfl
  settled := h.settled
  stored := h.clean
  clean := by
    cases operation with
    | approve code =>
      simp only [begin]
      split
      · exact fun _ heq => absurd heq (by simp)
      · trivial
    | _ => trivial
  facts := by
    cases operation with
    | approve code =>
      simp only [begin]
      split
      · exact facts_returned (by simp) h.calm fun _ hr => hr
      · exact ⟨h.calm, fun _ hr => hr⟩
    | _ => exact ⟨h.calm, rfl⟩

/-- A call that has returned stays as it is. -/
private theorem advance_returned {c : Channel} {call : Nat} {env : Encounter}
    (reply : Except PairingStoreError Answer) :
    advance u c call env (.returned reply) = (c, .returned reply) := by
  unfold advance
  split <;> rfl

private theorem proceed_returned {call : Nat} (env : Encounter)
    (h : ∀ c, w.calls[call]? = some c → c.phase.Returned) :
    (w.step u (.proceed call env)).calls = w.calls ∧
      (w.step u (.proceed call env)).channel = w.channel ∧
      ((w.step u (.proceed call env)).clock = w.clock ∨
        (w.step u (.proceed call env)).clock = max w.clock env.nowSecs) := by
  cases hc : w.calls[call]? with
  | none =>
    have hstep : w.step u (.proceed call env) = w := by simp only [PairingWorld.step, hc]
    rw [hstep]
    exact ⟨rfl, rfl, .inl rfl⟩
  | some c =>
    obtain ⟨reply, hreply⟩ := h c hc
    have hsame : w.calls.set call (c.next env.nowSecs (.returned reply)) = w.calls := by
      obtain ⟨hlt, hget⟩ := List.getElem?_eq_some_iff.mp hc
      have hnext : c.next env.nowSecs (.returned reply) = c := by
        obtain ⟨operation, phase, missedAt⟩ := c
        subst hreply
        rfl
      rw [hnext, ← hget, List.set_getElem_self]
    refine ⟨?_, ?_, .inr ?_⟩
    · simp only [PairingWorld.step, hc, hreply, advance_returned]
      exact hsame
    · simp only [PairingWorld.step, hc, hreply, advance_returned]
    · simp only [PairingWorld.step, hc]

private theorem busy_proceed {finished : List Call} {current : Call} (h : Busy found finished current w)
    (call : Nat) (env : Encounter) (hcareful : Careful w (.proceed call env)) :
    ∃ next, Busy found finished next (w.step u (.proceed call env)) := by
  have hstay (hcall : ∀ c, w.calls[call]? = some c → c.phase.Returned) :
      ∃ next, Busy found finished next (w.step u (.proceed call env)) := by
    obtain ⟨hcalls, hchannel, hclock⟩ := proceed_returned (u := u) env hcall
    refine ⟨current, hcalls.trans h.calls, h.settled, hchannel ▸ h.stored, h.clean, ?_⟩
    rw [hchannel]
    rcases hclock with hclock | hclock
    · exact hclock ▸ h.facts
    · exact hclock ▸ facts_later h.facts _
  rcases Nat.lt_trichotomy call finished.length with hlt | heq | hgt
  · apply hstay
    intro c hc
    rw [h.calls, List.getElem?_append_left hlt] at hc
    exact h.settled c (List.mem_of_getElem? hc)
  · have hc : w.calls[call]? = some current := by
      rw [h.calls, heq]
      exact List.getElem?_concat_length
    obtain ⟨hstored, hclean⟩ : AllTrimmed (advance u w.channel call env current.phase).1.stored ∧
        (advance u w.channel call env current.phase).2.Clean := clean_advance h.stored h.clean
    have hfacts : Facts (Approved finished) found (max w.clock env.nowSecs)
        (advance u w.channel call env current.phase).1 (advance u w.channel call env current.phase).2 :=
      facts_advance h.facts h.clean (hcareful current hc)
    refine ⟨current.next env.nowSecs (advance u w.channel call env current.phase).2, ?_, h.settled, ?_, hclean, ?_⟩
    · simp only [PairingWorld.step, hc]
      rw [h.calls, heq]
      simp
    · simpa only [PairingWorld.step, hc] using hstored
    · simpa only [PairingWorld.step, hc, Call.phase_next] using hfacts
  · apply hstay
    intro c hc
    rw [h.calls] at hc
    have hlen := (List.getElem?_eq_some_iff.mp hc).1
    simp at hlen
    omega

/-- When the last call has returned, the list of allowed senders is that of the senders approved. -/
private theorem idle_of_busy {finished : List Call} {current : Call} (h : Busy found finished current w)
    (hsettled : w.Settled) : Idle w := by
  refine ⟨hsettled, ?_, h.stored⟩
  have hmem : current ∈ w.calls := by simp [h.calls]
  obtain ⟨operation, phase, missedAt⟩ := current
  obtain ⟨reply, rfl⟩ := hsettled _ hmem
  have hfacts := h.facts
  have happroved (name : List Char) : Approved w.calls name ↔ Approved finished name ∨
      PairingWorld.approvedBy ⟨operation, .returned reply, missedAt⟩ = some name := by
    rw [h.calls]
    unfold Approved
    rw [List.filterMap_append, List.mem_append, List.mem_filterMap (l := [_])]
    simp
  intro name
  rw [happroved name]
  by_cases hentry : ∃ entry, reply = .ok (.approved (some entry))
  · obtain ⟨entry, rfl⟩ := hentry
    obtain ⟨hallowed, halone, -⟩ := hfacts
    rw [hallowed, List.mem_singleton]
    constructor
    · rintro rfl
      exact .inr rfl
    · rintro (hold | heq)
      · exact halone name hold
      · exact (Option.some.inj heq).symm
  · have hcalm : Calm (Approved finished) w.channel := by
      simp only at hfacts
      unfold Facts at hfacts
      split at hfacts
      all_goals first | exact hfacts.1 | simp_all
    rw [hcalm name]
    constructor
    · exact .inl
    · rintro (hold | heq)
      · exact hold
      · unfold PairingWorld.approvedBy at heq
        split at heq
        · next entry hreply => exact absurd ⟨entry, Phase.returned.inj hreply⟩ hentry
        · exact absurd heq (by simp)

private theorem idle_or_busy (hw : Reached (PairingWorld.step u) Careful PairingWorld.new w) :
    Idle w ∨ ∃ found finished current, Busy found finished current w := by
  refine hw.invariant (fun w => Idle w ∨ ∃ found finished current, Busy found finished current w) ?_ ?_
  · refine .inl ⟨by simp [PairingWorld.Settled, PairingWorld.new], ?_, ?_⟩
    · intro name
      simp [PairingWorld.new, Channel.new, Channel.allowed, Content.getD, Approved]
    · simp [PairingWorld.new, Channel.new, Channel.stored, Content.getD, AllTrimmed]
  · intro w s hs hbefore
    cases s with
    | start operation =>
      have hidle : Idle w := by
        rcases hbefore with hidle | ⟨found, finished, current, hbusy⟩
        · exact hidle
        · exact idle_of_busy hbusy hs
      exact .inr ⟨_, _, _, busy_start hidle operation⟩
    | proceed call env =>
      rcases hbefore with hidle | ⟨found, finished, current, hbusy⟩
      · obtain ⟨hcalls, hchannel, -⟩ := proceed_returned (u := u) env
          fun c hc => hidle.settled c (List.mem_of_getElem? hc)
        refine .inl ⟨?_, ?_, ?_⟩
        · unfold PairingWorld.Settled
          rw [hcalls]
          exact hidle.settled
        · rw [hcalls, hchannel]
          exact hidle.calm
        · rw [hchannel]
          exact hidle.clean
      · obtain ⟨next, hnext⟩ := busy_proceed hbusy call env hs
        exact .inr ⟨found, finished, next, hnext⟩

/-- A call that has been started is under way until it returns. -/
private theorem busy_during {finished : List Call} {current : Call} {after : PairingWorld}
    (h : Busy found finished current w)
    (hafter : Reached (PairingWorld.step u) (fun w s => Careful w s ∧ ¬ s.IsStart) w after) :
    ∃ next, Busy found finished next after := by
  refine hafter.invariant (fun w => ∃ next, Busy found finished next w) ⟨current, h⟩ ?_
  rintro w s ⟨hcareful, hproceeds⟩ ⟨current, hbusy⟩
  cases s with
  | start operation => exact absurd ⟨operation, rfl⟩ hproceeds
  | proceed call env => exact busy_proceed hbusy call env hcareful

end Runs

/-- In every run of calls that come one after another, with any file operations failing: where calls
approve with care, who was approved stays allowed, nobody else is, and a request leaves by `approve` only
if its sender is then allowed. -/
theorem approvals_kept (u : Text.Unicode) {w : PairingWorld}
    (hw : Reached (PairingWorld.step u) Careful PairingWorld.new w) (hsettled : w.Settled) :
    ApprovalsKept u w := by
  have hidle : Idle w := by
    rcases idle_or_busy hw with hidle | ⟨found, finished, current, hbusy⟩
    · exact hidle
    · exact idle_of_busy hbusy hsettled
  refine ⟨?_, ?_, ?_⟩
  · intro id happroved username
    have hmem := (hidle.calm id).mpr happroved
    have hany : w.channel.allowed.any (fun e => Text.trim e == Text.trim id) = true :=
      List.any_eq_true.mpr ⟨id, hmem, beq_self_eq_true _⟩
    unfold senderAllowed
    rw [hany]
    rfl
  · intro name hname
    exact (hidle.calm name).mp hname
  · intro code after hafter hreturned r hr
    obtain ⟨⟨operation, phase, missedAt⟩, hbusy⟩ := busy_during (busy_start hidle (.approve code)) hafter
    have hmem : (⟨operation, phase, missedAt⟩ : Call) ∈ after.calls := by simp [hbusy.calls]
    obtain ⟨reply, rfl⟩ := hreturned _ hmem
    exact kept_of_facts hbusy.facts r hr

private def tables : Text.Unicode where
  isWord c := c.isAlphanum
  isPrintable c := ' ' ≤ c && c ≤ '~'
  lowercase := List.map Char.toLower
  uppercase := List.map Char.toUpper

/-- An encounter in which codes of one letter are drawn. -/
private def draws (letter : Fin 32) (nowSecs : Nat) : Encounter where
  succeeds := true
  nowSecs := nowSecs
  draws := ⟨[fun _ => ⟨letter.val, letter.isLt⟩], fun _ => ⟨0, by decide⟩, 0⟩

private def alice : List Char := ['a', 'l', 'i', 'c', 'e']

/-- A request comes and is approved. -/
private def pairs (call : Nat) (id : List Char) (letter : Fin 32) : List Section :=
  .start (.upsertRequest id none) :: List.replicate 6 (.proceed call (draws letter 100)) ++
    .start (.approve (randomCode fun _ => ⟨letter.val, letter.isLt⟩)) ::
      List.replicate 13 (.proceed (call + 1) (draws letter 100))

theorem approvals_kept_alice :
    Approved (PairingWorld.run tables (pairs 0 alice 0)).calls alice ∧
      ApprovalsKept tables (PairingWorld.run tables (pairs 0 alice 0)) :=
  ⟨by decide +kernel, approvals_kept tables
    (Reached.foldl (pairs 0 alice 0) .start (by decide +kernel)) (by decide +kernel)⟩

private def bob : List Char := ['b', 'o', 'b']

private def requested : List Section :=
  .start (.upsertRequest bob none) :: List.replicate 6 (.proceed 0 (draws 1 100))

/-- The file of allowed senders cannot be opened when the request has been removed. -/
private def cutShort : List Section :=
  .start (.approve (randomCode fun _ => ⟨1, by decide⟩)) ::
    List.replicate 7 (.proceed 1 (draws 1 100)) ++ [.proceed 1 { draws 1 100 with succeeds := false }]

/-- The next approval takes the place of the first one; and a request is lost when its approval is cut
short. -/
theorem approval_lost :
    (AllowedAlong (PairingWorld.step tables) InTurn PairingWorld.new (pairs 0 alice 0 ++ pairs 2 bob 1) ∧
      Approved (PairingWorld.run tables (pairs 0 alice 0 ++ pairs 2 bob 1)).calls alice ∧
      (PairingWorld.run tables (pairs 0 alice 0 ++ pairs 2 bob 1)).Settled ∧
      senderAllowed tables (PairingWorld.run tables (pairs 0 alice 0 ++ pairs 2 bob 1)).channel.allowed
        alice none = false) ∧
    (AllowedAlong (PairingWorld.step tables) InTurn PairingWorld.new (requested ++ cutShort) ∧
      (PairingWorld.run tables (requested ++ cutShort)).Settled ∧
      ∃ r ∈ (PairingWorld.run tables requested).channel.stored,
        r ∉ (PairingWorld.run tables (requested ++ cutShort)).channel.stored ∧
          isExpired r (PairingWorld.run tables (requested ++ cutShort)).clock = false ∧
          r.id ∉ (PairingWorld.run tables (requested ++ cutShort)).channel.allowed) := by
  decide +kernel

end Gyre.Pairing
