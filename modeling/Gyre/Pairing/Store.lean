/- digest: The pairing store of a channel: pending requests, wrong codes and allowed senders, file by file. -/

import Gyre.Lib.Text
import Gyre.Llm.Value

/-!
Calls of any number of processes take turns, one file operation at a time; each may fail. A lock is
held on an open file, and keeps nobody from reading it, or from opening it with truncation.
-/

set_option autoImplicit false
set_option relaxedAutoImplicit false

namespace Gyre.Pairing

open Gyre.Lib
open Gyre.Llm (Json)

def pairingCodeLength : Nat := 8

def pairingAlphabet : List Char :=
  ['A', 'B', 'C', 'D', 'E', 'F', 'G', 'H', 'J', 'K', 'L', 'M', 'N', 'P', 'Q', 'R', 'S', 'T', 'U', 'V',
    'W', 'X', 'Y', 'Z', '2', '3', '4', '5', '6', '7', '8', '9']

def pairingPendingTtlSecs : Nat := 15 * 60

def pairingPendingMax : Nat := 3

def pairingApproveRateLimit : Nat := 10

def pairingApproveRateWindowSecs : Nat := 5 * 60

inductive PairingStoreError where
  | invalidChannel (reason : String)
  | io
  | approveRateLimited
  deriving DecidableEq, Repr

/-- A pending request; its times are seconds, which `now_iso` and `parse_timestamp` write and read. -/
structure PairingRequest where
  id : List Char
  code : List Char
  createdAt : Nat
  lastSeenAt : Nat
  metadata : Option Json
  deriving DecidableEq, Repr

def isExpired (req : PairingRequest) (nowSecs : Nat) : Bool :=
  pairingPendingTtlSecs < nowSecs - req.createdAt

/-- The characters drawn for a code. -/
abbrev Draw := Fin pairingCodeLength → Fin pairingAlphabet.length

def randomCode (draw : Draw) : List Char := List.ofFn fun i => pairingAlphabet.get (draw i)

/-- What `generate_unique_code` draws: codes, and the code and the number of its last resort. -/
structure Draws where
  codes : List Draw
  last : Draw
  number : Fin 10000

/-- `{:04}`. -/
def fourDigits (n : Fin 10000) : List Char :=
  [n.val / 1000, n.val / 100 % 10, n.val / 10 % 10, n.val % 10].map Nat.digitChar

def generateUniqueCode (existing : List (List Char)) (draws : Draws) : List Char :=
  match ((draws.codes.take 500).map randomCode).find? fun code => !existing.contains code with
  | some code => code
  | none => randomCode draws.last ++ fourDigits draws.number

/-- What a file holds. -/
inductive Content (α : Type) where
  | missing
  /-- Nothing that parses: it is empty, or cut off. -/
  | unreadable
  | parsed (value : α)
  deriving DecidableEq, Repr

namespace Content

variable {α : Type}

def getD (default : α) : Content α → α
  | parsed value => value
  | missing | unreadable => default

/-- An open with `create(true)`. -/
def create : Content α → Content α
  | missing => unreadable
  | content => content

@[simp] theorem getD_create (content : Content α) (default : α) :
    content.create.getD default = content.getD default := by
  cases content <;> rfl

end Content

/-- What calls work on: the files, and which call holds the lock of each. -/
structure Channel where
  pairing : Content (List PairingRequest)
  allowFrom : Content (List (List Char))
  approveAttempts : Content (List Nat)
  pairingLock : Option Nat
  allowFromLock : Option Nat
  attemptsLock : Option Nat
  deriving DecidableEq

namespace Channel

def new : Channel := ⟨.missing, .missing, .missing, none, none, none⟩

/-- The requests that the file of pending requests holds. -/
def stored (c : Channel) : List PairingRequest := c.pairing.getD []

def allowed (c : Channel) : List (List Char) := c.allowFrom.getD []

def failedAt (c : Channel) : List Nat := c.approveAttempts.getD []

/-- A call closes its files. -/
def release (c : Channel) (call : Nat) : Channel :=
  let drop (lock : Option Nat) : Option Nat := if lock = some call then none else lock
  { c with
    pairingLock := drop c.pairingLock
    allowFromLock := drop c.allowFromLock
    attemptsLock := drop c.attemptsLock }

@[simp] theorem stored_release (c : Channel) (call : Nat) : (c.release call).stored = c.stored := rfl

@[simp] theorem allowed_release (c : Channel) (call : Nat) : (c.release call).allowed = c.allowed := rfl

@[simp] theorem failedAt_release (c : Channel) (call : Nat) : (c.release call).failedAt = c.failedAt :=
  rfl

end Channel

inductive Answer where
  | pending (requests : List PairingRequest)
  | upserted (code : List Char) (created : Bool)
  | approved (entry : Option PairingRequest)
  | allowFrom (entries : List (List Char))
  | allowed (allowed : Bool)
  deriving DecidableEq, Repr

inductive Operation where
  | listPending
  | upsertRequest (id : List Char) (metadata : Option Json)
  | approve (code : List Char)
  | readAllowFrom
  | isSenderAllowed (id : List Char) (username : Option (List Char))
  deriving DecidableEq, Repr

/-- For whom the file of pending requests is written. -/
inductive Writer where
  | list
  | upsert (code : List Char) (created : Bool)
  | approve (entry : PairingRequest)
  deriving DecidableEq, Repr

/-- The stages of `write_pairing_file_locked`, and the unlocking after it. -/
inductive WriteStage where
  | setLen
  | writeAll
  | finish
  deriving DecidableEq, Repr

inductive Phase where
  | listRead
  /-- About to open the file with truncation. -/
  | listOpen (requests : List PairingRequest)
  | listLock (requests : List PairingRequest)
  | upsertOpen (id : List Char) (metadata : Option Json)
  | upsertLock (id : List Char) (metadata : Option Json)
  | upsertRead (id : List Char) (metadata : Option Json)
  | upsertUnlock (reply : Except PairingStoreError Answer)
  /-- `is_approve_rate_limited`. -/
  | approveCheck (code : List Char)
  | approveOpen (code : List Char)
  | approveLock (code : List Char)
  | approveRead (code : List Char)
  | approveUnlock
  | recordOpen
  | recordLock
  | recordRead
  | recordTruncate (failedAt : List Nat)
  | recordWrite (failedAt : List Nat)
  | recordUnlock
  | write (stage : WriteStage) (requests : List PairingRequest) (writer : Writer)
  | allowOpen (entry : PairingRequest)
  | allowLock (entry : PairingRequest)
  | allowRead (entry : PairingRequest)
  | allowTruncate (entries : List (List Char)) (entry : PairingRequest)
  | allowWrite (entries : List (List Char)) (entry : PairingRequest)
  | allowUnlock (entry : PairingRequest)
  | readAllow
  | readSender (id : List Char) (username : Option (List Char))
  | returned (reply : Except PairingStoreError Answer)
  deriving DecidableEq

/-- What a file operation meets. -/
structure Encounter where
  succeeds : Bool
  nowSecs : Nat
  draws : Draws

section Calls

variable (u : Text.Unicode)

/-- The sort of `list_pending`. -/
def sortPending (requests : List PairingRequest) : List PairingRequest :=
  requests.mergeSort fun a b => a.createdAt ≤ b.createdAt

def senderAllowed (allow : List (List Char)) (id : List Char) (username : Option (List Char)) : Bool :=
  allow.any (fun e => Text.trim e == Text.trim id) ||
    match username with
    | none => false
    | some username =>
      let name := u.lowercase (Text.trim username)
      let norm := if ['@'].isPrefixOf name then name.drop 1 else name
      allow.any fun e => u.lowercase (Text.trim e) == name || u.lowercase (Text.trim e) == '@' :: norm

/-- The failures within the window. -/
def recentFailures (failedAt : List Nat) (nowSecs : Nat) : List Nat :=
  failedAt.filter fun t => nowSecs - pairingApproveRateWindowSecs ≤ t

/-- What `upsert_request` makes of the requests it has read. -/
def upsert (stored : List PairingRequest) (id : List Char) (metadata : Option Json) (env : Encounter) :
    Phase :=
  let id := Text.trim id
  if id = [] then .upsertUnlock (.error (.invalidChannel "empty id"))
  else
    let requests := stored.filter fun r => !isExpired r env.nowSecs
    let existingCodes := requests.map fun r => u.uppercase r.code
    match requests.find? fun r => r.id == id with
    | some req =>
      let code := if req.code = [] then generateUniqueCode existingCodes env.draws else req.code
      let seen : PairingRequest :=
        { req with lastSeenAt := env.nowSecs, code := code, metadata := metadata.or req.metadata }
      .write .setLen (requests.replace req seen) (.upsert code false)
    | none =>
      if pairingPendingMax ≤ requests.length then .upsertUnlock (.ok (.upserted [] false))
      else
        let code := generateUniqueCode existingCodes env.draws
        .write .setLen (requests ++ [⟨id, code, env.nowSecs, env.nowSecs, metadata⟩]) (.upsert code true)

/-- What `approve` makes of the requests it has read. -/
def takeApproved (stored : List PairingRequest) (code : List Char) (nowSecs : Nat) : Phase :=
  let requests := stored.filter fun r => !isExpired r nowSecs
  match requests.find? fun r => u.uppercase r.code == code with
  | some entry => .write .setLen (requests.erase entry) (.approve entry)
  | none => .approveUnlock

/-- What follows when the file of pending requests has been written and unlocked; `add_allow_from` does
nothing for an empty id. -/
def afterWrite (requests : List PairingRequest) : Writer → Phase
  | .list => .returned (.ok (.pending (sortPending requests)))
  | .upsert code created => .returned (.ok (.upserted code created))
  | .approve entry =>
    if Text.trim entry.id = [] then .returned (.ok (.approved (some entry))) else .allowOpen entry

/-- Where a call begins. -/
def begin : Operation → Phase
  | .listPending => .listRead
  | .upsertRequest id metadata => .upsertOpen id metadata
  | .approve code =>
    let code := u.uppercase (Text.trim code)
    if code = [] then .returned (.ok (.approved none)) else .approveCheck code
  | .readAllowFrom => .readAllow
  | .isSenderAllowed id username => .readSender id username

/-- What happens when a file operation of a call succeeds; a lock that someone else holds is waited for. -/
def succeed (c : Channel) (call : Nat) (env : Encounter) : Phase → Channel × Phase
  | .listRead =>
    let requests := c.stored.filter fun r => !isExpired r env.nowSecs
    if requests.length = c.stored.length then (c, .returned (.ok (.pending (sortPending requests))))
    else (c, .listOpen requests)
  | .listOpen requests => ({ c with pairing := .unreadable }, .listLock requests)
  | .listLock requests =>
    if c.pairingLock = none then ({ c with pairingLock := some call }, .write .setLen requests .list)
    else (c, .listLock requests)
  | .upsertOpen id metadata => ({ c with pairing := c.pairing.create }, .upsertLock id metadata)
  | .upsertLock id metadata =>
    if c.pairingLock = none then ({ c with pairingLock := some call }, .upsertRead id metadata)
    else (c, .upsertLock id metadata)
  | .upsertRead id metadata => (c, upsert u c.stored id metadata env)
  | .upsertUnlock reply => (c.release call, .returned reply)
  | .approveCheck code =>
    if pairingApproveRateLimit ≤ (recentFailures c.failedAt env.nowSecs).length then
      (c, .returned (.error .approveRateLimited))
    else (c, .approveOpen code)
  | .approveOpen code =>
    if c.pairing = .missing then (c, .returned (.error (.invalidChannel "no pairing file")))
    else (c, .approveLock code)
  | .approveLock code =>
    if c.pairingLock = none then ({ c with pairingLock := some call }, .approveRead code)
    else (c, .approveLock code)
  | .approveRead code => (c, takeApproved u c.stored code env.nowSecs)
  | .approveUnlock => (c.release call, .recordOpen)
  | .recordOpen => ({ c with approveAttempts := c.approveAttempts.create }, .recordLock)
  | .recordLock =>
    if c.attemptsLock = none then ({ c with attemptsLock := some call }, .recordRead)
    else (c, .recordLock)
  | .recordRead => (c, .recordTruncate (recentFailures (c.failedAt ++ [env.nowSecs]) env.nowSecs))
  | .recordTruncate failedAt => ({ c with approveAttempts := .unreadable }, .recordWrite failedAt)
  | .recordWrite failedAt => ({ c with approveAttempts := .parsed failedAt }, .recordUnlock)
  | .recordUnlock => (c.release call, .returned (.ok (.approved none)))
  | .write .setLen requests writer => ({ c with pairing := .unreadable }, .write .writeAll requests writer)
  | .write .writeAll requests writer =>
    ({ c with pairing := .parsed requests }, .write .finish requests writer)
  | .write .finish requests writer => (c.release call, afterWrite requests writer)
  | .allowOpen entry => ({ c with allowFrom := .unreadable }, .allowLock entry)
  | .allowLock entry =>
    if c.allowFromLock = none then ({ c with allowFromLock := some call }, .allowRead entry)
    else (c, .allowLock entry)
  | .allowRead entry =>
    let name := Text.trim entry.id
    if c.allowed.any fun e => u.lowercase e == u.lowercase name then (c, .allowUnlock entry)
    else (c, .allowTruncate (c.allowed ++ [name]) entry)
  | .allowTruncate entries entry => ({ c with allowFrom := .unreadable }, .allowWrite entries entry)
  | .allowWrite entries entry => ({ c with allowFrom := .parsed entries }, .allowUnlock entry)
  | .allowUnlock entry => (c.release call, .returned (.ok (.approved (some entry))))
  | .readAllow => (c, .returned (.ok (.allowFrom c.allowed)))
  | .readSender id username => (c, .returned (.ok (.allowed (senderAllowed u c.allowed id username))))
  | .returned reply => (c, .returned reply)

/-- A file that cannot be read under its lock is taken to hold nothing; a write that fails leaves
something cut off; any other failure is returned as it is. -/
def fail (c : Channel) (call : Nat) (env : Encounter) : Phase → Channel × Phase
  | .upsertRead id metadata => (c, upsert u [] id metadata env)
  | .approveRead code => (c, takeApproved u [] code env.nowSecs)
  | .recordRead => (c, .recordTruncate (recentFailures [env.nowSecs] env.nowSecs))
  | .allowRead entry => (c, .allowTruncate [Text.trim entry.id] entry)
  | .returned reply => (c, .returned reply)
  | _ => (c.release call, .returned (.error .io))

/-- What a failure comes to: the call returns, or goes on with the files as they are. -/
theorem fail_cases (c : Channel) (call : Nat) (env : Encounter) (phase : Phase) :
    (∀ reply, phase ≠ .returned reply) ∧
        fail u c call env phase = (c.release call, .returned (.error .io)) ∨
      (fail u c call env phase).1 = c ∧
        ((∃ id metadata, phase = .upsertRead id metadata) ∨ (∃ code, phase = .approveRead code) ∨
          phase = .recordRead ∨ (∃ entry, phase = .allowRead entry) ∨ ∃ reply, phase = .returned reply) := by
  cases phase with
  | upsertRead id metadata => exact .inr ⟨rfl, .inl ⟨id, metadata, rfl⟩⟩
  | approveRead code => exact .inr ⟨rfl, .inr (.inl ⟨code, rfl⟩)⟩
  | recordRead => exact .inr ⟨rfl, .inr (.inr (.inl rfl))⟩
  | allowRead entry => exact .inr ⟨rfl, .inr (.inr (.inr (.inl ⟨entry, rfl⟩)))⟩
  | returned reply => exact .inr ⟨rfl, .inr (.inr (.inr (.inr ⟨reply, rfl⟩)))⟩
  | _ => exact .inl ⟨by simp, rfl⟩

def advance (c : Channel) (call : Nat) (env : Encounter) (phase : Phase) : Channel × Phase :=
  if env.succeeds then succeed u c call env phase else fail u c call env phase

end Calls

structure Call where
  operation : Operation
  phase : Phase
  /-- When it was found to give a wrong code. -/
  missedAt : Option Nat
  deriving DecidableEq

structure PairingWorld where
  channel : Channel
  calls : List Call
  /-- The latest time that any call has read. -/
  clock : Nat
  deriving DecidableEq

inductive Section where
  | start (operation : Operation)
  | proceed (call : Nat) (env : Encounter)

/-- A call after a file operation. -/
def Call.next (c : Call) (nowSecs : Nat) (phase : Phase) : Call where
  operation := c.operation
  phase := phase
  missedAt :=
    match c.phase, phase with
    | .approveRead _, .approveUnlock => some nowSecs
    | _, _ => c.missedAt

@[simp] theorem Call.phase_next (c : Call) (nowSecs : Nat) (phase : Phase) :
    (c.next nowSecs phase).phase = phase := rfl

@[simp] theorem Call.operation_next (c : Call) (nowSecs : Nat) (phase : Phase) :
    (c.next nowSecs phase).operation = c.operation := rfl

namespace PairingWorld

def new : PairingWorld := ⟨Channel.new, [], 0⟩

def step (u : Text.Unicode) (w : PairingWorld) : Section → PairingWorld
  | .start operation => { w with calls := w.calls ++ [⟨operation, begin u operation, none⟩] }
  | .proceed call env =>
    match w.calls[call]? with
    | none => w
    | some c =>
      let next := advance u w.channel call env c.phase
      ⟨next.1, w.calls.set call (c.next env.nowSecs next.2), max w.clock env.nowSecs⟩

def run (u : Text.Unicode) (sections : List Section) : PairingWorld := sections.foldl (step u) new

theorem step_proceed {u : Text.Unicode} {w : PairingWorld} {call : Nat} {c : Call} (env : Encounter)
    (hc : w.calls[call]? = some c) :
    w.step u (.proceed call env) =
      ⟨(advance u w.channel call env c.phase).1,
        w.calls.set call (c.next env.nowSecs (advance u w.channel call env c.phase).2),
        max w.clock env.nowSecs⟩ := by
  simp only [step, hc]

theorem step_absent {u : Text.Unicode} {w : PairingWorld} {call : Nat} (env : Encounter)
    (hc : w.calls[call]? = none) : w.step u (.proceed call env) = w := by
  simp only [step, hc]

/-- When one call is replaced, the others are as they were. -/
theorem lookup_set {calls : List Call} {call other : Nat} {next c : Call}
    (h : (calls.set call next)[other]? = some c) :
    (other = call ∧ c = next) ∨ (other ≠ call ∧ calls[other]? = some c) := by
  by_cases heq : call = other
  · subst heq
    have hlt : call < calls.length := by
      have hlen := (List.getElem?_eq_some_iff.mp h).1
      simpa using hlen
    rw [List.getElem?_set_self hlt] at h
    exact .inl ⟨rfl, (Option.some.inj h).symm⟩
  · rw [List.getElem?_set_ne heq] at h
    exact .inr ⟨Ne.symm heq, h⟩

/-- When a call is added, the others are as they were. -/
theorem lookup_concat {calls : List Call} {other : Nat} {next c : Call}
    (h : (calls ++ [next])[other]? = some c) : calls[other]? = some c ∨ c = next := by
  rcases Nat.lt_or_ge other calls.length with hlt | hge
  · rw [List.getElem?_append_left hlt] at h
    exact .inl h
  · rw [List.getElem?_append_right hge, List.getElem?_singleton] at h
    split_ifs at h
    exact .inr (Option.some.inj h).symm

end PairingWorld

theorem mem_replace_of_ne {requests : List PairingRequest} {old new r : PairingRequest}
    (h : r ∈ requests) (hne : r ≠ old) : r ∈ requests.replace old new := by
  induction requests with
  | nil => exact absurd h (List.not_mem_nil)
  | cons first rest ih =>
    rw [List.replace_cons]
    split
    · next hfirst =>
      have hold : old = first := by simpa using hfirst
      rcases List.mem_cons.mp h with rfl | hrest
      · exact absurd hold.symm hne
      · exact List.mem_cons_of_mem new hrest
    · rcases List.mem_cons.mp h with rfl | hrest
      · exact List.mem_cons_self ..
      · exact List.mem_cons_of_mem first (ih hrest)

theorem mem_replace_self {requests : List PairingRequest} {old new : PairingRequest}
    (h : old ∈ requests) : new ∈ requests.replace old new := by
  induction requests with
  | nil => exact absurd h (List.not_mem_nil)
  | cons first rest ih =>
    rw [List.replace_cons]
    split
    · exact List.mem_cons_self ..
    · next hfirst =>
      have hne : old ≠ first := by simpa using hfirst
      rcases List.mem_cons.mp h with heq | hrest
      · exact absurd heq hne
      · exact List.mem_cons_of_mem first (ih hrest)

theorem mem_or_eq_of_mem_replace {requests : List PairingRequest} {old new r : PairingRequest}
    (h : r ∈ requests.replace old new) : r ∈ requests ∨ r = new := by
  obtain ⟨i, hi, rfl⟩ := List.mem_iff_getElem.mp h
  have hlen : i < requests.length := by simpa using hi
  rw [List.getElem_replace hlen]
  split_ifs with hold htake
  · exact .inl (List.mem_of_mem_take htake)
  · exact .inr rfl
  · exact .inl (List.getElem_mem hlen)

end Gyre.Pairing
