/- digest: Exactly when a WASM channel's messages and logs are taken in without a panic. -/

import Gyre.Channels.Wasm.Host
import Gyre.Tools.Wasm.GuestLog

/-!
Messages are cut at a byte limit, wherever that lies. Once an execution has stored as many messages as
it may, the others are dropped unseen, so only the first ones can panic.
-/

set_option autoImplicit false
set_option relaxedAutoImplicit false

namespace Gyre.Channels.Wasm

open Gyre.Lib Gyre.Tools.Wasm

/-- Maximum emitted messages per callback execution. -/
def maxEmitsPerExecution : Nat := 100

/-- Maximum message content size (64 KB). -/
def maxMessageContentSize : Nat := 64 * 1024

/-- A message emitted by a WASM channel to be sent to the agent. -/
structure EmittedMessage where
  userId : String
  userName : Option String
  content : List Char
  threadId : Option String
  metadataJson : String
  emittedAtMillis : Nat
  deriving DecidableEq, Repr

/-- The part of `ChannelHostState` that emitting and logging touch. -/
structure ChannelHostState where
  base : GuestLogs
  emits : Intake EmittedMessage
  emitCount : Nat
  deriving DecidableEq

namespace ChannelHostState

def new : ChannelHostState := ⟨.empty, .empty, 0⟩

end ChannelHostState

/-- The message that is queued for a message. -/
def queuedMessage (msg : EmittedMessage) : Option EmittedMessage :=
  (truncateMessage maxMessageContentSize msg.content).map fun content => { msg with content }

/-- `emit_message`. -/
def emitMessage (s : ChannelHostState) (msg : EmittedMessage) : Option ChannelHostState :=
  if !s.emits.enabled then some { s with emits := { s.emits with dropped := s.emits.dropped + 1 } }
  else if maxEmitsPerExecution ≤ s.emits.entries.length then
    some { s with emits := { s.emits with enabled := false, dropped := s.emits.dropped + 1 } }
  else
    (queuedMessage msg).map fun queued =>
      { s with
        emits := { s.emits with entries := s.emits.entries ++ [queued] }
        emitCount := s.emitCount + 1 }

/-- What a guest does with its host in one execution. -/
inductive GuestCall where
  | log (message : LogLevel × List Char)
  | emit (msg : EmittedMessage)

def guestStep (s : ChannelHostState) : GuestCall → Option ChannelHostState
  | .log message => (log s.base message).map fun base => { s with base := base }
  | .emit msg => emitMessage s msg

/-- The messages a guest logs. -/
def logged (calls : List GuestCall) : List (LogLevel × List Char) :=
  calls.filterMap fun
    | .log message => some message
    | .emit _ => none

/-- The messages a guest emits. -/
def emitted (calls : List GuestCall) : List EmittedMessage :=
  calls.filterMap fun
    | .log _ => none
    | .emit msg => some msg

/-- The host after some calls of a guest. -/
structure CallsHandled (calls : List GuestCall) (s : ChannelHostState) : Prop where
  logs : LogsHandled (logged calls) s.base
  emits : s.emits.Holds maxEmitsPerExecution
    (fun msg queued => queued = { msg with content := queued.content } ∧
      StoredAs maxMessageContentSize msg.content queued.content) (emitted calls)
  counted : s.emitCount = s.emits.entries.length

section Runs

/-- Emitting offers the message to the queue, and the count is the queue's length. -/
theorem emitMessage_eq {s : ChannelHostState} (hcount : s.emitCount = s.emits.entries.length)
    (msg : EmittedMessage) :
    emitMessage s msg =
      (s.emits.offer maxEmitsPerExecution queuedMessage msg).map fun emits =>
        ⟨s.base, emits, emits.entries.length⟩ := by
  obtain ⟨base, emits, emitCount⟩ := s
  dsimp only at hcount
  subst hcount
  rw [emitMessage, Intake.offer]
  split
  · rfl
  · split
    · rfl
    · cases queuedMessage msg with
      | none => rfl
      | some queued => simp

/-- The two lists of a host do not see each other. -/
theorem guestRun_eq (calls : List GuestCall) {s : ChannelHostState}
    (hcount : s.emitCount = s.emits.entries.length) :
    calls.foldlM guestStep s =
      ((logged calls).foldlM log s.base).bind fun base =>
        (Intake.offerAll maxEmitsPerExecution queuedMessage s.emits (emitted calls)).map fun emits =>
          ⟨base, emits, emits.entries.length⟩ := by
  induction calls generalizing s with
  | nil =>
    obtain ⟨base, emits, emitCount⟩ := s
    dsimp only at hcount
    subst hcount
    rfl
  | cons call rest ih =>
    rw [List.foldlM_cons]
    cases call with
    | log message =>
      have hlogged : logged (.log message :: rest) = message :: logged rest := rfl
      have hemitted : emitted (.log message :: rest) = emitted rest := rfl
      rw [hlogged, hemitted, List.foldlM_cons, guestStep]
      cases log s.base message with
      | none => rfl
      | some base => exact ih (s := { s with base := base }) hcount
    | emit msg =>
      have hlogged : logged (.emit msg :: rest) = logged rest := rfl
      have hemitted : emitted (.emit msg :: rest) = msg :: emitted rest := rfl
      rw [hlogged, hemitted, guestStep, emitMessage_eq hcount, Intake.offerAll, List.foldlM_cons]
      cases s.emits.offer maxEmitsPerExecution queuedMessage msg with
      | none =>
        cases (logged rest).foldlM log s.base <;> rfl
      | some emits => exact ih (s := ⟨s.base, emits, emits.entries.length⟩) rfl

end Runs

/-- The messages that are not dropped fit or are not cut inside of a character: those a guest logs and
those it emits. -/
def AllCuttable (calls : List GuestCall) : Prop :=
  (∀ m ∈ (logged calls).take maxLogEntries, Cuttable maxLogMessageBytes m.2) ∧
    ∀ msg ∈ (emitted calls).take maxEmitsPerExecution, Cuttable maxMessageContentSize msg.content

/-- A guest's messages are handled without a panic, and as they should be, exactly if each one that is
not dropped fits or is not cut inside of a character: those a tool logs in one execution, and those a
channel logs and emits, in any order. -/
theorem messages_handled_iff (messages : List (LogLevel × List Char)) (calls : List GuestCall) :
    ((∃ logs, messages.foldlM log Intake.empty = some logs ∧ LogsHandled messages logs) ↔
        ∀ m ∈ messages.take maxLogEntries, Cuttable maxLogMessageBytes m.2) ∧
      ((∃ s, calls.foldlM guestStep .new = some s ∧ CallsHandled calls s) ↔ AllCuttable calls) := by
  refine ⟨logs_handled_iff messages, ?_⟩
  have hlogs := logs_handled_iff (logged calls)
  have hqueued (msg : EmittedMessage) :
      (queuedMessage msg).isSome = true ↔ Cuttable maxMessageContentSize msg.content := by
    rw [queuedMessage, Option.isSome_map, truncateMessage_isSome_iff]
  have hkept : ∀ msg queued, queuedMessage msg = some queued →
      queued = { msg with content := queued.content } ∧
        StoredAs maxMessageContentSize msg.content queued.content := by
    intro msg queued hm
    obtain ⟨content, hcontent, rfl⟩ := Option.map_eq_some_iff.mp hm
    exact ⟨rfl, storedAs_truncateMessage hcontent⟩
  have hemits := Intake.offerAll_holds_iff maxEmitsPerExecution queuedMessage hkept (emitted calls)
  simp only [hqueued] at hemits
  rw [AllCuttable, ← hlogs, ← hemits, guestRun_eq calls (s := .new) rfl]
  constructor
  · rintro ⟨s, hs, hhandled⟩
    obtain ⟨base, hbase, hmap⟩ := Option.bind_eq_some_iff.mp hs
    obtain ⟨emits, hemitted, rfl⟩ := Option.map_eq_some_iff.mp hmap
    exact ⟨⟨base, hbase, hhandled.logs⟩, emits, hemitted, hhandled.emits⟩
  · rintro ⟨⟨base, hbase, hkept⟩, emits, hemitted, hheld⟩
    have hnew : (ChannelHostState.new).base = Intake.empty := rfl
    have hnew' : (ChannelHostState.new).emits = Intake.empty := rfl
    exact ⟨⟨base, emits, emits.entries.length⟩, by rw [hnew, hnew', hbase, hemitted]; rfl, hkept, hheld, rfl⟩

/-- A log message of two-byte characters behind a single byte. -/
private def accented : LogLevel × List Char := (.info, 'a' :: List.replicate 2048 'é')

theorem accented_log_panics : [accented].foldlM log Intake.empty = none ∧
    ¬ ∃ s, [GuestCall.log accented].foldlM guestStep .new = some s ∧ CallsHandled [.log accented] s := by
  have hnone : [accented].foldlM log Intake.empty = none := by decide +kernel
  refine ⟨hnone, ?_⟩
  rintro ⟨s, hs, -⟩
  rw [guestRun_eq _ rfl] at hs
  obtain ⟨base, hbase, -⟩ := Option.bind_eq_some_iff.mp hs
  have hlogged : logged [GuestCall.log accented] = [accented] := rfl
  have hnew : (ChannelHostState.new).base = Intake.empty := rfl
  rw [hlogged, hnew, hnone] at hbase
  cases hbase

end Gyre.Channels.Wasm
