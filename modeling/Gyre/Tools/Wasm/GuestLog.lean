/- digest: The messages a WASM guest logs: what is stored of them, and when storing one panics. -/

import Gyre.Lib.ByteSlices
import Gyre.Lib.Intake
import Gyre.Tools.Wasm.Wrapper

set_option autoImplicit false
set_option relaxedAutoImplicit false

namespace Gyre.Tools.Wasm

open Gyre.Lib

/-- Maximum log entries per execution. -/
def maxLogEntries : Nat := 1000

/-- Maximum bytes per log message. -/
def maxLogMessageBytes : Nat := 4096

/-- Log levels matching the WIT interface. -/
inductive LogLevel where
  | trace
  | debug
  | info
  | warn
  | error
  deriving DecidableEq, Repr

def LogLevel.display : LogLevel → String
  | .trace => "TRACE"
  | .debug => "DEBUG"
  | .info => "INFO"
  | .warn => "WARN"
  | .error => "ERROR"

def truncationMark : List Char := "... (truncated)".toList

/-- A message that is too long is cut at the limit, which panics inside of a character. -/
def truncateMessage (limit : Nat) (message : List Char) : Option (List Char) :=
  if limit < Text.byteLen message then
    (Text.slice 0 limit message).map fun truncated => truncated ++ truncationMark
  else some message

/-- The part of `HostState` that logging touches: the entries, whether logging is enabled, and the
number of messages dropped. -/
abbrev GuestLogs : Type := Intake LogEntry

/-- The entry that is stored of a message. -/
def logEntry (message : LogLevel × List Char) : Option LogEntry :=
  (truncateMessage maxLogMessageBytes message.2).map (LogEntry.mk message.1.display)

/-- `HostState::log`. -/
def log (logs : GuestLogs) (message : LogLevel × List Char) : Option GuestLogs :=
  logs.offer maxLogEntries logEntry message

/-- The message fits, or the limit does not lie inside of one of its characters. -/
def Cuttable (limit : Nat) (message : List Char) : Prop :=
  Text.byteLen message ≤ limit ∨ Text.IsBoundary message limit

/-- What is stored of a message: all of it if it fits, and otherwise a part within the limit and the
mark. -/
def StoredAs (limit : Nat) (message stored : List Char) : Prop :=
  (Text.byteLen message ≤ limit ∧ stored = message) ∨
    ∃ front, front <+: message ∧ Text.byteLen front ≤ limit ∧ stored = front ++ truncationMark

/-- The logs of an execution after some messages. -/
def LogsHandled (messages : List (LogLevel × List Char)) (logs : GuestLogs) : Prop :=
  logs.Holds maxLogEntries
    (fun m entry => entry.level = m.1.display ∧ StoredAs maxLogMessageBytes m.2 entry.message) messages

section Storing

variable {limit : Nat} {message : List Char}

theorem truncateMessage_isSome_iff :
    (truncateMessage limit message).isSome = true ↔ Cuttable limit message := by
  rw [truncateMessage]
  split
  next hlong =>
    rw [Option.isSome_map]
    constructor
    · intro h
      obtain ⟨piece, hpiece⟩ := Option.isSome_iff_exists.mp h
      obtain ⟨front, back, hmessage, hfront, hlen⟩ := Text.slice_eq_some hpiece
      refine .inr ⟨front ++ piece, back, hmessage, ?_⟩
      rw [Text.byteLen_append]
      exact hlen
    · rintro (hfits | hboundary)
      · omega
      · obtain ⟨piece, hpiece⟩ :=
          Text.slice_of_isBoundary (Nat.zero_le limit) (Text.isBoundary_zero message) hboundary
        rw [hpiece]
        rfl
  next hfits => exact iff_of_true rfl (.inl (by omega))

theorem storedAs_truncateMessage {stored : List Char} (h : truncateMessage limit message = some stored) :
    StoredAs limit message stored := by
  rw [truncateMessage] at h
  split at h
  · obtain ⟨piece, hpiece, rfl⟩ := Option.map_eq_some_iff.mp h
    obtain ⟨front, back, hmessage, hfront, hlen⟩ := Text.slice_eq_some hpiece
    have hnone : front = [] := by
      cases front with
      | nil => rfl
      | cons c front =>
        have hpos := c.utf8Size_pos
        rw [Text.byteLen_cons] at hfront
        omega
    subst hnone
    refine .inr ⟨piece, ⟨back, by rw [hmessage]; rfl⟩, ?_, rfl⟩
    omega
  next hfits =>
    cases h
    exact .inl ⟨by omega, rfl⟩

end Storing

/-- An execution's messages are logged without a panic, and as they should be, exactly if each one
that is not dropped fits or is not cut inside of a character. -/
theorem logs_handled_iff (messages : List (LogLevel × List Char)) :
    (∃ logs, messages.foldlM log Intake.empty = some logs ∧ LogsHandled messages logs) ↔
      ∀ m ∈ messages.take maxLogEntries, Cuttable maxLogMessageBytes m.2 := by
  have hentry (m : LogLevel × List Char) :
      (logEntry m).isSome = true ↔ Cuttable maxLogMessageBytes m.2 := by
    rw [logEntry, Option.isSome_map, truncateMessage_isSome_iff]
  have hkept : ∀ m entry, logEntry m = some entry →
      entry.level = m.1.display ∧ StoredAs maxLogMessageBytes m.2 entry.message := by
    intro m entry hm
    obtain ⟨text, htext, rfl⟩ := Option.map_eq_some_iff.mp hm
    exact ⟨rfl, storedAs_truncateMessage htext⟩
  have hiff := Intake.offerAll_holds_iff maxLogEntries logEntry hkept messages
  simp only [hentry] at hiff
  exact hiff

end Gyre.Tools.Wasm
