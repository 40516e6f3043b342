/- digest: What compaction writes and asks, and that each removed turn is covered by it. -/

import Gyre.Agent.Compaction

set_option autoImplicit false
set_option relaxedAutoImplicit false

namespace Gyre.Agent

open Gyre.Llm

/-- What compaction uses outside the thread: the model, the workspace's `append` if there is one, and
the clock as it is printed. -/
structure CompactionSystems where
  complete : List ChatMessage → Except String String
  append : Option (String → String → Bool)
  date : String
  time : String

/-- An entry that was appended to a document of the workspace, or failed to be. -/
structure WorkspaceWrite where
  path : String
  entry : String
  written : Bool
  deriving DecidableEq, Repr

structure CompactionRun where
  thread : Thread
  result : Except String CompactionPartial
  writes : List WorkspaceWrite

section Texts

def summaryPrompt : String :=
  "Summarize the following conversation concisely. Focus on:\n" ++
    "- Key decisions made\n- Important information exchanged\n- Actions taken\n" ++
    "- Outcomes achieved\n\nBe brief but capture all important details. Use bullet points."

/-- The messages of some turns. -/
def messagesOf (turns : List Turn) : List ChatMessage :=
  turns.flatMap fun turn =>
    ChatMessage.user turn.userInput ::
      match turn.response with
      | some response => [ChatMessage.assistant response]
      | none => []

/-- A message as a line of the conversation to summarize. -/
def conversationLine (m : ChatMessage) : String :=
  match m.role with
  | .user => s!"User: {m.content}"
  | .assistant => s!"Assistant: {m.content}"
  | .system => s!"System: {m.content}"
  | .tool =>
    let name := m.name.getD "unknown"
    s!"Tool {name}: {m.content}"

def summaryRequest (messages : List ChatMessage) : List ChatMessage :=
  let formatted := "\n\n".intercalate (messages.map conversationLine)
  [.system summaryPrompt, .user s!"Please summarize this conversation:\n\n{formatted}"]

/-- A turn as it is archived. -/
def formatTurn (turn : Turn) : String :=
  let number := turn.turnNumber + 1
  let response := match turn.response with
    | some response => s!"Agent: {response}\n"
    | none => ""
  let tools := if turn.toolCalls.isEmpty then ""
    else "Tools: " ++ ", ".intercalate (turn.toolCalls.map (·.name)) ++ "\n"
  s!"**Turn {number}**\nUser: {turn.userInput}\n" ++ response ++ tools

def formatTurnsForStorage (turns : List Turn) : String :=
  "\n".intercalate (turns.map formatTurn)

end Texts

variable (sys : CompactionSystems)

def generateSummary (messages : List ChatMessage) : Except String String :=
  sys.complete (summaryRequest messages)

def dailyPath : String := s!"daily/{sys.date}.md"

def summaryEntry (summary : String) : String :=
  s!"\n## Context Summary ({sys.time})\n\n{summary}\n"

def contextEntry (content : String) : String :=
  s!"\n## Archived Context ({sys.time})\n\n{content}\n"

/-- Append an entry to the daily document of a workspace. -/
def appendDaily (append : String → String → Bool) (entry : String) : WorkspaceWrite :=
  ⟨dailyPath sys, entry, append (dailyPath sys) entry⟩

def runTruncate (thread : Thread) (keepRecent : Nat) : CompactionRun :=
  ⟨(compactTruncate thread keepRecent).1, .ok (compactTruncate thread keepRecent).2, []⟩

def runWithSummary (thread : Thread) (keepRecent : Nat) : CompactionRun :=
  if thread.turns.length ≤ keepRecent then ⟨thread, .ok .empty, []⟩
  else
    let turnsToRemove := thread.turns.length - keepRecent
    match generateSummary sys (messagesOf (thread.turns.take turnsToRemove)) with
    | .error e => ⟨thread, .error e, []⟩
    | .ok summary =>
      let write := sys.append.map fun append => appendDaily sys append (summaryEntry sys summary)
      ⟨thread.truncateTurns keepRecent,
        .ok ⟨turnsToRemove, (write.map (·.written)).getD false, some summary⟩, write.toList⟩

/-- Without a workspace the thread is truncated to five turns; with one, to ten, whether the archive
could be written or not. -/
def runToWorkspace (thread : Thread) : CompactionRun :=
  match sys.append with
  | none => runTruncate thread 5
  | some append =>
    if thread.turns.length ≤ 10 then ⟨thread, .ok .empty, []⟩
    else
      let turnsToRemove := thread.turns.length - 10
      let content := formatTurnsForStorage (thread.turns.take turnsToRemove)
      let write := appendDaily sys append (contextEntry sys content)
      ⟨thread.truncateTurns 10, .ok ⟨turnsToRemove, write.written, none⟩, [write]⟩

/-- `ContextCompactor::compact`, with what it appends to the workspace. -/
def runCompact (thread : Thread) : CompactionStrategy → CompactionRun
  | .summarize keepRecent => runWithSummary sys thread keepRecent
  | .truncate keepRecent => runTruncate thread keepRecent
  | .moveToWorkspace => runToWorkspace sys thread

/-- The answers that a compaction of the thread gets. -/
def compactionWorld (thread : Thread) : CompactionStrategy → CompactionWorld
  | .summarize keepRecent =>
    let summary := generateSummary sys
      (messagesOf (thread.turns.take (thread.turns.length - keepRecent)))
    ⟨summary, sys.append.map fun append =>
      (appendDaily sys append (summaryEntry sys (summary.toOption.getD ""))).written⟩
  | .truncate _ => ⟨.error "", none⟩
  | .moveToWorkspace =>
    ⟨.error "", sys.append.map fun append => (appendDaily sys append (contextEntry sys
      (formatTurnsForStorage (thread.turns.take (thread.turns.length - 10))))).written⟩

/-- Thread and result are those of the compaction that is given the answers alone. -/
theorem runCompact_eq (thread : Thread) (strategy : CompactionStrategy) :
    ((runCompact sys thread strategy).thread, (runCompact sys thread strategy).result) =
      compact (compactionWorld sys thread strategy) thread strategy := by
  cases strategy with
  | truncate keep => rfl
  | summarize keep =>
    simp only [runCompact, runWithSummary, compact, compactWithSummary, compactionWorld]
    split
    · rfl
    · cases generateSummary sys (messagesOf (thread.turns.take (thread.turns.length - keep))) with
      | error e => rfl
      | ok summary => cases sys.append <;> rfl
  | moveToWorkspace =>
    simp only [runCompact, runToWorkspace, compact, compactToWorkspace, compactionWorld]
    cases sys.append with
    | none => rfl
    | some append =>
      dsimp only [Option.map_some]
      split <;> rfl

section Removal

/-- Turns numbered from zero, otherwise as they were. -/
def renumbered (turns : List Turn) : List Turn :=
  turns.mapIdx fun i turn => { turn with turnNumber := i }

/-- The oldest `n` turns are gone, and nothing else of the thread has changed but the numbers of the
other turns. -/
def RemovesOldest (n : Nat) (before after : Thread) : Prop :=
  if n = 0 then after = before
  else n ≤ before.turns.length ∧ after = { before with turns := renumbered (before.turns.drop n) }

theorem truncateTurns_removes (thread : Thread) (keep : Nat) :
    RemovesOldest (thread.turns.length - keep) thread (thread.truncateTurns keep) := by
  unfold RemovesOldest Thread.truncateTurns
  by_cases hlong : thread.turns.length > keep
  · rw [if_neg (by omega), if_pos hlong]
    exact ⟨Nat.sub_le _ _, rfl⟩
  · rw [if_pos (by omega), if_neg hlong]

theorem RemovesOldest.refl (thread : Thread) : RemovesOldest 0 thread thread := by
  rw [RemovesOldest, if_pos rfl]

theorem compactTruncate_removed (thread : Thread) (keep : Nat) :
    (compactTruncate thread keep).2.turnsRemoved = thread.turns.length - keep := by
  unfold compactTruncate Thread.truncateTurns
  dsimp only
  split
  · rw [List.length_mapIdx, List.length_drop]
    omega
  · omega

/-- The removed turns are covered: by a summary of exactly their conversation that is returned, by
an archive of exactly them that the workspace has taken, or, under truncation, not at all; without a
workspace, archiving is truncation to five turns. -/
def Covers (thread : Thread) (n : Nat) (r : CompactionRun) : CompactionStrategy → Prop
  | .summarize _ => ∃ summary written, r.result = .ok ⟨n, written, some summary⟩ ∧
      generateSummary sys (messagesOf (thread.turns.take n)) = .ok summary
  | .truncate _ => True
  | .moveToWorkspace =>
    match sys.append with
    | none => n + 5 = thread.turns.length
    | some append =>
      append (dailyPath sys) (contextEntry sys (formatTurnsForStorage (thread.turns.take n))) = true →
        ⟨dailyPath sys, contextEntry sys (formatTurnsForStorage (thread.turns.take n)), true⟩ ∈ r.writes

/-- A compaction that fails removes nothing; one that goes through removes as many of the oldest turns
as it reports and covers them. -/
theorem compaction_covers_removed (thread : Thread) (strategy : CompactionStrategy) :
    (∀ e, (runCompact sys thread strategy).result = .error e →
      (runCompact sys thread strategy).thread = thread) ∧
    ∀ p, (runCompact sys thread strategy).result = .ok p →
      RemovesOldest p.turnsRemoved thread (runCompact sys thread strategy).thread ∧
        (0 < p.turnsRemoved →
          Covers sys thread p.turnsRemoved (runCompact sys thread strategy) strategy) := by
  have hnothing (r : CompactionRun) (hr : r = ⟨thread, .ok .empty, []⟩) :
      (∀ e, r.result = .error e → r.thread = thread) ∧
        ∀ p, r.result = .ok p → RemovesOldest p.turnsRemoved thread r.thread ∧
          (0 < p.turnsRemoved → Covers sys thread p.turnsRemoved r strategy) := by
    subst hr
    refine ⟨fun e h => (nomatch h), fun p h => ?_⟩
    cases h
    exact ⟨.refl thread, fun h => absurd h (Nat.lt_irrefl 0)⟩
  cases strategy with
  | truncate keep =>
    refine ⟨fun e h => (nomatch h), fun p h => ?_⟩
    cases h
    rw [compactTruncate_removed]
    exact ⟨truncateTurns_removes thread keep, fun _ => trivial⟩
  | summarize keep =>
    simp only [runCompact, runWithSummary]
    split
    · exact hnothing _ rfl
    · cases hsummary : generateSummary sys
          (messagesOf (thread.turns.take (thread.turns.length - keep))) with
      | error e => exact ⟨fun _ _ => rfl, fun p h => (nomatch h)⟩
      | ok summary =>
        refine ⟨fun e h => (nomatch h), fun p h => ?_⟩
        cases h
        exact ⟨truncateTurns_removes thread keep, fun _ => ⟨summary, _, rfl, hsummary⟩⟩
  | moveToWorkspace =>
    simp only [runCompact, runToWorkspace]
    cases happend : sys.append with
    | none =>
      refine ⟨fun e h => (nomatch h), fun p h => ?_⟩
      cases h
      rw [compactTruncate_removed]
      refine ⟨truncateTurns_removes thread 5, fun hsome => ?_⟩
      unfold Covers
      rw [happend]
      dsimp only
      omega
    | some append =>
      dsimp only
      split
      · exact hnothing _ rfl
      · refine ⟨fun e h => (nomatch h), fun p h => ?_⟩
        cases h
        refine ⟨truncateTurns_removes thread 10, fun _ => ?_⟩
        unfold Covers
        rw [happend]
        intro hwritten
        exact List.mem_singleton.mpr (by rw [appendDaily, hwritten])

end Removal

private def noWorkspace : CompactionSystems := ⟨fun _ => .ok "", none, "2026-01-02", "10:00 UTC"⟩

private def sixTurns : Thread :=
  { Thread.withId (.ofNat 1) (.ofNat 2) with
    turns := (List.range 6).map fun i => Turn.new i "next" }

/-- Without a workspace the oldest of six turns is gone, neither summarized nor archived, and the
others have new numbers. -/
theorem truncated_without_archive :
    let r := runCompact noWorkspace sixTurns .moveToWorkspace
    r.thread.turns.length = 5 ∧ r.writes = [] ∧
      r.result.toOption = some ⟨1, false, none⟩ ∧ r.thread.turns ≠ sixTurns.turns.drop 1 := by
  decide +kernel

end Gyre.Agent
