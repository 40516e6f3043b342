/- digest: Compaction of a thread: which turns go, and what is reported about them. -/

import Gyre.Agent.Session

set_option autoImplicit false
set_option relaxedAutoImplicit false

namespace Gyre.Agent

open Gyre.Llm

inductive CompactionStrategy where
  | summarize (keepRecent : Nat)
  | truncate (keepRecent : Nat)
  | moveToWorkspace
  deriving DecidableEq, Repr

/-- `ContextMonitor`: its estimates are floating point, so the model takes them as given. -/
structure ContextMonitor where
  suggestCompaction : List ChatMessage → Option CompactionStrategy
  /-- `usage_percent` as it is printed. -/
  usagePercent : List ChatMessage → String
  totalTokens : List ChatMessage → Nat

/-- What a compaction meets outside the thread: the answer to the summary request, and the outcome
of the write when there is a workspace. -/
structure CompactionWorld where
  summary : Except String String
  workspace : Option Bool

structure CompactionPartial where
  turnsRemoved : Nat
  summaryWritten : Bool
  summary : Option String
  deriving DecidableEq, Repr

def CompactionPartial.empty : CompactionPartial := ⟨0, false, none⟩

def compactTruncate (thread : Thread) (keepRecent : Nat) : Thread × CompactionPartial :=
  let after := thread.truncateTurns keepRecent
  (after, ⟨thread.turns.length - after.turns.length, false, none⟩)

def compactWithSummary (world : CompactionWorld) (thread : Thread) (keepRecent : Nat) :
    Thread × Except String CompactionPartial :=
  if thread.turns.length ≤ keepRecent then (thread, .ok .empty)
  else
    match world.summary with
    | .error e => (thread, .error e)
    | .ok summary =>
      (thread.truncateTurns keepRecent,
        .ok ⟨thread.turns.length - keepRecent, world.workspace.getD false, some summary⟩)

def compactToWorkspace (world : CompactionWorld) (thread : Thread) : Thread × CompactionPartial :=
  match world.workspace with
  | none => compactTruncate thread 5
  | some written =>
    if thread.turns.length ≤ 10 then (thread, .empty)
    else (thread.truncateTurns 10, ⟨thread.turns.length - 10, written, none⟩)

/-- `ContextCompactor::compact`; an error leaves the thread as it was. -/
def compact (world : CompactionWorld) (thread : Thread) :
    CompactionStrategy → Thread × Except String CompactionPartial
  | .summarize keepRecent => compactWithSummary world thread keepRecent
  | .truncate keepRecent => ((compactTruncate thread keepRecent).1,
      .ok (compactTruncate thread keepRecent).2)
  | .moveToWorkspace => ((compactToWorkspace world thread).1,
      .ok (compactToWorkspace world thread).2)

private theorem truncateTurns_frame (thread : Thread) (keep : Nat) :
    ∃ turns, thread.truncateTurns keep = { thread with turns := turns } := by
  unfold Thread.truncateTurns
  split
  · exact ⟨_, rfl⟩
  · exact ⟨thread.turns, rfl⟩

/-- Compaction changes nothing of a thread but its turns. -/
theorem compact_frame (world : CompactionWorld) (thread : Thread) (strategy : CompactionStrategy) :
    ∃ turns, (compact world thread strategy).1 = { thread with turns := turns } := by
  cases strategy with
  | summarize keep =>
    simp only [compact, compactWithSummary]
    split
    · exact ⟨thread.turns, rfl⟩
    · split
      · exact ⟨thread.turns, rfl⟩
      · exact truncateTurns_frame thread keep
  | truncate keep => exact truncateTurns_frame thread keep
  | moveToWorkspace =>
    simp only [compact, compactToWorkspace]
    split
    · exact truncateTurns_frame thread 5
    · split
      · exact ⟨thread.turns, rfl⟩
      · exact truncateTurns_frame thread 10

end Gyre.Agent
