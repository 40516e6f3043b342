/- digest: Checkpoints of a thread and the undo and redo stacks that hold them. -/

import Gyre.Llm.Provider

set_option autoImplicit false
set_option relaxedAutoImplicit false

namespace Gyre.Agent

open Gyre.Llm

/-- A snapshot of a conversation. -/
structure Checkpoint where
  id : Uuid
  turnNumber : Nat
  messages : List ChatMessage
  description : String
  deriving DecidableEq, Repr

/-- Undo and redo stacks; the most recent checkpoint is the last of its list. -/
structure UndoManager where
  undoStack : List Checkpoint
  redoStack : List Checkpoint
  maxCheckpoints : Nat
  deriving DecidableEq, Repr

namespace UndoManager

def defaultMaxCheckpoints : Nat := 20

def new : UndoManager := ⟨[], [], defaultMaxCheckpoints⟩

/-- Push onto the undo stack and drop the oldest entries over the limit. -/
def pushUndo (m : UndoManager) (checkpoint : Checkpoint) : UndoManager :=
  let stack := m.undoStack ++ [checkpoint]
  { m with undoStack := stack.drop (stack.length - m.maxCheckpoints) }

def checkpoint (m : UndoManager) (c : Checkpoint) : UndoManager :=
  pushUndo { m with redoStack := [] } c

/-- Save the current state for redo and pop the most recent checkpoint; `freshId` is the identifier
the saved state gets. -/
def undo (m : UndoManager) (freshId : Uuid) (currentTurn : Nat)
    (currentMessages : List ChatMessage) : UndoManager × Option Checkpoint :=
  if m.undoStack.isEmpty then (m, none)
  else
    let current : Checkpoint := ⟨freshId, currentTurn, currentMessages, s!"Turn {currentTurn}"⟩
    ({ m with undoStack := m.undoStack.dropLast, redoStack := m.redoStack ++ [current] },
      m.undoStack.getLast?)

def redo (m : UndoManager) (freshId : Uuid) (currentTurn : Nat)
    (currentMessages : List ChatMessage) : UndoManager × Option Checkpoint :=
  if m.redoStack.isEmpty then (m, none)
  else
    let current : Checkpoint := ⟨freshId, currentTurn, currentMessages, s!"Turn {currentTurn}"⟩
    let pushed := m.pushUndo current
    ({ pushed with redoStack := m.redoStack.dropLast }, m.redoStack.getLast?)

def canUndo (m : UndoManager) : Bool := !m.undoStack.isEmpty

def canRedo (m : UndoManager) : Bool := !m.redoStack.isEmpty

def clear (m : UndoManager) : UndoManager := { m with undoStack := [], redoStack := [] }

/-- Pop down to the checkpoint with the given identifier, forgetting everything after it. -/
def restore (m : UndoManager) (checkpointId : Uuid) : UndoManager × Option Checkpoint :=
  match m.undoStack.findIdx? (·.id == checkpointId) with
  | none => (m, none)
  | some pos =>
    ({ m with undoStack := m.undoStack.take pos, redoStack := [] }, m.undoStack[pos]?)

end UndoManager

end Gyre.Agent
