/- digest: The research queue: tasks, their statuses, and the statements on their table. -/

import Gyre.Lib.Text
import Gyre.Llm.Value
import Mathlib.Data.List.Sort

/-!
`push` and `pop_next` are two statements each: one that looks, one that writes. Other connections to
the same database can come between them, so the statements are kept apart here.
-/

set_option autoImplicit false
set_option relaxedAutoImplicit false

namespace Gyre.Cognitive

open Gyre.Lib Gyre.Llm

inductive TaskStatus where
  | pending
  | inProgress
  | done
  | failed
  | exhausted
  deriving DecidableEq, Repr

namespace TaskStatus

def asStr : TaskStatus → String
  | pending => "pending"
  | inProgress => "in_progress"
  | done => "done"
  | failed => "failed"
  | exhausted => "exhausted"

def fromStr : String → TaskStatus
  | "in_progress" => inProgress
  | "done" => done
  | "failed" => failed
  | "exhausted" => exhausted
  | _ => pending

/-- A status is read from its column as it was written there. -/
theorem fromStr_asStr (status : TaskStatus) : fromStr status.asStr = status := by
  cases status <;> rfl

/-- `status IN ('pending', 'in_progress')` -/
def isOpen : TaskStatus → Bool
  | pending => true
  | inProgress => true
  | _ => false

end TaskStatus

/-- Times count nanoseconds. -/
structure ResearchTask where
  id : Uuid
  topic : List Char
  priority : Rat
  source : String
  status : TaskStatus
  attempts : Nat
  createdAt : Int
  completedAt : Option Int
  failureReason : Option (List Char)
  deriving DecidableEq, Repr

/-- `ORDER BY priority DESC`: the order of equals is the database's. -/
structure PriorityOrder where
  sort : List ResearchTask → List ResearchTask
  perm : ∀ rows, (sort rows).Perm rows
  sorted : ∀ rows, (sort rows).Pairwise fun a b => b.priority ≤ a.priority

/-- The order that keeps equals as they were inserted. -/
def PriorityOrder.stable : PriorityOrder where
  sort := List.insertionSort fun a b => b.priority ≤ a.priority
  perm := List.perm_insertionSort _
  sorted rows := by
    have htotal : Std.Total fun a b : ResearchTask => b.priority ≤ a.priority :=
      ⟨fun a b => Rat.le_total⟩
    have htrans : IsTrans ResearchTask fun a b => b.priority ≤ a.priority :=
      ⟨fun a b c hab hbc => Rat.le_trans hbc hab⟩
    exact List.pairwise_insertionSort _ rows

/-- The rows of `research_tasks`, in the order of their insertion. -/
structure ResearchQueue where
  rows : List ResearchTask
  deriving DecidableEq, Repr

def maxTopicLen : Nat := 500

def maxAttempts : Nat := 3

namespace ResearchQueue

def pending (q : ResearchQueue) : List ResearchTask := q.rows.filter (·.status = .pending)

/-- The first task of a topic that is pending or in progress. -/
def openTask (q : ResearchQueue) (topic : List Char) : Option ResearchTask :=
  q.rows.find? fun t => t.topic == topic && t.status.isOpen

/-- `priority.clamp(1.0, 10.0)` -/
def clamp (priority : Rat) : Rat := if priority < 1 then 1 else if 10 < priority then 10 else priority

/-- A task as it is inserted; the topic has been cut already. -/
def newTask (id : Uuid) (now : Int) (topic : List Char) (priority : Rat) (source : String) :
    ResearchTask :=
  ⟨id, topic, clamp priority, source, .pending, 0, now, none, none⟩

def insert (q : ResearchQueue) (task : ResearchTask) : ResearchQueue × Except String Uuid :=
  if q.rows.any (·.id == task.id) then (q, .error "UNIQUE constraint failed: research_tasks.id")
  else (⟨q.rows ++ [task]⟩, .ok task.id)

/-- The id and the time are drawn by the call. -/
def push (q : ResearchQueue) (id : Uuid) (now : Int) (topic : List Char) (priority : Rat)
    (source : String) : ResearchQueue × Except String Uuid :=
  let topic := Text.cutBytes maxTopicLen topic
  match q.openTask topic with
  | some existing => (q, .ok existing.id)
  | none => q.insert (newTask id now topic priority source)

/-- `UPDATE research_tasks SET … WHERE id = ?1` -/
def update (q : ResearchQueue) (id : Uuid) (f : ResearchTask → ResearchTask) : ResearchQueue :=
  ⟨q.rows.map fun t => if t.id = id then f t else t⟩

variable (order : PriorityOrder)

/-- The look of `pop_next`. -/
def nextTask (q : ResearchQueue) : Option ResearchTask := (order.sort q.pending).head?

/-- The write of `pop_next`. -/
def claim (q : ResearchQueue) (id : Uuid) : ResearchQueue :=
  q.update id fun t => { t with status := .inProgress }

def popNext (q : ResearchQueue) : ResearchQueue × Option ResearchTask :=
  match q.nextTask order with
  | none => (q, none)
  | some t => (q.claim t.id, some { t with status := .inProgress })

def peek (q : ResearchQueue) (limit : Nat) : List ResearchTask := (order.sort q.pending).take limit

def markDone (q : ResearchQueue) (id : Uuid) (completedAt : Int) : ResearchQueue :=
  q.update id fun t => { t with status := .done, completedAt := some completedAt }

/-- A task after one more failed attempt. -/
def failOnce (reason : List Char) (t : ResearchTask) : ResearchTask :=
  { t with
    status := if maxAttempts ≤ t.attempts + 1 then .exhausted else .failed
    failureReason := some reason
    attempts := t.attempts + 1 }

/-- An id that no row has is an error, and changes nothing. -/
def markFailed (q : ResearchQueue) (id : Uuid) (reason : List Char) : ResearchQueue × Except String Unit :=
  if q.rows.any (·.id == id) then (q.update id (failOnce reason), .ok ())
  else (q, .error "Query returned no rows")

def dailyCompletedCount (q : ResearchQueue) (since : Int) : Nat :=
  q.rows.countP fun t => decide (t.status = .done) && (t.completedAt.map (decide <| since < ·)).getD false

end ResearchQueue

end Gyre.Cognitive
