/- digest: Curiosity cycles and other callers of one research queue, statement by statement. -/

import Gyre.Cognitive.ResearchQueue

/-!
Callers take their steps one at a time, in any order. A cycle checks the daily limit, enqueues the
gaps it found, pops a task, executes it and marks it; it can also end anywhere with an error or a
panic, and a restart ends everything that was running.
-/

set_option autoImplicit false
set_option relaxedAutoImplicit false

namespace Gyre.Cognitive

open Gyre.Lib Gyre.Llm

/-- What a knowledge gap is turned into. -/
structure GapTask where
  topic : List Char
  priority : Rat
  source : String
  deriving DecidableEq, Repr

/-- Where a caller stands. `today` is the time at which its cycle checked the daily limit, `none` for
a push or a pop outside of a cycle. -/
inductive Control where
  | idle
  | inserting (task : GapTask) (resume : Option (List GapTask × Int))
  | checked (gaps : List GapTask) (today : Int)
  | claiming (task : ResearchTask) (today : Option Int)
  | claimed (task : ResearchTask) (today : Int)
  | executing (task : ResearchTask) (start : Int)
  deriving DecidableEq, Repr

/-- A task that was executed: `barred` if a task of its topic was exhausted at the time. -/
structure Execution where
  id : Uuid
  topic : List Char
  start : Int
  barred : Bool
  deriving DecidableEq, Repr

/-- The queue and its callers, with a record of what cycles popped and executed. -/
structure Curiosity where
  queue : ResearchQueue
  control : Nat → Control
  popped : List (Nat × Uuid)
  executions : List Execution
  clock : Int

inductive CuriosityEvent where
  | push (w : Nat) (topic : List Char) (priority : Rat) (source : String)
  | insert (w : Nat) (id : Uuid) (now : Int)
  | pop (w : Nat)
  | claim (w : Nat)
  | startCycle (w : Nat) (now : Int) (gaps : List GapTask)
  | enqueueGap (w : Nat)
  | popForCycle (w : Nat)
  | execute (w : Nat) (now : Int)
  | succeed (w : Nat) (now : Int)
  | fail (w : Nat) (reason : List Char)
  | stop (w : Nat)
  | restart
  | markDone (id : Uuid) (completedAt : Int)
  | markFailed (id : Uuid) (reason : List Char)

namespace Curiosity

def dayNanos : Int := 86400000000000

/-- The first instant of the UTC day of a time. -/
def startOfDay (t : Int) : Int := t / dayNanos * dayNanos

def start : Curiosity := ⟨⟨[]⟩, fun _ => .idle, [], [], 0⟩

def setControl (s : Curiosity) (w : Nat) (c : Control) : Curiosity :=
  { s with control := Function.update s.control w c }

/-- The look of a push: the topic is cut, and if no task of it is open the insertion comes next. -/
def lookForTopic (s : Curiosity) (w : Nat) (task : GapTask) (resume : Option (List GapTask × Int))
    (otherwise : Control) : Curiosity :=
  let topic := Text.cutBytes maxTopicLen task.topic
  match s.queue.openTask topic with
  | some _ => s.setControl w otherwise
  | none => s.setControl w (.inserting { task with topic := topic } resume)

/-- The look of a pop. -/
def lookForTask (order : PriorityOrder) (s : Curiosity) (w : Nat) (today : Option Int) : Curiosity :=
  match s.queue.nextTask order with
  | none => s.setControl w .idle
  | some t => s.setControl w (.claiming t today)

/-- A task of the topic is exhausted. -/
def barred (q : ResearchQueue) (topic : List Char) : Bool :=
  q.rows.any fun t => t.topic == topic && decide (t.status = .exhausted)

variable (order : PriorityOrder) (maxDailyTasks : Nat)

/-- One step. An event that does not fit where its caller stands does nothing. -/
def step (s : Curiosity) : CuriosityEvent → Curiosity
  | .push w topic priority source =>
    match s.control w with
    | .idle => s.lookForTopic w ⟨topic, priority, source⟩ none .idle
    | _ => s
  | .insert w id now =>
    match s.control w with
    | .inserting task resume =>
      { s with
        queue := (s.queue.insert (ResearchQueue.newTask id now task.topic task.priority task.source)).1
        control := Function.update s.control w
          ((resume.map fun r => Control.checked r.1 r.2).getD .idle) }
    | _ => s
  | .pop w =>
    match s.control w with
    | .idle => s.lookForTask order w none
    | _ => s
  | .claim w =>
    match s.control w with
    | .claiming t none =>
      { s with queue := s.queue.claim t.id, control := Function.update s.control w .idle }
    | .claiming t (some today) =>
      { s with
        queue := s.queue.claim t.id
        control := Function.update s.control w (.claimed t today)
        popped := (w, t.id) :: s.popped }
    | _ => s
  | .startCycle w now gaps =>
    match s.control w with
    | .idle =>
      if maxDailyTasks ≤ s.queue.dailyCompletedCount (startOfDay now) then s
      else { s with control := Function.update s.control w (.checked gaps now), clock := now }
    | _ => s
  | .enqueueGap w =>
    match s.control w with
    | .checked (gap :: gaps) today => s.lookForTopic w gap (some (gaps, today)) (.checked gaps today)
    | _ => s
  | .popForCycle w =>
    match s.control w with
    | .checked [] today => s.lookForTask order w (some today)
    | _ => s
  | .execute w now =>
    match s.control w with
    | .claimed t _ =>
      { s with
        control := Function.update s.control w (.executing t now)
        executions := ⟨t.id, t.topic, now, barred s.queue t.topic⟩ :: s.executions
        clock := now }
    | _ => s
  | .succeed w now =>
    match s.control w with
    | .executing t _ =>
      { s with queue := s.queue.markDone t.id now, control := Function.update s.control w .idle }
    | _ => s
  | .fail w reason =>
    match s.control w with
    | .executing t _ =>
      { s with
        queue := (s.queue.markFailed t.id reason).1
        control := Function.update s.control w .idle }
    | _ => s
  | .stop w => s.setControl w .idle
  | .restart => { s with control := fun _ => .idle }
  | .markDone id completedAt => { s with queue := s.queue.markDone id completedAt }
  | .markFailed id reason => { s with queue := (s.queue.markFailed id reason).1 }

end Curiosity

end Gyre.Cognitive
