/-
# Visits to a crew

A visit is a call of `Start`, `Submit`, `Shutdown`, `Interrupt` or `AwaitTermination` of a
`WorkerDispatcher`, and a visitor is the thread that makes it.  A visit is a row of single steps,
between which others may take theirs; `step` says what the next one does.  It may have to wait: for
room in the queue, or for the workers to leave.
-/
import Intake.Crew.Basic

namespace Intake.Crew

/-- What one can ask of a crew. -/
inductive Request (Job : Type) where
  | start
  | submit (job : Job)
  | shutdown
  | interrupt
  /-- Waits until every worker has left, but no longer than so many milliseconds. -/
  | await (ms : UInt64)
  deriving DecidableEq, Repr

/-- What a visitor is told in the end. -/
inductive Reply (Job : Type) where
  | started
  | accepted
  /-- The job stays with the visitor. -/
  | refused (job : Job) (cause : ChannelError)
  | closed
  | interrupted
  /-- Whether every worker left in time. -/
  | awaited (inTime : Bool)
  deriving DecidableEq, Repr

/-- The next thing that a visitor does. -/
inductive Visit (Job : Type) where
  -- starting
  | markStarted
  | openIntake
  | countWorkers
  | hire (left : Nat)
  | announce
  -- bringing a job
  | askIntake (job : Job)
  | offer (job : Job)
  | countSubmitted
  -- shutting down
  | closeIntake
  | closeQueue
  -- interrupting
  | stopIntake
  | markInterrupted
  | interruptQueue
  -- waiting for the workers
  | await (ms : UInt64) (expired : Bool)
  | returned (reply : Reply Job)
  deriving DecidableEq, Repr

variable {Job : Type}

/-- The first thing to do for a request. -/
def Request.visit : Request Job → Visit Job
  | start => .markStarted
  | submit j => .askIntake j
  | shutdown => .closeIntake
  | interrupt => .stopIntake
  | await ms => .await ms false

namespace Visit

/-- What the visitor was told, at the end of the visit. -/
def reply? : Visit Job → Option (Reply Job)
  | returned r => some r
  | _ => none

/-- A job that the visitor has and may still hand over. -/
def job? : Visit Job → Option Job
  | askIntake j | offer j => some j
  | _ => none

/-- The visit after its deadline has passed, if it has one. -/
def expire : Visit Job → Option (Visit Job)
  | await ms false => some (.await ms true)
  | _ => none

/-- What a step of a visit leaves. -/
structure Step (Job : Type) where
  visit : Visit Job
  crew : Crew Job
  occurrence : Option (Occurrence Job)

/-- The next step of a visit; `none` when it has to wait or is over. -/
def step (c : Crew Job) : Visit Job → Option (Step Job)
  | markStarted =>
    if c.started then some ⟨.returned .started, c, none⟩
    else some ⟨.openIntake, c.markStarted, none⟩
  | openIntake => some ⟨.countWorkers, c.openIntake, none⟩
  | countWorkers => some ⟨.hire c.workerCount.toNat, c.countWorkers, none⟩
  | hire 0 => some ⟨.announce, c, none⟩
  | hire (left + 1) => some ⟨.hire left, c.hire, none⟩
  | announce => some ⟨.returned .started, c, some (.started c.workerCount)⟩
  | askIntake j =>
    if c.accepting then some ⟨.offer j, c, none⟩
    else some ⟨.returned (.refused j .closed), c, none⟩
  | offer j =>
    match c.offer j with
    | .waits => none
    | .fails e => some ⟨.returned (.refused j e), c, none⟩
    | .gives c' => some ⟨.countSubmitted, c', some (.accepted j)⟩
  | countSubmitted => some ⟨.returned .accepted, c.countSubmitted, none⟩
  | closeIntake => some ⟨.closeQueue, c.closeIntake, none⟩
  | closeQueue => some ⟨.returned .closed, c.closeQueue, none⟩
  | stopIntake => some ⟨.markInterrupted, c.closeIntake, none⟩
  | markInterrupted => some ⟨.interruptQueue, c.markInterrupted, none⟩
  | interruptQueue => some ⟨.returned .interrupted, c.interruptQueue, none⟩
  | await _ expired =>
    if c.alive = 0 then some ⟨.returned (.awaited true), c, none⟩
    else if expired then some ⟨.returned (.awaited false), c, none⟩
    else none
  | returned _ => none

end Visit

end Intake.Crew
