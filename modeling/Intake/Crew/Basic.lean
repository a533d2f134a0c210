/-
# Crews of workers

A crew is what a `WorkerDispatcher` runs: a fixed number of workers with one queue of jobs between
them, the flags that its calls set, and its counts.  A worker goes round (`WorkerLoop`): it looks
whether it should go on, takes a job, looks again, and runs the job (`RunJob`); it leaves when the
queue is closed and used up, or when the crew was interrupted.  How a job ends is decided elsewhere:
an ordinary end and a thrown error are counted, and anything else that is thrown brings the program
down, because `RunJob` lets no exception out.

What follows are single steps, each of which touches one of the things that a crew is made of.
-/
import Intake.Channel.Basic
import Intake.Log.Event
import Intake.Text.Bounded

namespace Intake

/-- How running a job ended. -/
inductive Ending where
  | returned
  /-- With an error that says what it is. -/
  | threw (what : Bytes)
  /-- With something thrown that is no error. -/
  | escaped
  deriving DecidableEq, Repr

/-- Where a worker is on its round. -/
inductive Worker (Job : Type) where
  /-- It looks whether it should go on. -/
  | looking
  /-- It wants a job from the queue. -/
  | taking
  /-- It has a job, and looks whether it should still run it. -/
  | holding (job : Job)
  | running (job : Job)
  /-- It has stopped and is still counted. -/
  | leaving
  | gone
  deriving DecidableEq, Repr

/-- Something that happens in a crew. -/
inductive Occurrence (Job : Type) where
  | started (workers : UInt32)
  /-- A job came into the queue. -/
  | accepted (job : Job)
  | taken (worker : Nat) (job : Job)
  | begun (worker : Nat) (job : Job)
  | ended (worker : Nat) (job : Job) (ending : Ending)
  /-- A job will not be run. -/
  | dropped (job : Job)
  deriving DecidableEq, Repr

/-- A crew of workers and its queue. -/
structure Crew (Job : Type) where
  name : Bounded 32
  workerCount : UInt32
  queue : Channel Job
  started : Bool
  accepting : Bool
  interrupted : Bool
  /-- How many workers have not counted themselves out. -/
  alive : UInt32
  submitted : UInt64
  completed : UInt64
  failed : UInt64
  workers : List (Worker Job)
  /-- Something that was no error got out of a job, and the program is at its end. -/
  aborted : Bool
  deriving DecidableEq, Repr

namespace Worker

variable {Job : Type}

/-- The job that a worker has. -/
def job? : Worker Job → Option Job
  | holding j | running j => some j
  | looking | taking | leaving | gone => none

/-- The job that a worker runs. -/
def running? : Worker Job → Option Job
  | running j => some j
  | looking | taking | holding _ | leaving | gone => none

/-- True for a worker that has come to its end. -/
def isGone : Worker Job → Bool
  | gone => true
  | looking | taking | holding _ | running _ | leaving => false

end Worker

/-- What is reported about an occurrence in the crew of that name. -/
def Occurrence.event? {Job : Type} (name : Bytes) : Occurrence Job → Option Event
  | started n => some (.workersStarted name n)
  | ended worker _ (.threw what) => some (.jobFailed name worker what)
  | ended _ _ .returned | ended _ _ .escaped | accepted _ | taken .. | begun .. | dropped _ => none

namespace Crew

variable {Job : Type}

/-- A crew that has not started.  There is always at least one worker, and the queue has room for as
many jobs as there are workers. -/
def create (name : Bytes) (workers : UInt32) : Crew Job :=
  let n := if 0 < workers then workers else 1
  { name := .ofBytes 32 name, workerCount := n, queue := .create n
    started := false, accepting := false, interrupted := false
    alive := 0, submitted := 0, completed := 0, failed := 0
    workers := [], aborted := false }

/-- The jobs that workers run. -/
def running (c : Crew Job) : List Job := c.workers.filterMap Worker.running?

/-- The jobs that workers have, running or not. -/
def held (c : Crew Job) : List Job := c.workers.filterMap Worker.job?

/-- True when every worker has come to its end. -/
def allGone (c : Crew Job) : Bool := c.workers.all Worker.isGone

/-! ## 1. Steps of those who use the crew -/

/-- Marks the crew as started. -/
def markStarted (c : Crew Job) : Crew Job := { c with started := true }

/-- Lets jobs come in. -/
def openIntake (c : Crew Job) : Crew Job := { c with accepting := true }

/-- Keeps jobs from coming in. -/
def closeIntake (c : Crew Job) : Crew Job := { c with accepting := false }

/-- Counts every worker, before there is one. -/
def countWorkers (c : Crew Job) : Crew Job := { c with alive := c.workerCount }

/-- Adds a worker. -/
def hire (c : Crew Job) : Crew Job := { c with workers := c.workers ++ [.looking] }

/-- Brings a job to the queue. -/
def offer (c : Crew Job) (j : Job) : Attempt ChannelError (Crew Job) :=
  (c.queue.put j).map fun queue => { c with queue }

/-- Counts a job that was brought to the queue. -/
def countSubmitted (c : Crew Job) : Crew Job := { c with submitted := c.submitted + 1 }

def closeQueue (c : Crew Job) : Crew Job := { c with queue := c.queue.close }

/-- Tells workers not to go on. -/
def markInterrupted (c : Crew Job) : Crew Job := { c with interrupted := true }

def interruptQueue (c : Crew Job) : Crew Job := { c with queue := c.queue.interrupt }

/-- Takes the queue away, with what is left in it. -/
def discardQueue (c : Crew Job) : Crew Job × List Job :=
  ({ c with queue := .create c.workerCount }, c.queue.toList)

/-! ## 2. Steps of workers -/

/-- Moves a worker on. -/
def setWorker (c : Crew Job) (i : Nat) (w : Worker Job) : Crew Job :=
  { c with workers := c.workers.set i w }

/-- Counts a worker out. -/
def countOut (c : Crew Job) : Crew Job := { c with alive := c.alive - 1 }

/-- Counts a job by how it ended. -/
def tally (c : Crew Job) : Ending → Crew Job
  | .returned => { c with completed := c.completed + 1 }
  | .threw _ => { c with failed := c.failed + 1 }
  | .escaped => { c with aborted := true }

/-- The next step of a worker, unless it waits or runs a job. -/
def work (c : Crew Job) (i : Nat) : Option (Crew Job × Option (Occurrence Job)) :=
  match c.workers[i]? with
  | some .looking => some (c.setWorker i (if c.interrupted then .leaving else .taking), none)
  | some .taking =>
    match c.queue.take with
    | .waits => none
    | .fails _ => some (c.setWorker i .leaving, none)
    | .gives (j, queue) => some ({ c with queue }.setWorker i (.holding j), some (.taken i j))
  | some (.holding j) =>
    if c.interrupted then some (c.setWorker i .leaving, some (.dropped j))
    else some (c.setWorker i (.running j), some (.begun i j))
  | some .leaving => some (c.countOut.setWorker i .gone, none)
  | some (.running _) | some .gone | none => none

/-- The job of a worker ends. -/
def finish (c : Crew Job) (i : Nat) (ending : Ending) : Option (Crew Job × Job) :=
  match c.workers[i]? with
  | some (.running j) => some ((c.setWorker i .looking).tally ending, j)
  | _ => none

/-- The first worker that can take a step. -/
def ready? (c : Crew Job) : Option Nat :=
  (List.range c.workers.length).find? fun i => (c.work i).isSome

/-- The first worker that runs such a job. -/
def runner? (c : Crew Job) (p : Job → Bool) : Option Nat :=
  c.workers.findIdx? fun w => w.running?.any p

/-! ## 3. What steps leave alone -/

/-- There is always a worker to hire. -/
theorem workerCount_create_pos (name : Bytes) (n : UInt32) :
    0 < (create name n : Crew Job).workerCount := by
  simp only [create]
  split
  · assumption
  · decide

/-- Moving a worker on neither adds nor takes away a worker. -/
theorem length_setWorker (c : Crew Job) (i : Nat) (w : Worker Job) :
    (c.setWorker i w).workers.length = c.workers.length := by
  simp [setWorker]

end Crew

end Intake
