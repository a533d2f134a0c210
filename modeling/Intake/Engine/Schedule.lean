/-
# One way to run an engine

Of the many orders in which the threads of an `IngestEngine` may take their steps, this module takes
one.  Workers go first, then the reading side, and the grace period is over when nobody else has
anything to do.  A grace period whose deadline lies in the past is over at once.  What the task does
with each record is given by a plan.
-/
import Intake.Deadline
import Intake.Engine.Pipeline

namespace Intake

/-- What the task does with each record, and what the clock says. -/
structure Plan where
  ending : Record → Ending
  /-- True for a record that the task does not get done with. -/
  held : Record → Bool
  now : Int64

/-- The plan by which the task gets done with every record. -/
def Plan.releasing (p : Plan) : Plan := { p with held := fun _ => false }

namespace Engine

/-- True while a call waits for its workers although the time for that is over. -/
def isOverdue (e : Engine) (p : Plan) : Bool :=
  match e.ingestion with
  | some ⟨_, _, _, .visiting (.await ms _)⟩ => expiresAtOnce p.now ms
  | _ => false

/-- A worker takes a step. -/
def stepWorker (e : Engine) : Option Engine :=
  (e.crew.bind Crew.ready?).bind fun i => e.next (.work i)

/-- The task gets done with a record. -/
def stepTask (e : Engine) (p : Plan) : Option Engine := do
  let c ← e.crew
  let i ← c.runner? fun r => !p.held r
  let r ← (c.workers[i]?).bind Worker.running?
  e.next (.finish i (p.ending r))

/-- The reading side takes a step; if it cannot, its grace period may be over. -/
def stepReading (e : Engine) : Option Engine := e.next .read <|> e.next .expire

/-- Takes a step. -/
def step (e : Engine) (p : Plan) : Option Engine :=
  if e.isOverdue p then e.stepReading
  else e.stepWorker <|> e.stepTask p <|> e.stepReading

/-- Takes at most `fuel` steps. -/
def driveWithin (e : Engine) (p : Plan) : (fuel : Nat) → Engine
  | 0 => e
  | fuel + 1 =>
    match e.step p with
    | none => e
    | some e' => e'.driveWithin p fuel

/-- How many bytes the call that is going on may still read. -/
def unread (e : Engine) : Nat :=
  match e.ingestion with
  | some i => i.frames.source.rest.length
  | none => 0

/-- A bound on the steps there are.  A frame has at least sixteen bytes, and fewer steps than that are
taken for it; the others are a few for each worker of two crews. -/
def driveBound (e : Engine) : Nat := 16 * (e.unread + 4 * e.options.workerCount.toNat + 16)

/-- Takes steps until nobody has anything to do. -/
def drive (e : Engine) (p : Plan) : Engine := e.driveWithin p e.driveBound

/-- Takes a stream in. -/
def ingest (e : Engine) (p : Plan) (source : Source) : Engine :=
  match e.next (.ingest source) with
  | some e' => e'.drive p
  | none => e

/-- The last call has returned that its stream came to a clean end. -/
def lastResult (e : Engine) : Bool := e.results.getLast? = some (.returned true)

/-- What was run in a call and came to an ordinary end. -/
def returned (e : Engine) (call : Nat) : List Run :=
  e.runs.filter fun r => r.call == call && r.ending == some .returned

end Engine

end Intake
