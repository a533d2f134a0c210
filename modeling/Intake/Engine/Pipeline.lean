/-
# Reading and working side by side

Models `Ingest` and `HandleRecord` of an `IngestEngine`.  A call waits for the workers of the call
before, hires a crew of its own (a new `WorkerDispatcher`), and then reads frame after frame,
bringing each record to the crew.  At the end of the stream, or at the first error, it shuts the
crew down and gives it some time to finish; an exception out of the reader passes all that by
(`unwind`).  Meanwhile the workers run the task on the records.  `next` takes the reading side or
one worker one step further, in whatever order.

A record is let go of by whoever has it last: the worker when the task has ended, the reading side
when the crew does not take the record.
-/
import Intake.Engine.Basic

namespace Intake

/-- Notes how the task ended with a record. -/
def Run.conclude (call : Nat) (id : UInt64) (ending : Ending) (r : Run) : Run :=
  if r.call = call ∧ r.record.id = id ∧ r.ending = none then { r with ending := some ending } else r

namespace Engine

/-- The name of every crew. -/
def crewName : Bytes := "ingest"

/-! ## 1. Occurrences in the crew -/

/-- What an occurrence means for the records. -/
def settleRecord (e : Engine) : Occurrence Record → Engine
  | .begun _ r =>
    { e with runs := e.runs ++ [⟨e.call, r, e.staging.remaining r.content, none⟩] }
  | .ended _ r ending =>
    { e with runs := e.runs.map (Run.conclude e.call r.id ending) }.release r
  | .dropped r => e.release r
  | .started _ | .accepted _ | .taken .. => e

/-- Notes an occurrence and does what it calls for. -/
def note (e : Engine) (o : Occurrence Record) : Engine :=
  let settled := { e with past := (e.call, o) :: e.past }.settleRecord o
  match o.event? crewName with
  | some event => settled.report event
  | none => settled

/-- Notes what happened, if anything did. -/
def note? (e : Engine) (o : Option (Occurrence Record)) : Engine :=
  match o with
  | some o => e.note o
  | none => e

/-! ## 2. The reading side -/

/-- Goes on to another stage of a call. -/
def enter (e : Engine) (i : Ingestion) (stage : Stage) : Engine :=
  { e with ingestion := some { i with stage } }

/-- Asks something of the crew. -/
def ask (e : Engine) (i : Ingestion) (r : Crew.Request Record) : Engine :=
  e.enter i (.visiting r.visit)

/-- Starts a call with a crew of its own. -/
def assemble (e : Engine) (i : Ingestion) : Engine :=
  { e with crew := some (.create crewName e.options.workerCount), call := i.call }.ask i .start

/-- Lets go of the crew of the call before, once its workers have left. -/
def join (e : Engine) (i : Ingestion) : Option Engine :=
  match e.crew with
  | none => some (e.assemble i)
  | some c =>
    if c.allGone then some ((c.queue.toList.foldl release e).assemble i)
    else none

/-- The frames of a call with the parts of the engine that reading them works on. -/
def session (e : Engine) (i : Ingestion) : Frame.Session := ⟨i.frames, e.progress, e.staging⟩

/-- Takes over what reading has changed. -/
def resume (e : Engine) (s : Frame.Session) : Engine :=
  { e with progress := s.progress, staging := s.staging }

/-- Reading has come to its end. -/
def readingEnded (e : Engine) (i : Ingestion) (cause : FrameError) : Engine :=
  if cause = .endOfStream then e.enter { i with clean := true } .leaving
  else (e.report (.readingFailed cause i.frames.cursor)).enter i .leaving

/-- An exception leaves the call.  Its crew stays as it is: nobody shuts it down. -/
def unwind (e : Engine) : Engine := { e with ingestion := none, results := e.results ++ [.threw] }

/-- Reads the next frame up to its content. -/
def readHeader (e : Engine) (i : Ingestion) : Engine :=
  match (e.session i).readHeader with
  | (.ok h, s) => (e.resume s).enter { i with frames := s.reader } (.filling h)
  | (.error (.failed cause), s) => (e.resume s).readingEnded { i with frames := s.reader } cause
  | (.error .thrown, s) => (e.resume s).unwind

/-- Takes the content of a frame and brings the record to the crew. -/
def fill (e : Engine) (i : Ingestion) (h : Frame.Header) : Option Engine :=
  match (e.session i).readContent h with
  | (.waits _, _) => none
  | (.overflows, _) => some { e with broken := true }
  | (.failed cause, s) => some ((e.resume s).readingEnded { i with frames := s.reader } cause)
  | (.thrown, s) => some (e.resume s).unwind
  | (.record r, s) => some ((e.resume s).ask { i with frames := s.reader } (.submit r))

/-- Reads no more, and shuts the crew down. -/
def leave (e : Engine) (i : Ingestion) : Engine :=
  (e.report (.readingFinished e.progress.files e.progress.bytes)).ask i .shutdown

/-- The call returns. -/
def answer (e : Engine) (i : Ingestion) (inTime : Bool) : Engine :=
  let (submitted, completed, failed) := e.counts
  let reported := e.report <|
    if inTime then .workersDone submitted completed failed
    else .workersBusy e.options.shutdownTimeoutMs
  { reported with ingestion := none, results := e.results ++ [.returned i.clean] }

/-- Goes on with what the crew has answered. -/
def replied (e : Engine) (i : Ingestion) : Crew.Reply Record → Engine
  | .started | .accepted => e.enter i .reading
  | .refused r cause => ((e.report (.notSubmitted r.id cause)).release r).enter i .leaving
  | .closed | .interrupted => e.ask i (.await e.options.shutdownTimeoutMs)
  | .awaited inTime => e.answer i inTime

/-- The next step of a visit to the crew. -/
def visit (e : Engine) (i : Ingestion) (v : Crew.Visit Record) : Option Engine :=
  match e.crew with
  | none => none
  | some c =>
    (v.step c).map fun s =>
      let e := ({ e with crew := some s.crew }).note? s.occurrence
      match s.visit.reply? with
      | some r => e.replied i r
      | none => e.enter i (.visiting s.visit)

/-- The next step of the reading side; `none` when it waits or there is no call. -/
def read (e : Engine) : Option Engine :=
  match e.ingestion with
  | none => none
  | some i =>
    match i.stage with
    | .joining => e.join i
    | .visiting v => e.visit i v
    | .reading => some (e.readHeader i)
    | .filling h => e.fill i h
    | .leaving => some (e.leave i)

/-- The grace period of a call is over. -/
def expire (e : Engine) : Option Engine :=
  match e.ingestion with
  | none => none
  | some i =>
    match i.stage with
    | .visiting v => v.expire.map fun v' => e.enter i (.visiting v')
    | .joining | .reading | .filling _ | .leaving => none

/-- A call begins: the crew of the call before takes nothing more. -/
def begin (e : Engine) (source : Source) : Option Engine :=
  match e.ingestion with
  | some _ => none
  | none =>
    let frames := Frame.Reader.create source e.options.maxMetadata
    some { e with
      crew := e.crew.map fun c => c.closeIntake.closeQueue
      ingestion := some ⟨e.results.length, frames, false, .joining⟩ }

/-! ## 3. Both sides -/

/-- What can happen next. -/
inductive Action where
  /-- Somebody brings a stream. -/
  | ingest (source : Source)
  | read
  /-- The grace period is over. -/
  | expire
  | work (worker : Nat)
  /-- The task ends with the record that a worker has. -/
  | finish (worker : Nat) (ending : Ending)

/-- The next step of a worker. -/
def work (e : Engine) (worker : Nat) : Option Engine :=
  match e.crew with
  | none => none
  | some c => (c.work worker).map fun r => ({ e with crew := some r.1 }).note? r.2

/-- The task ends with the record that a worker has. -/
def finish (e : Engine) (worker : Nat) (ending : Ending) : Option Engine :=
  match e.crew with
  | none => none
  | some c =>
    (c.finish worker ending).map fun r =>
      ({ e with crew := some r.1 }).note (.ended worker r.2 ending)

/-- What a step does; `none` when it is not possible. -/
def next (e : Engine) (a : Action) : Option Engine :=
  if e.isAborted then none
  else
    match a with
    | .ingest source => e.begin source
    | .read => e.read
    | .expire => e.expire
    | .work i => e.work i
    | .finish i ending => e.finish i ending

/-- What can come about from an engine. -/
inductive Reachable (e₀ : Engine) : Engine → Prop where
  | refl : Reachable e₀ e₀
  | next {e e' : Engine} {a : Action} : Reachable e₀ e → e.next a = some e' → Reachable e₀ e'

end Engine

end Intake
