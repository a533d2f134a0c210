/-
# The ingest engine

Models `IngestEngine` and its `Create`.  An engine takes streams of frames in and hands every record
to a crew of workers, which run a task on it.  It owns the staging area that the records' contents
wait in, and the pool behind it.  This module says what an engine is made of and when one can be
made: with valid options, every collaborator, and a model that the classifier takes, where one is
named.
-/
import Intake.Config.Overlay
import Intake.Crew.Visit
import Intake.Frame.Reader

namespace Intake

/-- What an engine works with besides its own parts. -/
structure Collaborators where
  hasParser : Bool
  hasClassifier : Bool
  hasTask : Bool
  /-- Says whether the classifier takes the model at a path. -/
  takesModel : Bytes → Bool

/-- True when nobody is missing. -/
def Collaborators.complete (c : Collaborators) : Bool := c.hasParser && c.hasClassifier && c.hasTask

/-- One record in the hands of the task. -/
structure Run where
  /-- The call that the record belongs to, and with it the index that its documents go to. -/
  call : Nat
  record : Record
  /-- The content bytes as the task finds them. -/
  bytes : Except ReadFault Bytes
  /-- How the task ended with the record, once it has. -/
  ending : Option Ending

namespace Engine

/-- What the reading side of a call is at. -/
inductive Stage where
  /-- It waits for the workers of the call before. -/
  | joining
  /-- It asks something of the crew. -/
  | visiting (visit : Crew.Visit Record)
  /-- It reads the next frame up to its content. -/
  | reading
  /-- It puts the content of a frame into the staging area. -/
  | filling (header : Frame.Header)
  /-- It reads no more. -/
  | leaving
  deriving DecidableEq, Repr

/-- A call that is going on. -/
structure Ingestion where
  call : Nat
  frames : Frame.Reader
  /-- The stream came to a clean end. -/
  clean : Bool
  stage : Stage

/-- What a call comes to for whoever has made it. -/
inductive Answer where
  /-- It has returned: true for a clean end of its stream. -/
  | returned (clean : Bool)
  /-- An exception has left it. -/
  | threw
  deriving DecidableEq, Repr

end Engine

/-- An engine, with everything that has happened in it. -/
structure Engine where
  options : Options
  staging : Staging
  progress : Progress
  /-- The workers of the last call that came to have some. -/
  crew : Option (Crew Record)
  /-- The number of that call. -/
  call : Nat
  ingestion : Option Engine.Ingestion
  /-- What each call that is over came to. -/
  results : List Engine.Answer
  runs : List Run
  /-- What happened in the crews, with the number of the call; the latest comes first. -/
  past : List (Nat × Occurrence Record)
  /-- A promise among the parts of the engine was broken, and the program is at its end. -/
  broken : Bool

namespace Engine

/-- What making an engine comes to. -/
structure Creation where
  result : Except ConfigError Engine
  host : Host
  /-- The models that the classifier was given. -/
  loaded : List Bytes

/-- An engine without calls. -/
def ofOptions (host : Host) (o : Options) : Engine :=
  let pool := Pool.create o.bufferCount o.threshold
  let ready := (host.report pool.readyEvent).report
    (.engineReady o.workerCount o.threshold pool.capacity o.tempDir)
  { options := o, staging := .create ready pool o.threshold o.tempDir, progress := .zero
    crew := none, call := 0, ingestion := none
    results := [], runs := [], past := [], broken := false }

/-- Makes an engine. -/
def create (host : Host) (o : Options) (c : Collaborators) : Creation :=
  match o.fault? with
  | some fault => ⟨.error .invalidValue, host.report (.optionsRejected fault), []⟩
  | none =>
    if !c.complete then ⟨.error .invalidValue, host.report .collaboratorMissing, []⟩
    else
      let loaded := if o.modelPath.isEmpty then [] else [o.modelPath]
      if loaded.all c.takesModel then
        let e := ofOptions host o
        ⟨.ok e, e.staging.host, loaded⟩
      else ⟨.error .fileNotFound, host.report (.modelRejected o.modelPath), loaded⟩

/-- Writes an event to the log. -/
def report (e : Engine) (event : Event) : Engine := { e with staging := e.staging.report event }

/-- Lets go of what a record holds. -/
def release (e : Engine) (r : Record) : Engine :=
  { e with staging := e.staging.release r.content }

/-- True when the program is at its end. -/
def isAborted (e : Engine) : Bool := e.broken || e.crew.any Crew.aborted

/-- What happened in the crews, in order, with the number of the call. -/
def history (e : Engine) : List (Nat × Occurrence Record) := e.past.reverse

/-- What the crew has counted; a call that never was counted nothing. -/
def counts (e : Engine) : UInt64 × UInt64 × UInt64 :=
  match e.crew with
  | some c => (c.submitted, c.completed, c.failed)
  | none => (0, 0, 0)

end Engine

end Intake
