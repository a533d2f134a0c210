/-
# A session of the command line

Models the program `ingest_demo`.  Without arguments two sample streams are taken in, a whole one
and one whose end is missing.  With one argument the file of that name is taken in, or standard
input for `-`.  Settings files are not supported, so a second argument is an error.

A session is a function of the arguments, the host and what can be read; it says what is printed,
what is logged and with which status the program ends.  The lines that a separate thread prints
about the progress from time to time are left out.
-/
import Intake.Demo.Document
import Intake.Demo.Sample
import Intake.Engine.Schedule
import Intake.Stream.Descriptor

namespace Intake.Demo

/-- A line of output. -/
inductive Line where
  | text (t : Bytes)
  /-- The time taken is told behind the text. -/
  | timed (t : Bytes)
  deriving DecidableEq, Repr

/-- The line without a time. -/
def Line.content : Line → Bytes
  | text t | timed t => t

/-- The line as it is printed, with the time taken. -/
def Line.render (micros : Nat) : Line → Bytes
  | text t => t
  | timed t => t ++ " in " ++ decimal micros ++ " us"

/-- What a session can read. -/
structure Inputs where
  standard : Source
  file : Bytes → Except IoError Source

/-- The files of a disk can be read. -/
def Inputs.onDisk (standard : Source) (d : Disk) : Inputs :=
  ⟨standard, fun path => (Descriptor.openPath d path).map (Descriptor.source d)⟩

/-- The input that an argument names. -/
def Inputs.named (i : Inputs) (argument : Bytes) : Except IoError Source :=
  if argument = "-" then .ok i.standard else i.file argument

/-- What comes of a session. -/
structure Report where
  status : UInt32
  lines : List Line
  host : Host

/-- The options of every session. -/
def options : Options := { workerCount := 4, thresholdExact := 65536 }

/-- Everything an engine needs is there. -/
def collaborators : Collaborators := ⟨true, true, true, fun _ => true⟩

/-- The task gets done with every record. -/
def plan (now : Int64) : Plan := ⟨fun _ => .returned, fun _ => false, now⟩

/-- The documents of an engine's calls. -/
def documents (e : Engine) : List Document := e.runs.filterMap Document.ofRun

/-- What is reported about records that gave no document. -/
def complaints (e : Engine) : List Event :=
  e.runs.filterMap fun r =>
    match Document.ofRun r with
    | some _ => none
    | none => some (.documentUnparsed r.record.id)

/-- The lines for the documents of an engine's calls. -/
def documentLines (e : Engine) : List Line := (documents e).map fun d => .text d.line

/-- Takes a stream in and logs what gave no document. -/
def takeIn (e : Engine) (now : Int64) (source : Source) : Engine :=
  let e := e.ingest (plan now) source
  { e with staging := { e.staging with host := e.staging.host.reportAll (complaints e) } }

/-- The line about how much was taken in. -/
def total (e : Engine) : Bytes :=
  "indexed " ++ decimal (documents e).length ++ " documents, "
    ++ decimal e.progress.bytes.toNat ++ " bytes"

/-- What is reported when a call has returned. -/
def Report.ofCall (e : Engine) : Report :=
  ⟨if e.lastResult then 0 else 1, documentLines e ++ [.text (total e)], e.staging.host⟩

/-- Takes in a file, or standard input. -/
def inspect (host : Host) (inputs : Inputs) (now : Int64) (path : Bytes) : Report :=
  let made := Engine.create host options collaborators
  match made.result with
  | .error _ => ⟨2, [], made.host⟩
  | .ok e =>
    match inputs.named path with
    | .error _ => ⟨2, [], made.host.report (.inputUnopened path)⟩
    | .ok source => .ofCall (takeIn e now source)

/-- How a call went, in counts. -/
def summary (e : Engine) : Bytes :=
  let s := e.staging
  "  indexed=" ++ decimal (documents e).length ++ " buffered=" ++ decimal s.buffered.toNat
    ++ " spilled=" ++ decimal s.spilled.toNat ++ " pool high-water="
    ++ decimal s.pool.highWater.toNat ++ "/" ++ decimal s.pool.capacity.toNat

/-- Takes in a whole sample stream. -/
def wholeSample (host : Host) (now : Int64) : List Line × Host :=
  let title : List Line := [.text [], .text "=== Demo 1: Generated Stream ==="]
  let made := Engine.create host options collaborators
  match made.result with
  | .error _ => (title ++ [.text "  engine creation failed"], made.host)
  | .ok e =>
    let e := takeIn e now (.ofBytes (sample options.threshold 200) 4096)
    let verdict : Bytes := if e.lastResult then "clean end of stream" else "FAILED"
    (title ++ [.timed ("  result: " ++ verdict), .text (summary e)], e.staging.host)

/-- Takes in a sample stream of which the last bytes are missing. -/
def cutSample (host : Host) (now : Int64) : List Line × Host :=
  let title : List Line := [.text [], .text "=== Demo 2: Truncated Stream ==="]
  let made := Engine.create host options collaborators
  match made.result with
  | .error _ => (title, made.host)
  | .ok e =>
    let whole := sample options.threshold 3
    let e := takeIn e now (.ofBytes (whole.take (whole.length - 5)) 0)
    let verdict : Bytes := if e.lastResult then "clean" else "truncation detected"
    let result : Bytes :=
      "  result: " ++ verdict ++ " after " ++ decimal e.progress.bytes.toNat ++ " bytes"
    (title ++ documentLines e ++ [.text result], e.staging.host)

/-- Sets the log up for a session: it takes everything but what is there for finding faults. -/
def openLog (host : Host) : Host := { host with log := host.log.start.setLevel .info }

def closeLog (host : Host) : Host := { host with log := host.log.stop }

/-- A session with the given arguments. -/
def session (host : Host) (inputs : Inputs) (now : Int64) (arguments : List Bytes) : Report :=
  let host := openLog host
  match arguments with
  | [] =>
    let first := wholeSample host now
    let second := cutSample first.2 now
    ⟨0, first.1 ++ second.1, closeLog second.2⟩
  | [path] =>
    let r := inspect host inputs now path
    { r with host := closeLog r.host }
  | _ => ⟨2, [], host.report .settingsUnsupported⟩

end Intake.Demo
