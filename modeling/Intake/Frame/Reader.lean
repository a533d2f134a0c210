/-
# Reading frames

Models `FrameReader`.  A reader takes frames from a stream, field by field, and puts their contents
into the staging area.  `cursor` counts the bytes taken, so that an end of the stream can be told
apart: on a frame boundary it is clean, anywhere else the frame is cut off.  After the first error a
reader does nothing more and repeats the error.

Memory for the metadata is asked for before they are read, as much as their length field says.  A
limit on metadata need not be one that memory can meet, and no block of memory is longer than
`longestBlock`: a call that asks for a longer one is left by an exception.  The reader then has
neither a record nor an error to show, and stands where it was, behind the length field.

Reading a frame (`ReadNext`) is two parts, because the content may have to wait for a buffer:
`readHeader` takes everything before the content, and `readContent` the rest.  `next` does both.
`readField` is `ReadExact`, `ended` is `EndOfStream`, and `stop` is `Fail`.
-/
import Intake.Frame.Length
import Intake.Frame.Record
import Intake.Progress
import Intake.Staging.Basic

namespace Intake.Frame

/-- The most bytes that a block of memory can have.  Blocks up to there are taken to be available. -/
def longestBlock : Nat := 9223372036854775807

/-- Where the reading of a stream stands. -/
structure Reader where
  source : Source
  maxMetadata : UInt64
  stage : Stage
  /-- What the reader repeats once it has come to an end. -/
  lastError : FrameError
  cursor : UInt64
  frameStart : UInt64
  records : UInt64

/-- A reader at the start of a stream. -/
def Reader.create (source : Source) (maxMetadata : UInt64) : Reader :=
  ⟨source, maxMetadata, .metadataLength, .endOfStream, 0, 0, 0⟩

/-- The fields of a frame before its content. -/
structure Header where
  metadata : Bytes
  rawSize : UInt64
  deriving DecidableEq, Repr

/-- A reader, the progress it adds to, and the staging area it fills. -/
structure Session where
  reader : Reader
  progress : Progress
  staging : Staging

/-- How a call is left without a record. -/
inductive Exit where
  /-- It returns an error, and the reader has come to its end. -/
  | failed (cause : FrameError)
  /-- No block of memory is as long as the metadata: an exception goes through the call, and the
  reader has not come to an end. -/
  | thrown
  deriving DecidableEq, Repr

instance : Coe FrameError Exit := ⟨.failed⟩

/-- What reading a frame comes to. -/
inductive Outcome where
  /-- The content waits for a buffer. -/
  | waits (header : Header)
  /-- The content is larger than a buffer: a promise of the caller is broken. -/
  | overflows
  | record (r : Record)
  | failed (cause : FrameError)
  /-- An exception has left the call. -/
  | thrown

/-- What a call without a record comes to. -/
def Exit.outcome : Exit → Outcome
  | .failed cause => .failed cause
  | .thrown => .thrown

namespace Session

/-- A session at the start of a stream. -/
def create (source : Source) (maxMetadata : UInt64) (progress : Progress) (staging : Staging) :
    Session :=
  ⟨.create source maxMetadata, progress, staging⟩

def report (s : Session) (e : Event) : Session := { s with staging := s.staging.report e }

/-- Goes on to another field. -/
def enter (s : Session) (stage : Stage) : Session :=
  { s with reader := { s.reader with stage } }

/-- Comes to an end with an error. -/
def stop (s : Session) (stage : Stage) (e : FrameError) : Session :=
  { s with reader := { s.reader with stage, lastError := e } }

/-- Counts stream bytes that were taken. -/
def count (s : Session) (n : UInt64) : Session :=
  let p := s.progress.addStream n
  { s with
    reader := { s.reader with cursor := s.reader.cursor + n }
    progress := p.1
    staging := s.staging.report? p.2 }

/-- Counts content bytes that were taken. -/
def countContent (s : Session) (n : UInt64) : Session :=
  let p := s.progress.addContent n
  { s with
    reader := { s.reader with cursor := s.reader.cursor + n }
    progress := p.1
    staging := s.staging.report? p.2 }

/-- The stream ended before a field was complete. -/
def ended (s : Session) (expected got : Nat) : Except FrameError Bytes × Session :=
  let r := s.reader
  if r.cursor = r.frameStart then
    (.error .endOfStream, (s.stop .done .endOfStream).report (.cleanEnd r.cursor r.records))
  else
    (.error .truncated,
      (s.report (.fieldEnded r.frameStart r.stage expected got)).stop .failed .truncated)

/-- Takes a field of the given length. -/
def readField (s : Session) (length : Nat) : Except FrameError Bytes × Session :=
  match readUpTo Source.read length s.reader.source with
  | (.error _, source) =>
    let r := s.reader
    let failed := (s.report (.fieldFailed r.cursor r.stage)).stop .failed .ioError
    (.error .ioError, { failed with reader := { failed.reader with source } })
  | (.ok bytes, source) =>
    let taken : Session := { s with reader := { s.reader with source } }
    let counted := taken.count (UInt64.ofNat bytes.length)
    if bytes.length < length then counted.ended length bytes.length else (.ok bytes, counted)

/-- Starts a new frame where the last one ended. -/
def beginFrame (s : Session) : Session :=
  { s with reader := { s.reader with frameStart := s.reader.cursor, stage := .metadataLength } }

/-- Turns a frame away for its metadata. -/
def oversized (s : Session) (length : UInt64) : Session :=
  let r := s.reader
  (s.report (.metadataOversized r.frameStart length r.maxMetadata)).stop .failed .metadataTooLarge

/-- Takes the metadata of a frame and the length of its content. -/
def readHeader (s : Session) : Except Exit Header × Session :=
  match s.beginFrame.readField lengthWidth with
  | (.error e, s) => (.error e, s)
  | (.ok field, s) =>
    let length := decodeLength field
    if s.reader.maxMetadata < length then
      (.error (.failed .metadataTooLarge), s.oversized length)
    else if longestBlock < length.toNat then (.error .thrown, s.enter .metadata)
    else
      match (s.enter .metadata).readField length.toNat with
      | (.error e, s) => (.error e, s)
      | (.ok metadata, s) =>
        match (s.enter .contentLength).readField lengthWidth with
        | (.error e, s) => (.error e, s)
        | (.ok field, s) => (.ok ⟨metadata, decodeLength field⟩, s.enter .content)

/-- The session after a payload was taken. -/
def received (s : Session) (d : Staging.Delivery) : Session :=
  ({ s with staging := d.staging, reader := { s.reader with source := d.source } }).countContent
    d.consumed

/-- A record came out of a frame: the next identifier goes to it. -/
def complete (s : Session) (h : Header) (c : Content) : Record × Session :=
  (⟨s.reader.records * 2, h.metadata, h.rawSize, c⟩,
    { s with
      reader := { s.reader with records := s.reader.records + 1, stage := .metadataLength }
      progress := s.progress.addFile })

/-- Takes the content of a frame. -/
def readContent (s : Session) (h : Header) : Outcome × Session :=
  match s.staging.materialize s.reader.source h.rawSize with
  | .waits => (.waits h, s)
  | .overflows => (.overflows, s)
  | .delivers d =>
    let s := s.received d
    match d.content with
    | .error e =>
      (.failed e,
        (s.report (.contentFailed s.reader.frameStart e h.rawSize d.consumed)).stop .failed e)
    | .ok c =>
      let r := s.complete h c
      (.record r.1, r.2)

/-- Takes the next frame. -/
def next (s : Session) : Outcome × Session :=
  if s.reader.stage.isFinal then (.failed s.reader.lastError, s)
  else
    match s.readHeader with
    | (.error exit, s) => (exit.outcome, s)
    | (.ok h, s) => s.readContent h

end Session

end Intake.Frame
