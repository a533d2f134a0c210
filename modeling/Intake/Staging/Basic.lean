/-
# Staging area

The staging area is a `Materializer` with its `BufferPool` and its directory for temporary files:
here the payloads of frames wait for a worker, those up to a threshold in a pooled buffer
(`ToBuffer`), larger ones in a temporary file (`ToSpill`).  Putting one there (`Materialize`) takes
it from a stream; the number of bytes taken is counted.

A payload for a buffer waits until there is one, before anything is taken from the stream.
-/
import Intake.Spill.Write
import Intake.Staging.Content

namespace Intake

/-- Buffers and temporary files for payloads, and how many went either way. -/
structure Staging where
  host : Host
  pool : Pool
  /-- The largest payload that is kept in a buffer. -/
  threshold : UInt64
  tempDir : Bytes
  buffered : UInt64
  spilled : UInt64

namespace Staging

/-- A staging area in which nothing has been put. -/
def create (host : Host) (pool : Pool) (threshold : UInt64) (tempDir : Bytes) : Staging :=
  ⟨host, pool, threshold, tempDir, 0, 0⟩

/-- Writes an event to the log. -/
def report (s : Staging) (e : Event) : Staging := { s with host := s.host.report e }

/-- Writes the event to the log, if there is one. -/
def report? (s : Staging) (e : Option Event) : Staging :=
  { s with host := s.host.reportAll e.toList }

/-- True for payloads that go to a temporary file. -/
def shouldSpill (s : Staging) (size : UInt64) : Bool := s.threshold < size

/-- How taking a payload ended. -/
structure Delivery where
  content : Except FrameError Content
  /-- The count of bytes taken. -/
  consumed : UInt64
  source : Source
  staging : Staging

/-- What putting a payload into the staging area comes to. -/
inductive Step where
  /-- There is no free buffer yet. -/
  | waits
  /-- The payload is larger than a buffer: a promise of the caller is broken. -/
  | overflows
  | delivers (d : Delivery)

/-- Puts a payload into the buffer of a handle. -/
def fillBuffer (s : Staging) (b : Nat) (source : Source) (size : UInt64) : Delivery :=
  let g := gather Source.read size.toNat size.toNat source
  let got := UInt64.ofNat g.bytes.length
  let filled : Staging := { s with pool := s.pool.store b g.bytes }
  let emptied : Staging :=
    let r := filled.pool.giveBack b
    { filled with pool := r.1, host := filled.host.reportAll r.2.toList }
  match g.failure with
  | some _ => ⟨.error .ioError, 0, g.source, emptied.report (.fillFailed size)⟩
  | none =>
    if g.bytes.length < size.toNat then
      ⟨.error .truncated, got, g.source, emptied.report (.fillEnded size got)⟩
    else
      ⟨.ok (.buffered ⟨some b⟩ size.toNat 0), got, g.source,
        { filled with buffered := filled.buffered + 1 }⟩

/-- Puts a payload into a buffer. -/
def toBuffer (s : Staging) (source : Source) (size : UInt64) : Step :=
  match s.pool.acquire with
  | .waits => .waits
  | .fails _ => .delivers ⟨.error .interrupted, 0, source, s.report .acquisitionInterrupted⟩
  | .gives (b, pool) =>
    if pool.bufferSize < size then .overflows
    else .delivers (fillBuffer { s with pool } b source size)

/-- Puts a payload into a temporary file. -/
def toSpill (s : Staging) (source : Source) (size : UInt64) : Delivery :=
  let w := Spill.write s.host source size s.tempDir
  match w.result with
  | .error e => ⟨.error e, w.consumed, w.source, { s with host := w.host }⟩
  | .ok f =>
    ⟨.ok (.spilled f), w.consumed, w.source,
      { s with host := w.host, spilled := s.spilled + 1 }⟩

/-- Puts a payload where its size says. -/
def materialize (s : Staging) (source : Source) (size : UInt64) : Step :=
  if s.shouldSpill size then .delivers (s.toSpill source size) else s.toBuffer source size

/-- Reads from a content. -/
def read (s : Staging) (c : Content) (n : Nat) : Except ReadFault Bytes × Content :=
  c.read s.pool s.host.disk n

/-- Every byte of a content from where the last read ended. -/
def remaining (s : Staging) (c : Content) : Except ReadFault Bytes :=
  c.remaining s.pool s.host.disk

/-- Gives back the buffer of a content, or removes its file. -/
def release (s : Staging) (c : Content) : Staging :=
  let r := c.release s.pool s.host
  { s with pool := r.1, host := r.2 }

end Staging

end Intake
