/-
# Options of an ingest engine

Models `IngestOptions` and `ValidateIngestOptions`.  The largest payload kept in memory is given
exactly in bytes, or else in megabytes.  There are two more buffers than workers (`BufferCount`), so
that the reader can fill one ahead while every worker holds one and another waits in the queue.
-/
import Intake.Bytes

namespace Intake

/-- How an engine is set up. -/
structure Options where
  workerCount : UInt32 := 4
  thresholdMb : UInt32 := 10
  /-- Exact threshold; it wins over `thresholdMb` unless it is zero. -/
  thresholdExact : UInt64 := 0
  tempDir : Bytes := "/tmp"
  modelPath : Bytes := []
  maxMetadata : UInt64 := 67108864
  shutdownTimeoutMs : UInt64 := 3600000
  deriving DecidableEq, Repr

namespace Options

/-- Why a set of options cannot be run with. -/
inductive Fault where
  | noWorkers
  | noThreshold
  | noTempDir
  deriving DecidableEq, Repr

/-- The fault in words. -/
def Fault.words : Fault → String
  | noWorkers => "worker_count must be at least 1"
  | noThreshold => "large file threshold must be positive"
  | noTempDir => "temp_dir must not be empty"

/-- Bytes in one unit of `thresholdMb`. -/
def megabyte : UInt64 := 1048576

/-- The largest payload that is kept in memory. -/
def threshold (o : Options) : UInt64 :=
  if o.thresholdExact ≠ 0 then o.thresholdExact else o.thresholdMb.toUInt64 * megabyte

/-- Buffers beyond the number of workers. -/
def bufferSlack : UInt32 := 2

/-- How many buffers the pool gets. -/
def bufferCount (o : Options) : UInt32 := o.workerCount + bufferSlack

/-- The first fault, in the order in which they are looked for. -/
def fault? (o : Options) : Option Fault :=
  if o.workerCount = 0 then some .noWorkers
  else if o.threshold = 0 then some .noThreshold
  else if o.tempDir.isEmpty then some .noTempDir
  else none

/-- Options without a fault. -/
def Valid (o : Options) : Prop := o.fault? = none

instance (o : Options) : Decidable o.Valid := inferInstanceAs (Decidable (_ = _))

/-- What a valid set of options promises. -/
theorem valid_iff (o : Options) :
    o.Valid ↔ o.workerCount ≠ 0 ∧ o.threshold ≠ 0 ∧ o.tempDir ≠ [] := by
  unfold Valid fault?
  split
  · simp_all
  · split
    · simp_all
    · split <;> simp_all

end Options

end Intake
