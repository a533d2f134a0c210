/-
# What there is to report

Everything that the library hands to `LogWrite` is an `Event`: a value that says what happened and
with which numbers.  Its level, category and words follow from it (`level`, `category`, `words`), so
that the wording of each message stands in one place.
-/
import Intake.Error
import Intake.Frame.Stage
import Intake.Log.Level
import Intake.Options
import Intake.Text.Path

namespace Intake

/-- One thing worth a line in the log. -/
inductive Event where
  -- options and engine
  | optionsRejected (fault : Options.Fault)
  | collaboratorMissing
  | modelRejected (path : Bytes)
  | engineReady (workers : UInt32) (threshold : UInt64) (buffers : UInt32) (tempDir : Bytes)
  | readingFailed (cause : FrameError) (bytesRead : UInt64)
  | notSubmitted (id : UInt64) (cause : ChannelError)
  | readingFinished (files bytes : UInt64)
  | workersBusy (graceMs : UInt64)
  | workersDone (submitted completed failed : UInt64)
  | progress (bytes fileBytes files : UInt64)
  -- settings
  | tableFull (group key : Bytes)
  | notPositive (key value : Bytes)
  | settingsUnopened (path : Bytes)
  | settingsTooLong (path : Bytes)
  -- buffers
  | poolReady (count : UInt32) (size : UInt64)
  | poolLeaked (outstanding : UInt32)
  | bufferStranded
  | acquisitionInterrupted
  -- frames
  | fillFailed (size : UInt64)
  | fillEnded (expected : UInt64) (got : UInt64)
  | fieldFailed (cursor : UInt64) (stage : Frame.Stage)
  | cleanEnd (cursor records : UInt64)
  | fieldEnded (frameStart : UInt64) (stage : Frame.Stage) (expected got : Nat)
  | metadataOversized (frameStart length limit : UInt64)
  | contentFailed (frameStart : UInt64) (cause : FrameError) (expected got : UInt64)
  -- temporary files
  | spillUncreated (directory : Bytes) (cause : SystemError)
  | spillUnsized (size : UInt64) (path : Bytes) (cause : SystemError)
  | spillFailed (copied total : UInt64)
  | spillEnded (expected got : UInt64)
  | spillUnwritten (path : Bytes) (cause : SystemError)
  | spillUnclosed (path : Bytes) (cause : SystemError)
  | spilled (size : UInt64) (path : Bytes)
  | spillUnreopened (path : Bytes) (cause : SystemError)
  | unlinkFailed (path : Bytes) (cause : SystemError)
  -- workers
  | workersStarted (name : Bytes) (count : UInt32)
  | jobFailed (name : Bytes) (worker : Nat) (what : Bytes)
  -- command line
  | settingsUnsupported
  | inputUnopened (path : Bytes)
  | documentUnparsed (id : UInt64)
  -- a message of the caller's own
  | written (level : Level) (category text file : Bytes) (line : Int)
  deriving DecidableEq, Repr

namespace Event

/-- How much the event weighs. -/
def level : Event → Level
  | poolReady .. | cleanEnd .. | spilled .. | workersStarted .. => .debug
  | engineReady .. | readingFinished .. | workersDone .. | progress .. => .info
  | workersBusy .. | tableFull .. | acquisitionInterrupted | unlinkFailed ..
  | documentUnparsed .. => .warn
  | written l .. => l
  | _ => .error

/-- The part of the library that the event belongs to. -/
def category : Event → Bytes
  | optionsRejected .. | collaboratorMissing | modelRejected .. | engineReady ..
  | readingFailed .. | notSubmitted .. | readingFinished .. | workersBusy .. | workersDone ..
  | progress .. => "Ingest"
  | tableFull .. | notPositive .. | settingsUnopened .. | settingsTooLong .. => "Config"
  | poolReady .. | poolLeaked .. | bufferStranded | acquisitionInterrupted => "Pool"
  | fillFailed .. | fillEnded .. | fieldFailed .. | cleanEnd .. | fieldEnded ..
  | metadataOversized .. | contentFailed .. => "Frame"
  | spillUncreated .. | spillUnsized .. | spillFailed .. | spillEnded .. | spillUnwritten ..
  | spillUnclosed .. | spilled .. | spillUnreopened .. | unlinkFailed .. => "Spill"
  | workersStarted .. | jobFailed .. => "Dispatch"
  | settingsUnsupported | inputUnopened .. | documentUnparsed .. => "Demo"
  | written _ c .. => c

/-- The decimal digits of a word. -/
def number (n : UInt64) : Bytes := decimal n.toNat

/-- What happened, in words. -/
def words : Event → Bytes
  | optionsRejected f => f.words
  | collaboratorMissing => "parser, classifier and document task are all required"
  | modelRejected path => "could not load classifier model " ++ path
  | engineReady workers threshold buffers tempDir =>
    "engine ready: workers=" ++ decimal workers.toNat ++ " threshold=" ++ number threshold
      ++ " bytes buffers=" ++ decimal buffers.toNat ++ " temp_dir=" ++ tempDir
  | readingFailed cause bytesRead =>
    "reading stream failed: " ++ cause.words ++ ", bytes read " ++ number bytesRead
  | notSubmitted id cause =>
    "record " ++ number id ++ " not submitted: "
      ++ (if cause = .interrupted then "interrupted" else "dispatcher closed" : String)
  | readingFinished files bytes =>
    "finished ingesting data (files=" ++ number files ++ " bytes=" ++ number bytes
      ++ "), waiting for workers to shut down"
  | workersBusy graceMs => "workers still busy after " ++ number graceMs ++ " ms grace period"
  | workersDone submitted completed failed =>
    "workers done: submitted=" ++ number submitted ++ " completed=" ++ number completed
      ++ " failed=" ++ number failed
  | progress bytes fileBytes files =>
    "progress: bytes=" ++ number bytes ++ " file_bytes=" ++ number fileBytes
      ++ " files=" ++ number files
  | tableFull group key => "table full, dropping [" ++ group ++ "] " ++ key
  | notPositive key value =>
    "[ingest] " ++ key ++ " = '" ++ value ++ "' is not a positive integer"
  | settingsUnopened path => "cannot open " ++ path
  | settingsTooLong path => path ++ " exceeds 65536 bytes"
  | poolReady count size =>
    "buffer pool ready: " ++ decimal count.toNat ++ " x " ++ number size ++ " bytes"
  | poolLeaked outstanding =>
    "destroyed with " ++ decimal outstanding.toNat ++ " buffers still checked out"
  | bufferStranded => "buffer not returned to the free-list"
  | acquisitionInterrupted => "buffer acquisition interrupted"
  | fillFailed size => "stream read failed while filling " ++ number size ++ " byte buffer"
  | fillEnded expected got | spillEnded expected got =>
    "unexpected end of stream, expected " ++ number expected ++ " bytes, got " ++ number got
  | fieldFailed cursor stage =>
    "stream read failed at " ++ number cursor ++ " while reading " ++ stage.words
  | cleanEnd cursor records =>
    "clean end of stream at " ++ number cursor ++ " after " ++ number records ++ " records"
  | fieldEnded frameStart stage expected got =>
    "unexpected end of stream in frame at " ++ number frameStart ++ " while reading "
      ++ stage.words ++ ": expected " ++ decimal expected ++ " bytes, got " ++ decimal got
  | metadataOversized frameStart length limit =>
    "frame at " ++ number frameStart ++ " declares " ++ number length
      ++ " metadata bytes (limit " ++ number limit ++ ")"
  | contentFailed frameStart cause expected got =>
    "frame at " ++ number frameStart ++ " failed while reading content (" ++ cause.words
      ++ "): expected " ++ number expected ++ " bytes, got " ++ number got
  | spillUncreated directory cause =>
    "could not create temp file in " ++ directory ++ ": " ++ cause.words
  | spillUnsized size path cause =>
    "could not allocate " ++ number size ++ " bytes for " ++ path ++ ": " ++ cause.words
  | spillFailed copied total =>
    "stream read failed after " ++ number copied ++ " of " ++ number total ++ " bytes"
  | spillUnwritten path cause => "write to " ++ path ++ " failed: " ++ cause.words
  | spillUnclosed path cause => "close of " ++ path ++ " failed: " ++ cause.words
  | spilled size path => "spilled " ++ number size ++ " bytes to " ++ path
  | spillUnreopened path cause => "could not reopen " ++ path ++ ": " ++ cause.words
  | unlinkFailed path cause => "unlink " ++ path ++ " failed: " ++ cause.words
  | workersStarted name count =>
    name ++ ": started " ++ decimal count.toNat ++ " workers"
  | jobFailed name worker what =>
    name ++ ": worker " ++ decimal worker ++ " job failed: " ++ what
  | settingsUnsupported =>
    "config files need SIFT_CONFIG_INI, SIFT_CONFIG_JSON or SIFT_CONFIG_YAML"
  | inputUnopened path => "cannot open " ++ path
  | documentUnparsed id => "record " ++ number id ++ " could not be parsed"
  | written _ _ text _ _ => text

/-- The most bytes of a message that reach the log. -/
def messageLimit : Nat := 511

/-- The words, cut to the longest message that the log takes. -/
def message (e : Event) : Bytes := e.words.take messageLimit

/-- The line for the event. -/
def line (e : Event) : Bytes :=
  "[" ++ e.level.tag ++ "] [" ++ e.category ++ "] " ++ e.message

/-- Where in a program the event was written: last part of the file's path, and line. -/
def place : Event → Option (Bytes × Int)
  | written _ _ _ file line => some (Path.base file, line)
  | _ => none

/-- The line for the event, with its place when it has one. -/
def placedLine (e : Event) : Bytes :=
  match e.place with
  | none => e.line
  | some (file, line) => e.line ++ " (" ++ file ++ ":" ++ signedDecimal line ++ ")"

end Event

end Intake
