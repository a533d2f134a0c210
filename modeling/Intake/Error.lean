/-
# Causes of failure

One type per kind of operation that can fail: `ChannelError`, `FrameError`, `ConfigError`,
`IoError`, and the refusals of the file system.  Each names its causes; the words for them are given
once, next to the type.
-/
import Intake.Bytes

namespace Intake

/-- Why a transfer through a bounded channel did not take place. -/
inductive ChannelError where
  /-- The wait was cancelled. -/
  | interrupted
  /-- The channel takes no more items, or has handed out its last one. -/
  | closed
  /-- The deadline passed first. -/
  | timeout
  deriving DecidableEq, Repr

/-- Why reading a frame ended without a record. -/
inductive FrameError where
  /-- The stream ended on a frame boundary. -/
  | endOfStream
  /-- The stream ended inside a frame. -/
  | truncated
  /-- The declared metadata length is above the limit. -/
  | metadataTooLarge
  /-- The file system refused the temporary file: to make it, to size it, to write to it, to close it or
  to open it again. -/
  | spillFailed
  /-- The stream could not be read. -/
  | ioError
  /-- Waiting for a buffer was cancelled. -/
  | interrupted
  deriving DecidableEq, Repr

namespace FrameError

/-- Every cause, in the order of their codes. -/
def all : List FrameError :=
  [endOfStream, truncated, metadataTooLarge, spillFailed, ioError, interrupted]

/-- The cause in words. -/
def words : FrameError → String
  | endOfStream => "end of stream"
  | truncated => "truncated frame"
  | metadataTooLarge => "metadata too large"
  | spillFailed => "spill failed"
  | ioError => "i/o error"
  | interrupted => "interrupted"

/-- The words for a code; codes past the last cause are unknown. -/
def wordsOfCode (code : Nat) : String := (all[code]?.map words).getD "unknown"

end FrameError

/-- Why a setting or a settings file was turned away. -/
inductive ConfigError where
  | fileNotFound
  | parseError
  | formatNotSupported
  | bufferFull
  | invalidValue
  deriving DecidableEq, Repr

/-- Why a stream could not be read. -/
inductive IoError where
  /-- There is no open file behind the stream. -/
  | invalidFd
  | openFailed
  | readFailed
  deriving DecidableEq, Repr

/-- Why the file system refused a request. -/
inductive SystemError where
  | noSuchFile
  | notDirectory
  | isDirectory
  | nameTooLong
  | fileExists
  | fileTooLarge
  | noSpace
  | deviceFault
  | tooManyOpen
  | invalidArgument
  deriving DecidableEq, Repr

/-- The refusal in the system's words. -/
def SystemError.words : SystemError → String
  | noSuchFile => "No such file or directory"
  | notDirectory => "Not a directory"
  | isDirectory => "Is a directory"
  | nameTooLong => "File name too long"
  | fileExists => "File exists"
  | fileTooLarge => "File too large"
  | noSpace => "No space left on device"
  | deviceFault => "Input/output error"
  | tooManyOpen => "Too many open files"
  | invalidArgument => "Invalid argument"

end Intake
