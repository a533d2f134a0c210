/-
# Where a frame reader stands

Models `FrameState`.  Four stages walk through the fields of a frame; the last two are final.
-/
namespace Intake.Frame

/-- The field being read, or how reading ended. -/
inductive Stage where
  | metadataLength
  | metadata
  | contentLength
  | content
  | done
  | failed
  deriving DecidableEq, Repr

namespace Stage

/-- Every stage, in the order of their codes. -/
def all : List Stage := [metadataLength, metadata, contentLength, content, done, failed]

/-- The stage in words. -/
def words : Stage → String
  | metadataLength => "metadata length"
  | metadata => "metadata"
  | contentLength => "content length"
  | content => "content"
  | done => "done"
  | failed => "failed"

/-- The words for a code; codes past the last stage are unknown. -/
def wordsOfCode (code : Nat) : String := (all[code]?.map words).getD "unknown"

/-- In a final stage nothing is read any more. -/
def isFinal : Stage → Bool
  | done | failed => true
  | _ => false

end Stage

end Intake.Frame
