/-
# Records

Models `Record`, one frame that was read in full: its metadata, the declared length of its content,
and the content, which waits in the staging area.  Records have even identifiers; the odd one behind
each is set aside for what may be derived from the record.
-/
import Intake.Staging.Content

namespace Intake

/-- One frame that was read in full. -/
structure Record where
  id : UInt64
  metadata : Bytes
  rawSize : UInt64
  content : Content
  deriving DecidableEq, Repr

/-- The identifier that is set aside for what is derived from the record. -/
def Record.slackId (r : Record) : UInt64 := r.id + 1

end Intake
