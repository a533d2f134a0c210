/-
# Progress of reading

Models `IngestProgress`, three counters: all bytes taken from streams (`AddStreamBytes`), the
content bytes among them (`AddContentBytes`), and the records read in full (`AddFile`).  Whenever
the count of stream bytes moves into another gigabyte, a line is due.
-/
import Intake.Log.Event

namespace Intake

/-- How much has been read. -/
structure Progress where
  bytes : UInt64
  fileBytes : UInt64
  files : UInt64
  deriving DecidableEq, Repr

namespace Progress

/-- Nothing read yet. -/
def zero : Progress := ⟨0, 0, 0⟩

instance : Inhabited Progress := ⟨zero⟩

/-- A line is due once in so many bytes. -/
def interval : UInt64 := 1073741824

/-- The line about the counters as they stand. -/
def event (p : Progress) : Event := .progress p.bytes p.fileBytes p.files

/-- Counts stream bytes; the line, if one is due, tells the new counts. -/
def addStream (p : Progress) (n : UInt64) : Progress × Option Event :=
  let after := { p with bytes := p.bytes + n }
  (after, if p.bytes / interval ≠ after.bytes / interval then some after.event else none)

/-- Counts content bytes, which are stream bytes too. -/
def addContent (p : Progress) (n : UInt64) : Progress × Option Event :=
  addStream { p with fileBytes := p.fileBytes + n } n

/-- Counts a record. -/
def addFile (p : Progress) : Progress := { p with files := p.files + 1 }

end Progress

end Intake
