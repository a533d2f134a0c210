/-
# Documents of the command line

Models the collaborators of `ingest_demo`: `SniffParser`, `SizeClassifier` and `DemoTask`.  A record
becomes a document with a content type, which is told from the first bytes of the content, and a
file type, which is told from its size and from where it was kept.  A document is printed on one
line with its columns lined up.
-/
import Intake.Engine.Basic

namespace Intake.Demo

/-- What is known about one record. -/
structure Document where
  id : UInt64
  contentType : Bytes
  fileType : Bytes
  size : UInt64
  deriving DecidableEq, Repr

/-- How many bytes of a content are looked at. -/
def headLength : Nat := 8

/-- Tells the content type from the first bytes of a content. -/
def sniff (head : Bytes) : Bytes :=
  if head.take 4 = "%PDF" then "application/pdf"
  else if head.take 2 = "PK" then "application/zip"
  else "text/plain"

/-- Tells the file type from the size of a content and from where it is kept. -/
def classify (size : UInt64) (kind : Content.Kind) : Bytes :=
  if size = 0 then "empty" else if kind = .spill then "large" else "regular"

/-- The document for a record, given how its content begins, unless that could not be read. -/
def Document.ofHead (r : Record) : Except ReadFault Bytes → Option Document
  | .ok head => some ⟨r.id, sniff head, classify r.rawSize r.content.kind, r.rawSize⟩
  | .error _ => none

/-- What the task makes of a record: it reads in the content until the first bytes have come. -/
def Document.ofRecord (s : Staging) (r : Record) : Option Document :=
  ofHead r (readUpTo s.read headLength r.content).1

/-- The document for a record that the task was run on. -/
def Document.ofRun (r : Run) : Option Document :=
  ofHead r.record (r.bytes.map (List.take headLength))

/-- Fills a column with blanks; a longer text sticks out. -/
def column (width : Nat) (t : Bytes) : Bytes := t ++ List.replicate (width - t.length) 32

/-- The line for a document. -/
def Document.line (d : Document) : Bytes :=
  "  doc " ++ column 6 (decimal d.id.toNat) ++ " " ++ column 24 d.contentType ++ " "
    ++ column 8 d.fileType ++ " " ++ decimal d.size.toNat ++ " bytes"

end Intake.Demo
