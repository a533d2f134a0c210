/-
# A sample stream

The stream that `ingest_demo` makes up when it is given no file.  Every tenth file of the sample is
larger than what is kept in memory; the others take turns at being a document, an archive and a
short text.
-/
import Intake.Frame.Encoding

namespace Intake.Demo

/-- The metadata of a file. -/
def sampleMetadata (i : Nat) : Bytes := "\x7b\"path\":\"/evidence/file" ++ decimal i ++ "\"\x7d"

/-- A text and as many times a letter. -/
def filled (start : String) (letter : Char) (n : Nat) : Bytes :=
  Bytes.ofAscii start ++ List.replicate n (UInt8.ofNat letter.toNat)

/-- The content of a file. -/
def sampleContent (threshold : UInt64) (i : Nat) : Bytes :=
  if i % 10 = 9 then filled "" 'L' (threshold.toNat + 1024)
  else if i % 3 = 0 then filled "%PDF-1.4 " 'p' 2000
  else if i % 3 = 1 then filled "PK" 'z' 500
  else "plain text " ++ decimal i

/-- A stream of so many files. -/
def sample (threshold : UInt64) (files : Nat) : Bytes :=
  Frame.encodeAll ((List.range files).map fun i => (sampleMetadata i, sampleContent threshold i))

end Intake.Demo
