/-
# Streams over open files

Models `FdInputStream`.  A descriptor stream may hold an open file, and may own it.  Moving one
leaves an empty stream behind; reading an empty stream fails.  `source` shows such a stream as its
reader meets it, as long as nobody writes to the file.
-/
import Intake.Disk.File
import Intake.Stream.Source

namespace Intake

/-- A stream over an open file. -/
structure Descriptor where
  file : Option OpenFile
  /-- Closing the stream closes the file. -/
  owned : Bool
  deriving DecidableEq, Repr

namespace Descriptor

/-- A stream without a file. -/
def empty : Descriptor := ⟨none, false⟩

instance : Inhabited Descriptor := ⟨empty⟩

/-- Opens a path and owns the file. -/
def openPath (d : Disk) (path : Bytes) : Except IoError Descriptor :=
  match d.openPath path with
  | .ok f => .ok ⟨some f, true⟩
  | .error _ => .error .openFailed

/-- Reads a file that someone else will close. -/
def borrow (f : OpenFile) : Descriptor := ⟨some f, false⟩

/-- True when there is a file to read from. -/
def isOpen (s : Descriptor) : Bool := s.file.isSome

/-- One read of at most `n` bytes. -/
def read (d : Disk) (s : Descriptor) (n : Nat) : Except IoError Bytes × Descriptor :=
  match s.file with
  | none => (.error .invalidFd, s)
  | some f =>
    let r := d.readOpen f n
    (r.1, { s with file := some r.2 })

/-- True when closing the stream closes a file. -/
def closes (s : Descriptor) : Bool := s.owned && s.isOpen

/-- The stream after it was closed. -/
def close (_ : Descriptor) : Descriptor := empty

/-- The stream as a reader meets it. -/
def source (d : Disk) (s : Descriptor) : Source :=
  match s.file with
  | none => .broken .invalidFd
  | some .directory => .broken .readFailed
  | some (.file node position) =>
    let f := d.content node
    .ofBytes (f.readAt position (f.size - position)) 0

end Descriptor

end Intake
