/-
# Temporary files with an owner

Models `SpillFile`, a payload that was written to a temporary file and is open for reading.  Its
owner removes it (`Remove`): the file is closed, taken off the disk and off the list of temporary
files.  Moving one leaves an empty spill file behind, and one that was moved onto is removed first.
-/
import Intake.Host

namespace Intake

/-- A temporary file that is read in order. -/
structure SpillFile where
  /-- Empty when there is no file to remove. -/
  path : Bytes
  file : Option OpenFile
  /-- The length of the payload. -/
  size : UInt64
  deriving DecidableEq, Repr

namespace SpillFile

/-- What is left when a spill file was moved. -/
def empty : SpillFile := ⟨[], none, 0⟩

instance : Inhabited SpillFile := ⟨empty⟩

/-- True when there is a file to read from. -/
def isValid (f : SpillFile) : Bool := f.file.isSome

/-- One read of at most `n` bytes from where the last one ended. -/
def read (d : Disk) (f : SpillFile) (n : Nat) : Except IoError Bytes × SpillFile :=
  match f.file with
  | none => (.error .invalidFd, f)
  | some o =>
    let r := d.readOpen o n
    (r.1, { f with file := some r.2 })

/-- Every byte from where the last read ended. -/
def remaining (d : Disk) (f : SpillFile) : Except IoError Bytes :=
  match f.file with
  | none => .error .invalidFd
  | some .directory => .error .readFailed
  | some (.file node position) =>
    let c := d.content node
    .ok (c.readAt position (c.size - position))

/-- Takes a path off the disk.  A file that is gone already is no trouble; any other refusal is
reported. -/
def unlink (h : Host) (path : Bytes) : Host :=
  match h.disk.unlink path with
  | .ok disk => { h with disk }
  | .error .noSuchFile => h
  | .error cause => h.report (.unlinkFailed path cause)

/-- Closes the file and removes it.  The size is remembered. -/
def remove (h : Host) (f : SpillFile) : Host × SpillFile :=
  if f.path.isEmpty then (h, { f with file := none })
  else ((unlink h f.path).unregister f.path, { f with file := none, path := [] })

/-- Opens a path as a spill file; one that cannot be opened has nothing to read from. -/
def adopt (d : Disk) (path : Bytes) (opened : Bool) (size : UInt64) : SpillFile :=
  ⟨path, if opened then (d.openPath path).toOption else none, size⟩

theorem remove_path (h : Host) (f : SpillFile) : (f.remove h).2.path = [] := by
  unfold remove
  split
  · rename_i hp
    simpa using hp
  · rfl

end SpillFile

end Intake
