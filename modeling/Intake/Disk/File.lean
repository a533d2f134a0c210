/-
# Opening, making and removing files

The system calls `open`, `read`, `write`, `ftruncate`, `unlink` and `mkstemp`, as far as the library
uses them: each takes a path or an open file and says what the file system answers.  A temporary
file gets a name that nothing on the disk has: endings of six letters and digits are tried in turn.
-/
import Intake.Disk.Lookup

namespace Intake

/-- A file opened for reading.  A directory can be opened but not read. -/
inductive OpenFile where
  | directory
  | file (node position : Nat)
  deriving DecidableEq, Repr

namespace Disk

/-- Opens a path for reading. -/
def openPath (d : Disk) (path : Bytes) : Except SystemError OpenFile :=
  match d.resolve path with
  | .error e => .error e
  | .ok (.directory _) => .ok .directory
  | .ok (.file _ node) => .ok (.file node 0)
  | .ok (.missing _) => .error .noSuchFile

/-- Reads at most `n` bytes and moves on behind them. -/
def readOpen (d : Disk) (f : OpenFile) (n : Nat) : Except IoError Bytes × OpenFile :=
  match f with
  | .directory => (.error .readFailed, .directory)
  | .file node position =>
    let got := (d.content node).readAt position n
    (.ok got, .file node (position + got.length))

/-- Takes a file away; a directory is never taken away. -/
def unlink (d : Disk) (path : Bytes) : Except SystemError Disk :=
  match d.resolve path with
  | .error e => .error e
  | .ok (.directory _) => .error .isDirectory
  | .ok (.missing _) => .error .noSuchFile
  | .ok (.file place _) => .ok (d.removeFile place)

/-- Takes a file away if there is one. -/
def discard (d : Disk) (path : Bytes) : Disk :=
  match d.unlink path with
  | .ok d' => d'
  | .error _ => d

/-- Makes a file with the given bytes, or gives them to the file that is there. -/
def store (d : Disk) (path : Bytes) (data : Bytes) : Except SystemError Disk :=
  match d.resolve path with
  | .error e => .error e
  | .ok (.directory _) => .error .isDirectory
  | .ok (.file _ node) => .ok (d.setContent node (.ofBytes data))
  | .ok (.missing place) =>
    if path.getLast? = some 47 then .error .isDirectory
    else .ok (d.addFile place (.ofBytes data)).2

/-- Gives a file a size. -/
def resize (d : Disk) (node : Nat) (size : UInt64) : Except SystemError Disk :=
  if largestSize < size.toNat then .error .invalidArgument
  else if d.sizeLimit < size.toNat then .error .fileTooLarge
  else .ok (d.setContent node ((d.content node).resize size.toNat))

/-- Writes bytes at the start of a file. -/
def write (d : Disk) (node : Nat) (data : Bytes) : Disk :=
  d.setContent node ((d.content node).overwrite data)

/-! ## 1. Temporary files -/

/-- The character for a number below 62: digits, then capital, then small letters. -/
def suffixLetter (n : Nat) : UInt8 :=
  if n < 10 then UInt8.ofNat (48 + n)
  else if n < 36 then UInt8.ofNat (55 + n)
  else UInt8.ofNat (61 + n)

/-- The ending with the given number: its last `width` digits in base 62. -/
def suffix (n : Nat) : (width : Nat) → Bytes
  | 0 => []
  | w + 1 => suffix (n / 62) w ++ [suffixLetter (n % 62)]

/-- Letters and digits at the end of a temporary name. -/
def suffixWidth : Nat := 6

/-- A temporary file that was made: its path, its node and the disk with it. -/
structure TempFile where
  path : Bytes
  node : Nat
  disk : Disk

/-- Makes an empty file whose path is the stem and six letters or digits. -/
def createTemp (d : Disk) (stem : Bytes) : Except SystemError TempFile :=
  if pathRoom ≤ stem.length + suffixWidth then .error .nameTooLong
  else
    let names := Path.components stem
    match d.walk (d.start stem) names.dropLast with
    | .error e => .error e
    | .ok dir =>
      let name := names.getLastD []
      if longestName < name.length + suffixWidth then .error .nameTooLong
      else
        let ending (k : Nat) : Bytes := suffix (d.drawn + k) suffixWidth
        match (List.range (d.files.length + d.directories.length + 1)).find?
            fun k => !d.occupied (dir ++ [name ++ ending k]) with
        | none => .error .fileExists
        | some k =>
          let added := d.addFile (dir ++ [name ++ ending k]) (.ofBytes [])
          .ok ⟨stem ++ ending k, added.1, { added.2 with drawn := d.drawn + k + 1 }⟩

end Disk

end Intake
