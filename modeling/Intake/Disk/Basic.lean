/-
# Files and directories

The part of a file system that the library works with.  A disk maps places to numbered nodes; a node
holds the bytes of one file.  A file that is unlinked loses its place and keeps its node, so whoever
has it open reads on.  Directories are fixed.

A node's size may be larger than what was written to it: the rest reads as zeros and takes no room.
-/
import Intake.Error

namespace Intake

/-- A place on the disk: the names on the way from the root. -/
abbrev Place := List Bytes

/-- The contents of one file: bytes written from the start, then zeros up to the size. -/
structure FileNode where
  data : Bytes
  size : Nat
  deriving DecidableEq, Repr

namespace FileNode

/-- A file with the given bytes. -/
def ofBytes (data : Bytes) : FileNode := ⟨data, data.length⟩

/-- At most `n` bytes from the given position on. -/
def readAt (f : FileNode) (position n : Nat) : Bytes :=
  let k := min n (f.size - position)
  let got := (f.data.drop position).take k
  if got.length = k then got else got ++ List.replicate (k - got.length) 0

/-- Every byte of the file. -/
def bytes (f : FileNode) : Bytes := f.readAt 0 f.size

/-- Cuts or lengthens the file. -/
def resize (f : FileNode) (size : Nat) : FileNode := ⟨f.data.take size, size⟩

/-- Writes bytes at the start of the file. -/
def overwrite (f : FileNode) (data : Bytes) : FileNode :=
  ⟨data ++ f.data.drop data.length, max f.size data.length⟩

/-- Reading a file that was written in full. -/
theorem readAt_ofBytes (data : Bytes) (position n : Nat) :
    (ofBytes data).readAt position n = (data.drop position).take n := by
  simp only [readAt, ofBytes, List.length_take, List.length_drop]
  rw [if_pos (by omega)]
  rw [List.take_eq_take_iff, List.length_drop]
  omega

end FileNode

/-- A file system with a fixed set of directories. -/
structure Disk where
  /-- The working directory. -/
  current : Place
  directories : List Place
  /-- Which node is found where. -/
  files : List (Place × Nat)
  nodes : List FileNode
  /-- The number of the ending that is tried first for the next temporary name. -/
  drawn : Nat
  /-- The largest size that a file can be given. -/
  sizeLimit : Nat
  deriving Repr

namespace Disk

/-- The largest size that can be asked for. -/
def largestSize : Nat := 9223372036854775807

/-- Where a new disk starts to number the endings of temporary names: somewhere in the middle, so that
they do not meet names that somebody else would choose. -/
def firstEnding : Nat := 29384756103

/-- A disk with a working directory, a directory for temporary files and no file. -/
def empty : Disk where
  current := [Bytes.ofAscii "work"]
  directories := [[], [Bytes.ofAscii "tmp"], [Bytes.ofAscii "work"]]
  files := []
  nodes := []
  drawn := firstEnding
  sizeLimit := largestSize

instance : Inhabited Disk := ⟨empty⟩

/-- True for a place where there is a directory. -/
def isDirectory (d : Disk) (p : Place) : Bool := d.directories.contains p

/-- The node at a place, if there is a file. -/
def node? (d : Disk) (p : Place) : Option Nat := d.files.lookup p

/-- True for a place where there is a file or a directory. -/
def occupied (d : Disk) (p : Place) : Bool := d.isDirectory p || (d.node? p).isSome

/-- The contents of a node; a number that was never given out is an empty file. -/
def content (d : Disk) (node : Nat) : FileNode := d.nodes.getD node ⟨[], 0⟩

/-- Changes the contents of a node. -/
def setContent (d : Disk) (node : Nat) (f : FileNode) : Disk :=
  { d with nodes := d.nodes.set node f }

/-- Puts a new file at a place that holds none, and gives its node. -/
def addFile (d : Disk) (p : Place) (f : FileNode) : Nat × Disk :=
  (d.nodes.length, { d with files := d.files ++ [(p, d.nodes.length)], nodes := d.nodes ++ [f] })

/-- Takes the file at a place away; its node stays. -/
def removeFile (d : Disk) (p : Place) : Disk :=
  { d with files := d.files.filter fun entry => entry.1 != p }

/-- Makes a directory. -/
def addDirectory (d : Disk) (p : Place) : Disk :=
  { d with directories := d.directories ++ [p] }

/-- Names and sizes of the files in a directory. -/
def filesIn (d : Disk) (dir : Place) : List (Bytes × Nat) :=
  d.files.filterMap fun entry =>
    match entry.1.getLast? with
    | some name =>
      if entry.1.dropLast = dir then some (name, (d.content entry.2).size) else none
    | none => none

end Disk

end Intake
