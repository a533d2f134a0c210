/-
# Writing a payload to a temporary file

Models `WriteSpillFile`.  The file is made and given its full size before the first byte is read.
Then the payload is copied in blocks of at most 65536 bytes, never reading past its end; the file is
closed and opened again for reading.  When anything goes wrong the file is taken away again.

The file system may refuse any of its five requests, and may do so at one write and not at another:
the model is told what it refuses (`Refusals`), call by call, and says what follows.  A disk also
refuses for reasons of its own, as a directory that is not there or a size that is too large.
-/
import Intake.Spill.File
import Intake.Stream.Source

namespace Intake.Spill

/-- The most bytes that are asked for at a time. -/
def blockSize : Nat := 65536

/-- The path of temporary files in a directory, without its ending. -/
def stem (directory : Bytes) : Bytes :=
  let dir : Bytes := if directory.isEmpty then [46] else directory
  (if dir.getLast? = some 47 then dir else dir ++ [47]) ++ Bytes.ofAscii "sift"

/-! ## 1. What the file system refuses -/

/-- What is asked of the file system while a payload is written to a file. -/
inductive Request where
  | create
  | resize
  /-- To write the block of this number, counted from zero. -/
  | write (block : Nat)
  | close
  | reopen
  deriving DecidableEq, Repr

/-- Which requests are refused, and why. -/
abbrev Refusals := Request → Option SystemError

/-- Nothing is refused. -/
def willing : Refusals := fun _ => none

/-- An answer of the disk, unless the request is refused. -/
def granted {α : Type} (refusal : Option SystemError) (answer : Except SystemError α) :
    Except SystemError α :=
  match refusal with
  | some cause => .error cause
  | none => answer

/-! ## 2. Copying -/

/-- Copying at work: the stream, how many blocks came from it, and why the last one could not be
written. -/
structure Copying where
  source : Source
  blocks : Nat
  refused : Option SystemError

namespace Copying

/-- Nothing is copied yet. -/
def start (source : Source) : Copying := ⟨source, 0, none⟩

/-- One more block is read and written.  None is read any more behind one that was not written. -/
def next (refuses : Refusals) : ReadFrom Copying IoError := fun c n =>
  if c.refused.isSome then (.ok [], c)
  else
    match c.source.read n with
    | (.ok (b :: bs), source) => (.ok (b :: bs), ⟨source, c.blocks + 1, refuses (.write c.blocks)⟩)
    | (answer, source) => (answer, { c with source })

end Copying

/-! ## 3. A payload -/

/-- How taking a payload from a stream ended: what came of it, how many bytes were taken and counted,
the stream that is left and the host afterwards. -/
structure Written where
  result : Except FrameError SpillFile
  consumed : UInt64
  source : Source
  host : Host

/-- Takes an unfinished file away. -/
def abandon (h : Host) (path : Bytes) : Host :=
  ({ h with disk := h.disk.discard path }).unregister path

/-- Fills a file that was made and sized. -/
def fillUnder (refuses : Refusals) (h : Host) (t : Disk.TempFile) (s : Source) (size : UInt64) :
    Written :=
  let g := gather (Copying.next refuses) blockSize size.toNat (.start s)
  let copied := UInt64.ofNat g.bytes.length
  let left := g.source.source
  match g.source.refused, g.failure with
  | some cause, _ =>
    ⟨.error .spillFailed, copied, left, abandon (h.report (.spillUnwritten t.path cause)) t.path⟩
  | none, some _ =>
    ⟨.error .ioError, copied, left, abandon (h.report (.spillFailed copied size)) t.path⟩
  | none, none =>
    if g.bytes.length < size.toNat then
      ⟨.error .truncated, copied, left, abandon (h.report (.spillEnded size copied)) t.path⟩
    else
      let filled : Host := { h with disk := h.disk.write t.node g.bytes }
      match refuses .close with
      | some cause =>
        ⟨.error .spillFailed, copied, left,
          abandon (filled.report (.spillUnclosed t.path cause)) t.path⟩
      | none =>
        match granted (refuses .reopen) (filled.disk.openPath t.path) with
        | .error cause =>
          ⟨.error .spillFailed, copied, left,
            abandon (filled.report (.spillUnreopened t.path cause)) t.path⟩
        | .ok file =>
          ⟨.ok ⟨t.path, some file, size⟩, copied, left, filled.report (.spilled size t.path)⟩

/-- Writes the next `size` bytes of a stream to a new temporary file. -/
def writeUnder (refuses : Refusals) (h : Host) (s : Source) (size : UInt64) (directory : Bytes) :
    Written :=
  match granted (refuses .create) (h.disk.createTemp (stem directory)) with
  | .error cause =>
    ⟨.error .spillFailed, 0, s, h.report (.spillUncreated directory cause)⟩
  | .ok t =>
    let made := ({ h with disk := t.disk }).register t.path
    match granted (refuses .resize) (t.disk.resize t.node size) with
    | .error cause =>
      ⟨.error .spillFailed, 0, s,
        abandon (made.report (.spillUnsized size t.path cause)) t.path⟩
    | .ok disk => fillUnder refuses { made with disk } t s size

/-- Fills a file with nothing refused. -/
def fill (h : Host) (t : Disk.TempFile) (s : Source) (size : UInt64) : Written :=
  fillUnder willing h t s size

/-- Writes the next `size` bytes of a stream to a new temporary file with nothing refused. -/
def write (h : Host) (s : Source) (size : UInt64) (directory : Bytes) : Written :=
  writeUnder willing h s size directory

end Intake.Spill
