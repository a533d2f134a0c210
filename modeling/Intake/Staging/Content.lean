/-
# Contents

Models `Content`, the payload of a record: the first `length` bytes of a pooled buffer, or a spill
file, or nothing.  It is read in order from its start.

A content that was moved keeps its kind, and a buffered one its length and position, but not the
buffer: reading on in it would be reading where no buffer is (`ReadFault.noBuffer`).
-/
import Intake.Pool.Basic
import Intake.Spill.File

namespace Intake

/-- The bytes of a record, and how far they have been read. -/
inductive Content where
  | none
  | buffered (handle : Handle) (length offset : Nat)
  | spilled (file : SpillFile)
  deriving DecidableEq, Repr

/-- Why a content could not be read. -/
inductive ReadFault where
  | io (cause : IoError)
  /-- There are bytes to read, but the buffer that held them is gone. -/
  | noBuffer
  deriving DecidableEq, Repr

namespace Content

instance : Inhabited Content := ⟨none⟩

/-- Where a content is kept. -/
inductive Kind where
  | none
  | buffer
  | spill
  deriving DecidableEq, Repr

def kind : Content → Kind
  | none => .none
  | buffered .. => .buffer
  | spilled _ => .spill

/-- Number of content bytes. -/
def size : Content → UInt64
  | none => 0
  | buffered _ length _ => UInt64.ofNat length
  | spilled f => f.size

/-- Room in the buffer behind the content; none unless there is one. -/
def bufferCapacity (p : Pool) : Content → UInt64
  | buffered handle _ _ => handle.capacity p
  | none | spilled _ => 0

/-- The content bytes in the buffer, if there is a buffer. -/
def data? (p : Pool) : Content → Option Bytes
  | buffered ⟨some b⟩ length _ => some (p.load b 0 length)
  | _ => Option.none

/-- The path of the spill file, if there is a spill file. -/
def path? : Content → Option Bytes
  | spilled f => some f.path
  | none | buffered .. => Option.none

/-- The buffer that the content holds. -/
def buffer? : Content → Option Nat
  | buffered handle _ _ => handle.buffer
  | none | spilled _ => Option.none

/-- One read of at most `n` bytes from where the last one ended. -/
def read (p : Pool) (d : Disk) (c : Content) (n : Nat) : Except ReadFault Bytes × Content :=
  match c with
  | none => (.ok [], none)
  | buffered handle length offset =>
    let k := min n (length - offset)
    if k = 0 then (.ok [], c)
    else
      match handle.buffer with
      | some b => (.ok (p.load b offset k), buffered handle length (offset + k))
      | Option.none => (.error .noBuffer, c)
  | spilled f =>
    let r := f.read d n
    (r.1.mapError .io, spilled r.2)

/-- Every byte from where the last read ended. -/
def remaining (p : Pool) (d : Disk) : Content → Except ReadFault Bytes
  | none => .ok []
  | buffered handle length offset =>
    if length - offset = 0 then .ok []
    else
      match handle.buffer with
      | some b => .ok (p.load b offset (length - offset))
      | Option.none => .error .noBuffer
  | spilled f => (f.remaining d).mapError .io

/-- What is left of a content when it was moved. -/
def afterMove : Content → Content
  | none => none
  | buffered _ length offset => buffered .empty length offset
  | spilled _ => spilled .empty

/-- Gives back the buffer or removes the file. -/
def release (p : Pool) (h : Host) : Content → Pool × Host
  | none => (p, h)
  | buffered handle _ _ =>
    let r := handle.release p
    (r.1, h.reportAll r.2.toList)
  | spilled f => (p, (f.remove h).1)

end Content

end Intake
