/-
# Spill files in numbered slots

Variables of the type `SpillFile` as a caller has them: a host and a row of slots, each with one
spill file.  What is put into a slot replaces what was there, and that is removed; so is everything
when the slots come to their end.
-/
import Intake.Spill.Write

namespace Intake.Spill

/-- A host and a row of spill files. -/
structure Slots where
  host : Host
  files : List SpillFile

namespace Slots

/-- A row of empty slots. -/
def create (host : Host) (count : Nat) : Slots := ⟨host, List.replicate count .empty⟩

/-- What a slot holds. -/
def get (s : Slots) (i : Nat) : SpillFile := s.files.getD i .empty

/-- Removes what a slot holds and puts a spill file in its place. -/
def replace (s : Slots) (i : Nat) (f : SpillFile) : Slots :=
  ⟨((s.get i).remove s.host).1, s.files.set i f⟩

/-- Writes the next bytes of a stream to a new file.  Once the file is there it replaces what the slot
held. -/
def writeUnder (refuses : Refusals) (s : Slots) (i : Nat) (source : Source) (size : UInt64)
    (directory : Bytes) : Written × Slots :=
  let w := Spill.writeUnder refuses s.host source size directory
  let after : Slots := { s with host := w.host }
  match w.result with
  | .ok f => (w, after.replace i f)
  | .error _ => (w, after)

/-- Writes to a slot with nothing refused. -/
def write (s : Slots) (i : Nat) (source : Source) (size : UInt64) (directory : Bytes) :
    Written × Slots :=
  s.writeUnder willing i source size directory

/-- Reads from the file in a slot. -/
def read (s : Slots) (i n : Nat) : Except IoError Bytes × Slots :=
  let r := (s.get i).read s.host.disk n
  (r.1, { s with files := s.files.set i r.2 })

/-- Removes the file in a slot. -/
def remove (s : Slots) (i : Nat) : Slots :=
  let r := (s.get i).remove s.host
  ⟨r.1, s.files.set i r.2⟩

/-- Moves the file of one slot into another; a slot moved onto itself stays as it is. -/
def move (s : Slots) (target origin : Nat) : Slots :=
  if target = origin then s
  else
    let moved := s.replace target (s.get origin)
    { moved with files := moved.files.set origin .empty }

/-- Removes whatever is left in the slots. -/
def finish (s : Slots) : Slots := (List.range s.files.length).foldl remove s

end Slots

end Intake.Spill
