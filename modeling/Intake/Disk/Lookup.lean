/-
# From a path to a place

A path is walked component by component from the root or the working directory; empty components
and single dots stay where they are, and two dots go up.  Everything but the last component has to
be a directory.
-/
import Intake.Disk.Basic
import Intake.Text.Path

namespace Intake

/-- What a path leads to. -/
inductive Target where
  | directory (place : Place)
  | file (place : Place) (node : Nat)
  /-- Nothing is there, but the directory that would hold it is. -/
  | missing (place : Place)
  deriving DecidableEq, Repr

/-- Limits on names and paths. -/
def longestName : Nat := 255

/-- A path has to be shorter than this. -/
def pathRoom : Nat := 4096

namespace Disk

/-- Walks through directories. -/
def walk (d : Disk) (p : Place) : List Bytes → Except SystemError Place
  | [] => .ok p
  | name :: rest =>
    if name = [] ∨ name = [46] then d.walk p rest
    else if name = [46, 46] then d.walk p.dropLast rest
    else if longestName < name.length then .error .nameTooLong
    else if d.isDirectory (p ++ [name]) then d.walk (p ++ [name]) rest
    else if (d.node? (p ++ [name])).isSome then .error .notDirectory
    else .error .noSuchFile

/-- Where walking starts: at the root for a path with a leading slash. -/
def start (d : Disk) (path : Bytes) : Place := if path.head? = some 47 then [] else d.current

/-- What a last name leads to, in a directory that exists. -/
def target (d : Disk) (dir : Place) (name : Bytes) (slash : Bool) : Except SystemError Target :=
  if name = [46] then .ok (.directory dir)
  else if name = [46, 46] then .ok (.directory dir.dropLast)
  else if longestName < name.length then .error .nameTooLong
  else if d.isDirectory (dir ++ [name]) then .ok (.directory (dir ++ [name]))
  else
    match d.node? (dir ++ [name]) with
    | some node => if slash then .error .notDirectory else .ok (.file (dir ++ [name]) node)
    | none => .ok (.missing (dir ++ [name]))

/-- What a path leads to. -/
def resolve (d : Disk) (path : Bytes) : Except SystemError Target :=
  if path.isEmpty then .error .noSuchFile
  else if pathRoom ≤ path.length then .error .nameTooLong
  else
    let names := (Path.components path).filter (· != [])
    match names.getLast? with
    | none => .ok (.directory (d.start path))
    | some name =>
      match d.walk (d.start path) names.dropLast with
      | .error e => .error e
      | .ok dir => d.target dir name (path.getLast? == some 47)

/-! ## 1. Walking -/

theorem walk_nil (d : Disk) (p : Place) : d.walk p [] = .ok p := rfl

/-- Walking through names one after another. -/
theorem walk_append (d : Disk) (p : Place) (a b : List Bytes) :
    d.walk p (a ++ b) = (d.walk p a).bind fun q => d.walk q b := by
  induction a generalizing p with
  | nil => rfl
  | cons name rest ih =>
    simp only [List.cons_append, walk]
    repeat' split
    all_goals first | exact ih _ | rfl

end Disk

end Intake
