/-
# What the library uses of its host

Files, the list of its own temporary files (`SpillRegistry`), and a log.  A temporary file is on the
list from the moment it exists until it is removed, so that whatever is left over at the end can be
removed too (`RemoveAll`).
-/
import Intake.Disk.File
import Intake.Log

namespace Intake

/-- The paths of the temporary files that are in use, without repetition. -/
abbrev TempRegistry := List Bytes

/-- Files, temporary files in use and log. -/
structure Host where
  disk : Disk
  registry : TempRegistry
  log : Log
  deriving Repr

namespace Host

/-- A host with an empty disk. -/
def empty : Host := ⟨.empty, [], .empty⟩

instance : Inhabited Host := ⟨empty⟩

/-- Writes an event to the log. -/
def report (h : Host) (e : Event) : Host := { h with log := h.log.record e }

/-- Writes several events to the log. -/
def reportAll (h : Host) (es : List Event) : Host := { h with log := h.log.recordAll es }

/-- Puts a path on the list. -/
def register (h : Host) (path : Bytes) : Host := { h with registry := h.registry.insert path }

/-- Takes a path off the list. -/
def unregister (h : Host) (path : Bytes) : Host := { h with registry := h.registry.erase path }

/-- Removes every file on the list and empties it. -/
def removeRegistered (h : Host) : Host :=
  { h with disk := h.registry.foldl Disk.discard h.disk, registry := [] }

end Host

end Intake
