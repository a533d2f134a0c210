/-
# Formats of settings files

Models `FormatForPath` and `MatchesExtension` of the backends.  A file's format follows from its
extension, compared without regard to case.  Among the formats that a `Config` supports the first
match counts, and the first of them all stands in when none matches.
-/
import Intake.Text.Ascii
import Intake.Text.Path

namespace Intake.Config

/-- How a settings file is written. -/
inductive Format where
  | ini
  | json
  | yaml
  deriving DecidableEq, Repr

namespace Format

/-- The extensions that stand for a format. -/
def extensions : Format → List Bytes
  | ini => ["ini", "cfg", "conf"].map Bytes.ofAscii
  | json => ["json"].map Bytes.ofAscii
  | yaml => ["yaml", "yml"].map Bytes.ofAscii

/-- True when an extension stands for the format. -/
def matchesExtension (f : Format) (ext : Bytes) : Bool := f.extensions.any (Ascii.sameText ext)

/-- The format of a file, among a first supported format and others. -/
def ofPath (first : Format) (others : List Format) (path : Bytes) : Format :=
  match Path.extension? path with
  | none => first
  | some ext => ((first :: others).find? fun f => f.matchesExtension ext).getD first

end Format

end Intake.Config
