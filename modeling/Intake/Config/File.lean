/-
# Reading settings files

Models `LoadFile`, `LoadBuffer` and `ReadWhole` of a `Config`.  A settings file is read whole, in
blocks, and refused when it is longer than 65536 bytes.  What was read goes to the parser of the
backend for its format (`ConfigParser`, here `Backend.parser`), together with its length in a word
of 32 bits.

The parsers themselves come from other libraries and are a parameter.  Where the library is built
without them each answers that its format is not supported (`Backend.missing`), so that `loadFile`
turns every file that was read away for its format.
-/
import Intake.Config.Format
import Intake.Config.Settings
import Intake.Host
import Intake.Stream.Descriptor

namespace Intake.Config

/-- The longest settings file. -/
def fileLimit : Nat := 65536

/-- How much is read at a time. -/
def blockSize : Nat := 4096

/-- Reads on behind the bytes collected so far, and stops at the end or once they are too many. -/
def collect (sofar : Bytes) (s : Source) : Except IoError Bytes :=
  let g := gather Source.read blockSize blockSize s
  match g.failure with
  | some e => .error e
  | none =>
    if g.bytes.length = 0 ∨ fileLimit < sofar.length then .ok sofar
    else collect (sofar ++ g.bytes) g.source
termination_by fileLimit + 1 - sofar.length
decreasing_by
  rename_i h
  simp only [not_or, Nat.not_lt, g] at h
  rw [List.length_append]
  omega

/-- Why a settings file was not read. -/
inductive ReadFault where
  | unopened
  | unreadable
  | tooLong
  deriving DecidableEq, Repr

/-- The error that a fault amounts to. -/
def ReadFault.error : ReadFault → ConfigError
  | unopened | unreadable => .fileNotFound
  | tooLong => .bufferFull

/-- What is reported about a fault; an unreadable file is not. -/
def ReadFault.event? (path : Bytes) : ReadFault → Option Event
  | unopened => some (.settingsUnopened path)
  | unreadable => none
  | tooLong => some (.settingsTooLong path)

/-- The bytes of a stream, unless it fails or is too long. -/
def readWhole (s : Source) : Except ReadFault Bytes :=
  match collect [] s with
  | .error _ => .error .unreadable
  | .ok text => if fileLimit < text.length then .error .tooLong else .ok text

/-- The bytes of a settings file. -/
def readFile (d : Disk) (path : Bytes) : Except ReadFault Bytes :=
  match d.openPath path with
  | .error _ => .error .unopened
  | .ok f => readWhole ((Descriptor.borrow f).source d)

/-! ## 1. Backends -/

/-- Takes settings from a text that is given with its length; whatever it says about them goes to the
log.  Settings that were taken before an error stay. -/
abbrev Parser := Bytes → UInt32 → Settings → Log → Except ConfigError Unit × Settings × Log

/-- A format and how it is read. -/
structure Backend where
  format : Format
  parser : Parser

/-- A format that cannot be read. -/
def Backend.missing (f : Format) : Backend :=
  ⟨f, fun _ _ s log => (.error .formatNotSupported, s, log)⟩

/-- Takes settings from a text with the first backend for its format. -/
def loadText (backends : List Backend) (format : Option Format) (text : Bytes) (s : Settings)
    (h : Host) : Except ConfigError Unit × Settings × Host :=
  match backends.find? fun b => some b.format = format with
  | none => (.error .formatNotSupported, s, h)
  | some b =>
    let (result, s', log) := b.parser text (UInt32.ofNat text.length) s h.log
    (result, s', { h with log })

/-- Takes settings from a file; a format that is not given follows from the path. -/
def loadFileWith (first : Backend) (others : List Backend) (h : Host) (format : Option Format)
    (path : Bytes) (s : Settings) : Except ConfigError Unit × Settings × Host :=
  match readFile h.disk path with
  | .error fault =>
    (.error fault.error, s,
      match fault.event? path with
      | some e => h.report e
      | none => h)
  | .ok text =>
    let found := format.getD (Format.ofPath first.format (others.map Backend.format) path)
    loadText (first :: others) (some found) text s h

/-! ## 2. Formats without a parser -/

/-- Takes settings from a text; there is no parser for any format. -/
def parse (format : Option Format) (text : Bytes) (s : Settings) : Except ConfigError Settings :=
  let r := loadText ([.ini, .json, .yaml].map Backend.missing) format text s .empty
  r.1.map fun _ => r.2.1

/-- Takes settings from a file among formats that have no parser. -/
def loadFile (h : Host) (first : Format) (others : List Format) (format : Option Format)
    (path : Bytes) (s : Settings) : Except ConfigError Settings × Host :=
  let r := loadFileWith (.missing first) (others.map .missing) h format path s
  (r.1.map fun _ => r.2.1, r.2.2)

end Intake.Config
