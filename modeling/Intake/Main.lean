/-
# The command line

The program `ingest_demo`: reads the file named by the argument, or standard input, and prints what
the session says.
-/
import Intake.Demo.Session

namespace Intake.Terminal

/-- Reads to the end, or to the first read that fails. -/
partial def readStream (read : IO ByteArray) (got : ByteArray) : IO Source := do
  match ← read.toBaseIO with
  | .error _ => return (Source.ofBytes got.toList 0).failingAfter got.size .readFailed
  | .ok block =>
    if block.isEmpty then return .ofBytes got.toList 0
    readStream read (got ++ block)

/-- Opens a file and reads it. -/
def readFileStream (path : String) : IO (Except IoError Source) := do
  match ← (IO.FS.Handle.mk path .read).toBaseIO with
  | .error _ => return .error .openFailed
  | .ok file => return .ok (← readStream (file.read 65536) .empty)

/-- The characters of some bytes. -/
def shownText (b : Bytes) : String :=
  (String.fromUTF8? (ByteArray.mk b.toArray)).getD
    (String.ofList (b.map fun c => Char.ofNat c.toNat))

end Intake.Terminal

open Intake Intake.Terminal

/-- Runs a session on the arguments: events go to standard error, lines to standard output. -/
def main (arguments : List String) : IO UInt32 := do
  let start ← IO.monoNanosNow
  let nothing : Source := .ofBytes [] 0
  let inputs : Demo.Inputs ← match arguments with
    | ["-"] => do
      let input ← IO.getStdin
      pure ⟨← readStream (input.read 65536) .empty, fun _ => .error .openFailed⟩
    | [path] => do
      let file ← readFileStream path
      pure ⟨nothing, fun _ => file⟩
    | _ => pure ⟨nothing, fun _ => .error .openFailed⟩
  let report := Demo.session Host.empty inputs (Int64.ofNat start)
    (arguments.map fun a => a.toUTF8.toList)
  for event in report.host.log.events do
    IO.eprintln (shownText event.line)
  let stop ← IO.monoNanosNow
  for line in report.lines do
    IO.println (shownText (line.render ((stop - start) / 1000)))
  return report.status
