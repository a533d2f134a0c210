/-
# Byte streams

A `Source` is an `InputStream` as its reader meets it: the bytes still to come, what reads give once
those are used up (nothing, or an error), and a pace.  The pace says how many bytes each read brings
at most, whatever was asked for; a read that is asked for something brings at least one byte as long
as there is one.
-/
import Intake.Error
import Intake.Stream.Gather

namespace Intake

/-- A stream of bytes. -/
structure Source where
  rest : Bytes
  /-- What reads fail with after the last byte; nothing at the clean end of a stream. -/
  failure : Option IoError
  /-- The most bytes that the read of each number brings, counted as one where it is zero. -/
  pace : Nat → Nat
  /-- How many reads brought something. -/
  reads : Nat
  /-- How many bytes have been taken. -/
  delivered : Nat

namespace Source

/-- The bytes of a memory block, at most `chunk` in one read; zero sets no limit. -/
def ofBytes (data : Bytes) (chunk : Nat) : Source :=
  let limit := if chunk = 0 then data.length else chunk
  { rest := data, failure := none, pace := fun _ => limit, reads := 0, delivered := 0 }

/-- The same stream, but from the given number of bytes on every read fails. -/
def failingAfter (s : Source) (n : Nat) (e : IoError) : Source :=
  if n ≤ s.rest.length then { s with rest := s.rest.take n, failure := some e } else s

/-- A stream of which every read fails. -/
def broken (e : IoError) : Source := { ofBytes [] 0 with failure := some e }

/-- One read of at most `n` bytes. -/
def read (s : Source) (n : Nat) : Except IoError Bytes × Source :=
  if s.rest.isEmpty then
    match s.failure with
    | some e => (.error e, s)
    | none => (.ok [], s)
  else
    let k := min n (max 1 (s.pace s.reads))
    let got := s.rest.take k
    (.ok got,
      { s with
        rest := s.rest.drop k
        reads := s.reads + 1
        delivered := s.delivered + got.length })

end Source

end Intake
