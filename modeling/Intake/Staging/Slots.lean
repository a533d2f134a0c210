/-
# Contents in numbered slots

Variables of the type `Content` as a caller has them: a staging area with a row of slots, each with
one content, and a queue of buffers that are held for themselves.  What is put into a slot replaces
what was there, and that is released.
-/
import Intake.Staging.Basic

namespace Intake.Staging

/-- A staging area, the stream that payloads come from, contents in slots, and buffers held. -/
structure Slots where
  staging : Staging
  source : Source
  contents : List Content
  /-- The one held for the longest comes first. -/
  held : List Handle

namespace Slots

/-- Ways of putting a payload into the staging area. -/
inductive Way where
  | bySize
  | buffer
  | spill
  deriving DecidableEq, Repr

/-- What trying to put a payload into a slot comes to. -/
inductive Outcome where
  | waits
  | overflows
  | finished (result : Except FrameError Unit) (consumed : UInt64) (slots : Slots)

/-- A row of empty slots. -/
def create (staging : Staging) (source : Source) (count : Nat) : Slots :=
  ⟨staging, source, List.replicate count .none, []⟩

/-- What a slot holds. -/
def get (s : Slots) (i : Nat) : Content := s.contents.getD i .none

/-- Releases what a slot holds and puts a content in its place. -/
def replace (s : Slots) (i : Nat) (c : Content) : Slots :=
  { s with staging := s.staging.release (s.get i), contents := s.contents.set i c }

/-- Puts the next bytes of the stream into the staging area.  Once they are there they replace what
the slot held. -/
def put (s : Slots) (way : Way) (i : Nat) (size : UInt64) : Outcome :=
  let step := match way with
    | .bySize => s.staging.materialize s.source size
    | .buffer => s.staging.toBuffer s.source size
    | .spill => .delivers (s.staging.toSpill s.source size)
  match step with
  | .waits => .waits
  | .overflows => .overflows
  | .delivers d =>
    let after : Slots := { s with staging := d.staging, source := d.source }
    match d.content with
    | .ok c => .finished (.ok ()) d.consumed (after.replace i c)
    | .error e => .finished (.error e) d.consumed after

/-- Reads from the content in a slot. -/
def read (s : Slots) (i n : Nat) : Except ReadFault Bytes × Slots :=
  let r := s.staging.read (s.get i) n
  (r.1, { s with contents := s.contents.set i r.2 })

/-- Releases the content of a slot. -/
def reset (s : Slots) (i : Nat) : Slots := s.replace i .none

/-- Moves the content of one slot into another; a slot moved onto itself stays as it is. -/
def move (s : Slots) (target origin : Nat) : Slots :=
  if target = origin then s
  else
    let c := s.get origin
    let moved := s.replace target c
    { moved with contents := moved.contents.set origin c.afterMove }

/-- Takes a buffer to hold it. -/
def hold (s : Slots) : Attempt ChannelError Slots :=
  s.staging.pool.acquire.map fun r =>
    { s with staging := { s.staging with pool := r.2 }, held := s.held ++ [⟨some r.1⟩] }

/-- Gives back a buffer that is held for itself. -/
def giveBack (s : Slots) (h : Handle) : Slots :=
  let r := h.release s.staging.pool
  { s with
    staging := { s.staging with pool := r.1, host := s.staging.host.reportAll r.2.toList } }

/-- Gives back the buffer held for the longest. -/
def drop (s : Slots) : Slots :=
  match s.held with
  | [] => s
  | h :: rest => { s.giveBack h with held := rest }

/-- Releases every content and every buffer held. -/
def finish (s : Slots) : Slots :=
  let emptied := (List.range s.contents.length).foldl reset s
  { s.held.foldl giveBack emptied with held := [] }

end Slots

end Intake.Staging
