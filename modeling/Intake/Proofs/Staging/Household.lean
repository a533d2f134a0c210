/-
# A staging area in use by many

`Household` is a staging area, that is a `Materializer` and its `BufferPool`, with everything that
callers do with it: payloads are put into it by size, into buffers or into files, from any number of
streams and by any number of readers; contents are read, moved about and dropped; buffers are held
for themselves; and the pool is interrupted and allowed to wait again.  A content is live from when
it was made until it is moved away or dropped.

A call that waits for a buffer is a deed that is not possible yet; a reader that has taken a header
already keeps it and goes on with it.

However a payload is put into the staging area (`Delivers`), it is housed there or has left nothing
behind, and the counters count it if it was (`Delivers.holds`, `Delivers.tallied`).
-/
import Mathlib
import Intake.Proofs.Frame.Calls
import Intake.Proofs.Staging.Holders
import Intake.Staging.Slots

namespace Intake.Staging

open scoped List

/-! ## 1. What can be done -/

/-- A reader of one of the streams. -/
structure Reading where
  stream : Nat
  reader : Frame.Reader
  progress : Progress
  /-- The frame whose content waits for a buffer. -/
  waiting : Option Frame.Header

/-- A staging area, those who use it, and what was made in it. -/
structure Household where
  slots : Slots
  /-- Which slots have a live content. -/
  alive : List Bool
  streams : List Source
  readers : List Reading
  /-- Where the contents that were made are kept, the latest one last. -/
  made : List Content.Kind

namespace Household

/-- Something that is done with a staging area. -/
inductive Deed where
  | addSlot
  | addStream (source : Source)
  | addReader (stream : Nat) (maxMetadata : UInt64)
  /-- The next bytes of a stream are put into the staging area; the content goes to a slot. -/
  | put (way : Slots.Way) (slot stream : Nat) (size : UInt64)
  /-- A reader takes the next frame, or goes on with the one that waited; the content goes to a
  slot. -/
  | next (reader slot : Nat)
  | read (slot count : Nat)
  /-- The content of a slot is dropped, or comes to its end. -/
  | reset (slot : Nat)
  | move (target origin : Nat)
  | hold
  | drop (held : Nat)
  | interrupt
  | clearInterrupt

/-- A staging area with a pool of so many buffers, which nobody uses yet. -/
def create (host : Host) (buffers : UInt32) (bufferSize threshold : UInt64) (dir : Bytes) :
    Household :=
  ⟨.create (.create host (.create buffers bufferSize) threshold dir) (.ofBytes [] 0) 0, [], [], [], []⟩

/-- The staging area of a household. -/
def staging (s : Household) : Staging := s.slots.staging

/-- Changes the pool. -/
def withPool (s : Household) (pool : Pool) : Household :=
  { s with slots := { s.slots with staging := { s.slots.staging with pool } } }

/-- The content in a slot was made just now. -/
def madeAt (s : Household) (i : Nat) : Household :=
  { s with alive := s.alive.set i true, made := s.made ++ [(s.slots.get i).kind] }

/-- Takes over what a call of a reader has come to. -/
def settle (s : Household) (r : Nat) (reading : Reading) (i : Nat) :
    Frame.Outcome × Frame.Session → Option Household
  | (outcome, session) =>
    let after (waiting : Option Frame.Header) : Household := { s with
      slots := { s.slots with staging := session.staging }
      streams := s.streams.set reading.stream session.reader.source
      readers := s.readers.set r
        { reading with reader := session.reader, progress := session.progress, waiting } }
    match outcome with
    | .waits h => some (after (some h))
    | .overflows => none
    | .failed _ | .thrown => some (after none)
    | .record record =>
      some ({ after none with slots := (after none).slots.replace i record.content }.madeAt i)

/-- What a deed does; `none` when it is not possible.  Nobody puts more into a buffer than it holds,
or reads from a content that was moved away. -/
def next (s : Household) : Deed → Option Household
  | .addSlot =>
    some { s with
      slots := { s.slots with contents := s.slots.contents ++ [.none] }
      alive := s.alive ++ [false] }
  | .addStream source => some { s with streams := s.streams ++ [source] }
  | .addReader k maxMetadata =>
    (s.streams[k]?).map fun source =>
      { s with readers := s.readers ++ [⟨k, .create source maxMetadata, .zero, none⟩] }
  | .put way i k size =>
    if i < s.slots.contents.length ∧ (way = .buffer → size ≤ s.staging.pool.bufferSize) then
      (s.streams[k]?).bind fun source =>
        match ({ s.slots with source } : Slots).put way i size with
        | .waits | .overflows => none
        | .finished (.ok _) _ slots =>
          some ({ s with slots, streams := s.streams.set k slots.source }.madeAt i)
        | .finished (.error _) _ slots =>
          some { s with slots, streams := s.streams.set k slots.source }
    else none
  | .next r i =>
    if i < s.slots.contents.length then
      (s.readers[r]?).bind fun reading =>
        (s.streams[reading.stream]?).bind fun source =>
          let session : Frame.Session := ⟨{ reading.reader with source }, reading.progress, s.staging⟩
          s.settle r reading i
            (match reading.waiting with
            | some h => session.readContent h
            | none => session.next)
    else none
  | .read i n =>
    if s.alive[i]? = some true ∨ s.slots.get i = .none then
      some { s with slots := (s.slots.read i n).2 }
    else none
  | .reset i =>
    if i < s.slots.contents.length then
      some { s with slots := s.slots.reset i, alive := s.alive.set i false }
    else none
  | .move target origin =>
    if target < s.slots.contents.length ∧ origin < s.slots.contents.length then
      some { s with
        slots := s.slots.move target origin
        alive := if target = origin then s.alive
          else (s.alive.set target (s.alive.getD origin false)).set origin false }
    else none
  | .hold =>
    match s.slots.hold with
    | .waits => none
    | .fails _ => some s
    | .gives slots => some { s with slots }
  | .drop j =>
    (s.slots.held[j]?).map fun h =>
      { s with slots := { s.slots.giveBack h with held := s.slots.held.eraseIdx j } }
  | .interrupt => some (s.withPool s.staging.pool.interrupt)
  | .clearInterrupt => some (s.withPool s.staging.pool.clearInterrupt)

/-- What a row of deeds leads to. -/
def follow (s : Household) : List Deed → Option Household
  | [] => some s
  | d :: rest => (s.next d).bind fun s' => s'.follow rest

/-- Slots with their contents; the live ones are marked. -/
def places (s : Household) : List (Content × Bool) := s.slots.contents.zip s.alive

/-- The content at a place, if it is live. -/
def live? (place : Content × Bool) : Option Content := if place.2 then some place.1 else none

/-- The live contents. -/
def live (s : Household) : List Content := s.places.filterMap live?

end Household

/-! ## 2. What was made -/

/-- The counters of a staging area in which these contents were made. -/
structure Tallied (s : Staging) (made : List Content.Kind) : Prop where
  buffered : s.buffered = UInt64.ofNat (made.count .buffer)
  spilled : s.spilled = UInt64.ofNat (made.count .spill)

/-- A payload was put into the staging area, by its size or to a given kind of place. -/
inductive Delivers (s : Staging) : Delivery → Prop where
  | bySize {source : Source} {size : UInt64} {d : Delivery} :
      s.materialize source size = .delivers d → Delivers s d
  | buffer {source : Source} {size : UInt64} {d : Delivery} :
      s.toBuffer source size = .delivers d → Delivers s d
  | spill (source : Source) (size : UInt64) : Delivers s (s.toSpill source size)

variable {base : Host} {s s' : Staging} {live : List Content} {made : List Content.Kind}
  {d : Delivery}

theorem Delivers.holds (hd : s.Delivers d) (h : s.Houses base live) :
    Holds base live d ∧ s.Leaves live d.staging := by
  cases hd with
  | bySize hd => exact materialize_holds h hd
  | buffer hd => exact toBuffer_holds h hd
  | spill source size => exact toSpill_holds h source size

/-- The kinds of the contents that a payload was made into: one, or none. -/
def Delivery.kinds (d : Delivery) : List Content.Kind :=
  match d.content with
  | .ok c => [c.kind]
  | .error _ => []

theorem toSpill_tallied (h : s.Tallied made) (source : Source) (size : UInt64) :
    (s.toSpill source size).staging.Tallied (made ++ (s.toSpill source size).kinds) := by
  unfold Delivery.kinds toSpill
  cases hresult : (Spill.write s.host source size s.tempDir).result with
  | error e => simpa [hresult] using ⟨h.buffered, h.spilled⟩
  | ok f =>
    refine ⟨?_, ?_⟩
    · simpa [hresult, Content.kind] using h.buffered
    · simp [hresult, Content.kind, h.spilled]

theorem toBuffer_tallied (h : s.Tallied made) {source : Source} {size : UInt64}
    (hd : s.toBuffer source size = .delivers d) : d.staging.Tallied (made ++ d.kinds) := by
  have hsame : ∀ {e : FrameError}, d.content = .error e → d.staging.buffered = s.buffered →
      d.staging.spilled = s.spilled → d.staging.Tallied (made ++ d.kinds) := by
    intro e he hbuffered hspilled
    simp only [Delivery.kinds, he, List.append_nil]
    exact ⟨hbuffered.trans h.buffered, hspilled.trans h.spilled⟩
  unfold toBuffer at hd
  split at hd
  · cases hd
  · obtain rfl := Step.delivers.inj hd
    exact hsame rfl rfl rfl
  · rename_i b pool hacq
    split at hd
    · cases hd
    · obtain rfl := Step.delivers.inj hd
      obtain ⟨reads, -, -, hfill⟩ := fillBuffer_eq { s with pool } b source size
      split at hfill
      · obtain ⟨hcontent, event, hstaging⟩ := hfill
        exact hsame hcontent (by rw [hstaging]; rfl) (by rw [hstaging]; rfl)
      · obtain ⟨hcontent, hstaging⟩ := hfill
        simp only [Delivery.kinds, hcontent, hstaging, Content.kind]
        refine ⟨?_, ?_⟩
        · simp [h.buffered]
        · simpa using h.spilled

/-- **The counters count what was made**, and nothing that failed. -/
theorem Delivers.tallied (hd : s.Delivers d) (h : s.Tallied made) :
    d.staging.Tallied (made ++ d.kinds) := by
  cases hd with
  | @bySize source size _ hd =>
    unfold materialize at hd
    split at hd
    · obtain rfl := Step.delivers.inj hd
      exact toSpill_tallied h source size
    · exact toBuffer_tallied h hd
  | buffer hd => exact toBuffer_tallied h hd
  | spill source size => exact toSpill_tallied h source size

theorem Noted.tallied (h : s.Noted s') (hs : s.Tallied made) : s'.Tallied made := by
  obtain ⟨log, rfl⟩ := h
  exact ⟨hs.buffered, hs.spilled⟩

end Intake.Staging
