/-
# Buffer pools

Models `BufferPool` and `PooledBuffer`.  A pool owns a fixed number of buffers of one size.  Free
buffers are in a channel that has room for all of them; whoever takes one out is counted in
`outstanding`, and the largest count ever is kept in `highWater`.  Buffers keep their bytes when
they are given back.

Taking a buffer is two steps and a loop (`Acquire` takes, and `NoteCheckout` counts and raises the
mark), giving one back is two steps (`Return` uncounts and puts).  They are defined one by one and
put together in `acquire` and `giveBack`.
-/
import Intake.Channel.Basic
import Intake.Log.Event

namespace Intake

/-- A pool of buffers, known by their numbers. -/
structure Pool where
  bufferSize : UInt64
  free : Channel Nat
  outstanding : UInt32
  highWater : UInt32
  /-- What was last written to each buffer, from its start on. -/
  memory : List Bytes
  deriving DecidableEq, Repr

namespace Pool

/-- Puts buffers into a channel, one after another. -/
def stock (c : Channel Nat) (buffers : List Nat) : Channel Nat :=
  buffers.foldl
    (fun c b =>
      match c.put b with
      | .gives c' => c'
      | _ => c)
    c

/-- A pool with so many free buffers, and with at least one. -/
def create (count : UInt32) (bufferSize : UInt64) : Pool :=
  let c : Channel Nat := .create count
  let buffers := List.range c.capacity.toNat
  ⟨bufferSize, stock c buffers, 0, 0, buffers.map fun _ => []⟩

/-- How many buffers there are. -/
def capacity (p : Pool) : UInt32 := p.free.capacity

/-- How many buffers are free. -/
def available (p : Pool) : UInt32 := p.free.size

/-- What is reported about a new pool. -/
def readyEvent (p : Pool) : Event := .poolReady p.capacity p.bufferSize

/-- What is reported when a pool comes to its end: buffers that did not come back. -/
def endEvent? (p : Pool) : Option Event :=
  if p.outstanding = 0 then none else some (.poolLeaked p.outstanding)

/-! ## 1. Single steps -/

/-- Takes a free buffer. -/
def takeFree (p : Pool) : Attempt ChannelError (Nat × Pool) :=
  p.free.take.map fun r => (r.1, { p with free := r.2 })

/-- Counts one more buffer as taken. -/
def countOut (p : Pool) : Pool := { p with outstanding := p.outstanding + 1 }

/-- Sets the mark to a count, if it still is what it was seen to be. -/
def swapMark (p : Pool) (seen now : UInt32) : Option Pool :=
  if p.highWater = seen then some { p with highWater := now } else none

/-- Raises the mark to a count. -/
def raiseMark (p : Pool) (now : UInt32) : Pool :=
  if p.highWater < now then { p with highWater := now } else p

/-- Counts one buffer less as taken. -/
def countIn (p : Pool) : Pool := { p with outstanding := p.outstanding - 1 }

/-- Puts a buffer among the free ones. -/
def putFree (p : Pool) (b : Nat) : Attempt ChannelError Pool :=
  (p.free.put b).map fun c => { p with free := c }

/-! ## 2. Whole operations -/

/-- Takes a buffer and counts it. -/
def acquire (p : Pool) : Attempt ChannelError (Nat × Pool) :=
  p.takeFree.map fun r =>
    let counted := r.2.countOut
    (r.1, counted.raiseMark counted.outstanding)

/-- Gives a buffer back; a pool that has no room for it reports so. -/
def giveBack (p : Pool) (b : Nat) : Pool × Option Event :=
  match p.countIn.putFree b with
  | .gives p' => (p', none)
  | _ => (p.countIn, some .bufferStranded)

/-- Ends waits for buffers; buffers come back all the same. -/
def interrupt (p : Pool) : Pool := { p with free := p.free.interrupt }

/-- Lets calls wait for buffers again. -/
def clearInterrupt (p : Pool) : Pool := { p with free := p.free.clearInterrupt }

/-! ## 3. Buffer contents -/

/-- What was last written to a buffer. -/
def written (p : Pool) (b : Nat) : Bytes := p.memory.getD b []

/-- Writes bytes at the start of a buffer. -/
def store (p : Pool) (b : Nat) (data : Bytes) : Pool :=
  { p with memory := p.memory.set b (data ++ (p.written b).drop data.length) }

/-- Reads `n` bytes of a buffer from a position on; what was never written reads as zeros. -/
def load (p : Pool) (b position n : Nat) : Bytes :=
  let got := ((p.written b).drop position).take n
  if got.length = n then got else got ++ List.replicate (n - got.length) 0

end Pool

/-- A hold on at most one buffer.  An empty handle is what is left when a handle was moved. -/
structure Handle where
  buffer : Option Nat
  deriving DecidableEq, Repr

namespace Handle

/-- A handle that holds nothing. -/
def empty : Handle := ⟨none⟩

instance : Inhabited Handle := ⟨empty⟩

/-- True when the handle holds a buffer. -/
def isValid (h : Handle) : Bool := h.buffer.isSome

/-- How many bytes there is room for behind the handle. -/
def capacity (p : Pool) (h : Handle) : UInt64 := if h.isValid then p.bufferSize else 0

/-- Gives back what the handle holds. -/
def release (p : Pool) (h : Handle) : Pool × Option Event :=
  match h.buffer with
  | some b => p.giveBack b
  | none => (p, none)

end Handle

end Intake
