/-
# Bounded channels

Models the calls of a `BoundedChannel` (`Put`, `Take`, `TakeFor`, `Interrupt`, `ClearInterrupt`,
`Close`), as far as one of them goes with the mutex in its hand.  A channel holds a bounded number
of items, first in, first out.  A transfer that cannot take place waits.  Interrupting a channel
ends waits and keeps later ones from starting, but no transfer that needs no wait; closing it keeps
items from coming in, while those inside are still handed out.

What follows are the critical sections: each says what a call does with the channel once it has the
channel to itself, or that it has to wait on its condition variable.  What happens between critical
sections is in `Intake.Channel.Monitor`.
-/
import Intake.Channel.Ring
import Intake.Error

namespace Intake

/-- What trying an operation gives: it waits, it fails, or it gives a result. -/
inductive Attempt (ε α : Type) where
  | waits
  | fails (cause : ε)
  | gives (result : α)
  deriving DecidableEq, Repr

/-- Works on with the result of an attempt. -/
def Attempt.map {ε α β : Type} (f : α → β) : Attempt ε α → Attempt ε β
  | waits => waits
  | fails e => fails e
  | gives a => gives (f a)

/-- A bounded channel. -/
structure Channel (α : Type) where
  ring : Ring α
  interrupted : Bool
  closed : Bool
  deriving DecidableEq, Repr

namespace Channel

variable {α : Type}

/-- An empty channel with room for so many items, and for at least one. -/
def create (capacity : UInt32) : Channel α := ⟨.create capacity, false, false⟩

def capacity (c : Channel α) : UInt32 := c.ring.capacity

/-- Number of items inside. -/
def size (c : Channel α) : UInt32 := c.ring.count

/-- The items inside, the next one to be handed out first. -/
def toList (c : Channel α) : List α := c.ring.toList

/-- Something else than waiting is possible for one who brings an item. -/
def putReady (c : Channel α) : Bool := c.ring.count < c.ring.capacity || c.interrupted || c.closed

/-- Something else than waiting is possible for one who wants an item. -/
def takeReady (c : Channel α) : Bool := 0 < c.ring.count || c.interrupted || c.closed

/-- Brings an item. -/
def put (c : Channel α) (x : α) : Attempt ChannelError (Channel α) :=
  if !c.putReady then .waits
  else if c.closed then .fails .closed
  else if c.ring.isFull then .fails .interrupted
  else .gives { c with ring := c.ring.push x }

/-- Why an empty channel hands nothing out. -/
def emptyCause (c : Channel α) : ChannelError := if c.interrupted then .interrupted else .closed

/-- Takes an item. -/
def take (c : Channel α) : Attempt ChannelError (α × Channel α) :=
  if !c.takeReady then .waits
  else
    match c.ring.pop? with
    | none => .fails c.emptyCause
    | some (x, ring) => .gives (x, { c with ring })

/-- Ends waits, and keeps others from starting. -/
def interrupt (c : Channel α) : Channel α := { c with interrupted := true }

/-- Lets calls wait again. -/
def clearInterrupt (c : Channel α) : Channel α := { c with interrupted := false }

/-- Keeps items from coming in. -/
def close (c : Channel α) : Channel α := { c with closed := true }

end Channel

end Intake
