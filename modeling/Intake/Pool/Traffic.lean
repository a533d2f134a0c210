/-
# Buffers on their way

A checkout is one buffer's way out of a `BufferPool` and back: it is taken, counted and marked, then
held, and at last uncounted and put back.  `Traffic` is a pool with its checkouts; `next` takes one
of them one step further, so that steps of different checkouts may come in any order.

The mark is raised by looking at it and swapping it if nobody else did so in between
(`compare_exchange_weak`); a swap may also fail for no reason, and then one looks again.
-/
import Intake.Pool.Basic

namespace Intake.Pool

/-- How far a checkout has come. -/
inductive Checkout where
  /-- It wants a free buffer. -/
  | taking
  /-- It has a buffer that is not counted yet. -/
  | counting (buffer : Nat)
  /-- Its count is known; it looks at the mark. -/
  | looking (buffer : Nat) (now : UInt32)
  /-- It compares its count with the mark it saw. -/
  | marking (buffer : Nat) (now seen : UInt32)
  /-- The buffer is held. -/
  | holding (buffer : Nat)
  /-- The buffer is to be uncounted. -/
  | uncounting (buffer : Nat)
  /-- The buffer is to be put back. -/
  | returning (buffer : Nat)
  | returned
  /-- No buffer was to be had. -/
  | refused (cause : ChannelError)
  deriving DecidableEq, Repr

namespace Checkout

/-- The buffer that is on its way or held. -/
def buffer? : Checkout → Option Nat
  | counting b | looking b _ | marking b _ _ | holding b | uncounting b | returning b => some b
  | taking | returned | refused _ => none

/-- The buffer that is held. -/
def held? : Checkout → Option Nat
  | holding b => some b
  | _ => none

end Checkout

/-- A pool and the checkouts made from it. -/
structure Traffic where
  pool : Pool
  checkouts : List Checkout
  deriving DecidableEq, Repr

namespace Traffic

/-- What can happen next. -/
inductive Action where
  /-- Someone asks for a buffer. -/
  | ask
  /-- The holder lets go. -/
  | letGo (checkout : Nat)
  /-- A checkout takes its next step. -/
  | advance (checkout : Nat)
  /-- A swap of the mark fails for no reason. -/
  | falter (checkout : Nat)
  | interrupt
  | clearInterrupt
  deriving DecidableEq, Repr

/-- A new pool without checkouts. -/
def create (count : UInt32) (bufferSize : UInt64) : Traffic := ⟨.create count bufferSize, []⟩

/-- Replaces a checkout and the pool. -/
def update (t : Traffic) (i : Nat) (c : Checkout) (p : Pool) : Traffic :=
  ⟨p, t.checkouts.set i c⟩

/-- The next step of a checkout, if there is one. -/
def step (p : Pool) : Checkout → Option (Checkout × Pool)
  | .taking =>
    match p.takeFree with
    | .waits => none
    | .fails e => some (.refused e, p)
    | .gives (b, p') => some (.counting b, p')
  | .counting b => some (.looking b p.countOut.outstanding, p.countOut)
  | .looking b now => some (.marking b now p.highWater, p)
  | .marking b now seen =>
    if now ≤ seen then some (.holding b, p)
    else
      match p.swapMark seen now with
      | some p' => some (.holding b, p')
      | none => some (.marking b now p.highWater, p)
  | .uncounting b => some (.returning b, p.countIn)
  | .returning b =>
    match p.putFree b with
    | .gives p' => some (.returned, p')
    | .fails _ => some (.returned, p)
    | .waits => none
  | .holding _ | .returned | .refused _ => none

/-- What a step does; `none` when it is not possible. -/
def next (t : Traffic) : Action → Option Traffic
  | .ask => some { t with checkouts := t.checkouts ++ [.taking] }
  | .letGo i =>
    match t.checkouts[i]? with
    | some (.holding b) => some (t.update i (.uncounting b) t.pool)
    | _ => none
  | .advance i =>
    match t.checkouts[i]? with
    | some c => (step t.pool c).map fun r => t.update i r.1 r.2
    | none => none
  | .falter i =>
    match t.checkouts[i]? with
    | some (.marking b now seen) =>
      if now ≤ seen then none else some (t.update i (.marking b now t.pool.highWater) t.pool)
    | _ => none
  | .interrupt => some { t with pool := t.pool.interrupt }
  | .clearInterrupt => some { t with pool := t.pool.clearInterrupt }

/-- What can come about from a new pool. -/
inductive Reachable (count : UInt32) (bufferSize : UInt64) : Traffic → Prop where
  | create : Reachable count bufferSize (create count bufferSize)
  | next {t t' : Traffic} {a : Action} :
      Reachable count bufferSize t → t.next a = some t' → Reachable count bufferSize t'

/-! ## 1. One way to go on -/

/-- The first checkout that can take a step. -/
def movable? (t : Traffic) : Option Nat := t.checkouts.findIdx? fun c => (step t.pool c).isSome

/-- Takes at most `fuel` steps of checkouts. -/
def settleWithin (t : Traffic) : (fuel : Nat) → Traffic
  | 0 => t
  | fuel + 1 =>
    match t.movable? with
    | none => t
    | some i =>
      match t.next (.advance i) with
      | none => t
      | some t' => t'.settleWithin fuel

/-- Takes steps until every checkout holds, waits or has come to its end. -/
def settle (t : Traffic) : Traffic := t.settleWithin (8 * (t.checkouts.length + 1))

/-- Takes one step and lets every checkout go on. -/
def perform (t : Traffic) (a : Action) : Traffic :=
  match t.next a with
  | some t' => t'.settle
  | none => t

/-- The checkout with a number. -/
def checkout (t : Traffic) (i : Nat) : Checkout := t.checkouts.getD i .returned

end Traffic

end Intake.Pool
