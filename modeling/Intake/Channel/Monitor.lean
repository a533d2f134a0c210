/-
# Calls that wait

A monitor is a `BoundedChannel` with the calls that are going on in it, each in a thread of its own.
A call runs its critical section as one step; when it has to wait it falls asleep on `not_full_` or
`not_empty_`, and it looks again whenever it is woken.  A call that changed something tells the
sleepers of the other side, one (`notify_one`) or all of them (`notify_all`), in a later step, after
it has let go of the channel.  Sleepers may also stir without being told, and the wait of a
`TakeFor` may be over at any time.

`next` says what each step does, for every choice that the steps leave open.  `settle` takes steps
until every call has returned or sleeps.
-/
import Intake.Channel.Basic
import Intake.Deadline

namespace Intake.Channel

/-- What one can ask of a channel. -/
inductive Call (α : Type) where
  | put (item : α)
  | take
  | takeFor (ms : UInt64)
  | interrupt
  | clearInterrupt
  | close
  deriving DecidableEq, Repr

/-- What a call returns. -/
inductive Answer (α : Type) where
  | accepted
  | item (x : α)
  /-- What stood in the slot whose turn it was, where that is no item: the numbers of the slots wrap
  around in a channel for more than 2147483648 items. -/
  | blank
  | refused (cause : ChannelError)
  | done
  deriving DecidableEq, Repr

/-- What sleepers wait for. -/
inductive Condition where
  | notFull
  | notEmpty
  deriving DecidableEq, Repr

/-- A message to the sleepers of a condition. -/
inductive Notice where
  | one (condition : Condition)
  | all (condition : Condition)
  deriving DecidableEq, Repr

/-- What a critical section leaves: an answer, messages still to be sent, and the channel. -/
structure Section (α : Type) where
  answer : Answer α
  notices : List Notice
  channel : Channel α
  deriving DecidableEq, Repr

variable {α : Type}

/-- The condition that a call may have to wait for. -/
def Call.condition? : Call α → Option Condition
  | put _ => some .notFull
  | take | takeFor _ => some .notEmpty
  | interrupt | clearInterrupt | close => none

/-- True for a call whose wait has a deadline. -/
def Call.isTimed : Call α → Bool
  | takeFor _ => true
  | _ => false

/-- Everybody who waits has a reason to look again. -/
def everyone : List Notice := [.all .notFull, .all .notEmpty]

/-- What a take does. -/
def takeSection (c : Channel α) : Option (Section α) :=
  match c.take with
  | .waits => none
  | .fails e =>
    if c.size = 0 then some ⟨.refused e, [], c⟩
    else some ⟨.blank, [.one .notFull], { c with ring := c.ring.advance }⟩
  | .gives (x, c') => some ⟨.item x, [.one .notFull], c'⟩

/-- The critical section of a call; `none` when it has to wait.  `expired` says that its deadline
has passed. -/
def critical (c : Channel α) (expired : Bool) : Call α → Option (Section α)
  | .put x =>
    match c.put x with
    | .waits => none
    | .fails e => some ⟨.refused e, [], c⟩
    | .gives c' => some ⟨.accepted, [.one .notEmpty], c'⟩
  | .take => c.takeSection
  | .takeFor _ =>
    match c.takeSection with
    | some s => some s
    | none => if expired then some ⟨.refused .timeout, [], c⟩ else none
  | .interrupt => some ⟨.done, everyone, c.interrupt⟩
  | .clearInterrupt => some ⟨.done, [], c.clearInterrupt⟩
  | .close => some ⟨.done, everyone, c.close⟩

/-! ## 1. Calls side by side -/

/-- How far a call has come. -/
inductive Phase (α : Type) where
  /-- It wants the channel for its critical section. -/
  | awake
  /-- It sleeps on its condition. -/
  | asleep
  /-- It has left the channel and still has messages to send. -/
  | telling (notices : List Notice) (answer : Answer α)
  | returned (answer : Answer α)
  deriving DecidableEq, Repr

/-- A call that is going on or has returned. -/
structure Thread (α : Type) where
  call : Call α
  phase : Phase α
  expired : Bool
  deriving DecidableEq, Repr

/-- What a thread returned, once it has. -/
def Thread.answer? (t : Thread α) : Option (Answer α) :=
  match t.phase with
  | .returned a => some a
  | _ => none

/-- True for a thread that sleeps. -/
def Thread.isAsleep (t : Thread α) : Bool :=
  match t.phase with
  | .asleep => true
  | _ => false

/-- True for a thread that sleeps on a condition. -/
def Thread.sleepsOn (t : Thread α) (c : Condition) : Bool :=
  t.isAsleep && t.call.condition? == some c

/-- The thread, looking again. -/
def Thread.wake (t : Thread α) : Thread α := { t with phase := .awake }

/-- The phase after some messages were sent. -/
def Phase.told (notices : List Notice) (answer : Answer α) : Phase α :=
  if notices.isEmpty then .returned answer else .telling notices answer

/-- A channel and the calls made on it, in the order in which they came. -/
structure Monitor (α : Type) where
  channel : Channel α
  threads : List (Thread α)
  deriving DecidableEq, Repr

namespace Monitor

/-- What can happen next. -/
inductive Action (α : Type) where
  /-- A new call comes. -/
  | enter (call : Call α)
  /-- An awake thread runs its critical section. -/
  | run (thread : Nat)
  /-- A thread sends its next message; a message to one sleeper goes to `chosen`. -/
  | tell (thread : Nat) (chosen : Option Nat)
  /-- A sleeper stirs without being told. -/
  | stir (thread : Nat)
  /-- The deadline of a sleeper passes. -/
  | expire (thread : Nat)
  deriving DecidableEq, Repr

/-- A monitor without calls. -/
def create (capacity : UInt32) : Monitor α := ⟨.create capacity, []⟩

/-- The monitor with a new call. -/
def entered (m : Monitor α) (call : Call α) : Monitor α :=
  { m with threads := m.threads ++ [⟨call, .awake, false⟩] }

/-- True when a thread sleeps on a condition. -/
def sleepsOn (m : Monitor α) (c : Condition) (i : Nat) : Bool :=
  match m.threads[i]? with
  | some t => t.sleepsOn c
  | none => false

/-- Replaces a thread. -/
def setThread (m : Monitor α) (i : Nat) (t : Thread α) : Monitor α :=
  { m with threads := m.threads.set i t }

/-- Changes a thread. -/
def modifyThread (m : Monitor α) (i : Nat) (f : Thread α → Thread α) : Monitor α :=
  { m with threads := m.threads.modify i f }

/-- Wakes everyone who sleeps on a condition. -/
def wakeAll (m : Monitor α) (c : Condition) : Monitor α :=
  { m with threads := m.threads.map fun t => if t.sleepsOn c then t.wake else t }

/-- Delivers a message; `none` when the choice of a sleeper does not fit it. -/
def deliver (m : Monitor α) (n : Notice) (chosen : Option Nat) : Option (Monitor α) :=
  match n, chosen with
  | .all c, none => some (m.wakeAll c)
  | .all _, some _ => none
  | .one c, some j => if m.sleepsOn c j then some (m.modifyThread j Thread.wake) else none
  | .one c, none => if m.threads.any fun t => t.sleepsOn c then none else some m

/-- What a step does; `none` when it is not possible. -/
def next (m : Monitor α) : Action α → Option (Monitor α)
  | .enter call => some (m.entered call)
  | .run i =>
    match m.threads[i]? with
    | some ⟨call, .awake, expired⟩ =>
      match m.channel.critical expired call with
      | none => some (m.setThread i ⟨call, .asleep, expired⟩)
      | some s =>
        some { (m.setThread i ⟨call, .told s.notices s.answer, expired⟩) with channel := s.channel }
    | _ => none
  | .tell i chosen =>
    match m.threads[i]? with
    | some ⟨call, .telling (n :: rest) answer, expired⟩ =>
      (m.deliver n chosen).map fun m' => m'.setThread i ⟨call, .told rest answer, expired⟩
    | _ => none
  | .stir i =>
    match m.threads[i]? with
    | some t => if t.isAsleep then some (m.setThread i t.wake) else none
    | none => none
  | .expire i =>
    match m.threads[i]? with
    | some t =>
      if t.isAsleep && t.call.isTimed then some (m.setThread i { t.wake with expired := true })
      else none
    | none => none

/-- What can come about from an empty channel. -/
inductive Reachable (capacity : UInt32) : Monitor α → Prop where
  | create : Reachable capacity (create capacity)
  | next {m m' : Monitor α} {a : Action α} :
      Reachable capacity m → m.next a = some m' → Reachable capacity m'

/-! ## 2. One way to go on -/

/-- True for a thread that wants the channel. -/
def wantsChannel (t : Thread α) : Bool :=
  match t.phase with
  | .awake => true
  | _ => false

/-- True for a thread that has messages to send. -/
def hasMessages (t : Thread α) : Bool :=
  match t.phase with
  | .telling .. => true
  | _ => false

/-- The sleeper that a message to one goes to: the one whose call came first. -/
def firstSleeper (m : Monitor α) (i : Nat) : Option Nat :=
  match m.threads[i]? with
  | some ⟨_, .telling (.one c :: _) _, _⟩ => m.threads.findIdx? fun t => t.sleepsOn c
  | _ => none

/-- A step of a call that is going on: critical sections first, then messages. -/
def pending? (m : Monitor α) : Option (Action α) :=
  match m.threads.findIdx? wantsChannel with
  | some i => some (.run i)
  | none => (m.threads.findIdx? hasMessages).map fun i => .tell i (m.firstSleeper i)

/-- Takes at most `fuel` steps of calls that are going on. -/
def settleWithin (m : Monitor α) : (fuel : Nat) → Monitor α
  | 0 => m
  | fuel + 1 =>
    match m.pending? with
    | none => m
    | some a =>
      match m.next a with
      | none => m
      | some m' => m'.settleWithin fuel

/-- Takes steps until every call has returned or sleeps. -/
def settle (m : Monitor α) : Monitor α :=
  m.settleWithin (4 * (m.threads.length + 1) * (m.threads.length + 1))

/-- A call comes, and every call goes on as far as it can. -/
def call (m : Monitor α) (c : Call α) : Monitor α := (m.entered c).settle

/-- The deadline of a sleeper passes, and every call goes on as far as it can. -/
def expire (m : Monitor α) (i : Nat) : Monitor α :=
  match m.next (.expire i) with
  | some m' => m'.settle
  | none => m

/-- What a thread returned. -/
def answer? (m : Monitor α) (i : Nat) : Option (Answer α) := (m.threads[i]?).bind Thread.answer?

end Monitor

end Intake.Channel
