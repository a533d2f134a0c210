/-
# Visitors and workers side by side

`Traffic` is a `WorkerDispatcher` with its workers, every call on it that was ever made, and all
that has happened; `next` takes one visitor or one worker one step further, lets a deadline pass, or
ends the running of a job.  `settle` takes steps until everybody waits, runs a job, or has come to
an end.
-/
import Intake.Crew.Visit

namespace Intake.Crew

/-- A crew, the visits paid to it in the order in which they began, and what has happened so far. -/
structure Traffic (Job : Type) where
  crew : Crew Job
  visits : List (Visit Job)
  history : List (Occurrence Job)
  deriving DecidableEq, Repr

namespace Traffic

variable {Job : Type}

/-- What can happen next. -/
inductive Action (Job : Type) where
  | call (request : Request Job)
  /-- A visitor takes its next step. -/
  | advance (visit : Nat)
  /-- The deadline of a visitor passes. -/
  | expire (visit : Nat)
  /-- A worker takes its next step. -/
  | work (worker : Nat)
  /-- The job of a worker ends. -/
  | finish (worker : Nat) (ending : Ending)
  deriving DecidableEq, Repr

/-- A crew without visitors. -/
def create (name : Bytes) (workers : UInt32) : Traffic Job := ⟨.create name workers, [], []⟩

/-- Notes what happened. -/
def note (t : Traffic Job) (o : Option (Occurrence Job)) : Traffic Job :=
  { t with history := t.history ++ o.toList }

/-- What a step does; `none` when it is not possible. -/
def next (t : Traffic Job) (a : Action Job) : Option (Traffic Job) :=
  if t.crew.aborted then none
  else
    match a with
    | .call r => some { t with visits := t.visits ++ [r.visit] }
    | .advance i =>
      match t.visits[i]? with
      | none => none
      | some v => (v.step t.crew).map fun s =>
        { t with crew := s.crew, visits := t.visits.set i s.visit }.note s.occurrence
    | .expire i =>
      match t.visits[i]? with
      | none => none
      | some v => v.expire.map fun v' => { t with visits := t.visits.set i v' }
    | .work i => (t.crew.work i).map fun r => { t with crew := r.1 }.note r.2
    | .finish i ending =>
      (t.crew.finish i ending).map fun r =>
        { t with crew := r.1 }.note (some (.ended i r.2 ending))

/-- What can come about from a new crew. -/
inductive Reachable (name : Bytes) (workers : UInt32) : Traffic Job → Prop where
  | create : Reachable name workers (create name workers)
  | next {t t' : Traffic Job} {a : Action Job} :
      Reachable name workers t → t.next a = some t' → Reachable name workers t'

/-- What is reported about the history. -/
def events (t : Traffic Job) : List Event :=
  t.history.filterMap fun o => o.event? t.crew.name.text

/-- The jobs that are somewhere: with a visitor, in the queue or with a worker. -/
def jobs (t : Traffic Job) : List Job :=
  t.visits.filterMap Visit.job? ++ t.crew.queue.toList ++ t.crew.held

/-- How many jobs have been run to an end. -/
def endedCount (t : Traffic Job) : Nat :=
  t.history.countP fun o =>
    match o with
    | .ended .. => true
    | _ => false

/-- What a visitor was told. -/
def reply? (t : Traffic Job) (i : Nat) : Option (Reply Job) := (t.visits[i]?).bind Visit.reply?

/-! ## 1. One way to go on -/

/-- A step that somebody can take: visitors first, then workers. -/
def pending? (t : Traffic Job) : Option (Action Job) :=
  match t.visits.findIdx? fun v => (v.step t.crew).isSome with
  | some i => some (.advance i)
  | none => t.crew.ready?.map .work

/-- Takes at most `fuel` steps. -/
def settleWithin (t : Traffic Job) : (fuel : Nat) → Traffic Job
  | 0 => t
  | fuel + 1 =>
    match t.pending? with
    | none => t
    | some a =>
      match t.next a with
      | none => t
      | some t' => t'.settleWithin fuel

/-- A bound on the steps there are: a visit takes a step for each worker that it hires and a few more,
and a worker takes a few before it runs a job or is gone. -/
def settleBound (t : Traffic Job) : Nat :=
  (t.crew.workerCount.toNat + 8) * (t.visits.length + 8)

/-- Takes steps until everybody waits, runs a job, or has come to an end. -/
def settle (t : Traffic Job) : Traffic Job := t.settleWithin t.settleBound

/-- Takes one step, and lets everybody go on. -/
def perform (t : Traffic Job) (a : Action Job) : Traffic Job :=
  match t.next a with
  | some t' => t'.settle
  | none => t

/-- Interrupts the crew, lets every running job return and takes the queue away. -/
def disband (t : Traffic Job) : Traffic Job :=
  let stopped := t.perform (.call .interrupt)
  let left := (List.range stopped.crew.workers.length).foldl
    (fun t i => t.perform (.finish i .returned)) stopped
  let r := left.crew.discardQueue
  { left with crew := r.1, history := left.history ++ r.2.map .dropped }

end Traffic

end Intake.Crew
