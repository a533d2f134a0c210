/-
# How far the counts of a crew are behind

A job that `Submit` brings to a `WorkerDispatcher` comes into the queue first and is counted as
submitted afterwards, in a step of its own.  In between a worker may take it, run it and count it as
ended.  So there are two kinds of jobs that make the counts differ: those that came in and were not
run to a counted end (`unfinished`), and those that came in and have still to be counted as
submitted (`uncounted`).  All jobs that came in are of the first kind or were counted as ended
(`Placed`), and all are of the second kind or were counted as submitted (`Served.counted`).

**No more jobs are counted as ended than as submitted exactly as long as no more of them are
uncounted than unfinished** (`ended_le_submitted_iff`); so it is in particular when nobody who
brings a job stands between the two steps.  A single job that is run at once is enough to make the
difference wrap (`ended_before_submitted`).

None of that depends on how many workers there are, or on how their jobs end.  For that reason it is
about numbers of jobs and not about the jobs: a queue whose slot numbers wrap counts an item that it
has lost.
-/
import Mathlib
import Intake.Proofs.Crew.Fates

namespace Intake

variable {Job : Type}

/-- A job that ended with something that is no error. -/
def Occurrence.escaped? : Occurrence Job → Option Job
  | ended _ j .escaped => some j
  | ended _ _ .returned | ended _ _ (.threw _) | started _ | accepted _ | taken .. | begun ..
  | dropped _ => none

namespace Crew

/-- What somebody who looks at the counts takes for the number of jobs that are not done. -/
def backlog (c : Crew Job) : UInt64 := c.submitted - c.completed - c.failed

namespace Traffic

variable {name : Bytes} {workers : UInt32} {t t' : Traffic Job} {a : Action Job}

/-- The jobs that ended with something that is no error. -/
def escaped (t : Traffic Job) : List Job := t.history.filterMap Occurrence.escaped?

/-- How many jobs came in and have still to be counted as submitted. -/
def uncounted (t : Traffic Job) : Nat := t.visits.countP Visit.isCounting

/-- How many jobs came in and were not run to an end that is counted: those in the queue and with
workers, and those that were given up or ended with something that is no error. -/
def unfinished (t : Traffic Job) : Nat :=
  t.crew.queue.size.toNat + t.crew.held.length + t.dropped.length + t.escaped.length

/-- Every job that came in is unfinished or was counted as ended. -/
structure Placed (t : Traffic Job) : Prop where
  sized : t.crew.queue.ring.Sized
  places : t.accepted.length = t.unfinished + t.returned.length + t.threw.length
  completed : t.crew.completed = UInt64.ofNat t.returned.length
  failed : t.crew.failed = UInt64.ofNat t.threw.length

/-! ## 1. Jobs that came in -/

section Step

variable {c : Crew Job} {visits : List (Visit Job)} {o : Option (Occurrence Job)}

theorem length_noted {α : Type} (history : List (Occurrence Job))
    (pick : Occurrence Job → Option α) :
    ((history ++ o.toList).filterMap pick).length
      = (history.filterMap pick).length + (o.bind pick).toList.length := by
  rw [filterMap_noted, List.length_append]

theorem Placed.noted (h : t.Placed) (hsized : c.queue.ring.Sized)
    (hplaces : (o.bind Occurrence.accepted?).toList.length
        + (t.crew.queue.size.toNat + t.crew.held.length)
      = c.queue.size.toNat + c.held.length + (o.bind Occurrence.returned?).toList.length
        + (o.bind Occurrence.threw?).toList.length + (o.bind Occurrence.dropped?).toList.length
        + (o.bind Occurrence.escaped?).toList.length)
    (hcompleted : c.completed
      = t.crew.completed + UInt64.ofNat (o.bind Occurrence.returned?).toList.length)
    (hfailed : c.failed = t.crew.failed + UInt64.ofNat (o.bind Occurrence.threw?).toList.length) :
    (⟨c, visits, t.history ++ o.toList⟩ : Traffic Job).Placed := by
  have hold := h.places
  simp only [unfinished, accepted, returned, threw, dropped, escaped] at hold
  refine ⟨hsized, ?_, ?_, ?_⟩
  · simp only [unfinished, accepted, returned, threw, dropped, escaped, length_noted]
    omega
  · rw [hcompleted, h.completed, returned, returned, length_noted, UInt64.ofNat_add]
  · rw [hfailed, h.failed, threw, threw, length_noted, UInt64.ofNat_add]

theorem Placed.same (h : t.Placed) (ho : o = none ∨ ∃ n, o = some (.started n))
    (hring : c.queue.ring = t.crew.queue.ring) (hheld : c.held = t.crew.held)
    (hcompleted : c.completed = t.crew.completed) (hfailed : c.failed = t.crew.failed) :
    (⟨c, visits, t.history ++ o.toList⟩ : Traffic Job).Placed := by
  have hsized : c.queue.ring.Sized := by
    rw [hring]
    exact h.sized
  have hsize : c.queue.size = t.crew.queue.size := by rw [Channel.size, hring, Channel.size]
  rcases ho with rfl | ⟨n, rfl⟩
  · exact h.noted hsized (by simp [hsize, hheld]) (by simp [hcompleted]) (by simp [hfailed])
  · refine h.noted hsized ?_ ?_ ?_
    · simp [Occurrence.accepted?, Occurrence.returned?, Occurrence.threw?, Occurrence.dropped?,
        Occurrence.escaped?, hsize, hheld]
    · simp [Occurrence.returned?, hcompleted]
    · simp [Occurrence.threw?, hfailed]

theorem Placed.queues {j : Job} {queue : Channel Job} (h : t.Placed)
    (hput : t.crew.queue.put j = .gives queue) :
    (⟨{ t.crew with queue }, visits, t.history ++ [.accepted j]⟩ : Traffic Job).Placed := by
  obtain ⟨hroom, rfl⟩ := Channel.of_put_gives h.sized hput
  have hsize : (t.crew.queue.ring.push j).count.toNat = t.crew.queue.ring.count.toNat + 1 :=
    Ring.toNat_count_push hroom j
  refine h.noted (o := some (.accepted j)) (h.sized.push hroom j) ?_ ?_ ?_
  · simp only [Option.bind_some, Occurrence.accepted?, Occurrence.returned?, Occurrence.threw?,
      Occurrence.dropped?, Occurrence.escaped?, Channel.size, hsize, held]
    simp only [Option.toList_some, Option.toList_none, List.length_singleton, List.length_nil]
    omega
  · exact (UInt64.add_zero _).symm
  · exact (UInt64.add_zero _).symm

theorem Placed.moved {i : Nat} {w w' : Worker Job} (h : t.Placed)
    (hi : t.crew.workers[i]? = some w) (hworkers : c.workers = (t.crew.setWorker i w').workers)
    (hsized : c.queue.ring.Sized) (hnew : o.bind Occurrence.accepted? = none)
    (hplaces : t.crew.queue.size.toNat + w.job?.toList.length
      = c.queue.size.toNat + w'.job?.toList.length + (o.bind Occurrence.returned?).toList.length
        + (o.bind Occurrence.threw?).toList.length + (o.bind Occurrence.dropped?).toList.length
        + (o.bind Occurrence.escaped?).toList.length)
    (hcompleted : c.completed
      = t.crew.completed + UInt64.ofNat (o.bind Occurrence.returned?).toList.length)
    (hfailed : c.failed = t.crew.failed + UInt64.ofNat (o.bind Occurrence.threw?).toList.length) :
    (⟨c, visits, t.history ++ o.toList⟩ : Traffic Job).Placed := by
  obtain ⟨before, behind, hsplit, hmoved⟩ := workers_split hi
  have hheld : (w.job?.toList ++ c.held).Perm (w'.job?.toList ++ t.crew.held) :=
    filterMap_moved Worker.job? hsplit (hworkers.trans (hmoved w'))
  have hlength := hheld.length_eq
  simp only [List.length_append] at hlength
  refine h.noted hsized ?_ hcompleted hfailed
  rw [hnew, Option.toList_none, List.length_nil]
  omega

/-- **A step of a worker** takes a job from one place to the next. -/
theorem Placed.work {i : Nat} (h : t.Placed) (hwork : t.crew.work i = some (c, o)) :
    (⟨c, t.visits, t.history ++ o.toList⟩ : Traffic Job).Placed := by
  cases round_of_work hwork with
  | goesOn hi _ | stops hi _ | findsNone _ hi _ | leaves hi =>
    exact h.moved hi rfl h.sized rfl (by simp [Worker.job?, setWorker, countOut])
      (UInt64.add_zero _).symm (UInt64.add_zero _).symm
  | takes j queue hi htake =>
    obtain ⟨hsome, rfl⟩ := Channel.of_take_gives htake
    have hsize : t.crew.queue.ring.count.toNat = t.crew.queue.ring.advance.count.toNat + 1 :=
      (Ring.toNat_count_advance hsome).symm
    refine h.moved hi rfl (h.sized.advance hsome) rfl ?_ (UInt64.add_zero _).symm
      (UInt64.add_zero _).symm
    simp only [Option.bind_some, Worker.job?, Occurrence.returned?, Occurrence.threw?,
      Occurrence.dropped?, Occurrence.escaped?, Channel.size, setWorker, hsize, Option.toList_some,
      Option.toList_none, List.length_singleton, List.length_nil]
  | begins j hi _ =>
    refine h.moved hi rfl h.sized rfl ?_ (UInt64.add_zero _).symm (UInt64.add_zero _).symm
    simp [Worker.job?, setWorker, Occurrence.returned?, Occurrence.threw?, Occurrence.dropped?,
      Occurrence.escaped?]
  | drops j hi _ =>
    refine h.moved hi rfl h.sized rfl ?_ (UInt64.add_zero _).symm (UInt64.add_zero _).symm
    simp [Worker.job?, setWorker, Occurrence.returned?, Occurrence.threw?, Occurrence.dropped?,
      Occurrence.escaped?]

/-- **A job that ends** is counted, unless it ends with something that is no error. -/
theorem Placed.finish {i : Nat} {ending : Ending} {j : Job} (h : t.Placed)
    (hfinish : t.crew.finish i ending = some (c, j)) :
    (⟨c, t.visits, t.history ++ [.ended i j ending]⟩ : Traffic Job).Placed := by
  obtain ⟨hi, rfl⟩ := of_finish hfinish
  have hplaces : ∀ c : Crew Job, c.queue = t.crew.queue →
      t.crew.queue.size.toNat + (Worker.running j).job?.toList.length
        = c.queue.size.toNat + (Worker.looking : Worker Job).job?.toList.length + 1 := by
    rintro c hqueue
    rw [hqueue]
    rfl
  cases ending with
  | returned =>
    exact h.moved (o := some (.ended i j .returned)) hi rfl h.sized rfl (hplaces _ rfl) rfl
      (UInt64.add_zero _).symm
  | threw what =>
    exact h.moved (o := some (.ended i j (.threw what))) hi rfl h.sized rfl (hplaces _ rfl)
      (UInt64.add_zero _).symm rfl
  | escaped =>
    exact h.moved (o := some (.ended i j .escaped)) hi rfl h.sized rfl (hplaces _ rfl)
      (UInt64.add_zero _).symm (UInt64.add_zero _).symm

end Step

theorem Placed.next (h : t.Placed) (hnext : t.next a = some t') : t'.Placed := by
  cases (move_of_next hnext).2 with
  | call r => exact ⟨h.sized, h.places, h.completed, h.failed⟩
  | advance before behind v s hsplit hs =>
    cases stride_of_step hs with
    | queues j queue hput => exact h.queues hput
    | announces => exact h.same (Or.inr ⟨_, rfl⟩) rfl rfl rfl rfl
    | hires left => exact h.same (Or.inl rfl) rfl (by simp [held, hire, Worker.job?]) rfl rfl
    | _ => exact h.same (Or.inl rfl) rfl rfl rfl rfl
  | expire before behind ms hsplit => exact ⟨h.sized, h.places, h.completed, h.failed⟩
  | work i c o hwork => exact h.work hwork
  | finish i ending c j hfinish => exact h.finish hfinish

theorem placed_create (name : Bytes) (workers : UInt32) :
    (create name workers : Traffic Job).Placed :=
  ⟨Ring.sized_create _, rfl, rfl, rfl⟩

/-- **Wherever a crew comes, every job that came in is in its place.** -/
theorem Reachable.placed (h : Reachable name workers t) : t.Placed :=
  h.keeps (placed_create name workers) fun hplaced hnext => hplaced.next hnext

/-! ## 2. Jobs that are counted as submitted -/

theorem Served.counted {requests : List (Request Job)} (h : t.Served requests) :
    t.accepted.length = t.visits.countP Visit.isAccepted + t.uncounted :=
  h.accepted.length_eq.trans (length_handedOver h.visits)

theorem Reachable.served (h : Reachable name workers t) : ∃ requests, t.Served requests := by
  refine h.keeps (P := fun t => ∃ requests, t.Served requests) ⟨[], .nil, .refl _, rfl⟩ ?_
  rintro t a t' ⟨requests, hserved⟩ hnext
  exact ⟨_, hserved.next hnext⟩

/-- As long as the counts have not wrapped, they differ by the jobs that are unfinished or
uncounted. -/
theorem Reachable.counts (h : Reachable name workers t) (hfew : t.accepted.length < UInt64.size) :
    t.crew.submitted.toNat + t.uncounted
      = t.crew.completed.toNat + t.crew.failed.toNat + t.unfinished := by
  obtain ⟨requests, hserved⟩ := h.served
  have hplaced := h.placed
  have hplaces := hplaced.places
  have hcounted := hserved.counted
  rw [hserved.submitted, hplaced.completed, hplaced.failed, UInt64.toNat_ofNat_of_lt' (by omega),
    UInt64.toNat_ofNat_of_lt' (by omega), UInt64.toNat_ofNat_of_lt' (by omega)]
  omega

/-! ## 3. What the counts say -/

/-- **When the counts of ended jobs are behind those of submitted ones.**  As long as fewer than
`2 ^ 64` jobs came in, the ended jobs are no more than the submitted ones exactly if no more jobs
are uncounted than unfinished.  Then the difference is the number of unfinished jobs, less those
that are uncounted; otherwise it wraps.  The ended jobs are never more than the submitted and the
uncounted ones together.

The jobs that came in are counted in two ways: as submitted or uncounted, and as ended or
unfinished. Both sums are the same number. -/
theorem ended_le_submitted_iff (h : Reachable name workers t)
    (hfew : t.accepted.length < UInt64.size) :
    (t.crew.completed.toNat + t.crew.failed.toNat ≤ t.crew.submitted.toNat ↔
      t.uncounted ≤ t.unfinished) ∧
    t.crew.completed.toNat + t.crew.failed.toNat ≤ t.crew.submitted.toNat + t.uncounted ∧
    t.crew.backlog.toNat = if t.uncounted ≤ t.unfinished then t.unfinished - t.uncounted
      else UInt64.size - (t.uncounted - t.unfinished) := by
  obtain ⟨requests, hserved⟩ := h.served
  have hcounted := hserved.counted
  have hcounts := h.counts hfew
  have hsubmitted := t.crew.submitted.toNat_lt
  have hcompleted := t.crew.completed.toNat_lt
  have hfailed := t.crew.failed.toNat_lt
  have hsize : UInt64.size = 2 ^ 64 := rfl
  refine ⟨⟨by omega, by omega⟩, by omega, ?_⟩
  rw [backlog, UInt64.toNat_sub, UInt64.toNat_sub]
  split <;> omega

/-- One worker, and a job that was brought and not counted, which the worker runs. -/
def runsUncounted : List (Action Nat) :=
  [.call .start, .advance 0, .advance 0, .advance 0, .advance 0, .advance 0, .advance 0,
    .call (.submit 7), .advance 1, .advance 1, .work 0, .work 0, .work 0]

/-- Another job that is counted and waits makes up for it. -/
theorem ended_le_submitted_of_counted :
    ∃ t : Traffic Nat,
      (create [] 1).follow (runsUncounted ++ [.finish 0 .returned, .call (.submit 8), .advance 2,
        .advance 2, .advance 2]) = some t ∧
      t.accepted.length < UInt64.size ∧ t.uncounted = 1 ∧ t.unfinished = 1 ∧
      t.crew.completed.toNat + t.crew.failed.toNat ≤ t.crew.submitted.toNat ∧
      t.crew.backlog.toNat = 0 := by
  obtain ⟨t, hrun, hfew, huncounted, hunfinished⟩ : ∃ t : Traffic Nat,
      (create [] 1).follow (runsUncounted ++ [.finish 0 .returned, .call (.submit 8), .advance 2,
        .advance 2, .advance 2]) = some t ∧
      t.accepted.length < UInt64.size ∧ t.uncounted = 1 ∧ t.unfinished = 1 :=
    ⟨_, rfl, by decide, rfl, rfl⟩
  obtain ⟨hahead, -, hbacklog⟩ := ended_le_submitted_iff (reachable_iff.mpr ⟨_, hrun⟩) hfew
  have hle : t.uncounted ≤ t.unfinished := by omega
  rw [if_pos hle, huncounted, hunfinished] at hbacklog
  exact ⟨t, hrun, hfew, huncounted, hunfinished, hahead.mpr hle, hbacklog⟩

/-- **A job that is run before it is counted** makes the counts run ahead, and the difference wraps. -/
theorem ended_before_submitted :
    ∃ t : Traffic Nat, (create [] 1).follow (runsUncounted ++ [.finish 0 .returned]) = some t ∧
      t.crew.submitted = 0 ∧ t.crew.completed = 1 ∧ t.crew.failed = 0 ∧
      t.crew.backlog = 18446744073709551615 :=
  ⟨_, rfl, rfl, rfl, rfl, rfl⟩

end Traffic

end Crew

end Intake
