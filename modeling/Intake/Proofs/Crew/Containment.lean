/-
# What a job can do to the crew

A job that a worker of a `WorkerDispatcher` runs (`RunJob`) and that comes to an ordinary end or
ends with an error is contained (`Contained`): its worker goes on, the job is counted once, and the
jobs behind it are still run when the crew is shut down.  So it is wherever in a row of jobs that
happens and whatever the other workers and the visitors do.

**A job is contained unless it throws something that is no error** (`contained_iff`).  That is not
caught anywhere: the program is at its end, nothing is counted, and the jobs behind it are never run
(`escape_ends_all`).

That the jobs behind it are run is shown in two steps.  The steps that workers take are paid for by
the jobs that came in and the workers that were hired (`work_le`), so workers do not go on for ever;
and when they rest after the queue was closed, every worker is gone and nothing is left
(`Sound.finished`).
-/
import Mathlib
import Intake.Proofs.Crew.Fates
import Intake.Proofs.Crew.Stopping

namespace Intake.Crew

variable {Job : Type}

/-! ## 1. Visitors who interrupt the crew -/

/-- True for a visitor who came to interrupt the crew. -/
def Visit.isInterrupting : Visit Job → Bool
  | stopIntake | markInterrupted | interruptQueue | returned .interrupted => true
  | _ => false

theorem interrupt_notMem {requests : List (Request Job)} {visits : List (Visit Job)}
    (h : List.Forall₂ Serves requests visits) (hno : ∀ v ∈ visits, v.isInterrupting = false) :
    .interrupt ∉ requests := by
  induction h with
  | nil => nofun
  | @cons r v rs vs hr _ ih =>
    have hv := hno v List.mem_cons_self
    intro hmem
    rcases List.mem_cons.mp hmem with rfl | hmem
    · cases hr <;> cases hv
    · exact ih (fun v hv => hno v (List.mem_cons_of_mem _ hv)) hmem

/-! ## 2. Steps of workers are paid for -/

section Work

variable {c c' : Crew Job} {i : Nat}

theorem none_of_work {o : Option (Occurrence Job)} (h : c.work i = some (c', o)) :
    c'.workers.length = c.workers.length ∧ o.bind Occurrence.accepted? = none := by
  cases round_of_work h <;> exact ⟨length_setWorker _ _ _, rfl⟩

theorem workers_of_finish {ending : Ending} {j : Job} (h : c.finish i ending = some (c', j)) :
    c'.workers = c.workers.set i .looking := by
  rw [(of_finish h).2]
  cases ending <;> rfl

end Work

/-- A step of a visitor gives workers something to do only when it brings a job or a worker. -/
theorem Stride.toil {c : Crew Job} {items : List Job} {v : Visit Job} {s : Visit.Step Job}
    (h : Stride c v s) (hq : c.queue.Holds items) :
    s.crew.toil + 3 * c.workers.length = c.toil + 3 * s.crew.workers.length
      + 4 * (s.occurrence.bind Occurrence.accepted?).toList.length := by
  cases h with
  | hires left =>
    simp [Crew.toil, hire, Worker.toil]
    omega
  | queues j queue hput =>
    obtain ⟨hbehind, -, -⟩ := hq.of_put_gives hput
    have hbefore : c.queue.toList = items := hq.toList_eq
    have hafter : queue.toList = items ++ [j] := hbehind.toList_eq
    simp [Crew.toil, Occurrence.accepted?, hbefore, hafter]
    omega
  | _ => rfl

namespace Traffic

variable {name : Bytes} {workers : UInt32} {t t' : Traffic Job} {a : Action Job}
  {actions : List (Action Job)} {requests : List (Request Job)}

/-- True for what a worker does. -/
def Action.isWork : Action Job → Bool
  | work _ | finish .. => true
  | call _ | advance _ | expire _ => false

/-- What workers may cost: four steps for each job that came in, and three for each worker. -/
def allowance (t : Traffic Job) : Nat := 4 * t.accepted.length + 3 * t.crew.workers.length

theorem allowance_noted (t : Traffic Job) (c : Crew Job) (visits : List (Visit Job))
    (o : Option (Occurrence Job)) :
    (⟨c, visits, t.history ++ o.toList⟩ : Traffic Job).allowance
      = 4 * (t.accepted.length + (o.bind Occurrence.accepted?).toList.length)
        + 3 * c.workers.length := by
  rw [allowance, accepted, filterMap_noted, List.length_append, ← accepted]

/-- **Every step of a worker is paid for.** -/
theorem toil_next (hq : t.crew.queue.Holds t.crew.queue.toList) (hnext : t.next a = some t') :
    t'.crew.toil + t.allowance + a.isWork.toNat ≤ t.crew.toil + t'.allowance := by
  cases (move_of_next hnext).2 with
  | call r => exact Nat.le_refl _
  | advance before behind v s hsplit hs =>
    have hpaid := (stride_of_step hs).toil hq
    rw [allowance_noted, allowance]
    show s.crew.toil + _ + 0 ≤ _
    omega
  | expire before behind ms hsplit => exact Nat.le_refl _
  | work i c o hwork =>
    have hless := toil_work hq hwork
    have hsame := none_of_work hwork
    rw [allowance_noted, allowance, hsame.1, hsame.2]
    show c.toil + _ + 1 ≤ _ + (4 * (_ + 0) + _)
    omega
  | finish i ending c j hfinish =>
    have hless := toil_finish hfinish
    have hsame : c.workers.length = t.crew.workers.length := by
      rw [workers_of_finish hfinish, List.length_set]
    have hafter := allowance_noted t c t.visits (some (.ended i j ending))
    rw [hsame] at hafter
    show c.toil + _ + 1 ≤ _ + (⟨c, t.visits, t.history ++ (some (.ended i j ending)).toList⟩ :
      Traffic Job).allowance
    rw [hafter, allowance]
    show c.toil + _ + 1 ≤ _ + (4 * (_ + 0) + _)
    omega

/-- **Workers do not go on for ever**: all the steps that they take are paid for. -/
theorem work_le (hwide : workers.toNat ≤ Ring.widest) (hends : ∀ i, .finish i .escaped ∉ actions)
    (hrun : (create name workers).follow actions = some t) :
    actions.countP Action.isWork + t.crew.toil ≤ t.allowance := by
  induction actions using List.reverseRecOn generalizing t with
  | nil =>
    obtain rfl := Option.some.inj hrun
    have hnothing : (Channel.create (if 0 < workers then workers else 1) : Channel Job).toList = [] :=
      Ring.toList_create _
    simp [Crew.toil, Traffic.create, Crew.create, hnothing]
  | append_singleton actions a ih =>
    obtain ⟨t', hrow, hnext⟩ := follow_concat.mp hrun
    have hends' : ∀ i, .finish i .escaped ∉ actions := fun i hmem =>
      hends i (List.mem_append_left _ hmem)
    have hsofar := ih hends' hrow
    have hstep := toil_next (sound_of_follow hwide hends' hrow).accounted.holds hnext
    rw [List.countP_append, List.countP_singleton]
    cases ha : a.isWork <;> simp [ha] at hstep ⊢ <;> omega

/-! ## 3. Workers at rest -/

/-- No worker can take a step, and none runs a job. -/
def Resting (t : Traffic Job) : Prop := ∀ a : Action Job, a.isWork = true → t.next a = none

/-- The program goes on, unless something that is no error gets out of a job. -/
theorem aborted_of_next (hends : ∀ i, a ≠ .finish i .escaped) (hnext : t.next a = some t') :
    t'.crew.aborted = false := by
  obtain ⟨hgoes, hmove⟩ := move_of_next hnext
  cases hmove with
  | call r | expire before behind ms hsplit => exact hgoes
  | advance before behind v s hsplit hs => cases stride_of_step hs <;> exact hgoes
  | work i c o hwork => cases round_of_work hwork <;> exact hgoes
  | finish i ending c j hfinish =>
    rw [(of_finish hfinish).2]
    cases ending with
    | escaped => exact absurd rfl (hends i)
    | returned | threw what => exact hgoes

theorem aborted_of_follow (hends : ∀ i, .finish i .escaped ∉ actions)
    (hrun : (create name workers).follow actions = some t) : t.crew.aborted = false := by
  refine follow_keeps (P := fun t => t.crew.aborted = false) ?_ hrun rfl
  intro a ha t t' _ hnext
  refine aborted_of_next ?_ hnext
  rintro i rfl
  exact hends i ha

theorem take_ne_waits {c : Channel Job} (hclosed : c.closed = true) : c.take ≠ .waits := by
  have hready : c.takeReady = true := by simp [Channel.takeReady, hclosed]
  cases hpop : c.ring.pop? <;> simp [Channel.take, hready, hpop]

/-- When the queue is closed, only a worker that is gone neither takes a step nor runs a job. -/
theorem gone_of_resting (hgoes : t.crew.aborted = false) (hclosed : t.crew.queue.closed = true)
    (hrest : t.Resting) : ∀ w ∈ t.crew.workers, w = .gone := by
  intro w hw
  obtain ⟨i, hi⟩ := List.mem_iff_getElem?.mp hw
  have hwork := hrest (.work i) rfl
  have hfinish := hrest (.finish i .returned) rfl
  simp only [next, hgoes, Bool.false_eq_true, if_false, Option.map_eq_none_iff] at hwork hfinish
  cases w with
  | gone => rfl
  | running j => simp [Crew.finish, hi] at hfinish
  | taking =>
    cases htake : t.crew.queue.take with
    | waits => exact absurd htake (take_ne_waits hclosed)
    | fails cause => simp [Crew.work, hi, htake] at hwork
    | gives r => simp [Crew.work, hi, htake] at hwork
  | holding j =>
    simp only [Crew.work, hi] at hwork
    split at hwork <;> cases hwork
  | looking | leaving => simp [Crew.work, hi] at hwork

/-- As soon as there is a worker, the crew is staffed, but for those who are still to be hired. -/
theorem Sound.staffed (h : t.Sound requests) (hno : .interrupt ∉ requests) {w : Worker Job}
    (hw : w ∈ t.crew.workers) : ∃ due, t.crew.Staffed t.crew.queue.toList due := by
  have hopening := h.opening
  have hnobody : t.crew.workers ≠ [] := List.ne_nil_of_mem hw
  generalize hl : t.starters = l at hopening
  cases hopening with
  | fresh _ hfresh | opening _ hfresh => exact absurd hfresh.workers hnobody
  | counting _ hnone => exact absurd hnone hnobody
  | hiring left _ => exact ⟨left, (h.tended hno).2 left (Or.inl hl)⟩
  | opened hstarted => exact ⟨0, (h.tended hno).2 0 (Or.inr ⟨rfl, hstarted, hl⟩)⟩

/-- **Workers that rest after the queue was closed have left nothing**, if there are any and nobody
came to interrupt the crew: every job that came in was run to an end. -/
theorem Sound.finished (h : t.Sound requests) (hno : .interrupt ∉ requests)
    (hgoes : t.crew.aborted = false) (hclosed : t.crew.queue.closed = true)
    (hsome : t.crew.workers ≠ []) (hrest : t.Resting) :
    t.accepted.Perm (t.returned ++ t.threw) := by
  have hgone := gone_of_resting hgoes hclosed hrest
  obtain ⟨w, hw⟩ := List.exists_mem_of_ne_nil _ hsome
  obtain ⟨due, hstaffed⟩ := h.staffed hno hw
  have hqueue := (hstaffed.leaving w hw (Or.inr (hgone w hw))).2
  have hheld : t.crew.held = [] := by
    refine List.filterMap_eq_nil_iff.mpr ?_
    intro w hw
    rw [hgone w hw]
    rfl
  have hplaces := h.accounted.places
  rw [hqueue, hheld, (h.tended hno).1.dropped] at hplaces
  simpa using hplaces

/-! ## 4. What is contained -/

/-- The end of a job of the worker `i` has hurt nobody.  The worker is at the beginning of its round
again, and the job is counted once.  And whatever happens from then on, as long as no job throws
something that is no error and nobody comes to interrupt the crew, workers come to rest, and at rest
after a shutdown every job that came in was run to an end, also those that were in the queue. -/
structure Contained (t t' : Traffic Job) (i : Nat) : Prop where
  survives : t'.crew.workers = t.crew.workers.set i .looking ∧ (t'.next (.work i)).isSome
  counted : (t'.crew.completed = t.crew.completed + 1 ∧ t'.crew.failed = t.crew.failed) ∨
    (t'.crew.completed = t.crew.completed ∧ t'.crew.failed = t.crew.failed + 1)
  behind : ∀ {later : List (Action Job)} {t'' : Traffic Job}, t'.follow later = some t'' →
    (∀ k, .finish k .escaped ∉ later) → (∀ v ∈ t''.visits, v.isInterrupting = false) →
    later.countP Action.isWork ≤ t''.allowance ∧
      (.returned .closed ∈ t''.visits → t''.Resting →
        t''.accepted.Perm (t''.returned ++ t''.threw) ∧
        (t'.crew.queue.toList ++ (t'.returned ++ t'.threw)).Subperm (t''.returned ++ t''.threw))

theorem accepted_of_follow (h : t.follow actions = some t') : t.accepted <+: t'.accepted := by
  refine follow_keeps (P := fun u => t.accepted <+: u.accepted) ?_ h (List.prefix_refl _)
  intro a _ u u' hu hnext
  refine hu.trans ?_
  cases (move_of_next hnext).2 with
  | call r | expire before behind ms hsplit => exact List.prefix_refl _
  | advance before behind v s hsplit hs =>
    rw [accepted, accepted, filterMap_noted]
    exact List.prefix_append _ _
  | work i c o hwork =>
    rw [accepted, accepted, filterMap_noted]
    exact List.prefix_append _ _
  | finish i ending c j hfinish =>
    rw [accepted, accepted, List.filterMap_append]
    exact List.prefix_append _ _

theorem length_of_follow (h : t.follow actions = some t') :
    t.crew.workers.length ≤ t'.crew.workers.length := by
  refine follow_keeps (P := fun u => t.crew.workers.length ≤ u.crew.workers.length) ?_ h
    (Nat.le_refl _)
  intro a _ u u' hu hnext
  refine hu.trans ?_
  cases (move_of_next hnext).2 with
  | call r | expire before behind ms hsplit => exact Nat.le_refl _
  | advance before behind v s hsplit hs =>
    cases stride_of_step hs with
    | hires left => exact (List.sublist_append_left _ _).length_le
    | _ => exact Nat.le_refl _
  | work i c o hwork => exact (none_of_work hwork).1.ge
  | finish i ending c j hfinish =>
    show _ ≤ c.workers.length
    rw [workers_of_finish hfinish, List.length_set]

theorem Accounted.subperm (h : t.Accounted) :
    (t.crew.queue.toList ++ (t.returned ++ t.threw)).Subperm t.accepted := by
  classical
  refine List.subperm_iff_count.mpr fun j => ?_
  have hplaces := h.places.count_eq j
  simp only [List.count_append] at hplaces ⊢
  omega

section Ending

variable {before later : List (Action Job)} {i : Nat} {j : Job} {ending : Ending}
  {t'' : Traffic Job}

theorem next_finish (hgoes : t.crew.aborted = false)
    (hi : t.crew.workers[i]? = some (.running j)) (ending : Ending) :
    t.next (.finish i ending) = some ⟨(t.crew.setWorker i .looking).tally ending, t.visits,
      t.history ++ [.ended i j ending]⟩ := by
  simp [next, hgoes, Crew.finish, hi, note]

theorem goesOn_of_finish (hi : t.crew.workers[i]? = some (.running j))
    (hgoes : t'.crew.aborted = false) (hset : t'.crew.workers = t.crew.workers.set i .looking) :
    (t'.next (.work i)).isSome := by
  obtain ⟨hlt, -⟩ := List.getElem?_eq_some_iff.mp hi
  have hlooking : t'.crew.workers[i]? = some .looking := by
    rw [hset]
    exact List.getElem?_set_self hlt
  simp [next, hgoes, Crew.work, hlooking]

/-- **The jobs behind it are run**, when there is a worker, jobs end by themselves or with an error,
and nobody comes to interrupt the crew. -/
theorem run_of_closed (hwide : workers.toNat ≤ Ring.widest) (hsome : t.crew.workers ≠ [])
    (hends : ∀ k, .finish k .escaped ∉ before ++ later)
    (hrun : (create name workers).follow before = some t) (hlater : t.follow later = some t')
    (hvisits : ∀ v ∈ t'.visits, v.isInterrupting = false) :
    later.countP Action.isWork ≤ t'.allowance ∧
      (.returned .closed ∈ t'.visits → t'.Resting →
        t'.accepted.Perm (t'.returned ++ t'.threw) ∧
        (t.crew.queue.toList ++ (t.returned ++ t.threw)).Subperm (t'.returned ++ t'.threw)) := by
  have hall : (create name workers).follow (before ++ later) = some t' := by
    rw [follow_append, hrun, Option.bind_some, hlater]
  have hsound := sound_of_follow hwide hends hall
  have hsome' : t'.crew.workers ≠ [] := by
    have hlength := length_of_follow hlater
    have hpos := List.length_pos_iff.mpr hsome
    exact List.length_pos_iff.mp (by omega)
  refine ⟨?_, ?_⟩
  · have hpaid := work_le hwide hends hall
    rw [List.countP_append] at hpaid
    omega
  · intro htold hrest
    have hclosed := (reachable_iff.mpr ⟨_, hall⟩).closed htold
    have hfinished := hsound.finished (interrupt_notMem hsound.served.visits hvisits)
      (aborted_of_follow hends hall) hclosed hsome' hrest
    have hsofar := sound_of_follow hwide (fun k hmem => hends k (List.mem_append_left _ hmem)) hrun
    exact ⟨hfinished, (hsofar.accounted.subperm.trans
      (accepted_of_follow hlater).sublist.subperm).trans hfinished.subperm⟩

/-- **An ordinary end and an error are contained.** -/
theorem contained_of_ne (hwide : workers.toNat ≤ Ring.widest)
    (hends : ∀ k, .finish k .escaped ∉ before) (hrun : (create name workers).follow before = some t)
    (hi : t.crew.workers[i]? = some (.running j)) (hending : ending ≠ .escaped)
    (hnext : t.next (.finish i ending) = some t') : t.Contained t' i := by
  have hlast : ∀ k, .finish k .escaped ∉ before ++ [.finish i ending] := by
    intro k hmem
    rcases List.mem_append.mp hmem with hmem | hmem
    · exact hends k hmem
    · cases List.mem_singleton.mp hmem
      exact hending rfl
  have hrun' : (create name workers).follow (before ++ [.finish i ending]) = some t' :=
    follow_concat.mpr ⟨t, hrun, hnext⟩
  have hafter := hnext.symm.trans (next_finish (aborted_of_follow hends hrun) hi ending)
  have hset : t'.crew.workers = t.crew.workers.set i .looking := by
    rw [Option.some.inj hafter]
    cases ending <;> rfl
  have hsome : t'.crew.workers ≠ [] := by
    obtain ⟨hlt, -⟩ := List.getElem?_eq_some_iff.mp hi
    rw [hset, ← List.length_pos_iff, List.length_set]
    exact Nat.zero_lt_of_lt hlt
  refine ⟨⟨hset, goesOn_of_finish hi (aborted_of_follow hlast hrun') hset⟩, ?_, ?_⟩
  · rw [Option.some.inj hafter]
    cases ending with
    | returned => exact Or.inl ⟨rfl, rfl⟩
    | threw what => exact Or.inr ⟨rfl, rfl⟩
    | escaped => exact absurd rfl hending
  · intro later t'' hlater hends' hvisits
    refine run_of_closed hwide hsome ?_ hrun' hlater hvisits
    intro k hmem
    rcases List.mem_append.mp hmem with hmem | hmem
    · exact hlast k hmem
    · exact hends' k hmem

/-- **A job is contained unless it throws something that is no error**, whatever happened before and
whatever the others do.  Such a thing brings the program down: nobody can do anything any more, the
job is not counted, and the jobs behind it stay in the queue.

What is thrown and is an error comes to one and the same step as an ordinary end, but for the
counter. Anything else sets the flag by which no step is possible any more. -/
theorem contained_iff (hwide : workers.toNat ≤ Ring.widest)
    (hends : ∀ k, .finish k .escaped ∉ before) (hrun : (create name workers).follow before = some t)
    (hi : t.crew.workers[i]? = some (.running j)) (ending : Ending) :
    ∃ t', t.next (.finish i ending) = some t' ∧ (t.Contained t' i ↔ ending ≠ .escaped) ∧
      (ending = .escaped → (∀ a, t'.next a = none) ∧ t'.crew.completed = t.crew.completed ∧
        t'.crew.failed = t.crew.failed ∧ t'.crew.queue = t.crew.queue) := by
  have hnext := next_finish (aborted_of_follow hends hrun) hi ending
  have hover : ending = .escaped → ∀ a, (⟨(t.crew.setWorker i .looking).tally ending, t.visits,
      t.history ++ [.ended i j ending]⟩ : Traffic Job).next a = none := by
    rintro rfl a
    rfl
  refine ⟨_, hnext, ⟨?_, fun hending => contained_of_ne hwide hends hrun hi hending hnext⟩, ?_⟩
  · intro hcontained hending
    have hgoes := hcontained.survives.2
    rw [hover hending] at hgoes
    cases hgoes
  · intro hending
    refine ⟨hover hending, ?_⟩
    subst hending
    exact ⟨rfl, rfl, rfl⟩

end Ending

/-- A crew of one worker runs a job and has another one in its queue when it is shut down. -/
def oneBehind : List (Action Nat) :=
  [.call .start, .advance 0, .advance 0, .advance 0, .advance 0, .advance 0, .advance 0,
    .call (.submit 7), .advance 1, .advance 1, .advance 1, .work 0, .work 0, .work 0,
    .call (.submit 8), .advance 2, .advance 2, .advance 2, .call .shutdown, .advance 3, .advance 3]

/-- The first job ends with an error, and the second one is run. -/
theorem oneBehind_contained :
    ∃ t t' t'' : Traffic Nat, (create [] 1).follow oneBehind = some t ∧
      t.crew.workers[0]? = some (.running 7) ∧ t.crew.queue.toList = [8] ∧
      t.next (.finish 0 (.threw [120])) = some t' ∧ t.Contained t' 0 ∧ t'.crew.failed = 1 ∧
      t'.follow [.work 0, .work 0, .work 0, .finish 0 .returned, .work 0, .work 0, .work 0]
        = some t'' ∧ t''.threw = [7] ∧ t''.returned = [8] := by
  have hends : ∀ k, .finish k .escaped ∉ oneBehind := by simp [oneBehind]
  obtain ⟨t, t', t'', hrun, hi, hqueue, hnext, hfailed, hlater, hthrew, hreturned⟩ :
      ∃ t t' t'' : Traffic Nat, (create [] 1).follow oneBehind = some t ∧
        t.crew.workers[0]? = some (.running 7) ∧ t.crew.queue.toList = [8] ∧
        t.next (.finish 0 (.threw [120])) = some t' ∧ t'.crew.failed = 1 ∧
        t'.follow [.work 0, .work 0, .work 0, .finish 0 .returned, .work 0, .work 0, .work 0]
          = some t'' ∧ t''.threw = [7] ∧ t''.returned = [8] :=
    ⟨_, _, _, rfl, rfl, rfl, rfl, rfl, rfl, rfl, rfl⟩
  obtain ⟨u, hu, hcontained, -⟩ := contained_iff (by decide) hends hrun hi (.threw [120])
  obtain rfl := Option.some.inj (hnext.symm.trans hu)
  exact ⟨t, t', t'', hrun, hi, hqueue, hnext, hcontained.mpr nofun, hfailed, hlater, hthrew,
    hreturned⟩

/-- **Something that is no error ends everything**: the one worker does not go on, neither count has
grown, the job in the queue stays there, and nobody can do anything any more. -/
theorem escape_ends_all :
    ∃ t t' : Traffic Nat, (create [] 1).follow oneBehind = some t ∧
      t.crew.workers[0]? = some (.running 7) ∧ t.crew.queue.toList = [8] ∧
      t.next (.finish 0 .escaped) = some t' ∧ ¬ t.Contained t' 0 ∧ (∀ a, t'.next a = none) ∧
      t'.crew.completed = 0 ∧ t'.crew.failed = 0 ∧ t'.crew.queue.toList = [8] ∧
      t'.begun = [7] := by
  refine ⟨_, _, rfl, rfl, rfl, rfl, ?_, fun _ => rfl, rfl, rfl, rfl, rfl⟩
  intro hcontained
  cases hcontained.survives.2

end Traffic

end Intake.Crew
