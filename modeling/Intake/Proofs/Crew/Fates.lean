/-
# Every job has one fate

A job that came into the queue of a `WorkerDispatcher` is in the queue, or with one worker, or it
has been run to an end once, or it was dropped (`Accounted`).  What came into the queue are the jobs
of those calls of `Submit` (visitors, here) who were told so, or are about to be told; whoever is
refused still has his job (`Served`).  As long as nobody interrupts the crew, no job is dropped and
nobody leaves early (`Tended`), so that nothing is left when the last worker has counted himself out
(`one_fate`).
-/
import Mathlib
import Intake.Proofs.Crew.Visiting

namespace Intake

variable {Job : Type}

/-! ## 1. What has happened to jobs -/

namespace Occurrence

def begun? : Occurrence Job → Option Job
  | begun _ j => some j
  | started _ | accepted _ | taken .. | ended .. | dropped _ => none

def returned? : Occurrence Job → Option Job
  | ended _ j .returned => some j
  | ended _ _ (.threw _) | ended _ _ .escaped | started _ | accepted _ | taken .. | begun ..
  | dropped _ => none

def threw? : Occurrence Job → Option Job
  | ended _ j (.threw _) => some j
  | ended _ _ .returned | ended _ _ .escaped | started _ | accepted _ | taken .. | begun ..
  | dropped _ => none

def dropped? : Occurrence Job → Option Job
  | dropped j => some j
  | started _ | accepted _ | taken .. | begun .. | ended .. => none

end Occurrence

namespace Crew.Traffic

variable {name : Bytes} {workers : UInt32} {t t' : Traffic Job} {a : Action Job}

/-- The jobs that came into the queue. -/
def accepted (t : Traffic Job) : List Job := t.history.filterMap Occurrence.accepted?

/-- The jobs that workers began to run. -/
def begun (t : Traffic Job) : List Job := t.history.filterMap Occurrence.begun?

/-- The jobs that came to an ordinary end. -/
def returned (t : Traffic Job) : List Job := t.history.filterMap Occurrence.returned?

/-- The jobs that ended with an error. -/
def threw (t : Traffic Job) : List Job := t.history.filterMap Occurrence.threw?

/-- The jobs that were given up before they were run. -/
def dropped (t : Traffic Job) : List Job := t.history.filterMap Occurrence.dropped?

/-- Every job that came into the queue is in one place, and the crew has counted right. -/
structure Accounted (t : Traffic Job) : Prop where
  holds : t.crew.queue.Holds t.crew.queue.toList
  workerCount : t.crew.workerCount ≠ 0
  places : t.accepted.Perm
    (t.crew.queue.toList ++ t.crew.held ++ t.returned ++ t.threw ++ t.dropped)
  runs : t.begun.Perm (t.crew.running ++ t.returned ++ t.threw)
  completed : t.crew.completed = UInt64.ofNat t.returned.length
  failed : t.crew.failed = UInt64.ofNat t.threw.length

/-! ## 2. Steps of visitors and workers -/

section Step

variable {c : Crew Job} {visits : List (Visit Job)} {o : Option (Occurrence Job)}

theorem filterMap_noted {α : Type} (history : List (Occurrence Job))
    (pick : Occurrence Job → Option α) :
    (history ++ o.toList).filterMap pick = history.filterMap pick ++ (o.bind pick).toList := by
  cases o with
  | none => simp
  | some o => cases hpick : pick o <;> simp [hpick]

theorem Accounted.noted {items : List Job} (h : t.Accounted) (hq : c.queue.Holds items)
    (hcount : c.workerCount = t.crew.workerCount)
    (hplaces : ((o.bind Occurrence.accepted?).toList ++ (t.crew.queue.toList ++ t.crew.held)).Perm
      (items ++ c.held ++ (o.bind Occurrence.returned?).toList ++
        (o.bind Occurrence.threw?).toList ++ (o.bind Occurrence.dropped?).toList))
    (hruns : ((o.bind Occurrence.begun?).toList ++ t.crew.running).Perm
      (c.running ++ (o.bind Occurrence.returned?).toList ++ (o.bind Occurrence.threw?).toList))
    (hcompleted : c.completed
      = t.crew.completed + UInt64.ofNat (o.bind Occurrence.returned?).toList.length)
    (hfailed : c.failed = t.crew.failed + UInt64.ofNat (o.bind Occurrence.threw?).toList.length) :
    (⟨c, visits, t.history ++ o.toList⟩ : Traffic Job).Accounted := by
  have hitems : c.queue.toList = items := hq.toList_eq
  have hold := h.places
  have hbegun := h.runs
  simp only [accepted, begun, returned, threw, dropped] at hold hbegun
  refine ⟨by rwa [hitems], by rw [hcount]; exact h.workerCount, ?_, ?_, ?_, ?_⟩
  · classical
    simp only [accepted, returned, threw, dropped, filterMap_noted, hitems]
    refine List.perm_iff_count.mpr ?_
    intro x
    have hbefore := hold.count_eq x
    have hstep := hplaces.count_eq x
    simp only [List.count_append] at hbefore hstep ⊢
    omega
  · classical
    simp only [begun, returned, threw, filterMap_noted]
    refine List.perm_iff_count.mpr ?_
    intro x
    have hbefore := hbegun.count_eq x
    have hstep := hruns.count_eq x
    simp only [List.count_append] at hbefore hstep ⊢
    omega
  · rw [hcompleted, h.completed, returned, returned, filterMap_noted, List.length_append,
      UInt64.ofNat_add]
  · rw [hfailed, h.failed, threw, threw, filterMap_noted, List.length_append, UInt64.ofNat_add]

theorem Accounted.same (h : t.Accounted) (ho : o = none ∨ ∃ n, o = some (.started n))
    (hqueue : c.queue.ring = t.crew.queue.ring) (hcount : c.workerCount = t.crew.workerCount)
    (hheld : c.held = t.crew.held) (hrunning : c.running = t.crew.running)
    (hcompleted : c.completed = t.crew.completed) (hfailed : c.failed = t.crew.failed) :
    (⟨c, visits, t.history ++ o.toList⟩ : Traffic Job).Accounted := by
  have hq : c.queue.Holds t.crew.queue.toList := by
    rw [Channel.Holds, hqueue]
    exact h.holds
  rcases ho with rfl | ⟨n, rfl⟩
  · refine h.noted hq hcount ?_ ?_ ?_ ?_
    · simp [hheld]
    · simp [hrunning]
    · simp [hcompleted]
    · simp [hfailed]
  · refine h.noted hq hcount ?_ ?_ ?_ ?_
    · simp [Occurrence.accepted?, Occurrence.returned?, Occurrence.threw?, Occurrence.dropped?,
        hheld]
    · simp [Occurrence.begun?, Occurrence.returned?, Occurrence.threw?, hrunning]
    · simp [Occurrence.returned?, hcompleted]
    · simp [Occurrence.threw?, hfailed]

theorem Accounted.queues {j : Job} {queue : Channel Job} (h : t.Accounted)
    (hput : t.crew.queue.put j = .gives queue) :
    (⟨{ t.crew with queue }, visits, t.history ++ [.accepted j]⟩ : Traffic Job).Accounted := by
  obtain ⟨hholds, -, -⟩ := h.holds.of_put_gives hput
  have hheld : ({ t.crew with queue } : Crew Job).held = t.crew.held := rfl
  have hrunning : ({ t.crew with queue } : Crew Job).running = t.crew.running := rfl
  have hbehind : (j :: (t.crew.queue.toList ++ t.crew.held)).Perm
      (t.crew.queue.toList ++ j :: t.crew.held) := List.perm_middle.symm
  refine h.noted (o := some (.accepted j)) hholds rfl ?_ ?_ ?_ ?_
  · simpa [Occurrence.accepted?, Occurrence.returned?, Occurrence.threw?, Occurrence.dropped?,
      hheld] using hbehind
  · simp [Occurrence.begun?, Occurrence.returned?, Occurrence.threw?, hrunning]
  · simp [Occurrence.returned?]
  · simp [Occurrence.threw?]

theorem Accounted.moved {i : Nat} {w w' : Worker Job} {items : List Job} (h : t.Accounted)
    (hi : t.crew.workers[i]? = some w) (hworkers : c.workers = (t.crew.setWorker i w').workers)
    (hq : c.queue.Holds items) (hcount : c.workerCount = t.crew.workerCount)
    (hnew : o.bind Occurrence.accepted? = none)
    (hplaces : (t.crew.queue.toList ++ w.job?.toList).Perm
      (items ++ w'.job?.toList ++ (o.bind Occurrence.returned?).toList ++
        (o.bind Occurrence.threw?).toList ++ (o.bind Occurrence.dropped?).toList))
    (hruns : ((o.bind Occurrence.begun?).toList ++ w.running?.toList).Perm
      (w'.running?.toList ++ (o.bind Occurrence.returned?).toList ++
        (o.bind Occurrence.threw?).toList))
    (hcompleted : c.completed
      = t.crew.completed + UInt64.ofNat (o.bind Occurrence.returned?).toList.length)
    (hfailed : c.failed = t.crew.failed + UInt64.ofNat (o.bind Occurrence.threw?).toList.length) :
    (⟨c, visits, t.history ++ o.toList⟩ : Traffic Job).Accounted := by
  classical
  obtain ⟨before, behind, hsplit, hmoved⟩ := workers_split hi
  have hheld : (w.job?.toList ++ c.held).Perm (w'.job?.toList ++ t.crew.held) :=
    filterMap_moved Worker.job? hsplit (hworkers.trans (hmoved w'))
  have hrunning : (w.running?.toList ++ c.running).Perm (w'.running?.toList ++ t.crew.running) :=
    filterMap_moved Worker.running? hsplit (hworkers.trans (hmoved w'))
  refine h.noted hq hcount ?_ ?_ hcompleted hfailed
  · refine List.perm_iff_count.mpr ?_
    intro x
    have hstep := hplaces.count_eq x
    have hothers := hheld.count_eq x
    simp only [hnew, Option.toList_none, List.nil_append, List.count_append] at hstep hothers ⊢
    omega
  · refine List.perm_iff_count.mpr ?_
    intro x
    have hstep := hruns.count_eq x
    have hothers := hrunning.count_eq x
    simp only [List.count_append] at hstep hothers ⊢
    omega

/-- **A step of a worker** takes a job from one place to the next. -/
theorem Accounted.work {i : Nat} (h : t.Accounted) (hwork : t.crew.work i = some (c, o)) :
    (⟨c, t.visits, t.history ++ o.toList⟩ : Traffic Job).Accounted := by
  cases round_of_work hwork with
  | goesOn hi _ | stops hi _ | findsNone _ hi _ | leaves hi =>
    exact h.moved hi rfl h.holds rfl rfl (by simp [Worker.job?]) (by simp [Worker.running?])
      (UInt64.add_zero _).symm (UInt64.add_zero _).symm
  | takes j queue hi htake =>
    obtain ⟨rest, hitems, hrest, rfl⟩ := h.holds.of_take_gives htake
    refine h.moved hi rfl hrest rfl rfl ?_ ?_ (UInt64.add_zero _).symm (UInt64.add_zero _).symm
    · rw [hitems]
      have hbehind : (j :: rest).Perm (rest ++ [j]) := (List.perm_append_singleton j rest).symm
      simpa [Worker.job?, Occurrence.returned?, Occurrence.threw?, Occurrence.dropped?]
        using hbehind
    · simp [Worker.running?, Occurrence.begun?, Occurrence.returned?, Occurrence.threw?]
  | begins j hi _ =>
    refine h.moved hi rfl h.holds rfl rfl ?_ ?_ (UInt64.add_zero _).symm (UInt64.add_zero _).symm
    · simp [Worker.job?, Occurrence.returned?, Occurrence.threw?, Occurrence.dropped?]
    · simp [Worker.running?, Occurrence.begun?, Occurrence.returned?, Occurrence.threw?]
  | drops j hi _ =>
    refine h.moved hi rfl h.holds rfl rfl ?_ ?_ (UInt64.add_zero _).symm (UInt64.add_zero _).symm
    · simp [Worker.job?, Occurrence.returned?, Occurrence.threw?, Occurrence.dropped?]
    · simp [Worker.running?, Occurrence.begun?, Occurrence.returned?, Occurrence.threw?]

/-- **A job that ends** has been run, and is counted once. -/
theorem Accounted.finish {i : Nat} {ending : Ending} {j : Job} (h : t.Accounted)
    (hending : ending ≠ .escaped) (hfinish : t.crew.finish i ending = some (c, j)) :
    (⟨c, t.visits, t.history ++ [.ended i j ending]⟩ : Traffic Job).Accounted := by
  obtain ⟨hi, rfl⟩ := of_finish hfinish
  cases ending with
  | returned =>
    refine h.moved (o := some (.ended i j .returned)) hi rfl h.holds rfl rfl ?_ ?_ rfl ?_
    · simp [Worker.job?, Occurrence.returned?, Occurrence.threw?, Occurrence.dropped?]
    · simp [Worker.running?, Occurrence.begun?, Occurrence.returned?, Occurrence.threw?]
    · exact (UInt64.add_zero _).symm
  | threw what =>
    refine h.moved (o := some (.ended i j (.threw what))) hi rfl h.holds rfl rfl ?_ ?_ ?_ rfl
    · simp [Worker.job?, Occurrence.returned?, Occurrence.threw?, Occurrence.dropped?]
    · simp [Worker.running?, Occurrence.begun?, Occurrence.returned?, Occurrence.threw?]
    · exact (UInt64.add_zero _).symm
  | escaped => exact absurd rfl hending

end Step

theorem Accounted.next (h : t.Accounted) (hends : ∀ i, a ≠ .finish i .escaped)
    (hnext : t.next a = some t') : t'.Accounted := by
  cases (move_of_next hnext).2 with
  | call r => exact ⟨h.holds, h.workerCount, h.places, h.runs, h.completed, h.failed⟩
  | advance before behind v s hsplit hs =>
    cases stride_of_step hs with
    | queues j queue hput => exact h.queues hput
    | announces => exact h.same (Or.inr ⟨_, rfl⟩) rfl rfl rfl rfl rfl rfl
    | hires left =>
      refine h.same (Or.inl rfl) rfl rfl ?_ ?_ rfl rfl
      · simp [held, hire, Worker.job?]
      · simp [running, hire, Worker.running?]
    | _ => exact h.same (Or.inl rfl) rfl rfl rfl rfl rfl rfl
  | expire before behind ms hsplit =>
    exact ⟨h.holds, h.workerCount, h.places, h.runs, h.completed, h.failed⟩
  | work i c o hwork => exact h.work hwork
  | finish i ending c j hfinish =>
    refine h.finish ?_ hfinish
    rintro rfl
    exact hends i rfl

end Crew.Traffic

namespace Crew

/-! ## 3. Whose job it is -/

/-- The visit is one that is paid with that request. -/
inductive Serves : Request Job → Visit Job → Prop where
  | markStarted : Serves .start .markStarted
  | openIntake : Serves .start .openIntake
  | countWorkers : Serves .start .countWorkers
  | hire (left : Nat) : Serves .start (.hire left)
  | announce : Serves .start .announce
  | started : Serves .start (.returned .started)
  | askIntake (j : Job) : Serves (.submit j) (.askIntake j)
  | offer (j : Job) : Serves (.submit j) (.offer j)
  | countSubmitted (j : Job) : Serves (.submit j) .countSubmitted
  | accepted (j : Job) : Serves (.submit j) (.returned .accepted)
  | refused (j : Job) (cause : ChannelError) : Serves (.submit j) (.returned (.refused j cause))
  | closeIntake : Serves .shutdown .closeIntake
  | closeQueue : Serves .shutdown .closeQueue
  | closed : Serves .shutdown (.returned .closed)
  | stopIntake : Serves .interrupt .stopIntake
  | markInterrupted : Serves .interrupt .markInterrupted
  | interruptQueue : Serves .interrupt .interruptQueue
  | interrupted : Serves .interrupt (.returned .interrupted)
  | await (ms : UInt64) (expired : Bool) : Serves (.await ms) (.await ms expired)
  | awaited (ms : UInt64) (inTime : Bool) : Serves (.await ms) (.returned (.awaited inTime))

theorem serves_visit (r : Request Job) : Serves r r.visit := by
  cases r <;> constructor

/-- The job that was brought with a request. -/
def Request.job? : Request Job → Option Job
  | submit j => some j
  | start | shutdown | interrupt | await _ => none

/-- The job that the visitor has handed over. -/
def Request.handed? : Request Job → Visit Job → Option Job
  | submit j, .countSubmitted | submit j, .returned .accepted => some j
  | _, _ => none

/-- True for a visitor who was told that his job came in. -/
def Visit.isAccepted : Visit Job → Bool
  | returned .accepted => true
  | _ => false

/-- True for a visitor whose job came in and is still to be counted. -/
def Visit.isCounting : Visit Job → Bool
  | countSubmitted => true
  | _ => false

/-- True for a visitor who is starting the crew or bringing it a job. -/
def Visit.isEntering : Visit Job → Bool
  | markStarted | openIntake | countWorkers | hire _ | announce => true
  | askIntake _ | offer _ | countSubmitted => true
  | closeIntake | closeQueue | stopIntake | markInterrupted | interruptQueue => false
  | await .. | returned _ => false

/-- A visitor's step: he hands over his own job or nothing, and counts it once. -/
theorem Serves.step {r : Request Job} {v : Visit Job} {c : Crew Job} {s : Visit.Step Job}
    (h : Serves r v) (hs : Stride c v s) :
    Serves r s.visit ∧
      (r.handed? s.visit).toList
        = (r.handed? v).toList ++ (s.occurrence.bind Occurrence.accepted?).toList ∧
      v.isAccepted = false ∧
      s.crew.submitted = c.submitted + if s.visit.isAccepted then 1 else 0 := by
  cases hs <;> cases h <;> refine ⟨by constructor, rfl, rfl, ?_⟩ <;>
    first | rfl | exact (UInt64.add_zero _).symm

/-- The jobs that visitors have handed over. -/
def handedOver (requests : List (Request Job)) (visits : List (Visit Job)) : List Job :=
  (List.zipWith Request.handed? requests visits).reduceOption

theorem handedOver_append {rs₁ rs₂ : List (Request Job)} {vs₁ vs₂ : List (Visit Job)}
    (h : rs₁.length = vs₁.length) :
    handedOver (rs₁ ++ rs₂) (vs₁ ++ vs₂) = handedOver rs₁ vs₁ ++ handedOver rs₂ vs₂ := by
  rw [handedOver, List.zipWith_append h, List.reduceOption_append]
  rfl

theorem handedOver_cons (r : Request Job) (v : Visit Job) (rs : List (Request Job))
    (vs : List (Visit Job)) :
    handedOver (r :: rs) (v :: vs) = (r.handed? v).toList ++ handedOver rs vs := by
  rw [handedOver, List.zipWith_cons_cons, ← List.singleton_append, List.reduceOption_append,
    List.reduceOption_singleton]
  rfl

theorem exists_request {rs : List (Request Job)} {before behind : List (Visit Job)} {v : Visit Job}
    (h : List.Forall₂ Serves rs (before ++ v :: behind)) :
    ∃ rs₁ r rs₂, rs = rs₁ ++ r :: rs₂ ∧ List.Forall₂ Serves rs₁ before ∧ Serves r v ∧
      List.Forall₂ Serves rs₂ behind := by
  have hbefore := List.forall₂_take_append rs before (v :: behind) h
  have hrest := List.forall₂_drop_append rs before (v :: behind) h
  obtain ⟨r, rs₂, hr, hbehind, hdrop⟩ := List.forall₂_cons_right_iff.mp hrest
  refine ⟨rs.take before.length, r, rs₂, ?_, hbefore, hr, hbehind⟩
  rw [← hdrop, List.take_append_drop]

namespace Traffic

variable {name : Bytes} {workers : UInt32} {t t' : Traffic Job} {a : Action Job}
  {requests : List (Request Job)}

/-- The request with which a visitor comes. -/
def Action.request? : Action Job → Option (Request Job)
  | call r => some r
  | advance _ | expire _ | work _ | finish .. => none

/-- The visits are those of the requests, and what came into the queue came from them. -/
structure Served (t : Traffic Job) (requests : List (Request Job)) : Prop where
  visits : List.Forall₂ Serves requests t.visits
  accepted : t.accepted.Perm (handedOver requests t.visits)
  submitted : t.crew.submitted = UInt64.ofNat (t.visits.countP Visit.isAccepted)

theorem Served.aside {c : Crew Job} {o : Option (Occurrence Job)} (h : t.Served requests)
    (ho : o.bind Occurrence.accepted? = none) (hsubmitted : c.submitted = t.crew.submitted) :
    (⟨c, t.visits, t.history ++ o.toList⟩ : Traffic Job).Served requests := by
  refine ⟨h.visits, ?_, hsubmitted.trans h.submitted⟩
  rw [Traffic.accepted, filterMap_noted, ho, Option.toList_none, List.append_nil]
  exact h.accepted

/-- **Every step serves the requests.** -/
theorem Served.next (h : t.Served requests) (hnext : t.next a = some t') :
    t'.Served (requests ++ a.request?.toList) := by
  cases (move_of_next hnext).2 with
  | call r =>
    have hlength := h.visits.length_eq
    refine ⟨List.rel_append h.visits (List.Forall₂.cons (serves_visit r) .nil), ?_, ?_⟩
    · have hlast : handedOver [r] [r.visit] = [] := by
        cases r <;> rfl
      show t.accepted.Perm (handedOver (requests ++ [r]) (t.visits ++ [r.visit]))
      rw [handedOver_append hlength, hlast, List.append_nil]
      exact h.accepted
    · refine h.submitted.trans ?_
      cases r <;> simp [Request.visit, Visit.isAccepted]
  | advance before behind v s hsplit hs =>
    obtain ⟨rs₁, r, rs₂, rfl, h₁, hr, h₂⟩ := exists_request (hsplit ▸ h.visits)
    obtain ⟨hserves, hhanded, hv, hcount⟩ := hr.step (stride_of_step hs)
    rw [Action.request?, Option.toList_none, List.append_nil]
    refine ⟨List.rel_append h₁ (.cons hserves h₂), ?_, ?_⟩
    · have hold := h.accepted
      rw [hsplit, handedOver_append h₁.length_eq, handedOver_cons] at hold
      rw [Traffic.accepted, filterMap_noted, handedOver_append h₁.length_eq, handedOver_cons,
        hhanded, List.append_assoc]
      refine (hold.append_right _).trans ?_
      rw [List.append_assoc, List.append_assoc]
      exact ((List.perm_append_comm).append_left _).append_left _
    · rw [hcount, h.submitted, hsplit]
      simp only [List.countP_append, List.countP_cons, hv]
      cases s.visit.isAccepted
      · simp
      · simp [UInt64.ofNat_add, UInt64.add_assoc]
  | expire before behind ms hsplit =>
    obtain ⟨rs₁, r, rs₂, rfl, h₁, hr, h₂⟩ := exists_request (hsplit ▸ h.visits)
    rw [Action.request?, Option.toList_none, List.append_nil]
    cases hr with
    | await ms _ =>
      refine ⟨List.rel_append h₁ (.cons (.await ms true) h₂), ?_, ?_⟩
      · have hold := h.accepted
        rw [hsplit, handedOver_append h₁.length_eq, handedOver_cons] at hold
        rw [handedOver_append h₁.length_eq, handedOver_cons]
        exact hold
      · have hold := h.submitted
        rw [hsplit] at hold
        simpa [Visit.isAccepted] using hold
  | work i c o hwork =>
    rw [Action.request?, Option.toList_none, List.append_nil]
    cases round_of_work hwork <;> exact h.aside rfl rfl
  | finish i ending c j hfinish =>
    rw [Action.request?, Option.toList_none, List.append_nil]
    obtain ⟨-, rfl⟩ := of_finish hfinish
    cases ending <;> exact h.aside (o := some (.ended i j _)) rfl rfl

/-! ## 4. As long as nobody interrupts the crew -/

/-- Nobody has told the crew to stop, and no job was given up. -/
structure Undisturbed (t : Traffic Job) : Prop where
  calm : t.crew.Calm
  dropped : t.dropped = []

theorem Undisturbed.noted {c : Crew Job} {visits : List (Visit Job)} (h : t.Undisturbed)
    (o : Option (Occurrence Job)) (hcalm : c.Calm) (ho : o.bind Occurrence.dropped? = none) :
    (⟨c, visits, t.history ++ o.toList⟩ : Traffic Job).Undisturbed := by
  refine ⟨hcalm, ?_⟩
  rw [Traffic.dropped, filterMap_noted, ho, Option.toList_none, List.append_nil]
  exact h.dropped

theorem Undisturbed.next (h : t.Undisturbed) (hserved : t.Served requests)
    (hno : .interrupt ∉ requests) (hnext : t.next a = some t') : t'.Undisturbed := by
  cases (move_of_next hnext).2 with
  | call r => exact ⟨h.calm, h.dropped⟩
  | advance before behind v s hsplit hs =>
    obtain ⟨rs₁, r, rs₂, rfl, -, hr, -⟩ := exists_request (hsplit ▸ hserved.visits)
    cases stride_of_step hs with
    | queues j queue hput =>
      have hflags := Channel.flags_of_put hput
      exact h.noted (some _) ⟨h.calm.crew, hflags.2.trans h.calm.queue⟩ rfl
    | marks =>
      cases hr
      exact absurd (by simp) hno
    | interrupts =>
      cases hr
      exact absurd (by simp) hno
    | announces => exact h.noted (some _) h.calm rfl
    | _ => exact h.noted none ⟨h.calm.crew, h.calm.queue⟩ rfl
  | expire before behind ms hsplit => exact ⟨h.calm, h.dropped⟩
  | work i c o hwork =>
    cases round_of_work hwork with
    | takes j queue hi htake =>
      have hflags := Channel.flags_of_take htake
      exact h.noted (some _) ⟨h.calm.crew, hflags.2.trans h.calm.queue⟩ rfl
    | begins j _ _ => exact h.noted (some _) ⟨h.calm.crew, h.calm.queue⟩ rfl
    | drops j _ hstop =>
      rw [h.calm.crew] at hstop
      cases hstop
    | _ => exact h.noted none ⟨h.calm.crew, h.calm.queue⟩ rfl
  | finish i ending c j hfinish =>
    obtain ⟨-, rfl⟩ := of_finish hfinish
    cases ending <;> exact h.noted (some _) ⟨h.calm.crew, h.calm.queue⟩ rfl

/-- So many workers are still to be hired, and all the others are there. -/
def Due (t : Traffic Job) (due : Nat) : Prop :=
  t.starters = [.hire due] ∨ due = 0 ∧ t.crew.started = true ∧ t.starters = []

/-- From when the workers are counted on, the crew is staffed. -/
def Tended (t : Traffic Job) : Prop := ∀ due, t.Due due → t.crew.Staffed t.crew.queue.toList due

theorem Tended.aside {c : Crew Job} {visits : List (Visit Job)} {history : List (Occurrence Job)}
    (h : t.Tended) (ha : t.Aside ⟨c, visits, history⟩) (hworkers : c.workers = t.crew.workers)
    (hcount : c.workerCount = t.crew.workerCount) (halive : c.alive = t.crew.alive)
    (hring : c.queue.ring = t.crew.queue.ring)
    (hclosed : t.crew.queue.closed = true → c.queue.closed = true) :
    (⟨c, visits, history⟩ : Traffic Job).Tended := by
  intro due hdue
  have hstaffed : t.crew.Staffed t.crew.queue.toList due := by
    apply h
    rwa [Due, ha.starters, ha.started] at hdue
  have hitems : c.queue.toList = t.crew.queue.toList := by
    rw [Channel.toList, hring]
    rfl
  refine ⟨?_, ?_, ?_⟩
  · simpa only [hworkers, hcount] using hstaffed.hired
  · simpa only [present, hworkers, halive] using hstaffed.alive
  · intro w hw hgone
    rw [hworkers] at hw
    rw [hitems]
    obtain ⟨hshut, hnone⟩ := hstaffed.leaving w hw hgone
    exact ⟨hclosed hshut, hnone⟩

/-- The one who starts the crew is the only one, and counts the workers or hires them. -/
theorem due_of_alone {before behind : List (Visit Job)} {v : Visit Job} {c : Crew Job}
    {history : List (Occurrence Job)} {due : Nat} (hbefore : before.filter Visit.isStarting = [])
    (hbehind : behind.filter Visit.isStarting = [])
    (hdue : (⟨c, before ++ v :: behind, history⟩ : Traffic Job).Due due) :
    v = .hire due ∨ due = 0 ∧ v.isStarting = false := by
  rw [Due, starters_of_alone hbefore hbehind, List.filter_cons, List.filter_nil] at hdue
  cases hv : v.isStarting with
  | true =>
    rw [hv, if_pos rfl] at hdue
    rcases hdue with hdue | ⟨-, -, hdue⟩
    · exact Or.inl (List.singleton_inj.mp hdue)
    · cases hdue
  | false =>
    rw [hv, if_neg Bool.false_ne_true] at hdue
    rcases hdue with hdue | ⟨hzero, -, -⟩
    · cases hdue
    · exact Or.inr ⟨hzero, rfl⟩

theorem Tended.queues {before behind : List (Visit Job)} {j : Job} {queue : Channel Job}
    {history : List (Occurrence Job)} (h : t.Tended)
    (hq : t.crew.queue.Holds t.crew.queue.toList) (hput : t.crew.queue.put j = .gives queue)
    (hsplit : t.visits = before ++ .offer j :: behind) :
    (⟨{ t.crew with queue }, before ++ .countSubmitted :: behind, history⟩ :
      Traffic Job).Tended := by
  have hopen : t.crew.queue.closed = false := by
    by_contra hshut
    rw [Channel.put_of_closed (by simpa using hshut)] at hput
    cases hput
  have hoffer : t.crew.offer j = .gives { t.crew with queue } := by
    rw [Crew.offer, hput, Attempt.map]
  have hstarters : (⟨{ t.crew with queue }, before ++ .countSubmitted :: behind, history⟩ :
      Traffic Job).starters = t.starters := by
    simp [starters, hsplit, Visit.isStarting]
  intro due hdue
  rw [Due, hstarters] at hdue
  obtain ⟨ring, hring, hholds, hstaffed⟩ := (h due hdue).offer hq hopen hoffer
  have hitems : queue.toList = t.crew.queue.toList ++ [j] := by
    obtain ⟨hbehind, -, -⟩ := hq.of_put_gives hput
    exact hbehind.toList_eq
  rw [hitems]
  exact hstaffed

/-- **Nobody leaves early**, as long as nobody interrupts the crew. -/
theorem Tended.next (h : t.Tended) (hopening : t.Opening t.starters)
    (hq : t.crew.queue.Holds t.crew.queue.toList) (hcalm : t.crew.Calm)
    (hends : ∀ i, a ≠ .finish i .escaped) (hnext : t.next a = some t') : t'.Tended := by
  cases (move_of_next hnext).2 with
  | call r => exact h.aside (aside_call t r) rfl rfl rfl rfl id
  | advance before behind v s hsplit hs =>
    cases stride_of_step hs with
    | starts hno =>
      obtain ⟨hbefore, hbehind⟩ := hopening.nobody hsplit hno
      intro due hdue
      rcases due_of_alone hbefore hbehind hdue with hv | ⟨-, hv⟩ <;> cases hv
    | opens =>
      obtain ⟨-, hbefore, hbehind⟩ := hopening.alone hsplit rfl
      intro due hdue
      rcases due_of_alone hbefore hbehind hdue with hv | ⟨-, hv⟩ <;> cases hv
    | counts =>
      obtain ⟨hone, hbefore, hbehind⟩ := hopening.alone hsplit rfl
      rw [hone] at hopening
      intro due hdue
      rcases due_of_alone hbefore hbehind hdue with hv | ⟨-, hv⟩
      · cases hv
        cases hopening with
        | counting _ hbare => exact staffed_countWorkers hbare
      · cases hv
    | hires left =>
      obtain ⟨hone, hbefore, hbehind⟩ := hopening.alone hsplit rfl
      intro due hdue
      rcases due_of_alone hbefore hbehind hdue with hv | ⟨-, hv⟩
      · cases hv
        exact (h (left + 1) (Or.inl hone)).hire.1
      · cases hv
    | hiredAll =>
      obtain ⟨hone, hbefore, hbehind⟩ := hopening.alone hsplit rfl
      intro due hdue
      rcases due_of_alone hbefore hbehind hdue with hv | ⟨rfl, -⟩
      · cases hv
      · exact h 0 (Or.inl hone)
    | queues j queue hput => exact h.queues hq hput hsplit
    | isStarted hstarted =>
      exact h.aside (aside_of_step hsplit hs rfl fun _ => hstarted) rfl rfl rfl rfl id
    | closesQueue => exact h.aside (aside_of_step hsplit hs rfl nofun) rfl rfl rfl rfl fun _ => rfl
    | _ => exact h.aside (aside_of_step hsplit hs rfl nofun) rfl rfl rfl rfl id
  | expire before behind ms hsplit => exact h.aside (aside_expire hsplit) rfl rfl rfl rfl id
  | work i c o hwork =>
    intro due hdue
    have hstarted : c.started = t.crew.started := by
      cases round_of_work hwork <;> rfl
    have hdue' : t.Due due := by
      rcases hdue with hdue | ⟨hzero, hdue, hnobody⟩
      · exact Or.inl hdue
      · exact Or.inr ⟨hzero, hstarted ▸ hdue, hnobody⟩
    obtain ⟨queued, hworked, -⟩ := work_shift hcalm hq (h due hdue') hwork
    have hitems : c.queue.toList = queued := hworked.holds.toList_eq
    rw [hitems]
    exact hworked.staffed
  | finish i ending c j hfinish =>
    intro due hdue
    have hending : ending ≠ .escaped := by
      rintro rfl
      exact hends i rfl
    have hstarted : c.started = t.crew.started := by
      rw [(of_finish hfinish).2]
      cases ending <;> rfl
    have hdue' : t.Due due := by
      rcases hdue with hdue | ⟨hzero, hdue, hnobody⟩
      · exact Or.inl hdue
      · exact Or.inr ⟨hzero, hstarted ▸ hdue, hnobody⟩
    obtain ⟨hholds, hstaffed, -⟩ := finish_shift hq (h due hdue') hending hfinish
    have hitems : c.queue.toList = t.crew.queue.toList := hholds.toList_eq
    rw [hitems]
    exact hstaffed

/-! ## 5. One fate -/

/-- Nobody is starting the crew or bringing it a job. -/
def Quiet (t : Traffic Job) : Prop := ∀ v ∈ t.visits, v.isEntering = false

/-- Each job that was brought has one fate. -/
structure Fates (t : Traffic Job) (requests : List (Request Job)) : Prop where
  /-- Whoever is refused still has the job that he came with. -/
  visits : List.Forall₂ Serves requests t.visits
  /-- What came into the queue is what was handed over. -/
  accepted : t.accepted.Perm (handedOver requests t.visits)
  /-- It is in the queue, with one worker, run to one of two ends, or given up. -/
  places : t.accepted.Perm
    (t.crew.queue.toList ++ t.crew.held ++ t.returned ++ t.threw ++ t.dropped)
  /-- Running it begins once, and ends once. -/
  runs : t.begun.Perm (t.crew.running ++ t.returned ++ t.threw)
  completed : t.crew.completed = UInt64.ofNat t.returned.length
  failed : t.crew.failed = UInt64.ofNat t.threw.length
  dropped : t.dropped ≠ [] → .interrupt ∈ requests
  /-- Nothing is thrown away with the queue of a crew that is gone. -/
  discarded : .interrupt ∉ requests → t.Quiet → t.crew.allGone = true →
    t.crew.discardQueue.2 = []
  /-- What is refused is not run; jobs are told apart here by what they are. -/
  refused : (requests.filterMap Request.job?).Nodup → ∀ j cause,
    .returned (.refused j cause) ∈ t.visits → j ∉ t.accepted ∧ j ∉ t.begun

/-- Nothing is left to be done, and the crew has counted right. -/
structure Drained (t : Traffic Job) : Prop where
  queue : t.crew.queue.toList = []
  alive : t.crew.alive = 0
  ended : t.crew.submitted = t.crew.completed + t.crew.failed
  submitted : t.crew.submitted = UInt64.ofNat (t.visits.countP Visit.isAccepted)

/-- All that holds of a crew whose jobs end by themselves or with an error. -/
structure Sound (t : Traffic Job) (requests : List (Request Job)) : Prop where
  opening : t.Opening t.starters
  accounted : t.Accounted
  served : t.Served requests
  tended : .interrupt ∉ requests → t.Undisturbed ∧ t.Tended

theorem sound_create (name : Bytes) (hwide : workers.toNat ≤ Ring.widest) :
    (create name workers : Traffic Job).Sound [] := by
  have hcapacity : (if 0 < workers then workers else 1).toNat ≤ Ring.widest := by
    split
    · exact hwide
    · decide
  have hpos : 0 < (Crew.create name workers : Crew Job).workerCount := workerCount_create_pos _ _
  have hholds : (create name workers : Traffic Job).crew.queue.Holds [] :=
    Channel.holds_create hcapacity
  refine ⟨?_, ⟨hholds, ?_, .refl _, .refl _, rfl, rfl⟩, ⟨.nil, .refl _, rfl⟩, ?_⟩
  · exact .fresh rfl ⟨rfl, rfl, rfl, Ring.toList_create _, by simp [create]⟩
  · intro hzero
    have hnone : (Crew.create name workers : Crew Job).workerCount = 0 := hzero
    rw [hnone] at hpos
    exact absurd hpos (by decide)
  · intro _
    refine ⟨⟨⟨rfl, rfl⟩, rfl⟩, ?_⟩
    rintro due (hdue | ⟨-, hstarted, -⟩)
    · cases hdue
    · cases hstarted

theorem Sound.next (h : t.Sound requests) (hends : ∀ i, a ≠ .finish i .escaped)
    (hnext : t.next a = some t') : t'.Sound (requests ++ a.request?.toList) := by
  refine ⟨h.opening.next hnext, h.accounted.next hends hnext, h.served.next hnext, ?_⟩
  intro hno
  have hno' : .interrupt ∉ requests := fun hmem => hno (List.mem_append_left _ hmem)
  obtain ⟨hcalm, htended⟩ := h.tended hno'
  exact ⟨hcalm.next h.served hno' hnext,
    htended.next h.opening h.accounted.holds hcalm.calm hends hnext⟩

/-- The requests that visitors came with in a row of actions. -/
def requestsOf (actions : List (Action Job)) : List (Request Job) :=
  actions.filterMap Action.request?

theorem sound_of_follow {actions : List (Action Job)} (hwide : workers.toNat ≤ Ring.widest)
    (hends : ∀ i, .finish i .escaped ∉ actions)
    (hrun : (create name workers).follow actions = some t) : t.Sound (requestsOf actions) := by
  induction actions using List.reverseRecOn generalizing t with
  | nil =>
    obtain rfl := Option.some.inj hrun
    exact sound_create name hwide
  | append_singleton actions a ih =>
    obtain ⟨t', hrow, hnext⟩ := follow_concat.mp hrun
    have hbefore := ih (fun i hmem => hends i (List.mem_append_left _ hmem)) hrow
    have hlast : requestsOf (actions ++ [a]) = requestsOf actions ++ a.request?.toList := by
      rw [requestsOf, List.filterMap_append]
      cases ha : a.request? <;> simp [requestsOf, ha]
    rw [hlast]
    refine hbefore.next ?_ hnext
    rintro i rfl
    exact hends i (by simp)

theorem mem_held_of_running {c : Crew Job} {j : Job} (hj : j ∈ c.running) : j ∈ c.held := by
  obtain ⟨w, hw, hruns⟩ := List.mem_filterMap.mp hj
  refine List.mem_filterMap.mpr ⟨w, hw, ?_⟩
  cases w <;> simp [Worker.running?] at hruns
  rw [hruns]
  rfl

theorem job_of_handedOver {requests : List (Request Job)} {visits : List (Visit Job)} {j : Job}
    (h : List.Forall₂ Serves requests visits) (hj : j ∈ handedOver requests visits) :
    j ∈ requests.filterMap Request.job? := by
  induction h with
  | nil => exact hj
  | @cons r v rs vs hr _ ih =>
    rw [handedOver_cons] at hj
    rcases List.mem_append.mp hj with hj | hj
    · have hown : r.job? = some j := by
        cases hr <;> simp [Request.handed?] at hj
        all_goals rw [hj]; rfl
      exact List.mem_filterMap.mpr ⟨r, List.mem_cons_self, hown⟩
    · obtain ⟨r', hr', hown⟩ := List.mem_filterMap.mp (ih hj)
      exact List.mem_filterMap.mpr ⟨r', List.mem_cons_of_mem _ hr', hown⟩

theorem not_handedOver {requests : List (Request Job)} {visits : List (Visit Job)} {j : Job}
    {cause : ChannelError} (h : List.Forall₂ Serves requests visits)
    (hjobs : (requests.filterMap Request.job?).Nodup)
    (hv : .returned (.refused j cause) ∈ visits) : j ∉ handedOver requests visits := by
  obtain ⟨before, behind, rfl⟩ := List.append_of_mem hv
  obtain ⟨rs₁, r, rs₂, rfl, h₁, hr, h₂⟩ := exists_request h
  cases hr with
  | refused =>
    have hmine : (rs₁ ++ .submit j :: rs₂).filterMap Request.job?
        = rs₁.filterMap Request.job? ++ j :: rs₂.filterMap Request.job? := by
      simp [Request.job?]
    rw [hmine] at hjobs
    obtain ⟨hnone, -⟩ := List.nodup_cons.mp (List.nodup_middle.mp hjobs)
    intro hj
    rw [handedOver_append h₁.length_eq, handedOver_cons] at hj
    apply hnone
    rcases List.mem_append.mp hj with hj | hj
    · exact List.mem_append_left _ (job_of_handedOver h₁ hj)
    · exact List.mem_append_right _ (job_of_handedOver h₂ (by simpa [Request.handed?] using hj))

theorem Quiet.starters (h : t.Quiet) : t.starters = [] := by
  refine List.filter_eq_nil_iff.mpr ?_
  intro v hv
  have hidle := h v hv
  cases v <;> simp [Visit.isEntering, Visit.isStarting] at hidle ⊢

theorem Quiet.next (h : t.Quiet) (hstart : a ≠ .call .start) (hsubmit : ∀ j, a ≠ .call (.submit j))
    (hnext : t.next a = some t') : t'.Quiet := by
  cases (move_of_next hnext).2 with
  | call r =>
    intro v hv
    rcases List.mem_append.mp hv with hv | hv
    · exact h v hv
    · obtain rfl := List.mem_singleton.mp hv
      cases r with
      | start => exact absurd rfl hstart
      | submit j => exact absurd rfl (hsubmit j)
      | shutdown | interrupt | await _ => rfl
  | advance before behind v s hsplit hs =>
    have hidle : v.isEntering = false := h v (by simp [hsplit])
    have hown : s.visit.isEntering = false := by
      cases stride_of_step hs <;> first | rfl | cases hidle
    intro v' hv'
    rcases List.mem_append.mp hv' with hv' | hv'
    · exact h v' (by simp [hsplit, hv'])
    · rcases List.mem_cons.mp hv' with rfl | hv'
      · exact hown
      · exact h v' (by simp [hsplit, hv'])
  | expire before behind ms hsplit =>
    intro v' hv'
    rcases List.mem_append.mp hv' with hv' | hv'
    · exact h v' (by simp [hsplit, hv'])
    · rcases List.mem_cons.mp hv' with rfl | hv'
      · rfl
      · exact h v' (by simp [hsplit, hv'])
  | work i c o _ => exact h
  | finish i ending c j _ => exact h

/-- Everybody is gone, and nobody has interrupted the crew: then nothing is left. -/
theorem Sound.empty (h : t.Sound requests) (hno : .interrupt ∉ requests) (hquiet : t.Quiet)
    (hgone : t.crew.allGone = true) : t.crew.queue.toList = [] ∧ t.crew.held = [] := by
  have hall : ∀ w ∈ t.crew.workers, w = .gone := by
    intro w hw
    have hw := List.all_eq_true.mp hgone w hw
    cases w <;> simp [Worker.isGone] at hw ⊢
  have hheld : t.crew.held = [] := by
    refine List.filterMap_eq_nil_iff.mpr ?_
    intro w hw
    rw [hall w hw]
    rfl
  refine ⟨?_, hheld⟩
  cases hstarted : t.crew.started with
  | false => exact (h.opening.of_not_started hstarted).2.queue
  | true =>
    have hstaffed := (h.tended hno).2 0 (Or.inr ⟨rfl, hstarted, hquiet.starters⟩)
    have hhired := hstaffed.hired
    have hpos : t.crew.workerCount.toNat ≠ 0 := fun e =>
      h.accounted.workerCount (UInt32.toNat_inj.mp e)
    obtain ⟨w, hw⟩ := List.exists_mem_of_length_pos (by omega : 0 < t.crew.workers.length)
    exact (hstaffed.leaving w hw (Or.inr (hall w hw))).2

theorem Sound.fates (h : t.Sound requests) : t.Fates requests := by
  refine ⟨h.served.visits, h.served.accepted, h.accounted.places, h.accounted.runs,
    h.accounted.completed, h.accounted.failed, ?_, ?_, ?_⟩
  · intro hdropped
    by_contra hno
    exact hdropped (h.tended hno).1.dropped
  · intro hno hquiet hgone
    exact (h.empty hno hquiet hgone).1
  · intro hjobs j cause hv
    have hno : j ∉ t.accepted := by
      intro hj
      exact not_handedOver h.served.visits hjobs hv (h.served.accepted.mem_iff.mp hj)
    refine ⟨hno, ?_⟩
    -- whatever was begun came into the queue
    intro hj
    apply hno
    have hplace := h.accounted.runs.mem_iff.mp hj
    rw [h.accounted.places.mem_iff]
    simp only [List.mem_append] at hplace ⊢
    rcases hplace with (hrunning | hreturned) | hthrew
    · exact Or.inl (Or.inl (Or.inl (Or.inr (mem_held_of_running hrunning))))
    · exact Or.inl (Or.inl (Or.inr hreturned))
    · exact Or.inl (Or.inr hthrew)

/-- Whoever has handed over his job was told that it came in, or has still to count it. -/
theorem length_handedOver {requests : List (Request Job)} {visits : List (Visit Job)}
    (h : List.Forall₂ Serves requests visits) :
    (handedOver requests visits).length
      = visits.countP Visit.isAccepted + visits.countP Visit.isCounting := by
  induction h with
  | nil => rfl
  | @cons r v rs vs hr _ ih =>
    rw [handedOver_cons, List.length_append, ih, List.countP_cons, List.countP_cons]
    cases hr <;> simp [Request.handed?, Visit.isAccepted, Visit.isCounting] <;> omega

theorem Quiet.nobody_counts (h : t.Quiet) : t.visits.countP Visit.isCounting = 0 := by
  refine List.countP_eq_zero.mpr ?_
  intro v hv
  have hidle := h v hv
  cases v <;> simp [Visit.isEntering, Visit.isCounting] at hidle ⊢

/-- **Everybody is counted out**, and nobody has interrupted the crew: then all is done. -/
theorem Sound.drained (h : t.Sound requests) (hno : .interrupt ∉ requests) (hquiet : t.Quiet)
    (hnone : t.crew.alive = 0) : t.Drained := by
  obtain ⟨hcalm, htended⟩ := h.tended hno
  have hgone : t.crew.allGone = true := by
    refine List.all_eq_true.mpr ?_
    intro w hw
    cases hstarted : t.crew.started with
    | false =>
      rw [(h.opening.of_not_started hstarted).2.workers] at hw
      cases hw
    | true =>
      have hstaffed := htended 0 (Or.inr ⟨rfl, hstarted, hquiet.starters⟩)
      rw [hstaffed.all_gone hnone w hw]
      rfl
  obtain ⟨hqueue, hheld⟩ := h.empty hno hquiet hgone
  have haccepted : t.accepted.length = t.visits.countP Visit.isAccepted := by
    rw [h.served.accepted.length_eq, length_handedOver h.served.visits, hquiet.nobody_counts,
      Nat.add_zero]
  have hended : t.accepted.length = t.returned.length + t.threw.length := by
    have hplaces := h.accounted.places.length_eq
    rw [hqueue, hheld, hcalm.dropped] at hplaces
    simpa using hplaces
  refine ⟨hqueue, hnone, ?_, h.served.submitted⟩
  rw [h.served.submitted, h.accounted.completed, h.accounted.failed, ← UInt64.ofNat_add, ← hended,
    haccepted]

/-- Who is told that everybody has left in time finds that nobody is counted any more. -/
theorem alive_of_awaited {n : Nat} (hnext : t.next (.advance n) = some t')
    (htold : t'.reply? n = some (.awaited true)) : t'.crew.alive = 0 := by
  cases (move_of_next hnext).2 with
  | advance before behind v s hsplit hs =>
    have hown : s.visit = .returned (.awaited true) := by
      rw [reply?, List.getElem?_append_right (Nat.le_refl _), Nat.sub_self] at htold
      cases hv : s.visit <;> simp [hv, Visit.reply?] at htold ⊢
      exact htold
    cases stride_of_step hs with
    | inTime ms expired hnone => exact hnone
    | _ => cases hown

/-- **Every job that is brought has one fate**, whatever visitors and workers do and in whatever
order, as long as jobs end by themselves or with an error.  And if nobody ever interrupts the crew,
and nobody is starting it or bringing a job while somebody waits for the workers to leave, then at
the moment in which he is told that they have left nothing is left to be done, and every job that
came in was run to an end.

A step moves a job from one place to the next and leaves the others where they are, so every job
stays accounted for (`Sound`). The second part looks at the last worker who left: as nobody has
interrupted the crew, he left because the queue was closed and used up (`Tended`), and a closed
queue takes nothing more. -/
theorem one_fate {actions : List (Action Job)} (hwide : workers.toNat ≤ Ring.widest)
    (hends : ∀ i, .finish i .escaped ∉ actions)
    (hrun : (create name workers).follow actions = some t) :
    t.Fates (requestsOf actions) ∧
      ∀ (before during : List (Action Job)) (ms : UInt64) (t₀ : Traffic Job),
        actions = before ++ .call (.await ms) :: (during ++ [.advance t₀.visits.length]) →
        (create name workers).follow before = some t₀ → t₀.Quiet →
        (∀ a ∈ during, a ≠ .call .start ∧ ∀ j, a ≠ .call (.submit j)) →
        .call .interrupt ∉ actions →
        t.reply? t₀.visits.length = some (.awaited true) → t.Drained := by
  have hsound := sound_of_follow hwide hends hrun
  refine ⟨hsound.fates, ?_⟩
  intro before during ms t₀ hactions hbefore hquiet hduring hno htold
  have hrequests : .interrupt ∉ requestsOf actions := by
    intro hmem
    obtain ⟨a, ha, hcall⟩ := List.mem_filterMap.mp hmem
    cases a <;> simp [Action.request?] at hcall
    exact hno (hcall ▸ ha)
  rw [hactions, follow_append, hbefore, Option.bind_some, ← List.cons_append] at hrun
  obtain ⟨t₁, hwait, hlast⟩ := follow_concat.mp hrun
  have hquiet₁ : t₁.Quiet := by
    refine follow_keeps ?_ hwait hquiet
    intro a ha t t' hq hnext
    rcases List.mem_cons.mp ha with rfl | ha
    · exact hq.next (a := .call (.await ms)) nofun nofun hnext
    · exact hq.next (hduring a ha).1 (hduring a ha).2 hnext
  have hquiet' := hquiet₁.next (a := .advance t₀.visits.length) nofun nofun hlast
  exact hsound.drained hrequests hquiet' (alive_of_awaited hlast htold)

/-- The one worker of a crew runs a job, and leaves after the crew was shut down. -/
def oneJob : List (Action Nat) :=
  [.call .start, .advance 0, .advance 0, .advance 0, .advance 0, .advance 0, .advance 0,
    .call (.submit 7), .advance 1, .advance 1, .advance 1, .call .shutdown, .advance 2, .advance 2,
    .work 0, .work 0, .work 0, .finish 0 .returned, .work 0, .work 0, .work 0]

/-- Whoever waits for the worker then finds the job done. -/
theorem oneJob_drained :
    ∃ t : Traffic Nat,
      (create [] 1).follow (oneJob ++ [.call (.await 1000), .advance 3]) = some t ∧
      t.returned = [7] ∧ t.Fates (requestsOf (oneJob ++ [.call (.await 1000), .advance 3])) ∧
      t.Drained := by
  obtain ⟨t₀, hbefore, hvisits⟩ : ∃ t₀ : Traffic Nat, (create [] 1).follow oneJob = some t₀ ∧
      t₀.visits = [.returned .started, .returned .accepted, .returned .closed] := ⟨_, rfl, rfl⟩
  obtain ⟨t, hrun, htold, hreturned⟩ : ∃ t : Traffic Nat,
      (create [] 1).follow (oneJob ++ [.call (.await 1000), .advance 3]) = some t ∧
      t.reply? 3 = some (.awaited true) ∧ t.returned = [7] := ⟨_, rfl, rfl, rfl⟩
  have hends : ∀ i, .finish i .escaped ∉ oneJob ++ [.call (.await 1000), .advance 3] := by
    simp [oneJob]
  have hquiet : t₀.Quiet := by
    simp [Quiet, hvisits, Visit.isEntering]
  have hlength : t₀.visits.length = 3 := by
    rw [hvisits]
    rfl
  obtain ⟨hfates, hawait⟩ := one_fate (by decide) hends hrun
  refine ⟨t, hrun, hreturned, hfates, ?_⟩
  refine hawait oneJob [] 1000 t₀ ?_ hbefore hquiet nofun (by decide) ?_
  · rw [hlength]
    rfl
  · rw [hlength]
    exact htold

end Traffic

end Crew

end Intake
