/-
# Visitors on their way

Visitors are the calls of a `WorkerDispatcher`.  `follow` takes a crew and its visitors through a
row of actions, and what is reachable is what a row of actions leads to (`reachable_iff`).  `Stride`
says all that a step of a visitor can do, and `Move` all that an action can do.

Whoever starts the crew goes through several steps: he marks the crew as started, opens the intake,
counts the workers and hires them one by one.  As the mark is asked for and set in one step, only
one visitor ever goes that way (`Opening`), and until he has opened the intake the crew is as it was
made (`Fresh`): no worker is there, and nobody can bring a job.
-/
import Mathlib
import Intake.Crew.Traffic
import Intake.Proofs.Crew.Shifts

namespace Intake.Crew

variable {Job : Type}

/-! ## 1. What a visitor does -/

/-- All that a step of a visitor can do, by how far he has come. -/
inductive Stride (c : Crew Job) : Visit Job → Visit.Step Job → Prop where
  | isStarted : c.started = true → Stride c .markStarted ⟨.returned .started, c, none⟩
  | starts : c.started = false → Stride c .markStarted ⟨.openIntake, c.markStarted, none⟩
  | opens : Stride c .openIntake ⟨.countWorkers, c.openIntake, none⟩
  | counts : Stride c .countWorkers ⟨.hire c.workerCount.toNat, c.countWorkers, none⟩
  | hires (left : Nat) : Stride c (.hire (left + 1)) ⟨.hire left, c.hire, none⟩
  | hiredAll : Stride c (.hire 0) ⟨.announce, c, none⟩
  | announces : Stride c .announce ⟨.returned .started, c, some (.started c.workerCount)⟩
  | comesIn (j : Job) : c.accepting = true → Stride c (.askIntake j) ⟨.offer j, c, none⟩
  | keptOut (j : Job) : c.accepting = false →
      Stride c (.askIntake j) ⟨.returned (.refused j .closed), c, none⟩
  | queues (j : Job) (queue : Channel Job) : c.queue.put j = .gives queue →
      Stride c (.offer j) ⟨.countSubmitted, { c with queue }, some (.accepted j)⟩
  | refused (j : Job) (cause : ChannelError) : c.queue.put j = .fails cause →
      Stride c (.offer j) ⟨.returned (.refused j cause), c, none⟩
  | counted : Stride c .countSubmitted ⟨.returned .accepted, c.countSubmitted, none⟩
  | closesIntake : Stride c .closeIntake ⟨.closeQueue, c.closeIntake, none⟩
  | closesQueue : Stride c .closeQueue ⟨.returned .closed, c.closeQueue, none⟩
  | stopsIntake : Stride c .stopIntake ⟨.markInterrupted, c.closeIntake, none⟩
  | marks : Stride c .markInterrupted ⟨.interruptQueue, c.markInterrupted, none⟩
  | interrupts : Stride c .interruptQueue ⟨.returned .interrupted, c.interruptQueue, none⟩
  | inTime (ms : UInt64) (expired : Bool) : c.alive = 0 →
      Stride c (.await ms expired) ⟨.returned (.awaited true), c, none⟩
  | tooLate (ms : UInt64) : Stride c (.await ms true) ⟨.returned (.awaited false), c, none⟩

theorem stride_of_step {v : Visit Job} {c : Crew Job} {s : Visit.Step Job}
    (h : v.step c = some s) : Stride c v s := by
  cases v with
  | markStarted =>
    rw [Visit.step] at h
    split at h
    · rename_i hstarted
      obtain rfl := Option.some.inj h
      exact .isStarted hstarted
    · rename_i hno
      obtain rfl := Option.some.inj h
      exact .starts (by simpa using hno)
  | openIntake =>
    obtain rfl := Option.some.inj h
    exact .opens
  | countWorkers =>
    obtain rfl := Option.some.inj h
    exact .counts
  | hire left =>
    cases left with
    | zero =>
      obtain rfl := Option.some.inj h
      exact .hiredAll
    | succ left =>
      obtain rfl := Option.some.inj h
      exact .hires left
  | announce =>
    obtain rfl := Option.some.inj h
    exact .announces
  | askIntake j =>
    rw [Visit.step] at h
    split at h
    · rename_i hopen
      obtain rfl := Option.some.inj h
      exact .comesIn j hopen
    · rename_i hshut
      obtain rfl := Option.some.inj h
      exact .keptOut j (by simpa using hshut)
  | offer j =>
    rw [Visit.step, Crew.offer] at h
    cases hput : c.queue.put j with
    | waits => simp [hput, Attempt.map] at h
    | fails cause =>
      simp only [hput, Attempt.map, Option.some.injEq] at h
      subst h
      exact .refused j cause hput
    | gives queue =>
      simp only [hput, Attempt.map, Option.some.injEq] at h
      subst h
      exact .queues j queue hput
  | countSubmitted =>
    obtain rfl := Option.some.inj h
    exact .counted
  | closeIntake =>
    obtain rfl := Option.some.inj h
    exact .closesIntake
  | closeQueue =>
    obtain rfl := Option.some.inj h
    exact .closesQueue
  | stopIntake =>
    obtain rfl := Option.some.inj h
    exact .stopsIntake
  | markInterrupted =>
    obtain rfl := Option.some.inj h
    exact .marks
  | interruptQueue =>
    obtain rfl := Option.some.inj h
    exact .interrupts
  | await ms expired =>
    rw [Visit.step] at h
    split at h
    · rename_i hnone
      obtain rfl := Option.some.inj h
      exact .inTime ms expired hnone
    · split at h
      · rename_i hexpired
        obtain rfl := Option.some.inj h
        rw [hexpired]
        exact .tooLate ms
      · cases h
  | returned r => cases h

/-- What a visitor waits for: room in the queue, or the workers to leave.  Otherwise he is told
something, or goes on. -/
theorem waits_of_step_none {v : Visit Job} {c : Crew Job} (h : v.step c = none) :
    (∃ j, v = .offer j ∧ c.queue.put j = .waits) ∨ (∃ ms, v = .await ms false ∧ c.alive ≠ 0) ∨
      ∃ r, v = .returned r := by
  cases v with
  | markStarted =>
    rw [Visit.step] at h
    split at h <;> cases h
  | hire left => cases left <;> cases h
  | askIntake j =>
    rw [Visit.step] at h
    split at h <;> cases h
  | offer j =>
    rw [Visit.step, Crew.offer] at h
    cases hput : c.queue.put j with
    | waits => exact Or.inl ⟨j, rfl, hput⟩
    | fails cause => simp [hput, Attempt.map] at h
    | gives queue => simp [hput, Attempt.map] at h
  | await ms expired =>
    rw [Visit.step] at h
    split at h
    · cases h
    · rename_i hsome
      cases expired with
      | true => cases h
      | false => exact Or.inr (Or.inl ⟨ms, rfl, hsome⟩)
  | returned r => exact Or.inr (Or.inr ⟨r, rfl⟩)
  | _ => cases h

namespace Traffic

variable {name : Bytes} {workers : UInt32} {t t' t'' : Traffic Job} {a : Action Job}
  {actions : List (Action Job)}

/-! ## 2. Rows of actions -/

/-- What a row of actions leads to; `none` when one of them is not possible. -/
def follow (t : Traffic Job) : List (Action Job) → Option (Traffic Job)
  | [] => some t
  | a :: rest => (t.next a).bind fun t' => t'.follow rest

theorem follow_append (t : Traffic Job) (xs ys : List (Action Job)) :
    t.follow (xs ++ ys) = (t.follow xs).bind fun t' => t'.follow ys := by
  induction xs generalizing t with
  | nil => rfl
  | cons a rest ih =>
    rw [List.cons_append, follow, follow]
    cases t.next a with
    | none => rfl
    | some t' => exact ih t'

theorem follow_concat : t.follow (actions ++ [a]) = some t'' ↔
    ∃ t', t.follow actions = some t' ∧ t'.next a = some t'' := by
  rw [follow_append, Option.bind_eq_some_iff]
  constructor
  · rintro ⟨t', hrow, hlast⟩
    rw [follow, Option.bind_eq_some_iff] at hlast
    obtain ⟨u, hnext, hend⟩ := hlast
    obtain rfl := Option.some.inj hend
    exact ⟨t', hrow, hnext⟩
  · rintro ⟨t', hrow, hnext⟩
    refine ⟨t', hrow, ?_⟩
    rw [follow, hnext]
    rfl

/-- **Reachable is what a row of actions leads to.** -/
theorem reachable_iff :
    Reachable name workers t ↔ ∃ actions, (create name workers).follow actions = some t := by
  constructor
  · intro h
    induction h with
    | create => exact ⟨[], rfl⟩
    | next _ hnext ih =>
      obtain ⟨actions, hrow⟩ := ih
      exact ⟨_, follow_concat.mpr ⟨_, hrow, hnext⟩⟩
  · rintro ⟨actions, hrow⟩
    induction actions using List.reverseRecOn generalizing t with
    | nil =>
      obtain rfl := Option.some.inj hrow
      exact .create
    | append_singleton actions a ih =>
      obtain ⟨t', hrow, hnext⟩ := follow_concat.mp hrow
      exact .next (ih hrow) hnext

/-- Some row of actions leads from the one to the other. -/
def LeadsTo (t t' : Traffic Job) : Prop := ∃ actions, t.follow actions = some t'

theorem LeadsTo.refl (t : Traffic Job) : t.LeadsTo t := ⟨[], rfl⟩

theorem LeadsTo.next (h : t.LeadsTo t') (hnext : t'.next a = some t'') : t.LeadsTo t'' := by
  obtain ⟨actions, hrow⟩ := h
  exact ⟨_, follow_concat.mpr ⟨t', hrow, hnext⟩⟩

theorem LeadsTo.trans (h : t.LeadsTo t') (h' : t'.LeadsTo t'') : t.LeadsTo t'' := by
  obtain ⟨xs, hxs⟩ := h
  obtain ⟨ys, hys⟩ := h'
  refine ⟨xs ++ ys, ?_⟩
  rw [follow_append, hxs]
  exact hys

theorem follow_keeps {P : Traffic Job → Prop}
    (hstep : ∀ a ∈ actions, ∀ {t t'}, P t → t.next a = some t' → P t')
    (h : t.follow actions = some t') (hp : P t) : P t' := by
  induction actions using List.reverseRecOn generalizing t' with
  | nil =>
    obtain rfl := Option.some.inj h
    exact hp
  | append_singleton actions a ih =>
    obtain ⟨u, hrow, hnext⟩ := follow_concat.mp h
    refine hstep a (by simp) (ih ?_ hrow) hnext
    intro b hb
    exact hstep b (List.mem_append_left _ hb)

theorem LeadsTo.keeps {P : Traffic Job → Prop}
    (hstep : ∀ {t a t'}, P t → t.next a = some t' → P t') (h : t.LeadsTo t') (hp : P t) : P t' := by
  obtain ⟨actions, hrow⟩ := h
  exact follow_keeps (fun _ _ => hstep) hrow hp

/-- What holds in the beginning and is kept by every step holds of all that is reachable. -/
theorem Reachable.keeps {P : Traffic Job → Prop} (hcreate : P (Traffic.create name workers))
    (hstep : ∀ {t a t'}, P t → t.next a = some t' → P t') (h : Reachable name workers t) : P t := by
  obtain ⟨actions, hrow⟩ := reachable_iff.mp h
  exact LeadsTo.keeps hstep ⟨actions, hrow⟩ hcreate

/-! ## 3. What an action does -/

/-- All that an action can do. -/
inductive Move (t : Traffic Job) : Action Job → Traffic Job → Prop where
  | call (r : Request Job) : Move t (.call r) { t with visits := t.visits ++ [r.visit] }
  | advance (before behind : List (Visit Job)) (v : Visit Job) (s : Visit.Step Job) :
      t.visits = before ++ v :: behind → v.step t.crew = some s →
      Move t (.advance before.length)
        ⟨s.crew, before ++ s.visit :: behind, t.history ++ s.occurrence.toList⟩
  | expire (before behind : List (Visit Job)) (ms : UInt64) :
      t.visits = before ++ .await ms false :: behind →
      Move t (.expire before.length) { t with visits := before ++ .await ms true :: behind }
  | work (i : Nat) (c : Crew Job) (o : Option (Occurrence Job)) : t.crew.work i = some (c, o) →
      Move t (.work i) ⟨c, t.visits, t.history ++ o.toList⟩
  | finish (i : Nat) (ending : Ending) (c : Crew Job) (j : Job) :
      t.crew.finish i ending = some (c, j) →
      Move t (.finish i ending) ⟨c, t.visits, t.history ++ [.ended i j ending]⟩

theorem of_expire {v v' : Visit Job} (h : v.expire = some v') :
    ∃ ms, v = .await ms false ∧ v' = .await ms true := by
  unfold Visit.expire at h
  split at h
  · exact ⟨_, rfl, (Option.some.inj h).symm⟩
  · cases h

theorem move_of_next (h : t.next a = some t') : t.crew.aborted = false ∧ Move t a t' := by
  unfold next at h
  split at h
  · cases h
  · rename_i hgoes
    refine ⟨by simpa using hgoes, ?_⟩
    cases a with
    | call r =>
      obtain rfl := Option.some.inj h
      exact .call r
    | advance i =>
      cases hv : t.visits[i]? with
      | none => simp [hv] at h
      | some v =>
        simp only [hv, Option.map_eq_some_iff] at h
        obtain ⟨s, hs, rfl⟩ := h
        obtain ⟨before, behind, hsplit, rfl, hset⟩ := exists_split_at hv
        rw [hset]
        exact .advance before behind v s hsplit hs
    | expire i =>
      cases hv : t.visits[i]? with
      | none => simp [hv] at h
      | some v =>
        simp only [hv, Option.map_eq_some_iff] at h
        obtain ⟨v', hv', rfl⟩ := h
        obtain ⟨ms, rfl, rfl⟩ := of_expire hv'
        obtain ⟨before, behind, hsplit, rfl, hset⟩ := exists_split_at hv
        rw [hset]
        exact .expire before behind ms hsplit
    | work i =>
      obtain ⟨⟨c, o⟩, hwork, rfl⟩ := Option.map_eq_some_iff.mp h
      exact .work i c o hwork
    | finish i ending =>
      obtain ⟨⟨c, j⟩, hfinish, rfl⟩ := Option.map_eq_some_iff.mp h
      exact .finish i ending c j hfinish

theorem next_advance {i : Nat} {v : Visit Job} {s : Visit.Step Job}
    (hgoes : t.crew.aborted = false) (hv : t.visits[i]? = some v) (hs : v.step t.crew = some s) :
    t.next (.advance i)
      = some ⟨s.crew, t.visits.set i s.visit, t.history ++ s.occurrence.toList⟩ := by
  simp [next, hgoes, hv, hs, note]

theorem next_call (hgoes : t.crew.aborted = false) (r : Request Job) :
    t.next (.call r) = some { t with visits := t.visits ++ [r.visit] } := by
  simp [next, hgoes]

end Traffic

/-! ## 4. The one who starts the crew -/

/-- True for a visitor who has marked the crew as started and has not hired everybody yet. -/
def Visit.isStarting : Visit Job → Bool
  | openIntake | countWorkers | hire _ => true
  | _ => false

/-- What a step that starts nothing leaves as it is. -/
structure Steady (v : Visit Job) (c : Crew Job) (s : Visit.Step Job) : Prop where
  visit : s.visit.isStarting = false
  started : s.crew.started = c.started
  workers : s.crew.workers = c.workers
  aborted : s.crew.aborted = c.aborted
  accepting : c.accepting = false → s.crew.accepting = false
  offer : c.accepting = false → ∀ j, s.visit ≠ .offer j
  queue : (∀ j, v ≠ .offer j) → s.crew.queue.toList = c.queue.toList

theorem Stride.steady {v : Visit Job} {c : Crew Job} {s : Visit.Step Job} (h : Stride c v s)
    (hv : v.isStarting = false) (hmark : v = .markStarted → c.started = true) : Steady v c s := by
  cases h with
  | starts hno =>
    rw [hmark rfl] at hno
    cases hno
  | opens | counts | hires | hiredAll => cases hv
  | comesIn j hopen =>
    refine ⟨rfl, rfl, rfl, rfl, id, ?_, fun _ => rfl⟩
    intro hshut
    rw [hopen] at hshut
    cases hshut
  | queues j queue _ =>
    exact ⟨rfl, rfl, rfl, rfl, id, fun _ _ => nofun, fun hno => absurd rfl (hno j)⟩
  | closesIntake | stopsIntake =>
    exact ⟨rfl, rfl, rfl, rfl, fun _ => rfl, fun _ _ => nofun, fun _ => rfl⟩
  | _ => exact ⟨rfl, rfl, rfl, rfl, id, fun _ _ => nofun, fun _ => rfl⟩

namespace Traffic

variable {name : Bytes} {workers : UInt32} {t t' : Traffic Job} {a : Action Job}

/-- The visitors who are starting the crew. -/
def starters (t : Traffic Job) : List (Visit Job) := t.visits.filter Visit.isStarting

/-- The crew is as it was made, and nobody can bring a job. -/
structure Fresh (t : Traffic Job) : Prop where
  workers : t.crew.workers = []
  aborted : t.crew.aborted = false
  accepting : t.crew.accepting = false
  queue : t.crew.queue.toList = []
  offers : ∀ j, .offer j ∉ t.visits

/-- How far the one who starts the crew has come. -/
inductive Opening (t : Traffic Job) : List (Visit Job) → Prop where
  | fresh : t.crew.started = false → t.Fresh → Opening t []
  | opening : t.crew.started = true → t.Fresh → Opening t [.openIntake]
  | counting : t.crew.started = true → t.crew.workers = [] → Opening t [.countWorkers]
  | hiring (left : Nat) : t.crew.started = true → Opening t [.hire left]
  | opened : t.crew.started = true → Opening t []

/-- A step that starts nothing. -/
structure Aside (t t' : Traffic Job) : Prop where
  started : t'.crew.started = t.crew.started
  starters : t'.starters = t.starters
  bare : t.crew.workers = [] → t'.crew.workers = []
  fresh : t.Fresh → t'.Fresh

theorem Opening.aside (h : t.Opening t.starters) (ha : t.Aside t') : t'.Opening t'.starters := by
  rw [ha.starters]
  generalize t.starters = l at h
  cases h with
  | fresh hs hf => exact .fresh (ha.started.trans hs) (ha.fresh hf)
  | opening hs hf => exact .opening (ha.started.trans hs) (ha.fresh hf)
  | counting hs hw => exact .counting (ha.started.trans hs) (ha.bare hw)
  | hiring left hs => exact .hiring left (ha.started.trans hs)
  | opened hs => exact .opened (ha.started.trans hs)

theorem Opening.of_not_started {l : List (Visit Job)} (h : t.Opening l)
    (hno : t.crew.started = false) : l = [] ∧ t.Fresh := by
  cases h with
  | fresh _ hfresh => exact ⟨rfl, hfresh⟩
  | opening hstarted _ => simp [hno] at hstarted
  | counting hstarted _ => simp [hno] at hstarted
  | hiring _ hstarted => simp [hno] at hstarted
  | opened hstarted => simp [hno] at hstarted

section Split

variable {before behind : List (Visit Job)} {v : Visit Job} {history : List (Occurrence Job)}

theorem Opening.alone (h : t.Opening t.starters) (hsplit : t.visits = before ++ v :: behind)
    (hv : v.isStarting = true) :
    t.starters = [v] ∧ before.filter Visit.isStarting = [] ∧
      behind.filter Visit.isStarting = [] := by
  have hall : t.starters
      = before.filter Visit.isStarting ++ v :: behind.filter Visit.isStarting := by
    simp [starters, hsplit, hv]
  have hlength : t.starters.length ≤ 1 := by
    generalize t.starters = l at h
    cases h <;> simp
  rw [hall, List.length_append, List.length_cons] at hlength
  have hbefore : before.filter Visit.isStarting = [] := List.length_eq_zero_iff.mp (by omega)
  have hbehind : behind.filter Visit.isStarting = [] := List.length_eq_zero_iff.mp (by omega)
  refine ⟨?_, hbefore, hbehind⟩
  rw [hall, hbefore, hbehind]
  rfl

theorem starters_of_alone (hbefore : before.filter Visit.isStarting = [])
    (hbehind : behind.filter Visit.isStarting = []) (v' : Visit Job) (c : Crew Job)
    (history : List (Occurrence Job)) :
    (⟨c, before ++ v' :: behind, history⟩ : Traffic Job).starters
      = [v'].filter Visit.isStarting := by
  simp [starters, List.filter_cons, hbefore, hbehind]

theorem aside_of_step {s : Visit.Step Job} (hsplit : t.visits = before ++ v :: behind)
    (hs : v.step t.crew = some s) (hv : v.isStarting = false)
    (hmark : v = .markStarted → t.crew.started = true) :
    t.Aside ⟨s.crew, before ++ s.visit :: behind, history⟩ := by
  have hsteady := (stride_of_step hs).steady hv hmark
  refine ⟨hsteady.started, ?_, ?_, ?_⟩
  · simp [starters, hsplit, hv, hsteady.visit]
  · intro hbare
    exact hsteady.workers.trans hbare
  · intro hfresh
    refine ⟨hsteady.workers.trans hfresh.workers, hsteady.aborted.trans hfresh.aborted,
      hsteady.accepting hfresh.accepting, ?_, ?_⟩
    · refine (hsteady.queue ?_).trans hfresh.queue
      rintro j rfl
      exact hfresh.offers j (by simp [hsplit])
    · intro j hj
      rcases List.mem_append.mp hj with hj | hj
      · exact hfresh.offers j (by simp [hsplit, hj])
      · rcases List.mem_cons.mp hj with hj | hj
        · exact hsteady.offer hfresh.accepting j hj.symm
        · exact hfresh.offers j (by simp [hsplit, hj])

theorem Opening.nobody (h : t.Opening t.starters) (hsplit : t.visits = before ++ v :: behind)
    (hno : t.crew.started = false) :
    before.filter Visit.isStarting = [] ∧ behind.filter Visit.isStarting = [] := by
  obtain ⟨hnobody, -⟩ := h.of_not_started hno
  have hall : (before ++ v :: behind).filter Visit.isStarting = [] := hsplit ▸ hnobody
  rw [List.filter_append, List.filter_cons] at hall
  obtain ⟨hbefore, hrest⟩ := List.append_eq_nil_iff.mp hall
  refine ⟨hbefore, ?_⟩
  split at hrest
  · cases hrest
  · exact hrest

theorem Opening.mark (h : t.Opening t.starters)
    (hsplit : t.visits = before ++ .markStarted :: behind) (hno : t.crew.started = false) :
    (⟨t.crew.markStarted, before ++ .openIntake :: behind, history⟩ : Traffic Job).Opening
      (⟨t.crew.markStarted, before ++ .openIntake :: behind, history⟩ : Traffic Job).starters := by
  obtain ⟨-, hfresh⟩ := h.of_not_started hno
  obtain ⟨hbefore, hbehind⟩ := h.nobody hsplit hno
  rw [starters_of_alone hbefore hbehind]
  refine .opening rfl ⟨hfresh.workers, hfresh.aborted, hfresh.accepting, hfresh.queue, ?_⟩
  intro j hj
  apply hfresh.offers j
  rw [hsplit]
  simpa using hj

theorem aside_call (t : Traffic Job) (r : Request Job) :
    t.Aside { t with visits := t.visits ++ [r.visit] } := by
  refine ⟨rfl, ?_, id, ?_⟩
  · cases r <;> simp [starters, Request.visit, Visit.isStarting]
  · intro hfresh
    refine ⟨hfresh.workers, hfresh.aborted, hfresh.accepting, hfresh.queue, ?_⟩
    intro j hj
    rcases List.mem_append.mp hj with hj | hj
    · exact hfresh.offers j hj
    · cases r <;> simp [Request.visit] at hj

theorem aside_expire {ms : UInt64} (hsplit : t.visits = before ++ .await ms false :: behind) :
    t.Aside { t with visits := before ++ .await ms true :: behind } := by
  refine ⟨rfl, ?_, id, ?_⟩
  · simp [starters, hsplit, Visit.isStarting]
  · intro hfresh
    refine ⟨hfresh.workers, hfresh.aborted, hfresh.accepting, hfresh.queue, ?_⟩
    intro j hj
    apply hfresh.offers j
    rw [hsplit]
    simpa using hj

/-- **One visitor at most starts the crew**, and until he has opened the intake it is fresh. -/
theorem Opening.next (h : t.Opening t.starters) (hnext : t.next a = some t') :
    t'.Opening t'.starters := by
  cases (move_of_next hnext).2 with
  | call r => exact h.aside (aside_call t r)
  | advance before behind v s hsplit hs =>
    cases stride_of_step hs with
    | starts hno => exact h.mark hsplit hno
    | opens =>
      obtain ⟨hone, hbefore, hbehind⟩ := h.alone hsplit rfl
      rw [hone] at h
      rw [starters_of_alone hbefore hbehind]
      cases h with
      | opening hstarted hfresh => exact .counting hstarted hfresh.workers
    | counts =>
      obtain ⟨hone, hbefore, hbehind⟩ := h.alone hsplit rfl
      rw [hone] at h
      rw [starters_of_alone hbefore hbehind]
      cases h with
      | counting hstarted _ => exact .hiring _ hstarted
    | hires left =>
      obtain ⟨hone, hbefore, hbehind⟩ := h.alone hsplit rfl
      rw [hone] at h
      rw [starters_of_alone hbefore hbehind]
      cases h with
      | hiring _ hstarted => exact .hiring left hstarted
    | hiredAll =>
      obtain ⟨hone, hbefore, hbehind⟩ := h.alone hsplit rfl
      rw [hone] at h
      rw [starters_of_alone hbefore hbehind]
      cases h with
      | hiring _ hstarted => exact .opened hstarted
    | isStarted hstarted => exact h.aside (aside_of_step hsplit hs rfl fun _ => hstarted)
    | _ => exact h.aside (aside_of_step hsplit hs rfl nofun)
  | expire before behind ms hsplit => exact h.aside (aside_expire hsplit)
  | work i c o hwork =>
    have hsome : t.crew.workers ≠ [] := by
      intro hnobody
      simp [Crew.work, hnobody] at hwork
    refine h.aside ⟨?_, rfl, fun hnobody => absurd hnobody hsome,
      fun hfresh => absurd hfresh.workers hsome⟩
    cases round_of_work hwork <;> rfl
  | finish i ending c j hfinish =>
    have hsome : t.crew.workers ≠ [] := by
      intro hnobody
      simp [Crew.finish, hnobody] at hfinish
    refine h.aside ⟨?_, rfl, fun hnobody => absurd hnobody hsome,
      fun hfresh => absurd hfresh.workers hsome⟩
    rw [(of_finish hfinish).2]
    cases ending <;> rfl

end Split

theorem Reachable.opening (h : Reachable name workers t) : t.Opening t.starters := by
  refine h.keeps (P := fun t => t.Opening t.starters) ?_ Opening.next
  exact .fresh rfl ⟨rfl, rfl, rfl, Ring.toList_create _, by simp [Traffic.create]⟩

end Traffic

end Intake.Crew
