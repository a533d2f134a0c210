/-
# Workers on their rounds

A step of a worker in `WorkerLoop` is one of three kinds (`Shift`): it changes nothing about any
job, or it takes the first job of the queue, or it begins to run a job that it has.  A job that ends
is taken from those that are run (`finish_shift`).  So each job goes the same way, through the hands
of one worker, and no job comes from anywhere else.

`Crew.Staffed` says that the count of workers is right, and that nobody leaves before the queue is
closed and used up; every step keeps it so, also those of the one who hires the workers and brings
them jobs.  When the count comes down to zero there is no job left (`Staffed.all_done`).

What the workers have to do with the jobs that are there can be counted (`Crew.toil`), and every
step of theirs leaves less of it.
-/
import Mathlib
import Intake.Crew.Basic
import Intake.Proofs.Channel.Queue
import Intake.Proofs.Places

namespace Intake

variable {Job : Type}

/-! ## 1. One worker among the others -/

/-- The job that a worker has and does not run yet. -/
def Worker.holding? : Worker Job → Option Job
  | holding j => some j
  | looking | taking | running _ | leaving | gone => none

/-- The job that came into the queue. -/
def Occurrence.accepted? : Occurrence Job → Option Job
  | accepted j => some j
  | started _ | taken .. | begun .. | ended .. | dropped _ => none

namespace Crew

/-- The jobs that workers have and do not run yet. -/
def waiting (c : Crew Job) : List Job := c.workers.filterMap Worker.holding?

/-- How many workers have not counted themselves out. -/
def present (c : Crew Job) : Nat := c.workers.countP fun w => !w.isGone

theorem workers_split {c : Crew Job} {i : Nat} {w : Worker Job} (h : c.workers[i]? = some w) :
    ∃ before behind, c.workers = before ++ w :: behind ∧
      ∀ w', (c.setWorker i w').workers = before ++ w' :: behind := by
  obtain ⟨before, behind, hsplit, -, hset⟩ := exists_split_at h
  exact ⟨before, behind, hsplit, hset⟩

section Moved

variable {c : Crew Job} {before behind : List (Worker Job)} {w w' : Worker Job} {c' : Crew Job}

theorem filterMap_moved {α : Type} (pick : Worker Job → Option α)
    (hw : c.workers = before ++ w :: behind) (hw' : c'.workers = before ++ w' :: behind) :
    ((pick w).toList ++ c'.workers.filterMap pick).Perm
      ((pick w').toList ++ c.workers.filterMap pick) := by
  rw [hw, hw']
  exact perm_filterMap_middle pick before behind w w'

theorem filterMap_of_moved {α : Type} (pick : Worker Job → Option α)
    (hw : c.workers = before ++ w :: behind) (hw' : c'.workers = before ++ w' :: behind)
    (hsame : pick w' = pick w) :
    (c'.workers.filterMap pick).Perm (c.workers.filterMap pick) := by
  have hmoved := filterMap_moved pick hw hw'
  rw [hsame] at hmoved
  exact (List.perm_append_left_iff _).mp hmoved

theorem present_moved (hw : c.workers = before ++ w :: behind)
    (hw' : c'.workers = before ++ w' :: behind) :
    c'.present + (if w.isGone then 0 else 1) = c.present + (if w'.isGone then 0 else 1) := by
  unfold present
  rw [hw, hw', List.countP_append, List.countP_append, List.countP_cons, List.countP_cons]
  cases w.isGone <;> cases w'.isGone <;> simp <;> omega

theorem length_moved (hw : c.workers = before ++ w :: behind)
    (hw' : c'.workers = before ++ w' :: behind) : c'.workers.length = c.workers.length := by
  rw [hw, hw', List.length_append, List.length_append, List.length_cons, List.length_cons]

end Moved

/-! ## 2. Who is there -/

/-- Nobody has told the crew to stop. -/
structure Calm (c : Crew Job) : Prop where
  crew : c.interrupted = false
  queue : c.queue.interrupted = false

/-- The count of workers is right, with so many still to be hired, and nobody leaves as long as
there may be a job in the queue. -/
structure Staffed (c : Crew Job) (queued : List Job) (due : Nat) : Prop where
  hired : c.workers.length + due = c.workerCount.toNat
  alive : c.alive.toNat = c.present + due
  leaving : ∀ w ∈ c.workers, w = .leaving ∨ w = .gone → c.queue.closed = true ∧ queued = []

/-- What a step of a worker does not touch. -/
structure SameDesk (c c' : Crew Job) : Prop where
  workerCount : c'.workerCount = c.workerCount
  started : c'.started = c.started
  accepting : c'.accepting = c.accepting
  submitted : c'.submitted = c.submitted
  closed : c'.queue.closed = c.queue.closed
  calm : c.Calm → c'.Calm

variable {c c' : Crew Job} {queued : List Job} {due : Nat}

theorem Staffed.all_gone (h : c.Staffed queued 0) (hnone : c.alive = 0) :
    ∀ w ∈ c.workers, w = .gone := by
  have halive := h.alive
  have hzero : c.present = 0 := by
    rw [hnone] at halive
    exact halive.symm
  intro w hw
  have hcount := List.countP_eq_zero.mp hzero w hw
  cases w <;> simp [Worker.isGone] at hcount ⊢

/-- When everybody has left, and nobody is due, nobody is counted any more. -/
theorem Staffed.alive_eq_zero (h : c.Staffed queued 0) (hgone : c.allGone = true) :
    c.alive = 0 := by
  have hpresent : c.present = 0 := by
    refine List.countP_eq_zero.mpr ?_
    intro w hw
    simpa using List.all_eq_true.mp hgone w hw
  apply UInt32.toNat_inj.mp
  rw [h.alive, hpresent]
  rfl

theorem idle_of_all_gone (h : ∀ w ∈ c.workers, w = .gone) (i : Nat) (ending : Ending) :
    c.work i = none ∧ c.finish i ending = none := by
  unfold work finish
  cases hi : c.workers[i]? with
  | none => exact ⟨rfl, rfl⟩
  | some w =>
    obtain rfl := h w (List.mem_of_getElem? hi)
    exact ⟨rfl, rfl⟩

theorem Staffed.used_up (h : c.Staffed queued 0) (hsome : c.workerCount ≠ 0)
    (hnone : c.alive = 0) : c.queue.closed = true ∧ queued = [] := by
  have hhired := h.hired
  have hpos : c.workerCount.toNat ≠ 0 := fun e => hsome (UInt32.toNat_inj.mp e)
  obtain ⟨w, hw⟩ := List.exists_mem_of_length_pos (by omega : 0 < c.workers.length)
  exact h.leaving w hw (Or.inr (h.all_gone hnone w hw))

theorem Staffed.all_done (h : c.Staffed queued 0) (hsome : c.workerCount ≠ 0)
    (hnone : c.alive = 0) : queued = [] ∧ c.waiting = [] ∧ c.running = [] := by
  have hgone := h.all_gone hnone
  refine ⟨(h.used_up hsome hnone).2, ?_, ?_⟩
  · refine List.filterMap_eq_nil_iff.mpr ?_
    intro w hw
    rw [hgone w hw]
    rfl
  · refine List.filterMap_eq_nil_iff.mpr ?_
    intro w hw
    rw [hgone w hw]
    rfl

theorem Staffed.move {queued' : List Job} {w w' : Worker Job} {before behind : List (Worker Job)}
    (h : c.Staffed queued due) (hw : c.workers = before ++ w :: behind)
    (hw' : c'.workers = before ++ w' :: behind) (hdesk : c.SameDesk c')
    (halive : c'.alive.toNat + (if w.isGone then 0 else 1)
      = c.alive.toNat + (if w'.isGone then 0 else 1))
    (hqueued : queued = [] → queued' = [])
    (hleaves : w' = .leaving ∨ w' = .gone → c.queue.closed = true ∧ queued = []) :
    c'.Staffed queued' due := by
  have hpresent := present_moved hw hw'
  have hlength := length_moved hw hw'
  have hhired := h.hired
  have hcount := h.alive
  refine ⟨?_, by omega, ?_⟩
  · rw [hdesk.workerCount]
    omega
  · intro v hv hgone
    rw [hw'] at hv
    rw [hdesk.closed]
    have hclosed : c.queue.closed = true ∧ queued = [] := by
      rcases List.mem_append.mp hv with hv | hv
      · exact h.leaving v (by rw [hw]; exact List.mem_append_left _ hv) hgone
      · rcases List.mem_cons.mp hv with rfl | hv
        · exact hleaves hgone
        · exact h.leaving v (by rw [hw]; simp [hv]) hgone
    exact ⟨hclosed.1, hqueued hclosed.2⟩

/-! ## 3. Steps of workers -/

/-- All that a step of the worker `i` can do, by where it is on its round. -/
inductive Round (c : Crew Job) (i : Nat) : Crew Job → Option (Occurrence Job) → Prop where
  | goesOn : c.workers[i]? = some .looking → c.interrupted = false →
      Round c i (c.setWorker i .taking) none
  | stops : c.workers[i]? = some .looking → c.interrupted = true →
      Round c i (c.setWorker i .leaving) none
  | takes (j : Job) (queue : Channel Job) : c.workers[i]? = some .taking →
      c.queue.take = .gives (j, queue) →
      Round c i ({ c with queue }.setWorker i (.holding j)) (some (.taken i j))
  | findsNone (cause : ChannelError) : c.workers[i]? = some .taking →
      c.queue.take = .fails cause → Round c i (c.setWorker i .leaving) none
  | begins (j : Job) : c.workers[i]? = some (.holding j) → c.interrupted = false →
      Round c i (c.setWorker i (.running j)) (some (.begun i j))
  | drops (j : Job) : c.workers[i]? = some (.holding j) → c.interrupted = true →
      Round c i (c.setWorker i .leaving) (some (.dropped j))
  | leaves : c.workers[i]? = some .leaving → Round c i (c.countOut.setWorker i .gone) none

theorem round_of_work {i : Nat} {o : Option (Occurrence Job)} (h : c.work i = some (c', o)) :
    Round c i c' o := by
  unfold work at h
  cases hi : c.workers[i]? with
  | none => simp [hi] at h
  | some w =>
    cases w with
    | looking =>
      cases hstop : c.interrupted with
      | false =>
        simp only [hi, hstop, Bool.false_eq_true, if_false, Option.some.injEq,
          Prod.mk.injEq] at h
        obtain ⟨rfl, rfl⟩ := h
        exact .goesOn hi hstop
      | true =>
        simp only [hi, hstop, if_true, Option.some.injEq, Prod.mk.injEq] at h
        obtain ⟨rfl, rfl⟩ := h
        exact .stops hi hstop
    | taking =>
      cases htake : c.queue.take with
      | waits => simp [hi, htake] at h
      | fails cause =>
        simp only [hi, htake, Option.some.injEq, Prod.mk.injEq] at h
        obtain ⟨rfl, rfl⟩ := h
        exact .findsNone cause hi htake
      | gives r =>
        simp only [hi, htake, Option.some.injEq, Prod.mk.injEq] at h
        obtain ⟨rfl, rfl⟩ := h
        exact .takes r.1 r.2 hi htake
    | holding j =>
      cases hstop : c.interrupted with
      | false =>
        simp only [hi, hstop, Bool.false_eq_true, if_false, Option.some.injEq,
          Prod.mk.injEq] at h
        obtain ⟨rfl, rfl⟩ := h
        exact .begins j hi hstop
      | true =>
        simp only [hi, hstop, if_true, Option.some.injEq, Prod.mk.injEq] at h
        obtain ⟨rfl, rfl⟩ := h
        exact .drops j hi hstop
    | running j => simp [hi] at h
    | leaving =>
      simp only [hi, Option.some.injEq, Prod.mk.injEq] at h
      obtain ⟨rfl, rfl⟩ := h
      exact .leaves hi
    | gone => simp [hi] at h

/-- What a step of the worker `i` does to the jobs. -/
inductive Shift (c c' : Crew Job) (queued queued' : List Job) (i : Nat) :
    Option (Occurrence Job) → Prop where
  | still : queued' = queued → c'.waiting.Perm c.waiting → c'.running.Perm c.running →
      Shift c c' queued queued' i none
  | takes (j : Job) : queued = j :: queued' → c'.waiting.Perm (j :: c.waiting) →
      c'.running.Perm c.running → Shift c c' queued queued' i (some (.taken i j))
  | begins (j : Job) : queued' = queued → (j :: c'.waiting).Perm c.waiting →
      c'.running.Perm (j :: c.running) → Shift c c' queued queued' i (some (.begun i j))

/-- A crew after a step of a worker. -/
structure Worked (c c' : Crew Job) (queued' : List Job) (due : Nat) : Prop where
  holds : c'.queue.Holds queued'
  staffed : c'.Staffed queued' due
  desk : c.SameDesk c'
  completed : c'.completed = c.completed
  failed : c'.failed = c.failed
  aborted : c'.aborted = c.aborted

section Moves

variable {i : Nat} {w w' : Worker Job}

theorem sameDesk_setWorker (c : Crew Job) (i : Nat) (w : Worker Job) :
    c.SameDesk (c.setWorker i w) :=
  ⟨rfl, rfl, rfl, rfl, rfl, fun h => ⟨h.crew, h.queue⟩⟩

theorem still_of_moved {before behind : List (Worker Job)} (hw : c.workers = before ++ w :: behind)
    (hw' : c'.workers = before ++ w' :: behind) (hholding : w'.holding? = w.holding?)
    (hrunning : w'.running? = w.running?) :
    c'.waiting.Perm c.waiting ∧ c'.running.Perm c.running :=
  ⟨filterMap_of_moved Worker.holding? hw hw' hholding,
    filterMap_of_moved Worker.running? hw hw' hrunning⟩

theorem worked_setWorker (hq : c.queue.Holds queued) (hs : c.Staffed queued due)
    (hi : c.workers[i]? = some w) (hw : w.isGone = false) (hw' : w'.isGone = false)
    (hleaves : w' = .leaving → c.queue.closed = true ∧ queued = []) :
    c.Worked (c.setWorker i w') queued due := by
  obtain ⟨before, behind, hsplit, hmoved⟩ := workers_split hi
  refine ⟨hq, ?_, sameDesk_setWorker c i w', rfl, rfl, rfl⟩
  refine hs.move hsplit (hmoved w') (sameDesk_setWorker c i w') ?_ id ?_
  · rw [hw, hw']
    rfl
  · intro h
    rcases h with rfl | rfl
    · exact hleaves rfl
    · cases hw'

end Moves

/-- **What a step of a worker does.**  The cases are those of where the worker is on its round. -/
theorem work_shift {i : Nat} {o : Option (Occurrence Job)} (hcalm : c.Calm)
    (hq : c.queue.Holds queued) (hs : c.Staffed queued due) (h : c.work i = some (c', o)) :
    ∃ queued', c.Worked c' queued' due ∧ Shift c c' queued queued' i o := by
  cases round_of_work h with
  | goesOn hi _ =>
    obtain ⟨before, behind, hsplit, hmoved⟩ := workers_split hi
    obtain ⟨hwaiting, hrunning⟩ := still_of_moved hsplit (hmoved .taking) rfl rfl
    exact ⟨queued, worked_setWorker hq hs hi rfl rfl (by simp), .still rfl hwaiting hrunning⟩
  | stops _ hstop =>
    rw [hcalm.crew] at hstop
    cases hstop
  | takes j queue hi htake =>
    obtain ⟨before, behind, hsplit, hmoved⟩ := workers_split hi
    obtain ⟨rest, rfl, hrest, rfl⟩ := hq.of_take_gives htake
    have hdesk : c.SameDesk
        (({ c with queue := { c.queue with ring := c.queue.ring.advance } } :
          Crew Job).setWorker i (.holding j)) :=
      ⟨rfl, rfl, rfl, rfl, rfl, fun h => ⟨h.crew, h.queue⟩⟩
    have hw' := hmoved (.holding j)
    refine ⟨rest, ⟨hrest, ?_, hdesk, rfl, rfl, rfl⟩, .takes j rfl ?_ ?_⟩
    · exact hs.move hsplit hw' hdesk rfl (by simp) (by simp)
    · exact filterMap_moved Worker.holding? hsplit hw'
    · exact filterMap_moved Worker.running? hsplit hw'
  | findsNone cause hi htake =>
    obtain ⟨before, behind, hsplit, hmoved⟩ := workers_split hi
    obtain ⟨rfl, hstop⟩ := hq.of_take_fails htake
    have hclosed : c.queue.closed = true := hstop.resolve_right (by simp [hcalm.queue])
    obtain ⟨hwaiting, hrunning⟩ := still_of_moved hsplit (hmoved .leaving) rfl rfl
    exact ⟨[], worked_setWorker hq hs hi rfl rfl (fun _ => ⟨hclosed, rfl⟩),
      .still rfl hwaiting hrunning⟩
  | begins j hi _ =>
    obtain ⟨before, behind, hsplit, hmoved⟩ := workers_split hi
    refine ⟨queued, worked_setWorker hq hs hi rfl rfl (by simp), .begins j rfl ?_ ?_⟩
    · exact filterMap_moved Worker.holding? hsplit (hmoved (.running j))
    · exact filterMap_moved Worker.running? hsplit (hmoved (.running j))
  | drops _ _ hstop =>
    rw [hcalm.crew] at hstop
    cases hstop
  | leaves hi =>
    obtain ⟨before, behind, hsplit, hmoved⟩ := workers_split hi
    have hdesk : c.SameDesk (c.countOut.setWorker i .gone) :=
      ⟨rfl, rfl, rfl, rfl, rfl, fun h => ⟨h.crew, h.queue⟩⟩
    have hw' : (c.countOut.setWorker i .gone).workers = before ++ .gone :: behind := hmoved .gone
    have hpresent := present_moved hsplit hw'
    have hcount := hs.alive
    have hpos : 1 ≤ c.alive.toNat := by
      simp only [Worker.isGone] at hpresent
      simp at hpresent
      omega
    have hless : (c.alive - 1).toNat = c.alive.toNat - 1 :=
      UInt32.toNat_sub_of_le _ _ (UInt32.le_iff_toNat_le.mpr hpos)
    have hmem : (.leaving : Worker Job) ∈ c.workers := by
      rw [hsplit]
      simp
    obtain ⟨hwaiting, hrunning⟩ := still_of_moved hsplit hw' rfl rfl
    refine ⟨queued, ⟨hq, ?_, hdesk, rfl, rfl, rfl⟩, .still rfl hwaiting hrunning⟩
    refine hs.move hsplit hw' hdesk ?_ id (fun _ => hs.leaving _ hmem (Or.inl rfl))
    show (c.alive - 1).toNat + 1 = c.alive.toNat + 0
    omega

theorem capacity_of_work {i : Nat} {o : Option (Occurrence Job)} (hq : c.queue.Holds queued)
    (h : c.work i = some (c', o)) : c'.queue.capacity = c.queue.capacity := by
  cases round_of_work h with
  | takes j queue _ htake =>
    obtain ⟨-, -, -, rfl⟩ := hq.of_take_gives htake
    rfl
  | _ => rfl

theorem sameDesk_of_work {i : Nat} {o : Option (Occurrence Job)} (hq : c.queue.Holds queued)
    (h : c.work i = some (c', o)) : c.SameDesk c' := by
  cases round_of_work h with
  | takes j queue _ htake =>
    obtain ⟨-, -, -, rfl⟩ := hq.of_take_gives htake
    exact ⟨rfl, rfl, rfl, rfl, rfl, fun h => ⟨h.crew, h.queue⟩⟩
  | _ => exact ⟨rfl, rfl, rfl, rfl, rfl, fun h => ⟨h.crew, h.queue⟩⟩

/-! ## 4. The end of a job -/

theorem of_finish {i : Nat} {ending : Ending} {j : Job} (h : c.finish i ending = some (c', j)) :
    c.workers[i]? = some (.running j) ∧ c' = (c.setWorker i .looking).tally ending := by
  unfold finish at h
  split at h
  · rename_i j' hi
    simp only [Option.some.injEq, Prod.mk.injEq] at h
    obtain ⟨rfl, rfl⟩ := h
    exact ⟨hi, rfl⟩
  · cases h

theorem sameDesk_of_finish {i : Nat} {ending : Ending} {j : Job}
    (h : c.finish i ending = some (c', j)) : c.SameDesk c' := by
  obtain ⟨-, rfl⟩ := of_finish h
  cases ending <;> exact ⟨rfl, rfl, rfl, rfl, rfl, fun h => ⟨h.crew, h.queue⟩⟩

/-- **A job that ends** is taken from those that are run, and counted. -/
theorem finish_shift {i : Nat} {ending : Ending} {j : Job} (hq : c.queue.Holds queued)
    (hs : c.Staffed queued due) (hending : ending ≠ .escaped)
    (h : c.finish i ending = some (c', j)) :
    c'.queue.Holds queued ∧ c'.Staffed queued due ∧ c.SameDesk c' ∧
      c'.completed + c'.failed = c.completed + c.failed + 1 ∧ c'.aborted = c.aborted ∧
      c'.waiting.Perm c.waiting ∧ (j :: c'.running).Perm c.running := by
  obtain ⟨hi, rfl⟩ := of_finish h
  obtain ⟨before, behind, hsplit, hmoved⟩ := workers_split hi
  have hworkers :
      ((c.setWorker i .looking).tally ending).workers = before ++ .looking :: behind := by
    rw [← hmoved .looking]
    cases ending <;> rfl
  have hdesk : c.SameDesk ((c.setWorker i .looking).tally ending) := sameDesk_of_finish h
  have halive : ((c.setWorker i .looking).tally ending).alive = c.alive := by
    cases ending <;> rfl
  refine ⟨?_, ?_, hdesk, ?_, ?_, ?_, ?_⟩
  · cases ending <;> exact hq
  · refine hs.move hsplit hworkers hdesk ?_ id (by simp)
    rw [halive]
    rfl
  · cases ending with
    | returned =>
      show c.completed + 1 + c.failed = c.completed + c.failed + 1
      rw [UInt64.add_assoc, UInt64.add_comm 1, ← UInt64.add_assoc]
    | threw what =>
      show c.completed + (c.failed + 1) = c.completed + c.failed + 1
      rw [UInt64.add_assoc]
    | escaped => exact absurd rfl hending
  · cases ending with
    | returned => rfl
    | threw what => rfl
    | escaped => exact absurd rfl hending
  · exact filterMap_moved Worker.holding? hsplit hworkers
  · exact filterMap_moved Worker.running? hsplit hworkers

/-! ## 5. Those who use the crew -/

theorem staffed_countWorkers (hnobody : c.workers = []) :
    c.countWorkers.Staffed queued c.workerCount.toNat := by
  refine ⟨?_, ?_, ?_⟩
  · simp [countWorkers, hnobody]
  · simp [countWorkers, present, hnobody]
  · intro w hw
    simp [countWorkers, hnobody] at hw

theorem Staffed.hire (h : c.Staffed queued (due + 1)) :
    c.hire.Staffed queued due ∧ c.hire.waiting = c.waiting ∧ c.hire.running = c.running := by
  have hhired := h.hired
  have hcount := h.alive
  have hpresent : c.hire.present = c.present + 1 := by
    simp [Crew.hire, present, Worker.isGone]
  have hlength : c.hire.workers.length = c.workers.length + 1 := by
    simp [Crew.hire]
  refine ⟨⟨?_, ?_, ?_⟩, ?_, ?_⟩
  · rw [hlength]
    show _ = c.workerCount.toNat
    omega
  · rw [hpresent]
    show c.alive.toNat = _
    omega
  · intro w hw hgone
    rcases List.mem_append.mp hw with hw | hw
    · exact h.leaving w hw hgone
    · obtain rfl := List.mem_singleton.mp hw
      simp at hgone
  · simp [Crew.hire, waiting, Worker.holding?]
  · simp [Crew.hire, running, Worker.running?]

theorem exists_queue_of_offer {j : Job} (h : c.offer j = .gives c') :
    ∃ queue, c.queue.put j = .gives queue ∧ c' = { c with queue } := by
  unfold Crew.offer at h
  cases hput : c.queue.put j with
  | waits => simp [hput, Attempt.map] at h
  | fails cause => simp [hput, Attempt.map] at h
  | gives queue =>
    simp only [hput, Attempt.map, Attempt.gives.injEq] at h
    exact ⟨queue, rfl, h.symm⟩

theorem Staffed.offer (hq : c.queue.Holds queued) (hs : c.Staffed queued due)
    (hopen : c.queue.closed = false) {j : Job} (h : c.offer j = .gives c') :
    ∃ ring, c' = { c with queue := { c.queue with ring } } ∧ ring.Holds (queued ++ [j]) ∧
      c'.Staffed (queued ++ [j]) due := by
  obtain ⟨queue, hput, rfl⟩ := exists_queue_of_offer h
  obtain ⟨hholds, -, rfl⟩ := hq.of_put_gives hput
  refine ⟨_, rfl, hholds, hs.hired, hs.alive, ?_⟩
  intro w hw hgone
  have hclosed := (hs.leaving w hw hgone).1
  rw [hopen] at hclosed
  cases hclosed

theorem Calm.offer_not_fails (h : c.Calm) (hopen : c.queue.closed = false) (j : Job)
    (cause : ChannelError) : c.offer j ≠ .fails cause := by
  have hno := Channel.put_not_fails (x := j) (e := cause) hopen h.queue
  unfold Crew.offer
  cases hput : c.queue.put j with
  | waits => simp [Attempt.map]
  | fails e =>
    rw [hput] at hno
    simpa [Attempt.map] using hno
  | gives queue => simp [Attempt.map]

end Crew

/-! ## 6. What workers have to do -/

/-- How far a worker is from its end, if it takes no other job. -/
def Worker.toil : Worker Job → Nat
  | .holding _ => 5
  | .running _ => 4
  | .looking => 3
  | .taking => 2
  | .leaving => 1
  | .gone => 0

namespace Crew

variable {c c' : Crew Job} {queued : List Job} {i : Nat}

/-- What the workers of a crew have to do with the jobs that are there. -/
def toil (c : Crew Job) : Nat := (c.workers.map Worker.toil).sum + 4 * c.queue.toList.length

theorem toil_setWorker {w w' : Worker Job} (hi : c.workers[i]? = some w)
    (hless : w'.toil + 4 * c'.queue.toList.length < w.toil + 4 * c.queue.toList.length)
    (hworkers : c'.workers = c.workers.set i w') : c'.toil < c.toil := by
  have hsum := sum_set_add Worker.toil hi w'
  unfold toil
  rw [hworkers]
  omega

theorem toil_move {w w' : Worker Job} (hi : c.workers[i]? = some w) (hless : w'.toil < w.toil) :
    (c.setWorker i w').toil < c.toil :=
  toil_setWorker hi (Nat.add_lt_add_right hless _) rfl

/-- **Every step of a worker** leaves less to do. -/
theorem toil_work {o : Option (Occurrence Job)} (hq : c.queue.Holds queued)
    (h : c.work i = some (c', o)) : c'.toil < c.toil := by
  cases round_of_work h with
  | goesOn hi _ => exact toil_move hi (by simp [Worker.toil])
  | stops hi _ => exact toil_move hi (by simp [Worker.toil])
  | takes j queue hi htake =>
    obtain ⟨rest, rfl, hrest, rfl⟩ := hq.of_take_gives htake
    refine toil_setWorker hi ?_ rfl
    have hbefore : c.queue.toList.length = rest.length + 1 :=
      congrArg List.length (Ring.Holds.toList_eq hq)
    have hbehind : (c.queue.ring.advance.toList).length = rest.length :=
      congrArg List.length (Ring.Holds.toList_eq hrest)
    show 5 + 4 * (c.queue.ring.advance.toList).length < 2 + 4 * c.queue.toList.length
    omega
  | findsNone cause hi _ => exact toil_move hi (by simp [Worker.toil])
  | begins j hi _ => exact toil_move hi (by simp [Worker.toil])
  | drops j hi _ => exact toil_move hi (by simp [Worker.toil])
  | leaves hi => exact toil_setWorker hi (Nat.add_lt_add_right (by simp [Worker.toil]) _) rfl

/-- **The end of a job** leaves less to do. -/
theorem toil_finish {ending : Ending} {j : Job} (h : c.finish i ending = some (c', j)) :
    c'.toil < c.toil := by
  obtain ⟨hi, rfl⟩ := of_finish h
  have hless : (c.setWorker i .looking).toil < c.toil := toil_move hi (by simp [Worker.toil])
  cases ending <;> exact hless

end Crew

end Intake
