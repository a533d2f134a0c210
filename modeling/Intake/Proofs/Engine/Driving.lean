/-
# A call that is driven to its end

A call of `Ingest` that returns before its grace period (`shutdown_timeout_ms`) is over returns when
its workers are done: the reading side waits for them with the time that the options give, and
nothing else ends that wait (`Unhurried.completed`).

`Engine.drive` takes the steps of a call in one of the many orders.  Whenever it takes none there is
nothing left to do (`not_goesOn_of_step`), as it asks every worker, the task and the reading side in
turn; every step it takes leaves less to do (`Orderly.toil_lt`), and the number of steps it may take
is no less than what there is to do at first.  So it drives every call to its end (`Rested.ingest`).

For temporary files there is room all the time, if there was room enough at first
(`Service.hasRoom`): the files that a call makes are no more than the records it has under way.
-/
import Mathlib
import Intake.Engine.Schedule
import Intake.Proofs.Disk.Endings
import Intake.Proofs.Engine.Backpressure
import Intake.Proofs.Engine.Settling

namespace Intake

/-- Where one temporary file can be made, another one can be made later, unless the names run out. -/
theorem Disk.createTemp_later {d d' : Disk} {directory : Bytes} (htree : d.SameTree d')
    (hfirst : ∃ t, d.createTemp (Spill.stem directory) = .ok t)
    (hfew : d'.files.length + d'.directories.length < 56800235584) :
    ∃ t, d'.createTemp (Spill.stem directory) = .ok t := by
  obtain ⟨parent, hstem⟩ := Spill.stem_eq directory
  have hname : (47 : UInt8) ∉ Bytes.ofAscii "sift" := by decide
  rw [hstem] at hfirst ⊢
  obtain ⟨t, ht⟩ := hfirst
  rw [createTemp_stem hname] at ht
  split at ht
  · cases ht
  rename_i hroom
  split at ht
  · cases ht
  rename_i dir hwalk
  split at ht
  · cases ht
  rename_i hshort
  have hwalk' : d'.walk (d'.start (parent ++ 47 :: Bytes.ofAscii "sift"))
      (Path.components parent) = .ok dir := by
    rw [htree.start]
    exact walk_congr htree hwalk
  exact createTemp_ok hname (Nat.not_le.mp hroom) hwalk' (Nat.not_lt.mp hshort) hfew

namespace Crew

variable {Job : Type} {c : Crew Job}

theorem work_none_of_ready? (h : c.ready? = none) (i : Nat) : c.work i = none := by
  unfold ready? at h
  rcases Nat.lt_or_ge i c.workers.length with hlt | hge
  · have hnot := List.find?_eq_none.mp h i (List.mem_range.mpr hlt)
    simpa using hnot
  · have hnone : c.workers[i]? = none := List.getElem?_eq_none hge
    simp only [work, hnone]

theorem work_of_ready? {i : Nat} (h : c.ready? = some i) : (c.work i).isSome = true :=
  List.find?_some (p := fun i => (c.work i).isSome) h

theorem finish_none_of_runner? {p : Job → Bool} (hp : ∀ j, p j = true) (h : c.runner? p = none)
    (i : Nat) (ending : Ending) : c.finish i ending = none := by
  unfold runner? at h
  rw [List.findIdx?_eq_none_iff] at h
  unfold finish
  cases hi : c.workers[i]? with
  | none => rfl
  | some w =>
    have hnot := h w (List.mem_of_getElem? hi)
    cases w with
    | running j => simp [Worker.running?, hp] at hnot
    | _ => rfl

theorem running_of_runner? {p : Job → Bool} {i : Nat} (h : c.runner? p = some i) :
    ∃ j, c.workers[i]? = some (.running j) := by
  unfold runner? at h
  obtain ⟨hlt, hrunning, -⟩ := List.findIdx?_eq_some_iff_getElem.mp h
  cases hw : c.workers[i] with
  | running j => exact ⟨j, by rw [List.getElem?_eq_getElem hlt, hw]⟩
  | _ => simp [hw, Worker.running?] at hrunning

end Crew

/-- The task ends with every record and gets done with it, and the clock is not so late that the
grace period is over at once. -/
structure Plan.Fair (p : Plan) (o : Options) : Prop where
  ends : ∀ r, p.ending r ≠ .escaped
  held : ∀ r, p.held r = false
  clock : expiresAtOnce p.now o.shutdownTimeoutMs = false

namespace Engine

variable {host : Host} {o : Options} {source : Source} {p : Plan} {e e₀ e₁ e' : Engine}
  {c : Crew Record} {queued : List Record} {a : Action} {k : Call}
  {produced : List (Record × Bytes)} {ahead : Bytes}

/-! ## 1. While the grace period lasts -/

/-- What can come about in a call for a stream as long as its grace period is not over, in whatever
order the reading side and the workers take their steps. -/
inductive Unhurried (e₀ : Engine) (source : Source) : Engine → Prop where
  | begun {e₁ : Engine} : e₀.next (.ingest source) = some e₁ → Unhurried e₀ source e₁
  | next {e e' : Engine} {a : Action} :
      Unhurried e₀ source e → e.HasRoom → a.IsOrdinary → a ≠ .expire → e.next a = some e' →
        Unhurried e₀ source e'

theorem Unhurried.course (h : Unhurried e₀ source e) :
    ∃ e₁, e₀.next (.ingest source) = some e₁ ∧ Course e₁ e := by
  induction h with
  | begun hbegin => exact ⟨_, hbegin, .refl⟩
  | next _ hroom ha _ hstep ih =>
    obtain ⟨e₁, hbegin, hcourse⟩ := ih
    exact ⟨e₁, hbegin, hcourse.next hroom ha hstep⟩

/-- The workers are waited for. -/
def Stage.isAwaiting : Stage → Bool
  | .visiting (.await _ _) => true
  | _ => false

/-- How a call waits for its workers: with the time that the options give, which is not over.  When
it has returned they are done; behind an exception they need not be. -/
structure AtEase (e : Engine) : Prop where
  waits : ∀ i ms expired, e.ingestion = some i → i.stage = .visiting (.await ms expired) →
    ms = e.options.shutdownTimeoutMs ∧ expired = false
  returned : e.ingestion = none → e.results.getLast? ≠ some .threw → e.Done

theorem atEase_of_stage {i : Ingestion} (hi : e.ingestion = some i)
    (hstage : i.stage.isAwaiting = false) : e.AtEase := by
  refine ⟨?_, ?_⟩
  · intro j ms expired hj hs
    obtain rfl : i = j := Option.some.inj (hi.symm.trans hj)
    rw [hs] at hstage
    cases hstage
  · intro hnone
    rw [hi] at hnone
    cases hnone

theorem Underway.idle (h : Underway k e c queued produced ahead) (hdone : e.Done) (i : Nat)
    (ending : Ending) : e.work i = none ∧ e.finish i ending = none := by
  obtain ⟨hi, c', hcrew, halive⟩ := hdone
  obtain rfl : c = c' := Option.some.inj (h.crew.symm.trans hcrew)
  obtain ⟨-, -, -, -, -, -, -, -, hgone⟩ := h.all_done hi halive
  obtain ⟨hwork, hfinish⟩ := Crew.idle_of_all_gone hgone i ending
  simp [Engine.work, Engine.finish, h.crew, hwork, hfinish]

/-- What a worker does leaves a call as it was, and nothing happens behind one that is done. -/
theorem AtEase.same (h : e.AtEase) (hsame : SameCall e e') (hbusy : ¬ e.Done) : e'.AtEase := by
  refine ⟨?_, ?_⟩
  · rw [hsame.ingestion, hsame.options]
    exact h.waits
  · rw [hsame.ingestion, hsame.results]
    exact fun hnone hlast => absurd (h.returned hnone hlast) hbusy

theorem atEase_unwind (e : Engine) : e.unwind.AtEase := by
  refine ⟨?_, fun _ hlast => absurd List.getLast?_concat hlast⟩
  intro i ms expired hi
  cases hi

section Reading

variable {call : Nat} {frames : Frame.Reader} {clean : Bool}

/-- **A step of a visit to the crew.**  It comes to the wait for the workers in one way, and to the
end of the call in one. -/
theorem AtEase.visited {v : Crew.Visit Record} {s : Crew.Visit.Step Record} (ht : e.AtEase)
    (h : Underway k e c queued produced ahead)
    (hi : e.ingestion = some ⟨call, frames, clean, .visiting v⟩) (hs : Crew.Stride c v s) :
    (e.visited ⟨call, frames, clean, .visiting v⟩ s).AtEase := by
  obtain ⟨-, hplaced⟩ := h.at_visit hi
  cases hs with
  | closesQueue =>
    refine ⟨?_, ?_⟩
    · intro i ms expired hi' hstage
      obtain rfl := Option.some.inj hi'
      obtain ⟨rfl, rfl⟩ := Crew.Visit.await.inj (Stage.visiting.inj hstage)
      exact ⟨rfl, rfl⟩
    · intro hnone
      cases hnone
  | inTime ms expired halive =>
    refine ⟨?_, fun _ _ => ⟨rfl, c, rfl, halive⟩⟩
    intro i ms expired hi'
    cases hi'
  | tooLate ms => exact absurd (ht.waits _ _ _ hi rfl).2 (by decide)
  | interrupts => exact absurd hplaced.2 id
  | _ => exact atEase_of_stage rfl rfl

/-- **Every step of the reading side**, while the grace period lasts. -/
theorem AtEase.read (ht : e.AtEase) (h : Underway k e c queued produced ahead)
    (hstep : e.read = some e') : e'.AtEase := by
  unfold Engine.read at hstep
  cases hi : e.ingestion with
  | none => simp [hi] at hstep
  | some i =>
    obtain ⟨call, frames, clean, stage⟩ := i
    simp only [hi] at hstep
    cases stage with
    | joining =>
      have hplaced := h.placed
      rw [hi] at hplaced
      exact absurd hplaced.2 id
    | visiting v =>
      simp only [visit_eq h.crew, Option.map_eq_some_iff] at hstep
      obtain ⟨s, hs, rfl⟩ := hstep
      exact ht.visited h hi (Crew.stride_of_step hs)
    | reading =>
      obtain rfl := Option.some.inj hstep
      unfold Engine.readHeader
      split
      · exact atEase_of_stage rfl rfl
      · rename_i cause t _
        obtain ⟨staging, -, hended⟩ := readingEnded_eq (e.resume t) ⟨call, t.reader, clean, .reading⟩
          cause
        rw [hended]
        exact atEase_of_stage rfl rfl
      · exact atEase_unwind _
    | filling header =>
      simp only [Engine.fill] at hstep
      split at hstep
      · cases hstep
      · obtain rfl := Option.some.inj hstep
        exact atEase_of_stage hi rfl
      · rename_i cause t _
        obtain ⟨staging, -, hended⟩ := readingEnded_eq (e.resume t)
          ⟨call, t.reader, clean, .filling header⟩ cause
        obtain rfl := Option.some.inj hstep
        rw [hended]
        exact atEase_of_stage rfl rfl
      · obtain rfl := Option.some.inj hstep
        exact atEase_unwind _
      · obtain rfl := Option.some.inj hstep
        exact atEase_of_stage rfl rfl
    | leaving =>
      obtain rfl := Option.some.inj hstep
      exact atEase_of_stage rfl rfl

end Reading

/-- **While the grace period lasts a call waits for its workers.**  The induction is on the steps. -/
theorem Unhurried.atEase (h : Unhurried e₀ source e) (hrest : AtRest host o e₀) (hfew : FewWorkers o) :
    e.AtEase := by
  induction h with
  | begun hbegin =>
    rw [hrest.of_begin hbegin]
    exact atEase_of_stage rfl rfl
  | @next e e' a hbefore hroom ha hexpire hstep ih =>
    obtain ⟨e₁, hbegin, hcourse⟩ := hbefore.course
    rcases hrest.goes hfew hbegin hcourse with rfl | ⟨produced, c, queued, ahead, hgoes⟩
    · obtain ⟨crew, ingestion, rfl⟩ := hrest.of_first_step hbegin ha hstep
      exact atEase_of_stage rfl rfl
    · unfold Engine.next at hstep
      split at hstep
      · cases hstep
      cases a with
      | ingest source => exact absurd ha id
      | read => exact ih.read hgoes hstep
      | expire => exact absurd rfl hexpire
      | work worker =>
        refine ih.same (work_same hstep) ?_
        intro hdone
        cases (hgoes.idle hdone worker .returned).1.symm.trans hstep
      | finish worker ending =>
        refine ih.same (finish_same hstep) ?_
        intro hdone
        cases (hgoes.idle hdone worker ending).2.symm.trans hstep

/-- **A call that returns while its grace period lasts is done.** -/
theorem Unhurried.completed (h : Unhurried e₀ source e) (hrest : AtRest host o e₀)
    (hfew : FewWorkers o) (hover : e.ingestion = none)
    (hreturned : e.results.getLast? ≠ some .threw) : Completed e₀ source e := by
  obtain ⟨e₁, hbegin, hcourse⟩ := h.course
  exact ⟨e₁, hbegin, hcourse, (h.atEase hrest hfew).returned hover hreturned⟩

/-! ## 2. One step of the schedule -/

theorem work_none_of_stepWorker (h : e.stepWorker = none) (i : Nat) : e.next (.work i) = none := by
  unfold Engine.next
  split
  · rfl
  rename_i habort
  show e.work i = none
  unfold Engine.work
  cases hcrew : e.crew with
  | none => rfl
  | some c =>
    simp only [stepWorker, hcrew, Option.bind_some] at h
    cases hready : c.ready? with
    | none => simp only [Crew.work_none_of_ready? hready, Option.map_none]
    | some j =>
      exfalso
      obtain ⟨r, hr⟩ := Option.isSome_iff_exists.mp (Crew.work_of_ready? hready)
      simp [hready, Engine.next, habort, Engine.work, hcrew, hr] at h

theorem finish_none_of_stepTask (hheld : ∀ r, p.held r = false) (h : e.stepTask p = none) (i : Nat)
    (ending : Ending) : e.next (.finish i ending) = none := by
  unfold Engine.next
  split
  · rfl
  rename_i habort
  show e.finish i ending = none
  unfold Engine.finish
  cases hcrew : e.crew with
  | none => rfl
  | some c =>
    cases hrunner : c.runner? fun r => !p.held r with
    | none =>
      have hnone := Crew.finish_none_of_runner? (fun r => by simp [hheld]) hrunner i ending
      simp only [hnone, Option.map_none]
    | some j =>
      exfalso
      obtain ⟨r, hr⟩ := Crew.running_of_runner? hrunner
      have hfinish : (c.finish j (p.ending r)).isSome := by simp [Crew.finish, hr]
      obtain ⟨x, hx⟩ := Option.isSome_iff_exists.mp hfinish
      simp [stepTask, hcrew, hrunner, hr, Worker.running?, Engine.next, habort, Engine.finish, hx]
        at h

/-- **When no step is taken nobody can go on.** -/
theorem not_goesOn_of_step (hheld : ∀ r, p.held r = false) (hworker : e.stepWorker = none)
    (htask : e.stepTask p = none) (hread : e.next .read = none) : ¬ e.GoesOn := by
  rintro (hsome | ⟨i, hsome | hsome⟩)
  · rw [hread] at hsome
    cases hsome
  · rw [work_none_of_stepWorker hworker i] at hsome
    cases hsome
  · have hone := hsome .returned
    rw [finish_none_of_stepTask hheld htask i .returned] at hone
    cases hone

theorem next_of_stepWorker (h : e.stepWorker = some e') : ∃ i, e.next (.work i) = some e' := by
  obtain ⟨i, -, hstep⟩ := Option.bind_eq_some_iff.mp h
  exact ⟨i, hstep⟩

theorem next_of_stepTask (h : e.stepTask p = some e') :
    ∃ i r, e.next (.finish i (p.ending r)) = some e' := by
  obtain ⟨c, -, h⟩ := Option.bind_eq_some_iff.mp h
  obtain ⟨i, -, h⟩ := Option.bind_eq_some_iff.mp h
  obtain ⟨r, -, hstep⟩ := Option.bind_eq_some_iff.mp h
  exact ⟨i, r, hstep⟩

/-- **A step of the schedule is one of the steps that there are**, and never the end of the grace
period, as long as somebody else can go on. -/
theorem Orderly.next_of_step (h : Orderly host o e) (hvalid : o.Valid) (hfew : FewWorkers o)
    (hfair : p.Fair o) (hsoon : e.isOverdue p = false) (hstep : e.step p = some e') :
    ∃ a, a.IsOrdinary ∧ a ≠ .expire ∧ e.next a = some e' := by
  unfold step at hstep
  rw [hsoon, if_neg Bool.false_ne_true] at hstep
  cases hworker : e.stepWorker with
  | some e'' =>
    rw [hworker] at hstep
    obtain rfl := Option.some.inj hstep
    obtain ⟨i, hnext⟩ := next_of_stepWorker hworker
    exact ⟨.work i, trivial, nofun, hnext⟩
  | none =>
    cases htask : e.stepTask p with
    | some e'' =>
      rw [hworker, htask] at hstep
      obtain rfl := Option.some.inj hstep
      obtain ⟨i, r, hnext⟩ := next_of_stepTask htask
      exact ⟨.finish i (p.ending r), hfair.ends r, nofun, hnext⟩
    | none =>
      rw [hworker, htask] at hstep
      cases hread : e.next .read with
      | some e'' =>
        unfold stepReading at hstep
        rw [hread] at hstep
        obtain rfl := Option.some.inj hstep
        exact ⟨.read, trivial, nofun, hread⟩
      | none =>
        -- somebody waits for the end of the grace period, so somebody else can go on
        exfalso
        have hexpire : e.next .expire = some e' := by
          unfold stepReading at hstep
          rw [hread] at hstep
          exact hstep
        have hcalled : e.ingestion ≠ none := by
          intro hnone
          simp [Engine.next, Engine.expire, hnone] at hexpire
        exact not_goesOn_of_step hfair.held hworker htask hread (h.goes_on hvalid hfew hcalled)

/-- **When the schedule has no step left no call goes on.** -/
theorem Orderly.idle_of_step (h : Orderly host o e) (hvalid : o.Valid) (hfew : FewWorkers o)
    (hfair : p.Fair o) (hsoon : e.isOverdue p = false) (hstep : e.step p = none) :
    e.ingestion = none := by
  by_contra hcalled
  unfold step at hstep
  rw [hsoon, if_neg Bool.false_ne_true] at hstep
  obtain ⟨hworker, hrest⟩ := (Option.orElse_eq_none _ _).mp hstep
  obtain ⟨htask, hreading⟩ := (Option.orElse_eq_none _ _).mp hrest
  obtain ⟨hread, -⟩ := (Option.orElse_eq_none _ _).mp hreading
  exact not_goesOn_of_step hfair.held hworker htask hread (h.goes_on hvalid hfew hcalled)

/-! ## 3. The whole schedule -/

theorem Orderly.options (h : Orderly host o e) : e.options = o := by
  rcases h with h | ⟨c, queued, h⟩
  · exact h.options
  · exact h.options

theorem AtEase.not_overdue (h : e.AtEase) (hoptions : e.options = o) (hfair : p.Fair o) :
    e.isOverdue p = false := by
  unfold isOverdue
  split
  · rename_i call frames clean ms expired hi
    obtain ⟨rfl, -⟩ := h.waits _ ms expired hi rfl
    rw [hoptions]
    exact hfair.clock
  · rfl

theorem Service.of_begin (h : Service host o e₀) (hbegin : e₀.next (.ingest source) = some e₁) :
    Service host o e₁ := by
  refine h.next ?_ hbegin
  intro i hcontra
  cases hcontra

theorem Rested.service (h : Rested host o e) : Service host o e := by
  induction h with
  | made parts hmade => exact .made parts hmade
  | called _ hcall ih =>
    obtain ⟨e₁, hbegin, hcourse, -⟩ := hcall
    exact hcourse.service (ih.of_begin hbegin)

theorem Unhurried.service (h : Unhurried e₀ source e) (h₀ : Service host o e₀) :
    Service host o e := by
  obtain ⟨e₁, hbegin, hcourse⟩ := h.course
  exact hcourse.service (h₀.of_begin hbegin)

/-- **One step of the schedule** leaves less to do, and when there is none no call goes on. -/
theorem Unhurried.step (hrest : AtRest host o e₀) (h₀ : Service host o e₀) (hfew : FewWorkers o)
    (hfair : p.Fair o) (h : Unhurried e₀ source e) (hroom : e.HasRoom) :
    (e.step p = none → e.ingestion = none) ∧
      ∀ e', e.step p = some e' → Unhurried e₀ source e' ∧ e'.toil < e.toil := by
  obtain ⟨hvalid, horderly⟩ := (h.service h₀).orderly hfew
  have hsoon := (h.atEase hrest hfew).not_overdue horderly.options hfair
  refine ⟨horderly.idle_of_step hvalid hfew hfair hsoon, fun e' hstep => ?_⟩
  obtain ⟨a, ha, hexpire, hnext⟩ := horderly.next_of_step hvalid hfew hfair hsoon hstep
  refine ⟨h.next hroom ha hexpire hnext, horderly.toil_lt hvalid hfew ?_ hnext⟩
  rintro source rfl
  exact ha

/-- **With as many steps as there is to do** the schedule comes to where no call goes on.  The
induction is on the number of steps that are left. -/
theorem Unhurried.driveWithin (hrest : AtRest host o e₀) (h₀ : Service host o e₀)
    (hfew : FewWorkers o) (hfair : p.Fair o) (hroom : ∀ e, Unhurried e₀ source e → e.HasRoom)
    {fuel : Nat} (h : Unhurried e₀ source e) (hfuel : e.toil ≤ fuel) :
    Unhurried e₀ source (e.driveWithin p fuel) ∧ (e.driveWithin p fuel).ingestion = none := by
  induction fuel generalizing e with
  | zero =>
    obtain ⟨hnone, hsome⟩ := h.step hrest h₀ hfew hfair (hroom e h)
    refine ⟨h, ?_⟩
    cases hstep : e.step p with
    | none => exact hnone hstep
    | some e' =>
      obtain ⟨-, hless⟩ := hsome e' hstep
      omega
  | succ fuel ih =>
    obtain ⟨hnone, hsome⟩ := h.step hrest h₀ hfew hfair (hroom e h)
    unfold Engine.driveWithin
    cases hstep : e.step p with
    | none => exact ⟨h, hnone hstep⟩
    | some e' =>
      obtain ⟨hrun, hless⟩ := hsome e' hstep
      exact ih hrun (by omega)

theorem toil_closed (hholds : c.queue.Holds []) (hgone : ∀ w ∈ c.workers, w = .gone) :
    c.closeIntake.closeQueue.toil = 0 := by
  have hnothing : c.closeIntake.closeQueue.queue.toList = [] := Ring.Holds.toList_eq hholds
  have hsum : (c.workers.map Worker.toil).sum = 0 := by
    refine List.sum_eq_zero fun n hn => ?_
    obtain ⟨w, hw, rfl⟩ := List.mem_map.mp hn
    rw [hgone w hw]
    rfl
  show (c.workers.map Worker.toil).sum + 4 * c.closeIntake.closeQueue.queue.toList.length = 0
  rw [hsum, hnothing]
  rfl

theorem AtRest.toil_le (h : AtRest host o e₀) (hbegin : e₀.next (.ingest source) = some e₁) :
    e₁.toil ≤ e₁.driveBound := by
  have hcrew : ((e₀.crew.map fun c => c.closeIntake.closeQueue).map Crew.toil).getD 0 = 0 := by
    cases hc : e₀.crew with
    | none => rfl
    | some c => exact toil_closed (h.crew c hc).1 (h.crew c hc).2
  obtain rfl := h.of_begin hbegin
  unfold toil driveBound unread
  rw [hcrew]
  simp only [Option.map_some, Option.getD_some, Ingestion.toil, Stage.toil, Frame.Reader.create]
  omega

/-- **A call that is driven is done in the end.**  Whatever the stream, if the task gets done with
every record and temporary files can be made, the schedule takes the call to its end before its grace
period is over. -/
theorem Rested.ingest (h : Rested host o e₀) (hfew : FewWorkers o) (hfair : p.Fair o)
    (hroom : ∀ e, Unhurried e₀ source e → e.HasRoom) :
    Unhurried e₀ source (e₀.ingest p source) ∧ (e₀.ingest p source).ingestion = none := by
  have hrest := h.atRest hfew
  have hbegins : ∃ e₁, e₀.next (.ingest source) = some e₁ := by
    have habort : e₀.isAborted = false := by
      rcases (h.service.orderly hfew).2 with hunmanned | ⟨c, queued, hmanned⟩
      · simp [isAborted, hunmanned.unbroken, hunmanned.crew]
      · exact hmanned.not_aborted
    simp [Engine.next, habort, begin, hrest.idle]
  obtain ⟨e₁, hbegin⟩ := hbegins
  obtain ⟨hrun, hover⟩ := Unhurried.driveWithin hrest h.service hfew hfair hroom (.begun hbegin)
    (hrest.toil_le hbegin)
  have hdriven : e₀.ingest p source = e₁.driveWithin p e₁.driveBound := by
    rw [Engine.ingest, hbegin]
    rfl
  rw [hdriven]
  exact ⟨hrun, hover⟩

/-! ## 4. Room for temporary files -/

/-- **If there is room for one temporary file at first there is always room for another**, unless the
names run out: an engine in service has no more files than records under way. -/
theorem Service.hasRoom (h : Service host o e) (hfew : FewWorkers o)
    (hfirst : ∃ t, host.disk.createTemp (Spill.stem o.tempDir) = .ok t)
    (hfiles : host.disk.files.length + host.disk.directories.length + 2 * o.workerCount.toNat + 1
      < 56800235584) : e.HasRoom := by
  have hflight := h.inFlight hfew .between
  have halive := hflight.alive_le
  have htempDir : e.staging.tempDir = o.tempDir := hflight.alike.tempDir
  obtain ⟨live, hhouses, hlive⟩ := hflight.houses
  obtain ⟨temps, hkeep, htemps⟩ := hhouses.files
  have htree : host.disk.SameTree e.staging.host.disk := hkeep.tree
  have hcount : temps.length ≤ live.length := by
    have hentries := htemps.length_eq
    rw [List.length_map] at hentries
    exact hentries ▸ List.length_filterMap_le _ _
  have hgrown : e.staging.host.disk.files.length = host.disk.files.length + temps.length := by
    rw [hkeep.files, List.length_append, List.length_map]
    rfl
  unfold HasRoom
  rw [htempDir]
  refine Disk.createTemp_later htree hfirst ?_
  rw [htree.1]
  omega

end Engine

end Intake
