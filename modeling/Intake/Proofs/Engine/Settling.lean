/-
# Every call comes to its end

What there still is to do in calls of `Ingest` can be counted (`Engine.toil`): the bytes that the
reading side has ahead and how far it is on its way, the workers that are still to be hired, and how
far each worker is from its end, where a record in the queue counts for the steps that it makes some
worker take.

A frame has sixteen bytes at least, and that is more than the steps for its record weigh.  So every
step makes less to do, whoever takes it (`Orderly.toil_lt`).  As long as a call goes on or a worker
has not left, somebody can take a step, unless all workers wait behind an exception
(`Orderly.goes_on_iff`).  Hence every call comes to its end and every worker leaves or waits there,
in whatever order the steps are taken (`Service.settles`).
-/
import Mathlib
import Intake.Proofs.Engine.Onward

namespace Intake

namespace Engine

variable {host : Host} {o : Options} {e e' : Engine} {c c' : Crew Record} {queued : List Record}
  {a : Action}

/-! ## 1. What the reading side has to do -/

/-- What the reading side has to do at a stage, with so many workers to hire and so many bytes
unread.  A content that it takes and the record that it brings weigh less than a header. -/
def Stage.toil (workers unread : Nat) : Stage → Nat
  | .joining => unread + 4 * workers + 34
  | .visiting .markStarted => unread + 4 * workers + 33
  | .visiting .openIntake => unread + 4 * workers + 32
  | .visiting .countWorkers => unread + 4 * workers + 31
  | .visiting (.hire left) => unread + 4 * left + 30
  | .visiting .announce => unread + 29
  | .filling _ => unread + 34
  | .visiting (.askIntake _) => unread + 33
  | .visiting (.offer _) => unread + 32
  | .visiting .countSubmitted => unread + 27
  | .reading => unread + 20
  | .leaving => 15
  | .visiting .closeIntake | .visiting .stopIntake => 14
  | .visiting .closeQueue | .visiting .markInterrupted => 13
  | .visiting .interruptQueue => 12
  | .visiting (.await _ expired) => bif expired then 10 else 11
  | .visiting (.returned _) => 0

/-- What the reading side has to do in a call. -/
def Ingestion.toil (workers : Nat) (i : Ingestion) : Nat :=
  i.stage.toil workers i.frames.source.rest.length

/-- What there still is to do. -/
def toil (e : Engine) : Nat :=
  (e.crew.map Crew.toil).getD 0 +
    (e.ingestion.map (Ingestion.toil e.options.workerCount.toNat)).getD 0

/-- The reading side has moved on, and has changed something about the crew at most. -/
theorem toil_lt {i : Ingestion} (i' : Option Ingestion) (hcrew : e.crew = some c)
    (hi : e.ingestion = some i) (hcrew' : e'.crew = some c') (hi' : e'.ingestion = i')
    (hoptions : e'.options = e.options)
    (hless : c'.toil + (i'.map (Ingestion.toil e.options.workerCount.toNat)).getD 0
      < c.toil + i.toil e.options.workerCount.toNat) : e'.toil < e.toil := by
  unfold toil
  rw [hcrew, hi, hcrew', hi', hoptions]
  exact hless

section Visits

variable {call : Nat} {frames : Frame.Reader} {clean : Bool}

theorem toil_lt_of_stage {stage : Stage} {i' : Ingestion} (hcrew : e.crew = some c)
    (hi : e.ingestion = some ⟨call, frames, clean, stage⟩) (hcrew' : e'.crew = some c')
    (hsame : c'.toil = c.toil) (hi' : e'.ingestion = some i') (hoptions : e'.options = e.options)
    (hframes : i'.frames = frames)
    (hless : i'.stage.toil e.options.workerCount.toNat frames.source.rest.length
      < stage.toil e.options.workerCount.toNat frames.source.rest.length) :
    e'.toil < e.toil := by
  refine toil_lt (some i') hcrew hi hcrew' hi' hoptions ?_
  rw [hsame, Option.map_some, Option.getD_some, Ingestion.toil, hframes]
  exact Nat.add_lt_add_left hless _

/-- **Every step of a visit to the crew** leaves less to do: a record in the queue weighs less than
the way there. -/
theorem Manned.toil_visited {v : Crew.Visit Record} {s : Crew.Visit.Step Record}
    (h : Manned host o e c queued)
    (hi : e.ingestion = some ⟨call, frames, clean, .visiting v⟩) (hs : Crew.Stride c v s) :
    (e.visited ⟨call, frames, clean, .visiting v⟩ s).toil < e.toil := by
  have hcrew := h.crew
  cases hs with
  | counts =>
    refine toil_lt_of_stage hcrew hi rfl rfl rfl rfl rfl ?_
    simp only [Stage.toil, h.workerCount, h.options]
    omega
  | hires left =>
    refine toil_lt (some ⟨call, frames, clean, .visiting (.hire left)⟩) hcrew hi rfl rfl rfl ?_
    have hhired : c.hire.toil = c.toil + 3 := by
      simp only [Crew.toil, Crew.hire, List.map_append, List.sum_append, List.map_cons,
        List.map_nil, List.sum_cons, List.sum_nil, Worker.toil]
      omega
    simp only [Option.map_some, Option.getD_some, Ingestion.toil, Stage.toil, hhired]
    omega
  | queues r queue hput =>
    refine toil_lt (some ⟨call, frames, clean, .visiting .countSubmitted⟩) hcrew hi rfl rfl rfl ?_
    obtain ⟨hholds, -, rfl⟩ := h.holds.of_put_gives hput
    have hlength : (c.queue.ring.push r).toList.length = c.queue.toList.length + 1 := by
      rw [Ring.Holds.toList_eq hholds, Channel.toList, Ring.Holds.toList_eq h.holds,
        List.length_append]
      rfl
    simp only [Option.map_some, Option.getD_some, Ingestion.toil, Stage.toil, Crew.toil,
      Channel.toList, hlength]
    omega
  | inTime ms expired _ =>
    refine toil_lt none hcrew hi rfl rfl rfl (Nat.add_lt_add_left ?_ _)
    cases expired <;> simp [Ingestion.toil, Stage.toil]
  | tooLate ms =>
    refine toil_lt none hcrew hi rfl rfl rfl (Nat.add_lt_add_left ?_ _)
    simp [Ingestion.toil, Stage.toil]
  | _ =>
    refine toil_lt_of_stage hcrew hi rfl rfl rfl rfl rfl ?_
    simp only [Stage.toil, Crew.Request.visit, cond]
    omega

theorem Manned.toil_readHeader (h : Manned host o e c queued)
    (hi : e.ingestion = some ⟨call, frames, clean, .reading⟩) :
    (e.readHeader ⟨call, frames, clean, .reading⟩).toil < e.toil := by
  have hcases := Frame.Session.readHeader_cases
    (s := e.session ⟨call, frames, clean, .reading⟩)
    (l := { limitsOf host o with maxMetadata := frames.maxMetadata }) rfl
  rcases hcases with ⟨t, hheader, hmoved, -, hwhole⟩ | ⟨t, n, m, hheader, -⟩
  · simp only [Engine.readHeader, hheader]
    refine toil_lt (some ⟨call, t.reader, clean, .filling _⟩) h.crew hi h.crew rfl rfl
      (Nat.add_lt_add_left ?_ _)
    have hwidth : Frame.lengthWidth = 8 := rfl
    have hsize := Frame.headerSize.eq_def frames.source.rest
    have hrest : t.reader.source.rest
        = frames.source.rest.drop (Frame.headerSize frames.source.rest) := hmoved.rest
    have hfits : Frame.headerSize frames.source.rest ≤ frames.source.rest.length := hwhole
    simp only [Option.map_some, Option.getD_some, Ingestion.toil, Stage.toil, hrest,
      List.length_drop]
    omega
  · cases hstop : Frame.Limits.stopCause _ _ _ with
    | failed cause =>
      rw [hstop] at hheader
      obtain ⟨staging, -, hended⟩ :=
        readingEnded_eq (e.resume t) ⟨call, t.reader, clean, .reading⟩ cause
      simp only [Engine.readHeader, hheader, hended]
      refine toil_lt (some _) h.crew hi h.crew rfl rfl (Nat.add_lt_add_left ?_ _)
      simp only [Option.map_some, Option.getD_some, Ingestion.toil, Stage.toil]
      omega
    | thrown =>
      rw [hstop] at hheader
      simp only [Engine.readHeader, hheader]
      refine toil_lt none h.crew hi h.crew rfl rfl (Nat.add_lt_add_left ?_ _)
      simp [Ingestion.toil, Stage.toil]

theorem Manned.toil_fill {header : Frame.Header} (h : Manned host o e c queued)
    (hi : e.ingestion = some ⟨call, frames, clean, .filling header⟩)
    (hstep : e.fill ⟨call, frames, clean, .filling header⟩ header = some e') :
    e'.toil < e.toil := by
  cases hd : e.staging.materialize frames.source header.rawSize with
  | waits => simp [Engine.fill, session, Frame.Session.readContent, hd] at hstep
  | overflows => exact absurd hd (Staging.materialize_not_overflows h.threshold_le _ _)
  | delivers d =>
    have hless : d.source.rest.length ≤ frames.source.rest.length :=
      le_of_add_le_right (Staging.consumed_add_rest_le hd)
    obtain ⟨t, hreceived, ⟨content, -, -, hread⟩ | ⟨cause, -, -, hread⟩⟩ :=
      Frame.Session.readContent_of_delivers
        (s := e.session ⟨call, frames, clean, .filling header⟩) (h := header) hd
    · simp only [Engine.fill, hread, Option.some.injEq] at hstep
      subst hstep
      refine toil_lt (some ⟨call, t.reader, clean, .visiting (.askIntake _)⟩) h.crew hi h.crew rfl
        rfl (Nat.add_lt_add_left ?_ _)
      rw [← hreceived.source] at hless
      simp only [Option.map_some, Option.getD_some, Ingestion.toil, Stage.toil]
      omega
    · obtain ⟨staging, -, hended⟩ :=
        readingEnded_eq (e.resume t) ⟨call, t.reader, clean, .filling header⟩ cause
      simp only [Engine.fill, hread, hended, Option.some.injEq] at hstep
      subst hstep
      refine toil_lt (some _) h.crew hi h.crew rfl rfl (Nat.add_lt_add_left ?_ _)
      simp only [Option.map_some, Option.getD_some, Ingestion.toil, Stage.toil]
      omega

end Visits

/-! ## 2. Every step -/

theorem toil_lt_of_crew (hcrew : e.crew = some c) (hcrew' : e'.crew = some c')
    (hsame : SameCall e e') (hless : c'.toil < c.toil) : e'.toil < e.toil := by
  unfold toil
  rw [hcrew, hcrew', hsame.ingestion, hsame.options]
  exact Nat.add_lt_add_right hless _

theorem Manned.toil_work {worker : Nat} (h : Manned host o e c queued)
    (hstep : e.work worker = some e') : e'.toil < e.toil := by
  obtain ⟨c', occurrence, hwork, -, hsame, hcrew⟩ := of_work h.crew hstep
  exact toil_lt_of_crew h.crew hcrew hsame (Crew.toil_work h.holds hwork)

theorem Manned.toil_finish {worker : Nat} {ending : Ending} (h : Manned host o e c queued)
    (hstep : e.finish worker ending = some e') : e'.toil < e.toil := by
  obtain ⟨c', r, hfinish, -, hsame, hcrew⟩ := of_finish h.crew hstep
  exact toil_lt_of_crew h.crew hcrew hsame (Crew.toil_finish hfinish)

theorem toil_create (workers : UInt32) : (Crew.create crewName workers : Crew Record).toil = 0 :=
  rfl

theorem Manned.toil_join {i : Ingestion} (h : Manned host o e c queued) (hvalid : o.Valid)
    (hfew : FewWorkers o) (hi : e.ingestion = some i) (hjoining : i.stage = .joining)
    (hstep : e.join i = some e') : e'.toil < e.toil := by
  have hmanned := h.join hvalid hfew hi hjoining hstep
  have hbegun : e'.ingestion = some { i with stage := .visiting .markStarted } := by
    simp only [Engine.join, h.crew] at hstep
    split at hstep
    · obtain rfl := Option.some.inj hstep
      rfl
    · cases hstep
  refine toil_lt (some _) h.crew hi hmanned.crew hbegun (hmanned.options.trans h.options.symm) ?_
  simp only [toil_create, Option.map_some, Option.getD_some, Ingestion.toil, hjoining, Stage.toil]
  omega

/-- **Every step of the reading side** leaves less to do. -/
theorem Manned.toil_read (h : Manned host o e c queued) (hvalid : o.Valid) (hfew : FewWorkers o)
    (hstep : e.read = some e') : e'.toil < e.toil := by
  unfold Engine.read at hstep
  cases hi : e.ingestion with
  | none => simp [hi] at hstep
  | some i =>
    obtain ⟨call, frames, clean, stage⟩ := i
    simp only [hi] at hstep
    cases stage with
    | joining => exact h.toil_join hvalid hfew hi rfl hstep
    | visiting v =>
      simp only [visit_eq h.crew, Option.map_eq_some_iff] at hstep
      obtain ⟨s, hs, rfl⟩ := hstep
      exact h.toil_visited hi (Crew.stride_of_step hs)
    | reading =>
      obtain rfl := Option.some.inj hstep
      exact h.toil_readHeader hi
    | filling header => exact h.toil_fill hi hstep
    | leaving =>
      obtain rfl := Option.some.inj hstep
      exact toil_lt_of_stage h.crew hi h.crew rfl rfl rfl rfl (Nat.lt_succ_self 14)

theorem Manned.toil_expire (h : Manned host o e c queued) (hstep : e.expire = some e') :
    e'.toil < e.toil := by
  obtain ⟨call, frames, clean, ms, hi, rfl⟩ := of_expire hstep
  exact toil_lt_of_stage h.crew hi h.crew rfl rfl rfl rfl (Nat.lt_succ_self 10)

theorem Unmanned.toil_read (h : Unmanned host o e) (hstep : e.read = some e') :
    e'.toil < e.toil := by
  cases hi : e.ingestion with
  | none => simp [Engine.read, hi] at hstep
  | some i =>
    have hjoining := h.joining i hi
    simp only [Engine.read, hi, hjoining, Engine.join, h.crew, Option.some.injEq] at hstep
    subst hstep
    unfold toil
    rw [h.crew, hi]
    show 0 + (i.frames.source.rest.length + 4 * e.options.workerCount.toNat + 33)
      < 0 + i.stage.toil _ _
    rw [hjoining]
    simp only [Stage.toil]
    omega

/-- **Every step leaves less to do**, whoever takes it, unless another stream is brought. -/
theorem Orderly.toil_lt (h : Orderly host o e) (hvalid : o.Valid) (hfew : FewWorkers o)
    (ha : ∀ source, a ≠ .ingest source) (hstep : e.next a = some e') : e'.toil < e.toil := by
  unfold Engine.next at hstep
  split at hstep
  · cases hstep
  rcases h with h | ⟨c, queued, h⟩
  · cases a with
    | ingest source => exact absurd rfl (ha source)
    | read => exact h.toil_read hstep
    | expire =>
      obtain ⟨call, frames, clean, ms, hi, -⟩ := of_expire hstep
      cases h.joining _ hi
    | work worker => simp [Engine.work, h.crew] at hstep
    | finish worker ending => simp [Engine.finish, h.crew] at hstep
  · cases a with
    | ingest source => exact absurd rfl (ha source)
    | read => exact h.toil_read hvalid hfew hstep
    | expire => exact h.toil_expire hstep
    | work worker => exact h.toil_work hstep
    | finish worker ending => exact h.toil_finish hstep

/-! ## 3. There is an end to it -/

/-- It will come to this, whoever takes the steps and in whatever order: it has come to it; or else
somebody can take a step, and behind every step it will come to it.  The task ends with every record,
by itself or with an error.  Another stream can only be brought when no call goes on, and is not
counted in. -/
inductive ComesTo (p : Engine → Prop) : Engine → Prop where
  | already {e : Engine} : p e → ComesTo p e
  | later {e : Engine} : e.GoesOn →
      (∀ (a : Action) (e' : Engine), (∀ source, a ≠ .ingest source) →
        (∀ i, a ≠ .finish i .escaped) → e.next a = some e' → ComesTo p e') → ComesTo p e

/-- All that was begun will be over: no call goes on, and every worker has left. -/
def Settles (e : Engine) : Prop := e.ComesTo fun e => ¬ e.IsBusy

/-- **All comes to its end.**  The induction is on what there still is to do: when nobody can take a
step, nothing is left to do or the workers are stranded. -/
theorem Service.comesTo {p : Engine → Prop} (h : Service host o e) (hfew : FewWorkers o)
    (hp : ∀ e, Service host o e → ¬ e.IsBusy ∨ e.IsStranded → p e) : e.ComesTo p := by
  induction hn : e.toil using Nat.strongRecOn generalizing e with
  | ind n ih =>
    obtain ⟨hvalid, horderly⟩ := h.orderly hfew
    by_cases hover : ¬ e.IsBusy ∨ e.IsStranded
    · exact .already (hp e h hover)
    obtain ⟨hbusy, hstranded⟩ := not_or.mp hover
    refine .later ((horderly.goes_on_iff hvalid hfew (not_not.mp hbusy)).mpr hstranded) ?_
    intro a e' hanother hends hstep
    exact ih _ (hn ▸ horderly.toil_lt hvalid hfew hanother hstep) (h.next hends hstep) rfl

/-- **Where no metadata can be too long for a block of memory, every call returns and every worker
leaves.** -/
theorem Service.settles (h : Service host o e) (hfew : FewWorkers o)
    (hlimit : o.maxMetadata.toNat ≤ Frame.longestBlock) : e.Settles := by
  refine h.comesTo hfew ?_
  rintro e h (hover | hstranded)
  · exact hover
  · exact absurd (List.mem_of_getLast? hstranded.abandoned.2) (h.threw_not_mem hlimit)

end Engine

end Intake
