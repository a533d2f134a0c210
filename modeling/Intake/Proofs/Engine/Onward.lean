/-
# An engine gets stuck only behind an exception

The reading side of an `IngestEngine`, which is the call of `Ingest` itself, waits in two places:
for room in the queue (`Submit`), and for a buffer (`Acquire`).  A worker waits for a record, and in
the end the reading side waits for the workers.  There are two more buffers than workers; with more
than one worker that is fewer than the queue, the workers and the reading side can have between
them, so both places are real.

What rules out that all wait for each other is where the records are (`Manned`).  A worker waits
only while the queue is empty and open, so the queue is not what the reading side waits for then;
and every buffer that is taken is that of a record in the queue or with a worker.  As the queue has
room for as many records as there are workers, **whenever the reading side waits for a buffer at
least two workers have a record** (`Manned.two_engaged`).  So whenever something is still to be done
there is somebody who can go on, unless the workers wait at a queue that nobody will close.

**The obstruction, exactly.**  A call closes the queue on every way out but one: metadata longer
than any block of memory makes an exception leave it in the middle of a frame.  When the workers are
done with the records that they had, all of them wait (`IsStranded`), until another call shuts the
crew down.  It takes a limit on the metadata beyond the longest block (`Limited`), and apart from
this the engine never gets stuck (`never_stuck`).
-/
import Mathlib
import Intake.Proofs.Engine.Service

namespace Intake

namespace Crew

variable {Job : Type} {c : Crew Job} {queued : List Job}

theorem length_held (c : Crew Job) : c.held.length = c.running.length + c.waiting.length := by
  unfold held running waiting
  induction c.workers with
  | nil => rfl
  | cons w rest ih =>
    rw [List.filterMap_cons, List.filterMap_cons, List.filterMap_cons]
    cases w with
    | holding j => exact congrArg (· + 1) ih
    | running j =>
      show (rest.filterMap Worker.job?).length + 1 = _ + 1 + _
      rw [ih, Nat.add_right_comm]
      rfl
    | _ => exact ih

/-- **A worker waits only while the queue is empty and open.** -/
theorem goes_on_of_worker {i : Nat} {w : Worker Job} (hq : c.queue.Holds queued)
    (hi : c.workers[i]? = some w) (hgone : w ≠ .gone)
    (hqueue : w = .taking → queued ≠ [] ∨ c.queue.closed = true) :
    (c.work i).isSome ∨ ∃ j, w = .running j := by
  cases w with
  | looking => simp [work, hi]
  | taking =>
    left
    cases queued with
    | nil =>
      have hclosed : c.queue.closed = true := (hqueue rfl).resolve_left (fun h => h rfl)
      simp [work, hi, hq.take_fails (Or.inl hclosed)]
    | cons j rest => simp [work, hi, hq.take_gives.1]
  | holding j =>
    left
    simp only [work, hi]
    split <;> rfl
  | running j => exact Or.inr ⟨j, rfl⟩
  | leaving => simp [work, hi]
  | gone => exact absurd rfl hgone

theorem exists_present (h : c.allGone = false) :
    ∃ (i : Nat) (w : Worker Job), c.workers[i]? = some w ∧ w ≠ .gone := by
  obtain ⟨w, hw, hpresent⟩ := List.all_eq_false.mp h
  obtain ⟨i, hi⟩ := List.mem_iff_getElem?.mp hw
  refine ⟨i, w, hi, ?_⟩
  rintro rfl
  exact hpresent rfl

end Crew

namespace Engine

variable {host : Host} {o : Options} {e e' : Engine} {c : Crew Record} {queued : List Record}

/-! ## 1. Who can go on -/

/-- The worker can take a step, or the task can end with the record that it runs the task on. -/
def Works (e : Engine) (i : Nat) : Prop :=
  (e.next (.work i)).isSome ∨ ∀ ending, (e.next (.finish i ending)).isSome

/-- The reading side can take a step, or a worker goes on. -/
def GoesOn (e : Engine) : Prop := (e.next .read).isSome ∨ ∃ i, e.Works i

/-- A call is going on, or some worker has not left. -/
def IsBusy (e : Engine) : Prop :=
  e.ingestion ≠ none ∨ ∃ c, e.crew = some c ∧ c.allGone = false

/-- The record that a worker runs the task on. -/
def runs? (e : Engine) (i : Nat) : Option Record :=
  (e.crew.bind fun c => c.workers[i]?).bind Worker.running?

/-- The worker runs the task on a record, and the task can end with it; or the worker runs the task
on it once it has taken its next step, which it can take. -/
def Engaged (e : Engine) (i : Nat) (r : Record) : Prop :=
  (e.runs? i = some r ∧ ∀ ending, (e.next (.finish i ending)).isSome) ∨
    ∃ e', e.next (.work i) = some e' ∧ e'.runs? i = some r

/-! ## 2. Workers -/

theorem Manned.not_aborted (h : Manned host o e c queued) : e.isAborted = false := by
  simp [isAborted, h.unbroken, h.crew, h.unaborted]

theorem Manned.isSome_next_work (h : Manned host o e c queued) {i : Nat}
    (hwork : (c.work i).isSome) : (e.next (.work i)).isSome := by
  obtain ⟨r, hr⟩ := Option.isSome_iff_exists.mp hwork
  simp [Engine.next, h.not_aborted, Engine.work, h.crew, hr]

theorem Manned.isSome_next_finish (h : Manned host o e c queued) {i : Nat} {r : Record}
    (hi : c.workers[i]? = some (.running r)) (ending : Ending) :
    (e.next (.finish i ending)).isSome := by
  simp [Engine.next, h.not_aborted, Engine.finish, h.crew, Crew.finish, hi]

/-- A worker that has not left goes on, unless it waits for a record. -/
theorem Manned.works (h : Manned host o e c queued) {i : Nat} {w : Worker Record}
    (hi : c.workers[i]? = some w) (hgone : w ≠ .gone)
    (hqueue : w = .taking → queued ≠ [] ∨ c.queue.closed = true) : e.Works i := by
  rcases Crew.goes_on_of_worker h.holds hi hgone hqueue with hwork | ⟨r, rfl⟩
  · exact Or.inl (h.isSome_next_work hwork)
  · exact Or.inr (h.isSome_next_finish hi)

/-- **Behind a closed queue nobody waits**: whoever has not left goes on. -/
theorem Manned.works_of_closed (h : Manned host o e c queued) (hclosed : c.queue.closed = true)
    (hpresent : c.allGone = false) : ∃ i, e.Works i := by
  obtain ⟨i, w, hi, hgone⟩ := Crew.exists_present hpresent
  exact ⟨i, h.works hi hgone fun _ => Or.inr hclosed⟩

theorem Manned.workers_pos (h : Manned host o e c queued) (hvalid : o.Valid)
    (hstaffed : c.Staffed queued 0) : 0 < c.workers.length := by
  obtain ⟨hsome, -, -⟩ := (Options.valid_iff o).mp hvalid
  have hhired := hstaffed.hired
  rw [h.workerCount] at hhired
  have hpos : o.workerCount.toNat ≠ 0 := fun hzero => hsome (UInt32.toNat_inj.mp hzero)
  omega

/-- **With a record in an open queue nobody waits**, and there is somebody. -/
theorem Manned.works_of_queued (h : Manned host o e c queued) (hvalid : o.Valid)
    (hstaffed : c.Staffed queued 0) (hqueued : queued ≠ []) : ∃ i, e.Works i := by
  have hfirst := h.workers_pos hvalid hstaffed
  refine ⟨0, h.works (List.getElem?_eq_getElem hfirst) ?_ fun _ => Or.inl hqueued⟩
  intro hgone
  exact hqueued (hstaffed.leaving _ (List.getElem_mem hfirst) (Or.inr hgone)).2

theorem Manned.engaged (h : Manned host o e c queued) {i : Nat} {r : Record}
    (hi : (c.workers[i]?).bind Worker.job? = some r) : e.Engaged i r := by
  obtain ⟨w, hw, hjob⟩ := Option.bind_eq_some_iff.mp hi
  cases w with
  | running j =>
    obtain rfl : j = r := Option.some.inj hjob
    refine Or.inl ⟨?_, h.isSome_next_finish hw⟩
    simp [runs?, h.crew, hw, Worker.running?]
  | holding j =>
    obtain rfl : j = r := Option.some.inj hjob
    have hwork : c.work i = some (c.setWorker i (.running j), some (.begun i j)) := by
      simp [Crew.work, hw, h.calm.crew]
    obtain ⟨hlt, -⟩ := List.getElem?_eq_some_iff.mp hw
    refine Or.inr ⟨({ e with crew := some (c.setWorker i (.running j)) } : Engine).note
      (.begun i j), ?_, ?_⟩
    · simp [Engine.next, h.not_aborted, Engine.work, h.crew, hwork, note?]
    · simp [runs?, note, settleRecord, Occurrence.event?, Crew.setWorker, hlt, Worker.running?]
  | _ => cases hjob

theorem Engaged.works {i : Nat} {r : Record} (h : e.Engaged i r) : e.Works i := by
  rcases h with ⟨-, hfinish⟩ | ⟨e', hwork, -⟩
  · exact Or.inr hfinish
  · exact Or.inl (Option.isSome_iff_exists.mpr ⟨e', hwork⟩)

/-! ## 3. Waiting for a buffer -/

theorem waits_of_fill_none {i : Ingestion} {header : Frame.Header}
    (h : e.fill i header = none) :
    e.staging.materialize i.frames.source header.rawSize = .waits := by
  cases hd : e.staging.materialize i.frames.source header.rawSize with
  | waits => rfl
  | overflows => simp [Engine.fill, session, Frame.Session.readContent, hd] at h
  | delivers d =>
    obtain ⟨t, -, ⟨content, -, -, hread⟩ | ⟨cause, -, -, hread⟩⟩ :=
      Frame.Session.readContent_of_delivers (s := e.session i) (h := header) hd
    · simp [Engine.fill, hread] at h
    · simp [Engine.fill, hread] at h

/-- **While the reading side waits for a buffer, at least two workers have a record.** -/
theorem Manned.two_engaged (h : Manned host o e c queued) (hfew : FewWorkers o)
    {call : Nat} {frames : Frame.Reader} {clean : Bool} {header : Frame.Header}
    (hi : e.ingestion = some ⟨call, frames, clean, .filling header⟩)
    (hwaits : e.staging.materialize frames.source header.rawSize = .waits) :
    ∃ i j r s, i ≠ j ∧ e.Engaged i r ∧ e.Engaged j s := by
  have hheld : 2 ≤ c.held.length := by
    have hall := h.houses.exhausted hwaits
    have hbuffers : e.staging.pool.capacity.toNat = o.workerCount.toNat + 2 := by
      rw [h.alike.pool.capacity]
      exact hfew.capacity
    have hqueue : queued.length ≤ o.workerCount.toNat := h.capacity ▸ h.holds.length_le
    have hnothing : carriedBy e.ingestion = [] := by
      rw [hi]
      rfl
    rw [hnothing, hbuffers] at hall
    simp only [List.length_map, List.length_append, List.length_nil] at hall
    rw [Crew.length_held]
    omega
  obtain ⟨i, j, r, s, hne, hr, hs⟩ := exists_two_of_filterMap hheld
  exact ⟨i, j, r, s, hne, h.engaged hr, h.engaged hs⟩

/-! ## 4. Calls that an exception can leave -/

/-- The readers go by the limit of the options, and this limit is beyond the longest block if an
exception has left a call. -/
structure Limited (o : Options) (e : Engine) : Prop where
  options : e.options = o
  frames : ∀ i, e.ingestion = some i → i.frames.maxMetadata = o.maxMetadata
  threw : .threw ∈ e.results → Frame.longestBlock < o.maxMetadata.toNat

theorem Limited.of_same (h : Limited o e) (hsame : SameCall e e') : Limited o e' := by
  refine ⟨hsame.options.trans h.options, ?_, ?_⟩
  · rw [hsame.ingestion]
    exact h.frames
  · rw [hsame.results]
    exact h.threw

theorem Limited.of_some {i i' : Ingestion} (h : Limited o e) (hi : e.ingestion = some i)
    (hoptions : e'.options = e.options) (hresults : e'.results = e.results)
    (hi' : e'.ingestion = some i') (hmax : i'.frames.maxMetadata = i.frames.maxMetadata) :
    Limited o e' := by
  refine ⟨hoptions.trans h.options, ?_, ?_⟩
  · intro j hj
    obtain rfl := Option.some.inj (hi'.symm.trans hj)
    exact hmax.trans (h.frames i hi)
  · rw [hresults]
    exact h.threw

theorem Limited.of_none {a : Answer} (h : Limited o e) (hoptions : e'.options = e.options)
    (hi' : e'.ingestion = none) (hresults : e'.results = e.results ++ [a])
    (hlong : a = .threw → Frame.longestBlock < o.maxMetadata.toNat) : Limited o e' := by
  refine ⟨hoptions.trans h.options, ?_, ?_⟩
  · intro j hj
    cases hi'.symm.trans hj
  · rw [hresults]
    intro hthrew
    rcases List.mem_append.mp hthrew with hbefore | hnow
    · exact h.threw hbefore
    · exact hlong (List.mem_singleton.mp hnow).symm

theorem releases_same (records : List Record) (e : Engine) :
    SameCall e (records.foldl release e) := by
  induction records generalizing e with
  | nil => exact ⟨rfl, rfl, rfl, rfl, rfl⟩
  | cons r rest ih =>
    obtain ⟨hcall, hoptions, hbroken, hingestion, hresults⟩ := ih (e.release r)
    exact ⟨hcall, hoptions, hbroken, hingestion, hresults⟩

theorem Limited.join {i : Ingestion} (h : Limited o e) (hi : e.ingestion = some i)
    (hstep : e.join i = some e') : Limited o e' := by
  unfold Engine.join at hstep
  split at hstep
  · obtain rfl := Option.some.inj hstep
    exact h.of_some hi rfl rfl rfl rfl
  · rename_i c _
    split at hstep
    · obtain rfl := Option.some.inj hstep
      obtain ⟨-, hoptions, -, -, hresults⟩ := releases_same c.queue.toList e
      exact h.of_some hi hoptions hresults rfl rfl
    · cases hstep

theorem Limited.visit {i : Ingestion} {v : Crew.Visit Record} (h : Limited o e)
    (hi : e.ingestion = some i) (hstep : e.visit i v = some e') : Limited o e' := by
  cases hcrew : e.crew with
  | none => simp [Engine.visit, hcrew] at hstep
  | some c =>
    rw [visit_eq hcrew, Option.map_eq_some_iff] at hstep
    obtain ⟨s, -, rfl⟩ := hstep
    obtain ⟨-, hoptions, -, -, hresults⟩ :=
      note?_same ({ e with crew := some s.crew } : Engine) s.occurrence
    unfold visited
    split
    · rename_i r _
      cases r with
      | awaited inTime =>
        exact h.of_none hoptions rfl (congrArg (· ++ _) hresults) fun hthrew => by cases hthrew
      | _ => exact h.of_some hi hoptions hresults rfl rfl
    · exact h.of_some hi hoptions hresults rfl rfl

theorem Limited.readingEnded {i i' : Ingestion} (h : Limited o e) (hi : e.ingestion = some i)
    (t : Frame.Session) (hmax : i'.frames.maxMetadata = i.frames.maxMetadata) (cause : FrameError) :
    Limited o ((e.resume t).readingEnded i' cause) := by
  obtain ⟨staging, -, hended⟩ := readingEnded_eq (e.resume t) i' cause
  rw [hended]
  exact h.of_some hi rfl rfl rfl hmax

/-- An exception leaves a call when the metadata of a frame is within the limit and beyond the longest
block. -/
theorem Limited.readHeader {i : Ingestion} (h : Limited o e) (hi : e.ingestion = some i) :
    Limited o (e.readHeader i) := by
  have hcases := Frame.Session.readHeader_cases (s := e.session i)
    (l := { limitsOf .empty o with maxMetadata := i.frames.maxMetadata }) rfl
  rcases hcases with ⟨t, hheader, hmoved, -, -⟩ | ⟨t, n, m, hheader, hmoved, -, -, -⟩
  · simp only [Engine.readHeader, hheader]
    exact h.of_some hi rfl rfl rfl hmoved.maxMetadata
  · cases hstop : Frame.Limits.stopCause _ _ _ with
    | failed cause =>
      rw [hstop] at hheader
      simp only [Engine.readHeader, hheader]
      exact h.readingEnded hi t hmoved.maxMetadata cause
    | thrown =>
      rw [hstop] at hheader
      simp only [Engine.readHeader, hheader]
      refine h.of_none rfl rfl rfl fun _ => ?_
      obtain ⟨hlong, hsmall⟩ := (Frame.Limits.stopCause_thrown_iff _ _ _).mp hstop
      rw [← h.frames i hi]
      by_contra hwithin
      exact hsmall (Frame.oversized_of_overlong (Nat.le_of_not_lt hwithin) hlong)

theorem Limited.fill {i : Ingestion} {header : Frame.Header} (h : Limited o e)
    (hi : e.ingestion = some i) (hstep : e.fill i header = some e') : Limited o e' := by
  cases hd : e.staging.materialize i.frames.source header.rawSize with
  | waits => simp [Engine.fill, session, Frame.Session.readContent, hd] at hstep
  | overflows =>
    simp only [Engine.fill, session, Frame.Session.readContent, hd, Option.some.injEq] at hstep
    subst hstep
    exact h.of_some hi rfl rfl hi rfl
  | delivers d =>
    obtain ⟨t, hreceived, ⟨content, -, -, hread⟩ | ⟨cause, -, -, hread⟩⟩ :=
      Frame.Session.readContent_of_delivers (s := e.session i) (h := header) hd
    · simp only [Engine.fill, hread, Option.some.injEq] at hstep
      subst hstep
      exact h.of_some hi rfl rfl rfl hreceived.maxMetadata
    · simp only [Engine.fill, hread, Option.some.injEq] at hstep
      subst hstep
      exact h.readingEnded hi t hreceived.maxMetadata cause

/-- **Every step keeps to the limit**, whoever takes it. -/
theorem Limited.next {a : Action} (h : Limited o e) (hstep : e.next a = some e') :
    Limited o e' := by
  unfold Engine.next at hstep
  split at hstep
  · cases hstep
  cases a with
  | ingest source =>
    cases hi : e.ingestion with
    | some i => simp [Engine.begin, hi] at hstep
    | none =>
      simp only [Engine.begin, hi, h.options, Option.some.injEq] at hstep
      subst hstep
      refine ⟨rfl, ?_, h.threw⟩
      rintro i hbegun
      rw [← Option.some.inj hbegun]
      rfl
  | read =>
    unfold Engine.read at hstep
    cases hi : e.ingestion with
    | none => simp [hi] at hstep
    | some i =>
      simp only [hi] at hstep
      split at hstep
      · exact h.join hi hstep
      · exact h.visit hi hstep
      · obtain rfl := Option.some.inj hstep
        exact h.readHeader hi
      · exact h.fill hi hstep
      · obtain rfl := Option.some.inj hstep
        exact h.of_some hi rfl rfl rfl rfl
  | expire =>
    obtain ⟨call, frames, clean, ms, hi, rfl⟩ := of_expire hstep
    exact h.of_some hi rfl rfl rfl rfl
  | work worker => exact h.of_same (work_same hstep)
  | finish worker ending => exact h.of_same (finish_same hstep)

/-- In service an exception leaves a call only if its metadata may be longer than any block.  The
induction is on the steps. -/
theorem Service.limited (h : Service host o e) : Limited o e := by
  induction h with
  | made parts hmade =>
    obtain ⟨-, rfl⟩ := of_create hmade
    have hidle : (ofOptions host o).ingestion = none := rfl
    refine ⟨rfl, ?_, fun hthrew => absurd hthrew List.not_mem_nil⟩
    intro i hi
    cases hidle.symm.trans hi
  | next _ _ hstep ih => exact ih.next hstep

/-- Where no metadata can be too long for a block of memory, no exception leaves a call. -/
theorem Service.threw_not_mem (h : Service host o e)
    (hlimit : o.maxMetadata.toNat ≤ Frame.longestBlock) : .threw ∉ e.results :=
  fun hthrew => absurd (h.limited.threw hthrew) (Nat.not_lt_of_le hlimit)

/-! ## 5. Behind an exception -/

/-- **The workers of a call that an exception has left** all wait for a record, in front of an empty
queue that nobody has closed. -/
structure IsStranded (e : Engine) : Prop where
  abandoned : e.IsAbandoned
  waiting : ∃ c, e.crew = some c ∧ c.queue.closed = false ∧ c.queue.toList = [] ∧
    c.workers ≠ [] ∧ ∀ w ∈ c.workers, w = .taking

instance (e : Engine) : Decidable e.IsStranded :=
  decidable_of_iff
      ((e.ingestion = none ∧ e.results.getLast? = some .threw) ∧
        e.crew.any (fun c => c.queue.closed = false ∧ c.queue.toList = [] ∧
          c.workers ≠ [] ∧ ∀ w ∈ c.workers, w = .taking) = true) <| by
    rw [Option.any_eq_true]
    simp only [decide_eq_true_eq]
    exact ⟨fun ⟨h, h'⟩ => ⟨h, h'⟩, fun ⟨h, h'⟩ => ⟨h, h'⟩⟩

theorem Manned.not_goes_on (h : Manned host o e c queued) (hstranded : e.IsStranded) :
    ¬ e.GoesOn := by
  obtain ⟨⟨hi, -⟩, c', hcrew, hopen, hempty, -, htaking⟩ := hstranded
  obtain rfl : c = c' := Option.some.inj (h.crew.symm.trans hcrew)
  obtain rfl : queued = [] := (Ring.Holds.toList_eq h.holds).symm.trans hempty
  have hwork : ∀ i, c.work i = none := by
    intro i
    cases hw : c.workers[i]? with
    | none => simp [Crew.work, hw]
    | some w =>
      obtain rfl := htaking w (List.mem_of_getElem? hw)
      simp [Crew.work, hw, h.holds.take_waits hopen h.calm.queue]
  have hfinish : ∀ i, c.finish i .returned = none := by
    intro i
    cases hw : c.workers[i]? with
    | none => simp [Crew.finish, hw]
    | some w =>
      obtain rfl := htaking w (List.mem_of_getElem? hw)
      simp [Crew.finish, hw]
  rintro (hread | ⟨i, hworks | hends⟩)
  · simp [Engine.next, h.not_aborted, Engine.read, hi] at hread
  · simp [Engine.next, h.not_aborted, Engine.work, h.crew, hwork] at hworks
  · have hend := hends .returned
    simp [Engine.next, h.not_aborted, Engine.finish, h.crew, hfinish] at hend

/-- When nobody has closed the queue, somebody goes on as long as there is a record. -/
theorem Manned.goes_on_of_abandoned (h : Manned host o e c queued) (hvalid : o.Valid)
    (habandoned : e.IsAbandoned) (hopen : c.queue.closed = false) :
    e.IsStranded ∨ ∃ i, e.Works i := by
  have hfits := h.fits
  rw [habandoned.1] at hfits
  have hstaffed : c.Staffed queued 0 := hfits.attended
  by_cases hqueued : queued = []
  · subst hqueued
    by_cases htaking : ∀ w ∈ c.workers, w = .taking
    · refine Or.inl ⟨habandoned, c, h.crew, hopen, Ring.Holds.toList_eq h.holds, ?_, htaking⟩
      exact List.ne_nil_of_length_pos (h.workers_pos hvalid hstaffed)
    · obtain ⟨w, hw, hother⟩ : ∃ w ∈ c.workers, w ≠ .taking := by simpa using htaking
      obtain ⟨i, hi⟩ := List.mem_iff_getElem?.mp hw
      refine Or.inr ⟨i, h.works hi ?_ fun heq => absurd heq hother⟩
      rintro rfl
      rw [(hstaffed.leaving _ hw (Or.inr rfl)).1] at hopen
      cases hopen
  · exact Or.inr (h.works_of_queued hvalid hstaffed hqueued)

/-! ## 6. Somebody goes on -/

/-- **With a crew, somebody can go on** as long as something is to be done, but for workers that are
stranded.  The cases are those of what the reading side waits for. -/
theorem Manned.goes_on (h : Manned host o e c queued) (hvalid : o.Valid) (hfew : FewWorkers o)
    (hbusy : e.IsBusy) (hstranded : ¬ e.IsStranded) : e.GoesOn := by
  by_cases hread : (e.next .read).isSome
  · exact Or.inl hread
  right
  have hwaits : e.read = none := by
    simpa [Engine.next, h.not_aborted] using hread
  have hfits := h.fits
  cases hi : e.ingestion with
  | none =>
    have hclosed := h.closed
    rw [hi] at hclosed
    obtain ⟨c', hcrew, hpresent⟩ := hbusy.resolve_left (fun hsome => hsome hi)
    obtain rfl : c = c' := Option.some.inj (h.crew.symm.trans hcrew)
    by_cases hopen : c.queue.closed = false
    · have habandoned := (hclosed rfl).resolve_left (by simp [hopen])
      exact (h.goes_on_of_abandoned hvalid habandoned hopen).resolve_left hstranded
    · exact h.works_of_closed (by simpa using hopen) hpresent
  | some i =>
    obtain ⟨call, frames, clean, stage⟩ := i
    rw [hi] at hfits
    simp only [Engine.read, hi] at hwaits
    cases stage with
    | joining =>
      have hpresent : c.allGone = false := by
        simpa [Engine.join, h.crew] using hwaits
      exact h.works_of_closed (h.closed_of_some hi rfl) hpresent
    | visiting v =>
      have hvisit : e.visit ⟨call, frames, clean, .visiting v⟩ v = none := hwaits
      rw [visit_eq h.crew, Option.map_eq_none_iff] at hvisit
      rcases Crew.waits_of_step_none hvisit with ⟨r, rfl, hput⟩ | ⟨ms, rfl, halive⟩ | ⟨r, rfl⟩
      · have hstaffed : c.Staffed queued 0 := hfits.attended
        refine h.works_of_queued hvalid hstaffed ?_
        rintro rfl
        rw [h.holds.put_gives (hfits.opened rfl) h.holds.capacity_pos r] at hput
        cases hput
      · have hstaffed : c.Staffed queued 0 := hfits.attended
        refine h.works_of_closed (h.closed_of_some hi rfl) ?_
        by_contra hgone
        exact halive (h.all_gone hvalid (by rw [hi]; rfl) (by simpa using hgone)).1
      · have husual := h.usual
        rw [hi] at husual
        cases husual
    | reading => cases hwaits
    | filling header =>
      obtain ⟨i, -, r, -, -, hengaged, -⟩ := h.two_engaged hfew hi (waits_of_fill_none hwaits)
      exact ⟨i, hengaged.works⟩
    | leaving => cases hwaits

theorem Unmanned.goes_on (h : Unmanned host o e) (hbusy : e.IsBusy) : e.GoesOn := by
  rcases hbusy with hcalled | ⟨c, hcrew, -⟩
  · obtain ⟨i, hi⟩ := Option.ne_none_iff_exists'.mp hcalled
    left
    simp [Engine.next, isAborted, h.unbroken, h.crew, Engine.read, hi, h.joining i hi, Engine.join]
  · rw [h.crew] at hcrew
    cases hcrew

/-- **Somebody can go on as long as something is to be done**, but for workers that are stranded. -/
theorem Orderly.goes_on_iff (h : Orderly host o e) (hvalid : o.Valid) (hfew : FewWorkers o)
    (hbusy : e.IsBusy) : e.GoesOn ↔ ¬ e.IsStranded := by
  rcases h with h | ⟨c, queued, h⟩
  · refine ⟨?_, fun _ => h.goes_on hbusy⟩
    rintro - ⟨-, c, hcrew, -⟩
    rw [h.crew] at hcrew
    cases hcrew
  · exact ⟨fun hgoes hstranded => h.not_goes_on hstranded hgoes, h.goes_on hvalid hfew hbusy⟩

theorem Orderly.goes_on (h : Orderly host o e) (hvalid : o.Valid) (hfew : FewWorkers o)
    (hcalled : e.ingestion ≠ none) : e.GoesOn :=
  (h.goes_on_iff hvalid hfew (Or.inl hcalled)).mpr fun hstranded => hcalled hstranded.abandoned.1

theorem Service.follow {actions : List Action} (h : Service host o e)
    (hfollow : e.follow actions = some e') : Service host o e' :=
  (Course.refl.follow hfollow).service h

/-- Options for two workers, and with them four buffers of three bytes. -/
def twoWorkers : Options := { workerCount := 2, thresholdExact := 3 }

/-- A row of actions up to the content of the last of them: two records are with the workers, and
two in the queue. -/
def crowdedRun : List Action :=
  [.replicate 8 .read, [.work 0, .work 1], .replicate 5 .read, [.work 0], .replicate 5 .read,
    [.work 1], .replicate 11 .read].flatten

end Engine

end Intake
