/-
# Steps of a call

A step of either side, of `Ingest` or of a worker in `HandleRecord`, keeps a call going
(`Underway.next`).  For the reading side this is a matter of the bytes ahead: a header is read or
not (`Underway.readHeader`), and the content behind it becomes a record or not (`Underway.fill`), as
`Limits.stopCause` says.  For a worker it is a matter of where the worker is on its round
(`Underway.work`), and what is asked of the task is only that it does not bring the program down
(`Underway.finish`).

While there is no free buffer the reading side waits; that there is always a new temporary file is
what the steps rely on (`HasRoom`).
-/
import Mathlib
import Intake.Proofs.Crew.Visiting
import Intake.Proofs.Engine.Underway

namespace Intake.Engine

variable {k : Call} {e e' : Engine} {c c' : Crew Record} {queued queued' : List Record}
  {produced : List (Record × Bytes)} {ahead : Bytes} {i : Ingestion}

/-! ## 1. Reading a header -/

/-- A temporary file can be made. -/
def HasRoom (e : Engine) : Prop :=
  ∃ t, e.staging.host.disk.createTemp (Spill.stem e.staging.tempDir) = .ok t

/-- The next content goes to a temporary file. -/
def AsksForFile (e : Engine) : Prop :=
  ∃ i h, e.ingestion = some i ∧ i.stage = .filling h ∧ e.staging.shouldSpill h.rawSize = true

/-- When a temporary file is asked for, it can be made or not, as foreseen. -/
def Finds (e : Engine) (room : Bool) : Prop := e.AsksForFile → (e.HasRoom ↔ room = true)

/-- The end of reading is noted in the log, and the stream counts as read to its end or not. -/
theorem readingEnded_eq (e : Engine) (i : Ingestion) (cause : FrameError) :
    ∃ staging, e.staging.Noted staging ∧ e.readingEnded i cause =
      { e with
        staging
        ingestion := some ⟨i.call, i.frames, i.clean || cause = .endOfStream, .leaving⟩ } := by
  unfold readingEnded
  by_cases hend : cause = .endOfStream
  · refine ⟨e.staging, .refl _, ?_⟩
    rw [if_pos hend]
    simp [enter, hend]
  · refine ⟨_, Staging.noted_report e.staging (.readingFailed cause i.frames.cursor), ?_⟩
    rw [if_neg hend]
    simp [enter, hend, report]

/-- A stream that has not come to its end before is noted as clean by the error that ends it now. -/
theorem answer_of_failed {clean : Bool} (h : clean = false) {records : Nat} {cause : FrameError}
    (hstop : (k.limitsAt records).stopCause k.source.failure.isSome ahead = .failed cause) :
    k.answer records ahead = .returned (clean || cause = .endOfStream) := by
  rw [Call.answer, hstop, h, Bool.false_or]
  rfl

/-- The grace period is over only in a call that waits for its workers and has time left. -/
theorem of_expire (hstep : e.expire = some e') :
    ∃ call frames clean ms,
      e.ingestion = some ⟨call, frames, clean, .visiting (.await ms false)⟩ ∧
      e' = e.enter ⟨call, frames, clean, .visiting (.await ms false)⟩
        (.visiting (.await ms true)) := by
  unfold Engine.expire at hstep
  cases hi : e.ingestion with
  | none => simp [hi] at hstep
  | some i =>
    obtain ⟨call, frames, clean, stage⟩ := i
    simp only [hi] at hstep
    cases stage with
    | visiting v =>
      obtain ⟨v', hv, rfl⟩ := Option.map_eq_some_iff.mp hstep
      obtain ⟨ms, rfl, rfl⟩ := Crew.Traffic.of_expire hv
      exact ⟨call, frames, clean, ms, rfl, rfl⟩
    | _ => cases hstep

section Reading

variable {call : Nat} {frames : Frame.Reader} {clean : Bool}

/-- **Reading a header** leads to its content, to the end of reading, or out of the call. -/
theorem Underway.readHeader (h : Underway k e c queued produced ahead)
    (hi : e.ingestion = some ⟨call, frames, clean, .reading⟩) :
    Goes k produced (e.readHeader ⟨call, frames, clean, .reading⟩) := by
  have hfits := h.fits
  have hplaced := h.placed
  rw [hi] at hfits hplaced
  obtain ⟨hresults, hclean, hfaces⟩ := hplaced
  have hcases := Frame.Session.readHeader_cases
    (s := e.session ⟨call, frames, clean, .reading⟩) (l := k.limitsAt produced.length)
    (hfaces.maxMetadata.trans (Frame.Limits.given_maxMetadata _ _).symm)
  have hrest : (e.session ⟨call, frames, clean, .reading⟩).reader.source.rest = ahead := hfaces.rest
  have hfailure : (e.session ⟨call, frames, clean, .reading⟩).reader.source.failure
      = k.source.failure := hfaces.failure
  rw [hrest, hfailure] at hcases
  rcases hcases with ⟨t, hheader, hmoved, hsmall, hwhole⟩ |
    ⟨t, n, m, hheader, hmoved, -, -, hstuck⟩
  · have hentered : k.Entered t.reader produced.length ahead (Frame.headerAt ahead) := by
      refine ⟨⟨?_, hmoved.failure.trans hfaces.failure,
        hmoved.maxMetadata.trans hfaces.maxMetadata, hmoved.records.trans hfaces.records⟩,
        hsmall, hwhole, rfl⟩
      rw [hmoved.rest]
      exact congrArg _ hfaces.rest
    simp only [Engine.readHeader, hheader]
    exact ⟨c, _, _, h.turn
      (aside_quiet hmoved.staging (.refl c) _ _ _ _)
      h.crew h.holds hi rfl rfl rfl hfits rfl ⟨hresults, hclean, hentered⟩⟩
  · cases hstop : (k.limitsAt produced.length).stopCause k.source.failure.isSome ahead with
    | failed cause =>
      rw [hstop] at hheader
      obtain ⟨staging, hnoted, hended⟩ :=
        readingEnded_eq (e.resume t) ⟨call, t.reader, clean, .reading⟩ cause
      simp only [Engine.readHeader, hheader, hended]
      exact ⟨c, _, _, h.turn
        (aside_quiet (Staging.Noted.trans hmoved.staging hnoted) (.refl c) _ _ _ _)
        h.crew h.holds hi rfl rfl rfl hfits rfl
        ⟨hresults, hstuck, answer_of_failed hclean hstop⟩⟩
    | thrown =>
      -- The crew stays open, so that its workers go on with what they have and then wait.
      rw [hstop] at hheader
      have hanswer : e.results ++ [.threw] = k.results ++ [k.answer produced.length ahead] := by
        rw [hresults, Call.answer, hstop]
        rfl
      simp only [Engine.readHeader, hheader]
      exact ⟨c, _, _, h.turn (aside_quiet hmoved.staging (.refl c) _ _ _ _)
        h.crew h.holds hi rfl rfl rfl ⟨hfits.attended, nofun, nofun, nofun⟩ rfl
        ⟨hstuck, hanswer⟩⟩

/-! ## 2. Taking a content -/

/-- The staging area goes by the limits of the call, whatever it holds. -/
theorem Underway.within (h : Underway k e c queued produced ahead) (hk : k.Sound) :
    Frame.Session.Within k.limits e.staging := by
  have halike := h.accounts.alike
  obtain ⟨temps, hkeep, -⟩ := h.accounts.houses.files
  refine ⟨halike.threshold.trans hk.threshold.symm, ?_, ?_⟩
  · rw [hk.threshold, halike.pool.bufferSize]
    exact hk.fits
  · rw [hk.largest, Spill.room, Spill.room, hkeep.sizeLimit]

/-- Unless the reading side waits for a buffer, a content is kept or turned away as the limits say.
-/
theorem Underway.heeds (h : Underway k e c queued produced ahead) (hk : k.Sound)
    (source : Source) {size : UInt64}
    (hfile : e.staging.shouldSpill size = true → (e.HasRoom ↔ k.room produced.length = true))
    (hgoes : e.staging.materialize source size ≠ .waits) :
    Frame.Session.Heeds (k.limitsAt produced.length) e.staging size := by
  refine (h.within hk).heeds_given hfile ?_
  intro hbuffer
  unfold Staging.Ready
  rw [hbuffer, if_neg Bool.false_ne_true]
  by_cases hnone : e.staging.pool.available = 0
  · have hcalm : e.staging.pool.free.interrupted = false :=
      h.accounts.alike.pool.interrupted.trans hk.calm
    exact absurd (Staging.materialize_waits h.accounts.houses hcalm hbuffer hnone source) hgoes
  · exact h.accounts.houses.acquires hnone

/-- The record that a step of the reading side has brought forth, with the content bytes that can be
read then. -/
def recordRead (e e' : Engine) : Option (Record × Except ReadFault Bytes) :=
  match e.ingestion, e'.ingestion with
  | some ⟨_, _, _, .filling _⟩, some ⟨_, _, _, .visiting (.askIntake r)⟩ =>
    some (r, e'.staging.remaining r.content)
  | _, _ => none

/-- The call goes on, with one more record if one was read. -/
def Brings (k : Call) (produced : List (Record × Bytes)) (e e' : Engine) : Prop :=
  ∃ new : Option (Record × Bytes), Goes k (produced ++ new.toList) e' ∧
    e.recordRead e' = new.map shown

theorem Goes.brings (h : Goes k produced e') (hnone : e.recordRead e' = none) :
    Brings k produced e e' :=
  ⟨none, by rwa [Option.toList_none, List.append_nil], hnone⟩

theorem recordRead_of_stage (hi : e.ingestion = some i) (hs : ∀ header, i.stage ≠ .filling header) :
    e.recordRead e' = none := by
  obtain ⟨call, frames, clean, stage⟩ := i
  cases stage with
  | filling header => exact absurd rfl (hs header)
  | _ => simp only [recordRead, hi]

theorem recordRead_of_same (h : e'.ingestion = e.ingestion) : e.recordRead e' = none := by
  unfold recordRead
  rw [h]
  split
  · rename_i hi hi'
    rw [hi] at hi'
    cases hi'
  · rfl

theorem Underway.spoil (h : Underway k e c queued produced ahead)
    (hi : e.ingestion = some ⟨call, frames, clean, .filling (Frame.headerAt ahead)⟩)
    (hheeds : Frame.Session.Heeds (k.limitsAt produced.length) e.staging
      (Frame.headerAt ahead).rawSize) (hstuck : (k.limitsAt produced.length).Stuck ahead)
    (hstep : e.fill ⟨call, frames, clean, .filling (Frame.headerAt ahead)⟩ (Frame.headerAt ahead)
      = some e') : Brings k produced e e' := by
  have hfits := h.fits
  have hplaced := h.placed
  have haccounts := h.accounts
  have haccepted := h.accepted
  have hsubmitted := h.submitted
  rw [hi] at hfits hplaced haccounts haccepted hsubmitted
  obtain ⟨hresults, hclean, ⟨hrest, hfailure, -, -⟩, hmetadata, hwhole, -⟩ := hplaced
  obtain ⟨d, t, hd, hcontent, hread, hreceived, -, -⟩ := Frame.Session.content_of_stuck
    (t := e.session ⟨call, frames, clean, .filling (Frame.headerAt ahead)⟩) hheeds hmetadata hwhole
    hstuck hrest
  have hfailing : (e.session ⟨call, frames, clean, .filling (Frame.headerAt ahead)⟩
      ).reader.source.failure = k.source.failure := hfailure
  rw [hfailing] at hcontent hread
  obtain ⟨staging, hnoted, hended⟩ := readingEnded_eq (e.resume t)
    ⟨call, t.reader, clean, .filling (Frame.headerAt ahead)⟩
    ((k.limitsAt produced.length).contentCause k.source.failure.isSome ahead)
  simp only [Engine.fill, hread, hended, Option.some.injEq] at hstep
  subst hstep
  refine Goes.brings ⟨c, queued, ahead, h.crew, h.call, h.options, h.unbroken, h.unaborted,
    h.someone, h.calm, h.holds, hfits, haccounts.spoils hd hcontent
      (Staging.Noted.trans hreceived.staging hnoted) rfl rfl,
    haccepted, hsubmitted, h.reads,
    ⟨hresults, hstuck, answer_of_failed hclean (Frame.Limits.stopCause_of_fits hmetadata)⟩,
    h.calls⟩ ?_
  simp only [recordRead, hi]

/-- A content that is taken makes a record, which the reading side brings to the crew. -/
theorem Underway.produce (h : Underway k e c queued produced ahead)
    (hi : e.ingestion = some ⟨call, frames, clean, .filling (Frame.headerAt ahead)⟩)
    (hheeds : Frame.Session.Heeds (k.limitsAt produced.length) e.staging
      (Frame.headerAt ahead).rawSize) {f : Bytes × Bytes} {rest : Bytes}
    (hleads : (k.limitsAt produced.length).Leads ahead f rest)
    (hstep : e.fill ⟨call, frames, clean, .filling (Frame.headerAt ahead)⟩ (Frame.headerAt ahead)
      = some e') : Brings k produced e e' := by
  have hfits := h.fits
  have hplaced := h.placed
  have haccounts := h.accounts
  have haccepted := h.accepted
  have hsubmitted := h.submitted
  rw [hi] at hfits hplaced haccounts haccepted hsubmitted
  obtain ⟨hresults, hclean, ⟨hrest, hfailure, hmax, hrecords⟩, -, -, -⟩ := hplaced
  obtain ⟨d, r, t, hd, hread, hkept⟩ := Frame.Session.content_of_leads
    (t := e.session ⟨call, frames, clean, .filling (Frame.headerAt ahead)⟩) hheeds hleads hrest
  simp only [Engine.fill, hread, Option.some.injEq] at hstep
  have haccounts' : Accounts k.base k.staging k.number e' c (queued ++ carriedBy e'.ingestion)
      (produced ++ [(r, f.2)]) := by
    have hcarried : queued ++ carriedBy e'.ingestion = queued ++ [] ++ [r] := by
      rw [← hstep, List.append_nil]
      rfl
    rw [hcarried]
    refine haccounts.produces hd hkept.content hkept.remaining ?_ ?_ ?_
    · rw [← hstep]
      exact hkept.received.staging
    · rw [← hstep]
      rfl
    · rw [← hstep]
      rfl
  have hfaces : k.Faces t.reader (produced ++ [(r, f.2)]).length rest := by
    refine ⟨hkept.rest, hkept.failure.trans hfailure, hkept.received.maxMetadata.trans hmax, ?_⟩
    rw [hkept.records, List.length_append, List.length_singleton, UInt64.ofNat_add]
    exact congrArg (· + 1) hrecords
  have hid : r.id = UInt64.ofNat produced.length * 2 :=
    hkept.id.trans (congrArg (· * 2) hrecords)
  have hbrought : e.acceptedIn k.number ++ [r] = (produced ++ [(r, f.2)]).map Prod.fst := by
    rw [List.map_append, ← haccepted]
    exact congrArg (· ++ [r]) (List.append_nil _).symm
  have howed : c.submitted + UInt64.ofNat 1 = UInt64.ofNat (produced ++ [(r, f.2)]).length := by
    rw [List.length_append, List.length_singleton, UInt64.ofNat_add, ← hsubmitted]
    exact congrArg (· + UInt64.ofNat 1) (UInt64.add_zero _).symm
  have hread' : e.recordRead e' = some (shown (r, f.2)) := by
    rw [← hstep]
    have hbytes : t.staging.remaining r.content = .ok f.2 :=
      (Staging.Noted.remaining hkept.received.staging _).trans hkept.remaining
    simp only [recordRead, hi]
    exact congrArg (fun bytes => some (r, bytes)) hbytes
  subst hstep
  exact ⟨some (r, f.2), ⟨c, queued, rest, h.crew, h.call, h.options, h.unbroken, h.unaborted,
    h.someone, h.calm, h.holds, hfits, haccounts', hbrought, howed,
    h.reads.produce hleads hid hkept.metadata hkept.rawSize, ⟨hresults, hclean, hfaces⟩, h.calls⟩,
    hread'⟩

/-- **Taking a content** makes a record of the frame, or ends the reading. -/
theorem Underway.fill {header : Frame.Header} (h : Underway k e c queued produced ahead)
    (hk : k.Sound) (hroom : e.Finds (k.room produced.length))
    (hi : e.ingestion = some ⟨call, frames, clean, .filling header⟩)
    (hstep : e.fill ⟨call, frames, clean, .filling header⟩ header = some e') :
    Brings k produced e e' := by
  have hplaced := h.placed
  rw [hi] at hplaced
  obtain ⟨-, -, -, -, -, rfl⟩ := hplaced
  have hgoes : e.staging.materialize frames.source (Frame.headerAt ahead).rawSize ≠ .waits := by
    intro hwaits
    simp [Engine.fill, session, Frame.Session.readContent, hwaits] at hstep
  have hheeds := h.heeds hk frames.source (fun hspill => hroom ⟨_, _, hi, rfl, hspill⟩) hgoes
  by_cases hstuck : (k.limitsAt produced.length).Stuck ahead
  · exact h.spoil hi hheeds hstuck hstep
  · simp only [Frame.Limits.Stuck, not_forall, not_not] at hstuck
    obtain ⟨f, rest, hleads⟩ := hstuck
    exact h.produce hi hheeds hleads hstep

theorem Underway.leave (h : Underway k e c queued produced ahead)
    (hi : e.ingestion = some ⟨call, frames, clean, .leaving⟩) :
    Goes k produced (e.leave ⟨call, frames, clean, .leaving⟩) := by
  have hfits := h.fits
  have hplaced := h.placed
  rw [hi] at hfits hplaced
  exact ⟨c, _, _, h.turn
    (aside_quiet (Staging.noted_report _ _) (.refl c) _ _ _ _)
    h.crew h.holds hi rfl rfl rfl hfits rfl hplaced⟩

/-- **Every step of the reading side** keeps the call going. -/
theorem Underway.read (h : Underway k e c queued produced ahead) (hk : k.Sound)
    (hroom : e.Finds (k.room produced.length)) (hstep : e.read = some e') :
    Brings k produced e e' := by
  unfold Engine.read at hstep
  cases hi : e.ingestion with
  | none => simp [hi] at hstep
  | some i =>
    obtain ⟨call, frames, clean, stage⟩ := i
    simp only [hi] at hstep
    cases stage with
    | joining =>
      have hplaced := h.placed
      rw [hi] at hplaced
      exact absurd hplaced.2 id
    | visiting v => exact (h.visit hi hstep).brings (recordRead_of_stage hi nofun)
    | reading =>
      obtain rfl := Option.some.inj hstep
      exact (h.readHeader hi).brings (recordRead_of_stage hi nofun)
    | filling header => exact h.fill hk hroom hi hstep
    | leaving =>
      obtain rfl := Option.some.inj hstep
      exact (h.leave hi).brings (recordRead_of_stage hi nofun)

theorem Underway.expired (h : Underway k e c queued produced ahead) (hstep : e.expire = some e') :
    Goes k produced e' := by
  obtain ⟨call, frames, clean, ms, hi, rfl⟩ := of_expire hstep
  obtain ⟨hfits, hplaced⟩ := h.at_visit hi
  exact ⟨c, _, _, h.turn (aside_quiet (.refl _) (.refl c) _ _ _ _) h.crew h.holds hi rfl rfl rfl
    hfits rfl hplaced⟩

end Reading

/-! ## 3. Workers -/

theorem Fits.staffed {d : Desk} (h : Fits c queued d) (hsome : c.workers ≠ []) :
    ∃ due, d.due = some due ∧ c.Staffed queued due := by
  have hattended := h.attended
  cases hdue : d.due with
  | none =>
    rw [hdue] at hattended
    exact absurd hattended.1 hsome
  | some due =>
    rw [hdue] at hattended
    exact ⟨due, rfl, hattended⟩

theorem Fits.moved {d : Desk} {due : Nat} (h : Fits c queued d) (hdesk : c.SameDesk c')
    (hdue : d.due = some due) (hstaffed : c'.Staffed queued' due) : Fits c' queued' d := by
  refine ⟨?_, ?_, ?_, ?_⟩
  · rw [hdue]
    exact hstaffed
  · intro hd
    rw [hdesk.started]
    exact h.fresh hd
  · intro hd
    rw [hdesk.accepting]
    exact h.accepting hd
  · intro hd
    rw [hdesk.closed]
    exact h.opened hd

theorem Underway.moved {due : Nat} (h : Underway k e c queued produced ahead)
    (hsame : SameCall e e') (hcrew : e'.crew = some c') (huntil : e'.Until k.number)
    (haccepted : e'.acceptedIn k.number = e.acceptedIn k.number)
    (hdue : (deskOf e.ingestion).due = some due) (hdesk : c.SameDesk c')
    (haborted : c'.aborted = c.aborted) (hholds : c'.queue.Holds queued')
    (hstaffed : c'.Staffed queued' due)
    (haccounts : Accounts k.base k.staging k.number e' c' (queued' ++ carriedBy e.ingestion)
      produced) : Goes k produced e' := by
  refine ⟨c', queued', ahead, hcrew, hsame.call.trans h.call,
    hsame.options.trans h.options, hsame.broken.trans h.unbroken, haborted.trans h.unaborted, ?_,
    hdesk.calm h.calm, hholds, ?_, ?_, ?_, ?_, h.reads, ?_, huntil⟩
  · rw [hdesk.workerCount]
    exact h.someone
  · rw [hsame.ingestion]
    exact h.fits.moved hdesk hdue hstaffed
  · rw [hsame.ingestion]
    exact haccounts
  · rw [hsame.ingestion, haccepted]
    exact h.accepted
  · rw [hsame.ingestion, hdesk.submitted]
    exact h.submitted
  · rw [hsame.ingestion, hsame.results]
    exact h.placed

theorem Underway.noted (h : Underway k e c queued produced ahead) (c' : Crew Record)
    (o : Occurrence Record) :
    SameCall e (({ e with crew := some c' } : Engine).note o) ∧
      (({ e with crew := some c' } : Engine).note o).crew = some c' ∧
      (({ e with crew := some c' } : Engine).note o).Until k.number ∧
      (({ e with crew := some c' } : Engine).note o).takenIn k.number
        = e.takenIn k.number ++ o.taken?.toList ∧
      (({ e with crew := some c' } : Engine).note o).acceptedIn k.number
        = e.acceptedIn k.number ++ o.accepted?.toList := by
  obtain ⟨⟨hcall, hoptions, hbroken, hingestion, hresults⟩, hcrew, hpast⟩ :=
    note_same { e with crew := some c' } o
  exact ⟨⟨hcall, hoptions, hbroken, hingestion, hresults⟩, hcrew,
    Until.note (e := { e with crew := some c' }) h.calls h.call o, takenIn_of_past h.call hpast,
    acceptedIn_of_past h.call hpast⟩

theorem note?_same (e : Engine) (o : Option (Occurrence Record)) : SameCall e (e.note? o) := by
  cases o with
  | none => exact ⟨rfl, rfl, rfl, rfl, rfl⟩
  | some o => exact (note_same e o).1

theorem of_work {worker : Nat} (hcrew : e.crew = some c) (hstep : e.work worker = some e') :
    ∃ c' o, c.work worker = some (c', o) ∧ e' = ({ e with crew := some c' } : Engine).note? o ∧
      SameCall e e' ∧ e'.crew = some c' := by
  simp only [Engine.work, hcrew, Option.map_eq_some_iff] at hstep
  obtain ⟨⟨c', o⟩, hwork, rfl⟩ := hstep
  obtain ⟨hcall, hoptions, hbroken, hingestion, hresults⟩ :=
    note?_same { e with crew := some c' } o
  refine ⟨c', o, hwork, rfl, ⟨hcall, hoptions, hbroken, hingestion, hresults⟩, ?_⟩
  cases o with
  | none => rfl
  | some o => exact (note_same { e with crew := some c' } o).2.1

theorem of_finish {worker : Nat} {ending : Ending} (hcrew : e.crew = some c)
    (hstep : e.finish worker ending = some e') :
    ∃ c' r, c.finish worker ending = some (c', r) ∧
      e' = ({ e with crew := some c' } : Engine).note (.ended worker r ending) ∧
      SameCall e e' ∧ e'.crew = some c' := by
  simp only [Engine.finish, hcrew, Option.map_eq_some_iff] at hstep
  obtain ⟨⟨c', r⟩, hfinish, rfl⟩ := hstep
  obtain ⟨⟨hcall, hoptions, hbroken, hingestion, hresults⟩, hcrew', -⟩ :=
    note_same { e with crew := some c' } (.ended worker r ending)
  exact ⟨c', r, hfinish, rfl, ⟨hcall, hoptions, hbroken, hingestion, hresults⟩, hcrew'⟩

/-- **Every step of a worker** keeps the call going: the worker takes the first record of the queue,
or begins to run the task on the record that it has, or does nothing to a record. -/
theorem Underway.work {worker : Nat} (h : Underway k e c queued produced ahead)
    (hstep : e.work worker = some e') : Goes k produced e' := by
  obtain ⟨c', o, hwork, rfl, -⟩ := of_work h.crew hstep
  have hsome : c.workers ≠ [] := by
    rintro hnil
    simp [Crew.work, hnil] at hwork
  obtain ⟨due, hdue, hstaffed⟩ := h.fits.staffed hsome
  obtain ⟨queued', ⟨hholds, hstaffed', hdesk, hcompleted, hfailed, haborted⟩, hshift⟩ :=
    Crew.work_shift h.calm h.holds hstaffed hwork
  cases hshift with
  | still hqueued hwaiting hrunning =>
    subst hqueued
    have haccounts : Accounts k.base k.staging k.number { e with crew := some c' } c'
        (queued' ++ carriedBy e.ingestion) produced :=
      h.accounts.shift (.refl _) rfl rfl (hwaiting.append_right _) hrunning hcompleted hfailed
    exact h.moved ⟨rfl, rfl, rfl, rfl, rfl⟩ rfl h.calls rfl hdue hdesk haborted hholds hstaffed'
      haccounts
  | takes r hqueued hwaiting hrunning =>
    obtain ⟨hsame, hcrew, huntil, htaken, haccepted⟩ := h.noted c' (.taken worker r)
    have hpending : (c'.waiting ++ (queued' ++ carriedBy e.ingestion)).Perm
        (c.waiting ++ (queued ++ carriedBy e.ingestion)) := by
      rw [hqueued]
      exact (hwaiting.append_right _).trans List.perm_middle.symm
    refine h.moved hsame hcrew huntil (haccepted.trans (List.append_nil _)) hdue hdesk haborted
      hholds hstaffed' (h.accounts.shift (.refl _) ?_ rfl hpending hrunning hcompleted hfailed)
    rw [hqueued]
    exact (congrArg (· ++ _) htaken).trans (List.append_assoc _ _ _)
  | begins r hqueued hwaiting hrunning =>
    subst hqueued
    obtain ⟨hsame, hcrew, huntil, htaken, haccepted⟩ := h.noted c' (.begun worker r)
    have hran : (({ e with crew := some c' } : Engine).note (.begun worker r)).ranIn k.number
        = e.ranIn k.number ++ [(r, e.staging.remaining r.content)] := ranIn_begun h.call rfl
    exact h.moved hsame hcrew huntil (haccepted.trans (List.append_nil _)) hdue hdesk haborted
      hholds hstaffed' (h.accounts.begins rfl (htaken.trans (List.append_nil _)) hran hwaiting
        hrunning hcompleted hfailed)

/-- **The task ends with a record**, with an error or without. -/
theorem Underway.finish {worker : Nat} {ending : Ending}
    (h : Underway k e c queued produced ahead) (hending : ending ≠ .escaped)
    (hstep : e.finish worker ending = some e') : Goes k produced e' := by
  obtain ⟨c', r, hfinish, rfl, -⟩ := of_finish h.crew hstep
  have hsome : c.workers ≠ [] := by
    rintro hnil
    simp [Crew.finish, hnil] at hfinish
  obtain ⟨due, hdue, hstaffed⟩ := h.fits.staffed hsome
  obtain ⟨hholds, hstaffed', hdesk, hcounts, haborted, hwaiting, hrunning⟩ :=
    Crew.finish_shift h.holds hstaffed hending hfinish
  obtain ⟨hsame, hcrew, huntil, htaken, haccepted⟩ := h.noted c' (.ended worker r ending)
  obtain ⟨hran, hstaging⟩ := note_ended { e with crew := some c' } worker r ending
  exact h.moved hsame hcrew huntil (haccepted.trans (List.append_nil _)) hdue hdesk haborted
    hholds hstaffed' (h.accounts.ends hstaging (htaken.trans (List.append_nil _)) hran hwaiting
      hrunning hcounts)

/-! ## 4. Both sides -/

/-- An action that belongs to a call: no other call begins, and the task ends by itself or with an
error. -/
def Action.IsOrdinary : Action → Prop
  | .ingest _ => False
  | .finish _ ending => ending ≠ .escaped
  | .read | .expire | .work _ => True

theorem work_same {worker : Nat} (hstep : e.work worker = some e') : SameCall e e' := by
  cases hcrew : e.crew with
  | none => simp [Engine.work, hcrew] at hstep
  | some c =>
    obtain ⟨-, -, -, -, hsame, -⟩ := of_work hcrew hstep
    exact hsame

theorem finish_same {worker : Nat} {ending : Ending} (hstep : e.finish worker ending = some e') :
    SameCall e e' := by
  cases hcrew : e.crew with
  | none => simp [Engine.finish, hcrew] at hstep
  | some c =>
    obtain ⟨-, -, -, -, hsame, -⟩ := of_finish hcrew hstep
    exact hsame

theorem recordRead_of_expire (hstep : e.expire = some e') : e.recordRead e' = none := by
  obtain ⟨call, frames, clean, ms, hi, -⟩ := of_expire hstep
  exact recordRead_of_stage hi nofun

/-- **Every step keeps the call going**, whoever takes it. -/
theorem Goes.next {a : Action} (h : Goes k produced e) (hk : k.Sound)
    (hroom : a = .read → e.Finds (k.room produced.length)) (ha : a.IsOrdinary)
    (hstep : e.next a = some e') : Brings k produced e e' := by
  obtain ⟨c, queued, ahead, h⟩ := h
  unfold Engine.next at hstep
  split at hstep
  · cases hstep
  cases a with
  | ingest source => exact absurd ha id
  | read => exact h.read hk (hroom rfl) hstep
  | expire => exact (h.expired hstep).brings (recordRead_of_expire hstep)
  | work worker =>
    exact (h.work hstep).brings (recordRead_of_same (work_same hstep).ingestion)
  | finish worker ending =>
    exact (h.finish ha hstep).brings (recordRead_of_same (finish_same hstep).ingestion)

end Intake.Engine
