/-
# A call that is under way

`Engine.Underway` says how an `IngestEngine` stands in the middle of a call of `Ingest`: which crew
there is and what it is like at this stage of the reading side (`Stage.desk`), which frames the
reader has taken and what it has ahead (`Call.Reads`, `Call.Placed`), and where the records are that
came of them (`Accounts`).

A step of the reading side either lets the records be (`Underway.turn`), or takes a content.  This
module has the steps that let them be and those of the workers; no step needs the others to stand
still.
-/
import Mathlib
import Intake.Proofs.Engine.Accounts
import Intake.Proofs.Frame.Calls

namespace Intake

namespace Engine

/-! ## 1. The crew at a stage -/

/-- What the crew is like at a stage of the reading side; `false` asks for nothing. -/
structure Desk where
  /-- How many workers are still to be hired, once they are counted. -/
  due : Option Nat
  /-- Nobody has marked the crew as started. -/
  fresh : Bool
  accepting : Bool
  /-- The queue is not closed. -/
  opened : Bool

/-- What the crew is like while records come. -/
def Desk.working : Desk := ⟨some 0, false, true, true⟩

/-- What the crew is like when no more records come. -/
def Desk.shut : Desk := ⟨some 0, false, false, false⟩

def Stage.desk : Stage → Desk
  | .visiting .markStarted => ⟨none, true, false, true⟩
  | .visiting .openIntake => ⟨none, false, false, true⟩
  | .visiting .countWorkers => ⟨none, false, true, true⟩
  | .visiting (.hire left) => ⟨some left, false, true, true⟩
  | .visiting .closeQueue => ⟨some 0, false, false, true⟩
  | .visiting (.await ..) | .visiting .stopIntake | .visiting .markInterrupted
  | .visiting .interruptQueue | .visiting (.returned _) => .shut
  | .visiting .announce | .visiting (.askIntake _) | .visiting (.offer _)
  | .visiting .countSubmitted | .visiting .closeIntake
  | .joining | .reading | .filling _ | .leaving => .working

/-- The record that the reading side has and brings to the crew. -/
def Stage.carried : Stage → List Record
  | .visiting v => v.job?.toList
  | .joining | .reading | .filling _ | .leaving => []

/-- How many of the records that were read the crew has not counted as brought. -/
def Stage.owed : Stage → Nat
  | .visiting (.askIntake _) | .visiting (.offer _) | .visiting .countSubmitted => 1
  | _ => 0

/-- How far the reading of the stream has come. -/
inductive Phase where
  /-- It stands in front of a frame. -/
  | between
  /-- It stands in front of the content of a frame. -/
  | inside (header : Frame.Header)
  /-- It has come to its end. -/
  | over

/-- A call does not interrupt its crew, and comes by what it joins only once. -/
def Stage.phase : Stage → Option Phase
  | .visiting .markStarted | .visiting .openIntake | .visiting .countWorkers
  | .visiting (.hire _) | .visiting .announce | .visiting (.askIntake _)
  | .visiting (.offer _) | .visiting .countSubmitted | .reading => some .between
  | .filling h => some (.inside h)
  | .leaving | .visiting .closeIntake | .visiting .closeQueue | .visiting (.await ..) => some .over
  | .joining | .visiting .stopIntake | .visiting .markInterrupted | .visiting .interruptQueue
  | .visiting (.returned _) => none

/-- What the crew is like in a call and behind it. -/
def deskOf : Option Ingestion → Desk
  | some i => i.stage.desk
  | none => .shut

def carriedBy : Option Ingestion → List Record
  | some i => i.stage.carried
  | none => []

def owedBy : Option Ingestion → Nat
  | some i => i.stage.owed
  | none => 0

/-- The crew is as it is expected to be. -/
structure Fits (c : Crew Record) (queued : List Record) (d : Desk) : Prop where
  attended : match d.due with
    | none => c.workers = [] ∧ c.alive = 0
    | some due => c.Staffed queued due
  fresh : d.fresh = true → c.started = false
  accepting : d.accepting = true → c.accepting = true
  opened : d.opened = true → c.queue.closed = false

/-! ## 2. The reading side -/

/-- A call, and what it began with. -/
structure Call where
  options : Options
  /-- The host without any of the contents. -/
  base : Host
  staging : Staging
  number : Nat
  limits : Frame.Limits
  /-- Whether another temporary file can be made once so many records were read. -/
  room : Nat → Bool
  source : Source
  /-- What the calls before came to. -/
  results : List Answer

/-- What a call comes to that was left like this. -/
def Answer.ofExit : Frame.Exit → Answer
  | .failed cause => .returned (decide (cause = .endOfStream))
  | .thrown => .threw

/-- A call that no exception leaves returns whether the stream came to a clean end. -/
theorem Answer.ofExit_of_ne {exit : Frame.Exit} (h : exit ≠ .thrown) :
    ofExit exit = .returned (decide (exit = .failed .endOfStream)) := by
  cases exit with
  | failed cause => simp [ofExit]
  | thrown => exact absurd rfl h

theorem Answer.ofExit_eq_true_iff (exit : Frame.Exit) :
    ofExit exit = .returned true ↔ exit = .failed .endOfStream := by
  cases exit with
  | failed cause => simp [ofExit]
  | thrown => simp [ofExit]

/-- The frame that a record was read from, with its content bytes. -/
def frameOf (p : Record × Bytes) : Bytes × Bytes := (p.1.metadata, p.2)

/-- A record that was read, with content bytes that can be read. -/
def shown (p : Record × Bytes) : Record × Except ReadFault Bytes := (p.1, .ok p.2)

namespace Call

variable (k : Call)

/-- What the call relies on. -/
structure Sound : Prop where
  threshold : k.limits.threshold = k.staging.threshold
  fits : k.staging.threshold ≤ k.staging.pool.bufferSize
  largest : k.limits.largest = Spill.room k.base.disk
  calm : k.staging.pool.free.interrupted = false

/-- The limits for the next frame once so many records were read. -/
def limitsAt (records : Nat) : Frame.Limits := k.limits.given (k.room records)

/-- What the call comes to in front of what is ahead. -/
def answer (records : Nat) (ahead : Bytes) : Answer :=
  .ofExit ((k.limitsAt records).stopCause k.source.failure.isSome ahead)

/-- The records that were read so far, each with its content bytes, and what is ahead. -/
structure Reads (produced : List (Record × Bytes)) (ahead : Bytes) : Prop where
  split : k.source.rest = Frame.encodeAll (produced.map frameOf) ++ ahead
  accepted : ∀ i p, produced[i]? = some p → (k.limitsAt i).Accepts (frameOf p)
  numbered : ∀ i p, produced[i]? = some p →
    p.1.id = UInt64.ofNat (2 * i) ∧ p.1.rawSize = UInt64.ofNat p.2.length

/-- A reader that has brought forth so many records and has the given bytes in front of it. -/
structure Faces (frames : Frame.Reader) (records : Nat) (rest : Bytes) : Prop where
  rest : frames.source.rest = rest
  failure : frames.source.failure = k.source.failure
  maxMetadata : frames.maxMetadata = k.limits.maxMetadata
  records : frames.records = UInt64.ofNat records

/-- The reader stands behind the header of a frame. -/
structure Entered (frames : Frame.Reader) (records : Nat) (ahead : Bytes) (h : Frame.Header) :
    Prop where
  faces : k.Faces frames records (ahead.drop (Frame.headerSize ahead))
  fits : Frame.MetadataFits (k.limitsAt records).maxMetadata ahead
  whole : Frame.headerSize ahead ≤ ahead.length
  header : h = Frame.headerAt ahead

/-- Where the reading side is, and what the call has come to if it is over. -/
def Placed (results : List Answer) (records : Nat) (ahead : Bytes) : Option Ingestion → Prop
  | none => (k.limitsAt records).Stuck ahead ∧ results = k.results ++ [k.answer records ahead]
  | some i => results = k.results ∧
    match i.stage.phase with
    | some .between => i.clean = false ∧ k.Faces i.frames records ahead
    | some (.inside h) => i.clean = false ∧ k.Entered i.frames records ahead h
    | some .over => (k.limitsAt records).Stuck ahead ∧ k.answer records ahead = .returned i.clean
    | none => False

end Call

theorem Call.Reads.produce {k : Call} {produced : List (Record × Bytes)} {ahead rest : Bytes}
    {f : Bytes × Bytes} {r : Record} (h : k.Reads produced ahead)
    (hleads : (k.limitsAt produced.length).Leads ahead f rest)
    (hid : r.id = UInt64.ofNat produced.length * 2)
    (hmetadata : r.metadata = f.1) (hsize : r.rawSize = UInt64.ofNat f.2.length) :
    k.Reads (produced ++ [(r, f.2)]) rest := by
  have hframe : frameOf (r, f.2) = f := by rw [frameOf, hmetadata]
  refine ⟨?_, ?_, ?_⟩
  · rw [h.split, List.map_append, Frame.encodeAll_append, List.append_assoc, List.map_singleton,
      hframe, hleads.2, Frame.encodeAll_cons]
    simp [Frame.encodeAll]
  · intro i p hp
    rcases getElem?_concat_cases hp with hp | ⟨rfl, rfl⟩
    · exact h.accepted i p hp
    · rw [hframe]
      exact hleads.1
  · intro i p hp
    rcases getElem?_concat_cases hp with hp | ⟨rfl, rfl⟩
    · exact h.numbered i p hp
    · refine ⟨?_, hsize⟩
      rw [hid, Nat.mul_comm, UInt64.ofNat_mul]
      rfl

/-! ## 3. The state of a call -/

/-- **How an engine stands in the middle of a call**, or when the call is over. -/
structure Underway (k : Call) (e : Engine) (c : Crew Record) (queued : List Record)
    (produced : List (Record × Bytes)) (ahead : Bytes) : Prop where
  crew : e.crew = some c
  call : e.call = k.number
  options : e.options = k.options
  unbroken : e.broken = false
  unaborted : c.aborted = false
  someone : c.workerCount ≠ 0
  calm : c.Calm
  holds : c.queue.Holds queued
  fits : Fits c queued (deskOf e.ingestion)
  accounts : Accounts k.base k.staging k.number e c (queued ++ carriedBy e.ingestion) produced
  accepted : e.acceptedIn k.number ++ carriedBy e.ingestion = produced.map Prod.fst
  submitted : c.submitted + UInt64.ofNat (owedBy e.ingestion) = UInt64.ofNat produced.length
  reads : k.Reads produced ahead
  placed : k.Placed e.results produced.length ahead e.ingestion
  calls : e.Until k.number

/-- The call is still under way, or is over, and these are the records that were read. -/
def Goes (k : Call) (produced : List (Record × Bytes)) (e : Engine) : Prop :=
  ∃ c queued ahead, Underway k e c queued produced ahead

variable {k : Call} {e e' : Engine} {c c' : Crew Record} {queued queued' : List Record}
  {produced : List (Record × Bytes)} {ahead : Bytes} {i : Ingestion}

/-- The workers have the same records, and have counted the same. -/
structure SameJobs (c c' : Crew Record) : Prop where
  waiting : c'.waiting = c.waiting
  running : c'.running = c.running
  completed : c'.completed = c.completed
  failed : c'.failed = c.failed
  aborted : c'.aborted = c.aborted
  workerCount : c'.workerCount = c.workerCount
  calm : c.Calm → c'.Calm

theorem SameJobs.refl (c : Crew Record) : SameJobs c c := ⟨rfl, rfl, rfl, rfl, rfl, rfl, id⟩

theorem sameJobs_desk (c : Crew Record) (started accepting closed : Bool) (alive : UInt32)
    (submitted : UInt64) (ring : Ring Record) :
    SameJobs c { c with
      started, accepting, alive, submitted, queue := { c.queue with ring, closed } } :=
  ⟨rfl, rfl, rfl, rfl, rfl, rfl, fun h => ⟨h.crew, h.queue⟩⟩

/-- What is done to neither the records nor the workers that have them. -/
structure Aside (k : Call) (e e' : Engine) (c c' : Crew Record) : Prop where
  call : e'.call = e.call
  options : e'.options = e.options
  broken : e'.broken = e.broken
  staging : e.staging.Noted e'.staging
  taken : e'.takenIn k.number = e.takenIn k.number
  ran : e'.ranIn k.number = e.ranIn k.number
  calls : e.Until k.number → e'.Until k.number
  jobs : SameJobs c c'

theorem aside_quiet {staging : Staging} (hnoted : e.staging.Noted staging) (hjobs : SameJobs c c')
    (progress : Progress) (crew : Option (Crew Record)) (ingestion : Option Ingestion)
    (results : List Answer) :
    Aside k e { e with staging, progress, crew, ingestion, results } c c' :=
  ⟨rfl, rfl, rfl, hnoted, rfl, rfl, id, hjobs⟩

theorem aside_noted {o : Occurrence Record} {staging : Staging} (hcall : e.call = k.number)
    (ho : o.taken? = none) (hnoted : e.staging.Noted staging) (hjobs : SameJobs c c')
    (crew : Option (Crew Record)) (ingestion : Option Ingestion) :
    Aside k e { e with staging, crew, ingestion, past := (e.call, o) :: e.past } c c' := by
  refine ⟨rfl, rfl, rfl, hnoted, ?_, rfl, ?_, hjobs⟩
  · have htaken := takenIn_of_past (o := o) hcall
      (rfl : ({ e with staging, crew, ingestion, past := (e.call, o) :: e.past } : Engine).past = _)
    rw [htaken, ho, Option.toList_none, List.append_nil]
  · intro huntil
    refine ⟨huntil.1, ?_⟩
    intro x hx
    rcases List.mem_cons.mp hx with rfl | hx
    · exact hcall.le
    · exact huntil.2 x hx

/-- **A turn that lets the records be.**  The reading side goes on, and hands a record over at most.
-/
theorem Underway.turn (h : Underway k e c queued produced ahead) (haside : Aside k e e' c c')
    (hcrew : e'.crew = some c') (hholds : c'.queue.Holds queued') {i i' : Option Ingestion}
    (hi : e.ingestion = i) (hi' : e'.ingestion = i')
    (hinflow : queued' ++ carriedBy i' = queued ++ carriedBy i)
    (haccepted : e'.acceptedIn k.number ++ carriedBy i' = e.acceptedIn k.number ++ carriedBy i)
    (hfits : Fits c' queued' (deskOf i'))
    (hsubmitted : c'.submitted + UInt64.ofNat (owedBy i')
      = c.submitted + UInt64.ofNat (owedBy i))
    (hplaced : k.Placed e'.results produced.length ahead i') :
    Underway k e' c' queued' produced ahead := by
  subst hi hi'
  have hjobs := haside.jobs
  refine ⟨hcrew, haside.call.trans h.call, haside.options.trans h.options,
    haside.broken.trans h.unbroken, hjobs.aborted.trans h.unaborted, ?_, hjobs.calm h.calm, hholds,
    hfits, ?_, haccepted.trans h.accepted, hsubmitted.trans h.submitted, h.reads, hplaced,
    haside.calls h.calls⟩
  · rw [hjobs.workerCount]
    exact h.someone
  · refine h.accounts.shift haside.staging ?_ haside.ran ?_ ?_ hjobs.completed hjobs.failed
    · rw [haside.taken, hinflow]
    · rw [hjobs.waiting, hinflow]
    · rw [hjobs.running]

/-! ## 4. The reading side and the crew -/

/-- The engine after a step of a visit. -/
def visited (e : Engine) (i : Ingestion) (s : Crew.Visit.Step Record) : Engine :=
  match s.visit.reply? with
  | some r => (({ e with crew := some s.crew }).note? s.occurrence).replied i r
  | none => (({ e with crew := some s.crew }).note? s.occurrence).enter i (.visiting s.visit)

theorem visit_eq (hcrew : e.crew = some c) (v : Crew.Visit Record) :
    e.visit i v = (v.step c).map (e.visited i) := by
  simp only [visit, hcrew]
  rfl

section Visits

variable {call : Nat} {frames : Frame.Reader} {clean : Bool}

theorem Underway.at_visit {v : Crew.Visit Record} (h : Underway k e c queued produced ahead)
    (hi : e.ingestion = some ⟨call, frames, clean, .visiting v⟩) :
    Fits c queued (Stage.visiting v).desk ∧
      k.Placed e.results produced.length ahead (some ⟨call, frames, clean, .visiting v⟩) := by
  have hfits := h.fits
  have hplaced := h.placed
  rw [hi] at hfits hplaced
  exact ⟨hfits, hplaced⟩

theorem Underway.markStarted (h : Underway k e c queued produced ahead)
    (hi : e.ingestion = some ⟨call, frames, clean, .visiting .markStarted⟩) :
    Goes k produced (e.visited ⟨call, frames, clean, .visiting .markStarted⟩
      ⟨.openIntake, c.markStarted, none⟩) := by
  obtain ⟨hfits, hplaced⟩ := h.at_visit hi
  exact ⟨c.markStarted, _, _, h.turn
    (aside_quiet (.refl _) (sameJobs_desk c _ _ _ _ _ _) _ _ _ _)
    rfl h.holds hi rfl rfl rfl ⟨hfits.attended, nofun, nofun, hfits.opened⟩ rfl hplaced⟩

theorem Underway.openIntake (h : Underway k e c queued produced ahead)
    (hi : e.ingestion = some ⟨call, frames, clean, .visiting .openIntake⟩) :
    Goes k produced (e.visited ⟨call, frames, clean, .visiting .openIntake⟩
      ⟨.countWorkers, c.openIntake, none⟩) := by
  obtain ⟨hfits, hplaced⟩ := h.at_visit hi
  exact ⟨c.openIntake, _, _, h.turn
    (aside_quiet (.refl _) (sameJobs_desk c _ _ _ _ _ _) _ _ _ _)
    rfl h.holds hi rfl rfl rfl ⟨hfits.attended, nofun, fun _ => rfl, hfits.opened⟩ rfl hplaced⟩

theorem Underway.countWorkers (h : Underway k e c queued produced ahead)
    (hi : e.ingestion = some ⟨call, frames, clean, .visiting .countWorkers⟩) :
    Goes k produced (e.visited ⟨call, frames, clean, .visiting .countWorkers⟩
      ⟨.hire c.workerCount.toNat, c.countWorkers, none⟩) := by
  obtain ⟨hfits, hplaced⟩ := h.at_visit hi
  obtain ⟨hnobody, -⟩ := hfits.attended
  exact ⟨c.countWorkers, _, _, h.turn
    (aside_quiet (.refl _) (sameJobs_desk c _ _ _ _ _ _) _ _ _ _)
    rfl h.holds hi rfl rfl rfl
    ⟨Crew.staffed_countWorkers hnobody, nofun, hfits.accepting, hfits.opened⟩ rfl hplaced⟩

theorem Underway.hire {left : Nat} (h : Underway k e c queued produced ahead)
    (hi : e.ingestion = some ⟨call, frames, clean, .visiting (.hire (left + 1))⟩) :
    Goes k produced (e.visited ⟨call, frames, clean, .visiting (.hire (left + 1))⟩
      ⟨.hire left, c.hire, none⟩) := by
  obtain ⟨hfits, hplaced⟩ := h.at_visit hi
  have hbefore : c.Staffed queued (left + 1) := hfits.attended
  obtain ⟨hstaffed, hwaiting, hrunning⟩ := hbefore.hire
  exact ⟨c.hire, _, _, h.turn
    (aside_quiet (.refl _)
      ⟨hwaiting, hrunning, rfl, rfl, rfl, rfl, fun h => ⟨h.crew, h.queue⟩⟩ _ _ _ _)
    rfl h.holds hi rfl rfl rfl ⟨hstaffed, nofun, hfits.accepting, hfits.opened⟩ rfl hplaced⟩

theorem Underway.hired (h : Underway k e c queued produced ahead)
    (hi : e.ingestion = some ⟨call, frames, clean, .visiting (.hire 0)⟩) :
    Goes k produced (e.visited ⟨call, frames, clean, .visiting (.hire 0)⟩ ⟨.announce, c, none⟩) := by
  obtain ⟨hfits, hplaced⟩ := h.at_visit hi
  exact ⟨c, _, _, h.turn
    (aside_quiet (.refl _) (.refl c) _ _ _ _)
    rfl h.holds hi rfl rfl rfl hfits rfl hplaced⟩

theorem Underway.announce (h : Underway k e c queued produced ahead)
    (hi : e.ingestion = some ⟨call, frames, clean, .visiting .announce⟩) :
    Goes k produced (e.visited ⟨call, frames, clean, .visiting .announce⟩
      ⟨.returned .started, c, some (.started c.workerCount)⟩) := by
  obtain ⟨hfits, hplaced⟩ := h.at_visit hi
  have haccepted : (e.visited ⟨call, frames, clean, .visiting .announce⟩
      ⟨.returned .started, c, some (.started c.workerCount)⟩).acceptedIn k.number
      = e.acceptedIn k.number ++ [] := acceptedIn_of_past (o := .started c.workerCount) h.call rfl
  exact ⟨c, _, _, h.turn
    (aside_noted h.call rfl (Staging.noted_report _ _) (.refl c) _ _)
    rfl h.holds hi rfl rfl ((List.append_nil _).trans haccepted) hfits rfl hplaced⟩

theorem Underway.askIntake {r : Record} (h : Underway k e c queued produced ahead)
    (hi : e.ingestion = some ⟨call, frames, clean, .visiting (.askIntake r)⟩) :
    c.accepting = true ∧ Goes k produced (e.visited ⟨call, frames, clean, .visiting (.askIntake r)⟩
      ⟨.offer r, c, none⟩) := by
  obtain ⟨hfits, hplaced⟩ := h.at_visit hi
  exact ⟨hfits.accepting rfl, c, _, _, h.turn
    (aside_quiet (.refl _) (.refl c) _ _ _ _)
    rfl h.holds hi rfl rfl rfl hfits rfl hplaced⟩

theorem Underway.offer {r : Record} (h : Underway k e c queued produced ahead)
    (hi : e.ingestion = some ⟨call, frames, clean, .visiting (.offer r)⟩)
    (hput : c.offer r = .gives c') :
    Goes k produced (e.visited ⟨call, frames, clean, .visiting (.offer r)⟩
      ⟨.countSubmitted, c', some (.accepted r)⟩) := by
  obtain ⟨hfits, hplaced⟩ := h.at_visit hi
  have hstaffed : c.Staffed queued 0 := hfits.attended
  obtain ⟨ring, rfl, hholds, hstaffed'⟩ := hstaffed.offer h.holds (hfits.opened rfl) hput
  have haccepted : (e.visited ⟨call, frames, clean, .visiting (.offer r)⟩
      ⟨.countSubmitted, { c with queue := { c.queue with ring } }, some (.accepted r)⟩).acceptedIn
        k.number = e.acceptedIn k.number ++ [r] :=
    acceptedIn_of_past (o := .accepted r) h.call rfl
  exact ⟨{ c with queue := { c.queue with ring } }, queued ++ [r], _, h.turn
    (aside_noted h.call (o := .accepted r) rfl (.refl _) (sameJobs_desk c _ _ _ _ _ _) _ _)
    rfl hholds hi rfl (List.append_nil _) ((List.append_nil _).trans haccepted)
    ⟨hstaffed', nofun, hfits.accepting, hfits.opened⟩ rfl hplaced⟩

theorem Underway.countSubmitted (h : Underway k e c queued produced ahead)
    (hi : e.ingestion = some ⟨call, frames, clean, .visiting .countSubmitted⟩) :
    Goes k produced (e.visited ⟨call, frames, clean, .visiting .countSubmitted⟩
      ⟨.returned .accepted, c.countSubmitted, none⟩) := by
  obtain ⟨hfits, hplaced⟩ := h.at_visit hi
  have hstaffed : c.Staffed queued 0 := hfits.attended
  exact ⟨c.countSubmitted, _, _, h.turn
    (aside_quiet (.refl _) (sameJobs_desk c _ _ _ _ _ _) _ _ _ _)
    rfl h.holds hi rfl rfl rfl
    ⟨⟨hstaffed.hired, hstaffed.alive, hstaffed.leaving⟩, nofun, hfits.accepting, hfits.opened⟩
    (UInt64.add_zero _) hplaced⟩

theorem Underway.closeIntake (h : Underway k e c queued produced ahead)
    (hi : e.ingestion = some ⟨call, frames, clean, .visiting .closeIntake⟩) :
    Goes k produced (e.visited ⟨call, frames, clean, .visiting .closeIntake⟩
      ⟨.closeQueue, c.closeIntake, none⟩) := by
  obtain ⟨hfits, hplaced⟩ := h.at_visit hi
  have hstaffed : c.Staffed queued 0 := hfits.attended
  exact ⟨c.closeIntake, _, _, h.turn
    (aside_quiet (.refl _) (sameJobs_desk c _ _ _ _ _ _) _ _ _ _)
    rfl h.holds hi rfl rfl rfl
    ⟨⟨hstaffed.hired, hstaffed.alive, hstaffed.leaving⟩, nofun, nofun, hfits.opened⟩ rfl hplaced⟩

theorem Underway.closeQueue (h : Underway k e c queued produced ahead)
    (hi : e.ingestion = some ⟨call, frames, clean, .visiting .closeQueue⟩) :
    Goes k produced (e.visited ⟨call, frames, clean, .visiting .closeQueue⟩
      ⟨.returned .closed, c.closeQueue, none⟩) := by
  obtain ⟨hfits, hplaced⟩ := h.at_visit hi
  have hstaffed : c.Staffed queued 0 := hfits.attended
  exact ⟨c.closeQueue, _, _, h.turn
    (aside_quiet (.refl _) (sameJobs_desk c _ _ _ _ _ _) _ _ _ _)
    rfl h.holds hi rfl rfl rfl
    ⟨⟨hstaffed.hired, hstaffed.alive, fun w hw hgone => ⟨rfl, (hstaffed.leaving w hw hgone).2⟩⟩,
      nofun, nofun, nofun⟩ rfl hplaced⟩

/-- The wait for the workers is over, one way or the other, and the call returns. -/
theorem Underway.awaited {ms : UInt64} {expired inTime : Bool}
    (h : Underway k e c queued produced ahead)
    (hi : e.ingestion = some ⟨call, frames, clean, .visiting (.await ms expired)⟩) :
    Goes k produced (e.visited ⟨call, frames, clean, .visiting (.await ms expired)⟩
      ⟨.returned (.awaited inTime), c, none⟩) := by
  obtain ⟨hfits, hresults, hstuck, hclean⟩ := h.at_visit hi
  have hstaffed : c.Staffed queued 0 := hfits.attended
  refine ⟨c, _, _, h.turn
    (aside_quiet (Staging.noted_report _ _) (.refl c) _ _ _ _)
    rfl h.holds hi rfl rfl rfl ⟨hstaffed, nofun, nofun, nofun⟩ rfl ⟨hstuck, ?_⟩⟩
  show e.results ++ [.returned clean] = _
  rw [hresults, hclean]

/-- **Every step of a visit to the crew** keeps the call going. -/
theorem Underway.visit {v : Crew.Visit Record} (h : Underway k e c queued produced ahead)
    (hi : e.ingestion = some ⟨call, frames, clean, .visiting v⟩)
    (hstep : e.visit ⟨call, frames, clean, .visiting v⟩ v = some e') : Goes k produced e' := by
  obtain ⟨hfits, hplaced⟩ := h.at_visit hi
  rw [visit_eq h.crew, Option.map_eq_some_iff] at hstep
  obtain ⟨s, hs, rfl⟩ := hstep
  cases v with
  | markStarted =>
    rw [Crew.Visit.step, hfits.fresh rfl] at hs
    obtain rfl := Option.some.inj hs
    exact h.markStarted hi
  | openIntake =>
    obtain rfl := Option.some.inj hs
    exact h.openIntake hi
  | countWorkers =>
    obtain rfl := Option.some.inj hs
    exact h.countWorkers hi
  | hire left =>
    cases left with
    | zero =>
      obtain rfl := Option.some.inj hs
      exact h.hired hi
    | succ left =>
      obtain rfl := Option.some.inj hs
      exact h.hire hi
  | announce =>
    obtain rfl := Option.some.inj hs
    exact h.announce hi
  | askIntake r =>
    obtain ⟨haccepting, hgoes⟩ := h.askIntake hi
    rw [Crew.Visit.step, if_pos haccepting] at hs
    obtain rfl := Option.some.inj hs
    exact hgoes
  | offer r =>
    rw [Crew.Visit.step] at hs
    cases hput : c.offer r with
    | waits => simp [hput] at hs
    | fails cause =>
      -- Nobody but the reading side closes the queue, and nobody interrupts it.
      exact absurd hput (h.calm.offer_not_fails (hfits.opened rfl) r cause)
    | gives c' =>
      simp only [hput, Option.some.injEq] at hs
      subst hs
      exact h.offer hi hput
  | countSubmitted =>
    obtain rfl := Option.some.inj hs
    exact h.countSubmitted hi
  | closeIntake =>
    obtain rfl := Option.some.inj hs
    exact h.closeIntake hi
  | closeQueue =>
    obtain rfl := Option.some.inj hs
    exact h.closeQueue hi
  | await ms expired =>
    rw [Crew.Visit.step] at hs
    split at hs
    · obtain rfl := Option.some.inj hs
      exact h.awaited hi
    · split at hs
      · obtain rfl := Option.some.inj hs
        exact h.awaited hi
      · cases hs
  | stopIntake => exact absurd hplaced.2 id
  | markInterrupted => exact absurd hplaced.2 id
  | interruptQueue => exact absurd hplaced.2 id
  | returned reply => exact absurd hplaced.2 id

end Visits

end Engine

end Intake
