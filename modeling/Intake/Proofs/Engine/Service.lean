/-
# An engine in service

An `IngestEngine` that was made takes one stream in after the other (`Service`), and a call need not
wait until the workers of the call before are done: it joins them first.  Whatever the streams bring
and however the disk fares, the engine has a crew in the state that fits the stage of the reading
side, and the staging area houses the contents of the records that are in the queue, with a worker
or with the reading side, and nothing else (`Manned`); before the first crew is hired it houses
nothing (`Unmanned`).

Every step of either side keeps this (`Orderly.next`).  Which frames the records are made of is not
asked for here, so nothing has to be known of the stream, and no room for temporary files is needed.
-/
import Mathlib
import Intake.Proofs.Crew.Visiting
import Intake.Proofs.Engine.Contract

namespace Intake.Engine

variable {host : Host} {o : Options} {e e' : Engine} {c c' : Crew Record}
  {queued queued' : List Record}

/-! ## 1. What can come about -/

/-- What can come about of an engine that was made, in whatever order streams are brought and the
reading side and the workers take their steps.  The task ends with every record, by itself or with
an error. -/
inductive Service (host : Host) (o : Options) : Engine → Prop where
  | made {e : Engine} (parts : Collaborators) :
      (create host o parts).result = .ok e → Service host o e
  | next {e e' : Engine} {a : Action} :
      Service host o e → (∀ i, a ≠ .finish i .escaped) → e.next a = some e' → Service host o e'

/-- The stages that a call comes by.  It never interrupts its crew, and does not stay at the end of
a visit. -/
def Stage.isUsual : Stage → Bool
  | .visiting .stopIntake | .visiting .markInterrupted | .visiting .interruptQueue
  | .visiting (.returned _) => false
  | .visiting .markStarted | .visiting .openIntake | .visiting .countWorkers
  | .visiting (.hire _) | .visiting .announce | .visiting (.askIntake _) | .visiting (.offer _)
  | .visiting .countSubmitted | .visiting .closeIntake | .visiting .closeQueue
  | .visiting (.await ..) | .joining | .reading | .filling _ | .leaving => true

/-- The stages at which the reading side waits for the workers to leave. -/
def Stage.isBehind : Stage → Bool
  | .joining | .visiting (.await ..) => true
  | .visiting _ | .reading | .filling _ | .leaving => false

/-- The crew was told that nothing more comes, and there is no other crew yet. -/
def behind : Option Ingestion → Bool
  | some i => i.stage.isBehind
  | none => true

/-- What the crew is like in a call and behind it; while the workers of the call before are waited
for, it is the crew of that call. -/
def deskAt (i : Option Ingestion) : Desk := bif behind i then .shut else deskOf i

/-! ## 2. An engine in order -/

/-- An exception has left the last call, and nobody has told its crew that nothing more comes. -/
def IsAbandoned (e : Engine) : Prop := e.ingestion = none ∧ e.results.getLast? = some .threw

/-- What holds of an engine in service, with a crew or without. -/
structure Steadfast (host : Host) (o : Options) (e : Engine) : Prop where
  options : e.options = o
  unbroken : e.broken = false
  alike : (ofOptions host o).staging.Alike e.staging
  usual : (e.ingestion.all fun i => i.stage.isUsual) = true

theorem Steadfast.threshold_le (h : Steadfast host o e) :
    e.staging.threshold ≤ e.staging.pool.bufferSize := by
  rw [h.alike.threshold, h.alike.pool.bufferSize]
  exact UInt64.le_refl _

/-- No crew was hired yet, and there are no records. -/
structure Unmanned (host : Host) (o : Options) (e : Engine) : Prop extends Steadfast host o e where
  crew : e.crew = none
  joining : ∀ i, e.ingestion = some i → i.stage = .joining
  houses : e.staging.Houses (ofOptions host o).staging.host []

/-- **There is a crew**, with these records in its queue, and it is what the stage of the reading
side asks for. -/
structure Manned (host : Host) (o : Options) (e : Engine) (c : Crew Record) (queued : List Record) :
    Prop extends Steadfast host o e where
  crew : e.crew = some c
  unaborted : c.aborted = false
  workerCount : c.workerCount = o.workerCount
  capacity : c.queue.capacity = o.workerCount
  calm : c.Calm
  holds : c.queue.Holds queued
  fits : Fits c queued (deskAt e.ingestion)
  closed : behind e.ingestion = true → c.queue.closed = true ∨ e.IsAbandoned
  houses : e.staging.Houses (ofOptions host o).staging.host
    ((c.running ++ (c.waiting ++ (queued ++ carriedBy e.ingestion))).map Record.content)

/-- With a crew or without, the engine is as it should be. -/
def Orderly (host : Host) (o : Options) (e : Engine) : Prop :=
  Unmanned host o e ∨ ∃ c queued, Manned host o e c queued

theorem unmanned_ofOptions (hfew : FewWorkers o) : Unmanned host o (ofOptions host o) := by
  have hrest : AtRest host o (ofOptions host o) := atRest_ofOptions hfew
  refine ⟨⟨rfl, rfl, .refl _, rfl⟩, rfl, ?_, hrest.houses⟩
  intro i hi
  rw [hrest.idle] at hi
  cases hi

/-! ## 3. The reading side and the crew -/

/-- What the reading side does that lets the records be. -/
structure Turn (e e' : Engine) (c c' : Crew Record) : Prop where
  options : e'.options = e.options
  broken : e'.broken = e.broken
  staging : e.staging.Noted e'.staging
  jobs : SameJobs c c'
  capacity : c'.queue.capacity = c.queue.capacity

theorem turn_quiet {staging : Staging} (hnoted : e.staging.Noted staging) (progress : Progress)
    (crew : Option (Crew Record)) (ingestion : Option Ingestion) (results : List Answer) :
    Turn e { e with staging, progress, crew, ingestion, results } c c :=
  ⟨rfl, rfl, hnoted, .refl c, rfl⟩

/-- The visitor sets something about the crew, or puts a record into its queue. -/
theorem turn_desk (c : Crew Record) (started accepting closed : Bool) (alive : UInt32)
    (submitted : UInt64) (ring : Ring Record) (hring : ring.capacity = c.queue.capacity)
    (crew : Option (Crew Record)) (ingestion : Option Ingestion)
    (past : List (Nat × Occurrence Record)) :
    Turn e { e with crew, ingestion, past } c { c with
      started, accepting, alive, submitted, queue := { c.queue with ring, closed } } :=
  ⟨rfl, rfl, .refl _, sameJobs_desk c _ _ _ _ _ _, hring⟩

theorem unasked {p : Prop} (h : false = true) : p :=
  absurd h Bool.false_ne_true

/-- **A turn that lets the records be.**  The reading side goes on, and hands a record over at most.
-/
theorem Manned.turn (h : Manned host o e c queued) (hturn : Turn e e' c c')
    (hcrew : e'.crew = some c') (hholds : c'.queue.Holds queued') {i i' : Option Ingestion}
    (hi : e.ingestion = i) (hi' : e'.ingestion = i')
    (hinflow : queued' ++ carriedBy i' = queued ++ carriedBy i)
    (husual : (i'.all fun j => j.stage.isUsual) = true)
    (hfits : Fits c' queued' (deskAt i'))
    (hclosed : behind i' = true → c'.queue.closed = true ∨ e'.IsAbandoned) :
    Manned host o e' c' queued' := by
  subst hi hi'
  have hjobs := hturn.jobs
  refine ⟨⟨hturn.options.trans h.options, hturn.broken.trans h.unbroken,
    hturn.staging.alike h.alike, husual⟩, hcrew, hjobs.aborted.trans h.unaborted,
    hjobs.workerCount.trans h.workerCount, hturn.capacity.trans h.capacity, hjobs.calm h.calm,
    hholds, hfits, hclosed, ?_⟩
  rw [hjobs.running, hjobs.waiting, hinflow]
  exact hturn.staging.houses h.houses

theorem Manned.closed_of_some {i : Ingestion} (h : Manned host o e c queued)
    (hi : e.ingestion = some i) (hbehind : i.stage.isBehind = true) : c.queue.closed = true := by
  refine (h.closed ?_).resolve_right ?_
  · rw [hi]
    exact hbehind
  · rintro ⟨hnone, -⟩
    cases hi.symm.trans hnone

section Visits

variable {call : Nat} {frames : Frame.Reader} {clean : Bool}

/-- **Every step of a visit to the crew** keeps the engine in order.  The visitor never finds the
crew started or shut, as nobody else starts it or shuts it. -/
theorem Manned.visited {v : Crew.Visit Record} {s : Crew.Visit.Step Record}
    (h : Manned host o e c queued)
    (hi : e.ingestion = some ⟨call, frames, clean, .visiting v⟩) (hs : Crew.Stride c v s) :
    ∃ c' queued', Manned host o (e.visited ⟨call, frames, clean, .visiting v⟩ s) c' queued' := by
  have hfits := h.fits
  have husual := h.usual
  rw [hi] at hfits husual
  cases hs with
  | isStarted hstarted =>
    have hfresh : c.started = false := hfits.fresh rfl
    rw [hfresh] at hstarted
    cases hstarted
  | starts _ =>
    exact ⟨_, _, h.turn (turn_desk c _ _ _ _ _ _ rfl _ _ _) rfl h.holds hi rfl rfl rfl
      ⟨hfits.attended, unasked, unasked, hfits.opened⟩ unasked⟩
  | opens =>
    exact ⟨_, _, h.turn (turn_desk c _ _ _ _ _ _ rfl _ _ _) rfl h.holds hi rfl rfl rfl
      ⟨hfits.attended, unasked, fun _ => rfl, hfits.opened⟩ unasked⟩
  | counts =>
    obtain ⟨hnobody, -⟩ := hfits.attended
    exact ⟨_, _, h.turn (turn_desk c _ _ _ _ _ _ rfl _ _ _) rfl h.holds hi rfl rfl rfl
      ⟨Crew.staffed_countWorkers hnobody, unasked, hfits.accepting, hfits.opened⟩ unasked⟩
  | hires left =>
    have hbefore : c.Staffed queued (left + 1) := hfits.attended
    obtain ⟨hstaffed, hwaiting, hrunning⟩ := hbefore.hire
    exact ⟨_, _, h.turn ⟨rfl, rfl, .refl _,
        ⟨hwaiting, hrunning, rfl, rfl, rfl, rfl, fun h => ⟨h.crew, h.queue⟩⟩, rfl⟩
      rfl h.holds hi rfl rfl rfl ⟨hstaffed, unasked, hfits.accepting, hfits.opened⟩ unasked⟩
  | hiredAll =>
    exact ⟨_, _, h.turn (turn_quiet (.refl _) _ _ _ _) rfl h.holds hi rfl rfl rfl hfits unasked⟩
  | announces =>
    exact ⟨_, _, h.turn ⟨rfl, rfl, Staging.noted_report _ _, .refl c, rfl⟩ rfl h.holds hi rfl rfl
      rfl hfits unasked⟩
  | comesIn r _ =>
    exact ⟨_, _, h.turn (turn_quiet (.refl _) _ _ _ _) rfl h.holds hi rfl rfl rfl hfits unasked⟩
  | keptOut r hshut =>
    have haccepting : c.accepting = true := hfits.accepting rfl
    rw [haccepting] at hshut
    cases hshut
  | queues r queue hput =>
    have hstaffed : c.Staffed queued 0 := hfits.attended
    have hoffer : c.offer r = .gives { c with queue } := by
      rw [Crew.offer, hput]
      rfl
    obtain ⟨-, -, -, hstaffed'⟩ := hstaffed.offer h.holds (hfits.opened rfl) hoffer
    obtain ⟨hholds, -, rfl⟩ := h.holds.of_put_gives hput
    exact ⟨{ c with queue := { c.queue with ring := c.queue.ring.push r } }, queued ++ [r],
      h.turn (turn_desk c _ _ _ _ _ (c.queue.ring.push r) rfl _ _ _) rfl hholds hi rfl
        (List.append_nil _) rfl ⟨hstaffed', unasked, hfits.accepting, hfits.opened⟩ unasked⟩
  | refused r cause hput =>
    exact absurd hput (Channel.put_not_fails (hfits.opened rfl) h.calm.queue)
  | counted =>
    have hstaffed : c.Staffed queued 0 := hfits.attended
    exact ⟨_, _, h.turn (turn_desk c _ _ _ _ _ _ rfl _ _ _) rfl h.holds hi rfl rfl rfl
      ⟨⟨hstaffed.hired, hstaffed.alive, hstaffed.leaving⟩, unasked, hfits.accepting, hfits.opened⟩
      unasked⟩
  | closesIntake =>
    have hstaffed : c.Staffed queued 0 := hfits.attended
    exact ⟨_, _, h.turn (turn_desk c _ _ _ _ _ _ rfl _ _ _) rfl h.holds hi rfl rfl rfl
      ⟨⟨hstaffed.hired, hstaffed.alive, hstaffed.leaving⟩, unasked, unasked, hfits.opened⟩ unasked⟩
  | closesQueue =>
    have hstaffed : c.Staffed queued 0 := hfits.attended
    exact ⟨_, _, h.turn (turn_desk c _ _ _ _ _ _ rfl _ _ _) rfl h.holds hi rfl rfl rfl
      ⟨⟨hstaffed.hired, hstaffed.alive,
        fun w hw hgone => ⟨rfl, (hstaffed.leaving w hw hgone).2⟩⟩, unasked, unasked, unasked⟩
      fun _ => Or.inl rfl⟩
  | inTime ms expired _ =>
    exact ⟨_, _, h.turn (turn_quiet (Staging.noted_report _ _) _ _ _ _) rfl h.holds hi rfl rfl rfl
      hfits fun _ => Or.inl (h.closed_of_some hi rfl)⟩
  | tooLate ms =>
    exact ⟨_, _, h.turn (turn_quiet (Staging.noted_report _ _) _ _ _ _) rfl h.holds hi rfl rfl rfl
      hfits fun _ => Or.inl (h.closed_of_some hi rfl)⟩
  | stopsIntake => cases husual
  | marks => cases husual
  | interrupts => cases husual

/-! ## 4. The reading side and the stream -/

/-- Reading a header leaves the staging area as it is, but for the log.  If an exception leaves the
call, the crew stays as it was. -/
theorem Manned.readHeader (h : Manned host o e c queued)
    (hi : e.ingestion = some ⟨call, frames, clean, .reading⟩) :
    Manned host o (e.readHeader ⟨call, frames, clean, .reading⟩) c queued := by
  have hfits := h.fits
  rw [hi] at hfits
  have hcases := Frame.Session.readHeader_cases
    (s := e.session ⟨call, frames, clean, .reading⟩)
    (l := { limitsOf host o with maxMetadata := frames.maxMetadata }) rfl
  rcases hcases with ⟨t, hheader, hmoved, -, -⟩ | ⟨t, n, m, hheader, hmoved, -, -, -⟩
  · simp only [Engine.readHeader, hheader]
    exact h.turn (turn_quiet hmoved.staging _ _ _ _) h.crew h.holds hi rfl rfl rfl hfits unasked
  · cases hstop : Frame.Limits.stopCause _ _ _ with
    | failed cause =>
      rw [hstop] at hheader
      obtain ⟨staging, hnoted, hended⟩ :=
        readingEnded_eq (e.resume t) ⟨call, t.reader, clean, .reading⟩ cause
      simp only [Engine.readHeader, hheader, hended]
      exact h.turn (turn_quiet (Staging.Noted.trans hmoved.staging hnoted) _ _ _ _) h.crew h.holds
        hi rfl rfl rfl hfits unasked
    | thrown =>
      rw [hstop] at hheader
      simp only [Engine.readHeader, hheader]
      exact h.turn (turn_quiet hmoved.staging _ _ _ _) h.crew h.holds hi rfl rfl rfl
        ⟨hfits.attended, unasked, unasked, unasked⟩
        fun _ => Or.inr ⟨rfl, List.getLast?_concat⟩

theorem Manned.reads {i : Ingestion} (h : Manned host o e c queued) (hcrew : e'.crew = e.crew)
    (hoptions : e'.options = e.options) (hbroken : e'.broken = e.broken)
    (halike : e.staging.Alike e'.staging) (hi : e'.ingestion = some i)
    (husual : i.stage.isUsual = true) (hbehind : i.stage.isBehind = false)
    (hfits : Fits c queued i.stage.desk)
    (hhouses : e'.staging.Houses (ofOptions host o).staging.host
      ((c.running ++ (c.waiting ++ (queued ++ i.stage.carried))).map Record.content)) :
    Manned host o e' c queued := by
  refine ⟨⟨hoptions.trans h.options, hbroken.trans h.unbroken, h.alike.trans halike, ?_⟩,
    hcrew.trans h.crew, h.unaborted, h.workerCount, h.capacity, h.calm, h.holds, ?_, ?_, ?_⟩
  · rw [hi]
    exact husual
  · rw [hi, deskAt, behind, hbehind]
    exact hfits
  · rw [hi, behind, hbehind]
    exact unasked
  · rw [hi]
    exact hhouses

/-- **Taking a content** adds it to what the staging area houses, or ends the reading. -/
theorem Manned.fill {header : Frame.Header} (h : Manned host o e c queued)
    (hi : e.ingestion = some ⟨call, frames, clean, .filling header⟩)
    (hstep : e.fill ⟨call, frames, clean, .filling header⟩ header = some e') :
    Manned host o e' c queued := by
  have hfits := h.fits
  have hhouses := h.houses
  have hnothing : carriedBy (some ⟨call, frames, clean, .filling header⟩) = [] := rfl
  rw [hi] at hfits
  rw [hi, hnothing, List.append_nil] at hhouses
  cases hd : e.staging.materialize frames.source header.rawSize with
  | waits => simp [Engine.fill, session, Frame.Session.readContent, hd] at hstep
  | overflows => exact absurd hd (Staging.materialize_not_overflows h.threshold_le _ _)
  | delivers d =>
    obtain ⟨hholds, hleaves⟩ := Staging.materialize_holds hhouses hd
    unfold Staging.Holds at hholds
    obtain ⟨t, hreceived, ⟨content, hc, -, hread⟩ | ⟨cause, hc, -, hread⟩⟩ :=
      Frame.Session.readContent_of_delivers
        (s := e.session ⟨call, frames, clean, .filling header⟩) (h := header) hd
    · simp only [Engine.fill, hread, Option.some.injEq] at hstep
      subst hstep
      rw [hc] at hholds
      have hnoted : d.staging.Noted t.staging := hreceived.staging
      exact h.reads rfl rfl rfl (hnoted.alike hleaves.alike) rfl rfl rfl hfits
        ((hnoted.houses hholds).perm (live_concat _ _ _ ⟨_, _, _, content⟩).symm)
    · obtain ⟨staging, hnoted, hended⟩ :=
        readingEnded_eq (e.resume t) ⟨call, t.reader, clean, .filling header⟩ cause
      simp only [Engine.fill, hread, hended, Option.some.injEq] at hstep
      subst hstep
      rw [hc] at hholds
      have hnoted' : d.staging.Noted staging := Staging.Noted.trans hreceived.staging hnoted
      refine h.reads rfl rfl rfl (hnoted'.alike hleaves.alike) rfl rfl rfl hfits ?_
      show staging.Houses _ ((c.running ++ (c.waiting ++ (queued ++ []))).map Record.content)
      rw [List.append_nil]
      exact hnoted'.houses hholds

theorem Manned.leave (h : Manned host o e c queued)
    (hi : e.ingestion = some ⟨call, frames, clean, .leaving⟩) :
    Manned host o (e.leave ⟨call, frames, clean, .leaving⟩) c queued := by
  have hfits := h.fits
  rw [hi] at hfits
  exact h.turn (turn_quiet (Staging.noted_report _ _) _ _ _ _) h.crew h.holds hi rfl rfl rfl hfits
    unasked

end Visits

/-! ## 5. One crew after the other -/

theorem manned_assemble (hvalid : o.Valid) (hfew : FewWorkers o) (h : Steadfast host o e)
    (hhouses : e.staging.Houses (ofOptions host o).staging.host []) (i : Ingestion) :
    Manned host o (e.assemble i) (.create crewName o.workerCount) [] := by
  obtain ⟨hsome, -, -⟩ := (Options.valid_iff o).mp hvalid
  have hpos : 0 < o.workerCount := UInt32.pos_iff_ne_zero.mpr hsome
  refine ⟨⟨h.options, h.unbroken, h.alike, rfl⟩, ?_, rfl, if_pos hpos, ?_, ⟨rfl, rfl⟩,
    holds_crew hfew, ⟨⟨rfl, rfl⟩, fun _ => rfl, unasked, fun _ => rfl⟩, unasked, hhouses⟩
  · show some (Crew.create crewName e.options.workerCount) = _
    rw [h.options]
  · simp [Crew.create, Channel.create, Channel.capacity, Ring.create, hpos, hsome]

theorem Manned.all_gone (h : Manned host o e c queued) (hvalid : o.Valid)
    (hshut : deskAt e.ingestion = .shut) (hgone : c.allGone = true) :
    c.alive = 0 ∧ queued = [] ∧ c.waiting = [] ∧ c.running = [] := by
  obtain ⟨hsome, -, -⟩ := (Options.valid_iff o).mp hvalid
  have hfits := h.fits
  rw [hshut] at hfits
  have hstaffed : c.Staffed queued 0 := hfits.attended
  have halive := hstaffed.alive_eq_zero hgone
  exact ⟨halive, hstaffed.all_done (h.workerCount ▸ hsome) halive⟩

/-- **The reading side joins the crew of the call before** and has a new one. -/
theorem Manned.join {i : Ingestion} (h : Manned host o e c queued) (hvalid : o.Valid)
    (hfew : FewWorkers o) (hi : e.ingestion = some i) (hjoining : i.stage = .joining)
    (hstep : e.join i = some e') :
    Manned host o e' (.create crewName o.workerCount) [] := by
  obtain ⟨call, frames, clean, stage⟩ := i
  obtain rfl : stage = .joining := hjoining
  have hhouses := h.houses
  simp only [Engine.join, h.crew] at hstep
  split at hstep
  · rename_i hgone
    obtain ⟨-, rfl, hwaiting, hrunning⟩ := h.all_gone hvalid (by rw [hi]; rfl) hgone
    have hnothing : c.queue.toList = [] := Ring.Holds.toList_eq h.holds
    rw [hnothing, List.foldl_nil, Option.some.injEq] at hstep
    subst hstep
    rw [hwaiting, hrunning, hi] at hhouses
    exact manned_assemble hvalid hfew h.toSteadfast hhouses _
  · cases hstep

/-- A call that begins shuts the crew of the call before, once more; or for the first time, if an
exception has left that call. -/
theorem Manned.begin {source : Source} (h : Manned host o e c queued)
    (hstep : e.begin source = some e') :
    Manned host o e' c.closeIntake.closeQueue queued := by
  cases hi : e.ingestion with
  | some i => simp [Engine.begin, hi] at hstep
  | none =>
    have hfits := h.fits
    rw [hi] at hfits
    have hstaffed : c.Staffed queued 0 := hfits.attended
    simp only [Engine.begin, hi, Option.some.injEq] at hstep
    subst hstep
    refine h.turn ⟨rfl, rfl, .refl _, sameJobs_desk c _ _ _ _ _ _, rfl⟩ ?_ h.holds hi rfl rfl rfl
      ⟨⟨hstaffed.hired, hstaffed.alive,
        fun w hw hgone => ⟨rfl, (hstaffed.leaving w hw hgone).2⟩⟩, unasked, unasked, unasked⟩
      fun _ => Or.inl rfl
    simp [h.crew]

/-! ## 6. Workers -/

/-- What a worker does changes nothing about the call, and the crew is as it is expected to be. -/
theorem Manned.moved {due : Nat} (h : Manned host o e c queued) (hsame : SameCall e e')
    (hcrew : e'.crew = some c') (hdue : (deskAt e.ingestion).due = some due)
    (hdesk : c.SameDesk c') (haborted : c'.aborted = c.aborted)
    (hcapacity : c'.queue.capacity = c.queue.capacity) (hholds : c'.queue.Holds queued')
    (hstaffed : c'.Staffed queued' due) (halike : e.staging.Alike e'.staging)
    (hhouses : e'.staging.Houses (ofOptions host o).staging.host
      ((c'.running ++ (c'.waiting ++ (queued' ++ carriedBy e.ingestion))).map Record.content)) :
    Manned host o e' c' queued' := by
  refine ⟨⟨hsame.options.trans h.options, hsame.broken.trans h.unbroken, h.alike.trans halike, ?_⟩,
    hcrew, haborted.trans h.unaborted, hdesk.workerCount.trans h.workerCount,
    hcapacity.trans h.capacity, hdesk.calm h.calm, hholds, ?_, ?_, ?_⟩
  · rw [hsame.ingestion]
    exact h.usual
  · rw [hsame.ingestion]
    exact h.fits.moved hdesk hdue hstaffed
  · rw [hsame.ingestion, hdesk.closed, IsAbandoned, hsame.ingestion, hsame.results]
    exact h.closed
  · rw [hsame.ingestion]
    exact hhouses

/-- **A step of a worker** moves a record on at most. -/
theorem Manned.work {worker : Nat} (h : Manned host o e c queued)
    (hstep : e.work worker = some e') : ∃ c' queued', Manned host o e' c' queued' := by
  obtain ⟨c', o', hwork, rfl, hsame, hcrew⟩ := of_work h.crew hstep
  have hsome : c.workers ≠ [] := by
    rintro hnil
    simp [Crew.work, hnil] at hwork
  obtain ⟨due, hdue, hstaffed⟩ := h.fits.staffed hsome
  have hcapacity := Crew.capacity_of_work h.holds hwork
  obtain ⟨queued', ⟨hholds, hstaffed', hdesk, -, -, haborted⟩, hshift⟩ :=
    Crew.work_shift h.calm h.holds hstaffed hwork
  have hnoted : e.staging.Noted (({ e with crew := some c' } : Engine).note? o').staging := by
    cases hshift with
    | still => exact .refl _
    | takes r => exact .refl _
    | begins r => exact .refl _
  refine ⟨c', queued', h.moved hsame hcrew hdue hdesk haborted hcapacity hholds hstaffed'
    (hnoted.alike (.refl _)) ((hnoted.houses h.houses).perm (List.Perm.map _ ?_))⟩
  cases hshift with
  | still hqueued hwaiting hrunning =>
    subst hqueued
    exact hrunning.symm.append (hwaiting.symm.append_right _)
  | takes r hqueued hwaiting hrunning =>
    subst hqueued
    exact hrunning.symm.append
      (List.perm_middle.trans (hwaiting.symm.append_right (queued' ++ carriedBy e.ingestion)))
  | begins r hqueued hwaiting hrunning =>
    subst hqueued
    exact ((hwaiting.symm.append_right _).append_left c.running).trans
      (List.perm_middle.trans (hrunning.symm.append_right _))

/-- **The task ends with a record**, and its content is let go of. -/
theorem Manned.finish {worker : Nat} {ending : Ending} (h : Manned host o e c queued)
    (hending : ending ≠ .escaped) (hstep : e.finish worker ending = some e') :
    ∃ c', Manned host o e' c' queued := by
  obtain ⟨c', r, hfinish, rfl, hsame, hcrew⟩ := of_finish h.crew hstep
  have hsome : c.workers ≠ [] := by
    rintro hnil
    simp [Crew.finish, hnil] at hfinish
  obtain ⟨due, hdue, hstaffed⟩ := h.fits.staffed hsome
  have hcapacity : c'.queue.capacity = c.queue.capacity := by
    obtain ⟨-, rfl⟩ := Crew.of_finish hfinish
    cases ending <;> rfl
  obtain ⟨hholds, hstaffed', hdesk, -, haborted, hwaiting, hrunning⟩ :=
    Crew.finish_shift h.holds hstaffed hending hfinish
  obtain ⟨-, hnoted⟩ := @note_ended e.call { e with crew := some c' } worker r ending
  have hlive : ((c.running ++ (c.waiting ++ (queued ++ carriedBy e.ingestion))).map
      Record.content).Perm
      (r.content ::
        (c'.running ++ (c'.waiting ++ (queued ++ carriedBy e.ingestion))).map Record.content) :=
    (hrunning.symm.append (hwaiting.symm.append_right _)).map Record.content
  obtain ⟨hhouses, halike, -⟩ := (h.houses.perm hlive).release
  exact ⟨c', h.moved hsame hcrew hdue hdesk haborted hcapacity hholds hstaffed'
    (hnoted.alike halike) (hnoted.houses hhouses)⟩

/-! ## 7. Every step -/

/-- **Every step of the reading side** keeps the engine in order. -/
theorem Manned.read (h : Manned host o e c queued) (hvalid : o.Valid) (hfew : FewWorkers o)
    (hstep : e.read = some e') : ∃ c' queued', Manned host o e' c' queued' := by
  unfold Engine.read at hstep
  cases hi : e.ingestion with
  | none => simp [hi] at hstep
  | some i =>
    obtain ⟨call, frames, clean, stage⟩ := i
    simp only [hi] at hstep
    cases stage with
    | joining => exact ⟨_, _, h.join hvalid hfew hi rfl hstep⟩
    | visiting v =>
      simp only [visit_eq h.crew, Option.map_eq_some_iff] at hstep
      obtain ⟨s, hs, rfl⟩ := hstep
      exact h.visited hi (Crew.stride_of_step hs)
    | reading =>
      obtain rfl := Option.some.inj hstep
      exact ⟨c, queued, h.readHeader hi⟩
    | filling header => exact ⟨c, queued, h.fill hi hstep⟩
    | leaving =>
      obtain rfl := Option.some.inj hstep
      exact ⟨c, queued, h.leave hi⟩

theorem Manned.expired (h : Manned host o e c queued) (hstep : e.expire = some e') :
    Manned host o e' c queued := by
  obtain ⟨call, frames, clean, ms, hi, rfl⟩ := of_expire hstep
  have hfits := h.fits
  rw [hi] at hfits
  exact h.turn (turn_quiet (.refl _) _ _ _ _) h.crew h.holds hi rfl rfl rfl hfits
    fun _ => Or.inl (h.closed_of_some hi rfl)

/-- **An engine without a crew** begins a call and hires one. -/
theorem Unmanned.next {a : Action} (h : Unmanned host o e) (hvalid : o.Valid) (hfew : FewWorkers o)
    (hstep : e.next a = some e') : Orderly host o e' := by
  unfold Engine.next at hstep
  split at hstep
  · cases hstep
  cases a with
  | ingest source =>
    cases hi : e.ingestion with
    | some i => simp [Engine.begin, hi] at hstep
    | none =>
      simp only [Engine.begin, hi, h.crew, Option.map_none, Option.some.injEq] at hstep
      subst hstep
      refine Or.inl ⟨⟨h.options, h.unbroken, h.alike, rfl⟩, rfl, ?_, h.houses⟩
      rintro i hbegun
      rw [← Option.some.inj hbegun]
  | read =>
    cases hi : e.ingestion with
    | none => simp [Engine.read, hi] at hstep
    | some i =>
      simp only [Engine.read, hi, h.joining i hi, Engine.join, h.crew, Option.some.injEq] at hstep
      subst hstep
      exact Or.inr ⟨_, _, manned_assemble hvalid hfew h.toSteadfast h.houses i⟩
  | expire =>
    obtain ⟨call, frames, clean, ms, hi, -⟩ := of_expire hstep
    cases h.joining _ hi
  | work worker => simp [Engine.work, h.crew] at hstep
  | finish worker ending => simp [Engine.finish, h.crew] at hstep

/-- **Every step keeps an engine in order**, whoever takes it. -/
theorem Orderly.next {a : Action} (h : Orderly host o e) (hvalid : o.Valid) (hfew : FewWorkers o)
    (hends : ∀ i, a ≠ .finish i .escaped) (hstep : e.next a = some e') : Orderly host o e' := by
  rcases h with h | ⟨c, queued, h⟩
  · exact h.next hvalid hfew hstep
  unfold Engine.next at hstep
  split at hstep
  · cases hstep
  right
  cases a with
  | ingest source => exact ⟨_, _, h.begin hstep⟩
  | read => exact h.read hvalid hfew hstep
  | expire => exact ⟨_, _, h.expired hstep⟩
  | work worker => exact h.work hstep
  | finish worker ending =>
    obtain ⟨c', h'⟩ := h.finish (fun hescaped => hends worker (hescaped ▸ rfl)) hstep
    exact ⟨c', queued, h'⟩

/-- **An engine in service is in order.**  The induction is on the steps. -/
theorem Service.orderly (h : Service host o e) (hfew : FewWorkers o) :
    o.Valid ∧ Orderly host o e := by
  induction h with
  | made parts hmade =>
    obtain ⟨hvalid, rfl⟩ := of_create hmade
    exact ⟨hvalid, Or.inl (unmanned_ofOptions hfew)⟩
  | next _ hends hstep ih =>
    obtain ⟨hvalid, horderly⟩ := ih
    exact ⟨hvalid, horderly.next hvalid hfew hends hstep⟩

/-- Whatever comes about in a call of an engine in service is an engine in service. -/
theorem Course.service (h : Course e e') (he : Service host o e) : Service host o e' := by
  induction h with
  | refl => exact he
  | next _ _ ha hstep ih =>
    refine ih.next ?_ hstep
    rintro i rfl
    exact ha rfl

end Intake.Engine
