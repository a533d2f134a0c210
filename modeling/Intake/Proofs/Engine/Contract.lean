/-
# What a call comes to

A call of `Ingest` on an engine that is at rest (`Rested`) goes through steps of the reading side
and of the workers in any order (`Course`), until it has returned and the workers are done (`Done`).
Then, whatever the stream and whatever the order, the task has been run once on each frame in front
of the first error, and on nothing else; the call has returned whether the stream came to a clean
end; the crew has counted right; and the engine is at rest again, with nothing left behind
(`call_contract`).
-/
import Mathlib
import Intake.Proofs.Engine.Steps

namespace Intake.Engine

variable {host : Host} {o : Options} {source : Source} {room : Nat → Bool} {e₀ e₁ e e' : Engine}

/-! ## 1. The course of a call -/

/-- What can come about once a call has begun, in whatever order the reading side and the workers
take their steps.  The task ends with every record, by itself or with an error, and a temporary file
can be made whenever it is asked for. -/
inductive Course (e₁ : Engine) : Engine → Prop where
  | refl : Course e₁ e₁
  | next {e e' : Engine} {a : Action} :
      Course e₁ e → e.HasRoom → a.IsOrdinary → e.next a = some e' → Course e₁ e'

/-- The call is over, and every worker of its crew is counted out.  So it has returned: behind an
exception the workers stay (`Underway.answer_ne_threw`). -/
def Done (e : Engine) : Prop := e.ingestion = none ∧ ∃ c, e.crew = some c ∧ c.alive = 0

/-- A call for a stream, from its beginning until it is done. -/
def Completed (e₀ : Engine) (source : Source) (e : Engine) : Prop :=
  ∃ e₁, e₀.next (.ingest source) = some e₁ ∧ Course e₁ e ∧ e.Done

/-- An engine that was made, and every call of which was done. -/
inductive Rested (host : Host) (o : Options) : Engine → Prop where
  | made {e : Engine} (parts : Collaborators) :
      (create host o parts).result = .ok e → Rested host o e
  | called {e₀ e : Engine} {source : Source} :
      Rested host o e₀ → Completed e₀ source e → Rested host o e

/-! ## 2. An engine at rest -/

/-- What an engine is like between its calls. -/
structure AtRest (host : Host) (o : Options) (e : Engine) : Prop where
  options : e.options = o
  idle : e.ingestion = none
  unbroken : e.broken = false
  alike : (ofOptions host o).staging.Alike e.staging
  houses : e.staging.Houses (ofOptions host o).staging.host []
  crew : ∀ c, e.crew = some c → c.queue.Holds [] ∧ ∀ w ∈ c.workers, w = .gone
  runs : ∀ r ∈ e.runs, r.call < e.results.length
  past : ∀ x ∈ e.past, x.1 < e.results.length

theorem of_create {parts : Collaborators} (h : (create host o parts).result = .ok e) :
    o.Valid ∧ e = ofOptions host o := by
  unfold create at h
  split at h
  · cases h
  · rename_i hvalid
    split at h
    · cases h
    · simp only at h
      generalize (if o.modelPath.isEmpty then [] else [o.modelPath]) = loaded at h
      split at h
      · exact ⟨hvalid, (Except.ok.inj h).symm⟩
      · cases h

/-- So many workers that the numbers of slots in their queue, and of buffers, do not wrap. -/
def FewWorkers (o : Options) : Prop := o.workerCount.toNat + 2 ≤ 2147483648

instance (o : Options) : Decidable (FewWorkers o) := inferInstanceAs (Decidable (_ ≤ _))

theorem FewWorkers.buffers (h : FewWorkers o) : o.bufferCount.toNat ≤ Ring.widest := by
  unfold FewWorkers at h
  have hsum : o.bufferCount.toNat = (o.workerCount.toNat + 2) % 4294967296 := UInt32.toNat_add _ _
  have hwide : Ring.widest = 2147483648 := rfl
  omega

theorem FewWorkers.capacity (h : FewWorkers o) :
    (ofOptions host o).staging.pool.capacity.toNat = o.workerCount.toNat + 2 := by
  have hsum : o.bufferCount.toNat = o.workerCount.toNat + 2 := by
    unfold FewWorkers at h
    have hwrap : o.bufferCount.toNat = (o.workerCount.toNat + 2) % 4294967296 :=
      UInt32.toNat_add _ _
    omega
  have hsome : o.bufferCount ≠ 0 := by
    intro hzero
    rw [hzero] at hsum
    exact absurd hsum.symm (Nat.succ_ne_zero _)
  have hcapacity : (ofOptions host o).staging.pool.capacity = o.bufferCount :=
    Pool.capacity_create _ h.buffers hsome
  rw [hcapacity, hsum]

theorem atRest_ofOptions (hfew : FewWorkers o) : AtRest host o (ofOptions host o) :=
  ⟨rfl, rfl, rfl, .refl _, Staging.houses_create hfew.buffers _ _ _ _, nofun, nofun, nofun⟩

/-! ## 3. From the beginning of a call to its end -/

/-- The limits that an engine reads by. -/
def limitsOf (host : Host) (o : Options) : Frame.Limits where
  maxMetadata := o.maxMetadata
  threshold := o.threshold
  largest := Spill.room host.disk
  largest_le := Nat.min_le_left _ _

/-- A call for a stream, when the calls before are over. -/
def callFor (host : Host) (o : Options) (results : List Answer) (room : Nat → Bool)
    (source : Source) : Call where
  options := o
  base := (ofOptions host o).staging.host
  staging := (ofOptions host o).staging
  number := results.length
  limits := limitsOf host o
  room := room
  source := source
  results := results

theorem sound_callFor (hfew : FewWorkers o) (results : List Answer) (room : Nat → Bool)
    (source : Source) : (callFor host o results room source).Sound where
  threshold := rfl
  fits := UInt64.le_refl _
  largest := rfl
  calm := (Pool.lends_create o.threshold hfew.buffers).2

theorem holds_crew (hfew : FewWorkers o) :
    (Crew.create crewName o.workerCount : Crew Record).queue.Holds [] := by
  unfold FewWorkers at hfew
  have hwide : Ring.widest = 2147483648 := rfl
  refine Channel.holds_create ?_
  split
  · omega
  · exact hwide ▸ (by decide)

theorem AtRest.assemble (h : AtRest host o e₀) (hfew : FewWorkers o)
    (hstaging : e.staging = e₀.staging) (hoptions : e.options = e₀.options)
    (hresults : e.results = e₀.results) (hruns : e.runs = e₀.runs) (hpast : e.past = e₀.past)
    (hbroken : e.broken = e₀.broken) :
    Goes (callFor host o e₀.results room source) []
      (e.assemble ⟨e₀.results.length, .create source o.maxMetadata, false, .joining⟩) := by
  obtain ⟨haccepted, htaken, hran⟩ := Until.nothing_in h.runs h.past
  rw [← acceptedIn_congr hpast] at haccepted
  rw [← takenIn_congr hpast] at htaken
  rw [← ranIn_congr hruns] at hran
  have haccounts : Accounts (ofOptions host o).staging.host (ofOptions host o).staging
      e₀.results.length
      (e.assemble ⟨e₀.results.length, .create source o.maxMetadata, false, .joining⟩)
      (.create crewName o.workerCount) [] [] := by
    refine ⟨?_, ?_, ?_, ?_, ?_⟩
    · show e.staging.Houses _ _
      rw [hstaging]
      exact h.houses
    · show Staging.Alike _ e.staging
      rw [hstaging]
      exact h.alike
    · rw [List.append_nil]
      exact htaken
    · exact List.Perm.of_eq (by rw [List.map_nil]; exact (List.append_nil _).trans hran)
    · show _ = UInt64.ofNat (e.ranIn e₀.results.length).length
      rw [hran]
      rfl
  refine ⟨.create crewName o.workerCount, [], source.rest, ?_, rfl, hoptions.trans h.options,
    hbroken.trans h.unbroken, rfl, UInt32.pos_iff_ne_zero.mp (Crew.workerCount_create_pos _ _),
    ⟨rfl, rfl⟩, holds_crew hfew,
    ⟨⟨rfl, rfl⟩, fun _ => rfl, nofun, fun _ => rfl⟩, haccounts, ?_, rfl, ⟨rfl, by simp, by simp⟩,
    ⟨hresults, rfl, rfl, rfl, rfl, rfl⟩, ?_⟩
  · show some (Crew.create crewName e.options.workerCount) = _
    rw [hoptions, h.options]
  · exact (List.append_nil _).trans haccepted
  · refine ⟨?_, ?_⟩
    · intro r hr
      have hr' : r ∈ e.runs := hr
      rw [hruns] at hr'
      exact (h.runs r hr').le
    · intro x hx
      have hx' : x ∈ e.past := hx
      rw [hpast] at hx'
      exact (h.past x hx').le

/-- What a call begins with: the crew of the call before, if there was one, and a reader. -/
theorem AtRest.of_begin (h : AtRest host o e₀) (hbegin : e₀.next (.ingest source) = some e₁) :
    e₁ = { e₀ with
      crew := e₀.crew.map fun c => c.closeIntake.closeQueue
      ingestion := some ⟨e₀.results.length, .create source o.maxMetadata, false, .joining⟩ } := by
  unfold Engine.next at hbegin
  split at hbegin
  · cases hbegin
  · have hmax : e₀.options.maxMetadata = o.maxMetadata := by rw [h.options]
    simp only [Engine.begin, h.idle, hmax, Option.some.injEq] at hbegin
    exact hbegin.symm

/-- The first step of a call is to join the crew of the call before, which has nothing left. -/
theorem AtRest.of_first_step (h : AtRest host o e₀) {a : Action}
    (hbegin : e₀.next (.ingest source) = some e₁) (ha : a.IsOrdinary) (hstep : e₁.next a = some e) :
    ∃ crew ingestion, e = ({ e₀ with crew, ingestion } : Engine).assemble
      ⟨e₀.results.length, .create source o.maxMetadata, false, .joining⟩ := by
  obtain rfl := h.of_begin hbegin
  unfold Engine.next at hstep
  split at hstep
  · cases hstep
  cases a with
  | ingest source => exact absurd ha id
  | read =>
    cases hc : e₀.crew with
    | none =>
      simp only [Engine.read, Engine.join, hc, Option.map_none, Option.some.injEq] at hstep
      exact ⟨_, _, hstep.symm⟩
    | some c =>
      have hnothing : c.closeIntake.closeQueue.queue.toList = [] :=
        Ring.Holds.toList_eq (h.crew c hc).1
      simp only [Engine.read, Engine.join, hc, Option.map_some, hnothing, List.foldl_nil] at hstep
      split at hstep
      · exact ⟨_, _, (Option.some.inj hstep).symm⟩
      · cases hstep
  | expire => cases hstep
  | work worker =>
    cases hc : e₀.crew with
    | none => simp [Engine.work, hc] at hstep
    | some c =>
      have hidle := (Crew.idle_of_all_gone (c := c.closeIntake.closeQueue) (h.crew c hc).2 worker
        .returned).1
      simp [Engine.work, hc, hidle] at hstep
  | finish worker ending =>
    cases hc : e₀.crew with
    | none => simp [Engine.finish, hc] at hstep
    | some c =>
      have hidle := (Crew.idle_of_all_gone (c := c.closeIntake.closeQueue) (h.crew c hc).2 worker
        ending).2
      simp [Engine.finish, hc, hidle] at hstep

theorem AtRest.first_step (h : AtRest host o e₀) (hfew : FewWorkers o) {a : Action}
    (hbegin : e₀.next (.ingest source) = some e₁) (ha : a.IsOrdinary) (hstep : e₁.next a = some e) :
    Goes (callFor host o e₀.results room source) [] e := by
  obtain ⟨crew, ingestion, rfl⟩ := h.of_first_step hbegin ha hstep
  exact h.assemble hfew rfl rfl rfl rfl rfl rfl

/-- **The call is under way from its first step on.**  The induction is on the steps. -/
theorem AtRest.goes (h : AtRest host o e₀) (hfew : FewWorkers o)
    (hbegin : e₀.next (.ingest source) = some e₁) (hcourse : Course e₁ e) :
    e = e₁ ∨ ∃ produced, Goes (callFor host o e₀.results (fun _ => true) source) produced e := by
  induction hcourse with
  | refl => exact Or.inl rfl
  | next _ hroom ha hstep ih =>
    rcases ih with rfl | ⟨produced, hgoes⟩
    · exact Or.inr ⟨[], h.first_step hfew hbegin ha hstep⟩
    · obtain ⟨new, hgoes', -⟩ := hgoes.next (sound_callFor hfew e₀.results _ source)
        (fun _ _ => ⟨fun _ => rfl, fun _ => hroom⟩) ha hstep
      exact Or.inr ⟨_, hgoes'⟩

/-! ## 4. The end of a call -/

/-- When an exception has left the last call, nobody has closed the queue of its crew. -/
def StaysOpen (e : Engine) : Prop :=
  e.ingestion = none → e.results.getLast? = some .threw →
    ∀ c, e.crew = some c → c.queue.closed = false

theorem StaysOpen.moved {c c' : Crew Record} (h : e.StaysOpen) (hsame : SameCall e e')
    (hcrew : e.crew = some c) (hcrew' : e'.crew = some c') (hdesk : c.SameDesk c') :
    e'.StaysOpen := by
  intro hi hlast c'' hc''
  obtain rfl : c' = c'' := Option.some.inj (hcrew'.symm.trans hc'')
  rw [hsame.ingestion] at hi
  rw [hsame.results] at hlast
  rw [hdesk.closed]
  exact h hi hlast c hcrew

theorem staysOpen_of_some {i : Ingestion} (hi : e.ingestion = some i) : e.StaysOpen := by
  intro hnone
  cases hi.symm.trans hnone

theorem staysOpen_readingEnded (e : Engine) (i : Ingestion) (cause : FrameError) :
    (e.readingEnded i cause).StaysOpen := by
  obtain ⟨staging, -, hended⟩ := readingEnded_eq e i cause
  rw [hended]
  exact staysOpen_of_some rfl

theorem staysOpen_visited (e : Engine) (i : Ingestion) (s : Crew.Visit.Step Record) :
    (e.visited i s).StaysOpen := by
  unfold visited
  split
  · rename_i r _
    cases r with
    | awaited inTime =>
      intro _ hlast
      simp [replied, answer] at hlast
    | _ => exact staysOpen_of_some rfl
  · exact staysOpen_of_some rfl

theorem staysOpen_of_fill {i : Ingestion} {header : Frame.Header} (hi : e.ingestion = some i)
    (hstep : e.fill i header = some e') : e'.StaysOpen := by
  cases hd : e.staging.materialize i.frames.source header.rawSize with
  | waits => simp [Engine.fill, session, Frame.Session.readContent, hd] at hstep
  | overflows =>
    simp only [Engine.fill, session, Frame.Session.readContent, hd, Option.some.injEq] at hstep
    subst hstep
    exact staysOpen_of_some hi
  | delivers d =>
    obtain ⟨t, -, ⟨content, -, -, hread⟩ | ⟨cause, -, -, hread⟩⟩ :=
      Frame.Session.readContent_of_delivers (s := e.session i) (h := header) hd
    · simp only [Engine.fill, hread, Option.some.injEq] at hstep
      subst hstep
      exact staysOpen_of_some rfl
    · simp only [Engine.fill, hread, Option.some.injEq] at hstep
      subst hstep
      exact staysOpen_readingEnded _ _ _

theorem Underway.staysOpen_of_read {k : Call} {c : Crew Record} {queued : List Record}
    {produced : List (Record × Bytes)} {ahead : Bytes} (h : Underway k e c queued produced ahead)
    (hstep : e.read = some e') : e'.StaysOpen := by
  have hfits := h.fits
  unfold Engine.read at hstep
  cases hi : e.ingestion with
  | none => simp [hi] at hstep
  | some i =>
    obtain ⟨call, frames, clean, stage⟩ := i
    simp only [hi] at hstep
    cases stage with
    | joining =>
      simp only [Engine.join, h.crew] at hstep
      split at hstep
      · obtain rfl := Option.some.inj hstep
        exact staysOpen_of_some rfl
      · cases hstep
    | visiting v =>
      simp only [visit_eq h.crew, Option.map_eq_some_iff] at hstep
      obtain ⟨s, -, rfl⟩ := hstep
      exact staysOpen_visited e _ s
    | reading =>
      rw [hi] at hfits
      obtain rfl := Option.some.inj hstep
      unfold Engine.readHeader
      split
      · exact staysOpen_of_some rfl
      · exact staysOpen_readingEnded _ _ _
      · intro _ _ c' hc'
        obtain rfl : c = c' := Option.some.inj (h.crew.symm.trans hc')
        exact hfits.opened rfl
    | filling header => exact staysOpen_of_fill hi hstep
    | leaving =>
      obtain rfl := Option.some.inj hstep
      exact staysOpen_of_some rfl

/-- **An exception leaves the queue open, and nobody closes it** before another call begins. -/
theorem Goes.staysOpen {k : Call} {produced : List (Record × Bytes)} {a : Action}
    (h : Goes k produced e) (hopen : e.StaysOpen) (ha : a.IsOrdinary)
    (hstep : e.next a = some e') : e'.StaysOpen := by
  obtain ⟨c, queued, ahead, h⟩ := h
  unfold Engine.next at hstep
  split at hstep
  · cases hstep
  cases a with
  | ingest source => exact absurd ha id
  | read => exact h.staysOpen_of_read hstep
  | expire =>
    obtain ⟨call, frames, clean, ms, -, rfl⟩ := of_expire hstep
    exact nofun
  | work worker =>
    obtain ⟨c', o', hwork, -, hsame, hcrew⟩ := of_work h.crew hstep
    exact hopen.moved hsame h.crew hcrew (Crew.sameDesk_of_work h.holds hwork)
  | finish worker ending =>
    obtain ⟨c', r, hfinish, -, hsame, hcrew⟩ := of_finish h.crew hstep
    exact hopen.moved hsame h.crew hcrew (Crew.sameDesk_of_finish hfinish)

theorem AtRest.staysOpen (h : AtRest host o e₀) (hfew : FewWorkers o)
    (hbegin : e₀.next (.ingest source) = some e₁) (hcourse : Course e₁ e) : e.StaysOpen := by
  induction hcourse with
  | refl =>
    obtain rfl := h.of_begin hbegin
    exact staysOpen_of_some rfl
  | next hbefore _ ha hstep ih =>
    rcases h.goes hfew hbegin hbefore with rfl | ⟨produced, hgoes⟩
    · obtain ⟨crew, ingestion, rfl⟩ := h.of_first_step hbegin ha hstep
      exact staysOpen_of_some rfl
    · exact hgoes.staysOpen ih ha hstep

/-- What a call has come to.  `frames` are those in front of the first error, `ahead` is the rest of
the stream, and `records` are the records that were made of the frames. -/
structure Concluded (l : Frame.Limits) (source : Source) (e₀ e : Engine)
    (frames : List (Bytes × Bytes)) (ahead : Bytes) (records : List Record) (c : Crew Record) :
    Prop where
  split : source.rest = Frame.encodeAll frames ++ ahead
  accepted : ∀ f ∈ frames, l.Accepts f
  stuck : l.Stuck ahead
  length : records.length = frames.length
  /-- Each record is that of its frame. -/
  made : ∀ i r f, records[i]? = some r → frames[i]? = some f →
    r.id = UInt64.ofNat (2 * i) ∧ r.metadata = f.1 ∧ r.rawSize = UInt64.ofNat f.2.length
  /-- The workers have taken the records in the order of the stream. -/
  taken : e.takenIn e₀.results.length = records
  /-- The task was run once on each record, with the content of the frame, and on nothing else. -/
  ran : (e.ranIn e₀.results.length).Perm (List.zipWith (fun r f => (r, .ok f.2)) records frames)
  /-- The call has returned whether the reader came to the clean end of the stream. -/
  answer : e.results = e₀.results ++
    [.returned (decide (l.stopCause source.failure.isSome ahead = .failed .endOfStream))]
  outstanding : e.staging.pool.outstanding = 0
  available : e.staging.pool.available = e.staging.pool.capacity
  files : e.staging.host.disk.files = e₀.staging.host.disk.files
  registry : e.staging.host.registry = e₀.staging.host.registry
  crew : e.crew = some c
  submitted : c.submitted = UInt64.ofNat frames.length
  ended : c.completed + c.failed = UInt64.ofNat frames.length

/-- When a call is done there is nothing left of it. -/
theorem Underway.all_done {k : Call} {c : Crew Record} {queued : List Record}
    {produced : List (Record × Bytes)} {ahead : Bytes} (h : Underway k e c queued produced ahead)
    (hi : e.ingestion = none) (halive : c.alive = 0) :
    e.staging.Houses k.base [] ∧ e.takenIn k.number = produced.map Prod.fst ∧
      (e.ranIn k.number).Perm (produced.map fun p => (p.1, .ok p.2)) ∧
      c.submitted = UInt64.ofNat produced.length ∧
      c.completed + c.failed = UInt64.ofNat produced.length ∧
      (k.limitsAt produced.length).Stuck ahead ∧
      e.results = k.results ++ [k.answer produced.length ahead] ∧
      c.queue.Holds [] ∧ ∀ w ∈ c.workers, w = .gone := by
  have hfits := h.fits
  have haccounts := h.accounts
  have hsubmitted := h.submitted
  have hplaced := h.placed
  have hholds := h.holds
  rw [hi] at hfits haccounts hsubmitted hplaced
  have hstaffed : c.Staffed queued 0 := hfits.attended
  obtain ⟨rfl, hwaiting, hrunning⟩ := hstaffed.all_done h.someone halive
  obtain ⟨hhouses, -, horder, hruns, hcounted⟩ := haccounts
  have hran : (e.ranIn k.number).Perm (produced.map fun p => (p.1, .ok p.2)) := by
    rw [hwaiting] at hruns
    simpa [carriedBy] using hruns
  refine ⟨?_, ?_, hran, ?_, ?_, hplaced.1, hplaced.2, hholds, hstaffed.all_gone halive⟩
  · rw [hrunning, hwaiting] at hhouses
    exact hhouses
  · rw [← horder]
    exact (List.append_nil _).symm
  · rw [← hsubmitted]
    exact (UInt64.add_zero _).symm
  · have hlength := hran.length_eq
    rw [List.length_map] at hlength
    rw [hrunning, hlength] at hcounted
    rw [← hcounted]
    exact (UInt64.add_zero _).symm

/-- **A call is not done behind an exception**: its workers leave only when the queue is closed. -/
theorem Underway.answer_ne_threw {k : Call} {c : Crew Record} {queued : List Record}
    {produced : List (Record × Bytes)} {ahead : Bytes} (h : Underway k e c queued produced ahead)
    (hopen : e.StaysOpen) (hi : e.ingestion = none) (halive : c.alive = 0) :
    k.answer produced.length ahead ≠ .threw := by
  intro hthrew
  have hfits := h.fits
  rw [hi] at hfits
  have hstaffed : c.Staffed queued 0 := hfits.attended
  obtain ⟨-, -, -, -, -, -, hresults, -, -⟩ := h.all_done hi halive
  have hclosed : c.queue.closed = false := by
    refine hopen hi ?_ c h.crew
    rw [hresults, hthrew]
    exact List.getLast?_concat
  rw [(hstaffed.used_up h.someone halive).1] at hclosed
  cases hclosed

theorem AtRest.completed (h : AtRest host o e₀) (hfew : FewWorkers o)
    (hcall : Completed e₀ source e) :
    e.ingestion = none ∧ ∃ c queued produced ahead,
      Underway (callFor host o e₀.results (fun _ => true) source) e c queued produced ahead ∧
        c.alive = 0 ∧
        (callFor host o e₀.results (fun _ => true) source).answer produced.length ahead
          ≠ .threw := by
  obtain ⟨e₁, hbegin, hcourse, hidle, c, hcrew, halive⟩ := hcall
  rcases h.goes hfew hbegin hcourse with rfl | ⟨produced, c', queued, ahead, hgoes⟩
  · rw [h.of_begin hbegin] at hidle
    cases hidle
  · obtain rfl : c = c' := Option.some.inj (hcrew.symm.trans hgoes.crew)
    exact ⟨hidle, c, queued, produced, ahead, hgoes, halive,
      hgoes.answer_ne_threw (h.staysOpen hfew hbegin hcourse) hidle halive⟩

theorem Underway.atRest {results : List Answer} {c : Crew Record} {queued : List Record}
    {produced : List (Record × Bytes)} {ahead : Bytes}
    (h : Underway (callFor host o results room source) e c queued produced ahead)
    (hi : e.ingestion = none) (halive : c.alive = 0) : AtRest host o e := by
  obtain ⟨hhouses, -, -, -, -, -, hresults, hholds, hgone⟩ := h.all_done hi halive
  have hcalls : ∀ n, n ≤ results.length → n < e.results.length := by
    intro n hn
    have hlength : e.results.length = results.length + 1 := by
      rw [hresults, List.length_append, List.length_singleton]
      rfl
    omega
  refine ⟨h.options, hi, h.unbroken, h.accounts.alike, hhouses, ?_,
    fun r hr => hcalls _ (h.calls.1 r hr), fun x hx => hcalls _ (h.calls.2 x hx)⟩
  intro c' hc'
  obtain rfl : c = c' := Option.some.inj (h.crew.symm.trans hc')
  exact ⟨hholds, hgone⟩

theorem AtRest.again (h : AtRest host o e₀) (hfew : FewWorkers o)
    (hcall : Completed e₀ source e) : AtRest host o e := by
  obtain ⟨hidle, c, queued, produced, ahead, hgoes, halive, -⟩ := h.completed hfew hcall
  exact hgoes.atRest hidle halive

theorem Rested.atRest (h : Rested host o e) (hfew : FewWorkers o) : AtRest host o e := by
  induction h with
  | made parts hmade =>
    obtain ⟨-, rfl⟩ := of_create hmade
    exact atRest_ofOptions hfew
  | called _ hcall ih => exact ih.again hfew hcall

/-- **What a call comes to.**  Whatever the options and the stream, however the task ends with each
record and in whatever order the reading side and the workers take their steps: once the call has
returned and the workers are done, the task was run exactly once on each frame in front of the first
error, the call has said whether that was the clean end of the stream, the counts are right, and
every buffer and every temporary file has been given back.  The list of temporary files is taken to
be what it stands for when the engine is made, a list of files on disk (`Host.Tidy`).

What the reading side and the workers have between them is known at every point of a course: each
record made so far has one place, and what the staging area has lent out belongs to one of them
(`Underway`). When the call is over and the workers are gone, every record has been run, and what
was run has given back its content. -/
theorem call_contract (htidy : host.Tidy) (hfew : FewWorkers o) (hrested : Rested host o e₀)
    (hcall : Completed e₀ source e) :
    ∃ frames ahead records c,
      Concluded (limitsOf host o) source e₀ e frames ahead records c := by
  have hrest := hrested.atRest hfew
  obtain ⟨hidle, c, queued, produced, ahead, hgoes, halive, hreturned⟩ :=
    hrest.completed hfew hcall
  obtain ⟨hhouses, htaken, hran, hsubmitted, hended, hstuck, hresults, -, -⟩ :=
    hgoes.all_done hidle halive
  obtain ⟨⟨houtstanding, havailable⟩, hfiles, hregistry⟩ := hhouses.at_rest htidy
  obtain ⟨-, hfiles₀, hregistry₀⟩ := hrest.houses.at_rest htidy
  obtain ⟨hsplit, haccepted, hnumbered⟩ := hgoes.reads
  have hanswer : (callFor host o e₀.results (fun _ => true) source).answer produced.length ahead
      = .returned (decide ((limitsOf host o).stopCause source.failure.isSome ahead
          = .failed .endOfStream)) :=
    Answer.ofExit_of_ne fun hthrown => hreturned (congrArg Answer.ofExit hthrown)
  rw [hanswer] at hresults
  refine ⟨produced.map frameOf, ahead, produced.map Prod.fst, c, hsplit, ?_, hstuck, by simp, ?_,
    htaken, ?_, hresults, houtstanding, havailable, hfiles.trans hfiles₀.symm,
    hregistry.trans hregistry₀.symm, hgoes.crew, by rw [List.length_map, hsubmitted],
    by rw [List.length_map, hended]⟩
  · intro f hf
    obtain ⟨p, hp, rfl⟩ := List.mem_map.mp hf
    obtain ⟨i, hi⟩ := List.mem_iff_getElem?.mp hp
    exact haccepted i p hi
  · intro i r f hr hf
    rw [List.getElem?_map, Option.map_eq_some_iff] at hr hf
    obtain ⟨p, hp, rfl⟩ := hr
    obtain ⟨q, hq, rfl⟩ := hf
    obtain rfl : p = q := Option.some.inj (hp.symm.trans hq)
    obtain ⟨hid, hsize⟩ := hnumbered i p hp
    exact ⟨hid, rfl, hsize⟩
  · have hzip : List.zipWith (fun (r : Record) (f : Bytes × Bytes) =>
        (r, (.ok f.2 : Except ReadFault Bytes))) (produced.map Prod.fst) (produced.map frameOf)
        = produced.map fun p => (p.1, .ok p.2) := by
      rw [List.zipWith_map, List.zipWith_self]
      rfl
    rw [hzip]
    exact hran

/-! ## 5. One call among the possible ones -/

instance (e : Engine) : Decidable e.HasRoom :=
  decidable_of_iff
      ((e.staging.host.disk.createTemp (Spill.stem e.staging.tempDir)).isOk = true) <| by
    unfold HasRoom
    cases e.staging.host.disk.createTemp (Spill.stem e.staging.tempDir) <;>
      simp [Except.isOk, Except.toBool]

instance : DecidablePred Action.IsOrdinary
  | .ingest _ => inferInstanceAs (Decidable False)
  | .read | .expire | .work _ => inferInstanceAs (Decidable True)
  | .finish _ ending => inferInstanceAs (Decidable (ending ≠ .escaped))

instance (e : Engine) : Decidable e.Done :=
  decidable_of_iff (e.ingestion.isNone = true ∧ e.crew.any (fun c => c.alive = 0) = true) <| by
    simp [Done, Option.any_eq_true]

/-- The engine after a row of actions that belong to a call. -/
def follow (e : Engine) : List Action → Option Engine
  | [] => some e
  | a :: rest =>
    if e.HasRoom ∧ a.IsOrdinary then (e.next a).bind fun e' => e'.follow rest else none

theorem Course.follow {actions : List Action} (h : Course e₁ e)
    (hfollow : e.follow actions = some e') : Course e₁ e' := by
  induction actions generalizing e with
  | nil =>
    obtain rfl := Option.some.inj hfollow
    exact h
  | cons a rest ih =>
    rw [Engine.follow] at hfollow
    split at hfollow
    · rename_i hand
      obtain ⟨e₂, hstep, hrest⟩ := Option.bind_eq_some_iff.mp hfollow
      exact ih (h.next hand.1 hand.2 hstep) hrest
    · cases hfollow

/-- Options for one worker and buffers of three bytes. -/
def smallOptions : Options := { workerCount := 1, thresholdExact := 3 }

/-- A frame for a buffer and one for a file, and a byte that is no frame. -/
def shortStream : Source :=
  .ofBytes (Frame.encodeAll [([1], [2, 3]), ([], [4, 5, 6, 7, 8])] ++ [9]) 0

/-- A row of actions for that stream; the task ends with the second record with an error. -/
def shortRun : List Action :=
  [.read, .read, .read, .read, .read, .read, .read, .work 0, .read, .read, .read, .read, .work 0,
    .work 0, .read, .read, .read, .read, .read, .read, .finish 0 .returned, .read, .read, .read,
    .work 0, .work 0, .work 0, .finish 0 (.threw []), .read, .work 0, .work 0, .work 0, .read]

/-- One worker, a frame for a buffer and one for a file, and a task that fails on the second. -/
theorem call_contract_two_frames :
    ∃ e frames ahead records c, Completed (ofOptions .empty smallOptions) shortStream e ∧
      Concluded (limitsOf .empty smallOptions) shortStream (ofOptions .empty smallOptions) e frames
        ahead records c := by
  have hrun : (((ofOptions .empty smallOptions).next (.ingest shortStream)).bind fun e₁ =>
      e₁.follow shortRun).any (fun e => e.Done) = true := by decide +kernel
  obtain ⟨e, hrun, hdone⟩ := (Option.any_eq_true _ _).mp hrun
  obtain ⟨e₁, hbegin, hfollow⟩ := Option.bind_eq_some_iff.mp hrun
  have hcall : Completed (ofOptions .empty smallOptions) shortStream e :=
    ⟨e₁, hbegin, Course.refl.follow hfollow, of_decide_eq_true hdone⟩
  have hcontract : ∃ frames ahead records c, Concluded (limitsOf .empty smallOptions) shortStream
      (ofOptions .empty smallOptions) e frames ahead records c :=
    call_contract nofun (by decide) (.made ⟨true, true, true, fun _ => true⟩ rfl) hcall
  obtain ⟨frames, ahead, records, c, hconcluded⟩ := hcontract
  exact ⟨e, frames, ahead, records, c, hcall, hconcluded⟩

end Intake.Engine
