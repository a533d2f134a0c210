/-
# What an engine relies on

Every part of an `IngestEngine` relies on things that another part has promised, and looks at none
of them in a program that is in use, where assertions are left out.  Here they are looked at.
Whatever the options, the streams and the order in which the reading side, the workers and the clock
take their steps, **no promise is ever broken** (`promises_kept`): an engine is made, and takes each
of its steps, as if nobody had looked.

What the steps keep is that buffers have room for every payload up to the threshold, and that no
more was ever written to one (`Dependable`).  The number of workers does not matter for this, and
neither does how often a length field lies.
-/
import Mathlib
import Intake.Proofs.Engine.Contract
import Intake.Proofs.Frame.Promises

namespace Intake

/-! ## 1. Workers -/

/-- A step of a worker, as `work` has it. -/
def Crew.workAudited {Job : Type} (c : Crew Job) (i : Nat) :
    Audited (Option (Crew Job × Option (Occurrence Job))) :=
  match c.workers[i]? with
  | some .taking =>
    match c.queue.take.answer? with
    | none => .ok none
    | some r =>
      if r.isOk then do
        let (j, queue) ← resultOf r
        .ok (some ({ c with queue }.setWorker i (.holding j), some (.taken i j)))
      else .ok (some (c.setWorker i .leaving, none))
  | _ => .ok (c.work i)

/-- **A worker that takes a job has one.** -/
theorem Crew.workAudited_eq {Job : Type} (c : Crew Job) (i : Nat) :
    c.workAudited i = .ok (c.work i) := by
  unfold workAudited
  split
  · rename_i htaking
    simp only [work, htaking]
    rcases c.queue.take with _ | cause | ⟨j, queue⟩ <;> rfl
  · rfl

/-- What a visitor is told about a job, if that is what the visit was for. -/
def Crew.Reply.submission? {Job : Type} : Crew.Reply Job → Option (Except ChannelError Unit)
  | accepted => some (.ok ())
  | refused _ cause => some (.error cause)
  | started | closed | interrupted | awaited _ => none

/-- Whether there is a fault in the options. -/
def Options.validated (o : Options) : Except ConfigError Unit :=
  match o.fault? with
  | some _ => .error .invalidValue
  | none => .ok ()

namespace Engine

/-! ## 2. The reading side -/

/-- Reads a header, as `readHeader` does. -/
def readHeaderAudited (e : Engine) (i : Ingestion) : Audited Engine := do
  let (r, s) ← (e.session i).readHeaderAudited
  if r.isOk then do
    let h ← resultOf r
    .ok ((e.resume s).enter { i with frames := s.reader } (.filling h))
  else do
    let exit ← causeOf r
    match exit with
    | .failed cause => .ok ((e.resume s).readingEnded { i with frames := s.reader } cause)
    | .thrown => .ok (e.resume s).unwind

/-- Takes a content, as `fill` does. -/
def fillAudited (e : Engine) (i : Ingestion) (h : Frame.Header) : Audited (Option Engine) := do
  let (answer, s) ← (e.session i).readContentAudited h
  match answer with
  | none => .ok none
  | some r =>
    if r.isOk then do
      let record ← resultOf r
      .ok (some ((e.resume s).ask { i with frames := s.reader } (.submit record)))
    else do
      let cause ← causeOf r
      .ok (some ((e.resume s).readingEnded { i with frames := s.reader } cause))

/-- Goes on with what the crew has answered, as `replied` does.  The cause for which a record was
turned away is asked for, to write it down. -/
def repliedAudited (e : Engine) (i : Ingestion) (r : Crew.Reply Record) : Audited Engine :=
  match r.submission? with
  | none => .ok (e.replied i r)
  | some told =>
    if told.isOk then .ok (e.replied i r)
    else do
      let _ ← causeOf told
      .ok (e.replied i r)

/-- The next step of a visit, as `visit` has it. -/
def visitAudited (e : Engine) (i : Ingestion) (v : Crew.Visit Record) : Audited (Option Engine) :=
  match e.crew.bind v.step with
  | none => .ok none
  | some s =>
    let e := ({ e with crew := some s.crew }).note? s.occurrence
    match s.visit.reply? with
    | some r => (e.repliedAudited i r).map some
    | none => .ok (some (e.enter i (.visiting s.visit)))

/-- The next step of the reading side, as `read` has it. -/
def readAudited (e : Engine) : Audited (Option Engine) :=
  match e.ingestion with
  | none => .ok none
  | some i =>
    match i.stage with
    | .joining => .ok (e.join i)
    | .visiting v => e.visitAudited i v
    | .reading => (e.readHeaderAudited i).map some
    | .filling h => e.fillAudited i h
    | .leaving => .ok (some (e.leave i))

variable {e e' e₀ : Engine} {i : Ingestion}

theorem readHeaderAudited_eq (e : Engine) (i : Ingestion) :
    e.readHeaderAudited i = .ok (e.readHeader i) := by
  simp only [readHeaderAudited, readHeader, Frame.Session.readHeaderAudited_eq, Audited.ok_bind]
  rcases (e.session i).readHeader with ⟨(cause | _) | h, s⟩ <;> rfl

theorem fillAudited_eq (hfits : e.staging.threshold ≤ e.staging.pool.bufferSize) (i : Ingestion)
    (h : Frame.Header) : e.fillAudited i h = .ok (e.fill i h) := by
  have hfull := (e.session i).readContent_not_overflows hfits h
  have hreturns := ((e.session i).readContent_returns h).1
  simp only [fillAudited, fill, (e.session i).readContentAudited_eq hfits h, Audited.ok_bind]
  generalize (e.session i).readContent h = r at hfull hreturns ⊢
  obtain ⟨_ | _ | r | cause | _, s⟩ := r
  · rfl
  · exact absurd rfl hfull
  · rfl
  · rfl
  · exact absurd rfl hreturns

theorem repliedAudited_eq (e : Engine) (i : Ingestion) (r : Crew.Reply Record) :
    e.repliedAudited i r = .ok (e.replied i r) := by
  cases r <;> rfl

theorem visitAudited_eq (e : Engine) (i : Ingestion) (v : Crew.Visit Record) :
    e.visitAudited i v = .ok (e.visit i v) := by
  cases hcrew : e.crew with
  | none => simp only [visitAudited, visit, hcrew, Option.bind_none]
  | some c =>
    simp only [visitAudited, visit_eq hcrew, hcrew, Option.bind_some, repliedAudited_eq]
    cases v.step c with
    | none => rfl
    | some s =>
      simp only [Option.map_some, visited]
      cases s.visit.reply? <;> rfl

theorem readAudited_eq (hfits : e.staging.threshold ≤ e.staging.pool.bufferSize) :
    e.readAudited = .ok e.read := by
  unfold readAudited read
  simp only [visitAudited_eq, readHeaderAudited_eq, fillAudited_eq hfits]
  cases e.ingestion with
  | none => rfl
  | some i =>
    simp only
    cases i.stage <;> rfl

/-! ## 3. Both sides -/

/-- The next step of a worker, as `work` has it. -/
def workAudited (e : Engine) (worker : Nat) : Audited (Option Engine) :=
  match e.crew with
  | none => .ok none
  | some c => (c.workAudited worker).map fun step =>
      step.map fun r => ({ e with crew := some r.1 }).note? r.2

/-- What a step does, as `next` has it.  Nothing is asked for when a call begins, when a grace
period is over, or when the task ends. -/
def nextAudited (e : Engine) (a : Action) : Audited (Option Engine) :=
  if e.isAborted then .ok none
  else
    match a with
    | .ingest source => .ok (e.begin source)
    | .read => e.readAudited
    | .expire => .ok e.expire
    | .work i => e.workAudited i
    | .finish i ending => .ok (e.finish i ending)

theorem workAudited_eq (e : Engine) (worker : Nat) :
    e.workAudited worker = .ok (e.work worker) := by
  unfold workAudited work
  simp only [Crew.workAudited_eq]
  cases e.crew <;> rfl

/-- **As long as payloads for buffers fit into them, a step can be taken with open eyes.** -/
theorem nextAudited_eq (hfits : e.staging.threshold ≤ e.staging.pool.bufferSize) (a : Action) :
    e.nextAudited a = .ok (e.next a) := by
  unfold nextAudited next
  simp only [readAudited_eq hfits, workAudited_eq]
  split
  · rfl
  · cases a <;> rfl

/-! ## 4. Making an engine -/

/-- An engine without calls, as `ofOptions` has it. -/
def ofOptionsAudited (host : Host) (o : Options) : Audited Engine := do
  let pool ← Pool.createAudited o.bufferCount o.threshold
  let ready := (host.report pool.readyEvent).report
    (.engineReady o.workerCount o.threshold pool.capacity o.tempDir)
  let staging ← Staging.createAudited ready pool o.threshold o.tempDir
  .ok { ofOptions host o with staging }

/-- Makes an engine, as `create` does. -/
def createAudited (host : Host) (o : Options) (c : Collaborators) : Audited Creation :=
  if o.validated.isOk then
    if c.complete && (o.modelPath.isEmpty || c.takesModel o.modelPath) then do
      let e ← ofOptionsAudited host o
      .ok { create host o c with result := .ok e, host := e.staging.host }
    else .ok (create host o c)
  else do
    let cause ← causeOf o.validated
    .ok { create host o c with result := .error cause }

theorem ofOptionsAudited_eq (host : Host) (o : Options) :
    ofOptionsAudited host o = .ok (ofOptions host o) := by
  have hroom : o.threshold ≤ (Pool.create o.bufferCount o.threshold).bufferSize :=
    UInt64.le_refl _
  simp only [ofOptionsAudited, Pool.createAudited_eq, Audited.ok_bind,
    Staging.createAudited_eq hroom]
  rfl

/-- **An engine is made, or not made, with open eyes.** -/
theorem createAudited_eq (host : Host) (o : Options) (c : Collaborators) :
    createAudited host o c = .ok (create host o c) := by
  unfold createAudited Options.validated
  cases hfault : o.fault? with
  | some fault =>
    simp only [create, hfault]
    rfl
  | none =>
    simp only [ofOptionsAudited_eq, create, hfault]
    cases c.complete <;> cases o.modelPath.isEmpty <;> cases hmodel : c.takesModel o.modelPath <;>
      simp [hmodel, Except.isOk, Except.toBool]

/-! ## 5. What steps keep -/

/-- An engine whose buffers have room for what is kept in them, and which is not at its end over a
broken promise. -/
structure Dependable (size : UInt64) (e : Engine) : Prop where
  staging : e.staging.Roomy size
  unbroken : e.broken = false

variable {size : UInt64}

theorem dependable_ofOptions (host : Host) (o : Options) :
    (ofOptions host o).Dependable o.threshold :=
  ⟨Staging.roomy_create _ _ _ _, rfl⟩

theorem Dependable.report (h : e.Dependable size) (event : Event) :
    (e.report event).Dependable size :=
  ⟨h.staging.noted (Staging.noted_report _ event), h.unbroken⟩

theorem Dependable.release (h : e.Dependable size) (r : Record) : (e.release r).Dependable size :=
  ⟨h.staging.release r.content, h.unbroken⟩

theorem Dependable.note (h : e.Dependable size) (o : Occurrence Record) :
    (e.note o).Dependable size := by
  have hsettled : ({ e with past := (e.call, o) :: e.past }.settleRecord o).Dependable size := by
    cases o with
    | ended worker r ending => exact ⟨h.staging.release r.content, h.unbroken⟩
    | dropped r => exact ⟨h.staging.release r.content, h.unbroken⟩
    | _ => exact ⟨h.staging, h.unbroken⟩
  unfold Engine.note
  simp only
  split
  · exact hsettled.report _
  · exact hsettled

theorem Dependable.note? (h : e.Dependable size) (o : Option (Occurrence Record)) :
    (e.note? o).Dependable size := by
  cases o with
  | none => exact h
  | some o => exact h.note o

theorem Dependable.readingEnded (h : e.Dependable size) (i : Ingestion) (cause : FrameError) :
    (e.readingEnded i cause).Dependable size := by
  obtain ⟨staging, hnoted, hended⟩ := readingEnded_eq e i cause
  rw [hended]
  exact ⟨h.staging.noted hnoted, h.unbroken⟩

theorem Dependable.replied (h : e.Dependable size) (i : Ingestion) (r : Crew.Reply Record) :
    (e.replied i r).Dependable size := by
  cases r with
  | refused r cause => exact ⟨((h.report _).release r).staging, h.unbroken⟩
  | awaited inTime => exact ⟨(h.report _).staging, h.unbroken⟩
  | _ => exact ⟨h.staging, h.unbroken⟩

theorem Dependable.visited (h : e.Dependable size) (i : Ingestion)
    (s : Crew.Visit.Step Record) : (e.visited i s).Dependable size := by
  have hnoted : (({ e with crew := some s.crew } : Engine).note? s.occurrence).Dependable size :=
    Dependable.note? (e := { e with crew := some s.crew }) ⟨h.staging, h.unbroken⟩ _
  unfold Engine.visited
  split
  · exact hnoted.replied i _
  · exact ⟨hnoted.staging, hnoted.unbroken⟩

theorem Dependable.join (h : e.Dependable size) (hstep : e.join i = some e') :
    e'.Dependable size := by
  unfold Engine.join at hstep
  split at hstep
  · obtain rfl := Option.some.inj hstep
    exact ⟨h.staging, h.unbroken⟩
  · split at hstep
    · obtain rfl := Option.some.inj hstep
      rename_i c _ _
      have hreleased : (c.queue.toList.foldl Engine.release e).Dependable size :=
        List.foldlRecOn _ _ h fun e he r _ => he.release r
      exact ⟨hreleased.staging, hreleased.unbroken⟩
    · cases hstep

theorem Dependable.readHeader (h : e.Dependable size) (i : Ingestion) :
    (e.readHeader i).Dependable size := by
  have hroomy := Frame.Session.roomy_readHeader (s := e.session i) h.staging
  unfold Engine.readHeader
  split
  all_goals
    rename_i hread
    rw [hread] at hroomy
  · exact ⟨hroomy, h.unbroken⟩
  · exact Dependable.readingEnded (e := e.resume _) ⟨hroomy, h.unbroken⟩ _ _
  · exact ⟨hroomy, h.unbroken⟩

/-- **Taking a content breaks no promise**: what goes to a buffer fits there. -/
theorem Dependable.fill (h : e.Dependable size) {header : Frame.Header}
    (hstep : e.fill i header = some e') : e'.Dependable size := by
  have hfull := (e.session i).readContent_not_overflows h.staging.fits header
  have hroomy := Frame.Session.roomy_readContent (s := e.session i) h.staging header
  unfold Engine.fill at hstep
  split at hstep
  all_goals
    rename_i hread
    rw [hread] at hfull hroomy
  · cases hstep
  · exact absurd rfl hfull
  · obtain rfl := Option.some.inj hstep
    exact Dependable.readingEnded (e := e.resume _) ⟨hroomy, h.unbroken⟩ _ _
  · obtain rfl := Option.some.inj hstep
    exact ⟨hroomy, h.unbroken⟩
  · obtain rfl := Option.some.inj hstep
    exact ⟨hroomy, h.unbroken⟩

theorem Dependable.read (h : e.Dependable size) (hstep : e.read = some e') :
    e'.Dependable size := by
  unfold Engine.read at hstep
  split at hstep
  · cases hstep
  · rename_i i hi
    split at hstep
    · exact h.join hstep
    · rename_i v hv
      cases hcrew : e.crew with
      | none => simp [visit, hcrew] at hstep
      | some c =>
        rw [visit_eq hcrew, Option.map_eq_some_iff] at hstep
        obtain ⟨s, -, rfl⟩ := hstep
        exact h.visited i s
    · obtain rfl := Option.some.inj hstep
      exact h.readHeader i
    · exact h.fill hstep
    · obtain rfl := Option.some.inj hstep
      exact ⟨(h.report _).staging, h.unbroken⟩

/-- **No step breaks a promise.** -/
theorem Dependable.next {a : Action} (h : e.Dependable size) (hstep : e.next a = some e') :
    e'.Dependable size := by
  unfold Engine.next at hstep
  split at hstep
  · cases hstep
  cases a with
  | ingest source =>
    cases hi : e.ingestion with
    | some i => simp [Engine.begin, hi] at hstep
    | none =>
      simp only [Engine.begin, hi, Option.some.injEq] at hstep
      subst hstep
      exact ⟨h.staging, h.unbroken⟩
  | read => exact h.read hstep
  | expire =>
    simp only [Engine.expire] at hstep
    split at hstep
    · cases hstep
    · split at hstep
      · obtain ⟨v', -, rfl⟩ := Option.map_eq_some_iff.mp hstep
        exact ⟨h.staging, h.unbroken⟩
      all_goals cases hstep
  | work worker =>
    cases hcrew : e.crew with
    | none => simp [Engine.work, hcrew] at hstep
    | some c =>
      simp only [Engine.work, hcrew, Option.map_eq_some_iff] at hstep
      obtain ⟨⟨c', o⟩, -, rfl⟩ := hstep
      exact Dependable.note? (e := { e with crew := some c' }) ⟨h.staging, h.unbroken⟩ o
  | finish worker ending =>
    cases hcrew : e.crew with
    | none => simp [Engine.finish, hcrew] at hstep
    | some c =>
      simp only [Engine.finish, hcrew, Option.map_eq_some_iff] at hstep
      obtain ⟨⟨c', r⟩, -, rfl⟩ := hstep
      exact Dependable.note (e := { e with crew := some c' }) ⟨h.staging, h.unbroken⟩ _

theorem Dependable.reachable (h : e₀.Dependable size) (hreach : Reachable e₀ e) :
    e.Dependable size := by
  induction hreach with
  | refl => exact h
  | next _ hstep ih => exact ih.next hstep

/-! ## 6. Every promise is kept -/

/-- **No promise is ever broken.**  With whatever options and collaborators an engine is made, nothing
changes when every promise on the way is looked at: not when the engine is made, and not in any step
of whatever can come about.  A buffer has room for everything up to the threshold, and no more was
ever written to one than there is room for.

The audits ask whether a buffer has room for what is put into it, and whether each part is as the
others left it. The threshold is the size of a buffer, and only a payload up to the threshold comes
to one; that is all the steps have to keep (`Dependable`). -/
theorem promises_kept {host : Host} {o : Options} {parts : Collaborators}
    (hmade : (create host o parts).result = .ok e₀) (hreach : Reachable e₀ e) :
    createAudited host o parts = .ok (create host o parts) ∧
      (∀ a, e.nextAudited a = .ok (e.next a)) ∧ e.broken = false ∧
      e.staging.threshold ≤ e.staging.pool.bufferSize ∧
      ∀ b, (e.staging.pool.written b).length ≤ e.staging.pool.bufferSize.toNat := by
  obtain ⟨-, rfl⟩ := of_create hmade
  have hkept := (dependable_ofOptions host o).reachable hreach
  have hfits := hkept.staging.fits
  refine ⟨createAudited_eq host o parts, nextAudited_eq hfits, hkept.unbroken, hfits, ?_⟩
  rw [hkept.staging.bufferSize]
  exact hkept.staging.written

theorem Course.reachable {e₁ : Engine} (h : Course e₁ e) (hreach : Reachable e₀ e₁) :
    Reachable e₀ e := by
  induction h with
  | refl => exact hreach
  | next _ _ _ hstep ih => exact ih.next hstep

/-- A frame that fills a buffer to its brim, and one that claims to have as many bytes as a length
field can say. -/
def lyingStream : Source :=
  .ofBytes (Frame.encode [1] [2, 3, 4] ++ Frame.encodePart [] ++ List.replicate 8 255) 0

/-- No file can have that many bytes: the reading side reads no more, and a buffer is full. -/
theorem promises_kept_lying_length :
    ∃ e, Reachable (ofOptions .empty smallOptions) e ∧
      (e.staging.pool.written 0 = [2, 3, 4] ∧
        e.ingestion.any (fun i => i.stage = .leaving) = true) ∧
      createAudited .empty smallOptions ⟨true, true, true, fun _ => true⟩
        = .ok (create .empty smallOptions ⟨true, true, true, fun _ => true⟩) ∧
      (∀ a, e.nextAudited a = .ok (e.next a)) ∧ e.broken = false ∧
      e.staging.threshold ≤ e.staging.pool.bufferSize ∧
      ∀ b, (e.staging.pool.written b).length ≤ e.staging.pool.bufferSize.toNat := by
  have hrun : (((ofOptions .empty smallOptions).next (.ingest lyingStream)).bind fun e₁ =>
      e₁.follow (List.replicate 14 .read)).any (fun e => e.staging.pool.written 0 = [2, 3, 4] ∧
        e.ingestion.any (fun i => i.stage = .leaving) = true) = true := by decide +kernel
  obtain ⟨e, hrun, hfull⟩ := (Option.any_eq_true _ _).mp hrun
  obtain ⟨e₁, hbegin, hfollow⟩ := Option.bind_eq_some_iff.mp hrun
  have hreach : Reachable (ofOptions .empty smallOptions) e :=
    (Course.refl.follow hfollow).reachable (Reachable.refl.next hbegin)
  have hmade : (create .empty smallOptions ⟨true, true, true, fun _ => true⟩).result
      = .ok (ofOptions .empty smallOptions) := rfl
  exact ⟨e, hreach, of_decide_eq_true hfull, promises_kept hmade hreach⟩

end Engine

end Intake
