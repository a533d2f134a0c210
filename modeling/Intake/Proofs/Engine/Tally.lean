/-
# What a call counts

The `IngestProgress` of an engine counts the bytes that its calls take from their streams.  For a
call whose stream does not fail the count is right at any time: it has grown by what the stream has
given so far, and that is the frames that were read, and what the reading side has taken of the
bytes behind them (`Tallied`).  When reading has come to its end this is as far as a reader gets in
front of what is no frame (`Frame.Limits.extent`), and it stays there until the call has returned.

With the bytes it is noted where the contents are kept, which is a matter of their sizes alone.
-/
import Mathlib
import Intake.Proofs.Crew.Visiting
import Intake.Proofs.Engine.Contract
import Intake.Proofs.Frame.Extent

namespace Intake.Engine

variable {host : Host} {o : Options} {source : Source} {k : Call} {start : UInt64}
  {e e₀ e₁ e' : Engine} {c : Crew Record} {queued : List Record}
  {produced : List (Record × Bytes)} {ahead : Bytes} {a : Action}

/-! ## 1. How far a call has come -/

/-- A call for a stream that does not fail, with room for temporary files all the time. -/
structure Call.Plain (k : Call) : Prop where
  sound : k.Sound
  room : ∀ records, k.room records = true
  clean : k.source.failure = none

theorem Call.Plain.limitsAt (h : k.Plain) (records : Nat) : k.limitsAt records = k.limits := by
  unfold Call.limitsAt
  rw [h.room]
  rfl

/-- What is ahead once these records were read. -/
def Call.remainder (k : Call) (produced : List (Record × Bytes)) : Bytes :=
  k.source.rest.drop (Frame.encodeAll (produced.map frameOf)).length

theorem Call.Reads.remainder_eq (h : k.Reads produced ahead) : k.remainder produced = ahead := by
  unfold Call.remainder
  rw [h.split, List.drop_left]

/-- How many of the bytes ahead the reading side has taken. -/
def Phase.reach (l : Frame.Limits) (ahead : Bytes) : Phase → Nat
  | .between => 0
  | .inside _ => Frame.headerSize ahead
  | .over => l.extent ahead

/-- How far a call has come; when it has returned its reading is over. -/
def phaseOf : Option Ingestion → Option Phase
  | some i => i.stage.phase
  | none => some .over

/-- How many bytes of its stream a call has taken. -/
def Call.position (k : Call) (produced : List (Record × Bytes)) (i : Option Ingestion) : Nat :=
  (Frame.encodeAll (produced.map frameOf)).length
    + ((phaseOf i).map (Phase.reach k.limits (k.remainder produced))).getD 0

theorem Call.position_of_phase {i : Option Ingestion} {p : Phase} (h : phaseOf i = some p) :
    k.position produced i = (Frame.encodeAll (produced.map frameOf)).length
      + p.reach k.limits (k.remainder produced) := by
  unfold position
  rw [h]
  rfl

theorem Underway.position_le (h : Underway k e c queued produced ahead) :
    k.position produced e.ingestion ≤ k.source.rest.length := by
  have hlength : k.source.rest.length
      = (Frame.encodeAll (produced.map frameOf)).length + ahead.length := by
    rw [h.reads.split, List.length_append]
  have hplaced := h.placed
  rw [hlength]
  cases hphase : phaseOf e.ingestion with
  | none =>
    unfold Call.position
    rw [hphase]
    exact Nat.le_add_right _ _
  | some phase =>
    rw [Call.position_of_phase hphase, h.reads.remainder_eq]
    refine Nat.add_le_add_left ?_ _
    rcases phase with _ | header | _
    · exact Nat.zero_le _
    · cases hi : e.ingestion with
      | none =>
        rw [hi] at hphase
        cases hphase
      | some i =>
        rw [hi] at hphase hplaced
        obtain ⟨-, hinside⟩ := hplaced
        rw [show i.stage.phase = some (.inside header) from hphase] at hinside
        exact hinside.2.whole
    · exact k.limits.extent_le ahead

theorem length_encodeAll_produce {rest : Bytes} {r : Record} {f : Bytes × Bytes}
    (hleads : k.limits.Leads ahead f rest) (hframe : frameOf (r, f.2) = f) :
    (Frame.encodeAll ((produced ++ [(r, f.2)]).map frameOf)).length
      = (Frame.encodeAll (produced.map frameOf)).length + Frame.headerSize ahead + f.2.length := by
  have hone : Frame.encodeAll [f] = Frame.encode f.1 f.2 := by simp [Frame.encodeAll]
  rw [List.map_append, List.map_singleton, hframe, Frame.encodeAll_append, List.length_append, hone,
    Frame.length_encode, hleads.headerSize_eq]
  omega

/-- **The bytes are counted that were taken**, and contents are kept where their sizes say. -/
structure Tallied (k : Call) (start : UInt64) (produced : List (Record × Bytes)) (e : Engine) :
    Prop where
  counted : e.progress.bytes = start + UInt64.ofNat (k.position produced e.ingestion)
  delivered : ∀ i, e.ingestion = some i →
    i.frames.source.delivered = k.source.delivered + k.position produced e.ingestion
  kinds : ∀ p ∈ produced,
    p.1.content.kind = if k.limits.threshold.toNat < p.2.length then .spill else .buffer

/-! ## 2. Steps that take nothing -/

theorem Tallied.stay (h : Tallied k start produced e) (hprogress : e'.progress = e.progress)
    (hphase : phaseOf e'.ingestion = phaseOf e.ingestion)
    (hframes : ∀ i', e'.ingestion = some i' → ∃ i, e.ingestion = some i ∧ i'.frames = i.frames) :
    Tallied k start produced e' := by
  have hposition : k.position produced e'.ingestion = k.position produced e.ingestion := by
    unfold Call.position
    rw [hphase]
  refine ⟨?_, ?_, h.kinds⟩
  · rw [hprogress, hposition]
    exact h.counted
  · intro i' hi'
    obtain ⟨i, hi, hsame⟩ := hframes i' hi'
    rw [hsame, hposition]
    exact h.delivered i hi

theorem Tallied.move (h : Tallied k start produced e) {i i' : Ingestion}
    (hi : e.ingestion = some i) (hprogress : e'.progress = e.progress)
    (hi' : e'.ingestion = some i') (hframes : i'.frames = i.frames)
    (hphase : i'.stage.phase = i.stage.phase) : Tallied k start produced e' := by
  refine h.stay hprogress (by rw [hi, hi']; exact hphase) ?_
  intro j hj
  obtain rfl : i' = j := Option.some.inj (hi'.symm.trans hj)
  exact ⟨i, hi, hframes⟩

theorem Tallied.return (h : Tallied k start produced e) {i : Ingestion}
    (hi : e.ingestion = some i) (hprogress : e'.progress = e.progress)
    (hi' : e'.ingestion = none) (hphase : i.stage.phase = some .over) :
    Tallied k start produced e' := by
  refine h.stay hprogress (by rw [hi, hi']; exact hphase.symm) ?_
  intro j hj
  rw [hi'] at hj
  cases hj

theorem Tallied.same (h : Tallied k start produced e) (hsame : SameCall e e')
    (hprogress : e'.progress = e.progress) : Tallied k start produced e' := by
  refine h.stay hprogress (by rw [hsame.ingestion]) ?_
  intro i hi
  rw [hsame.ingestion] at hi
  exact ⟨i, hi, rfl⟩

theorem note_progress (e : Engine) (o : Occurrence Record) : (e.note o).progress = e.progress := by
  unfold note
  cases o <;> simp only [settleRecord] <;> split <;> rfl

theorem work_progress {worker : Nat} (hstep : e.work worker = some e') :
    e'.progress = e.progress := by
  cases hcrew : e.crew with
  | none => simp [Engine.work, hcrew] at hstep
  | some c =>
    obtain ⟨c', o, -, rfl, -⟩ := of_work hcrew hstep
    cases o with
    | none => rfl
    | some o => exact note_progress _ o

theorem finish_progress {worker : Nat} {ending : Ending} (hstep : e.finish worker ending = some e') :
    e'.progress = e.progress := by
  cases hcrew : e.crew with
  | none => simp [Engine.finish, hcrew] at hstep
  | some c =>
    obtain ⟨c', r, -, rfl, -⟩ := of_finish hcrew hstep
    exact note_progress _ _

section Reading

variable {call : Nat} {frames : Frame.Reader} {clean : Bool}

/-- **A step of a visit to the crew** takes nothing from the stream.  The crew turns nothing away,
as it is open as long as records come. -/
theorem Tallied.visited {v : Crew.Visit Record} {s : Crew.Visit.Step Record}
    (ht : Tallied k start produced e) (h : Underway k e c queued produced ahead)
    (hi : e.ingestion = some ⟨call, frames, clean, .visiting v⟩) (hs : Crew.Stride c v s) :
    Tallied k start produced (e.visited ⟨call, frames, clean, .visiting v⟩ s) := by
  obtain ⟨hfits, hplaced⟩ := h.at_visit hi
  cases hs with
  | isStarted hstarted =>
    have hfresh : c.started = false := hfits.fresh rfl
    rw [hfresh] at hstarted
    cases hstarted
  | keptOut r hshut =>
    have haccepting : c.accepting = true := hfits.accepting rfl
    rw [haccepting] at hshut
    cases hshut
  | refused r cause hput =>
    exact absurd hput (Channel.put_not_fails (hfits.opened rfl) h.calm.queue)
  | inTime ms expired _ => exact ht.return hi rfl rfl rfl
  | tooLate ms => exact ht.return hi rfl rfl rfl
  | stopsIntake => exact absurd hplaced.2 id
  | marks => exact absurd hplaced.2 id
  | interrupts => exact absurd hplaced.2 id
  | _ => exact ht.move hi rfl rfl rfl rfl

/-! ## 3. Steps that take bytes -/

theorem Tallied.advance {s t : Frame.Session} {n : Nat} {produced' : List (Record × Bytes)}
    {i i' : Ingestion} (h : Tallied k start produced e) (hi : e.ingestion = some i)
    (hs : s.progress = e.progress) (hframes : s.reader.source = i.frames.source)
    (hcounts : s.Counts n 0 t) (hprogress : e'.progress = t.progress)
    (hi' : e'.ingestion = some i') (hframes' : i'.frames = t.reader)
    (hposition : k.position produced' (some i') = k.position produced (some i) + n)
    (hkinds : ∀ p ∈ produced',
      p.1.content.kind = if k.limits.threshold.toNat < p.2.length then .spill else .buffer) :
    Tallied k start produced' e' := by
  have hcounted := h.counted
  have hdelivered := h.delivered i hi
  rw [hi] at hcounted hdelivered
  refine ⟨?_, ?_, hkinds⟩
  · rw [hprogress, hcounts.progress, hs, hcounted, hi', hposition, Frame.Session.add_ofNat_add]
    rfl
  · intro j hj
    obtain rfl : i' = j := Option.some.inj (hi'.symm.trans hj)
    rw [hframes', hcounts.delivered, hframes, hdelivered, hi', hposition, Nat.add_assoc]

/-- **Reading a header** takes it, or as much as there is to take. -/
theorem Tallied.readHeader (ht : Tallied k start produced e)
    (h : Underway k e c queued produced ahead) (hk : k.Plain)
    (hi : e.ingestion = some ⟨call, frames, clean, .reading⟩) :
    Tallied k start produced (e.readHeader ⟨call, frames, clean, .reading⟩) := by
  have hplaced := h.placed
  rw [hi] at hplaced
  obtain ⟨-, -, hfaces⟩ := hplaced
  have hahead := h.reads.remainder_eq
  have hcases := Frame.Session.readHeader_extent
    (s := e.session ⟨call, frames, clean, .reading⟩) (l := k.limits) hfaces.maxMetadata
    (hfaces.failure.trans hk.clean)
  have hrest : (e.session ⟨call, frames, clean, .reading⟩).reader.source.rest = ahead := hfaces.rest
  rw [hrest] at hcases
  rcases hcases with ⟨t, hheader, hcounts⟩ | ⟨exit, t, hheader, hcounts⟩
  · simp only [Engine.readHeader, hheader]
    refine ht.advance hi rfl rfl hcounts rfl rfl rfl ?_ ht.kinds
    rw [Call.position_of_phase (p := .inside _) rfl, Call.position_of_phase (p := .between) rfl, hahead]
    rfl
  · have hover : ∀ i' : Ingestion, i'.stage.phase = some .over →
        k.position produced (some i')
          = k.position produced (some ⟨call, frames, clean, .reading⟩) + k.limits.extent ahead := by
      intro i' hphase
      rw [Call.position_of_phase (i := some i') hphase, Call.position_of_phase (p := .between) rfl,
        hahead]
      rfl
    cases exit with
    | failed cause =>
      obtain ⟨staging, -, hended⟩ :=
        readingEnded_eq (e.resume t) ⟨call, t.reader, clean, .reading⟩ cause
      simp only [Engine.readHeader, hheader, hended]
      exact ht.advance hi rfl rfl hcounts rfl rfl rfl (hover _ rfl) ht.kinds
    | thrown =>
      simp only [Engine.readHeader, hheader]
      have hleft : Tallied k start produced
          ((e.resume t).enter ⟨call, t.reader, clean, .reading⟩ .leaving) :=
        ht.advance hi rfl rfl hcounts rfl rfl rfl (hover _ rfl) ht.kinds
      exact hleft.return rfl rfl rfl rfl

theorem kinds_produce {r : Record} {bytes : Bytes}
    (h : ∀ p ∈ produced,
      p.1.content.kind = if k.limits.threshold.toNat < p.2.length then .spill else .buffer)
    (hkind : r.content.kind = if k.limits.threshold.toNat < bytes.length then .spill else .buffer) :
    ∀ p ∈ produced ++ [(r, bytes)],
      p.1.content.kind = if k.limits.threshold.toNat < p.2.length then .spill else .buffer := by
  intro p hp
  rcases List.mem_append.mp hp with hp | hp
  · exact h p hp
  · obtain rfl := List.mem_singleton.mp hp
    exact hkind

/-- **Taking a content** counts it, or what there is of it. -/
theorem Tallied.fill {header : Frame.Header} (ht : Tallied k start produced e)
    (h : Underway k e c queued produced ahead) (hk : k.Plain) (hroom : e.HasRoom)
    (hi : e.ingestion = some ⟨call, frames, clean, .filling header⟩)
    (hstep : e.fill ⟨call, frames, clean, .filling header⟩ header = some e')
    {new : Option (Record × Bytes)} (hnew : e.recordRead e' = new.map shown) :
    Tallied k start (produced ++ new.toList) e' := by
  have hplaced := h.placed
  rw [hi] at hplaced
  obtain ⟨-, -, ⟨hrest, hfailure, -, -⟩, hsmall, hwhole, rfl⟩ := hplaced
  have hahead := h.reads.remainder_eq
  have hclean := hfailure.trans hk.clean
  have hgoes : e.staging.materialize frames.source (Frame.headerAt ahead).rawSize ≠ .waits := by
    intro hwaits
    simp [Engine.fill, session, Frame.Session.readContent, hwaits] at hstep
  have hheeds := h.heeds hk.sound frames.source
    (fun _ => ⟨fun _ => hk.room _, fun _ => hroom⟩) hgoes
  rw [hk.limitsAt] at hheeds hsmall
  have hbefore : k.position produced
      (some ⟨call, frames, clean, .filling (Frame.headerAt ahead)⟩)
      = (Frame.encodeAll (produced.map frameOf)).length + Frame.headerSize ahead := by
    rw [Call.position_of_phase (p := .inside _) rfl, hahead]
    rfl
  by_cases hstuck : k.limits.Stuck ahead
  · obtain ⟨d, t, hd, hcontent, hread, hreceived, -, -⟩ := Frame.Session.content_of_stuck
      (t := e.session ⟨call, frames, clean, .filling (Frame.headerAt ahead)⟩) hheeds hsmall hwhole
      hstuck hrest
    obtain ⟨n, hextent, hcounts⟩ := Frame.Session.content_extent (h.within hk.sound) hclean hsmall
      hwhole hstuck hrest hd hcontent hreceived
    have hfailing : (e.session ⟨call, frames, clean, .filling (Frame.headerAt ahead)⟩
        ).reader.source.failure = k.source.failure := hfailure
    rw [hfailing] at hread
    obtain ⟨staging, -, hended⟩ := readingEnded_eq (e.resume t)
      ⟨call, t.reader, clean, .filling (Frame.headerAt ahead)⟩
      (k.limits.contentCause k.source.failure.isSome ahead)
    simp only [Engine.fill, hread, hended, Option.some.injEq] at hstep
    subst hstep
    have hnone : new = none := by
      simp only [recordRead, hi] at hnew
      exact Option.map_eq_none_iff.mp hnew.symm
    rw [hnone, Option.toList_none, List.append_nil]
    refine ht.advance hi rfl rfl hcounts rfl rfl rfl ?_ ht.kinds
    rw [hbefore, Call.position_of_phase (p := .over) rfl, hahead, Nat.add_assoc, hextent]
    rfl
  · simp only [Frame.Limits.Stuck, not_forall, not_not] at hstuck
    obtain ⟨f, rest, hleads⟩ := hstuck
    obtain ⟨d, r, t, hd, hread, hkept⟩ := Frame.Session.content_of_leads
      (t := e.session ⟨call, frames, clean, .filling (Frame.headerAt ahead)⟩) hheeds hleads hrest
    have hcounts := hkept.counts hd (hrest.trans hleads.drop_header)
    simp only [Engine.fill, hread, Option.some.injEq] at hstep
    have hrecord : new = some (r, f.2) := by
      have hbytes : t.staging.remaining r.content = .ok f.2 :=
        (Staging.Noted.remaining hkept.received.staging _).trans hkept.remaining
      rw [← hstep] at hnew
      simp only [recordRead, hi] at hnew
      cases new with
      | none => cases hnew
      | some p =>
        obtain ⟨hr, hb⟩ := Prod.mk.inj (Option.some.inj hnew)
        obtain hb := Except.ok.inj (hbytes.symm.trans hb)
        exact congrArg some (Prod.ext hr.symm hb.symm)
    subst hstep hrecord
    have hframe : frameOf (r, f.2) = f := by rw [frameOf, hkept.metadata]
    refine ht.advance hi rfl rfl hcounts rfl rfl rfl ?_ (kinds_produce ht.kinds hkept.kind)
    rw [hbefore, Call.position_of_phase (p := .between) rfl]
    exact length_encodeAll_produce hleads hframe

/-! ## 4. Every step -/

/-- **Every step of the reading side** keeps the count right. -/
theorem Tallied.read (ht : Tallied k start produced e) (h : Underway k e c queued produced ahead)
    (hk : k.Plain) (hroom : e.HasRoom) (hstep : e.read = some e')
    {new : Option (Record × Bytes)} (hnew : e.recordRead e' = new.map shown) :
    Tallied k start (produced ++ new.toList) e' := by
  unfold Engine.read at hstep
  cases hi : e.ingestion with
  | none => simp [hi] at hstep
  | some i =>
    obtain ⟨call, frames, clean, stage⟩ := i
    simp only [hi] at hstep
    have hnone : (∀ header, stage ≠ .filling header) → produced ++ new.toList = produced := by
      intro hstage
      rw [recordRead_of_stage hi hstage] at hnew
      rw [Option.map_eq_none_iff.mp hnew.symm, Option.toList_none, List.append_nil]
    cases stage with
    | joining =>
      have hplaced := h.placed
      rw [hi] at hplaced
      exact absurd hplaced.2 id
    | visiting v =>
      rw [hnone nofun]
      simp only [visit_eq h.crew, Option.map_eq_some_iff] at hstep
      obtain ⟨s, hs, rfl⟩ := hstep
      exact ht.visited h hi (Crew.stride_of_step hs)
    | reading =>
      rw [hnone nofun]
      obtain rfl := Option.some.inj hstep
      exact ht.readHeader h hk hi
    | filling header => exact ht.fill h hk hroom hi hstep hnew
    | leaving =>
      rw [hnone nofun]
      obtain rfl := Option.some.inj hstep
      exact ht.move hi rfl rfl rfl rfl

end Reading

theorem Tallied.expired (ht : Tallied k start produced e) (hstep : e.expire = some e') :
    Tallied k start produced e' := by
  obtain ⟨call, frames, clean, ms, hi, rfl⟩ := of_expire hstep
  exact ht.move hi rfl rfl rfl rfl

/-- **Every step keeps the count right**, whoever takes it. -/
theorem Tallied.next (ht : Tallied k start produced e) (h : Goes k produced e) (hk : k.Plain)
    (hroom : e.HasRoom) (ha : a.IsOrdinary) (hstep : e.next a = some e') :
    ∃ new : Option (Record × Bytes), Goes k (produced ++ new.toList) e' ∧
      Tallied k start (produced ++ new.toList) e' := by
  obtain ⟨new, hgoes, hnew⟩ :=
    h.next hk.sound (fun _ _ => ⟨fun _ => hk.room _, fun _ => hroom⟩) ha hstep
  refine ⟨new, hgoes, ?_⟩
  have hnone : e.recordRead e' = none → produced ++ new.toList = produced := by
    intro hread
    rw [hread] at hnew
    rw [Option.map_eq_none_iff.mp hnew.symm, Option.toList_none, List.append_nil]
  obtain ⟨c, queued, ahead, h⟩ := h
  unfold Engine.next at hstep
  split at hstep
  · cases hstep
  cases a with
  | ingest source => exact absurd ha id
  | read => exact ht.read h hk hroom hstep hnew
  | expire =>
    rw [hnone (recordRead_of_expire hstep)]
    exact ht.expired hstep
  | work worker =>
    rw [hnone (recordRead_of_same (work_same hstep).ingestion)]
    exact ht.same (work_same hstep) (work_progress hstep)
  | finish worker ending =>
    rw [hnone (recordRead_of_same (finish_same hstep).ingestion)]
    exact ht.same (finish_same hstep) (finish_progress hstep)

/-! ## 5. A whole call -/

theorem tallied_assemble {e₀ : Engine} (hprogress : e.progress = e₀.progress) :
    Tallied (callFor host o e₀.results (fun _ => true) source) e₀.progress.bytes []
      (e.assemble ⟨e₀.results.length, .create source o.maxMetadata, false, .joining⟩) := by
  refine ⟨?_, ?_, nofun⟩
  · rw [Call.position_of_phase (p := .between) rfl]
    exact (congrArg Progress.bytes hprogress).trans (UInt64.add_zero _).symm
  · intro i hi
    rw [Call.position_of_phase (p := .between) rfl, ← Option.some.inj hi]
    rfl

theorem AtRest.tallied_first (h : AtRest host o e₀) (hbegin : e₀.next (.ingest source) = some e₁)
    (ha : a.IsOrdinary) (hstep : e₁.next a = some e) :
    Tallied (callFor host o e₀.results (fun _ => true) source) e₀.progress.bytes [] e := by
  obtain ⟨crew, ingestion, rfl⟩ := h.of_first_step hbegin ha hstep
  exact tallied_assemble rfl

theorem plain_callFor (hfew : FewWorkers o) (results : List Answer) (hclean : source.failure = none) :
    (callFor host o results (fun _ => true) source).Plain :=
  ⟨sound_callFor hfew results _ source, fun _ => rfl, hclean⟩

/-- **The count is right at any time of a call.**  The induction is on the steps. -/
theorem AtRest.tallies (h : AtRest host o e₀) (hfew : FewWorkers o) (hclean : source.failure = none)
    (hbegin : e₀.next (.ingest source) = some e₁) (hcourse : Course e₁ e) :
    e = e₁ ∨ ∃ produced, Goes (callFor host o e₀.results (fun _ => true) source) produced e ∧
      Tallied (callFor host o e₀.results (fun _ => true) source) e₀.progress.bytes produced e := by
  induction hcourse with
  | refl => exact Or.inl rfl
  | next _ hroom ha hstep ih =>
    right
    rcases ih with rfl | ⟨produced, hgoes, htallied⟩
    · exact ⟨[], h.first_step hfew hbegin ha hstep, h.tallied_first hbegin ha hstep⟩
    · obtain ⟨new, hnext⟩ :=
        htallied.next hgoes (plain_callFor hfew e₀.results hclean) hroom ha hstep
      exact ⟨_, hnext⟩

end Intake.Engine
