/-
# Calls one after the other

A season is the life of one `IngestEngine`, call of `Ingest` by call.  At any time of it the calls
are in one of three states.  Those in front of the last crew are over: what they have read and
returned is what their streams say, and the task was run once on each of their records (`Chapter`).
The call of the last crew is under way, or has returned and left some workers behind (`Goes`).  And
a call that waits for these has read nothing yet (`InOrder.waiting`); what happens meanwhile is a
matter of the engine without it (`Diary.leftover`).

What a call comes to is a matter of whether temporary files can be made.  This is taken as foreseen,
by call and by place (`Diary.Foreseen`), and in every season it can be (`Season.exists_foreseen`).
-/
import Mathlib
import Intake.Proofs.Engine.Diary

namespace Intake.Engine

variable {host : Host} {o : Options} {makes : Nat → Nat → Bool} {d d' : Diary} {e e' : Engine}
  {a : Action} {call : Nat} {k : Call} {c c' : Crew Record} {queued queued' : List Record}
  {produced : List (Record × Bytes)} {ahead : Bytes} {source : Source} {results : List Answer}

/-! ## 1. Calls that are over -/

/-- A call by its number, with the limits and the room for files that it finds. -/
structure Call.Of (k : Call) (host : Host) (o : Options) (makes : Nat → Nat → Bool) (call : Nat) :
    Prop where
  number : k.number = call
  limits : k.limits = limitsOf host o
  room : k.room = makes call

/-- **What a call has come to that is over.**  It has read the frames in front of the first error and
has returned whether that was the clean end of the stream, or an exception has left it; its records
have gone into the queue in order, and the task was run once on each, with the number of this call
and the content bytes of the frame. -/
structure Chapter (d : Diary) (k : Call) (produced : List (Record × Bytes)) (ahead : Bytes)
    (result : Answer) : Prop where
  stream : d.streams[k.number]? = some k.source
  reads : k.Reads produced ahead
  stuck : (k.limitsAt produced.length).Stuck ahead
  result : result = k.answer produced.length ahead
  read : d.readIn k.number = produced.map shown
  accepted : d.engine.acceptedIn k.number = produced.map Prod.fst
  ran : (d.engine.ranIn k.number).Perm (produced.map shown)

/-- The first calls are over, with these results. -/
def Told (host : Host) (o : Options) (makes : Nat → Nat → Bool) (results : List Answer)
    (d : Diary) : Prop :=
  ∀ (call : Nat) (result : Answer), results[call]? = some result →
    ∃ k produced ahead, Call.Of k host o makes call ∧ Chapter d k produced ahead result

theorem Chapter.keep {result : Answer} (h : Chapter d k produced ahead result)
    (hstreams : d.streams <+: d'.streams) (hread : d'.readIn k.number = d.readIn k.number)
    (hquiet : Quiet k.number d.engine d'.engine) : Chapter d' k produced ahead result := by
  refine ⟨?_, h.reads, h.stuck, h.result, hread.trans h.read, hquiet.accepted.trans h.accepted,
    ?_⟩
  · obtain ⟨more, hmore⟩ := hstreams
    have hlt : k.number < d.streams.length := (List.getElem?_eq_some_iff.mp h.stream).1
    rw [← hmore, List.getElem?_append_left hlt]
    exact h.stream
  · rw [hquiet.ran]
    exact h.ran

theorem Told.keep (h : Told host o makes results d) (hstreams : d.streams <+: d'.streams)
    (hread : ∀ call < results.length, d'.readIn call = d.readIn call)
    (hquiet : ∀ call < results.length, Quiet call d.engine d'.engine) :
    Told host o makes results d' := by
  intro call result hresult
  obtain ⟨k, produced, ahead, hk, hchapter⟩ := h call result hresult
  have hlt : k.number < results.length := by
    rw [hk.number]
    exact (List.getElem?_eq_some_iff.mp hresult).1
  exact ⟨k, produced, ahead, hk, hchapter.keep hstreams (hread _ hlt) (hquiet _ hlt)⟩

theorem Told.concat {result : Answer} (h : Told host o makes results d)
    (hk : Call.Of k host o makes results.length) (hchapter : Chapter d k produced ahead result) :
    Told host o makes (results ++ [result]) d := by
  intro call result' hresult
  rcases getElem?_concat_cases hresult with hresult | ⟨rfl, rfl⟩
  · exact h call result' hresult
  · exact ⟨k, produced, ahead, hk, hchapter⟩

/-! ## 2. The call of the last crew -/

/-- **Where an engine stands** when no call waits for another: it has never had a crew; or the calls
before that of the crew are over, and this one is under way or has returned. -/
inductive Stands (host : Host) (o : Options) (makes : Nat → Nat → Bool) (d : Diary) : Prop where
  | untouched : d.engine.crew = none → AtRest host o d.engine → d.engine.results = [] →
      d.records = [] → d.files = [] → Stands host o makes d
  | called (results : List Answer) (source : Source) (produced : List (Record × Bytes)) :
      Told host o makes results d → d.streams[results.length]? = some source →
      (∀ r ∈ d.records, r.1 ≤ results.length) →
      d.readIn results.length = produced.map shown →
      d.Asked results.length produced.length →
      Goes (callFor host o results (makes results.length) source) produced d.engine →
      Stands host o makes d

theorem readIn_next (e' : Engine) (streams : List Source) (files : List (Nat × Nat × Bool))
    (new : Option (Record × Except ReadFault Bytes)) (number : Nat) :
    ({ engine := e', streams, files,
       records := d.records ++ (new.map fun r => (number, r)).toList } : Diary).readIn call
      = d.readIn call ++ if number = call then new.toList else [] := by
  unfold Diary.readIn
  rw [List.filter_append, List.map_append]
  cases new with
  | none => simp
  | some r =>
    by_cases hnumber : number = call
    · simp [hnumber]
    · simp [hnumber]

theorem Goes.answered (h : Goes k produced e) :
    (e.ingestion = none ∧ ∃ result, e.results = k.results ++ [result]) ∨
      (e.ingestion.isSome = true ∧ e.results = k.results) := by
  obtain ⟨c, queued, ahead, h⟩ := h
  have hplaced := h.placed
  cases hi : e.ingestion with
  | none =>
    rw [hi] at hplaced
    exact Or.inl ⟨rfl, _, hplaced.2⟩
  | some i =>
    rw [hi] at hplaced
    exact Or.inr ⟨rfl, hplaced.1⟩

theorem Goes.begun (h : Goes k produced d.engine) : d.begun = k.results.length + 1 := by
  unfold Diary.begun Diary.call
  rcases h.answered with ⟨hi, result, hresults⟩ | ⟨hi, hresults⟩
  · rw [hi, hresults, List.length_append]
    rfl
  · obtain ⟨i, hi⟩ := Option.isSome_iff_exists.mp hi
    rw [hi, hresults]
    rfl

/-- Without a crew and without a call there is nothing to do but to begin one. -/
theorem AtRest.still (h : AtRest host o e) (hcrew : e.crew = none) (ha : a.IsOrdinary) :
    e.next a ≠ some e' := by
  intro hstep
  unfold Engine.next at hstep
  split at hstep
  · cases hstep
  cases a with
  | ingest source => exact ha
  | read => simp [Engine.read, h.idle] at hstep
  | expire => simp [Engine.expire, h.idle] at hstep
  | work worker => simp [Engine.work, hcrew] at hstep
  | finish worker ending => simp [Engine.finish, hcrew] at hstep

theorem isSome_ingestion_of_recordRead {r : Record × Except ReadFault Bytes}
    (h : e.recordRead e' = some r) : e.ingestion.isSome = true := by
  cases hi : e.ingestion with
  | none => simp [recordRead, hi] at h
  | some i => rfl

/-- **Every step of the reading side and of a worker** keeps the calls apart: what is read and what
is run belongs to the call of the crew. -/
theorem Stands.next (h : Stands host o makes d) (hfew : FewWorkers o) (ha : a.IsOrdinary)
    (hroom : a = .read → d.engine.Finds (makes d.call (d.readIn d.call).length))
    (hstep : d.next a = some d') : Stands host o makes d' ∧ d'.begun = d.begun := by
  obtain ⟨e', hnext, hd'⟩ := Option.map_eq_some_iff.mp hstep
  cases h with
  | untouched hcrew hrest hresults hrecords hfiles => exact absurd hnext (hrest.still hcrew ha)
  | called results source produced htold hstream hrecords hread hasked hgoes =>
    have hgoing : d.engine.ingestion.isSome = true → d.call = results.length := by
      intro hi
      rcases hgoes.answered with ⟨hnone, -⟩ | ⟨-, hresults⟩
      · rw [hnone] at hi
        cases hi
      · exact congrArg List.length hresults
    have hplace : d.engine.AsksForFile →
        d.call = results.length ∧ (d.readIn d.call).length = produced.length := by
      rintro ⟨i, header, hi, -⟩
      have hcall : d.call = results.length := hgoing (by rw [hi]; rfl)
      rw [hcall, hread, List.length_map]
      exact ⟨rfl, rfl⟩
    have hfinds : a = .read → d.engine.Finds (makes results.length produced.length) := by
      intro hread hasks
      obtain ⟨hcall, hlength⟩ := hplace hasks
      rw [← hcall, ← hlength]
      exact hroom hread hasks
    obtain ⟨new, hgoes', hnew⟩ := hgoes.next (sound_callFor hfew results _ source) hfinds ha hnext
    have hasked' : d'.Asked results.length (produced.length + new.toList.length) := by
      obtain ⟨c, queued, ahead, hunderway⟩ := hgoes'
      refine hasked.next ha hstep (hd' ▸ hunderway.unbroken) hplace ?_
      intro hnone
      obtain rfl : new = none := Option.toList_eq_nil_iff.mp (List.length_eq_zero_iff.mp hnone)
      exact hd' ▸ hnew
    subst hd'
    have hcall : d.engine.call = results.length := by
      obtain ⟨c, queued, ahead, hunderway⟩ := hgoes
      exact hunderway.call
    -- A record that was read was read in the call that goes on, which is that of the crew.
    have htagged : (d.engine.recordRead e').map (fun r => (d.call, r))
        = (d.engine.recordRead e').map fun r => (results.length, r) := by
      cases hr : d.engine.recordRead e' with
      | none => rfl
      | some r => rw [hgoing (isSome_ingestion_of_recordRead hr)]
    rw [htagged, hnew]
    refine ⟨.called results source (produced ++ new.toList) ?_ ?_ ?_ ?_ ?_ hgoes', ?_⟩
    · refine htold.keep (List.prefix_append _ _) ?_ ?_
      · intro call hlt
        rw [readIn_next, if_neg hlt.ne', List.append_nil]
      · intro call hlt
        exact quiet_next (by omega) hnext
    · have hlt := (List.getElem?_eq_some_iff.mp hstream).1
      rw [List.getElem?_append_left hlt]
      exact hstream
    · intro r hr
      rcases List.mem_append.mp hr with hr | hr
      · exact hrecords r hr
      · rw [Option.mem_toList, Option.map_map, Option.map_eq_some_iff] at hr
        obtain ⟨p, -, rfl⟩ := hr
        exact Nat.le_refl _
    · rw [readIn_next, if_pos rfl, hread, List.map_append]
      cases new <;> rfl
    · rw [List.length_append]
      exact hasked'
    · rw [hgoes.begun, Goes.begun hgoes']

/-! ## 3. From one call to the next -/

/-- When all workers have left a call that has returned, there is nothing left of it. -/
theorem Underway.alive_eq_zero (h : Underway k e c queued produced ahead)
    (hi : e.ingestion = none) (hgone : c.allGone = true) : c.alive = 0 := by
  have hfits := h.fits
  rw [hi] at hfits
  have hstaffed : c.Staffed queued 0 := hfits.attended
  exact hstaffed.alive_eq_zero hgone

theorem Goes.shut (h : Goes k produced e) (hi : e.ingestion = none) :
    Goes k produced { e with
      crew := e.crew.map fun c => c.closeIntake.closeQueue, ingestion := none } := by
  obtain ⟨c, queued, ahead, h⟩ := h
  have hfits := h.fits
  have hplaced := h.placed
  rw [hi] at hfits hplaced
  have hstaffed : c.Staffed queued 0 := hfits.attended
  refine ⟨c.closeIntake.closeQueue, queued, ahead, h.turn (i := none)
    (aside_quiet (.refl _) (sameJobs_desk c _ _ _ _ _ _) _ _ _ _) ?_ h.holds hi rfl rfl rfl
    ⟨⟨hstaffed.hired, hstaffed.alive, fun w hw hgone => ⟨rfl, (hstaffed.leaving w hw hgone).2⟩⟩,
      nofun, nofun, nofun⟩ rfl hplaced⟩
  show e.crew.map _ = _
  rw [h.crew]
  rfl

/-- **When the last workers have left, all calls are over.** -/
theorem Stands.over (h : Stands host o makes d) (hi : d.engine.ingestion = none)
    (hgone : ∀ c, d.engine.crew = some c → c.allGone = true) :
    AtRest host o d.engine ∧ Told host o makes d.engine.results d ∧
      (∀ r ∈ d.records, r.1 < d.call) ∧ ∀ x ∈ d.files, x.1 < d.call := by
  cases h with
  | untouched _ hrest hresults hrecords hfiles =>
    refine ⟨hrest, ?_, ?_, ?_⟩
    · rw [hresults]
      nofun
    · rw [hrecords]
      nofun
    · rw [hfiles]
      nofun
  | called results source produced htold hstream hrecords hread hasked hgoes =>
    obtain ⟨c, queued, ahead, h⟩ := hgoes
    have halive := h.alive_eq_zero hi (hgone c h.crew)
    obtain ⟨-, -, hran, -, -, hstuck, hresults, -, -⟩ := h.all_done hi halive
    have haccepted := h.accepted
    rw [hi] at haccepted
    have hlength : d.call = results.length + 1 := by
      rw [Diary.call, hresults, List.length_append]
      rfl
    refine ⟨h.atRest hi halive, ?_, ?_, ?_⟩
    · rw [hresults]
      exact htold.concat (k := callFor host o results (makes results.length) source)
        ⟨rfl, rfl, rfl⟩ ⟨hstream, h.reads, hstuck, rfl, hread,
          (List.append_nil _).symm.trans haccepted, hran⟩
    · intro r hr
      have hle := hrecords r hr
      omega
    · rintro ⟨c, n, b⟩ hx
      rcases hasked c n b hx with hlt | ⟨rfl, -⟩ <;> omega

theorem readIn_eq_nil (h : ∀ r ∈ d.records, r.1 < call) : d.readIn call = [] := by
  have hnone : d.records.filter (fun r => r.1 = call) = [] :=
    List.filter_eq_nil_iff.mpr fun r hr => by
      have hlt := h r hr
      simp only [decide_eq_true_eq]
      omega
  rw [Diary.readIn, hnone, List.map_nil]

/-- A call that waits joins the crew of the call before only when everybody has left. -/
theorem all_gone_of_join {i : Ingestion} (hstep : e.join i = some e') :
    ∀ c, e.crew = some c → c.allGone = true := by
  intro c hc
  by_contra hpresent
  simp [join, hc, hpresent] at hstep

/-- With nothing left in the queue, joining is nothing but to start with another crew. -/
theorem AtRest.join_eq {i : Ingestion} (h : AtRest host o { e with ingestion := none })
    (hstep : e.join i = some e') : e' = e.assemble i := by
  have hgone := all_gone_of_join hstep
  cases hcrew : e.crew with
  | none => simpa [join, hcrew] using hstep.symm
  | some c =>
    have hnothing : c.queue.toList = [] := Ring.Holds.toList_eq (h.crew c hcrew).1
    simpa [join, hcrew, hgone c hcrew, hnothing] using hstep.symm

/-- **A call that waited gets a crew**, and has read nothing yet. -/
theorem Stands.join {frames : Frame.Reader} (h : Stands host o makes d.leftover)
    (hfew : FewWorkers o) (hframes : frames = .create source o.maxMetadata)
    (hsource : d.streams[d.call]? = some source)
    (hstep : d.engine.join ⟨d.call, frames, false, .joining⟩ = some e') :
    e' = d.engine.assemble ⟨d.call, frames, false, .joining⟩ ∧
      Stands host o makes { d with engine := e' } := by
  subst hframes
  obtain ⟨hrest, htold, hbefore, hfiles⟩ := h.over rfl (all_gone_of_join (e := d.engine) hstep)
  obtain rfl := hrest.join_eq hstep
  refine ⟨rfl, .called d.engine.results source [] ?_ hsource (fun r hr => (hbefore r hr).le)
    (readIn_eq_nil hbefore) (fun c n b hx => Or.inl (hfiles _ hx)) ?_⟩
  · exact htold.keep (List.prefix_refl _) (fun _ _ => rfl) (fun _ _ => quiet_of_log rfl rfl)
  · exact hrest.assemble hfew rfl rfl rfl rfl rfl rfl

/-- **A call that is brought** waits for the workers of the call before. -/
theorem Stands.begin (h : Stands host o makes d) (hi : d.engine.ingestion = none)
    (hstep : d.next (.ingest source) = some d') :
    Stands host o makes d'.leftover := by
  obtain ⟨e', hnext, rfl⟩ := Option.map_eq_some_iff.mp hstep
  have hnone : d.engine.recordRead e' = none := by simp only [recordRead, hi]
  have hasks : d.asks (.ingest source) = none := rfl
  rw [hnone, hasks, Option.map_none, Option.toList_none, Option.toList_none, List.append_nil,
    List.append_nil]
  unfold Engine.next at hnext
  split at hnext
  · cases hnext
  simp only [Engine.begin, hi, Option.some.injEq] at hnext
  subst hnext
  cases h with
  | untouched hcrew hrest hresults hrecords hfiles =>
    refine .untouched ?_ ⟨hrest.options, rfl, hrest.unbroken, hrest.alike, hrest.houses, ?_,
      hrest.runs, hrest.past⟩ hresults hrecords hfiles
    · simp [Diary.leftover, hcrew]
    · simp [Diary.leftover, hcrew]
  | called results source' produced htold hstream hrecords hread hasked hgoes =>
    refine .called results source' produced ?_ ?_ hrecords hread ?_ (hgoes.shut hi)
    · exact htold.keep (List.prefix_append _ _) (fun _ _ => rfl) (fun _ _ => quiet_of_log rfl rfl)
    · have hlt := (List.getElem?_eq_some_iff.mp hstream).1
      exact (List.getElem?_append_left hlt).trans hstream
    · intro c n b hx
      rcases hasked c n b hx with hlt | ⟨rfl, -⟩
      · exact Or.inl hlt
      · exact Or.inr ⟨rfl, Or.inr (isShut_of_none rfl)⟩

/-! ## 4. Every step -/

/-- **The calls in order.**  Either no call waits for another, or the last one does. -/
inductive InOrder (host : Host) (o : Options) (makes : Nat → Nat → Bool) (d : Diary) : Prop where
  | on : Stands host o makes d → d.streams.length = d.begun → InOrder host o makes d
  | waiting (source : Source) :
      d.engine.ingestion = some ⟨d.call, .create source o.maxMetadata, false, .joining⟩ →
      d.streams[d.call]? = some source → d.streams.length = d.begun →
      Stands host o makes d.leftover → InOrder host o makes d

theorem inOrder_ofOptions (hfew : FewWorkers o) :
    InOrder host o makes ⟨ofOptions host o, [], [], []⟩ :=
  .on (.untouched rfl (atRest_ofOptions hfew) rfl rfl rfl) rfl

theorem Stands.options (h : Stands host o makes d) : d.engine.options = o := by
  cases h with
  | untouched _ hrest _ _ _ => exact hrest.options
  | called _ _ _ _ _ _ _ _ hgoes =>
    obtain ⟨c, queued, ahead, hunderway⟩ := hgoes
    exact hunderway.options

theorem note_leftover (e : Engine) (occurrence : Occurrence Record) :
    ({ e with ingestion := none } : Engine).note occurrence
      = { e.note occurrence with ingestion := none } := by
  unfold note
  cases occurrence <;> simp only [settleRecord] <;> split <;> rfl

/-- An action of a worker, or the end of what it does. -/
def Action.IsOfWorker : Action → Prop
  | .work _ | .finish .. => True
  | .ingest _ | .read | .expire => False

/-- **What a worker does** is the same without the call that waits. -/
theorem next_leftover (ha : a.IsOfWorker) (hstep : e.next a = some e') :
    ({ e with ingestion := none } : Engine).next a = some { e' with ingestion := none } ∧
      SameCall e e' := by
  unfold Engine.next at hstep ⊢
  have hsame : ({ e with ingestion := none } : Engine).isAborted = e.isAborted := rfl
  split at hstep
  · cases hstep
  rename_i hgoing
  rw [hsame, if_neg hgoing]
  cases a with
  | ingest source => exact absurd ha id
  | read => exact absurd ha id
  | expire => exact absurd ha id
  | work worker =>
    refine ⟨?_, work_same hstep⟩
    cases hcrew : e.crew with
    | none => simp [Engine.work, hcrew] at hstep
    | some c =>
      simp only [Engine.work, hcrew, Option.map_eq_some_iff] at hstep
      obtain ⟨⟨c', occurrence⟩, hwork, rfl⟩ := hstep
      simp only [Engine.work, hwork, Option.map_some, Option.some.injEq]
      cases occurrence with
      | none => rfl
      | some occurrence => exact note_leftover { e with crew := some c' } occurrence
  | finish worker ending =>
    refine ⟨?_, finish_same hstep⟩
    cases hcrew : e.crew with
    | none => simp [Engine.finish, hcrew] at hstep
    | some c =>
      simp only [Engine.finish, hcrew, Option.map_eq_some_iff] at hstep
      obtain ⟨⟨c', r⟩, hfinish, rfl⟩ := hstep
      simp only [Engine.finish, hfinish, Option.map_some, Option.some.injEq]
      exact note_leftover { e with crew := some c' } _

theorem InOrder.waits (hfew : FewWorkers o) (ha : a.IsOfWorker)
    (hends : ∀ i, a ≠ .finish i .escaped)
    (hi : d.engine.ingestion = some ⟨d.call, .create source o.maxMetadata, false, .joining⟩)
    (hsource : d.streams[d.call]? = some source) (hcount : d.streams.length = d.begun)
    (hstands : Stands host o makes d.leftover) (hstep : d.next a = some d') :
    InOrder host o makes d' := by
  obtain ⟨e', hnext, rfl⟩ := Option.map_eq_some_iff.mp hstep
  obtain ⟨hleft, -, -, -, hingestion, hresults⟩ := next_leftover ha hnext
  have hquiet : a.stream? = none := by
    cases a with
    | ingest source => exact absurd ha id
    | _ => rfl
  have hasks : ∀ d : Diary, d.asks a = none := by
    intro d
    cases a with
    | work worker => rfl
    | finish worker ending => rfl
    | _ => exact absurd ha id
  have hnone : d.engine.recordRead e' = none := recordRead_of_same hingestion
  have hstays : d.leftover.next a = some
      { engine := { e' with ingestion := none }, streams := d.streams ++ a.stream?.toList,
        records := d.records, files := d.files } := by
    refine Option.map_eq_some_iff.mpr ⟨_, hleft, ?_⟩
    rw [hasks]
    simp [Diary.leftover, recordRead]
  have hnotread : a = .read → d.leftover.engine.Finds
      (makes d.leftover.call (d.leftover.readIn d.leftover.call).length) := by
    rintro rfl
    exact absurd ha id
  obtain ⟨hstands', -⟩ :=
    hstands.next hfew (a.isOrdinary_of_stream hquiet hends) hnotread hstays
  rw [hnone, hasks, Option.map_none, Option.toList_none, Option.toList_none, List.append_nil,
    List.append_nil]
  rw [hquiet, Option.toList_none, List.append_nil] at hstands' ⊢
  have hcall : e'.results.length = d.call := congrArg List.length hresults
  refine .waiting source ?_ ?_ ?_ hstands'
  · show e'.ingestion = some ⟨e'.results.length, _, _, _⟩
    rw [hingestion, hi, hcall]
  · show d.streams[e'.results.length]? = some source
    rw [hcall]
    exact hsource
  · show d.streams.length = e'.results.length + e'.ingestion.toList.length
    rw [hcall, hingestion]
    exact hcount

theorem Stands.brought (h : Stands host o makes d) (hcount : d.streams.length = d.begun)
    (hstep : d.next (.ingest source) = some d') : InOrder host o makes d' := by
  have hoptions := h.options
  cases hi : d.engine.ingestion with
  | some i =>
    obtain ⟨e', hnext, -⟩ := Option.map_eq_some_iff.mp hstep
    simp [Engine.next, Engine.begin, hi] at hnext
  | none =>
    have hstands' := h.begin hi hstep
    have hlast : d.streams.length = d.call := by
      rw [hcount, Diary.begun, hi]
      rfl
    obtain ⟨e', hnext, rfl⟩ := Option.map_eq_some_iff.mp hstep
    unfold Engine.next at hnext
    split at hnext
    · cases hnext
    simp only [Engine.begin, hi, hoptions, Option.some.injEq] at hnext
    subst hnext
    refine .waiting source rfl ?_ ?_ hstands'
    · show (d.streams ++ [source])[d.call]? = some source
      rw [← hlast]
      exact List.getElem?_concat_length
    · show (d.streams ++ [source]).length = d.call + 1
      rw [List.length_append, hlast]
      rfl

theorem Stands.joined (h : Stands host o makes d.leftover) (hfew : FewWorkers o)
    (hi : d.engine.ingestion = some ⟨d.call, .create source o.maxMetadata, false, .joining⟩)
    (hsource : d.streams[d.call]? = some source) (hcount : d.streams.length = d.begun)
    (hstep : d.next .read = some d') : InOrder host o makes d' := by
  obtain ⟨e', hnext, rfl⟩ := Option.map_eq_some_iff.mp hstep
  have hnone : d.engine.recordRead e' = none := recordRead_of_stage hi nofun
  unfold Engine.next at hnext
  split at hnext
  · cases hnext
  simp only [Engine.read, hi] at hnext
  obtain ⟨rfl, hstands⟩ := h.join hfew rfl hsource hnext
  have hasks : d.asks .read = none := by
    refine if_neg ?_
    rintro ⟨i, header, hi', hs, -⟩
    obtain rfl := Option.some.inj (hi.symm.trans hi')
    cases hs
  rw [hnone, hasks]
  simp only [Action.stream?, Option.map_none, Option.toList_none, List.append_nil]
  refine .on hstands ?_
  rw [Diary.begun, hi] at hcount
  exact hcount

/-- **Every step keeps the calls in order.**  The cases are whether a call waits, and who takes the
step. -/
theorem InOrder.next (h : InOrder host o makes d) (hfew : FewWorkers o)
    (hends : ∀ i, a ≠ .finish i .escaped)
    (hroom : a = .read → d.engine.Finds (makes d.call (d.readIn d.call).length))
    (hstep : d.next a = some d') : InOrder host o makes d' := by
  cases h with
  | on hstands hcount =>
    cases hquiet : a.stream? with
    | none =>
      obtain ⟨hstands', hbegun⟩ :=
        hstands.next hfew (a.isOrdinary_of_stream hquiet hends) hroom hstep
      obtain ⟨e', hnext, rfl⟩ := Option.map_eq_some_iff.mp hstep
      refine .on hstands' ?_
      rw [hbegun, ← hcount, hquiet, Option.toList_none, List.append_nil]
    | some source =>
      cases a with
      | ingest source => exact hstands.brought hcount hstep
      | _ => cases hquiet
  | waiting source hi hsource hcount hstands =>
    cases a with
    | ingest source =>
      obtain ⟨e', hnext, -⟩ := Option.map_eq_some_iff.mp hstep
      simp [Engine.next, Engine.begin, hi] at hnext
    | expire =>
      obtain ⟨e', hnext, -⟩ := Option.map_eq_some_iff.mp hstep
      simp [Engine.next, Engine.expire, hi] at hnext
    | read => exact hstands.joined hfew hi hsource hcount hstep
    | work worker =>
      exact InOrder.waits (a := .work worker) hfew trivial hends hi hsource hcount hstands hstep
    | finish worker ending =>
      exact InOrder.waits (a := .finish worker ending) hfew trivial hends hi hsource hcount hstands
        hstep

/-- **In a season the calls are in order.**  The induction is on the steps. -/
theorem Season.inOrder (h : Season host o d) (hfew : FewWorkers o) (hmakes : d.Foreseen makes) :
    InOrder host o makes d := by
  induction h with
  | made parts hmade =>
    obtain ⟨-, rfl⟩ := of_create hmade
    exact inOrder_ofOptions hfew
  | next _ hends hstep ih =>
    exact (ih (hmakes.before hstep)).next hfew hends (hmakes.finds hstep) hstep

theorem InOrder.not_asked (h : InOrder host o makes d) (hasks : d.engine.AsksForFile) (b : Bool) :
    (d.call, (d.readIn d.call).length, b) ∉ d.files := by
  obtain ⟨i, header, hi, hs, -⟩ := hasks
  intro hb
  cases h with
  | on hstands _ =>
    cases hstands with
    | untouched _ _ _ _ hfiles =>
      rw [hfiles] at hb
      cases hb
    | called results source produced _ _ _ hread hasked hgoes =>
      have hcall : d.call = results.length := by
        rcases hgoes.answered with ⟨hnone, -⟩ | ⟨-, hresults⟩
        · cases hnone.symm.trans hi
        · exact congrArg List.length hresults
      rw [hcall, hread, List.length_map] at hb
      rcases hasked _ _ _ hb with hlt | ⟨-, hlt | hshut⟩
      · exact absurd hlt (Nat.lt_irrefl _)
      · exact absurd hlt (Nat.lt_irrefl _)
      · have hover := hshut i hi
        rw [hs] at hover
        cases hover
  | waiting source hjoins _ _ _ =>
    obtain rfl := Option.some.inj (hjoins.symm.trans hi)
    cases hs

/-- **Whether files can be made can be foreseen** in every season.  The induction is on the steps:
what is foreseen is changed at the place of the content that is asked for, where no answer was given
before. -/
theorem Season.exists_foreseen (h : Season host o d) (hfew : FewWorkers o) :
    ∃ makes, d.Foreseen makes := by
  induction h with
  | made => exact ⟨fun _ _ => true, nofun⟩
  | @next d d' a hseason _ hstep ih =>
    obtain ⟨makes, hmakes⟩ := ih
    obtain ⟨e', -, rfl⟩ := Option.map_eq_some_iff.mp hstep
    cases hasks : d.asks a with
    | none =>
      refine ⟨makes, ?_⟩
      intro call n b hb
      exact hmakes call n b ((List.mem_append.mp hb).resolve_right List.not_mem_nil)
    | some x =>
      obtain ⟨-, hfile, rfl⟩ := Diary.of_asks hasks
      have hnew := (hseason.inOrder hfew hmakes).not_asked hfile
      refine ⟨fun call n => if call = d.call ∧ n = (d.readIn d.call).length
        then decide d.engine.HasRoom else makes call n, ?_⟩
      intro call n b hb
      rcases List.mem_append.mp hb with hb | hb
      · have hother : ¬ (call = d.call ∧ n = (d.readIn d.call).length) := by
          rintro ⟨rfl, rfl⟩
          exact hnew b hb
        exact (if_neg hother).trans (hmakes call n b hb)
      · obtain ⟨rfl, rfl, rfl⟩ : call = d.call ∧ n = (d.readIn d.call).length ∧
            b = decide d.engine.HasRoom := by
          simpa using hb
        exact if_pos ⟨rfl, rfl⟩

end Intake.Engine
