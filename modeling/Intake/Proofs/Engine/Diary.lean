/-
# The diary of an engine

A call of `Ingest` may return while workers of it still run the task, and the next call begins all
the same: it waits for them before it has a crew of its own.  A `Season` is all that has become of
one `IngestEngine` so far: the engine in service together with its diary, which is what was brought
to it, what was read and which temporary files were asked for, call by call.

What happens in a crew belongs to the call of the crew, and has nothing to do with any other
(`quiet_next`).  Who reads no more does not begin again in the same call (`IsShut.next`), so that no
content is asked for twice.
-/
import Mathlib
import Intake.Proofs.Engine.Service

namespace Intake.Engine

/-! ## 1. An engine and its diary -/

/-- The stream that an action brings. -/
def Action.stream? : Action → Option Source
  | .ingest source => some source
  | .read | .expire | .work _ | .finish .. => none

theorem Action.isOrdinary_of_stream (a : Action) (hnone : a.stream? = none)
    (hends : ∀ i, a ≠ .finish i .escaped) : a.IsOrdinary := by
  cases a with
  | ingest source => cases hnone
  | finish worker ending =>
    rintro rfl
    exact hends worker rfl
  | _ => trivial

/-- An engine, and what was brought to it, read and asked for. -/
structure Diary where
  engine : Engine
  /-- The streams, in the order of the calls. -/
  streams : List Source
  /-- The records that were read and brought to a crew, in order: each with the number of the call,
  and with the content bytes that it had then. -/
  records : List (Nat × Record × Except ReadFault Bytes)
  /-- The temporary files that were asked for: each with the number of the call, with how many
  records it had read, and whether the file could be made. -/
  files : List (Nat × Nat × Bool)

instance (e : Engine) : Decidable e.AsksForFile :=
  decidable_of_iff (e.ingestion.any (fun i =>
      match i.stage with
      | .filling header => e.staging.shouldSpill header.rawSize
      | .joining | .visiting _ | .reading | .leaving => false) = true) <| by
    simp only [AsksForFile, Option.any_eq_true]
    refine exists_congr fun i => ?_
    cases i.stage <;> simp

namespace Diary

/-- The number of the call that is going on, or else of the next one: so many have returned. -/
def call (d : Diary) : Nat := d.engine.results.length

/-- The records that were read in a call. -/
def readIn (d : Diary) (call : Nat) : List (Record × Except ReadFault Bytes) :=
  (d.records.filter fun r => r.1 = call).map Prod.snd

/-- The temporary file that a step asks for. -/
def asks (d : Diary) (a : Action) : Option (Nat × Nat × Bool) :=
  match a with
  | .read =>
    if d.engine.AsksForFile then some (d.call, (d.readIn d.call).length, decide d.engine.HasRoom)
    else none
  | .ingest _ | .expire | .work _ | .finish .. => none

/-- Takes a step and writes down what was brought, read and asked for. -/
def next (d : Diary) (a : Action) : Option Diary :=
  (d.engine.next a).map fun e =>
    { engine := e
      streams := d.streams ++ a.stream?.toList
      records := d.records ++ ((d.engine.recordRead e).map fun r => (d.call, r)).toList
      files := d.files ++ (d.asks a).toList }

/-- How many calls have begun. -/
def begun (d : Diary) : Nat := d.call + d.engine.ingestion.toList.length

/-- What the calls before have left, when a call waits for their workers. -/
def leftover (d : Diary) : Diary := { d with engine := { d.engine with ingestion := none } }

/-- Whether temporary files could be made was foreseen, by the number of the call and how many
records it had read. -/
def Foreseen (makes : Nat → Nat → Bool) (d : Diary) : Prop :=
  ∀ call n b, (call, n, b) ∈ d.files → makes call n = b

end Diary

/-- What can come about of an engine that was made, in whatever order streams are brought and the
reading side and the workers take their steps.  The task ends with every record, by itself or with
an error. -/
inductive Season (host : Host) (o : Options) : Diary → Prop where
  | made {e : Engine} (parts : Collaborators) :
      (create host o parts).result = .ok e → Season host o ⟨e, [], [], []⟩
  | next {d d' : Diary} {a : Action} :
      Season host o d → (∀ i, a ≠ .finish i .escaped) → d.next a = some d' → Season host o d'

variable {makes : Nat → Nat → Bool} {d d' : Diary} {e e' : Engine} {a : Action} {call : Nat}

/-! ## 2. What a step has to do with other calls -/

/-- Nothing was accepted or run in a call. -/
structure Quiet (call : Nat) (e e' : Engine) : Prop where
  ran : e'.ranIn call = e.ranIn call
  accepted : e'.acceptedIn call = e.acceptedIn call

theorem quiet_of_log (hruns : e'.runs = e.runs) (hpast : e'.past = e.past) : Quiet call e e' :=
  ⟨ranIn_congr hruns, acceptedIn_congr hpast⟩

theorem Quiet.trans {e'' : Engine} (h : Quiet call e e') (h' : Quiet call e' e'') :
    Quiet call e e'' :=
  ⟨h'.ran.trans h.ran, h'.accepted.trans h.accepted⟩

theorem Quiet.behind {e'' : Engine} (h : Quiet call e' e'') (hruns : e'.runs = e.runs)
    (hpast : e'.past = e.past) : Quiet call e e'' :=
  (quiet_of_log hruns hpast).trans h

theorem quiet_note (hne : call ≠ e.call) (o : Occurrence Record) : Quiet call e (e.note o) := by
  refine ⟨?_, ?_⟩
  · have hsettled : ({ e with past := (e.call, o) :: e.past }.settleRecord o).ranIn call
        = e.ranIn call := by
      cases o with
      | begun worker r => simp [settleRecord, ranIn, hne.symm]
      | ended worker r ending => exact ranIn_ended rfl
      | _ => rfl
    unfold note
    simp only
    split
    · exact hsettled
    · exact hsettled
  · unfold acceptedIn history
    rw [(note_same e o).2.2]
    simp [hne.symm]

theorem quiet_note? (hne : call ≠ e.call) (o : Option (Occurrence Record)) :
    Quiet call e (e.note? o) := by
  cases o with
  | none => exact quiet_of_log rfl rfl
  | some o => exact quiet_note hne o

theorem quiet_replied (i : Ingestion) (r : Crew.Reply Record) : Quiet call e (e.replied i r) := by
  cases r <;> exact quiet_of_log rfl rfl

theorem quiet_readingEnded (i : Ingestion) (cause : FrameError) :
    Quiet call e (e.readingEnded i cause) := by
  obtain ⟨staging, -, hended⟩ := readingEnded_eq e i cause
  rw [hended]
  exact quiet_of_log rfl rfl

theorem quiet_visited (hne : call ≠ e.call) (i : Ingestion) (s : Crew.Visit.Step Record) :
    Quiet call e (e.visited i s) := by
  have hnoted : Quiet call e (({ e with crew := some s.crew } : Engine).note? s.occurrence) :=
    (quiet_note? (e := { e with crew := some s.crew }) hne _).behind rfl rfl
  unfold visited
  split
  · exact hnoted.trans (quiet_replied i _)
  · exact hnoted.trans (quiet_of_log rfl rfl)

theorem quiet_releases (records : List Record) : Quiet call e (records.foldl release e) := by
  induction records generalizing e with
  | nil => exact quiet_of_log rfl rfl
  | cons r rest ih => exact (ih (e := e.release r)).behind rfl rfl

theorem quiet_join {i : Ingestion} (hstep : e.join i = some e') : Quiet call e e' := by
  unfold join at hstep
  split at hstep
  · obtain rfl := Option.some.inj hstep
    exact quiet_of_log rfl rfl
  · split at hstep
    · obtain rfl := Option.some.inj hstep
      exact (quiet_releases _).trans (quiet_of_log rfl rfl)
    · cases hstep

theorem quiet_readHeader (i : Ingestion) : Quiet call e (e.readHeader i) := by
  unfold readHeader
  split
  · exact quiet_of_log rfl rfl
  · exact (quiet_readingEnded (e := e.resume _) _ _).behind rfl rfl
  · exact quiet_of_log rfl rfl

theorem quiet_fill {i : Ingestion} {header : Frame.Header} (hstep : e.fill i header = some e') :
    Quiet call e e' := by
  unfold fill at hstep
  split at hstep
  · cases hstep
  · obtain rfl := Option.some.inj hstep
    exact quiet_of_log rfl rfl
  · obtain rfl := Option.some.inj hstep
    exact (quiet_readingEnded (e := e.resume _) _ _).behind rfl rfl
  · obtain rfl := Option.some.inj hstep
    exact quiet_of_log rfl rfl
  · obtain rfl := Option.some.inj hstep
    exact quiet_of_log rfl rfl

theorem quiet_read (hne : call ≠ e.call) (hstep : e.read = some e') : Quiet call e e' := by
  unfold Engine.read at hstep
  split at hstep
  · cases hstep
  · rename_i i hi
    split at hstep
    · exact quiet_join hstep
    · rename_i v hv
      cases hcrew : e.crew with
      | none => simp [visit, hcrew] at hstep
      | some c =>
        rw [visit_eq hcrew, Option.map_eq_some_iff] at hstep
        obtain ⟨s, -, rfl⟩ := hstep
        exact quiet_visited hne i s
    · obtain rfl := Option.some.inj hstep
      exact quiet_readHeader i
    · exact quiet_fill hstep
    · obtain rfl := Option.some.inj hstep
      exact quiet_of_log rfl rfl

/-- **A step has nothing to do with any call but that of the crew.** -/
theorem quiet_next (hne : call ≠ e.call) (hstep : e.next a = some e') : Quiet call e e' := by
  unfold Engine.next at hstep
  split at hstep
  · cases hstep
  cases a with
  | ingest source =>
    cases hi : e.ingestion with
    | some i => simp [Engine.begin, hi] at hstep
    | none =>
      simp only [Engine.begin, hi, Option.some.injEq] at hstep
      subst hstep
      exact quiet_of_log rfl rfl
  | read => exact quiet_read hne hstep
  | expire =>
    obtain ⟨call, frames, clean, ms, -, rfl⟩ := of_expire hstep
    exact quiet_of_log rfl rfl
  | work worker =>
    cases hcrew : e.crew with
    | none => simp [Engine.work, hcrew] at hstep
    | some c =>
      simp only [Engine.work, hcrew, Option.map_eq_some_iff] at hstep
      obtain ⟨⟨c', o⟩, -, rfl⟩ := hstep
      exact (quiet_note? (e := { e with crew := some c' }) hne o).behind rfl rfl
  | finish worker ending =>
    cases hcrew : e.crew with
    | none => simp [Engine.finish, hcrew] at hstep
    | some c =>
      simp only [Engine.finish, hcrew, Option.map_eq_some_iff] at hstep
      obtain ⟨⟨c', r⟩, -, rfl⟩ := hstep
      exact (quiet_note (e := { e with crew := some c' }) hne _).behind rfl rfl

/-! ## 3. What a call asks for -/

/-- Nothing more is read in the call that goes on, if one does. -/
def IsShut (e : Engine) : Prop := ∀ i, e.ingestion = some i → i.stage.phase = some .over

theorem isShut_of_none (hi : e.ingestion = none) : e.IsShut := by
  intro i hi'
  cases hi.symm.trans hi'

theorem isShut_of_stage {i : Ingestion} (hi : e.ingestion = some i)
    (hover : i.stage.phase = some .over) : e.IsShut := by
  intro i' hi'
  obtain rfl := Option.some.inj (hi.symm.trans hi')
  exact hover

theorem isShut_visited {call : Nat} {frames : Frame.Reader} {clean : Bool}
    {v : Crew.Visit Record} {s : Crew.Visit.Step Record}
    (hover : (Stage.visiting v).phase = some .over) (hs : v.step c = some s) :
    (e.visited ⟨call, frames, clean, .visiting v⟩ s).IsShut := by
  cases Crew.stride_of_step hs with
  | closesIntake => exact isShut_of_stage rfl rfl
  | closesQueue => exact isShut_of_stage rfl rfl
  | inTime ms expired _ => exact isShut_of_none rfl
  | tooLate ms => exact isShut_of_none rfl
  | _ => cases hover

/-- **Who reads no more does not begin again** in this call. -/
theorem IsShut.next (h : e.IsShut) (ha : a.IsOrdinary) (hstep : e.next a = some e') :
    e'.IsShut := by
  unfold Engine.next at hstep
  split at hstep
  · cases hstep
  cases a with
  | ingest source => exact absurd ha id
  | read =>
    cases hi : e.ingestion with
    | none => simp [Engine.read, hi] at hstep
    | some i =>
      obtain ⟨call, frames, clean, stage⟩ := i
      have hover := h _ hi
      simp only [Engine.read, hi] at hstep
      cases stage with
      | joining => cases hover
      | reading => cases hover
      | filling header => cases hover
      | leaving =>
        obtain rfl := Option.some.inj hstep
        exact isShut_of_stage rfl rfl
      | visiting v =>
        cases hcrew : e.crew with
        | none => simp [Engine.visit, hcrew] at hstep
        | some c =>
          have hvisit : e.visit ⟨call, frames, clean, .visiting v⟩ v = some e' := hstep
          rw [visit_eq hcrew, Option.map_eq_some_iff] at hvisit
          obtain ⟨s, hs, rfl⟩ := hvisit
          exact isShut_visited hover hs
  | expire =>
    obtain ⟨call, frames, clean, ms, -, rfl⟩ := of_expire hstep
    exact isShut_of_stage rfl rfl
  | work worker =>
    rw [IsShut, (work_same hstep).ingestion]
    exact h
  | finish worker ending =>
    rw [IsShut, (finish_same hstep).ingestion]
    exact h

theorem fill_of_read {i : Ingestion} {header : Frame.Header} (hi : e.ingestion = some i)
    (hs : i.stage = .filling header) (hstep : e.next .read = some e') :
    e.fill i header = some e' := by
  unfold Engine.next at hstep
  split at hstep
  · cases hstep
  · simpa only [Engine.read, hi, hs] using hstep

theorem isShut_of_fill {i : Ingestion} {header : Frame.Header} (hi : e.ingestion = some i)
    (hs : i.stage = .filling header) (hstep : e.fill i header = some e')
    (hunbroken : e'.broken = false) (hnone : e.recordRead e' = none) : e'.IsShut := by
  obtain ⟨call, frames, clean, stage⟩ := i
  obtain rfl : stage = .filling header := hs
  unfold Engine.fill at hstep
  split at hstep
  · cases hstep
  · obtain rfl := Option.some.inj hstep
    cases hunbroken
  · rename_i cause t _
    obtain rfl := Option.some.inj hstep
    obtain ⟨staging, -, hended⟩ :=
      readingEnded_eq (e.resume t) ⟨call, t.reader, clean, .filling header⟩ cause
    rw [hended]
    exact isShut_of_stage rfl rfl
  · obtain rfl := Option.some.inj hstep
    exact isShut_of_none rfl
  · obtain rfl := Option.some.inj hstep
    simp [recordRead, hi, ask, enter, resume, Crew.Request.visit] at hnone

theorem Diary.of_asks {x : Nat × Nat × Bool} (h : d.asks a = some x) :
    a = .read ∧ d.engine.AsksForFile ∧
      x = (d.call, (d.readIn d.call).length, decide d.engine.HasRoom) := by
  cases a with
  | read =>
    by_cases hasks : d.engine.AsksForFile
    · exact ⟨rfl, hasks, (Option.some.inj ((if_pos hasks).symm.trans h)).symm⟩
    · exact nomatch (if_neg hasks).symm.trans h
  | _ => cases h

/-- Files were asked for in the calls before, and in this call for contents that have come, or for
one that never came. -/
def Diary.Asked (d : Diary) (call records : Nat) : Prop :=
  ∀ c n b, (c, n, b) ∈ d.files → c < call ∨ c = call ∧ (n < records ∨ d.engine.IsShut)

/-- **A content is asked for at its place.**  Either it has come, or else reading is over; and what is
read or over stays so. -/
theorem Diary.Asked.next {number records more : Nat} (h : d.Asked number records)
    (ha : a.IsOrdinary) (hstep : d.next a = some d') (hunbroken : d'.engine.broken = false)
    (hplace : d.engine.AsksForFile → d.call = number ∧ (d.readIn d.call).length = records)
    (hcame : more = 0 → d.engine.recordRead d'.engine = none) :
    d'.Asked number (records + more) := by
  obtain ⟨e', hnext, rfl⟩ := Option.map_eq_some_iff.mp hstep
  intro c n b hx
  rcases List.mem_append.mp hx with hx | hx
  · rcases h c n b hx with hlt | ⟨rfl, hlt | hshut⟩
    · exact Or.inl hlt
    · exact Or.inr ⟨rfl, Or.inl (Nat.lt_add_right more hlt)⟩
    · exact Or.inr ⟨rfl, Or.inr (hshut.next ha hnext)⟩
  · obtain ⟨rfl, hasks, hnow⟩ := Diary.of_asks (Option.mem_toList.mp hx)
    obtain ⟨rfl, rfl⟩ := hplace hasks
    obtain ⟨i, header, hi, hs, -⟩ := hasks
    obtain ⟨rfl, rfl, -⟩ : c = d.call ∧ n = (d.readIn d.call).length ∧ _ := by
      simpa only [Prod.mk.injEq] using hnow
    refine Or.inr ⟨rfl, ?_⟩
    cases more with
    | zero => exact Or.inr (isShut_of_fill hi hs (fill_of_read hi hs hnext) hunbroken (hcame rfl))
    | succ more => exact Or.inl (Nat.lt_add_of_pos_right (Nat.succ_pos more))

theorem Diary.Foreseen.before (h : d'.Foreseen makes) (hstep : d.next a = some d') :
    d.Foreseen makes := by
  obtain ⟨e', -, rfl⟩ := Option.map_eq_some_iff.mp hstep
  intro call n b hb
  exact h call n b (List.mem_append_left _ hb)

theorem Diary.Foreseen.finds (h : d'.Foreseen makes) (hstep : d.next a = some d') :
    a = .read → d.engine.Finds (makes d.call (d.readIn d.call).length) := by
  rintro rfl hasks
  obtain ⟨e', -, rfl⟩ := Option.map_eq_some_iff.mp hstep
  have hnew : d.asks .read
      = some (d.call, (d.readIn d.call).length, decide d.engine.HasRoom) := if_pos hasks
  have hfound := h d.call (d.readIn d.call).length (decide d.engine.HasRoom)
    (List.mem_append_right _ (by rw [hnew]; exact List.mem_singleton.mpr rfl))
  rw [hfound, decide_eq_true_iff]

end Intake.Engine
