/-
# Calls are kept apart

A call of `Ingest` may begin while workers of the call before still run the task.  Neither is the
worse for it.  The tale of a call is what it reads and returns (`Tale`).  With the number of a call
the task is run on the records of this call and on no others (`Diary.KeepsTo`).  And what a call
reads and returns is what its stream says: two calls for one stream agree, whatever came before them
(`Diary.Agrees`), so that a call on an engine that has been called many times is as good as the
first call on one that was just made (`calls_apart`).

What a stream says is a matter of its bytes, of the limits, and of whether temporary files can be
made (`Frame.frames_begin`, `Frame.frames_end`).  The order of the steps does not come into it, nor
do the workers.
-/
import Mathlib
import Intake.Proofs.Engine.Season
import Intake.Proofs.Engine.Settling

namespace Intake.Engine

open scoped List

variable {host host' : Host} {o : Options} {makes makes' : Nat → Nat → Bool} {d d' : Diary}
  {call call' : Nat} {k k' : Call} {produced produced' : List (Record × Bytes)}
  {ahead ahead' : Bytes} {source : Source}

/-! ## 1. What belongs to a call -/

namespace Diary

/-- The call has returned, and its workers have left. -/
def Finished (d : Diary) (call : Nat) : Prop :=
  call < d.call ∧ (d.engine.call = call → ∀ c, d.engine.crew = some c → c.allGone = true)

/-- **A call keeps to its own records.** -/
structure KeepsTo (d : Diary) (call : Nat) : Prop where
  /-- The records have the even numbers from 0 on. -/
  numbered : ∀ n r, (d.readIn call)[n]? = some r → r.1.id = UInt64.ofNat (2 * n)
  /-- Nothing goes into the queue but the records that were read, in order. -/
  accepted : d.engine.acceptedIn call <+: (d.readIn call).map Prod.fst
  /-- All of them have gone there when the call has returned. -/
  returned : call < d.call → d.engine.acceptedIn call = (d.readIn call).map Prod.fst
  /-- With the number of the call the task is run on records of the call only, with the content
  bytes that were read, and on each once at most. -/
  ran : d.engine.ranIn call <+~ d.readIn call
  /-- In the end it has been run on each. -/
  finished : d.Finished call → (d.engine.ranIn call).Perm (d.readIn call)

end Diary

/-- Where the records of a call are that were not run: those that the reading side still has, and
those that the task is still to be run on. -/
structure Keeping (d : Diary) (call : Nat) (produced : List (Record × Bytes))
    (carried : List Record) (pending : List (Record × Except ReadFault Bytes)) : Prop where
  numbered : ∀ n p, produced[n]? = some p → p.1.id = UInt64.ofNat (2 * n)
  read : d.readIn call = produced.map shown
  accepted : d.engine.acceptedIn call ++ carried = produced.map Prod.fst
  ran : (d.engine.ranIn call ++ pending).Perm (produced.map shown)
  returned : call < d.call → carried = []
  finished : d.Finished call → pending = []

theorem map_fst_shown (produced : List (Record × Bytes)) :
    (produced.map shown).map Prod.fst = produced.map Prod.fst := by
  rw [List.map_map]
  rfl

theorem Keeping.keepsTo {carried : List Record} {pending : List (Record × Except ReadFault Bytes)}
    (h : Keeping d call produced carried pending) : d.KeepsTo call := by
  have hread := h.read
  have haccepted := h.accepted
  have hran := h.ran
  rw [← map_fst_shown, ← hread] at haccepted
  rw [← hread] at hran
  refine ⟨?_, ⟨carried, haccepted⟩, ?_, ?_, ?_⟩
  · intro n r hr
    rw [hread, List.getElem?_map, Option.map_eq_some_iff] at hr
    obtain ⟨p, hp, rfl⟩ := hr
    exact h.numbered n p hp
  · intro hreturned
    rwa [h.returned hreturned, List.append_nil] at haccepted
  · exact (List.sublist_append_left _ pending).subperm.trans hran.subperm
  · intro hfinished
    rwa [h.finished hfinished, List.append_nil] at hran

theorem Chapter.keeping {result : Answer} (h : Chapter d k produced ahead result) :
    Keeping d k.number produced [] [] := by
  refine ⟨fun n p hp => (h.reads.numbered n p hp).1, h.read, ?_, ?_, fun _ => rfl, fun _ => rfl⟩
  · exact (List.append_nil _).trans h.accepted
  · rw [List.append_nil]
    exact h.ran

/-- The call of the crew has what it brings to the queue and what is still to be run. -/
theorem Underway.keeping {c : Crew Record} {queued : List Record}
    (h : Underway k d.engine c queued produced ahead) (hnumber : k.results.length = k.number)
    (hread : d.readIn k.number = produced.map shown) :
    Keeping d k.number produced (carriedBy d.engine.ingestion)
      ((c.waiting ++ (queued ++ carriedBy d.engine.ingestion)).map fun r =>
        (r, d.engine.staging.remaining r.content)) := by
  have hreturned : k.number < d.call → d.engine.ingestion = none := by
    intro hlt
    rcases (Goes.answered ⟨c, queued, ahead, h⟩) with ⟨hi, -⟩ | ⟨-, hresults⟩
    · exact hi
    · rw [Diary.call, hresults] at hlt
      omega
  refine ⟨fun n p hp => (h.reads.numbered n p hp).1, hread, h.accepted, h.accounts.runs, ?_, ?_⟩
  · intro hlt
    rw [hreturned hlt]
    rfl
  · rintro ⟨hlt, hgone⟩
    have hi := hreturned hlt
    have hfits := h.fits
    have halive := h.alive_eq_zero hi (hgone h.call c h.crew)
    rw [hi] at hfits ⊢
    have hstaffed : c.Staffed queued 0 := hfits.attended
    obtain ⟨rfl, hwaiting, -⟩ := hstaffed.all_done h.someone halive
    rw [hwaiting]
    rfl

theorem keeping_nothing (hruns : ∀ r ∈ d.engine.runs, r.call < call)
    (hpast : ∀ x ∈ d.engine.past, x.1 < call) (hrecords : ∀ r ∈ d.records, r.1 < call) :
    Keeping d call [] [] [] := by
  obtain ⟨haccepted, -, hran⟩ := Until.nothing_in hruns hpast
  refine ⟨nofun, readIn_eq_nil hrecords, ?_, ?_, fun _ => rfl, fun _ => rfl⟩
  · rw [haccepted]
    rfl
  · rw [hran]
    exact .refl _

/-- **Every call keeps to its own records**, be it over, under way or still to come. -/
theorem Stands.keepsTo (h : Stands host o makes d) (call : Nat) : d.KeepsTo call := by
  cases h with
  | untouched _ hrest hresults hrecords _ =>
    have hnone : d.engine.results.length = 0 := by rw [hresults, List.length_nil]
    refine (keeping_nothing ?_ ?_ ?_).keepsTo
    · intro r hr
      have hlt := hrest.runs r hr
      omega
    · intro x hx
      have hlt := hrest.past x hx
      omega
    · rw [hrecords]
      nofun
  | called results source produced htold hstream hrecords hread _ hgoes =>
    obtain ⟨c, queued, ahead, hunderway⟩ := hgoes
    rcases Nat.lt_trichotomy call results.length with hlt | rfl | hlt
    · obtain ⟨k, produced, ahead, hk, hchapter⟩ :=
        htold call results[call] (List.getElem?_eq_getElem hlt)
      obtain rfl := hk.number
      exact hchapter.keeping.keepsTo
    · exact (hunderway.keeping rfl hread).keepsTo
    · refine (keeping_nothing ?_ ?_ ?_).keepsTo
      · exact fun r hr => (hunderway.calls.1 r hr).trans_lt hlt
      · exact fun x hx => (hunderway.calls.2 x hx).trans_lt hlt
      · exact fun r hr => (hrecords r hr).trans_lt hlt

theorem InOrder.keepsTo (h : InOrder host o makes d) (call : Nat) : d.KeepsTo call := by
  cases h with
  | on hstands _ => exact hstands.keepsTo call
  | waiting source _ _ _ hstands =>
    -- Whether a call waits is not asked here, so what holds without it holds.
    obtain ⟨hnumbered, haccepted, hreturned, hran, hfinished⟩ := hstands.keepsTo call
    exact ⟨hnumbered, haccepted, hreturned, hran, hfinished⟩

theorem InOrder.count (h : InOrder host o makes d) : d.streams.length = d.begun := by
  cases h with
  | on _ hcount => exact hcount
  | waiting _ _ _ hcount _ => exact hcount

/-! ## 2. What a stream says -/

/-- The same bytes are in front of two calls, and they have the same limits to read by. -/
structure Call.Like (k k' : Call) : Prop where
  limits : k'.limits = k.limits
  room : k'.room = k.room
  source : k'.source = k.source

theorem Call.Like.limitsAt_eq (h : k.Like k') (records : Nat) :
    k'.limitsAt records = k.limitsAt records := by
  rw [limitsAt, limitsAt, h.limits, h.room]

theorem Call.Like.answer_eq (h : k.Like k') (records : Nat) (ahead : Bytes) :
    k'.answer records ahead = k.answer records ahead := by
  rw [answer, answer, h.limitsAt_eq, h.source]

theorem Call.Like.reads (h : k.Like k') (hreads : k'.Reads produced ahead) :
    k.Reads produced ahead := by
  refine ⟨h.source ▸ hreads.split, ?_, hreads.numbered⟩
  intro i p hp
  rw [← h.limitsAt_eq]
  exact hreads.accepted i p hp

/-- What is seen of a record.  Where its bytes are kept is not. -/
def seen (r : Record × Except ReadFault Bytes) :
    UInt64 × Bytes × UInt64 × Except ReadFault Bytes :=
  (r.1.id, r.1.metadata, r.1.rawSize, r.2)

/-- What is seen of the record of a frame. -/
def seenAt (place : Nat) (f : Bytes × Bytes) :
    UInt64 × Bytes × UInt64 × Except ReadFault Bytes :=
  (UInt64.ofNat (2 * place), f.1, UInt64.ofNat f.2.length, .ok f.2)

namespace Call.Reads

/-- **What is seen of the records is a matter of the frames.** -/
theorem seen_eq (h : k.Reads produced ahead) :
    (produced.map shown).map seen = (produced.map frameOf).mapIdx seenAt := by
  refine List.ext_getElem? fun n => ?_
  simp only [List.getElem?_mapIdx, List.getElem?_map, Option.map_map]
  cases hp : produced[n]? with
  | none => rfl
  | some p =>
    obtain ⟨hid, hsize⟩ := h.numbered n p hp
    simp only [Option.map_some, Function.comp_apply, seen, shown, seenAt, frameOf, hid, hsize]

theorem accepts (h : k.Reads produced ahead) :
    ∀ i f, (produced.map frameOf)[i]? = some f → (k.limitsAt i).Accepts f := by
  intro i f hf
  rw [List.getElem?_map, Option.map_eq_some_iff] at hf
  obtain ⟨p, hp, rfl⟩ := hf
  exact h.accepted i p hp

theorem begins (h : k.Reads produced ahead) (h' : k.Reads produced' ahead')
    (hle : produced.length ≤ produced'.length) :
    (produced.map shown).map seen <+: (produced'.map shown).map seen := by
  obtain ⟨more, hmore, -⟩ := Frame.frames_begin (h.split.symm.trans h'.split) h.accepts h'.accepts
    (by simpa using hle)
  rw [h.seen_eq, h'.seen_eq, hmore, List.mapIdx_append]
  exact List.prefix_append _ _

theorem ends (h : k.Reads produced ahead) (h' : k.Reads produced' ahead')
    (hstuck : (k.limitsAt produced.length).Stuck ahead)
    (hle : produced.length ≤ produced'.length) :
    produced.length = produced'.length ∧ ahead = ahead' ∧
      (produced.map shown).map seen = (produced'.map shown).map seen := by
  obtain ⟨hframes, hahead⟩ := Frame.frames_end (h.split.symm.trans h'.split) h.accepts h'.accepts
    (by rwa [List.length_map]) (by simpa using hle)
  refine ⟨?_, hahead, ?_⟩
  · simpa using (congrArg List.length hframes).symm
  · rw [h.seen_eq, h'.seen_eq, hframes]

end Call.Reads

/-! ## 3. Two calls for one stream -/

/-- **Two calls agree.** -/
structure Diary.Agrees (d : Diary) (call : Nat) (d' : Diary) (call' : Nat) : Prop where
  /-- One has read what the other has, and perhaps more. -/
  reads : (d.readIn call).map seen <+: (d'.readIn call').map seen ∨
    (d'.readIn call').map seen <+: (d.readIn call).map seen
  /-- When both are over they have read the same, and have come to the same. -/
  results : ∀ b b', d.engine.results[call]? = some b → d'.engine.results[call']? = some b' →
    b = b' ∧ (d.readIn call).map seen = (d'.readIn call').map seen

/-- What a call has read, and what it has come to if it is over. -/
structure Tale (d : Diary) (call : Nat) (k : Call) (produced : List (Record × Bytes))
    (ahead : Bytes) : Prop where
  reads : k.Reads produced ahead
  read : d.readIn call = produced.map shown
  told : ∀ b, d.engine.results[call]? = some b →
    (k.limitsAt produced.length).Stuck ahead ∧ b = k.answer produced.length ahead

theorem Tale.of_like (h : Tale d call k' produced ahead) (hlike : k.Like k') :
    Tale d call k produced ahead := by
  refine ⟨hlike.reads h.reads, h.read, ?_⟩
  intro b hb
  rw [← hlike.limitsAt_eq, ← hlike.answer_eq]
  exact h.told b hb

/-- **Calls with one tale to tell agree.** -/
theorem Tale.agrees (h : Tale d call k produced ahead) (h' : Tale d' call' k produced' ahead') :
    d.Agrees call d' call' := by
  refine ⟨?_, ?_⟩
  · rw [h.read, h'.read]
    rcases Nat.le_total produced.length produced'.length with hle | hle
    · exact Or.inl (h.reads.begins h'.reads hle)
    · exact Or.inr (h'.reads.begins h.reads hle)
  · intro b b' hb hb'
    obtain ⟨hstuck, rfl⟩ := h.told b hb
    obtain ⟨hstuck', rfl⟩ := h'.told b' hb'
    rw [h.read, h'.read]
    rcases Nat.le_total produced.length produced'.length with hle | hle
    · obtain ⟨hlength, rfl, hseen⟩ := h.reads.ends h'.reads hstuck hle
      exact ⟨by rw [hlength], hseen⟩
    · obtain ⟨hlength, rfl, hseen⟩ := h'.reads.ends h.reads hstuck' hle
      exact ⟨by rw [hlength], hseen.symm⟩

theorem Chapter.tale {result : Answer} (h : Chapter d k produced ahead result)
    (hresult : d.engine.results[k.number]? = some result) : Tale d k.number k produced ahead := by
  refine ⟨h.reads, h.read, ?_⟩
  intro b hb
  obtain rfl : result = b := Option.some.inj (hresult.symm.trans hb)
  exact ⟨h.stuck, h.result⟩

theorem Underway.tale {c : Crew Record} {queued : List Record}
    (h : Underway k d.engine c queued produced ahead) (hnumber : k.results.length = k.number)
    (hread : d.readIn k.number = produced.map shown) : Tale d k.number k produced ahead := by
  refine ⟨h.reads, hread, ?_⟩
  intro b hb
  have hplaced := h.placed
  rw [← hnumber] at hb
  cases hi : d.engine.ingestion with
  | none =>
    rw [hi] at hplaced
    obtain ⟨hstuck, hresults⟩ := hplaced
    rw [hresults, List.getElem?_concat_length] at hb
    exact ⟨hstuck, (Option.some.inj hb).symm⟩
  | some i =>
    rw [hi] at hplaced
    rw [hplaced.1] at hb
    exact absurd (List.getElem?_eq_some_iff.mp hb).1 (Nat.lt_irrefl _)

/-- **Every call that has begun has its tale**, which is a matter of the stream, the limits and the
room for files. -/
theorem Stands.tale (h : Stands host o makes d) (hlt : call < d.begun)
    (hstream : d.streams[call]? = some source) :
    ∃ k produced ahead, (callFor host o [] (makes call) source).Like k ∧
      Tale d call k produced ahead := by
  cases h with
  | untouched _ hrest hresults _ _ =>
    rw [Diary.begun, Diary.call, hresults, hrest.idle] at hlt
    exact absurd hlt (Nat.not_lt_zero call)
  | called results source' produced htold hstream' hrecords hread _ hgoes =>
    have hbegun : call < results.length + 1 := hgoes.begun ▸ hlt
    rcases Nat.lt_succ_iff_lt_or_eq.mp hbegun with hlt | rfl
    · have hresult : results[call]? = some results[call] := List.getElem?_eq_getElem hlt
      obtain ⟨k, produced, ahead, hk, hchapter⟩ := htold call results[call] hresult
      obtain rfl := hk.number
      have hsource : k.source = source := Option.some.inj (hchapter.stream.symm.trans hstream)
      have hkept : d.engine.results[k.number]? = some results[k.number] := by
        rcases hgoes.answered with ⟨-, result, hresults⟩ | ⟨-, hresults⟩
        · rw [hresults]
          exact (List.getElem?_append_left hlt).trans hresult
        · rw [hresults]
          exact hresult
      exact ⟨k, produced, ahead, ⟨hk.limits, hk.room, hsource⟩, hchapter.tale hkept⟩
    · obtain rfl : source' = source := Option.some.inj (hstream'.symm.trans hstream)
      obtain ⟨c, queued, ahead, hunderway⟩ := hgoes
      exact ⟨callFor host o results (makes results.length) source', produced, ahead,
        ⟨rfl, rfl, rfl⟩, hunderway.tale rfl hread⟩

theorem Stands.records_lt (h : Stands host o makes d) : ∀ r ∈ d.records, r.1 < d.begun := by
  cases h with
  | untouched _ _ _ hrecords _ =>
    rw [hrecords]
    nofun
  | called _ _ _ _ _ hrecords _ _ hgoes =>
    intro r hr
    rw [hgoes.begun]
    exact Nat.lt_succ_of_le (hrecords r hr)

theorem tale_of_waiting (hrecords : ∀ r ∈ d.records, r.1 < d.call) :
    Tale d d.call (callFor host o [] (makes d.call) source) [] source.rest := by
  refine ⟨⟨rfl, nofun, nofun⟩, readIn_eq_nil hrecords, ?_⟩
  intro b hb
  exact absurd (List.getElem?_eq_some_iff.mp hb).1 (Nat.lt_irrefl _)

theorem InOrder.tale (h : InOrder host o makes d) (hstream : d.streams[call]? = some source) :
    ∃ k produced ahead, (callFor host o [] (makes call) source).Like k ∧
      Tale d call k produced ahead := by
  have hlt := (List.getElem?_eq_some_iff.mp hstream).1
  cases h with
  | on hstands hcount => exact hstands.tale (hcount ▸ hlt) hstream
  | waiting source' hi hsource hcount hstands =>
    have hbegun : d.begun = d.call + 1 := by
      rw [Diary.begun, hi]
      rfl
    rcases Nat.lt_succ_iff_lt_or_eq.mp (hbegun ▸ hcount ▸ hlt) with hlt | rfl
    · obtain ⟨k, produced, ahead, hlike, htale⟩ := hstands.tale (d := d.leftover) hlt hstream
      exact ⟨k, produced, ahead, hlike, htale.reads, htale.read, htale.told⟩
    · exact ⟨callFor host o [] (makes d.call) source, [], source.rest, ⟨rfl, rfl, rfl⟩,
        tale_of_waiting hstands.records_lt⟩

theorem Season.service (h : Season host o d) : Service host o d.engine := by
  induction h with
  | made parts hmade => exact .made parts hmade
  | next _ hends hstep ih =>
    obtain ⟨e', hnext, rfl⟩ := Option.map_eq_some_iff.mp hstep
    exact ih.next hends hnext

/-- **Two calls find the same.**  Where both have asked for a temporary file at the same place of
the stream, both could make one, or neither could. -/
def Diary.FindsLike (d : Diary) (call : Nat) (d' : Diary) (call' : Nat) : Prop :=
  ∀ n b b', (call, n, b) ∈ d.files → (call', n, b') ∈ d'.files → b = b'

theorem Diary.Foreseen.update {row : Nat → Bool} (h : d.Foreseen makes)
    (hrow : ∀ n b, (call, n, b) ∈ d.files → row n = b) :
    d.Foreseen (Function.update makes call row) := by
  intro c n b hb
  by_cases hc : c = call
  · subst hc
    rw [Function.update_self]
    exact hrow n b hb
  · rw [Function.update_of_ne hc]
    exact h c n b hb

theorem Diary.FindsLike.exists_row (h : d.FindsLike call d' call') (hmakes : d.Foreseen makes)
    (hmakes' : d'.Foreseen makes') :
    ∃ row : Nat → Bool, (∀ n b, (call, n, b) ∈ d.files → row n = b) ∧
      ∀ n b, (call', n, b) ∈ d'.files → row n = b := by
  refine ⟨fun n => decide ((call, n, true) ∈ d.files ∨ (call', n, true) ∈ d'.files), ?_, ?_⟩
  · intro n b hb
    cases b with
    | true => exact decide_eq_true (Or.inl hb)
    | false =>
      refine decide_eq_false ?_
      rintro (hb' | hb')
      · exact nomatch (hmakes call n true hb').symm.trans (hmakes call n false hb)
      · exact nomatch h n false true hb hb'
  · intro n b hb
    cases b with
    | true => exact decide_eq_true (Or.inr hb)
    | false =>
      refine decide_eq_false ?_
      rintro (hb' | hb')
      · exact nomatch h n true false hb' hb
      · exact nomatch (hmakes' call' n true hb').symm.trans (hmakes' call' n false hb)

/-! ## 4. Calls on one engine -/

/-- **Calls on one engine do not interfere.**  Whatever the streams and in whatever order they are
brought, the reading side and the workers of old and new crews take their steps, and calls give up
waiting for their workers: each stream has its call; the call keeps to its own records; everything
comes to its end, or to workers that wait behind an exception, which takes a limit on the metadata
beyond the longest block; and the call agrees with the first call for that stream on any engine with
the same options, if its host has room for files as large and both find the same when they ask for
files.

A call hires its crew only when the workers of the crew before have left, so that what they run belongs
to the number that they were hired under; and it starts with all buffers and no files, as the staging
area houses nothing but records of the crew.  From there on what it reads is a matter of the bytes, the
limits and the answers of the disk alone. -/
theorem calls_apart (hfew : FewWorkers o) (h : Season host o d) (call : Nat) :
    d.streams.length = d.begun ∧ d.KeepsTo call ∧
      d.engine.ComesTo (fun e => ¬ e.IsBusy ∨ e.IsStranded) ∧
      (o.maxMetadata.toNat ≤ Frame.longestBlock → d.engine.Settles) ∧
      ∀ (host' : Host) (d' : Diary) (source : Source),
        Season host' o d' → Spill.room host'.disk = Spill.room host.disk →
        d.streams[call]? = some source → d'.streams[0]? = some source →
        d.FindsLike call d' 0 → d.Agrees call d' 0 := by
  obtain ⟨makes, hmakes⟩ := h.exists_foreseen hfew
  have horder := h.inOrder hfew hmakes
  refine ⟨horder.count, horder.keepsTo call, h.service.comesTo hfew (fun _ _ hover => hover),
    h.service.settles hfew, ?_⟩
  intro host' d' source h' hroom hstream hstream' hlike
  obtain ⟨makes', hmakes'⟩ := h'.exists_foreseen hfew
  -- Both calls are seen with one and the same row of answers of the disk.
  obtain ⟨row, hrow, hrow'⟩ := hlike.exists_row hmakes hmakes'
  obtain ⟨k, produced, ahead, hk, htale⟩ := (h.inOrder hfew (hmakes.update hrow)).tale hstream
  obtain ⟨k', produced', ahead', hk', htale'⟩ :=
    (h'.inOrder hfew (hmakes'.update hrow')).tale hstream'
  rw [Function.update_self] at hk hk'
  have hlimits : limitsOf host' o = limitsOf host o := by
    simp only [limitsOf, hroom]
  have hsame : (callFor host o [] row source).Like k' :=
    ⟨hk'.limits.trans hlimits, hk'.room, hk'.source⟩
  exact (htale.of_like hk).agrees (htale'.of_like hsame)

/-! ## 5. One season among the possible ones -/

/-- The diary after a row of actions. -/
def Diary.follow (d : Diary) : List Action → Option Diary
  | [] => some d
  | a :: rest =>
    if a.stream?.isSome ∨ a.IsOrdinary then (d.next a).bind fun d' => d'.follow rest else none

theorem Season.follow {actions : List Action} (h : Season host o d)
    (hfollow : d.follow actions = some d') :
    Season host o d' ∧ d'.streams = d.streams ++ actions.filterMap Action.stream? := by
  induction actions generalizing d with
  | nil =>
    obtain rfl := Option.some.inj hfollow
    exact ⟨h, (List.append_nil _).symm⟩
  | cons a rest ih =>
    rw [Diary.follow] at hfollow
    split at hfollow
    · rename_i hallowed
      have hends : ∀ i, a ≠ .finish i .escaped := by
        rintro i rfl
        rcases hallowed with hstream | hordinary
        · cases hstream
        · exact hordinary rfl
      obtain ⟨d₂, hstep, hrest⟩ := Option.bind_eq_some_iff.mp hfollow
      obtain ⟨hseason, hstreams⟩ := ih (h.next hends hstep) hrest
      obtain ⟨e', -, rfl⟩ := Option.map_eq_some_iff.mp hstep
      refine ⟨hseason, hstreams.trans ?_⟩
      cases ha : a.stream? <;> simp [ha]
    · cases hfollow

/-- A frame for a buffer. -/
def oneFrame : Source := .ofBytes (Frame.encodeAll [([7], [1])]) 0

/-- Two calls: the first one gives up waiting for its worker, which still runs the task when the
second one is brought. -/
def lateRun : List Action :=
  [[.ingest oneFrame], .replicate 7 .read, [.work 0], .replicate 4 .read, [.work 0, .work 0],
    .replicate 5 .read, [.expire, .read, .ingest shortStream, .finish 0 .returned, .work 0, .work 0,
    .work 0], shortRun].flatten

/-- A call behind one that did not wait for its worker, and the same call on another engine.  Both
ask for a file for the second record. -/
theorem calls_apart_late_worker :
    ∃ d d', Season .empty smallOptions d ∧ Season .empty smallOptions d' ∧
      d.streams[1]? = some shortStream ∧ d'.streams[0]? = some shortStream ∧
      d.files = [(1, 1, true)] ∧ d'.files = [(0, 1, true)] ∧
      d.engine.results = [.returned true, .returned false] ∧
      d'.engine.results = [.returned false] ∧ d.KeepsTo 1 ∧ d.engine.Settles ∧
      d.Agrees 1 d' 0 := by
  have hmade : Season .empty smallOptions ⟨ofOptions .empty smallOptions, [], [], []⟩ :=
    .made ⟨true, true, true, fun _ => true⟩ rfl
  have hlate : (Diary.follow ⟨ofOptions .empty smallOptions, [], [], []⟩ lateRun).any
      (fun d => d.files = [(1, 1, true)] ∧
        d.engine.results = [.returned true, .returned false]) = true := by
    decide +kernel
  have hfresh : (Diary.follow ⟨ofOptions .empty smallOptions, [], [], []⟩
      (.ingest shortStream :: shortRun)).any
      (fun d => d.files = [(0, 1, true)] ∧ d.engine.results = [.returned false]) = true := by
    decide +kernel
  obtain ⟨d, hfollow, hd⟩ := (Option.any_eq_true _ _).mp hlate
  obtain ⟨d', hfollow', hd'⟩ := (Option.any_eq_true _ _).mp hfresh
  obtain ⟨hfiles, hresults⟩ := of_decide_eq_true hd
  obtain ⟨hfiles', hresults'⟩ := of_decide_eq_true hd'
  obtain ⟨hseason, hstreams⟩ := hmade.follow hfollow
  obtain ⟨hseason', hstreams'⟩ := hmade.follow hfollow'
  have hstream : d.streams[1]? = some shortStream := by
    rw [hstreams]
    rfl
  have hstream' : d'.streams[0]? = some shortStream := by
    rw [hstreams']
    rfl
  have hlike : d.FindsLike 1 d' 0 := by
    intro n b b' hb hb'
    rw [hfiles, List.mem_singleton, Prod.mk.injEq, Prod.mk.injEq] at hb
    rw [hfiles', List.mem_singleton, Prod.mk.injEq, Prod.mk.injEq] at hb'
    exact hb.2.2.trans hb'.2.2.symm
  obtain ⟨-, hkeeps, -, hsettles, hagrees⟩ := calls_apart (by decide) hseason 1
  exact ⟨d, d', hseason, hseason', hstream, hstream', hfiles, hfiles', hresults, hresults', hkeeps,
    hsettles (by decide), hagrees .empty d' shortStream hseason' rfl hstream hstream' hlike⟩

end Intake.Engine
