/-
# What a session reports about a file

A session of `ingest_demo` with one argument prints a line for each document, in whatever order the
workers come to them, and a line with the totals.  What is printed, and with which status the
session ends, is a matter of the bytes of the file alone (`Report.Tells`): it does not matter in
which order the reading side and the workers take their steps, nor where a content was kept in the
meantime.

`SniffParser` reads in a content until eight bytes have come, and makes a document of them
(`documents_begun`).  It is told from the record (`line_of_record`), and the records of the call are
the frames in front of the first error, each of which is run once; so the lines are those of the
frames in another order (`documentLines_perm`).  The count of bytes is right because the call counts
what it takes (`Engine.Tallied`).
-/
import Mathlib
import Intake.Demo.Session
import Intake.Proofs.Engine.Driving
import Intake.Proofs.Engine.Tally

namespace Intake.Demo

open Engine (limitsOf callFor shown frameOf)

/-! ## 1. The line about a content -/

/-- The content type of a content, told from how it begins. -/
def contentTypeOf (content : Bytes) : Bytes :=
  if Bytes.ofAscii "%PDF" <+: content then "application/pdf"
  else if Bytes.ofAscii "PK" <+: content then "application/zip"
  else "text/plain"

/-- The file type of a content of that length. -/
def fileTypeOf (length : Nat) : Bytes :=
  if length = 0 then "empty" else if 65536 < length then "large" else "regular"

/-- The line about a frame, given its number and its content. -/
def lineFor (number : Nat) (content : Bytes) : Line :=
  .text ("  doc " ++ column 6 (decimal (2 * number)) ++ " " ++ column 24 (contentTypeOf content)
    ++ " " ++ column 8 (fileTypeOf content.length) ++ " " ++ decimal content.length ++ " bytes")

/-- The lines about the frames of a file. -/
def linesFor (frames : List (Bytes × Bytes)) : List Line := frames.mapIdx fun i f => lineFor i f.2

/-- The line with the totals. -/
def totalFor (documents consumed : Nat) : Line :=
  .text ("indexed " ++ decimal documents ++ " documents, " ++ decimal consumed ++ " bytes")

theorem sniff_take (content : Bytes) : sniff (content.take headLength) = contentTypeOf content := by
  have hbegins : ∀ (text : Bytes) (n : Nat), text.length = n → n ≤ headLength →
      ((content.take headLength).take n = text ↔ text <+: content) := by
    intro text n hlength hle
    rw [List.take_take, Nat.min_eq_left hle, List.prefix_iff_eq_take, hlength]
    exact eq_comm
  have hpdf := hbegins (Bytes.ofAscii "%PDF") 4 rfl (by decide)
  have hzip := hbegins (Bytes.ofAscii "PK") 2 rfl (by decide)
  simp only [sniff, contentTypeOf, hpdf, hzip]

theorem toNat_ofNat_of_lt {n : Nat} (h : n < 18446744073709551616) : (UInt64.ofNat n).toNat = n := by
  rw [UInt64.toNat_ofNat', Nat.mod_eq_of_lt h]

theorem classify_eq {n : Nat} {kind : Content.Kind} (hn : n < 18446744073709551616)
    (hkind : kind = if 65536 < n then .spill else .buffer) :
    classify (UInt64.ofNat n) kind = fileTypeOf n := by
  have hzero : UInt64.ofNat n = 0 ↔ n = 0 := by
    rw [← UInt64.toNat_inj, toNat_ofNat_of_lt hn]
    rfl
  have hspill : kind = .spill ↔ 65536 < n := by
    rw [hkind]
    split <;> simp_all
  simp only [classify, fileTypeOf, hzero, hspill]

/-- A record, and the content that the task finds. -/
def documentOf (p : Record × Except ReadFault Bytes) : Option Document :=
  Document.ofRun ⟨0, p.1, p.2, none⟩

/-- **The line about a record** is that about its frame. -/
theorem line_of_record {r : Record} {content : Bytes} {number : Nat}
    (hid : r.id = UInt64.ofNat (2 * number)) (hsize : r.rawSize = UInt64.ofNat content.length)
    (hkind : r.content.kind = if 65536 < content.length then .spill else .buffer)
    (hnumber : 2 * number < 18446744073709551616)
    (hlength : content.length < 18446744073709551616) :
    (documentOf (r, .ok content)).map (fun d => Line.text d.line) = some (lineFor number content) := by
  simp only [documentOf, Document.ofRun, Except.map, Document.ofHead, Option.map_some,
    Document.line, lineFor, hid, hsize, sniff_take, classify_eq hlength hkind,
    toNat_ofNat_of_lt hnumber, toNat_ofNat_of_lt hlength]

/-! ## 2. All lines -/

/-- **When the task begins with a record, another document is there**: the one that the task makes by
reading in the content, in the buffer or in the file that it waits in. -/
theorem documents_begun (e : Engine) (worker : Nat) (r : Record) :
    documents (e.settleRecord (.begun worker r))
      = documents e ++ (Document.ofRecord e.staging r).toList := by
  have hread : Document.ofRun ⟨e.call, r, e.staging.remaining r.content, none⟩
      = Document.ofRecord e.staging r := by
    rw [Document.ofRecord, readUpTo_remaining _ _ (by decide)]
    rfl
  unfold documents Engine.settleRecord
  rw [List.filterMap_append, ← hread]
  simp only [List.filterMap_cons, List.filterMap_nil]
  cases Document.ofRun ⟨e.call, r, e.staging.remaining r.content, none⟩ <;> rfl

theorem documents_eq {e : Engine} (h : e.Until 0) :
    documents e = (e.ranIn 0).filterMap documentOf := by
  have hall : e.runs.filter (fun r => r.call = 0) = e.runs :=
    List.filter_eq_self.mpr fun r hr => by simpa using h.1 r hr
  rw [documents, Engine.ranIn, hall, List.filterMap_map]
  rfl

theorem filterMap_eq_mapIdx {α β γ : Type} {pick : α → Option γ} {show' : α → β} {f : Nat → β → γ}
    {l : List α} (h : ∀ (i : Nat) a, l[i]? = some a → pick a = some (f i (show' a))) :
    l.filterMap pick = (l.map show').mapIdx f := by
  induction l generalizing f with
  | nil => rfl
  | cons a rest ih =>
    rw [List.filterMap_cons, h 0 a rfl, List.map_cons, List.mapIdx_cons]
    exact congrArg _ (ih fun i b hb => h (i + 1) b hb)

/-- **The lines are those of the frames**, in the order in which the task was run; with those that
are still to be printed, when the task was not yet run on all records. -/
theorem documentLines_perm {e : Engine} {produced : List (Record × Bytes)} (huntil : e.Until 0)
    {behind : List (Record × Except ReadFault Bytes)}
    (hran : (e.ranIn 0 ++ behind).Perm (produced.map shown))
    (hlines : ∀ (i : Nat) p, produced[i]? = some p →
      (documentOf (shown p)).map (fun d => Line.text d.line) = some (lineFor i p.2)) :
    (documentLines e ++ (behind.filterMap documentOf).map fun d => Line.text d.line).Perm
      (linesFor (produced.map frameOf)) := by
  have hsame : ((produced.map shown).filterMap documentOf).map (fun d => Line.text d.line)
      = linesFor (produced.map frameOf) := by
    rw [List.map_filterMap, List.filterMap_map]
    exact filterMap_eq_mapIdx hlines
  rw [documentLines, documents_eq huntil, ← List.map_append, ← List.filterMap_append, ← hsame]
  exact (hran.filterMap documentOf).map _

/-! ## 3. The report about a file -/

/-- The engine of a session. -/
def engineFor (host : Host) : Engine := .ofOptions (openLog host) options

/-- What the engine of a session puts up with. -/
def limits (host : Host) : Frame.Limits := limitsOf (openLog host) options

/-- The call of a session for a stream. -/
def callOf (host : Host) (source : Source) : Engine.Call :=
  callFor (openLog host) options [] (fun _ => true) source

theorem few_workers : Engine.FewWorkers options := by decide

theorem create_engineFor (host : Host) :
    (Engine.create (openLog host) options collaborators).result = .ok (engineFor host) := rfl

theorem rested_engineFor (host : Host) : Engine.Rested (openLog host) options (engineFor host) :=
  .made collaborators (create_engineFor host)

/-- Frames that are taken have metadata of no more than 64 MiB and a content that goes to a buffer or
that a file can hold. -/
theorem accepts_iff (host : Host) (f : Bytes × Bytes) :
    (limits host).Accepts f ↔ f.1.length ≤ 67108864 ∧
      (f.2.length ≤ 65536 ∨ f.2.length ≤ Spill.room host.disk) := by
  refine ⟨fun h => ⟨h.small, h.kept⟩, fun ⟨hsmall, hkept⟩ => ⟨hsmall, ?_, hkept⟩⟩
  exact hsmall.trans (by decide)

/-- **A report with the right verdict**: success if there is nothing in the file but frames with
metadata of no more than 64 MiB, and contents that go to a buffer or that a file can hold. -/
structure Report.Judges (r : Report) (largest : Nat) (content : Bytes) : Prop where
  success : r.status = 0 ↔ ∃ all, content = Frame.encodeAll all ∧
    ∀ f ∈ all, f.1.length ≤ 67108864 ∧ (f.2.length ≤ 65536 ∨ f.2.length ≤ largest)
  failure : r.status ≠ 0 → r.status = 1

/-- **A report that says what is in a file**: a line for each of these frames, in any order, and a
line with the totals; and the right verdict. -/
structure Report.Tells (r : Report) (largest : Nat) (content : Bytes)
    (frames : List (Bytes × Bytes)) (consumed : Nat) : Prop extends r.Judges largest content where
  lines : ∃ printed, printed.Perm (linesFor frames) ∧
    r.lines = printed ++ [totalFor frames.length consumed]

section Calls

variable {host : Host} {source : Source} {e : Engine} {frames : List (Bytes × Bytes)}
  {ahead : Bytes}

theorem plain_callOf (hclean : source.failure = none) : (callOf host source).Plain :=
  Engine.plain_callFor few_workers [] hclean

theorem call_tallied (hclean : source.failure = none) {e₁ : Engine}
    (hbegin : (engineFor host).next (.ingest source) = some e₁) (hcourse : e₁.Course e) :
    e = e₁ ∨ ∃ c queued produced ahead,
      Engine.Underway (callOf host source) e c queued produced ahead ∧
      Engine.Tallied (callOf host source) 0 produced e := by
  have hrest := (rested_engineFor host).atRest few_workers
  rcases hrest.tallies few_workers hclean hbegin hcourse with rfl |
    ⟨produced, ⟨c, queued, ahead, hgoes⟩, htallied⟩
  · exact Or.inl rfl
  · exact Or.inr ⟨c, queued, produced, ahead, hgoes, htallied⟩

/-- **At any time the count is that of the bytes that the stream has given.** -/
theorem delivered_eq (hclean : source.failure = none)
    (hsize : source.rest.length < 18446744073709551616) {e₁ : Engine}
    (hbegin : (engineFor host).next (.ingest source) = some e₁) (hcourse : e₁.Course e)
    {i : Engine.Ingestion} (hi : e.ingestion = some i) :
    i.frames.source.delivered = source.delivered + e.progress.bytes.toNat := by
  rcases call_tallied hclean hbegin hcourse with rfl | ⟨c, queued, produced, ahead, hgoes, htallied⟩
  · have hrest := (rested_engineFor host).atRest few_workers
    obtain rfl := hrest.of_begin hbegin
    obtain rfl := Option.some.inj hi
    rfl
  · have hposition : _ ≤ source.rest.length := hgoes.position_le
    rw [htallied.delivered i hi, htallied.counted, UInt64.zero_add,
      toNat_ofNat_of_lt (hposition.trans_lt hsize)]
    rfl

/-- **What a call has come to when it has returned**, in time or not: the records are those of the
frames in front of the first error. -/
theorem read_of_returned (hclean : source.failure = none)
    (hparses : (limits host).Parses source.rest frames ahead) {e₁ : Engine}
    (hbegin : (engineFor host).next (.ingest source) = some e₁) (hcourse : e₁.Course e)
    (hidle : e.ingestion = none) :
    ∃ c queued produced, produced.map frameOf = frames ∧
      Engine.Underway (callOf host source) e c queued produced ahead ∧
      Engine.Tallied (callOf host source) 0 produced e := by
  rcases call_tallied hclean hbegin hcourse with rfl |
    ⟨c, queued, produced, ahead', hgoes, htallied⟩
  · have hrest := (rested_engineFor host).atRest few_workers
    rw [hrest.of_begin hbegin] at hidle
    cases hidle
  have hplain : (callOf host source).Plain := plain_callOf hclean
  obtain ⟨hsplit, haccepted, -⟩ := hgoes.reads
  have hplaced := hgoes.placed
  rw [hidle] at hplaced
  obtain ⟨hstuck, -⟩ := hplaced
  rw [hplain.limitsAt] at hstuck
  have hread : (limits host).Parses source.rest (produced.map frameOf) ahead' := by
    refine ⟨hsplit, ?_, hstuck⟩
    intro f hf
    obtain ⟨p, hp, rfl⟩ := List.mem_map.mp hf
    obtain ⟨i, hi⟩ := List.mem_iff_getElem?.mp hp
    exact haccepted i p hi
  obtain ⟨hframes, rfl⟩ := hparses.unique hread
  exact ⟨c, queued, produced, hframes.symm, hgoes, htallied⟩

section Returned

variable {c : Crew Record} {queued : List Record} {produced : List (Record × Bytes)}

theorem bytes_of_returned (hsize : source.rest.length < 18446744073709551616)
    (hgoes : Engine.Underway (callOf host source) e c queued produced ahead)
    (htallied : Engine.Tallied (callOf host source) 0 produced e)
    (hidle : e.ingestion = none) :
    e.progress.bytes.toNat
      = (Frame.encodeAll (produced.map frameOf)).length + (limits host).extent ahead := by
  have hposition := hgoes.position_le
  rw [htallied.counted, UInt64.zero_add, toNat_ofNat_of_lt (lt_of_le_of_lt hposition hsize), hidle,
    Engine.Call.position_of_phase (p := .over) rfl, hgoes.reads.remainder_eq]
  rfl

/-- **The verdict** is on how the file ends. -/
theorem judged_of_returned (hclean : source.failure = none)
    (hparses : (limits host).Parses source.rest frames ahead)
    (hgoes : Engine.Underway (callOf host source) e c queued produced ahead)
    (hidle : e.ingestion = none) :
    (Report.ofCall e).Judges (Spill.room host.disk) source.rest := by
  have hplain : (callOf host source).Plain := plain_callOf hclean
  have hplaced := hgoes.placed
  rw [hidle] at hplaced
  obtain ⟨-, hresults⟩ := hplaced
  have hstatus : (Report.ofCall e).status
      = if (limits host).stopCause false ahead = .failed .endOfStream then 0 else 1 := by
    have hanswer : (callOf host source).answer produced.length ahead
        = .ofExit ((limits host).stopCause false ahead) := by
      rw [Engine.Call.answer, hplain.limitsAt]
      show Engine.Answer.ofExit ((limits host).stopCause source.failure.isSome ahead) = _
      rw [hclean]
      rfl
    have hlast : e.lastResult
        = decide ((limits host).stopCause false ahead = .failed .endOfStream) := by
      rw [Engine.lastResult, hresults, List.getLast?_concat, hanswer]
      simp only [Option.some.injEq, Engine.Answer.ofExit_eq_true_iff]
    simp only [Report.ofCall, hlast, decide_eq_true_eq]
  have hsmall : options.maxMetadata.toNat + 2 * Frame.lengthWidth < 18446744073709551616 := by decide
  have hwhole := hparses.clean_iff hsmall
  simp only [accepts_iff] at hwhole
  refine ⟨Iff.trans ?_ hwhole, ?_⟩
  · rw [hstatus]
    split <;> simp_all
  · rw [hstatus]
    split
    · exact fun h => absurd rfl h
    · exact fun _ => rfl

/-- **The line about each record** that was read is that about its frame. -/
theorem line_of_read (hsize : source.rest.length < 18446744073709551616)
    (hgoes : Engine.Underway (callOf host source) e c queued produced ahead)
    (htallied : Engine.Tallied (callOf host source) 0 produced e)
    (i : Nat) (p : Record × Bytes) (hp : produced[i]? = some p) :
    (documentOf (shown p)).map (fun d => Line.text d.line) = some (lineFor i p.2) := by
  obtain ⟨hsplit, -, hnumbered⟩ := hgoes.reads
  obtain ⟨hid, hraw⟩ := hnumbered i p hp
  have hmem := List.mem_of_getElem? hp
  have hlt := (List.getElem?_eq_some_iff.mp hp).1
  have hcontent : p.2.length ≤ (Frame.encodeAll (produced.map frameOf)).length :=
    Frame.length_content_le (List.mem_map_of_mem (f := frameOf) hmem)
  have hframes : 16 * (produced.map frameOf).length ≤ _ := Frame.length_encodeAll_ge _
  rw [List.length_map] at hframes
  have hfits : (Frame.encodeAll (produced.map frameOf)).length ≤ source.rest.length := by
    rw [show source.rest = _ from hsplit, List.length_append]
    exact Nat.le_add_right _ _
  exact line_of_record hid hraw (htallied.kinds p hmem) (by omega) (by omega)

end Returned

/-- **When a call has returned** the count and the verdict are right, and there is no line but those
about the frames and none twice, even if it has returned before its workers were done. -/
theorem reported_of_returned (hclean : source.failure = none)
    (hsize : source.rest.length < 18446744073709551616)
    (hparses : (limits host).Parses source.rest frames ahead) {e₁ : Engine}
    (hbegin : (engineFor host).next (.ingest source) = some e₁) (hcourse : e₁.Course e)
    (hidle : e.ingestion = none) :
    e.progress.bytes.toNat = (Frame.encodeAll frames).length + (limits host).extent ahead ∧
      (Report.ofCall e).Judges (Spill.room host.disk) source.rest ∧
      (documentLines e).Subperm (linesFor frames) := by
  obtain ⟨c, queued, produced, rfl, hgoes, htallied⟩ :=
    read_of_returned hclean hparses hbegin hcourse hidle
  refine ⟨bytes_of_returned hsize hgoes htallied hidle,
    judged_of_returned hclean hparses hgoes hidle, ?_⟩
  have hlines := documentLines_perm hgoes.calls hgoes.accounts.runs (line_of_read hsize hgoes htallied)
  exact (List.sublist_append_left _ _).subperm.trans hlines.subperm

/-- **A call that is done is reported as it is in the file.** -/
theorem tells_of_completed (hclean : source.failure = none)
    (hsize : source.rest.length < 18446744073709551616)
    (hparses : (limits host).Parses source.rest frames ahead)
    (hcall : Engine.Completed (engineFor host) source e) :
    (Report.ofCall e).Tells (Spill.room host.disk) source.rest frames
      ((Frame.encodeAll frames).length + (limits host).extent ahead) := by
  obtain ⟨e₁, hbegin, hcourse, hidle, c', hcrew, halive⟩ := hcall
  obtain ⟨c, queued, produced, rfl, hgoes, htallied⟩ :=
    read_of_returned hclean hparses hbegin hcourse hidle
  obtain rfl : c = c' := Option.some.inj (hgoes.crew.symm.trans hcrew)
  obtain ⟨-, -, hran, -⟩ := hgoes.all_done hidle halive
  have hperm : (documentLines e).Perm (linesFor (produced.map frameOf)) := by
    have hall : (e.ranIn 0 ++ []).Perm (produced.map shown) := by rwa [List.append_nil]
    have hlines := documentLines_perm hgoes.calls hall (line_of_read hsize hgoes htallied)
    simpa using hlines
  have hcount : (documents e).length = (produced.map frameOf).length := by
    have hlength := hperm.length_eq
    rwa [documentLines, linesFor, List.length_map, List.length_mapIdx] at hlength
  refine ⟨judged_of_returned hclean hparses hgoes hidle, documentLines e, hperm, ?_⟩
  simp only [Report.ofCall, total, totalFor, hcount, bytes_of_returned hsize hgoes htallied hidle]

end Calls

/-! ## 4. Whatever the order -/

/-- **What is reported about a stream in every run**, whoever takes the steps and in whatever order.
The bytes of the stream up to the first error are `consumed` in number. -/
structure Faithful (host : Host) (source : Source) (frames : List (Bytes × Bytes)) (consumed : Nat) :
    Prop where
  /-- The call begins and returns, and every worker leaves. -/
  settles : ∃ e₁, (engineFor host).next (.ingest source) = some e₁ ∧ e₁.Settles
  /-- At any time the bytes are counted that were taken. -/
  counted : ∀ e₁ e i, (engineFor host).next (.ingest source) = some e₁ → e₁.Course e →
    e.ingestion = some i →
      i.frames.source.delivered = source.delivered + e.progress.bytes.toNat
  /-- When the call has returned, even before its workers are done, nothing is wrong. -/
  returned : ∀ e₁ e, (engineFor host).next (.ingest source) = some e₁ → e₁.Course e →
    e.ingestion = none → e.progress.bytes.toNat = consumed ∧
      (Report.ofCall e).Judges (Spill.room host.disk) source.rest ∧
      (documentLines e).Subperm (linesFor frames)
  /-- When the workers are done, nothing is missing. -/
  completed : ∀ e, Engine.Completed (engineFor host) source e →
    (Report.ofCall e).Tells (Spill.room host.disk) source.rest frames consumed
  /-- Within the grace period the workers are done when the call returns. -/
  unhurried : ∀ e, Engine.Unhurried (engineFor host) source e → e.ingestion = none →
    (Report.ofCall e).Tells (Spill.room host.disk) source.rest frames consumed

/-- The engine of a session takes a stream. -/
theorem begins (host : Host) (source : Source) :
    ∃ e₁, (engineFor host).next (.ingest source) = some e₁ := ⟨_, rfl⟩

/-- **Every stream that does not fail is reported as it is.** -/
theorem faithful {host : Host} {source : Source} {frames : List (Bytes × Bytes)} {ahead : Bytes}
    (hclean : source.failure = none) (hsize : source.rest.length < 18446744073709551616)
    (hparses : (limits host).Parses source.rest frames ahead) :
    Faithful host source frames
      ((Frame.encodeAll frames).length + (limits host).extent ahead) where
  settles := by
    obtain ⟨e₁, hbegin⟩ := begins host source
    exact ⟨e₁, hbegin,
      ((rested_engineFor host).service.of_begin hbegin).settles few_workers (by decide)⟩
  counted _ _ _ hbegin hcourse hi := delivered_eq hclean hsize hbegin hcourse hi
  returned _ _ hbegin hcourse hidle :=
    reported_of_returned hclean hsize hparses hbegin hcourse hidle
  completed _ hcall := tells_of_completed hclean hsize hparses hcall
  unhurried _ hrun hidle := by
    have hrested := rested_engineFor host
    refine tells_of_completed hclean hsize hparses
      (hrun.completed (hrested.atRest few_workers) few_workers hidle ?_)
    intro hlast
    exact (hrun.service hrested.service).threw_not_mem (by decide) (List.mem_of_getLast? hlast)

/-- A session has room for temporary files all the time, if it has room for one at first. -/
theorem hasRoom_of_first {host : Host} {source : Source} {e : Engine}
    (hfirst : ∃ t, host.disk.createTemp (Spill.stem options.tempDir) = .ok t)
    (hfiles : host.disk.files.length + host.disk.directories.length < 56800235575)
    (h : Engine.Unhurried (engineFor host) source e) : e.HasRoom := by
  have hservice := h.service (rested_engineFor host).service
  refine hservice.hasRoom few_workers hfirst ?_
  have hfour : options.workerCount.toNat = 4 := rfl
  rw [hfour]
  show host.disk.files.length + host.disk.directories.length + 2 * 4 + 1 < _
  omega

/-! ## 5. The session -/

theorem named_onDisk {standard : Source} {d : Disk} {path : Bytes} {place : Place} {node : Nat}
    (hdash : path ≠ "-") (hfile : d.resolve path = .ok (.file place node)) :
    (Inputs.onDisk standard d).named path = .ok (.ofBytes (d.content node).bytes 0) := by
  unfold Inputs.named
  rw [if_neg hdash]
  simp only [Inputs.onDisk, Descriptor.openPath, Disk.openPath, hfile]
  rfl

theorem fair_plan {now : Int64} (hclock : expiresAtOnce now options.shutdownTimeoutMs = false) :
    (plan now).Fair options where
  ends _ := by simp [plan]
  held _ := rfl
  clock := hclock

theorem Report.ofCall_staging (e : Engine) (staging : Staging) :
    Report.ofCall { e with staging } = { Report.ofCall e with host := staging.host } := rfl

/-- What a session prints for one argument, and its status, are those of the call. -/
theorem session_eq {host : Host} {inputs : Inputs} {path : Bytes} {source : Source} (now : Int64)
    (hnamed : inputs.named path = .ok source) :
    ∃ after, session host inputs now [path]
      = { Report.ofCall ((engineFor host).ingest (plan now) source) with host := after } := by
  have hinspect : inspect (openLog host) inputs now path
      = .ofCall (takeIn (engineFor host) now source) := by
    simp only [inspect, create_engineFor, hnamed]
  generalize hrun : (engineFor host).ingest (plan now) source = e
  have htaken : ∃ staging, takeIn (engineFor host) now source = { e with staging } := by
    unfold takeIn
    rw [hrun]
    exact ⟨_, rfl⟩
  obtain ⟨staging, htaken⟩ := htaken
  refine ⟨closeLog staging.host, ?_⟩
  simp only [session, hinspect, htaken, Report.ofCall_staging]

theorem Report.Tells.of_host {r : Report} {largest : Nat} {content : Bytes}
    {frames : List (Bytes × Bytes)} {consumed : Nat} (h : r.Tells largest content frames consumed)
    (after : Host) : ({ r with host := after } : Report).Tells largest content frames consumed :=
  ⟨⟨h.success, h.failure⟩, h.lines⟩

/-- **A session reports a file as it is.** -/
theorem session_tells {host : Host} {inputs : Inputs} {path : Bytes} {source : Source} {now : Int64}
    {frames : List (Bytes × Bytes)} {consumed : Nat} (h : Faithful host source frames consumed)
    (hnamed : inputs.named path = .ok source)
    (hroom : ∀ e, Engine.Unhurried (engineFor host) source e → e.HasRoom)
    (hclock : expiresAtOnce now options.shutdownTimeoutMs = false) :
    (session host inputs now [path]).Tells (Spill.room host.disk) source.rest frames consumed := by
  have hdriven : Engine.Unhurried (engineFor host) source ((engineFor host).ingest (plan now) source)
      ∧ ((engineFor host).ingest (plan now) source).ingestion = none :=
    (rested_engineFor host).ingest few_workers (fair_plan hclock) hroom
  obtain ⟨after, heq⟩ := session_eq now hnamed
  rw [heq]
  exact (h.unhurried _ hdriven.1 hdriven.2).of_host after

/-- **The report about a file.**  Whatever is in it, there is one way to take it apart into frames that
are taken and what is behind them, and that is what is reported, in every run.

The bytes fall into frames in one way, the call runs the task on each of these once, and a line
depends on nothing but the frame it is about; so the order of the workers is only the order of the
lines. -/
theorem file_reported {host : Host} {inputs : Inputs} {path : Bytes} {source : Source}
    (hnamed : inputs.named path = .ok source) (hclean : source.failure = none)
    (hsize : source.rest.length < 18446744073709551616) :
    ∃ frames ahead, (limits host).Parses source.rest frames ahead ∧
      Faithful host source frames ((Frame.encodeAll frames).length + (limits host).extent ahead) ∧
      ∀ now, expiresAtOnce now options.shutdownTimeoutMs = false →
        (∀ e, Engine.Unhurried (engineFor host) source e → e.HasRoom) →
          (session host inputs now [path]).Tells (Spill.room host.disk) source.rest frames
            ((Frame.encodeAll frames).length + (limits host).extent ahead) := by
  obtain ⟨frames, ahead, hsplit, haccepted, hstuck⟩ :=
    Frame.exists_frames (limits host) source.rest
  have hparses : (limits host).Parses source.rest frames ahead := ⟨hsplit, haccepted, hstuck⟩
  have hfaithful := faithful hclean hsize hparses
  exact ⟨frames, ahead, hparses, hfaithful,
    fun now hclock hroom => session_tells hfaithful hnamed hroom hclock⟩

/-- Three frames, of which the second has no content. -/
def threeFrames : List (Bytes × Bytes) := [([], "%PDF-"), ([1], []), ([2, 3], "PK")]

/-- Three frames and three bytes that are no frame. -/
def cutFile : Bytes := Frame.encodeAll threeFrames ++ [4, 5, 6]

/-- A host with such a file. -/
def cutHost : Host :=
  { Host.empty with disk := (Disk.empty.addFile [Bytes.ofAscii "work", "f"] (.ofBytes cutFile)).2 }

theorem cutFile_parses : (limits cutHost).Parses cutFile threeFrames [4, 5, 6] := by
  refine ⟨rfl, ?_, Frame.Limits.stuck_of_short _ (by decide)⟩
  intro f hf
  rw [accepts_iff]
  simp only [threeFrames, List.mem_cons, List.not_mem_nil, or_false] at hf
  rcases hf with rfl | rfl | rfl <;> exact ⟨by decide, Or.inl (by decide)⟩

/-- The session for that file ends with an error; it has a line for each of the three frames, and has
read to the end of the file. -/
theorem file_reported_cut :
    Faithful cutHost (.ofBytes cutFile 0) threeFrames 61 ∧
      (session cutHost (.onDisk (.ofBytes [] 0) cutHost.disk) 0 ["f"]).status = 1 ∧
      ∃ printed, printed.Perm (linesFor threeFrames) ∧
        (session cutHost (.onDisk (.ofBytes [] 0) cutHost.disk) 0 ["f"]).lines
          = printed ++ [totalFor 3 61] := by
  have hfile : cutHost.disk.resolve "f" = .ok (.file [Bytes.ofAscii "work", "f"] 0) := by
    decide +kernel
  have hnamed : (Inputs.onDisk (.ofBytes [] 0) cutHost.disk).named "f" = .ok (.ofBytes cutFile 0) :=
    named_onDisk (by decide) hfile
  obtain ⟨frames, ahead, hparses, hfaithful, hsession⟩ :=
    @file_reported cutHost _ _ _ hnamed rfl (by decide +kernel)
  obtain ⟨rfl, rfl⟩ := cutFile_parses.unique hparses
  have hfirst : ∃ t, cutHost.disk.createTemp (Spill.stem options.tempDir) = .ok t := by
    have hok : (cutHost.disk.createTemp (Spill.stem options.tempDir)).isOk = true := by
      decide +kernel
    cases h : cutHost.disk.createTemp (Spill.stem options.tempDir) with
    | ok t => exact ⟨t, rfl⟩
    | error cause =>
      rw [h] at hok
      cases hok
  have hread : (Frame.encodeAll threeFrames).length + (limits cutHost).extent [4, 5, 6] = 61 := by
    decide +kernel
  rw [hread] at hfaithful hsession
  have htells := hsession 0 (by decide +kernel) fun e he =>
    hasRoom_of_first hfirst (by decide +kernel) he
  have hfails : ¬ ∃ all, cutFile = Frame.encodeAll all ∧
      ∀ f ∈ all, (limits cutHost).Accepts f := by
    rw [← cutFile_parses.clean_iff (by decide +kernel)]
    decide +kernel
  simp only [accepts_iff] at hfails
  exact ⟨hfaithful, htells.failure fun hsuccess => hfails (htells.success.mp hsuccess), htells.lines⟩

end Intake.Demo
