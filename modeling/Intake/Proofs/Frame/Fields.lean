/-
# Reading the fields of a frame

How `ReadExact` takes a field.  `Session.Moved s s' n k` says that a session has taken `n` bytes
more, of which it has counted `k`, and that it has done nothing else but write to the log.  A field
that is there in full is taken and counted (`readField_full`); a field that is cut short is taken as
far as it goes, and counted unless the stream fails (`readField_short`).  From this, what becomes of
a header is read off the bytes at the front: `readHeader_whole`, `readHeader_oversized`,
`readHeader_overlong` and `readHeader_short`.
-/
import Mathlib
import Intake.Proofs.Frame.Format
import Intake.Proofs.Stream.Taking

namespace Intake

namespace Source

theorem after_of_ge {s : Source} {n : Nat} (h : s.rest.length ≤ n) (reads : Nat) :
    s.after n reads = s.after s.rest.length reads := by
  simp [after, List.drop_of_length_le h, List.take_of_length_le h]

end Source

namespace Frame.Session

/-! ## 1. Taking bytes -/

/-- The session took `n` bytes, counted `k` of them, and wrote to the log. -/
structure Moved (s s' : Session) (n k : Nat) : Prop where
  source : ∃ reads, s'.reader.source = s.reader.source.after n reads
  cursor : s'.reader.cursor = s.reader.cursor + UInt64.ofNat k
  progress : s'.progress.bytes = s.progress.bytes + UInt64.ofNat k
  maxMetadata : s'.reader.maxMetadata = s.reader.maxMetadata
  frameStart : s'.reader.frameStart = s.reader.frameStart
  records : s'.reader.records = s.reader.records
  staging : ∃ log, s'.staging = { s.staging with host := { s.staging.host with log } }

/-- A session that has come to an end. -/
structure Stopped (s : Session) (e : FrameError) : Prop where
  lastError : s.reader.lastError = e
  stage : s.reader.stage = if e = .endOfStream then .done else .failed

theorem Stopped.isFinal {s : Session} {e : FrameError} (h : s.Stopped e) :
    s.reader.stage.isFinal = true := by
  rw [h.stage]
  split <;> rfl

/-- Where a session stands that was left without a record: it has come to an end, unless it was left
by an exception. -/
def Left (s : Session) : Exit → Prop
  | .failed e => s.Stopped e
  | .thrown => s.reader.stage = .metadata

theorem ofNat_zero_add (x : UInt64) : x + UInt64.ofNat 0 = x := UInt64.add_zero x

theorem add_ofNat_add (x : UInt64) (m n : Nat) :
    x + UInt64.ofNat m + UInt64.ofNat n = x + UInt64.ofNat (m + n) := by
  rw [UInt64.ofNat_add, UInt64.add_assoc]

variable {s s' s'' : Session} {m n j k : Nat}

theorem moved_of_reader {stage : Stage} {e : FrameError} :
    s.Moved { s with reader := { s.reader with stage, lastError := e } } 0 0 where
  source := ⟨s.reader.source.reads, s.reader.source.after_zero.symm⟩
  cursor := (ofNat_zero_add _).symm
  progress := (ofNat_zero_add _).symm
  maxMetadata := rfl
  frameStart := rfl
  records := rfl
  staging := ⟨s.staging.host.log, rfl⟩

theorem moved_enter (s : Session) (stage : Stage) : s.Moved (s.enter stage) 0 0 := moved_of_reader

theorem moved_stop (s : Session) (stage : Stage) (e : FrameError) : s.Moved (s.stop stage e) 0 0 :=
  moved_of_reader

theorem moved_report (s : Session) (e : Event) : s.Moved (s.report e) 0 0 where
  source := ⟨s.reader.source.reads, s.reader.source.after_zero.symm⟩
  cursor := (ofNat_zero_add _).symm
  progress := (ofNat_zero_add _).symm
  maxMetadata := rfl
  frameStart := rfl
  records := rfl
  staging := ⟨_, rfl⟩

theorem Moved.trans (h : s.Moved s' m j) (h' : s'.Moved s'' n k)
    (hm : m ≤ s.reader.source.rest.length) : s.Moved s'' (m + n) (j + k) := by
  obtain ⟨reads, hsource⟩ := h.source
  obtain ⟨reads', hsource'⟩ := h'.source
  obtain ⟨log, hstaging⟩ := h.staging
  obtain ⟨log', hstaging'⟩ := h'.staging
  constructor
  · exact ⟨reads', by rw [hsource', hsource, Source.after_after _ _ _ _ _ hm]⟩
  · rw [h'.cursor, h.cursor, add_ofNat_add]
  · rw [h'.progress, h.progress, add_ofNat_add]
  · rw [h'.maxMetadata, h.maxMetadata]
  · rw [h'.frameStart, h.frameStart]
  · rw [h'.records, h.records]
  · exact ⟨log', by rw [hstaging', hstaging]⟩

theorem Moved.rest (h : s.Moved s' n k) : s'.reader.source.rest = s.reader.source.rest.drop n := by
  obtain ⟨reads, hsource⟩ := h.source
  rw [hsource, Source.after_rest]

theorem Moved.failure (h : s.Moved s' n k) :
    s'.reader.source.failure = s.reader.source.failure := by
  obtain ⟨reads, hsource⟩ := h.source
  rw [hsource, Source.after_failure]

theorem Moved.then_still (h : s.Moved s' n k) (h' : s'.Moved s'' 0 0)
    (hn : n ≤ s.reader.source.rest.length) : s.Moved s'' n k :=
  h.trans h' hn

/-! ## 2. One field -/

/-- The session with the stream that is left. -/
def withSource (s : Session) (source : Source) : Session :=
  { s with reader := { s.reader with source } }

theorem moved_count (s : Session) (n reads : Nat) :
    s.Moved ((s.withSource (s.reader.source.after n reads)).count (UInt64.ofNat n)) n n where
  source := ⟨reads, rfl⟩
  cursor := rfl
  progress := rfl
  maxMetadata := rfl
  frameStart := rfl
  records := rfl
  staging := ⟨_, rfl⟩

theorem moved_withSource (s : Session) (n reads : Nat) :
    s.Moved (s.withSource (s.reader.source.after n reads)) n 0 where
  source := ⟨reads, rfl⟩
  cursor := (ofNat_zero_add _).symm
  progress := (ofNat_zero_add _).symm
  maxMetadata := rfl
  frameStart := rfl
  records := rfl
  staging := ⟨_, rfl⟩

/-- **A field that is there in full.** -/
theorem readField_full (h : n ≤ s.reader.source.rest.length) :
    ∃ s', s.readField n = (.ok (s.reader.source.rest.take n), s') ∧ s.Moved s' n n ∧
      s'.reader.stage = s.reader.stage := by
  obtain ⟨reads, hread⟩ := readUpTo_source n s.reader.source
  have hshortfall : s.reader.source.shortfall n = none := if_pos h
  have hlen : (s.reader.source.rest.take n).length = n := by
    rw [List.length_take]
    omega
  refine ⟨_, ?_, s.moved_count n reads, rfl⟩
  simp only [readField, hread, hshortfall, Option.elim_none, hlen, if_neg (Nat.lt_irrefl n)]
  rfl

/-- What a session ends with when a field takes more than there is. -/
def fieldCause (s : Session) : FrameError :=
  if s.reader.source.failure.isSome then .ioError
  else if s.reader.cursor + UInt64.ofNat s.reader.source.rest.length = s.reader.frameStart then
    .endOfStream
  else .truncated

theorem ended_spec (s : Session) (expected got : Nat) :
    ∃ s' e, s.ended expected got = (.error e, s') ∧ s.Moved s' 0 0 ∧ s'.Stopped e ∧
      e = if s.reader.cursor = s.reader.frameStart then .endOfStream else .truncated := by
  unfold ended
  simp only
  split
  · refine ⟨_, _, rfl, ?_, ⟨rfl, rfl⟩, rfl⟩
    exact (s.moved_stop .done .endOfStream).trans (moved_report _ _) (Nat.zero_le _)
  · refine ⟨_, _, rfl, ?_, ⟨rfl, rfl⟩, rfl⟩
    exact (s.moved_report _).trans (moved_stop _ .failed .truncated) (Nat.zero_le _)

/-- **A field that is cut short.** -/
theorem readField_short (h : s.reader.source.rest.length < n) :
    ∃ s', s.readField n = (.error s.fieldCause, s') ∧
      s.Moved s' s.reader.source.rest.length
        (if s.reader.source.failure.isSome then 0 else s.reader.source.rest.length) ∧
      s'.Stopped s.fieldCause := by
  obtain ⟨reads, hread⟩ := readUpTo_source n s.reader.source
  rw [Source.after_of_ge h.le] at hread
  have hnot : ¬ n ≤ s.reader.source.rest.length := Nat.not_le.mpr h
  have htake : s.reader.source.rest.take n = s.reader.source.rest := List.take_of_length_le h.le
  unfold fieldCause
  cases hf : s.reader.source.failure with
  | some e =>
    have hshortfall : s.reader.source.shortfall n = some e :=
      (Source.shortfall_of_short (Nat.not_le.mp hnot)).trans hf
    have hstill : ∀ t : Session, t.Moved
        ((t.report (.fieldFailed s.reader.cursor s.reader.stage)).stop .failed .ioError) 0 0 :=
      fun t => (moved_report t _).trans (moved_stop _ .failed .ioError) (Nat.zero_le _)
    refine ⟨_, ?_, (s.moved_withSource s.reader.source.rest.length reads).then_still
      (hstill _) le_rfl, ⟨rfl, rfl⟩⟩
    simp only [readField, hread, hshortfall, Option.elim_some]
    rfl
  | none =>
    have hshortfall : s.reader.source.shortfall n = none :=
      (Source.shortfall_of_short (Nat.not_le.mp hnot)).trans hf
    obtain ⟨s', e, hended, hmoved, hstopped, he⟩ :=
      ((s.withSource (s.reader.source.after s.reader.source.rest.length reads)).count
        (UInt64.ofNat s.reader.source.rest.length)).ended_spec n s.reader.source.rest.length
    have hcause : e = if s.reader.cursor + UInt64.ofNat s.reader.source.rest.length
        = s.reader.frameStart then .endOfStream else .truncated := he
    refine ⟨s', ?_, (s.moved_count _ reads).then_still hmoved le_rfl, ?_⟩
    · simp only [readField, hread, hshortfall, Option.elim_none, htake, if_pos h]
      rw [← hcause]
      exact hended
    · simp only [Option.isSome_none, Bool.false_eq_true, if_false, ← hcause]
      exact hstopped

/-! ## 3. The header of a frame -/

/-- Where the field begins that is cut short. -/
def cutField (b : Bytes) : Nat :=
  if b.length < lengthWidth then 0
  else if b.length < lengthWidth + (metadataSize b).toNat then lengthWidth
  else lengthWidth + (metadataSize b).toNat

theorem fieldCause_of_moved (h : s.beginFrame.Moved s' n n)
    (hn : n ≤ s.reader.source.rest.length)
    (hshort : s.reader.source.rest.length < headerSize s.reader.source.rest) :
    s'.fieldCause = cutCause s.reader.source.failure.isSome s.reader.source.rest := by
  have hrest : s'.reader.source.rest = s.reader.source.rest.drop n := h.rest
  have hfailure : s'.reader.source.failure = s.reader.source.failure := h.failure
  have hcursor : s'.reader.cursor = s.reader.cursor + UInt64.ofNat n := h.cursor
  have hstart : s'.reader.frameStart = s.reader.cursor := h.frameStart
  have hsum : n + (s.reader.source.rest.length - n) = s.reader.source.rest.length := by omega
  unfold fieldCause cutCause
  rw [hrest, hfailure, hcursor, hstart, List.length_drop, add_ofNat_add, hsum]
  simp only [hshort, true_and, add_eq_left]

/-- What becomes of a header is decided by its first field, once that is there. -/
theorem readHeader_decided (h : lengthWidth ≤ s.reader.source.rest.length) :
    ∃ s₁, s.beginFrame.Moved s₁ lengthWidth lengthWidth ∧
      s.readHeader =
        if s.reader.maxMetadata < metadataSize s.reader.source.rest then
          (.error (.failed .metadataTooLarge), s₁.oversized (metadataSize s.reader.source.rest))
        else if longestBlock < (metadataSize s.reader.source.rest).toNat then
          (.error .thrown, s₁.enter .metadata)
        else
          match (s₁.enter .metadata).readField (metadataSize s.reader.source.rest).toNat with
          | (.error e, s) => (.error e, s)
          | (.ok metadata, s) =>
            match (s.enter .contentLength).readField lengthWidth with
            | (.error e, s) => (.error e, s)
            | (.ok field, s) => (.ok ⟨metadata, decodeLength field⟩, s.enter .content) := by
  obtain ⟨s₁, hread, hmoved, -⟩ := readField_full (s := s.beginFrame) h
  refine ⟨s₁, hmoved, ?_⟩
  have hmax : s₁.reader.maxMetadata = s.reader.maxMetadata := hmoved.maxMetadata
  rw [← hmax]
  simp only [readHeader, hread]
  rfl

/-- **A header whose first field is too large.** -/
theorem readHeader_oversized (h : Oversized s.reader.maxMetadata s.reader.source.rest) :
    ∃ s', s.readHeader = (.error (.failed .metadataTooLarge), s') ∧
      s.beginFrame.Moved s' lengthWidth lengthWidth ∧ s'.Stopped .metadataTooLarge := by
  obtain ⟨s₁, hmoved, hheader⟩ := readHeader_decided h.1
  rw [if_pos h.2] at hheader
  exact ⟨_, hheader, hmoved.then_still
    ((moved_report _ _).trans (moved_stop _ .failed .metadataTooLarge) (Nat.zero_le _)) h.1,
    ⟨rfl, rfl⟩⟩

/-- **A header whose metadata no memory can hold.**  The length field is taken and counted, and the
session has not come to an end. -/
theorem readHeader_overlong (hM : ¬ Oversized s.reader.maxMetadata s.reader.source.rest)
    (h : Overlong s.reader.source.rest) :
    ∃ s', s.readHeader = (.error .thrown, s') ∧
      s.beginFrame.Moved s' lengthWidth lengthWidth ∧ s'.reader.stage = .metadata := by
  obtain ⟨s₁, hmoved, hheader⟩ := readHeader_decided h.1
  rw [if_neg fun hlt => hM ⟨h.1, hlt⟩, if_pos h.2] at hheader
  exact ⟨_, hheader, hmoved.then_still (moved_enter _ _) h.1, rfl⟩

theorem readHeader_first (hM : MetadataFits s.reader.maxMetadata s.reader.source.rest)
    (h : lengthWidth ≤ s.reader.source.rest.length) :
    ∃ s₁, s.beginFrame.Moved s₁ lengthWidth lengthWidth ∧
      s.readHeader = match s₁.readField (metadataSize s.reader.source.rest).toNat with
        | (.error e, s) => (.error e, s)
        | (.ok metadata, s) =>
          match (s.enter .contentLength).readField lengthWidth with
          | (.error e, s) => (.error e, s)
          | (.ok field, s) => (.ok ⟨metadata, decodeLength field⟩, s.enter .content) := by
  obtain ⟨s₁, hmoved, hheader⟩ := readHeader_decided h
  rw [if_neg fun hlt => hM.small ⟨h, hlt⟩, if_neg fun hlt => hM.held ⟨h, hlt⟩] at hheader
  exact ⟨s₁.enter .metadata, hmoved.then_still (moved_enter _ _) h, hheader⟩

theorem readHeader_second (hM : MetadataFits s.reader.maxMetadata s.reader.source.rest)
    (h : lengthWidth + (metadataSize s.reader.source.rest).toNat ≤ s.reader.source.rest.length) :
    ∃ s₂, s.beginFrame.Moved s₂ (lengthWidth + (metadataSize s.reader.source.rest).toNat)
        (lengthWidth + (metadataSize s.reader.source.rest).toNat) ∧
      s.readHeader = match s₂.readField lengthWidth with
        | (.error e, t) => (.error e, t)
        | (.ok field, t) =>
          (.ok ⟨(headerAt s.reader.source.rest).metadata, decodeLength field⟩,
            t.enter .content) := by
  obtain ⟨s₁, hmoved, hheader⟩ := readHeader_first hM (by omega)
  have hrest := hmoved.rest
  have hroom : (metadataSize s.reader.source.rest).toNat ≤ s₁.reader.source.rest.length := by
    rw [hrest, List.length_drop]
    show _ ≤ s.reader.source.rest.length - lengthWidth
    omega
  obtain ⟨s₂, hread, hmoved', -⟩ := readField_full hroom
  have hfirst : lengthWidth ≤ s.beginFrame.reader.source.rest.length :=
    Nat.le_trans (Nat.le_add_right _ _) h
  refine ⟨s₂.enter .contentLength,
    (hmoved.trans hmoved' hfirst).then_still (moved_enter _ _) h, ?_⟩
  rw [hheader, hread]
  simp only [hrest]
  rfl

/-- **A header that is there in full.** -/
theorem readHeader_whole (hM : MetadataFits s.reader.maxMetadata s.reader.source.rest)
    (h : headerSize s.reader.source.rest ≤ s.reader.source.rest.length) :
    ∃ s', s.readHeader = (.ok (headerAt s.reader.source.rest), s') ∧
      s.beginFrame.Moved s' (headerSize s.reader.source.rest) (headerSize s.reader.source.rest) ∧
      s'.reader.stage = .content := by
  have hsize := headerSize.eq_def s.reader.source.rest
  have hsecond : lengthWidth + (metadataSize s.reader.source.rest).toNat
      ≤ s.reader.source.rest.length := by omega
  obtain ⟨s₂, hmoved, hheader⟩ := readHeader_second hM hsecond
  have hrest := hmoved.rest
  have hroom : lengthWidth ≤ s₂.reader.source.rest.length := by
    rw [hrest, List.length_drop]
    show _ ≤ s.reader.source.rest.length - _
    omega
  obtain ⟨s₃, hread, hmoved', -⟩ := readField_full hroom
  refine ⟨s₃.enter .content, ?_, ?_, rfl⟩
  · rw [hheader, hread]
    simp only [hrest]
    rfl
  · rw [hsize]
    exact (hmoved.trans hmoved' hsecond).then_still (moved_enter _ _) (hsize ▸ h)

theorem cut_at {s₁ : Session} (hmoved : s.beginFrame.Moved s₁ n n)
    (hshort : s.reader.source.rest.length < headerSize s.reader.source.rest)
    (hn : n ≤ s.reader.source.rest.length) (hcut : s.reader.source.rest.length < n + m) :
    ∃ s', s₁.readField m =
        (.error (cutCause s.reader.source.failure.isSome s.reader.source.rest), s') ∧
      s.beginFrame.Moved s' s.reader.source.rest.length
        (if s.reader.source.failure.isSome then n else s.reader.source.rest.length) ∧
      s'.Stopped (cutCause s.reader.source.failure.isSome s.reader.source.rest) := by
  have hrest : s₁.reader.source.rest = s.reader.source.rest.drop n := hmoved.rest
  have hfailure : s₁.reader.source.failure = s.reader.source.failure := hmoved.failure
  have hlen : s₁.reader.source.rest.length = s.reader.source.rest.length - n := by
    rw [hrest, List.length_drop]
  obtain ⟨s', hread, hmoved', hstopped⟩ := readField_short (s := s₁) (n := m) (by omega)
  have hcause := fieldCause_of_moved hmoved hn hshort
  have hall := hmoved.trans hmoved' hn
  rw [hcause] at hread hstopped
  refine ⟨s', hread, ?_, hstopped⟩
  have hsum : n + (s.reader.source.rest.length - n) = s.reader.source.rest.length := by omega
  rw [hfailure, hlen, hsum] at hall
  cases hf : s.reader.source.failure with
  | none => simpa [hf, hsum] using hall
  | some e => simpa [hf] using hall

/-- **A header that is cut short.** -/
theorem readHeader_short (hM : MetadataFits s.reader.maxMetadata s.reader.source.rest)
    (h : s.reader.source.rest.length < headerSize s.reader.source.rest) :
    ∃ s', s.readHeader =
        (.error (cutCause s.reader.source.failure.isSome s.reader.source.rest), s') ∧
      s.beginFrame.Moved s' s.reader.source.rest.length
        (if s.reader.source.failure.isSome then cutField s.reader.source.rest
          else s.reader.source.rest.length) ∧
      s'.Stopped (cutCause s.reader.source.failure.isSome s.reader.source.rest) := by
  have hsize := headerSize.eq_def s.reader.source.rest
  unfold cutField
  rcases Nat.lt_or_ge s.reader.source.rest.length lengthWidth with hfirst | hfirst
  · have hstart : s.beginFrame.Moved s.beginFrame 0 0 := moved_of_reader
    obtain ⟨s', hread, hmoved, hstopped⟩ :=
      cut_at hstart h (Nat.zero_le _) (m := lengthWidth) (by omega)
    rw [if_pos hfirst]
    refine ⟨s', ?_, hmoved, hstopped⟩
    simp only [readHeader, hread]
  rw [if_neg (Nat.not_lt.mpr hfirst)]
  rcases Nat.lt_or_ge s.reader.source.rest.length
      (lengthWidth + (metadataSize s.reader.source.rest).toNat) with hsecond | hsecond
  · obtain ⟨s₁, hstart, hheader⟩ := readHeader_first hM hfirst
    obtain ⟨s', hread, hmoved, hstopped⟩ := cut_at hstart h hfirst hsecond
    rw [if_pos hsecond]
    refine ⟨s', ?_, hmoved, hstopped⟩
    rw [hheader, hread]
  · obtain ⟨s₂, hstart, hheader⟩ := readHeader_second hM hsecond
    obtain ⟨s', hread, hmoved, hstopped⟩ := cut_at hstart h hsecond (m := lengthWidth) (by omega)
    rw [if_neg (Nat.not_lt.mpr hsecond)]
    refine ⟨s', ?_, hmoved, hstopped⟩
    rw [hheader, hread]

end Frame.Session

end Intake
