/-
# One call of a reader

A call of `ReadNext` takes the frame at the front of its stream if it is one that is accepted
(`next_of_leads`), and is otherwise left as `Limits.stopCause` says (`next_of_stuck`).  For this it
relies on the staging area (`Served`): on its limits, and on a free buffer or a new temporary file
when the frame asks for one.
-/
import Mathlib
import Intake.Proofs.Frame.Fields
import Intake.Proofs.Staging.Taking

namespace Intake.Frame

namespace Exit

theorem outcome_eq_thrown_iff {exit : Exit} : exit.outcome = .thrown ↔ exit = .thrown := by
  cases exit <;> simp [outcome]

theorem outcome_ne_overflows (exit : Exit) : exit.outcome ≠ .overflows := by
  cases exit <;> simp [outcome]

end Exit

namespace Session

variable {s s' : Session}

/-! ## 1. The content of a frame -/

/-- The session has taken over what came of a payload. -/
structure Received (s : Session) (d : Staging.Delivery) (s' : Session) : Prop where
  source : s'.reader.source = d.source
  cursor : s'.reader.cursor = s.reader.cursor + d.consumed
  progress : s'.progress.bytes = s.progress.bytes + d.consumed
  maxMetadata : s'.reader.maxMetadata = s.reader.maxMetadata
  frameStart : s'.reader.frameStart = s.reader.frameStart
  staging : ∃ log, s'.staging = { d.staging with host := { d.staging.host with log } }

theorem readContent_of_ok {h : Header} {d : Staging.Delivery} {c : Content}
    (hd : s.staging.materialize s.reader.source h.rawSize = .delivers d) (hc : d.content = .ok c) :
    ∃ s', s.readContent h = (.record ⟨s.reader.records * 2, h.metadata, h.rawSize, c⟩, s') ∧
      s.Received d s' ∧ s'.reader.records = s.reader.records + 1 ∧
      s'.reader.stage = .metadataLength := by
  refine ⟨((s.received d).complete h c).2, ?_, ⟨rfl, rfl, rfl, rfl, rfl, _, rfl⟩, rfl, rfl⟩
  simp only [readContent, hd, hc]
  rfl

/-- What becomes of a session when a payload was taken, with a content or without one. -/
theorem readContent_of_delivers {h : Header} {d : Staging.Delivery}
    (hd : s.staging.materialize s.reader.source h.rawSize = .delivers d) :
    ∃ s', s.Received d s' ∧
      ((∃ c, d.content = .ok c ∧ s'.reader.records = s.reader.records + 1 ∧
          s.readContent h = (.record ⟨s.reader.records * 2, h.metadata, h.rawSize, c⟩, s')) ∨
        ∃ e, d.content = .error e ∧ s'.reader.stage.isFinal = true ∧
          s.readContent h = (.failed e, s')) := by
  cases hc : d.content with
  | ok c =>
    obtain ⟨s', hread, hreceived, hrecords, -⟩ := readContent_of_ok hd hc
    exact ⟨s', hreceived, Or.inl ⟨c, rfl, hrecords, hread⟩⟩
  | error e =>
    refine ⟨((s.received d).report
      (.contentFailed (s.received d).reader.frameStart e h.rawSize d.consumed)).stop .failed e,
      ⟨rfl, rfl, rfl, rfl, rfl, _, rfl⟩, Or.inr ⟨e, rfl, rfl, ?_⟩⟩
    simp only [readContent, hd, hc]

theorem readContent_returns (s : Session) (h : Header) :
    (s.readContent h).1 ≠ .thrown ∧
      (s.readContent h).2.reader.maxMetadata = s.reader.maxMetadata := by
  cases hd : s.staging.materialize s.reader.source h.rawSize with
  | waits => simp [readContent, hd]
  | overflows => simp [readContent, hd]
  | delivers d =>
    obtain ⟨t, hreceived, ⟨c, -, -, hread⟩ | ⟨e, -, -, hread⟩⟩ := readContent_of_delivers hd
    · rw [hread]
      exact ⟨nofun, hreceived.maxMetadata⟩
    · rw [hread]
      exact ⟨nofun, hreceived.maxMetadata⟩

theorem readContent_not_overflows (hfit : s.staging.threshold ≤ s.staging.pool.bufferSize)
    (h : Header) : (s.readContent h).1 ≠ .overflows := by
  cases hd : s.staging.materialize s.reader.source h.rawSize with
  | waits => simp [readContent, hd]
  | overflows => exact absurd hd (Staging.materialize_not_overflows hfit _ _)
  | delivers d =>
    obtain ⟨s', -, ⟨c, -, -, hread⟩ | ⟨e, -, -, hread⟩⟩ := readContent_of_delivers hd
    · simp [hread]
    · simp [hread]

theorem readContent_of_error {h : Header} {d : Staging.Delivery} {e : FrameError}
    (hd : s.staging.materialize s.reader.source h.rawSize = .delivers d)
    (he : d.content = .error e) (hne : e ≠ .endOfStream) :
    ∃ s', s.readContent h = (.failed e, s') ∧ s.Received d s' ∧ s'.Stopped e ∧
      s'.reader.records = s.reader.records := by
  have hstage : (Stage.failed : Stage) = if e = .endOfStream then .done else .failed :=
    (if_neg hne).symm
  refine ⟨((s.received d).report
    (.contentFailed (s.received d).reader.frameStart e h.rawSize d.consumed)).stop .failed e, ?_,
    ⟨rfl, rfl, rfl, rfl, rfl, _, rfl⟩, ⟨rfl, hstage⟩, rfl⟩
  simp only [readContent, hd, he]

/-! ## 2. What a call relies on -/

/-- The limits of a staging area are those that a reader of frames goes by. -/
structure Within (l : Limits) (staging : Staging) : Prop where
  threshold : staging.threshold = l.threshold
  fits : l.threshold ≤ staging.pool.bufferSize
  largest : Spill.room staging.host.disk = l.largest

/-- What a call of a reader relies on. -/
structure Served (l : Limits) (s : Session) : Prop where
  within : Within l s.staging
  ready : ∀ h t, s.readHeader = (.ok h, t) → s.staging.Ready h.rawSize

theorem fate_eq {l : Limits} {staging : Staging} (hthreshold : staging.threshold = l.threshold)
    (source : Source) (size : UInt64) :
    staging.fate l.largest source size =
      if l.Unkeepable size then .error .spillFailed else source.payload size.toNat := by
  unfold Staging.fate Spill.fate Staging.shouldSpill Limits.Unkeepable
  rw [hthreshold]
  by_cases h1 : l.threshold < size
  · by_cases h2 : l.largest < size.toNat
    · simp [h1, h2]
    · simp [h1, h2]
  · simp [h1]

/-- Whatever stream a payload of that size comes from, it is kept or turned away as the limits say.
-/
def Heeds (l : Limits) (staging : Staging) (size : UInt64) : Prop :=
  ∀ source : Source, ∃ d, staging.materialize source size = .delivers d ∧
    Staging.Yields (if l.threshold < size then .spill else .buffer)
      (if l.Unkeepable size then .error .spillFailed else source.payload size.toNat) d

theorem Within.heeds {l : Limits} {staging : Staging} (hwithin : Within l staging)
    {size : UInt64} (hready : staging.Ready size) : Heeds l staging size := by
  intro source
  have hfits : staging.threshold ≤ staging.pool.bufferSize := by
    rw [hwithin.threshold]
    exact hwithin.fits
  obtain ⟨d, hd, hyields⟩ := Staging.materialize_result hfits hready source
  rw [hwithin.largest, fate_eq hwithin.threshold] at hyields
  have hkind : staging.kindFor size = if l.threshold < size then .spill else .buffer := by
    simp [Staging.kindFor, Staging.shouldSpill, hwithin.threshold]
  rw [hkind] at hyields
  exact ⟨d, hd, hyields⟩

theorem Within.heeds_given {l : Limits} {staging : Staging} (hwithin : Within l staging)
    {size : UInt64} {room : Bool}
    (hfile : staging.shouldSpill size = true →
      ((∃ t, staging.host.disk.createTemp (Spill.stem staging.tempDir) = .ok t) ↔ room = true))
    (hbuffer : staging.shouldSpill size = false → staging.Ready size) :
    Heeds (l.given room) staging size := by
  have hspills : staging.shouldSpill size = true ↔ l.threshold < size := by
    simp [Staging.shouldSpill, hwithin.threshold]
  cases hspill : staging.shouldSpill size with
  | false =>
    have hsmall : ¬ l.threshold < size := by simp [← hspills, hspill]
    intro source
    obtain ⟨d, hd, hyields⟩ := hwithin.heeds (hbuffer hspill) source
    rw [if_neg hsmall, if_neg (fun hlarge => hsmall hlarge.1)] at hyields
    refine ⟨d, hd, ?_⟩
    have hsame : (l.given room).threshold = l.threshold := by cases room <;> rfl
    rw [if_neg (hsame ▸ hsmall), if_neg (fun hlarge => hsmall (hsame ▸ hlarge.1))]
    exact hyields
  | true =>
    cases room with
    | true =>
      refine hwithin.heeds ?_
      unfold Staging.Ready
      rw [if_pos hspill]
      exact (hfile hspill).mpr rfl
    | false =>
      intro source
      refine ⟨staging.toSpill source size, ?_, ?_⟩
      · rw [Staging.materialize, if_pos hspill]
      · have hunkeepable : l.confined.Unkeepable size :=
          (l.confined_unkeepable size).mpr (hspills.mp hspill)
        show Staging.Yields _ (if l.confined.Unkeepable size then _ else _) _
        rw [if_pos hunkeepable]
        exact Staging.toSpill_of_no_file (fun hmade => by simpa using (hfile hspill).mp hmade) _ _

theorem Served.behind {l : Limits} (hserved : s.Served l) {h : Header} {t : Session}
    (hheader : s.readHeader = (.ok h, t)) {n k : Nat} (hmoved : s.beginFrame.Moved t n k) :
    Within l t.staging ∧ t.staging.Ready h.rawSize := by
  obtain ⟨log, hstaging⟩ := hmoved.staging
  rw [hstaging]
  exact ⟨⟨hserved.within.threshold, hserved.within.fits, hserved.within.largest⟩,
    hserved.ready h t hheader⟩

/-! ## 3. The header of a frame, and its content -/

/-- A session that has taken the content of a frame, and the record that has come of it. -/
structure Kept (l : Limits) (t : Session) (f : Bytes × Bytes) (rest : Bytes)
    (d : Staging.Delivery) (r : Record) (t' : Session) : Prop where
  id : r.id = t.reader.records * 2
  metadata : r.metadata = f.1
  rawSize : r.rawSize = UInt64.ofNat f.2.length
  content : d.content = .ok r.content
  remaining : d.staging.remaining r.content = .ok f.2
  kind : r.content.kind = if l.threshold.toNat < f.2.length then .spill else .buffer
  received : t.Received d t'
  consumed : d.consumed = UInt64.ofNat f.2.length
  rest : t'.reader.source.rest = rest
  failure : t'.reader.source.failure = t.reader.source.failure
  records : t'.reader.records = t.reader.records + 1
  stage : t'.reader.stage = .metadataLength

/-- **The content of a frame is taken** once its header is. -/
theorem content_of_leads {l : Limits} {t : Session} {b : Bytes} {f : Bytes × Bytes} {rest : Bytes}
    (hheeds : Heeds l t.staging (headerAt b).rawSize) (hleads : l.Leads b f rest)
    (hbehind : t.reader.source.rest = b.drop (headerSize b)) :
    ∃ d r t', t.staging.materialize t.reader.source (headerAt b).rawSize = .delivers d ∧
      t.readContent (headerAt b) = (.record r, t') ∧ Kept l t f rest d r t' := by
  obtain ⟨d, hd, hyields⟩ := hheeds t.reader.source
  have hlength := hleads.1.lengths.2
  rw [hleads.drop_header] at hbehind
  have hpayload : t.reader.source.payload f.2.length = .ok f.2 := by
    rw [Source.payload_of_le (by rw [hbehind, List.length_append]; omega), hbehind, List.take_left]
  rw [if_neg hleads.not_unkeepable, hleads.headerAt_eq] at hyields
  simp only [hlength, hpayload] at hyields
  obtain ⟨c, hc, hremaining, hkind⟩ := hyields
  obtain ⟨t', hcontent, hreceived, hrecords, hstage⟩ := readContent_of_ok hd hc
  rw [hleads.headerAt_eq] at hd hcontent ⊢
  refine ⟨d, _, t', hd, hcontent, ?_⟩
  have htaken : ∃ reads, d.source = t.reader.source.after f.2.length reads ∧
      d.consumed = UInt64.ofNat f.2.length := by
    rcases Staging.materialize_source hd with ⟨-, -, he | he⟩ | ⟨reads, hsource, hconsumed, -⟩ |
      ⟨-, -, -, -, he, -⟩
    · rw [hc] at he
      cases he
    · rw [hc] at he
      cases he
    · simp only [hlength] at hsource hconsumed
      rw [hbehind, List.take_left] at hconsumed
      exact ⟨reads, hsource, hconsumed⟩
    · rw [hc] at he
      cases he
  obtain ⟨reads, hsource, hconsumed⟩ := htaken
  refine ⟨rfl, rfl, rfl, hc, hremaining, ?_, hreceived, hconsumed, ?_, ?_, hrecords, hstage⟩
  · rw [hkind]
    simp only [UInt64.lt_iff_toNat_lt, hlength]
  · rw [hreceived.source, hsource, Source.after_rest, hbehind, List.drop_left]
  · rw [hreceived.source, hsource, Source.after_failure]

/-- **The content of what is no frame that is taken** is not kept, although the header is there. -/
theorem content_of_stuck {l : Limits} {t : Session} {b : Bytes}
    (hheeds : Heeds l t.staging (headerAt b).rawSize) (hM : MetadataFits l.maxMetadata b)
    (hwhole : headerSize b ≤ b.length) (hstuck : l.Stuck b)
    (hbehind : t.reader.source.rest = b.drop (headerSize b)) :
    ∃ d t', t.staging.materialize t.reader.source (headerAt b).rawSize = .delivers d ∧
      d.content = .error (l.contentCause t.reader.source.failure.isSome b) ∧
      t.readContent (headerAt b)
        = (.failed (l.contentCause t.reader.source.failure.isSome b), t') ∧
      t.Received d t' ∧ t'.Stopped (l.contentCause t.reader.source.failure.isSome b) ∧
      t'.reader.records = t.reader.records := by
  obtain ⟨d, hd, hyields⟩ := hheeds t.reader.source
  have hrest : t.reader.source.rest.length = b.length - headerSize b := by
    rw [hbehind, List.length_drop]
  have hbad : l.Unkeepable (headerAt b).rawSize ∨
      b.length < headerSize b + (headerAt b).rawSize.toNat := by
    by_contra hno
    obtain ⟨hkept, hlong⟩ := not_or.mp hno
    exact hstuck _ _ (leads_of_header hM (Nat.not_lt.mp hlong) hkept)
  have hfate : (if l.Unkeepable (headerAt b).rawSize then .error .spillFailed
      else t.reader.source.payload (headerAt b).rawSize.toNat)
      = .error (l.contentCause t.reader.source.failure.isSome b) := by
    rw [Limits.contentCause_of_whole hwhole]
    by_cases hlarge : l.Unkeepable (headerAt b).rawSize
    · rw [if_pos hlarge, if_pos hlarge]
    · have hshort := hbad.resolve_left hlarge
      rw [if_neg hlarge, if_neg hlarge, Source.payload_of_lt (by omega), Source.cut]
  have hne : l.contentCause t.reader.source.failure.isSome b ≠ .endOfStream := by
    rw [Limits.contentCause_of_whole hwhole]
    split_ifs <;> simp
  rw [hfate] at hyields
  obtain ⟨t', hcontent, hreceived, hstopped, hrecords⟩ := readContent_of_error hd hyields hne
  exact ⟨d, t', hd, hyields, hcontent, hreceived, hstopped, hrecords⟩

/-- **A header is there in full, or the call is left over it**: there is no frame at the front
then. -/
theorem readHeader_cases {l : Limits} (hmax : s.reader.maxMetadata = l.maxMetadata) :
    (∃ t, s.readHeader = (.ok (headerAt s.reader.source.rest), t) ∧
      s.beginFrame.Moved t (headerSize s.reader.source.rest) (headerSize s.reader.source.rest) ∧
      MetadataFits l.maxMetadata s.reader.source.rest ∧
      headerSize s.reader.source.rest ≤ s.reader.source.rest.length) ∨
    ∃ t n m,
      s.readHeader =
        (.error (l.stopCause s.reader.source.failure.isSome s.reader.source.rest), t) ∧
      s.beginFrame.Moved t n m ∧ (s.reader.source.rest = [] → m = 0) ∧
      t.Left (l.stopCause s.reader.source.failure.isSome s.reader.source.rest) ∧
      l.Stuck s.reader.source.rest := by
  have hthere : lengthWidth ≤ s.reader.source.rest.length → s.reader.source.rest ≠ [] := by
    intro hfirst hnil
    rw [hnil] at hfirst
    exact absurd hfirst (by decide)
  by_cases hM : Oversized l.maxMetadata s.reader.source.rest
  · obtain ⟨t, hheader, hmoved, hstopped⟩ := readHeader_oversized (hmax ▸ hM)
    rw [Limits.stopCause, if_pos hM]
    exact Or.inr ⟨t, _, _, hheader, hmoved, fun hnil => absurd hnil (hthere hM.1), hstopped,
      fun f rest hleads => hleads.metadataFits.small hM⟩
  by_cases hlong : Overlong s.reader.source.rest
  · obtain ⟨t, hheader, hmoved, hstage⟩ := readHeader_overlong (hmax ▸ hM) hlong
    rw [Limits.stopCause, if_neg hM, if_pos hlong]
    exact Or.inr ⟨t, _, _, hheader, hmoved, fun hnil => absurd hnil (hthere hlong.1), hstage,
      fun f rest hleads => hleads.metadataFits.held hlong⟩
  have hfits : MetadataFits l.maxMetadata s.reader.source.rest := ⟨hM, hlong⟩
  rcases Nat.lt_or_ge s.reader.source.rest.length (headerSize s.reader.source.rest)
    with hshort | hwhole
  · obtain ⟨t, hheader, hmoved, hstopped⟩ := readHeader_short (hmax ▸ hfits) hshort
    rw [Limits.stopCause_of_fits hfits, Limits.contentCause,
      if_neg (fun hand => absurd hand.1 (Nat.not_le.mpr hshort))]
    refine Or.inr ⟨t, _, _, hheader, hmoved, ?_, hstopped, ?_⟩
    · intro hnil
      rw [hnil]
      split <;> rfl
    · intro f rest hleads
      have hsize := hleads.headerSize_le
      omega
  · obtain ⟨t, hheader, hmoved, -⟩ := readHeader_whole (hmax ▸ hfits) hwhole
    exact Or.inl ⟨t, hheader, hmoved, hfits, hwhole⟩

/-! ## 4. A frame at the front -/

/-- The record that a frame becomes. -/
structure Matches (l : Limits) (id : UInt64) (f : Bytes × Bytes) (staging : Staging) (r : Record) :
    Prop where
  id : r.id = id
  metadata : r.metadata = f.1
  rawSize : r.rawSize = UInt64.ofNat f.2.length
  remaining : staging.remaining r.content = .ok f.2
  kind : r.content.kind = if l.threshold.toNat < f.2.length then .spill else .buffer

/-- A call that ends with a record. -/
structure Advanced (s : Session) (rest : Bytes) (n : Nat) (s' : Session) : Prop where
  rest : s'.reader.source.rest = rest
  failure : s'.reader.source.failure = s.reader.source.failure
  cursor : s'.reader.cursor = s.reader.cursor + UInt64.ofNat n
  maxMetadata : s'.reader.maxMetadata = s.reader.maxMetadata
  records : s'.reader.records = s.reader.records + 1
  stage : s'.reader.stage = .metadataLength

/-- **A frame at the front of the stream is taken**, and its content reads back. -/
theorem next_of_leads {l : Limits} (hmax : s.reader.maxMetadata = l.maxMetadata)
    (hserved : s.Served l) (hopen : s.reader.stage.isFinal = false) {f : Bytes × Bytes}
    {rest : Bytes} (hleads : l.Leads s.reader.source.rest f rest) :
    ∃ r s', s.next = (.record r, s') ∧ Matches l (s.reader.records * 2) f s'.staging r ∧
      s.Advanced rest (encode f.1 f.2).length s' := by
  have hM : MetadataFits s.reader.maxMetadata s.reader.source.rest := by
    rw [hmax]
    exact hleads.metadataFits
  have hsize := hleads.headerSize_le
  obtain ⟨t, hheader, hmoved, -⟩ := readHeader_whole hM (by omega)
  obtain ⟨hwithin, hready⟩ := hserved.behind hheader hmoved
  obtain ⟨d, r, s', -, hcontent, hkept⟩ := content_of_leads (hwithin.heeds hready) hleads hmoved.rest
  obtain ⟨log, hstaging⟩ := hkept.received.staging
  refine ⟨r, s', ?_, ⟨?_, hkept.metadata, hkept.rawSize, ?_, hkept.kind⟩,
    ⟨hkept.rest, ?_, ?_, ?_, ?_, hkept.stage⟩⟩
  · simp only [next, hopen, Bool.false_eq_true, if_false, hheader]
    exact hcontent
  · rw [hkept.id, hmoved.records]
    rfl
  · rw [hstaging]
    exact hkept.remaining
  · rw [hkept.failure, hmoved.failure]
    rfl
  · have hsum : headerSize s.reader.source.rest + f.2.length = (encode f.1 f.2).length := by
      rw [hleads.headerSize_eq, length_encode]
    rw [hkept.received.cursor, hkept.consumed, hmoved.cursor, add_ofNat_add, hsum]
    rfl
  · rw [hkept.received.maxMetadata, hmoved.maxMetadata]
    rfl
  · rw [hkept.records, hmoved.records]
    rfl

/-! ## 5. No frame at the front -/

/-- A call that ends without a record. -/
structure Ended (s : Session) (exit : Exit) (s' : Session) : Prop where
  left : s'.Left exit
  frameStart : s'.reader.frameStart = s.reader.cursor
  records : s'.reader.records = s.reader.records
  /-- Where nothing is left nothing is taken. -/
  cursor : s.reader.source.rest = [] → s'.reader.cursor = s.reader.cursor

/-- A header that is not there ends the call. -/
theorem next_of_header_error {exit : Exit} (hopen : s.reader.stage.isFinal = false)
    (h : s.readHeader = (.error exit, s')) : s.next = (exit.outcome, s') := by
  simp only [next, hopen, Bool.false_eq_true, if_false, h]

/-- **Without a frame at the front of the stream** the call says why. -/
theorem next_of_stuck {l : Limits} (hmax : s.reader.maxMetadata = l.maxMetadata)
    (hserved : s.Served l) (hopen : s.reader.stage.isFinal = false)
    (hstuck : l.Stuck s.reader.source.rest) :
    ∃ s', s.next =
        ((l.stopCause s.reader.source.failure.isSome s.reader.source.rest).outcome, s') ∧
      s.Ended (l.stopCause s.reader.source.failure.isSome s.reader.source.rest) s' := by
  rcases readHeader_cases hmax with ⟨t, hheader, hmoved, hM, hwhole⟩ |
    ⟨s', n, m, hheader, hmoved, hnone, hleft, -⟩
  · obtain ⟨hwithin, hready⟩ := hserved.behind hheader hmoved
    have hfailure : t.reader.source.failure = s.reader.source.failure := hmoved.failure
    obtain ⟨d, s', -, -, hcontent, hreceived, hstopped, hrecords⟩ :=
      content_of_stuck (hwithin.heeds hready) hM hwhole hstuck hmoved.rest
    rw [hfailure] at hcontent hstopped
    rw [Limits.stopCause_of_fits hM]
    refine ⟨s', ?_, hstopped, ?_, ?_, ?_⟩
    · simp only [next, hopen, Bool.false_eq_true, if_false, hheader]
      exact hcontent
    · rw [hreceived.frameStart, hmoved.frameStart]
      rfl
    · rw [hrecords, hmoved.records]
      rfl
    · intro hnil
      have hpos := lengthWidth_le_headerSize s.reader.source.rest
      rw [hnil, List.length_nil] at hwhole
      have hwidth : lengthWidth = 8 := rfl
      rw [hnil] at hpos
      omega
  · refine ⟨s', next_of_header_error hopen hheader, hleft, hmoved.frameStart, hmoved.records,
      ?_⟩
    intro hnil
    rw [hmoved.cursor, hnone hnil]
    exact ofNat_zero_add _

end Session

end Intake.Frame
