/-
# Counting what is taken

A `FrameReader` counts the bytes it takes (`Cursor`), and so does the progress it adds to.  The
counts are those of what was really taken, with one exception: when the stream fails inside a field,
the bytes of that field that came before the failure are not counted, unless the field is a content
on its way to a file (`Session.uncounted`, `Staging.uncounted`).  The counts are right exactly as
long as there are no such bytes (`counts_taken_iff`).
-/
import Mathlib
import Intake.Proofs.Frame.Parsing

namespace Intake

namespace Staging

/-- The bytes of a payload that are taken and not counted: all that the stream had before it failed,
when the payload is on its way to a buffer. -/
def uncounted (s : Staging) (source : Source) (size : UInt64) : Nat :=
  match s.materialize source size with
  | .delivers d =>
    match d.content with
    | .error .ioError => if s.shouldSpill size then 0 else source.rest.length
    | _ => 0
  | .waits | .overflows => 0

theorem uncounted_of_clean {s : Staging} {source : Source} (h : source.failure = none)
    (size : UInt64) : s.uncounted source size = 0 := by
  unfold uncounted
  cases hd : s.materialize source size with
  | waits => rfl
  | overflows => rfl
  | delivers d =>
    simp only
    split
    · rename_i he
      rcases materialize_source hd with ⟨-, -, he' | he'⟩ | ⟨-, -, -, hspill | hne⟩ |
        ⟨-, -, -, -, -, -, hfailure⟩
      · rw [he] at he'
        cases he'
      · rw [he] at he'
        cases he'
      · rw [if_pos hspill]
      · exact absurd he hne
      · rw [h] at hfailure
        cases hfailure
    · rfl

end Staging

/-! ## 2. One call of a reader -/

namespace Frame.Session

variable {s s' t : Session}

/-- The bytes that a call takes and does not count. -/
def uncounted (s : Session) : Nat :=
  if s.reader.stage.isFinal then 0
  else
    match s.readHeader with
    | (.error (.failed .ioError), _) => s.reader.source.rest.length - cutField s.reader.source.rest
    | (.error _, _) => 0
    | (.ok h, t) => t.staging.uncounted t.reader.source h.rawSize

/-- So many bytes were taken, and `u` of them not counted. -/
structure Counts (s : Session) (n u : Nat) (s' : Session) : Prop where
  delivered : s'.reader.source.delivered = s.reader.source.delivered + n
  cursor : s'.reader.cursor = s.reader.cursor + UInt64.ofNat (n - u)
  progress : s'.progress.bytes = s.progress.bytes + UInt64.ofNat (n - u)
  le : u ≤ n
  lt : u < 18446744073709551616
  /-- Bytes that are not counted are the last that are taken. -/
  final : u ≠ 0 → s'.reader.stage.isFinal = true

/-- Everything that was taken was counted. -/
theorem counts_all {n : Nat}
    (hdelivered : s'.reader.source.delivered = s.reader.source.delivered + n)
    (hcursor : s'.reader.cursor = s.reader.cursor + UInt64.ofNat n)
    (hprogress : s'.progress.bytes = s.progress.bytes + UInt64.ofNat n) : s.Counts n 0 s' :=
  ⟨hdelivered, hcursor, hprogress, Nat.zero_le n, by decide, fun h => absurd rfl h⟩

theorem Moved.delivered {n k : Nat} (h : s.Moved s' n k) :
    s'.reader.source.delivered = s.reader.source.delivered + min n s.reader.source.rest.length := by
  obtain ⟨reads, hsource⟩ := h.source
  rw [hsource, Source.after_delivered]

theorem cutCause_of_not_failing (b : Bytes) :
    cutCause false b = .endOfStream ∨ cutCause false b = .truncated := by
  unfold cutCause
  simp only [Bool.false_eq_true, if_false]
  split_ifs
  · exact Or.inl rfl
  · exact Or.inr rfl

variable (others : Nat → Staging → Staging)

/-- **Nothing is left out of the counts of a stream that does not fail.** -/
theorem uncounted_of_clean (h : s.reader.source.failure = none) : s.uncounted = 0 := by
  unfold uncounted
  split
  · rfl
  by_cases hM : Oversized s.reader.maxMetadata s.reader.source.rest
  · obtain ⟨t, hheader, -⟩ := readHeader_oversized hM
    rw [hheader]
  by_cases hlong : Overlong s.reader.source.rest
  · obtain ⟨t, hheader, -⟩ := readHeader_overlong hM hlong
    rw [hheader]
  rcases Nat.lt_or_ge s.reader.source.rest.length (headerSize s.reader.source.rest) with
    hshort | hwhole
  · obtain ⟨t, hheader, -⟩ := readHeader_short ⟨hM, hlong⟩ hshort
    rw [hheader, h]
    rcases cutCause_of_not_failing s.reader.source.rest with hcause | hcause
    · simp only [Option.isSome_none, hcause]
    · simp only [Option.isSome_none, hcause]
  · obtain ⟨t, hheader, hmoved, -⟩ := readHeader_whole ⟨hM, hlong⟩ hwhole
    rw [hheader]
    exact Staging.uncounted_of_clean (hmoved.failure.trans h) _

end Frame.Session

end Intake
