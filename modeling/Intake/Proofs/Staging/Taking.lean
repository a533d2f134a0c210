/-
# What becomes of a payload

A payload that is put into the staging area (`Materialize`) is kept in a buffer or in a file, by its
size, and reads back as it was; or it is turned away because no file can have its size; or the
stream cuts it short (`Staging.fate`, `materialize_result`).  This takes a free buffer, or a
temporary file that can be made (`Staging.Ready`), and nothing else.

What is taken from the stream is counted in all cases but one (`materialize_source`).
-/
import Mathlib
import Intake.Proofs.Pool.Lending
import Intake.Proofs.Spill.Writing
import Intake.Staging.Basic

namespace Intake.Staging

variable {s : Staging}

/-! ## 1. What there has to be -/

/-- What becomes of a payload when files can have sizes up to a limit. -/
def fate (s : Staging) (limit : Nat) (source : Source) (size : UInt64) : Except FrameError Bytes :=
  if s.shouldSpill size then Spill.fate limit source size.toNat else source.payload size.toNat

/-- Where a payload is kept. -/
def kindFor (s : Staging) (size : UInt64) : Content.Kind :=
  if s.shouldSpill size then .spill else .buffer

/-- Nothing stands in the way of a payload: a file can be made for it, or there is a free buffer. -/
def Ready (s : Staging) (size : UInt64) : Prop :=
  if s.shouldSpill size then ∃ t, s.host.disk.createTemp (Spill.stem s.tempDir) = .ok t
  else ∃ b pool, s.pool.acquire = .gives (b, pool) ∧ b < s.pool.memory.length

theorem acquire_same {p p' : Pool} {b : Nat} (h : p.acquire = .gives (b, p')) :
    p'.memory = p.memory ∧ p'.bufferSize = p.bufferSize := by
  unfold Pool.acquire Pool.takeFree at h
  cases htake : p.free.take with
  | waits => simp [htake, Attempt.map] at h
  | fails e => simp [htake, Attempt.map] at h
  | gives r =>
    simp only [htake, Attempt.map, Attempt.gives.injEq, Prod.mk.injEq] at h
    rw [← h.2, Pool.raiseMark_eq]
    exact ⟨rfl, rfl⟩

theorem giveBack_same (p : Pool) (b : Nat) :
    (p.giveBack b).1.memory = p.memory ∧ (p.giveBack b).1.bufferSize = p.bufferSize := by
  unfold Pool.giveBack Pool.putFree
  cases p.countIn.free.put b <;> exact ⟨rfl, rfl⟩

/-! ## 2. What comes of it -/

/-- What came of a payload: a content of the given kind that reads back to it, or why there is none.
-/
def Yields (kind : Content.Kind) (fate : Except FrameError Bytes) (d : Delivery) : Prop :=
  match fate with
  | .ok bytes => ∃ c, d.content = .ok c ∧ d.staging.remaining c = .ok bytes ∧ c.kind = kind
  | .error e => d.content = .error e

theorem toSpill_yields {t : Disk.TempFile}
    (ht : s.host.disk.createTemp (Spill.stem s.tempDir) = .ok t) (source : Source)
    (size : UInt64) :
    Yields .spill (Spill.fate (Spill.room s.host.disk) source size.toNat)
      (s.toSpill source size) := by
  have hwrite := Spill.write_result ht source size
  unfold Yields
  cases hfate : Spill.fate (Spill.room s.host.disk) source size.toNat with
  | error e =>
    rw [hfate] at hwrite
    simp only [toSpill, hwrite]
  | ok bytes =>
    rw [hfate] at hwrite
    obtain ⟨hresult, hbytes⟩ := hwrite
    have hread := FileNode.readAt_ofBytes bytes 0 bytes.length
    rw [List.drop_zero, List.take_length] at hread
    refine ⟨.spilled ⟨t.path, some (.file t.node 0), size⟩, by simp only [toSpill, hresult], ?_,
      rfl⟩
    have hhost : (s.toSpill source size).staging.host
        = (Spill.write s.host source size s.tempDir).host := by
      simp only [toSpill, hresult]
    simp only [Staging.remaining, Content.remaining, SpillFile.remaining, hhost, hbytes,
      Except.mapError, Except.ok.injEq]
    exact hread

theorem toSpill_taken (s : Staging) (source : Source) (size : UInt64) :
    (s.toSpill source size).source = (Spill.write s.host source size s.tempDir).source ∧
      (s.toSpill source size).consumed
        = (Spill.write s.host source size s.tempDir).consumed := by
  unfold toSpill
  simp only
  split <;> exact ⟨rfl, rfl⟩

theorem toSpill_of_no_file (h : ¬ ∃ t, s.host.disk.createTemp (Spill.stem s.tempDir) = .ok t)
    (source : Source) (size : UInt64) :
    (s.toSpill source size).content = .error .spillFailed := by
  cases ht : s.host.disk.createTemp (Spill.stem s.tempDir) with
  | ok t => exact absurd ⟨t, ht⟩ h
  | error cause => simp only [toSpill, Spill.write_willing, ht]

theorem fillBuffer_eq (s : Staging) (b : Nat) (source : Source) (size : UInt64) :
    ∃ reads, (s.fillBuffer b source size).source = source.after size.toNat reads ∧
      (s.fillBuffer b source size).consumed =
        (if (source.shortfall size.toNat).isSome then 0
          else UInt64.ofNat (source.rest.take size.toNat).length) ∧
      match source.payload size.toNat with
      | .error e => (s.fillBuffer b source size).content = .error e ∧
          ∃ event, (s.fillBuffer b source size).staging
            = (({ s with pool := s.pool.store b (source.rest.take size.toNat) } : Staging).release
                (.buffered ⟨some b⟩ size.toNat 0)).report event
      | .ok bytes => (s.fillBuffer b source size).content = .ok (.buffered ⟨some b⟩ size.toNat 0) ∧
          (s.fillBuffer b source size).staging
            = { s with pool := s.pool.store b bytes, buffered := s.buffered + 1 } := by
  obtain ⟨reads, hgather⟩ := gather_source size.toNat size.toNat source (fun h => by omega)
  have hlen := List.length_take (i := size.toNat) (l := source.rest)
  refine ⟨reads, ?_⟩
  unfold fillBuffer
  simp only [hgather]
  rcases Nat.lt_or_ge source.rest.length size.toNat with hshort | hfull
  · rw [Source.payload_of_lt hshort]
    cases hf : source.failure with
    | some e =>
      have hshortfall : source.shortfall size.toNat = some e :=
        (Source.shortfall_of_short hshort).trans hf
      simp only [hshortfall, Source.cut, hf, true_and]
      exact ⟨rfl, rfl, _, rfl⟩
    | none =>
      have hshortfall : source.shortfall size.toNat = none :=
        (Source.shortfall_of_short hshort).trans hf
      have hcut : (source.rest.take size.toNat).length < size.toNat := by omega
      simp only [hshortfall, Source.cut, hf, if_pos hcut, true_and]
      exact ⟨rfl, rfl, _, rfl⟩
  · have hshortfall : source.shortfall size.toNat = none := if_pos hfull
    have hwhole : ¬ (source.rest.take size.toNat).length < size.toNat := by omega
    rw [Source.payload_of_le hfull]
    simp only [hshortfall, if_neg hwhole, true_and]
    exact ⟨rfl, trivial⟩

theorem fillBuffer_yields {b : Nat} (hb : b < s.pool.memory.length) (source : Source)
    (size : UInt64) :
    Yields .buffer (source.payload size.toNat) (s.fillBuffer b source size) := by
  obtain ⟨reads, -, -, hfill⟩ := fillBuffer_eq s b source size
  unfold Yields
  rcases Nat.lt_or_ge source.rest.length size.toNat with hshort | hfull
  · rw [Source.payload_of_lt hshort] at hfill ⊢
    exact hfill.1
  · rw [Source.payload_of_le hfull] at hfill ⊢
    obtain ⟨hcontent, hstaging⟩ := hfill
    have hload := Pool.load_store (source.rest.take size.toNat) hb
    have hlen : (source.rest.take size.toNat).length = size.toNat := by
      rw [List.length_take]
      omega
    rw [hlen] at hload
    refine ⟨_, hcontent, ?_, rfl⟩
    rw [hstaging]
    show (if size.toNat - 0 = 0 then _ else _) = _
    split
    · rename_i hzero
      have hzero : size.toNat = 0 := by omega
      rw [hzero, List.take_zero]
    · exact congrArg Except.ok hload

theorem toBuffer_of_acquire {b : Nat} {pool : Pool} (hacq : s.pool.acquire = .gives (b, pool))
    {source : Source} {size : UInt64} (hfit : size ≤ s.pool.bufferSize) :
    s.toBuffer source size = .delivers (fillBuffer { s with pool } b source size) := by
  rw [← (acquire_same hacq).2] at hfit
  simp only [toBuffer, hacq, if_neg (UInt64.not_lt.mpr hfit)]

theorem le_bufferSize (hfit : s.threshold ≤ s.pool.bufferSize) {size : UInt64}
    (hbuffer : s.shouldSpill size = false) : size ≤ s.pool.bufferSize := by
  have hle : size ≤ s.threshold := by simpa [shouldSpill, UInt64.not_lt] using hbuffer
  exact UInt64.le_trans hle hfit

theorem materialize_not_overflows (hfit : s.threshold ≤ s.pool.bufferSize) (source : Source)
    (size : UInt64) : s.materialize source size ≠ .overflows := by
  intro hd
  unfold materialize at hd
  split at hd
  · cases hd
  · rename_i hbuffer
    cases hacq : s.pool.acquire with
    | waits => simp [toBuffer, hacq] at hd
    | fails cause => simp [toBuffer, hacq] at hd
    | gives r =>
      rw [toBuffer_of_acquire hacq (le_bufferSize hfit (by simpa using hbuffer))] at hd
      cases hd

/-- **What becomes of a payload**, when nothing stands in its way. -/
theorem materialize_result (hfit : s.threshold ≤ s.pool.bufferSize) {size : UInt64}
    (hready : s.Ready size) (source : Source) :
    ∃ d, s.materialize source size = .delivers d ∧
      Yields (s.kindFor size) (s.fate (Spill.room s.host.disk) source size) d := by
  unfold Ready at hready
  unfold materialize kindFor fate
  split
  · rename_i hspill
    rw [if_pos hspill] at hready
    obtain ⟨t, ht⟩ := hready
    exact ⟨_, rfl, toSpill_yields ht source size⟩
  · rename_i hbuffer
    rw [if_neg hbuffer] at hready
    obtain ⟨b, pool, hacq, hb⟩ := hready
    have hroom := le_bufferSize hfit (by simpa using hbuffer)
    refine ⟨_, toBuffer_of_acquire hacq hroom, fillBuffer_yields ?_ source size⟩
    rw [(acquire_same hacq).1]
    exact hb

/-! ## 3. What is taken from the stream -/

/-- **What a payload takes from the stream**: nothing, when it is turned away at once; otherwise its
size, or all that is left.  This is counted, except when the stream fails a payload on its way to a
buffer. -/
theorem materialize_source {source : Source} {size : UInt64} {d : Delivery}
    (hd : s.materialize source size = .delivers d) :
    (d.source = source ∧ d.consumed = 0 ∧
      (d.content = .error .spillFailed ∨ d.content = .error .interrupted)) ∨
    (∃ reads, d.source = source.after size.toNat reads ∧
      d.consumed = UInt64.ofNat (source.rest.take size.toNat).length ∧
      (s.shouldSpill size = true ∨ d.content ≠ .error .ioError)) ∨
    (∃ reads, d.source = source.after size.toNat reads ∧ d.consumed = 0 ∧
      s.shouldSpill size = false ∧ d.content = .error .ioError ∧
      source.rest.length < size.toNat ∧ source.failure.isSome = true) := by
  unfold materialize at hd
  split at hd
  · rename_i hspill
    obtain rfl := Step.delivers.inj hd
    have hparts := toSpill_taken s source size
    rcases Spill.write_source s.host source size s.tempDir with
      ⟨reads, hsource, hconsumed⟩ | ⟨hsource, hconsumed, hresult⟩
    · exact Or.inr (Or.inl ⟨reads, hparts.1.trans hsource, hparts.2.trans hconsumed,
        Or.inl hspill⟩)
    · refine Or.inl ⟨hparts.1.trans hsource, hparts.2.trans hconsumed, Or.inl ?_⟩
      simp only [toSpill, hresult]
  · rename_i hbuffer
    unfold toBuffer at hd
    split at hd
    · cases hd
    · obtain rfl := Step.delivers.inj hd
      exact Or.inl ⟨rfl, rfl, Or.inr rfl⟩
    · rename_i b pool hacq
      split at hd
      · cases hd
      · obtain rfl := Step.delivers.inj hd
        obtain ⟨reads, hsource, hconsumed, hfill⟩ := fillBuffer_eq { s with pool } b source size
        refine Or.inr ?_
        rcases Nat.lt_or_ge source.rest.length size.toNat with hshort | hfull
        · rw [Source.payload_of_lt hshort, Source.cut] at hfill
          rw [Source.shortfall_of_short hshort] at hconsumed
          cases hf : source.failure with
          | none =>
            rw [hf] at hfill hconsumed
            refine Or.inl ⟨reads, hsource, hconsumed, Or.inr ?_⟩
            rw [hfill.1]
            simp
          | some e =>
            rw [hf] at hfill hconsumed
            exact Or.inr ⟨reads, hsource, hconsumed, by simpa using hbuffer, hfill.1, hshort,
              rfl⟩
        · rw [Source.payload_of_le hfull] at hfill
          rw [Source.shortfall, if_pos hfull] at hconsumed
          refine Or.inl ⟨reads, hsource, hconsumed, Or.inr ?_⟩
          rw [hfill.1]
          simp

theorem consumed_add_rest_le {source : Source} {size : UInt64} {d : Delivery}
    (hd : s.materialize source size = .delivers d) :
    d.consumed.toNat + d.source.rest.length ≤ source.rest.length := by
  rcases materialize_source hd with ⟨hsource, hconsumed, -⟩ | ⟨reads, hsource, hconsumed, -⟩ |
    ⟨reads, hsource, hconsumed, -⟩
  · rw [hsource, hconsumed]
    exact (Nat.zero_add _).le
  · have hword : d.consumed.toNat ≤ (source.rest.take size.toNat).length := by
      rw [hconsumed]
      exact Nat.mod_le _ _
    rw [hsource, Source.after_rest, List.length_drop]
    rw [List.length_take] at hword
    omega
  · rw [hsource, hconsumed, Source.after_rest, List.length_drop]
    exact (Nat.zero_add _).trans_le (Nat.sub_le _ _)

end Intake.Staging
