/-
# Where a payload is kept is not seen

A payload waits in a buffer or in a file, and whoever asks for it cannot tell which.  Both ways of
putting it into the staging area, `ToBuffer` and `ToSpill`, keep the same account (`Serves`): so
many bytes are taken, so many are counted, and the content has the size of the payload and reads
back to it, or there is none.

**From the same place of a stream both ways come to the same** (`buffer_and_file_agree`), even when
the stream brings its bytes in other pieces the second time: there is a content both times, or the
payload is cut short both times; as much is counted, and the stream is left at the same byte; and
any row of reads, of whatever sizes, brings the same from the one content as from the other.
-/
import Mathlib
import Intake.Proofs.Spill.Copying
import Intake.Proofs.Staging.Reading
import Intake.Proofs.Staging.Taking

namespace Intake.Staging

variable {s : Staging} {source : Source} {size : UInt64} {d d' : Delivery}

/-! ## 1. The account that both ways keep -/

/-- A content that has the size of the payload and reads back to it, however its reads are cut; or
why there is none. -/
def Brings (size : UInt64) (payload : Except FrameError Bytes) (d : Delivery) : Prop :=
  match payload with
  | .ok bytes => ∃ c, d.content = .ok c ∧ c.size = size ∧ d.staging.ReadsBack c bytes
  | .error e => d.content = .error e

/-- The stream is behind the payload, or at its end; what was taken is counted; and what was taken
is what the content brings. -/
structure Serves (source : Source) (size : UInt64) (d : Delivery) : Prop where
  rest : d.source.rest = source.rest.drop size.toNat
  delivered : d.source.delivered = source.delivered + min size.toNat source.rest.length
  consumed : d.consumed.toNat = min size.toNat source.rest.length
  content : Brings size (source.payload size.toNat) d

theorem Serves.of_pace {pace : Nat → Nat} (h : Serves { source with pace } size d) :
    Serves source size d :=
  ⟨h.rest, h.delivered, h.consumed, h.content⟩

theorem Serves.whole_or_cut (h : Serves source size d) (hcalm : source.failure = none) :
    (source.rest.length < size.toNat ∧ d.content = .error .truncated) ∨
    (size.toNat ≤ source.rest.length ∧ ∃ c, d.content = .ok c ∧ c.size = size ∧
      d.staging.ReadsBack c (source.rest.take size.toNat)) := by
  have hcontent := h.content
  rcases Nat.lt_or_ge source.rest.length size.toNat with hshort | hwhole
  · rw [Source.payload_of_lt hshort, Source.cut, hcalm] at hcontent
    exact Or.inl ⟨hshort, hcontent⟩
  · rw [Source.payload_of_le hwhole] at hcontent
    exact Or.inr ⟨hwhole, hcontent⟩

theorem Yields.brings {kind : Content.Kind} {payload : Except FrameError Bytes}
    (h : Yields kind payload d) (hsize : ∀ c, d.content = .ok c → c.size = size) :
    Brings size payload d := by
  cases payload with
  | error e => exact h
  | ok bytes =>
    obtain ⟨c, hcontent, hremaining, -⟩ := h
    exact ⟨c, hcontent, hsize c hcontent, readsBack_of_remaining hremaining⟩

/-! ## 2. Each way keeps it -/

theorem toNat_count (source : Source) (size : UInt64) :
    (UInt64.ofNat (source.rest.take size.toNat).length).toNat
      = min size.toNat source.rest.length := by
  have hlt := size.toNat_lt
  rw [List.length_take, UInt64.toNat_ofNat_of_lt']
  exact Nat.lt_of_le_of_lt (Nat.min_le_left _ _) hlt

theorem size_of_fillBuffer {b : Nat} {c : Content}
    (hc : (s.fillBuffer b source size).content = .ok c) : c.size = size := by
  obtain ⟨reads, -, -, hfill⟩ := fillBuffer_eq s b source size
  cases hpayload : source.payload size.toNat with
  | error e =>
    rw [hpayload] at hfill
    cases hfill.1.symm.trans hc
  | ok bytes =>
    rw [hpayload] at hfill
    obtain rfl := Except.ok.inj (hfill.1.symm.trans hc)
    exact UInt64.ofNat_toNat

/-- **A payload on its way to a buffer**, from a stream that does not fail. -/
theorem fillBuffer_serves {b : Nat} (hb : b < s.pool.memory.length)
    (hcalm : source.failure = none) : Serves source size (s.fillBuffer b source size) := by
  obtain ⟨reads, hsource, hconsumed, -⟩ := fillBuffer_eq s b source size
  have hshortfall : source.shortfall size.toNat = none :=
    Source.shortfall_of_clean hcalm _
  rw [hshortfall, Option.isSome_none, if_neg Bool.false_ne_true] at hconsumed
  refine ⟨?_, ?_, ?_, (fillBuffer_yields hb source size).brings fun c => size_of_fillBuffer⟩
  · rw [hsource, Source.after_rest]
  · rw [hsource, Source.after_delivered]
  · rw [hconsumed, toNat_count]

theorem size_of_toSpill {c : Content} (hc : (s.toSpill source size).content = .ok c) :
    c.size = size := by
  obtain ⟨hleaves, -⟩ := Spill.write_leaves (Host.keeps_self s.host) source size s.tempDir
  unfold Spill.Leaves at hleaves
  cases hresult : (Spill.write s.host source size s.tempDir).result with
  | error e =>
    simp only [toSpill, hresult] at hc
    cases hc
  | ok f =>
    rw [hresult] at hleaves
    obtain ⟨t, rfl, -⟩ := hleaves
    simp only [toSpill, hresult] at hc
    obtain rfl := Except.ok.inj hc
    rfl

/-- In a directory that can be used the payload is not given up before anything is taken. -/
theorem write_ne_spillFailed {h : Host} {directory : Bytes} {place : Place}
    (hdir : Spill.Usable h.disk directory place) (hroom : size.toNat ≤ Spill.room h.disk) :
    (Spill.write h source size directory).result ≠ .error .spillFailed := by
  intro hfailed
  rcases Nat.lt_or_ge source.rest.length size.toNat with hshort | hwhole
  · have hcut := (Spill.leftNothing_of_lt hdir hroom hshort).1.symm.trans hfailed
    unfold Source.cut at hcut
    split at hcut <;> cases hcut
  · obtain ⟨f, hok, -⟩ := Spill.copied_of_le hdir hroom hwhole
    cases hok.symm.trans hfailed

/-- **A payload on its way to a file**, in a directory that can be used. -/
theorem toSpill_serves {place : Place} (hdir : Spill.Usable s.host.disk s.tempDir place)
    (hroom : size.toNat ≤ Spill.room s.host.disk) :
    Serves source size (s.toSpill source size) := by
  obtain ⟨t, ht, -⟩ := hdir.createTemp
  have hyields := toSpill_yields ht source size
  rw [Spill.fate, if_neg (Nat.not_lt.mpr hroom)] at hyields
  have hmade : (Spill.write s.host source size s.tempDir).result ≠ .error .spillFailed :=
    write_ne_spillFailed hdir hroom
  obtain ⟨hrest, hdelivered, hconsumed⟩ := Spill.taken_of_ne hmade
  obtain ⟨hsource, hcount⟩ := toSpill_taken s source size
  refine ⟨?_, ?_, ?_, hyields.brings fun c => size_of_toSpill⟩
  · rw [hsource, hrest]
  · rw [hsource, hdelivered]
  · rw [hcount, hconsumed]

/-! ## 3. Both ways agree -/

/-- Two payloads that whoever asked for them cannot tell apart. -/
structure Agree (d d' : Delivery) : Prop where
  consumed : d'.consumed = d.consumed
  rest : d'.source.rest = d.source.rest
  delivered : d'.source.delivered = d.source.delivered
  content : (d.content = .error .truncated ∧ d'.content = .error .truncated) ∨
    ∃ c c', d.content = .ok c ∧ d'.content = .ok c' ∧ c'.size = c.size ∧
      ∀ sizes, d'.staging.readEach c' sizes = d.staging.readEach c sizes

theorem Serves.agree (h : Serves source size d) (h' : Serves source size d')
    (hcalm : source.failure = none) : Agree d d' := by
  refine ⟨UInt64.toNat_inj.mp (h'.consumed.trans h.consumed.symm), h'.rest.trans h.rest.symm,
    h'.delivered.trans h.delivered.symm, ?_⟩
  rcases h.whole_or_cut hcalm with ⟨hshort, hcut⟩ | ⟨hwhole, c, hc, hsize, hreads⟩
  · rcases h'.whole_or_cut hcalm with ⟨-, hcut'⟩ | ⟨hwhole, -⟩
    · exact Or.inl ⟨hcut, hcut'⟩
    · exact absurd hshort (Nat.not_lt.mpr hwhole)
  · rcases h'.whole_or_cut hcalm with ⟨hshort, -⟩ | ⟨-, c', hc', hsize', hreads'⟩
    · exact absurd hshort (Nat.not_lt.mpr hwhole)
    · exact Or.inr ⟨c, c', hc, hc', hsize'.trans hsize.symm,
        fun sizes => (hreads' sizes).trans (hreads sizes).symm⟩

/-- **Putting a payload into a buffer and putting it into a file come to the same**, when the stream
does not fail, the payload is no larger than a buffer, a buffer is free, and a file of its size can
be made.  It is cut short exactly when the stream has fewer bytes; otherwise the content has its
size, and reads bring its bytes in order.

The two are not compared with each other. Each keeps the account of the payload (`Serves`), in which
neither place nor pace occurs, and two that keep it agree. -/
theorem buffer_and_file_agree {place : Place} (hcalm : source.failure = none)
    (hfree : ∃ b pool, s.pool.acquire = .gives (b, pool) ∧ b < s.pool.memory.length)
    (hfits : size ≤ s.pool.bufferSize) (hdir : Spill.Usable s.host.disk s.tempDir place)
    (hroom : size.toNat ≤ Spill.room s.host.disk) (pace : Nat → Nat) :
    ∃ d, s.toBuffer source size = .delivers d ∧
      Agree d (s.toSpill { source with pace } size) ∧
      d.consumed.toNat = min size.toNat source.rest.length ∧
      d.source.rest = source.rest.drop size.toNat ∧
      ((source.rest.length < size.toNat ∧ d.content = .error .truncated) ∨
        (size.toNat ≤ source.rest.length ∧ ∃ c, d.content = .ok c ∧ c.size = size ∧
          d.staging.ReadsBack c (source.rest.take size.toNat))) := by
  obtain ⟨b, pool, hacquire, hb⟩ := hfree
  rw [← (acquire_same hacquire).1] at hb
  have hbuffer : Serves source size (fillBuffer { s with pool } b source size) :=
    fillBuffer_serves hb hcalm
  have hfile : Serves source size (s.toSpill { source with pace } size) :=
    (toSpill_serves hdir hroom).of_pace
  exact ⟨_, toBuffer_of_acquire hacquire hfits, hbuffer.agree hfile hcalm, hbuffer.consumed,
    hbuffer.rest, hbuffer.whole_or_cut hcalm⟩

/-- A staging area with one buffer of four bytes, and the working directory for its files. -/
def fourBytes : Staging := .create .empty (.create 1 4) 4 []

/-- Three of five bytes, once from a stream that brings two at a time and once from one that brings
them one by one: reads of two, of no and of two bytes bring the same from the buffer and the file. -/
theorem three_of_five_agree :
    ∃ d c c', fourBytes.toBuffer (.ofBytes [1, 2, 3, 4, 5] 2) 3 = .delivers d ∧
      d.content = .ok c ∧ d.source.rest = [4, 5] ∧
      d.staging.readEach c [2, 0, 2] = [.ok [1, 2], .ok [], .ok [3]] ∧
      (fourBytes.toSpill (.ofBytes [1, 2, 3, 4, 5] 1) 3).content = .ok c' ∧
      (fourBytes.toSpill (.ofBytes [1, 2, 3, 4, 5] 1) 3).source.rest = [4, 5] ∧
      (fourBytes.toSpill (.ofBytes [1, 2, 3, 4, 5] 1) 3).staging.readEach c' [2, 0, 2]
        = [.ok [1, 2], .ok [], .ok [3]] := by
  have hcalm : (Source.ofBytes [1, 2, 3, 4, 5] 2).failure = none := rfl
  have hfree : ∃ b pool, fourBytes.pool.acquire = .gives (b, pool) ∧
      b < fourBytes.pool.memory.length := ⟨0, _, rfl, by decide⟩
  have hfits : 3 ≤ fourBytes.pool.bufferSize := by decide
  obtain ⟨d, hd, hagree, -, hrest, hwhole⟩ :=
    buffer_and_file_agree hcalm hfree hfits Spill.usable_empty.1 (by decide) (fun _ => 1)
  rcases hwhole with ⟨hshort, -⟩ | ⟨-, c, hc, -, hreads⟩
  · exact absurd hshort (by decide)
  rcases hagree.content with ⟨hcut, -⟩ | ⟨c₁, c', hc₁, hc', -, hsame⟩
  · cases hc.symm.trans hcut
  obtain rfl := Except.ok.inj (hc.symm.trans hc₁)
  exact ⟨d, c, c', hd, hc, hrest, hreads [2, 0, 2], hc', hagree.rest.trans hrest,
    (hsame [2, 0, 2]).trans (hreads [2, 0, 2])⟩

end Intake.Staging
