/-
# What the parts promise each other

The parts of an `IngestEngine` promise each other some things that no caller can see, and that its
assertions are about: that the channel of a pool has room for every buffer, that a buffer is no
smaller than the largest payload that is kept in one, that no more is written to a buffer than there
is room for, and that whoever asks for a result, or for the cause of a failure, has made sure that
there is one (`Promise`).

This module says what taking a frame is like for somebody who looks at every promise at the moment
when it is relied on, and ends at the first one that is broken (`Audited`).  Results are only to be
had by asking for them there (`resultOf`, `causeOf`).  Of each function on the way there is one that
looks, and it **comes to the same, as long as payloads for buffers fit into them** (for a whole
frame `readHeaderAudited_eq` and `readContentAudited_eq`).

That they fit is a matter of the staging area (`Staging.Roomy`): its threshold is the size of a
buffer, and no more was ever written to one, whatever the stream and however much it claims to bring
(`Staging.Roomy.materialize`).

That a crew has something to run is no promise here; it is part of what a crew is.
-/
import Mathlib
import Intake.Proofs.Frame.Pacing

namespace Intake

/-! ## 1. Promises -/

/-- What the parts of an engine promise each other. -/
inductive Promise where
  /-- The channel of a new pool takes every buffer at once. -/
  | stocked
  /-- A buffer has room for every payload up to the threshold. -/
  | roomy
  /-- A payload that goes to a buffer has room there. -/
  | fits
  /-- Where a result is asked for there is one. -/
  | hasResult
  /-- Where the cause of a failure is asked for there is one. -/
  | hasCause
  deriving DecidableEq, Repr

/-- What something comes to when every promise is looked at, or the first one that is broken. -/
abbrev Audited (α : Type) := Except Promise α

@[simp]
theorem Audited.ok_bind {α β : Type} (a : α) (f : α → Audited β) :
    ((Except.ok a : Audited α) >>= f) = f a := rfl

/-- Looks whether a promise is kept. -/
def Promise.look (p : Promise) (kept : Bool) : Audited Unit := if kept then .ok () else .error p

theorem Promise.look_of_kept (p : Promise) {kept : Bool} (h : kept = true) : p.look kept = .ok () :=
  if_pos h

section Asking

variable {ε α : Type}

/-- Asks for a result. -/
def resultOf : Except ε α → Audited α
  | .ok a => .ok a
  | .error _ => .error .hasResult

/-- Asks for the cause of a failure. -/
def causeOf : Except ε α → Audited ε
  | .ok _ => .error .hasCause
  | .error e => .ok e

/-- What a call gives back, unless it waits. -/
def Attempt.answer? : Attempt ε α → Option (Except ε α)
  | waits => none
  | fails e => some (.error e)
  | gives a => some (.ok a)

end Asking

/-! ## 2. Streams -/

section Streams

variable {σ ε : Type} (read : ReadFrom σ ε)

/-- Reads on, as `Gathered.loop` does. -/
def Gathered.loopAudited (cap want : Nat) (sofar : Bytes) (s : σ) : Audited (Gathered σ ε) :=
  if want = 0 then .ok ⟨sofar.reverse, none, s⟩
  else
    let r := read s (min want cap)
    if r.1.isOk then
      match resultOf r.1 with
      | .error broken => .error broken
      | .ok [] => .ok ⟨sofar.reverse, none, r.2⟩
      | .ok (b :: bs) =>
        loopAudited cap (want - (bs.length + 1)) (bs.reverseAux (b :: sofar)) r.2
    else (causeOf r.1).map fun e => ⟨sofar.reverse, some e, r.2⟩
termination_by want
decreasing_by omega

theorem Gathered.loopAudited_eq (cap want : Nat) (sofar : Bytes) (s : σ) :
    loopAudited read cap want sofar s = .ok (loop read cap want sofar s) := by
  induction want using Nat.strongRecOn generalizing sofar s with
  | ind want ih =>
    rw [loopAudited, loop]
    by_cases hw : want = 0
    · rw [if_pos hw, if_pos hw]
    · rw [if_neg hw, if_neg hw]
      obtain ⟨r, s'⟩ := read s (min want cap)
      cases r with
      | error e => rfl
      | ok bytes =>
        cases bytes with
        | nil => rfl
        | cons b bs => exact ih _ (by omega) _ _

/-- Reads as `gather` does. -/
def gatherAudited (cap want : Nat) (s : σ) : Audited (Gathered σ ε) :=
  Gathered.loopAudited read cap want [] s

theorem gatherAudited_eq (cap want : Nat) (s : σ) :
    gatherAudited read cap want s = .ok (gather read cap want s) :=
  Gathered.loopAudited_eq read cap want [] s

/-- What a run of reads gives back: what came, or why a read failed. -/
def Gathered.answer (g : Gathered σ ε) : Except ε Bytes :=
  match g.failure with
  | some e => .error e
  | none => .ok g.bytes

/-- Reads as `readUpTo` does. -/
def readUpToAudited (want : Nat) (s : σ) : Audited (Except ε Bytes × σ) :=
  (gatherAudited read want want s).map fun g => (g.answer, g.source)

theorem readUpToAudited_eq (want : Nat) (s : σ) :
    readUpToAudited read want s = .ok (readUpTo read want s) := by
  rw [readUpToAudited, gatherAudited_eq, readUpTo]
  generalize gather read want want s = g
  obtain ⟨bytes, failure, left⟩ := g
  cases failure <;> rfl

end Streams

/-! ## 3. Buffers -/

namespace Pool

/-- Puts buffers into a channel, as `stock` does. -/
def stockAudited (c : Channel Nat) : List Nat → Audited (Channel Nat)
  | [] => .ok c
  | b :: buffers =>
    match c.put b with
    | .gives c' => stockAudited c' buffers
    | .waits | .fails _ => .error .stocked

theorem stockAudited_eq (buffers : List Nat) {c : Channel Nat} (hopen : c.closed = false)
    (hroom : c.ring.count.toNat + buffers.length ≤ c.ring.capacity.toNat) :
    stockAudited c buffers = .ok (stock c buffers) := by
  induction buffers generalizing c with
  | nil => rfl
  | cons b buffers ih =>
    rw [List.length_cons] at hroom
    have hlt : c.ring.count.toNat < c.ring.capacity.toNat := by omega
    have hput := Channel.put_of_room hlt hopen b
    have hcount : (c.ring.push b).count.toNat = c.ring.count.toNat + 1 :=
      Ring.toNat_count_push hlt b
    have hrest := ih (c := { c with ring := c.ring.push b }) hopen (by
      show (c.ring.push b).count.toNat + _ ≤ c.ring.capacity.toNat
      omega)
    simp only [stockAudited, hput, hrest, stock, List.foldl_cons]

/-- Makes a pool, as `create` does. -/
def createAudited (count : UInt32) (bufferSize : UInt64) : Audited Pool := do
  let c : Channel Nat := .create count
  let buffers := List.range c.capacity.toNat
  let free ← stockAudited c buffers
  .ok ⟨bufferSize, free, 0, 0, buffers.map fun _ => []⟩

/-- **The channel of a new pool takes every buffer**, however many there are. -/
theorem createAudited_eq (count : UInt32) (bufferSize : UInt64) :
    createAudited count bufferSize = .ok (create count bufferSize) := by
  have hstock := stockAudited_eq (List.range (Channel.create count : Channel Nat).capacity.toNat)
    (c := .create count) rfl (by rw [List.length_range]; exact (Nat.zero_add _).le)
  simp only [createAudited, hstock]
  rfl

/-- Takes a buffer, as `acquire` does. -/
def acquireAudited (p : Pool) : Audited (Option (Except ChannelError (Nat × Pool))) :=
  match p.takeFree.answer? with
  | none => .ok none
  | some r =>
    if r.isOk then do
      let (b, taken) ← resultOf r
      let counted := taken.countOut
      .ok (some (.ok (b, counted.raiseMark counted.outstanding)))
    else do
      let cause ← causeOf r
      .ok (some (.error cause))

theorem acquireAudited_eq (p : Pool) : p.acquireAudited = .ok p.acquire.answer? := by
  unfold acquireAudited acquire
  cases p.takeFree <;> rfl

end Pool

/-! ## 4. Temporary files -/

namespace Spill

/-- Fills a file, as `fill` does.  Results are asked for only while the stream is read. -/
def fillAudited (h : Host) (t : Disk.TempFile) (s : Source) (size : UInt64) : Audited Written := do
  let _ ← gatherAudited (Copying.next willing) blockSize size.toNat (.start s)
  .ok (fill h t s size)

/-- Writes a payload to a new temporary file, as `write` does. -/
def writeAudited (h : Host) (s : Source) (size : UInt64) (directory : Bytes) : Audited Written :=
  match h.disk.createTemp (stem directory) with
  | .error cause => .ok ⟨.error .spillFailed, 0, s, h.report (.spillUncreated directory cause)⟩
  | .ok t =>
    let made := ({ h with disk := t.disk }).register t.path
    match t.disk.resize t.node size with
    | .error cause =>
      .ok ⟨.error .spillFailed, 0, s,
        abandon (made.report (.spillUnsized size t.path cause)) t.path⟩
    | .ok disk => fillAudited { made with disk } t s size

theorem writeAudited_eq (h : Host) (s : Source) (size : UInt64) (directory : Bytes) :
    writeAudited h s size directory = .ok (write h s size directory) := by
  simp only [writeAudited, write_willing, fillAudited, gatherAudited_eq]
  cases h.disk.createTemp (stem directory) with
  | error cause => rfl
  | ok t =>
    simp only
    cases t.disk.resize t.node size <;> rfl

end Spill

/-! ## 5. The staging area -/

namespace Staging

/-- Makes a staging area, as `create` does. -/
def createAudited (host : Host) (pool : Pool) (threshold : UInt64) (tempDir : Bytes) :
    Audited Staging := do
  Promise.roomy.look (threshold ≤ pool.bufferSize)
  .ok (create host pool threshold tempDir)

/-- Puts a payload into the buffer of a handle, as `fillBuffer` does. -/
def fillBufferAudited (s : Staging) (b : Nat) (source : Source) (size : UInt64) :
    Audited Delivery := do
  Promise.fits.look (size ≤ (⟨some b⟩ : Handle).capacity s.pool)
  let g ← gatherAudited Source.read size.toNat size.toNat source
  let filled : Staging := { s with pool := s.pool.store b g.bytes }
  let emptied := filled.release (.buffered ⟨some b⟩ size.toNat 0)
  if g.answer.isOk then do
    let bytes ← resultOf g.answer
    let got := UInt64.ofNat bytes.length
    if bytes.length < size.toNat then
      .ok ⟨.error .truncated, got, g.source, emptied.report (.fillEnded size got)⟩
    else
      .ok ⟨.ok (.buffered ⟨some b⟩ size.toNat 0), got, g.source,
        { filled with buffered := filled.buffered + 1 }⟩
  else .ok ⟨.error .ioError, 0, g.source, emptied.report (.fillFailed size)⟩

/-- Puts a payload into a buffer, as `toBuffer` does; nothing comes of it while it waits. -/
def toBufferAudited (s : Staging) (source : Source) (size : UInt64) :
    Audited (Option Delivery) := do
  match ← s.pool.acquireAudited with
  | none => .ok none
  | some r =>
    if r.isOk then do
      let (b, pool) ← resultOf r
      let d ← fillBufferAudited { s with pool } b source size
      .ok (some d)
    else .ok (some ⟨.error .interrupted, 0, source, s.report .acquisitionInterrupted⟩)

/-- Puts a payload into a temporary file, as `toSpill` does. -/
def toSpillAudited (s : Staging) (source : Source) (size : UInt64) : Audited Delivery := do
  let w ← Spill.writeAudited s.host source size s.tempDir
  if w.result.isOk then do
    let f ← resultOf w.result
    .ok ⟨.ok (.spilled f), w.consumed, w.source,
      { s with host := w.host, spilled := s.spilled + 1 }⟩
  else do
    let e ← causeOf w.result
    .ok ⟨.error e, w.consumed, w.source, { s with host := w.host }⟩

/-- Puts a payload where its size says, as `materialize` does. -/
def materializeAudited (s : Staging) (source : Source) (size : UInt64) :
    Audited (Option Delivery) :=
  if s.shouldSpill size then (s.toSpillAudited source size).map some
  else s.toBufferAudited source size

/-- What came of a payload, if it did not have to wait. -/
def Step.delivery? : Step → Option Delivery
  | waits | overflows => none
  | delivers d => some d

variable {s : Staging} {size : UInt64}

theorem createAudited_eq {pool : Pool} {threshold : UInt64} (hroom : threshold ≤ pool.bufferSize)
    (host : Host) (tempDir : Bytes) :
    createAudited host pool threshold tempDir = .ok (create host pool threshold tempDir) := by
  have hlook := Promise.roomy.look_of_kept (decide_eq_true hroom)
  rw [createAudited, hlook, Audited.ok_bind]

theorem fillBufferAudited_eq (hfits : size ≤ s.pool.bufferSize) (b : Nat) (source : Source) :
    s.fillBufferAudited b source size = .ok (s.fillBuffer b source size) := by
  have hroom : size ≤ (⟨some b⟩ : Handle).capacity s.pool := hfits
  have hlook := Promise.fits.look_of_kept (decide_eq_true hroom)
  simp only [fillBufferAudited, hlook, gatherAudited_eq, Audited.ok_bind, fillBuffer]
  generalize gather Source.read size.toNat size.toNat source = g
  obtain ⟨bytes, failure, left⟩ := g
  cases failure with
  | some e => rfl
  | none => exact (apply_ite Except.ok _ _ _).symm

theorem toBufferAudited_eq (hfits : size ≤ s.pool.bufferSize) (source : Source) :
    s.toBufferAudited source size = .ok (s.toBuffer source size).delivery? := by
  simp only [toBufferAudited, Pool.acquireAudited_eq]
  cases hacquire : s.pool.acquire with
  | waits =>
    simp only [toBuffer, hacquire]
    rfl
  | fails cause =>
    simp only [toBuffer, hacquire]
    rfl
  | gives r =>
    obtain ⟨b, pool⟩ := r
    have hsame : size ≤ pool.bufferSize := by
      rw [(acquire_same hacquire).2]
      exact hfits
    have hfill := fillBufferAudited_eq (s := { s with pool }) hsame b source
    simp only [toBuffer_of_acquire hacquire hfits]
    show (do
      let d ← fillBufferAudited { s with pool } b source size
      .ok (some d)) = _
    rw [hfill]
    rfl

theorem toSpillAudited_eq (s : Staging) (source : Source) (size : UInt64) :
    s.toSpillAudited source size = .ok (s.toSpill source size) := by
  simp only [toSpillAudited, toSpill, Spill.writeAudited_eq]
  generalize Spill.write s.host source size s.tempDir = w
  obtain ⟨result, consumed, left, host⟩ := w
  cases result <;> rfl

/-- **A payload that goes to a buffer fits into it**, as long as everything up to the threshold does.
-/
theorem materializeAudited_eq (hfits : s.threshold ≤ s.pool.bufferSize) (source : Source)
    (size : UInt64) :
    s.materializeAudited source size = .ok (s.materialize source size).delivery? := by
  unfold materializeAudited materialize
  split
  · rw [toSpillAudited_eq]
    rfl
  · rename_i hbuffer
    exact toBufferAudited_eq (le_bufferSize hfits (by simpa using hbuffer)) source

end Staging

/-! ## 6. What is written to buffers -/

theorem Pool.length_written_store_le {p : Pool} {n : Nat} (h : ∀ b, (p.written b).length ≤ n)
    {data : Bytes} (hdata : data.length ≤ n) (a b : Nat) :
    ((p.store a data).written b).length ≤ n := by
  by_cases hb : a = b
  · subst hb
    by_cases hin : a < p.memory.length
    · rw [written_store hin, List.length_append, List.length_drop]
      have := h a
      omega
    · have hsame : p.store a data = p := by
        rw [store, List.set_eq_of_length_le (Nat.not_lt.mp hin)]
      rw [hsame]
      exact h a
  · rw [written_store_of_ne (Ne.symm hb)]
    exact h b

namespace Staging

/-- A staging area whose buffers have room for what is kept in them, and in which no more was ever
written to one. -/
structure Roomy (size : UInt64) (s : Staging) : Prop where
  threshold : s.threshold = size
  bufferSize : s.pool.bufferSize = size
  written : ∀ b, (s.pool.written b).length ≤ size.toNat

variable {s s' : Staging} {size n : UInt64} {source : Source}

theorem Roomy.fits (h : s.Roomy size) : s.threshold ≤ s.pool.bufferSize := by
  rw [h.threshold, h.bufferSize]
  exact UInt64.le_refl size

theorem roomy_create (host : Host) (count : UInt32) (size : UInt64) (tempDir : Bytes) :
    (create host (.create count size) size tempDir).Roomy size where
  threshold := rfl
  bufferSize := rfl
  written b := by
    simp only [create, Pool.written, Pool.create, List.getD_eq_getElem?_getD, List.getElem?_map]
    cases (List.range _)[b]? <;> exact Nat.zero_le _

/-- Nothing else matters than the threshold, the size of the buffers and what is in them. -/
theorem Roomy.of_same (h : s.Roomy size) (hthreshold : s'.threshold = s.threshold)
    (hmemory : s'.pool.memory = s.pool.memory)
    (hsize : s'.pool.bufferSize = s.pool.bufferSize) : s'.Roomy size where
  threshold := hthreshold.trans h.threshold
  bufferSize := hsize.trans h.bufferSize
  written b := by
    rw [Pool.written_congr hmemory]
    exact h.written b

theorem Roomy.noted (h : s.Roomy size) (hn : s.Noted s') : s'.Roomy size := by
  obtain ⟨log, rfl⟩ := hn
  exact h.of_same rfl rfl rfl

theorem Roomy.release (h : s.Roomy size) (c : Content) : (s.release c).Roomy size := by
  cases c with
  | none => exact h.of_same rfl rfl rfl
  | spilled f => exact h.of_same rfl rfl rfl
  | buffered handle length offset =>
    obtain ⟨buffer⟩ := handle
    cases buffer with
    | none => exact h.of_same rfl rfl rfl
    | some b => exact h.of_same rfl (giveBack_same s.pool b).1 (giveBack_same s.pool b).2

theorem Roomy.store (h : s.Roomy size) {data : Bytes} (hdata : data.length ≤ size.toNat) (b : Nat) :
    ({ s with pool := s.pool.store b data } : Staging).Roomy size where
  threshold := h.threshold
  bufferSize := h.bufferSize
  written := Pool.length_written_store_le h.written hdata b

/-- **No more is written to a buffer than the payload**, however much the stream brings. -/
theorem Roomy.fillBuffer (h : s.Roomy size) (hfits : n ≤ size) (b : Nat) :
    (s.fillBuffer b source n).staging.Roomy size := by
  have hlength : (source.rest.take n.toNat).length ≤ size.toNat := by
    have hn := UInt64.le_iff_toNat_le.mp hfits
    rw [List.length_take]
    omega
  obtain ⟨reads, -, -, hfill⟩ := fillBuffer_eq s b source n
  rcases Nat.lt_or_ge source.rest.length n.toNat with hshort | hfull
  · rw [Source.payload_of_lt hshort] at hfill
    obtain ⟨-, event, hstaging⟩ := hfill
    rw [hstaging]
    exact ((h.store hlength b).release _).noted (noted_report _ event)
  · rw [Source.payload_of_le hfull] at hfill
    rw [hfill.2]
    exact (h.store hlength b).of_same rfl rfl rfl

theorem Roomy.materialize {d : Delivery} (h : s.Roomy size)
    (hd : s.materialize source n = .delivers d) : d.staging.Roomy size := by
  unfold Staging.materialize at hd
  split at hd
  · obtain rfl := Step.delivers.inj hd
    unfold toSpill
    simp only
    split <;> exact h.of_same rfl rfl rfl
  · rename_i hbuffer
    have hfits := le_bufferSize h.fits (by simpa using hbuffer)
    cases hacquire : s.pool.acquire with
    | waits => simp [toBuffer, hacquire] at hd
    | fails cause =>
      simp only [toBuffer, hacquire, Step.delivers.injEq] at hd
      rw [← hd]
      exact h.noted (noted_report s .acquisitionInterrupted)
    | gives r =>
      obtain ⟨b, pool⟩ := r
      obtain ⟨hmemory, hsize⟩ := acquire_same hacquire
      rw [toBuffer_of_acquire hacquire hfits] at hd
      obtain rfl := Step.delivers.inj hd
      rw [h.bufferSize] at hfits
      have hsame : ({ s with pool } : Staging).Roomy size := h.of_same rfl hmemory hsize
      exact hsame.fillBuffer hfits b

end Staging

/-! ## 7. Reading a frame -/

namespace Frame

/-- What a call for a record gives back, unless it waits, is left by an exception, or a promise is
broken. -/
def Outcome.answer? : Outcome → Option (Except FrameError Record)
  | waits _ | overflows | thrown => none
  | record r => some (.ok r)
  | failed e => some (.error e)

namespace Session

/-- Takes a field, as `readField` does. -/
def readFieldAudited (s : Session) (length : Nat) :
    Audited (Except FrameError Bytes × Session) := do
  let (r, source) ← readUpToAudited Source.read length s.reader.source
  if r.isOk then do
    let bytes ← resultOf r
    let taken : Session := { s with reader := { s.reader with source } }
    let counted := taken.count (UInt64.ofNat bytes.length)
    .ok <|
      if bytes.length < length then counted.ended length bytes.length else (.ok bytes, counted)
  else
    let failed :=
      (s.report (.fieldFailed s.reader.cursor s.reader.stage)).stop .failed .ioError
    .ok (.error .ioError, { failed with reader := { failed.reader with source } })

/-- Goes on with a field, or gives back the cause for which there is none. -/
def goOn {α : Type} (r : Except FrameError Bytes × Session)
    (next : Bytes → Session → Audited (Except Exit α × Session)) :
    Audited (Except Exit α × Session) :=
  if r.1.isOk then (resultOf r.1).bind fun field => next field r.2
  else (causeOf r.1).map fun e => (.error (.failed e), r.2)

/-- Takes what is before a content, as `readHeader` does. -/
def readHeaderAudited (s : Session) : Audited (Except Exit Header × Session) := do
  goOn (← s.beginFrame.readFieldAudited lengthWidth) fun field s =>
    let length := decodeLength field
    if s.reader.maxMetadata < length then
      .ok (.error (.failed .metadataTooLarge), s.oversized length)
    else if longestBlock < length.toNat then .ok (.error .thrown, s.enter .metadata)
    else do
      goOn (← (s.enter .metadata).readFieldAudited length.toNat) fun metadata s => do
        goOn (← (s.enter .contentLength).readFieldAudited lengthWidth) fun field s =>
          .ok (.ok ⟨metadata, decodeLength field⟩, s.enter .content)

/-- Takes a content, as `readContent` does; nothing comes of it while it waits. -/
def readContentAudited (s : Session) (h : Header) :
    Audited (Option (Except FrameError Record) × Session) := do
  match ← s.staging.materializeAudited s.reader.source h.rawSize with
  | none => .ok (none, s)
  | some d =>
    let s := s.received d
    if d.content.isOk then do
      let c ← resultOf d.content
      let r := s.complete h c
      .ok (some (.ok r.1), r.2)
    else do
      let e ← causeOf d.content
      .ok (some (.error e),
        (s.report (.contentFailed s.reader.frameStart e h.rawSize d.consumed)).stop .failed e)

variable (s : Session)

theorem readFieldAudited_eq (length : Nat) :
    s.readFieldAudited length = .ok (s.readField length) := by
  simp only [readFieldAudited, readField, readUpToAudited_eq]
  generalize readUpTo Source.read length s.reader.source = r
  obtain ⟨r, left⟩ := r
  cases r <;> rfl

theorem goOn_eq {α : Type} (r : Except FrameError Bytes × Session)
    (next : Bytes → Session → Audited (Except Exit α × Session)) :
    goOn r next = match r with
      | (.error e, s) => .ok (.error e, s)
      | (.ok field, s) => next field s := by
  obtain ⟨r, s⟩ := r
  cases r <;> rfl

/-- **Whoever reads a header asks for nothing that is not there.** -/
theorem readHeaderAudited_eq : s.readHeaderAudited = .ok s.readHeader := by
  simp only [readHeaderAudited, readHeader, readFieldAudited_eq, Audited.ok_bind, goOn_eq]
  rcases s.beginFrame.readField lengthWidth with ⟨_ | field, t⟩
  · rfl
  · simp only [apply_ite Except.ok]
    split
    · rfl
    split
    · rfl
    · rcases (t.enter .metadata).readField (decodeLength field).toNat with ⟨_ | metadata, u⟩
      · rfl
      · simp only
        rcases (u.enter .contentLength).readField lengthWidth with ⟨_ | field, v⟩ <;> rfl

/-- **Nor does whoever reads a content**, and it has room where it goes. -/
theorem readContentAudited_eq (hfits : s.staging.threshold ≤ s.staging.pool.bufferSize)
    (h : Header) :
    s.readContentAudited h = .ok ((s.readContent h).1.answer?, (s.readContent h).2) := by
  simp only [readContentAudited, readContent, Staging.materializeAudited_eq hfits]
  generalize s.staging.materialize s.reader.source h.rawSize = step
  cases step with
  | waits => rfl
  | overflows => rfl
  | delivers d =>
    obtain ⟨content, consumed, source, staging⟩ := d
    cases content <;> rfl

variable {s} {size : UInt64}

theorem roomy_readHeader (h : s.staging.Roomy size) : s.readHeader.2.staging.Roomy size :=
  h.noted s.noted_readHeader

theorem roomy_readContent (h : s.staging.Roomy size) (header : Header) :
    (s.readContent header).2.staging.Roomy size := by
  cases hd : s.staging.materialize s.reader.source header.rawSize with
  | waits => simpa only [readContent, hd] using h
  | overflows => simpa only [readContent, hd] using h
  | delivers d =>
    obtain ⟨t, hreceived, ⟨c, -, -, hread⟩ | ⟨e, -, -, hread⟩⟩ := readContent_of_delivers hd
    · rw [hread]
      exact (h.materialize hd).noted hreceived.staging
    · rw [hread]
      exact (h.materialize hd).noted hreceived.staging

end Session

end Frame

end Intake
