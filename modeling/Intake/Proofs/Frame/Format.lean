/-
# Frames at the front of a byte string

What a `FrameReader` makes of a stream is decided by the bytes at its front.  `metadataSize`,
`headerAt` and `headerSize` say what its first fields are, `Limits.Accepts` which frames are taken,
and `Limits.stopCause` how a call is left where there is no such frame.  A length of metadata that
is within the reader's limit and beyond any block of memory (`Overlong`) is the one thing that is
not answered with an error.

A header that is there in full, with as many bytes behind it as it says, is a frame
(`eq_encode_append`), and the fields of an encoded frame are what was encoded (`Leads.headerAt_eq`).
Every byte string falls into frames that are accepted and a rest that does not begin with one
(`exists_frames`).
-/
import Mathlib
import Intake.Frame.Reader
import Intake.Proofs.Frame.Codec

namespace Intake.Frame

/-! ## 1. The fields at the front -/

/-- The first length field. -/
def metadataSize (b : Bytes) : UInt64 := decodeLength (b.take lengthWidth)

/-- How many bytes there are before the content. -/
def headerSize (b : Bytes) : Nat := lengthWidth + (metadataSize b).toNat + lengthWidth

/-- The fields before the content. -/
def headerAt (b : Bytes) : Header where
  metadata := (b.drop lengthWidth).take (metadataSize b).toNat
  rawSize := decodeLength ((b.drop (lengthWidth + (metadataSize b).toNat)).take lengthWidth)

/-- The first length field is there and too large. -/
def Oversized (maxMetadata : UInt64) (b : Bytes) : Prop :=
  lengthWidth ≤ b.length ∧ maxMetadata < metadataSize b

instance (maxMetadata : UInt64) (b : Bytes) : Decidable (Oversized maxMetadata b) :=
  inferInstanceAs (Decidable (_ ∧ _))

/-- The first length field is there, and no block of memory is that long. -/
def Overlong (b : Bytes) : Prop := lengthWidth ≤ b.length ∧ longestBlock < (metadataSize b).toNat

instance (b : Bytes) : Decidable (Overlong b) := inferInstanceAs (Decidable (_ ∧ _))

/-- The metadata are asked for: they are within the limit, and there is memory for them. -/
structure MetadataFits (maxMetadata : UInt64) (b : Bytes) : Prop where
  small : ¬ Oversized maxMetadata b
  held : ¬ Overlong b

/-- A limit that memory can meet turns away whatever memory cannot hold. -/
theorem oversized_of_overlong {maxMetadata : UInt64} {b : Bytes}
    (hmeets : maxMetadata.toNat ≤ longestBlock) (h : Overlong b) : Oversized maxMetadata b :=
  ⟨h.1, UInt64.lt_iff_toNat_lt.mpr (Nat.lt_of_le_of_lt hmeets h.2)⟩

/-- What a reader and the staging area that it fills put up with. -/
structure Limits where
  maxMetadata : UInt64
  /-- The largest content that is kept in a buffer. -/
  threshold : UInt64
  /-- The largest content that is kept in a file. -/
  largest : Nat
  largest_le : largest ≤ Disk.largestSize

namespace Limits

/-- The metadata and the content of a frame that is taken. -/
structure Accepts (l : Limits) (f : Bytes × Bytes) : Prop where
  small : f.1.length ≤ l.maxMetadata.toNat
  held : f.1.length ≤ longestBlock
  kept : f.2.length ≤ l.threshold.toNat ∨ f.2.length ≤ l.largest

/-- A frame that is taken stands at the front of a byte string. -/
def Leads (l : Limits) (b : Bytes) (f : Bytes × Bytes) (rest : Bytes) : Prop :=
  l.Accepts f ∧ b = encode f.1 f.2 ++ rest

/-- A content of that size can neither be kept in a buffer nor in a file. -/
def Unkeepable (l : Limits) (size : UInt64) : Prop :=
  l.threshold < size ∧ l.largest < size.toNat

instance (l : Limits) (size : UInt64) : Decidable (l.Unkeepable size) :=
  inferInstanceAs (Decidable (_ ∧ _))

/-- The limits while no file can be made: what does not go to a buffer is turned away. -/
def confined (l : Limits) : Limits := { l with largest := 0, largest_le := Nat.zero_le _ }

/-- The limits with room for another file, or without. -/
def given (l : Limits) (room : Bool) : Limits := bif room then l else l.confined

@[simp] theorem given_maxMetadata (l : Limits) (room : Bool) :
    (l.given room).maxMetadata = l.maxMetadata := by
  cases room <;> rfl

theorem confined_unkeepable (l : Limits) (size : UInt64) :
    l.confined.Unkeepable size ↔ l.threshold < size := by
  refine ⟨And.left, fun h => ⟨h, ?_⟩⟩
  have hlt := UInt64.lt_iff_toNat_lt.mp h
  show 0 < size.toNat
  omega

end Limits

/-- What a reader ends with where the stream gives out: the positions of its fields are words, and
so is the position where it gave out. -/
def cutCause (failing : Bool) (b : Bytes) : FrameError :=
  if failing then .ioError
  else if b.length < headerSize b ∧ UInt64.ofNat b.length = 0 then .endOfStream
  else .truncated

/-- What a reader ends with when it has asked for the metadata. -/
def Limits.contentCause (l : Limits) (failing : Bool) (b : Bytes) : FrameError :=
  if headerSize b ≤ b.length ∧ l.Unkeepable (headerAt b).rawSize then .spillFailed
  else cutCause failing b

/-- **How a call is left** in front of bytes that do not begin with a frame that is taken. -/
def Limits.stopCause (l : Limits) (failing : Bool) (b : Bytes) : Exit :=
  if Oversized l.maxMetadata b then .failed .metadataTooLarge
  else if Overlong b then .thrown
  else l.contentCause failing b

theorem Limits.stopCause_of_fits {l : Limits} {failing : Bool} {b : Bytes}
    (h : MetadataFits l.maxMetadata b) : l.stopCause failing b = l.contentCause failing b := by
  rw [stopCause, if_neg h.small, if_neg h.held]

/-- **An exception leaves a call** over metadata within the limit that no memory can hold. -/
theorem Limits.stopCause_thrown_iff (l : Limits) (failing : Bool) (b : Bytes) :
    l.stopCause failing b = .thrown ↔ Overlong b ∧ ¬ Oversized l.maxMetadata b := by
  unfold stopCause
  split_ifs with hM hlong
  · simp [hM]
  · simp [hM, hlong]
  · simp [hlong]

/-- Behind a header that is there in full the end of the stream is never a clean one. -/
theorem Limits.contentCause_of_whole {l : Limits} {failing : Bool} {b : Bytes}
    (h : headerSize b ≤ b.length) :
    l.contentCause failing b =
      if l.Unkeepable (headerAt b).rawSize then .spillFailed
      else if failing then .ioError else .truncated := by
  have hnot : ¬ (b.length < headerSize b ∧ UInt64.ofNat b.length = 0) :=
    fun hand => absurd hand.1 (Nat.not_lt.mpr h)
  unfold contentCause cutCause
  rw [if_neg hnot]
  simp only [h, true_and]

/-! ## 2. A header that is there in full -/

theorem lengthWidth_le_headerSize (b : Bytes) : lengthWidth ≤ headerSize b := by
  unfold headerSize
  omega

theorem length_metadata {b : Bytes} (h : headerSize b ≤ b.length) :
    (headerAt b).metadata.length = (metadataSize b).toNat := by
  unfold headerSize at h
  rw [headerAt, List.length_take, List.length_drop]
  omega

theorem eq_header_append {b : Bytes} (h : headerSize b ≤ b.length) :
    b = encodePart (headerAt b).metadata ++ (encodeLength (headerAt b).rawSize ++
      b.drop (headerSize b)) := by
  have hmetadata := length_metadata h
  have hsize := headerSize.eq_def b
  have hfirst : encodeLength (UInt64.ofNat (headerAt b).metadata.length) = b.take lengthWidth := by
    rw [hmetadata, UInt64.ofNat_toNat, metadataSize, encodeLength_decodeLength]
    rw [List.length_take]
    omega
  have hlast : encodeLength (headerAt b).rawSize
      = (b.drop (lengthWidth + (metadataSize b).toNat)).take lengthWidth := by
    rw [headerAt, encodeLength_decodeLength]
    rw [List.length_take, List.length_drop]
    omega
  rw [encodePart, hfirst, hlast, List.append_assoc]
  show b = b.take lengthWidth ++ ((b.drop lengthWidth).take (metadataSize b).toNat ++
    ((b.drop (lengthWidth + (metadataSize b).toNat)).take lengthWidth ++ b.drop (headerSize b)))
  rw [hsize, ← List.drop_drop (i := lengthWidth) (j := lengthWidth + (metadataSize b).toNat),
    List.take_append_drop, ← List.drop_drop, List.take_append_drop, List.take_append_drop]

/-- **A header with its content behind it is a frame.** -/
theorem eq_encode_append {b : Bytes}
    (h : headerSize b + (headerAt b).rawSize.toNat ≤ b.length) :
    b = encode (headerAt b).metadata ((b.drop (headerSize b)).take (headerAt b).rawSize.toNat) ++
      b.drop (headerSize b + (headerAt b).rawSize.toNat) := by
  have hheader := eq_header_append (b := b) (by omega)
  have hlen : ((b.drop (headerSize b)).take (headerAt b).rawSize.toNat).length
      = (headerAt b).rawSize.toNat := by
    rw [List.length_take, List.length_drop]
    omega
  rw [encode, encodePart.eq_def ((b.drop (headerSize b)).take _), hlen, UInt64.ofNat_toNat,
    List.append_assoc, List.append_assoc, ← List.drop_drop, List.take_append_drop]
  exact hheader

/-! ## 3. A frame that is taken -/

section Leads

variable {l : Limits} {b rest : Bytes} {f : Bytes × Bytes}

theorem Limits.Accepts.lengths (h : l.Accepts f) :
    (UInt64.ofNat f.1.length).toNat = f.1.length ∧
      (UInt64.ofNat f.2.length).toNat = f.2.length := by
  have hmax := l.maxMetadata.toNat_lt
  have hthreshold := l.threshold.toNat_lt
  have hlargest := l.largest_le
  have hfile : Disk.largestSize = 9223372036854775807 := rfl
  obtain ⟨hmetadata, -, hcontent⟩ := h
  rw [UInt64.toNat_ofNat', UInt64.toNat_ofNat']
  exact ⟨Nat.mod_eq_of_lt (by omega), Nat.mod_eq_of_lt (by omega)⟩

theorem Limits.Leads.metadataSize_eq (h : l.Leads b f rest) :
    metadataSize b = UInt64.ofNat f.1.length := by
  obtain ⟨-, rfl⟩ := h
  have hwidth := length_encodeLength (UInt64.ofNat f.1.length)
  rw [metadataSize, encode, encodePart, List.append_assoc, List.append_assoc,
    List.take_append_of_le_length hwidth.ge, ← hwidth, List.take_length,
    decodeLength_encodeLength]

theorem Limits.Leads.headerSize_eq (h : l.Leads b f rest) :
    headerSize b = 2 * lengthWidth + f.1.length := by
  rw [headerSize, h.metadataSize_eq, h.1.lengths.1]
  omega

theorem drop_encode (m c rest : Bytes) :
    (encode m c ++ rest).drop lengthWidth
        = m ++ (encodeLength (UInt64.ofNat c.length) ++ (c ++ rest)) ∧
      (encode m c ++ rest).drop (lengthWidth + m.length)
        = encodeLength (UInt64.ofNat c.length) ++ (c ++ rest) ∧
      (encode m c ++ rest).drop (2 * lengthWidth + m.length) = c ++ rest := by
  have hm : (encodeLength (UInt64.ofNat m.length)).length = lengthWidth := length_encodeLength _
  have hc : (encodeLength (UInt64.ofNat c.length)).length = lengthWidth := length_encodeLength _
  have hsplit : encode m c ++ rest = encodeLength (UInt64.ofNat m.length) ++
      (m ++ (encodeLength (UInt64.ofNat c.length) ++ (c ++ rest))) := by
    simp [encode, encodePart]
  have hfirst : (encode m c ++ rest).drop lengthWidth
      = m ++ (encodeLength (UInt64.ofNat c.length) ++ (c ++ rest)) := by
    rw [hsplit, List.drop_left' hm]
  have hsecond : (encode m c ++ rest).drop (lengthWidth + m.length)
      = encodeLength (UInt64.ofNat c.length) ++ (c ++ rest) := by
    rw [← List.drop_drop, hfirst, List.drop_left]
  refine ⟨hfirst, hsecond, ?_⟩
  have hsum : 2 * lengthWidth + m.length = lengthWidth + m.length + lengthWidth := by omega
  rw [hsum, ← List.drop_drop, hsecond, List.drop_left' hc]

/-- **The fields of an encoded frame** are what was encoded. -/
theorem Limits.Leads.headerAt_eq (h : l.Leads b f rest) :
    headerAt b = ⟨f.1, UInt64.ofNat f.2.length⟩ := by
  have hsize := h.metadataSize_eq
  obtain ⟨haccepts, rfl⟩ := h
  obtain ⟨hfirst, hsecond, -⟩ := drop_encode f.1 f.2 rest
  have hc : (encodeLength (UInt64.ofNat f.2.length)).length = lengthWidth := length_encodeLength _
  rw [headerAt, hsize, haccepts.lengths.1, hfirst, hsecond, List.take_left, List.take_left' hc,
    decodeLength_encodeLength]

theorem Limits.Leads.drop_header (h : l.Leads b f rest) : b.drop (headerSize b) = f.2 ++ rest := by
  rw [h.headerSize_eq]
  obtain ⟨-, rfl⟩ := h
  exact (drop_encode f.1 f.2 rest).2.2

theorem Limits.Leads.headerSize_le (h : l.Leads b f rest) :
    headerSize b + f.2.length + rest.length = b.length := by
  rw [h.headerSize_eq, h.2, List.length_append, length_encode]

theorem Limits.Leads.metadataFits (h : l.Leads b f rest) : MetadataFits l.maxMetadata b := by
  constructor
  · rintro ⟨-, hlt⟩
    rw [h.metadataSize_eq, UInt64.lt_iff_toNat_lt, h.1.lengths.1] at hlt
    exact absurd h.1.small (Nat.not_le.mpr hlt)
  · rintro ⟨-, hlt⟩
    rw [h.metadataSize_eq, h.1.lengths.1] at hlt
    exact absurd h.1.held (Nat.not_le.mpr hlt)

theorem Limits.Leads.not_unkeepable (h : l.Leads b f rest) :
    ¬ l.Unkeepable (headerAt b).rawSize := by
  rw [h.headerAt_eq]
  rintro ⟨hthreshold, hlargest⟩
  rw [UInt64.lt_iff_toNat_lt] at hthreshold
  have hkept := h.1.kept
  simp only [h.1.lengths.2] at hthreshold hlargest
  omega

/-- What is at the front is a frame that is taken, if nothing speaks against it. -/
theorem leads_of_header (hmetadata : MetadataFits l.maxMetadata b)
    (hwhole : headerSize b + (headerAt b).rawSize.toNat ≤ b.length)
    (hcontent : ¬ l.Unkeepable (headerAt b).rawSize) :
    l.Leads b ((headerAt b).metadata, (b.drop (headerSize b)).take (headerAt b).rawSize.toNat)
      (b.drop (headerSize b + (headerAt b).rawSize.toNat)) := by
  have hfirst := lengthWidth_le_headerSize b
  have hle : ¬ l.maxMetadata < metadataSize b := fun hlt => hmetadata.small ⟨by omega, hlt⟩
  have hheld : ¬ longestBlock < (metadataSize b).toNat :=
    fun hlt => hmetadata.held ⟨by omega, hlt⟩
  have hkeep : (headerAt b).rawSize.toNat ≤ l.threshold.toNat ∨
      (headerAt b).rawSize.toNat ≤ l.largest := by
    by_contra hno
    obtain ⟨h1, h2⟩ := not_or.mp hno
    exact hcontent ⟨UInt64.lt_iff_toNat_lt.mpr (Nat.not_le.mp h1), Nat.not_le.mp h2⟩
  have hlen : ((b.drop (headerSize b)).take (headerAt b).rawSize.toNat).length
      = (headerAt b).rawSize.toNat := by
    rw [List.length_take, List.length_drop]
    omega
  refine ⟨⟨?_, ?_, ?_⟩, eq_encode_append hwhole⟩
  · rw [length_metadata (by omega)]
    exact UInt64.le_iff_toNat_le.mp (UInt64.not_lt.mp hle)
  · rw [length_metadata (by omega)]
    exact Nat.not_lt.mp hheld
  · rw [hlen]
    exact hkeep

/-- What stands at the front is one frame; the limits only say whether it is taken. -/
theorem Limits.Leads.unique {l' : Limits} {g : Bytes × Bytes} {rest' : Bytes}
    (h : l.Leads b f rest) (h' : l'.Leads b g rest') : f = g ∧ rest = rest' := by
  have hheader := h.headerAt_eq.symm.trans h'.headerAt_eq
  rw [Header.mk.injEq] at hheader
  have hlength : f.2.length = g.2.length := by
    rw [← h.1.lengths.2, ← h'.1.lengths.2, hheader.2]
  have hbehind : f.2 ++ rest = g.2 ++ rest' := h.drop_header.symm.trans h'.drop_header
  obtain ⟨hcontent, hrest⟩ := List.append_inj hbehind hlength
  exact ⟨Prod.ext hheader.1 hcontent, hrest⟩

end Leads

/-! ## 4. All frames at the front -/

/-- Bytes that do not begin with a frame that is taken. -/
def Limits.Stuck (l : Limits) (b : Bytes) : Prop := ∀ f rest, ¬ l.Leads b f rest

theorem Limits.stuck_of_short (l : Limits) {b : Bytes} (h : b.length < 2 * lengthWidth) : l.Stuck b := by
  intro f rest hleads
  have hsize := hleads.headerSize_le
  rw [hleads.headerSize_eq] at hsize
  omega

theorem encodeAll_cons (f : Bytes × Bytes) (frames : List (Bytes × Bytes)) :
    encodeAll (f :: frames) = encode f.1 f.2 ++ encodeAll frames := by
  simp [encodeAll]

theorem encodeAll_append (fs gs : List (Bytes × Bytes)) :
    encodeAll (fs ++ gs) = encodeAll fs ++ encodeAll gs := by
  simp [encodeAll]

/-- **Every byte string falls into frames that are taken and a rest that does not begin with one.**
Each frame takes some bytes, so there is an end to them. -/
theorem exists_frames (l : Limits) (b : Bytes) :
    ∃ frames rest, b = encodeAll frames ++ rest ∧ (∀ f ∈ frames, l.Accepts f) ∧ l.Stuck rest := by
  induction hn : b.length using Nat.strongRecOn generalizing b with
  | ind n ih =>
    by_cases hstuck : l.Stuck b
    · exact ⟨[], b, rfl, by simp, hstuck⟩
    · simp only [Limits.Stuck, not_forall, not_not] at hstuck
      obtain ⟨f, rest, hleads⟩ := hstuck
      have hlen := hleads.headerSize_le
      have hpos := lengthWidth_le_headerSize b
      have hwidth : lengthWidth = 8 := rfl
      obtain ⟨frames, tail, htail, haccepts, hstuck⟩ := ih rest.length (by omega) rest rfl
      refine ⟨f :: frames, tail, ?_, ?_, hstuck⟩
      · rw [encodeAll_cons, List.append_assoc, ← htail]
        exact hleads.2
      · intro g hg
        rcases List.mem_cons.mp hg with rfl | hg
        · exact hleads.1
        · exact haccepts g hg

theorem length_encodeAll_ge (frames : List (Bytes × Bytes)) :
    2 * lengthWidth * frames.length ≤ (encodeAll frames).length := by
  induction frames with
  | nil => exact Nat.zero_le _
  | cons f rest ih =>
    rw [encodeAll_cons, List.length_append, length_encode, List.length_cons, Nat.mul_succ]
    omega

/-- What a reader goes past: a frame that it takes, or a length of metadata that no memory can meet.
-/
inductive Piece where
  | frame (f : Bytes × Bytes)
  | vast (length : UInt64)

namespace Piece

def bytes : Piece → Bytes
  | frame f => encode f.1 f.2
  | vast length => encodeLength length

def frame? : Piece → Option (Bytes × Bytes)
  | frame f => some f
  | vast _ => none

/-- A frame is taken, and a length is within the limit and beyond memory. -/
def PassedBy (l : Limits) : Piece → Prop
  | frame f => l.Accepts f
  | vast length => ¬ l.maxMetadata < length ∧ longestBlock < length.toNat

/-- The frames among the pieces. -/
def frames (pieces : List Piece) : List (Bytes × Bytes) := pieces.filterMap frame?

theorem bytes_of_frames {pieces : List Piece} (h : (frames pieces).length = pieces.length) :
    pieces.flatMap bytes = encodeAll (frames pieces) := by
  induction pieces with
  | nil => rfl
  | cons p rest ih =>
    cases p with
    | frame f =>
      have hrest : (frames rest).length = rest.length := Nat.succ.inj h
      show encode f.1 f.2 ++ rest.flatMap bytes = encodeAll (f :: frames rest)
      rw [ih hrest, encodeAll_cons]
    | vast length =>
      have hle : (frames rest).length ≤ rest.length := List.length_filterMap_le _ _
      have hsame : (frames rest).length = rest.length + 1 := h
      omega

end Piece

section Alike

variable {limitsAt : Nat → Limits} {fs gs : List (Bytes × Bytes)} {a b : Bytes}

/-- **There is one way only to take frames from the front**: of two rows of frames the longer one
begins with the other.  What is taken may be a matter of how many frames there were before. -/
theorem frames_begin (heq : encodeAll fs ++ a = encodeAll gs ++ b)
    (hfs : ∀ i f, fs[i]? = some f → (limitsAt i).Accepts f)
    (hgs : ∀ i g, gs[i]? = some g → (limitsAt i).Accepts g) (hle : fs.length ≤ gs.length) :
    ∃ more, gs = fs ++ more ∧ a = encodeAll more ++ b := by
  induction fs generalizing gs limitsAt with
  | nil => exact ⟨gs, rfl, heq⟩
  | cons f fs ih =>
    cases gs with
    | nil => simp at hle
    | cons g gs =>
      rw [encodeAll_cons, encodeAll_cons, List.append_assoc, List.append_assoc] at heq
      have hf : (limitsAt 0).Leads (encode f.1 f.2 ++ (encodeAll fs ++ a)) f (encodeAll fs ++ a) :=
        ⟨hfs 0 f rfl, rfl⟩
      have hg : (limitsAt 0).Leads (encode f.1 f.2 ++ (encodeAll fs ++ a)) g (encodeAll gs ++ b) :=
        ⟨hgs 0 g rfl, heq⟩
      obtain ⟨rfl, hrest⟩ := hf.unique hg
      obtain ⟨more, rfl, hmore⟩ := @ih (fun i => limitsAt (i + 1)) gs hrest
        (fun i => hfs (i + 1)) (fun i => hgs (i + 1)) (Nat.le_of_succ_le_succ hle)
      exact ⟨more, rfl, hmore⟩

theorem frames_end (heq : encodeAll fs ++ a = encodeAll gs ++ b)
    (hfs : ∀ i f, fs[i]? = some f → (limitsAt i).Accepts f)
    (hgs : ∀ i g, gs[i]? = some g → (limitsAt i).Accepts g)
    (hstuck : (limitsAt fs.length).Stuck a) (hle : fs.length ≤ gs.length) : gs = fs ∧ a = b := by
  obtain ⟨more, rfl, hmore⟩ := frames_begin heq hfs hgs hle
  cases more with
  | nil => exact ⟨List.append_nil fs, hmore⟩
  | cons g more =>
    have hg : (limitsAt fs.length).Accepts g := hgs fs.length g (by simp)
    rw [encodeAll_cons, List.append_assoc] at hmore
    exact absurd ⟨hg, hmore⟩ (hstuck g _)

end Alike

end Intake.Frame
