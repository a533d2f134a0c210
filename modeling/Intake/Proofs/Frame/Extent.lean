/-
# How far a reader gets

A byte string is taken apart into frames and what is behind them in one way (`Limits.Parses`), and
the end of a stream is a clean one when there is nothing behind them.  In front of bytes that do not
begin with a frame that is taken, a `FrameReader` goes on until it knows why: to the end of the
first length field when the metadata are too large or beyond memory, to the end of the header when
the content cannot be kept, and to the end of the stream when that comes first (`Limits.extent`).

All of it is counted, unless the stream fails (`readHeader_extent`, `content_extent`), and so is a
frame that is taken (`Kept.counts`).
-/
import Mathlib
import Intake.Proofs.Frame.Accounting

namespace Intake

/-! ## 1. Payloads -/

theorem Spill.write_of_large {h : Host} {size : UInt64} (hlarge : room h.disk < size.toNat)
    (s : Source) (directory : Bytes) :
    (write h s size directory).source = s ∧ (write h s size directory).consumed = 0 := by
  cases ht : h.disk.createTemp (stem directory) with
  | error cause => simp [write_willing, ht]
  | ok t =>
    obtain ⟨-, -, hlimit, -⟩ := opens_of_createTemp ht
    have hroom : room t.disk = room h.disk := by rw [room, room, hlimit]
    obtain ⟨event, hwrite⟩ := write_of_lt ht (hroom.symm ▸ hlarge) s
    rw [hwrite]
    exact ⟨rfl, rfl⟩

theorem Staging.delivered_add_rest {s : Staging} {source : Source} {size : UInt64} {d : Delivery}
    (hd : s.materialize source size = .delivers d) :
    d.source.delivered + d.source.rest.length = source.delivered + source.rest.length := by
  have hafter : ∀ reads, (source.after size.toNat reads).delivered
      + (source.after size.toNat reads).rest.length
      = source.delivered + source.rest.length := by
    intro reads
    rw [Source.after_delivered, Source.after_rest, List.length_drop]
    omega
  rcases materialize_source hd with ⟨hsource, -⟩ | ⟨reads, hsource, -⟩ | ⟨reads, hsource, -⟩
  · rw [hsource]
  · rw [hsource, hafter]
  · rw [hsource, hafter]

namespace Frame

/-! ## 2. Bytes that are no frame -/

/-- How many of the bytes in front of it a reader takes when they do not begin with a frame that is
taken. -/
def Limits.extent (l : Limits) (b : Bytes) : Nat :=
  if Oversized l.maxMetadata b ∨ Overlong b then lengthWidth
  else if headerSize b ≤ b.length ∧ l.Unkeepable (headerAt b).rawSize then headerSize b
  else b.length

theorem Limits.extent_le (l : Limits) (b : Bytes) : l.extent b ≤ b.length := by
  unfold extent
  split_ifs with hrefused hlarge
  · exact hrefused.elim And.left And.left
  · exact hlarge.1
  · exact Nat.le_refl _

/-! ## 3. Frames and what is behind them -/

/-- The frames that are taken from the front of a byte string, and what is behind them. -/
structure Limits.Parses (l : Limits) (b : Bytes) (frames : List (Bytes × Bytes)) (ahead : Bytes) :
    Prop where
  split : b = encodeAll frames ++ ahead
  accepted : ∀ f ∈ frames, l.Accepts f
  stuck : l.Stuck ahead

section Parses

variable {l : Limits} {b ahead ahead' : Bytes} {frames frames' : List (Bytes × Bytes)}

theorem Limits.Parses.unique (h : l.Parses b frames ahead) (h' : l.Parses b frames' ahead') :
    frames = frames' ∧ ahead = ahead' := by
  have heq := h.split.symm.trans h'.split
  have haccepted : ∀ (i : Nat) f, frames[i]? = some f → l.Accepts f :=
    fun _ f hf => h.accepted f (List.mem_of_getElem? hf)
  have haccepted' : ∀ (i : Nat) f, frames'[i]? = some f → l.Accepts f :=
    fun _ f hf => h'.accepted f (List.mem_of_getElem? hf)
  rcases Nat.le_total frames.length frames'.length with hle | hle
  · obtain ⟨hframes, hahead⟩ :=
      @frames_end (fun _ => l) _ _ _ _ heq haccepted haccepted' h.stuck hle
    exact ⟨hframes.symm, hahead⟩
  · obtain ⟨hframes, hahead⟩ :=
      @frames_end (fun _ => l) _ _ _ _ heq.symm haccepted' haccepted h'.stuck hle
    exact ⟨hframes, hahead.symm⟩

/-- **The end of the stream is a clean one** when there is nothing behind the frames, as metadata
that are taken leave a word room for the header. -/
theorem Limits.Parses.clean_iff (h : l.Parses b frames ahead)
    (hsmall : l.maxMetadata.toNat + 2 * lengthWidth < 18446744073709551616) :
    l.stopCause false ahead = .failed .endOfStream ↔
      ∃ all, b = encodeAll all ∧ ∀ f ∈ all, l.Accepts f := by
  have hnil : l.stopCause false ahead = .failed .endOfStream ↔ ahead = [] := by
    constructor
    · intro hcause
      have hM : ¬ Oversized l.maxMetadata ahead := by
        intro hM
        cases (if_pos hM).symm.trans hcause
      have hlong : ¬ Overlong ahead := by
        intro hlong
        cases ((if_neg hM).trans (if_pos hlong)).symm.trans hcause
      rw [stopCause_of_fits ⟨hM, hlong⟩, Exit.failed.injEq] at hcause
      unfold contentCause cutCause at hcause
      simp only [Bool.false_eq_true, if_false] at hcause
      split_ifs at hcause with hlarge hend
      obtain ⟨hshort, hzero⟩ := hend
      have hlt : ahead.length < 18446744073709551616 := by
        by_contra hlong
        have hwidth : lengthWidth = 8 := rfl
        have hle : ¬ l.maxMetadata < metadataSize ahead := fun hlt => hM ⟨by omega, hlt⟩
        rw [UInt64.not_lt, UInt64.le_iff_toNat_le] at hle
        unfold headerSize at hshort
        omega
      have hlength := congrArg UInt64.toNat hzero
      rw [UInt64.toNat_ofNat', Nat.mod_eq_of_lt hlt] at hlength
      exact List.length_eq_zero_iff.mp hlength
    · rintro rfl
      rfl
  rw [hnil]
  constructor
  · rintro rfl
    exact ⟨frames, by rw [h.split, List.append_nil], h.accepted⟩
  · rintro ⟨all, hsplit, haccepted⟩
    have hwhole : l.Parses b all [] :=
      ⟨by rw [hsplit, List.append_nil], haccepted, l.stuck_of_short (by decide)⟩
    exact (h.unique hwhole).2

theorem length_content_le {f : Bytes × Bytes} (hf : f ∈ frames) :
    f.2.length ≤ (encodeAll frames).length := by
  induction frames with
  | nil => cases hf
  | cons g rest ih =>
    rw [encodeAll_cons, List.length_append, length_encode]
    rcases List.mem_cons.mp hf with rfl | hf
    · omega
    · have := ih hf
      omega

end Parses

/-! ## 4. What a reader takes -/

namespace Session

variable {s t t' : Session} {l : Limits} {b : Bytes}

theorem Moved.counts {n : Nat} (h : s.beginFrame.Moved t n n)
    (hn : n ≤ s.reader.source.rest.length) : s.Counts n 0 t := by
  have hdelivered := h.delivered
  have hmin : min n s.beginFrame.reader.source.rest.length = n := Nat.min_eq_left hn
  rw [hmin] at hdelivered
  exact counts_all hdelivered h.cursor h.progress

/-- **A header is taken**, or as much as it takes to see that there is no frame. -/
theorem readHeader_extent (hmax : s.reader.maxMetadata = l.maxMetadata)
    (hclean : s.reader.source.failure = none) :
    (∃ t, s.readHeader = (.ok (headerAt s.reader.source.rest), t) ∧
      s.Counts (headerSize s.reader.source.rest) 0 t) ∨
    ∃ exit t, s.readHeader = (.error exit, t) ∧ s.Counts (l.extent s.reader.source.rest) 0 t := by
  unfold Limits.extent
  by_cases hM : Oversized l.maxMetadata s.reader.source.rest
  · obtain ⟨t, hheader, hmoved, -⟩ := readHeader_oversized (hmax ▸ hM)
    rw [if_pos (Or.inl hM)]
    exact Or.inr ⟨_, t, hheader, hmoved.counts hM.1⟩
  by_cases hlong : Overlong s.reader.source.rest
  · obtain ⟨t, hheader, hmoved, -⟩ := readHeader_overlong (hmax ▸ hM) hlong
    rw [if_pos (Or.inr hlong)]
    exact Or.inr ⟨_, t, hheader, hmoved.counts hlong.1⟩
  have hfits : MetadataFits l.maxMetadata s.reader.source.rest := ⟨hM, hlong⟩
  rw [if_neg (not_or.mpr ⟨hM, hlong⟩)]
  rcases Nat.lt_or_ge s.reader.source.rest.length (headerSize s.reader.source.rest) with
    hshort | hwhole
  · obtain ⟨t, hheader, hmoved, -⟩ := readHeader_short (hmax ▸ hfits) hshort
    rw [hclean, Option.isSome_none, if_neg Bool.false_ne_true] at hmoved
    rw [if_neg fun hand => absurd hand.1 (Nat.not_le.mpr hshort)]
    exact Or.inr ⟨_, t, hheader, hmoved.counts (Nat.le_refl _)⟩
  · obtain ⟨t, hheader, hmoved, -⟩ := readHeader_whole (hmax ▸ hfits) hwhole
    exact Or.inl ⟨t, hheader, hmoved.counts hwhole⟩

theorem Kept.counts {f : Bytes × Bytes} {rest : Bytes} {d : Staging.Delivery} {r : Record}
    {size : UInt64} (h : Kept l t f rest d r t')
    (hd : t.staging.materialize t.reader.source size = .delivers d)
    (hbehind : t.reader.source.rest = f.2 ++ rest) : t.Counts f.2.length 0 t' := by
  have hsum := Staging.delivered_add_rest hd
  have hdelivered : t'.reader.source.delivered = t.reader.source.delivered + f.2.length := by
    rw [← h.received.source, h.rest, hbehind, List.length_append] at hsum
    omega
  have hconsumed := h.consumed
  exact counts_all hdelivered (hconsumed ▸ h.received.cursor) (hconsumed ▸ h.received.progress)

/-- **Behind the header of what is no frame that is taken**, a content that cannot be kept is left,
and another is taken as far as the stream goes. -/
theorem content_extent {d : Staging.Delivery} (hwithin : Within l t.staging)
    (hclean : t.reader.source.failure = none) (hM : MetadataFits l.maxMetadata b)
    (hwhole : headerSize b ≤ b.length) (hstuck : l.Stuck b)
    (hbehind : t.reader.source.rest = b.drop (headerSize b))
    (hd : t.staging.materialize t.reader.source (headerAt b).rawSize = .delivers d)
    (hcontent : d.content = .error (l.contentCause t.reader.source.failure.isSome b))
    (hreceived : t.Received d t') : ∃ n, headerSize b + n = l.extent b ∧ t.Counts n 0 t' := by
  have hrest : t.reader.source.rest.length = b.length - headerSize b := by
    rw [hbehind, List.length_drop]
  have hcounts : ∀ n, d.source.delivered = t.reader.source.delivered + n →
      d.consumed = UInt64.ofNat n → t.Counts n 0 t' := by
    intro n hdelivered hconsumed
    refine counts_all ?_ (hconsumed ▸ hreceived.cursor) (hconsumed ▸ hreceived.progress)
    rw [hreceived.source, hdelivered]
  rw [Limits.contentCause_of_whole hwhole, hclean] at hcontent
  unfold Limits.extent
  rw [if_neg (not_or.mpr ⟨hM.small, hM.held⟩)]
  by_cases hlarge : l.Unkeepable (headerAt b).rawSize
  · have hspill : t.staging.shouldSpill (headerAt b).rawSize = true := by
      simpa [Staging.shouldSpill, hwithin.threshold] using hlarge.1
    obtain ⟨hsource, hconsumed⟩ := Spill.write_of_large (hwithin.largest.symm ▸ hlarge.2)
      t.reader.source t.staging.tempDir
    rw [Staging.materialize, if_pos hspill] at hd
    obtain rfl := Staging.Step.delivers.inj hd
    rw [if_pos ⟨hwhole, hlarge⟩]
    refine ⟨0, rfl, hcounts 0 ?_ ?_⟩
    · unfold Staging.toSpill
      simp only
      split <;> exact congrArg Source.delivered hsource
    · unfold Staging.toSpill
      simp only
      split <;> exact hconsumed
  · rw [if_neg fun hand => hlarge hand.2]
    rw [if_neg hlarge, Option.isSome_none, if_neg Bool.false_ne_true] at hcontent
    -- the header is there and nothing is wrong with it, so it is the content that is cut short
    have hshort : t.reader.source.rest.length < (headerAt b).rawSize.toNat := by
      by_contra hlong
      exact hstuck _ _ (leads_of_header hM (by omega) hlarge)
    refine ⟨t.reader.source.rest.length, by omega, ?_⟩
    rcases Staging.materialize_source hd with ⟨-, -, he | he⟩ | ⟨reads, hsource, hconsumed, -⟩ |
      ⟨-, -, -, -, -, -, hfailure⟩
    · rw [hcontent] at he
      cases he
    · rw [hcontent] at he
      cases he
    · refine hcounts _ ?_ ?_
      · rw [hsource, Source.after_delivered, Nat.min_eq_right hshort.le]
      · rw [hconsumed, List.take_of_length_le hshort.le]
    · rw [hclean] at hfailure
      cases hfailure

end Session

end Frame

end Intake
