/-
# Records on a shelf

Whoever reads records may keep them, read from them a bit at a time, move them about and drop them,
while further records are read: a `Shelf` has a `FrameReader` and places for the contents of its
records (`Berth`), as a caller has variables of the type `Record`, and `Shelf.next` says what can be
done with it.  A call that waits for a buffer is taken up again later, so that records can be read
and dropped in between.

A place knows which frame its record is of, and what was read from it so far.  Whatever is done and
in whatever order, **what is left of a record that is alive are the bytes of its own frame that were
not read from it yet**, and no two of them share a buffer or a file (`live_records_isolated`).

The staging area houses the contents of the records that are alive, and nothing else, and what is
left of a record that was moved is hollow (`Filled`).  Every deed keeps this: it concerns at most
two places, and the others see nothing of it.
-/
import Mathlib
import Intake.Proofs.Frame.Parsing
import Intake.Proofs.Places
import Intake.Proofs.Staging.Holders

namespace Intake.Frame

/-! ## 1. What can be done -/

/-- A place for a record, as far as its content goes. -/
structure Berth where
  content : Content
  /-- As long as the record is alive: the number of its frame, and the bytes read from it. -/
  life : Option (Nat × Bytes)

namespace Berth

/-- The content of a record that is alive. -/
def live? (b : Berth) : Option Content := b.life.map fun _ => b.content

/-- A place without a record. -/
def empty : Berth := ⟨.none, none⟩

/-- What is left where a record was moved away. -/
def afterMove (b : Berth) : Berth := ⟨b.content.afterMove, none⟩

end Berth

/-- A reader, and the records that were kept. -/
structure Shelf where
  session : Session
  /-- The frame whose content waits for a buffer. -/
  waiting : Option Header
  berths : List Berth
  /-- How many records the reader has brought forth. -/
  returned : Nat
  /-- How many calls were left by an exception. -/
  thrown : Nat

namespace Shelf

/-- Something that is done with a shelf. -/
inductive Deed where
  /-- Somebody calls for the next record. -/
  | next
  /-- The call that waits for a buffer looks again. -/
  | resume
  /-- Somebody reads at most so many bytes from a record. -/
  | read (place count : Nat)
  | move (target origin : Nat)
  | drop (place : Nat)

/-- A shelf with empty places, and a reader at the start of a stream that fills a pool of so many
buffers. -/
def create (host : Host) (source : Source) (maxMetadata : UInt64) (progress : Progress)
    (buffers : UInt32) (bufferSize threshold : UInt64) (dir : Bytes) (places : Nat) : Shelf where
  session := .create source maxMetadata progress
    (.create host (.create buffers bufferSize) threshold dir)
  waiting := none
  berths := List.replicate places .empty
  returned := 0
  thrown := 0

/-- Takes over what a call has come to.  A record gets a place of its own. -/
def settle (s : Shelf) : Outcome × Session → Option Shelf
  | (.waits h, session) => some { s with session, waiting := some h }
  | (.overflows, _) => none
  | (.failed _, session) => some { s with session, waiting := none }
  | (.thrown, session) => some { s with session, waiting := none, thrown := s.thrown + 1 }
  | (.record r, session) =>
    some { s with
      session, waiting := none
      berths := s.berths ++ [⟨r.content, some (s.returned, [])⟩]
      returned := s.returned + 1 }

/-- Lets go of a content. -/
def release (s : Shelf) (c : Content) : Shelf :=
  { s with session := { s.session with staging := s.session.staging.release c } }

/-- What a deed does; `none` when it is not possible.  Only from a record that is alive somebody
reads; a record that is moved onto itself stays where it is, and one that is moved onto another is
kept in its place. -/
def next (s : Shelf) : Deed → Option Shelf
  | .next => if s.waiting = none then s.settle s.session.next else none
  | .resume => s.waiting.bind fun h => s.settle (s.session.readContent h)
  | .read i n =>
    match s.berths[i]? with
    | some ⟨c, some (k, got)⟩ =>
      let r := s.session.staging.read c n
      some { s with
        berths := s.berths.set i ⟨r.2, some (k, got ++ r.1.toOption.getD [])⟩ }
    | _ => none
  | .move target origin =>
    match s.berths[target]?, s.berths[origin]? with
    | some old, some b =>
      if target = origin then some s
      else
        some { s.release old.content with
          berths := (s.berths.set target b).set origin b.afterMove }
    | _, _ => none
  | .drop i =>
    (s.berths[i]?).map fun b =>
      { s.release b.content with berths := s.berths.set i .empty }

/-- What can come about from a shelf. -/
inductive Reachable (s₀ : Shelf) : Shelf → Prop where
  | refl : Reachable s₀ s₀
  | next {s s' : Shelf} {d : Deed} : Reachable s₀ s → s.next d = some s' → Reachable s₀ s'

end Shelf

/-! ## 2. What is on a shelf -/

/-- The records on a shelf are those of the frames, as far as they are alive, and there is nothing
else in the staging area. -/
structure Filled (base : Host) (staging : Staging) (frames : List (Bytes × Bytes))
    (berths : List Berth) : Prop where
  houses : staging.Houses base (berths.filterMap Berth.live?)
  hollow : ∀ b ∈ berths, b.life = none → b.content.IsHollow
  own : ∀ b ∈ berths, ∀ k got, b.life = some (k, got) →
    ∃ f rest, frames[k]? = some f ∧ f.2 = got ++ rest ∧ staging.remaining b.content = .ok rest

section Filled

variable {base : Host} {staging staging' : Staging} {frames : List (Bytes × Bytes)}
  {berths : List Berth} {b : Berth} {i j : Nat}

theorem mem_live {k : Nat} {got : Bytes} (hb : b ∈ berths) (hlife : b.life = some (k, got)) :
    b.content ∈ berths.filterMap Berth.live? :=
  List.mem_filterMap.mpr ⟨b, hb, by rw [Berth.live?, hlife]; rfl⟩

theorem Filled.restaged (h : Filled base staging frames berths)
    (hhouses : staging'.Houses base (berths.filterMap Berth.live?))
    (hspared : ∀ c ∈ berths.filterMap Berth.live?, staging'.remaining c = staging.remaining c) :
    Filled base staging' frames berths := by
  refine ⟨hhouses, h.hollow, ?_⟩
  intro b hb k got hlife
  obtain ⟨f, rest, hf, hsplit, hremaining⟩ := h.own b hb k got hlife
  exact ⟨f, rest, hf, hsplit, (hspared _ (mem_live hb hlife)).trans hremaining⟩

theorem Filled.add {f : Bytes × Bytes} {c : Content} (h : Filled base staging frames berths)
    (hhouses : staging'.Houses base (c :: berths.filterMap Berth.live?))
    (hspared : ∀ c ∈ berths.filterMap Berth.live?, staging'.remaining c = staging.remaining c)
    (hremaining : staging'.remaining c = .ok f.2) :
    Filled base staging' (frames ++ [f]) (berths ++ [⟨c, some (frames.length, [])⟩]) := by
  refine ⟨?_, ?_, ?_⟩
  · rw [List.filterMap_append]
    exact hhouses.perm (List.perm_append_singleton c _).symm
  · intro b hb hlife
    rcases List.mem_append.mp hb with hb | hb
    · exact h.hollow b hb hlife
    · obtain rfl := List.mem_singleton.mp hb
      cases hlife
  · intro b hb k got hlife
    rcases List.mem_append.mp hb with hb | hb
    · obtain ⟨g, rest, hg, hsplit, hrest⟩ := h.own b hb k got hlife
      refine ⟨g, rest, ?_, hsplit, (hspared _ (mem_live hb hlife)).trans hrest⟩
      obtain ⟨hlt, -⟩ := List.getElem?_eq_some_iff.mp hg
      rw [List.getElem?_append_left hlt]
      exact hg
    · obtain rfl := List.mem_singleton.mp hb
      obtain ⟨rfl, rfl⟩ := Prod.mk.inj (Option.some.inj hlife)
      exact ⟨f, f.2, List.getElem?_concat_length, rfl, hremaining⟩

/-- **Reading from a record** brings the next bytes of its frame. -/
theorem Filled.read {c : Content} {k : Nat} {got : Bytes} (h : Filled base staging frames berths)
    (hi : berths[i]? = some ⟨c, some (k, got)⟩) (n : Nat) :
    Filled base staging frames (berths.set i ⟨(staging.read c n).2,
      some (k, got ++ (staging.read c n).1.toOption.getD [])⟩) := by
  obtain ⟨f, rest, hf, hsplit, hremaining⟩ := h.own _ (List.mem_of_getElem? hi) k got rfl
  obtain ⟨hread, hleft⟩ := read_of_remaining hremaining n
  obtain ⟨others, hbefore, hafter⟩ := exists_others Berth.live? hi
  have hhouses : staging.Houses base (c :: others) := h.houses.perm hbefore
  refine ⟨?_, ?_, ?_⟩
  · exact (hhouses.read n).perm (hafter ⟨(staging.read c n).2, some (k, _)⟩).symm
  · intro b hb hlife
    rcases List.mem_or_eq_of_mem_set hb with hb | rfl
    · exact h.hollow b hb hlife
    · cases hlife
  · intro b hb k' got' hlife
    rcases List.mem_or_eq_of_mem_set hb with hb | rfl
    · exact h.own b hb k' got' hlife
    · obtain ⟨rfl, rfl⟩ := Prod.mk.inj (Option.some.inj hlife)
      refine ⟨f, rest.drop n, hf, ?_, hleft⟩
      have hbrought : (staging.read c n).1 = .ok (rest.take n) := hread
      rw [hbrought, hsplit, List.append_assoc]
      exact congrArg (got ++ ·) (List.take_append_drop n rest).symm

/-- **Dropping what is at a place**: a record is let go of, and what was moved is nothing. -/
theorem Filled.vacate (h : Filled base staging frames berths) (hi : berths[i]? = some b) :
    Filled base (staging.release b.content) frames (berths.set i .empty) ∧
      staging.Alike (staging.release b.content) := by
  obtain ⟨others, hbefore, hafter⟩ := exists_others Berth.live? hi
  have hleft : ((berths.set i .empty).filterMap Berth.live?).Perm others := hafter .empty
  obtain ⟨hhouses, halike, hspared⟩ : (staging.release b.content).Houses base others ∧
      staging.Alike (staging.release b.content) ∧
      ∀ c ∈ others, (staging.release b.content).remaining c = staging.remaining c := by
    have hhouses := h.houses.perm hbefore
    cases hlife : b.life with
    | none =>
      rw [Staging.release_of_hollow (h.hollow b (List.mem_of_getElem? hi) hlife)]
      rw [Berth.live?, hlife] at hhouses
      exact ⟨hhouses, .refl _, fun _ _ => rfl⟩
    | some life =>
      rw [Berth.live?, hlife] at hhouses
      exact Staging.Houses.release hhouses
  refine ⟨⟨hhouses.perm hleft.symm, ?_, ?_⟩, halike⟩
  · intro b' hb' hlife
    rcases List.mem_or_eq_of_mem_set hb' with hb' | rfl
    · exact h.hollow b' hb' hlife
    · exact Content.isHollow_none
  · intro b' hb' k got hlife
    have hspare := hspared _ (hleft.subset (mem_live hb' hlife))
    rcases List.mem_or_eq_of_mem_set hb' with hb' | rfl
    · obtain ⟨f, rest, hf, hsplit, hremaining⟩ := h.own b' hb' k got hlife
      exact ⟨f, rest, hf, hsplit, hspare.trans hremaining⟩
    · cases hlife

/-- **Moving a record to an empty place** leaves it as it is. -/
theorem Filled.shift (h : Filled base staging frames berths) (hi : berths[i]? = some .empty)
    (hj : berths[j]? = some b) (hne : i ≠ j) :
    Filled base staging frames ((berths.set i b).set j b.afterMove) := by
  have hmoved : (berths.set i b)[j]? = some b := by
    rw [List.getElem?_set_ne hne]
    exact hj
  obtain ⟨others, hbefore, hbetween⟩ := exists_others Berth.live? hi
  obtain ⟨others', hbetween', hafter⟩ := exists_others Berth.live? hmoved
  have hsame : others.Perm others' :=
    (List.perm_append_left_iff _).mp ((hbetween b).symm.trans hbetween')
  have hleft : (((berths.set i b).set j b.afterMove).filterMap Berth.live?).Perm others' :=
    hafter b.afterMove
  have hmem : ∀ b' ∈ (berths.set i b).set j b.afterMove, b' ∈ berths ∨ b' = b.afterMove := by
    intro b' hb'
    rcases List.mem_or_eq_of_mem_set hb' with hb' | rfl
    · rcases List.mem_or_eq_of_mem_set hb' with hb' | rfl
      · exact Or.inl hb'
      · exact Or.inl (List.mem_of_getElem? hj)
    · exact Or.inr rfl
  refine ⟨(h.houses.perm (hbefore.trans hsame)).perm hleft.symm, ?_, ?_⟩
  · intro b' hb' hlife
    rcases hmem b' hb' with hb' | rfl
    · exact h.hollow b' hb' hlife
    · exact Content.isHollow_afterMove _
  · intro b' hb' k got hlife
    rcases hmem b' hb' with hb' | rfl
    · exact h.own b' hb' k got hlife
    · cases hlife

end Filled

/-! ## 3. The reader -/

/-- The reader stands behind the header of a frame. -/
structure Behind (l : Limits) (r : Reader) (ahead : Bytes) (h : Header) : Prop where
  rest : r.source.rest = ahead.drop (headerSize ahead)
  maxMetadata : r.maxMetadata = l.maxMetadata
  fits : MetadataFits l.maxMetadata ahead
  whole : headerSize ahead ≤ ahead.length
  header : h = headerAt ahead

/-- Where the reader is: at its end, in front of what is ahead, or behind a header there. -/
def Shelf.Stands (l : Limits) (s : Shelf) (ahead : Bytes) : Prop :=
  match s.waiting with
  | none => s.session.reader.stage.isFinal = true ∨
      (s.session.reader.source.rest = ahead ∧ s.session.reader.maxMetadata = l.maxMetadata)
  | some h => Behind l s.session.reader ahead h

/-- **A shelf in order**: the stream falls into the frames of the records that were returned, the
lengths that exceptions came from, and what is ahead. -/
structure Shelf.Sorted (l : Limits) (base : Host) (start : Staging) (source : Source) (s : Shelf)
    (pieces : List Piece) (ahead : Bytes) : Prop where
  split : source.rest = pieces.flatMap Piece.bytes ++ ahead
  passed : ∀ p ∈ pieces, p.PassedBy l
  count : (Piece.frames pieces).length = s.returned
  all : pieces.length = s.returned + s.thrown
  stands : s.Stands l ahead
  alike : start.Alike s.session.staging
  filled : Filled base s.session.staging (Piece.frames pieces) s.berths

section Sorted

variable {l : Limits} {base : Host} {start : Staging} {source : Source} {s s' : Shelf}
  {pieces : List Piece} {ahead : Bytes}

/-- What a staging area starts with fits the limits. -/
structure Fitting (l : Limits) (base : Host) (start : Staging) : Prop where
  threshold : start.threshold = l.threshold
  fits : start.threshold ≤ start.pool.bufferSize
  largest : Spill.room base.disk = l.largest

theorem Fitting.within {staging : Staging} {live : List Content} (h : Fitting l base start)
    (halike : start.Alike staging) (hhouses : staging.Houses base live) :
    Session.Within l staging := by
  obtain ⟨temps, hkeep, -⟩ := hhouses.files
  refine ⟨halike.threshold.trans h.threshold, ?_, ?_⟩
  · rw [← h.threshold, halike.pool.bufferSize]
    exact h.fits
  · rw [← h.largest, Spill.room, Spill.room, hkeep.sizeLimit]

/-- **Taking the content of a frame** brings a record of it, or waits, or ends the reading.  Nothing
is seen of it in the records that were kept. -/
theorem Shelf.Sorted.content {t : Session} {h : Header}
    (hsorted : s.Sorted l base start source pieces ahead) (hfitting : Fitting l base start)
    (hbehind : Behind l t.reader ahead h) (hnoted : s.session.staging.Noted t.staging)
    (hsettle : s.settle (t.readContent h) = some s') :
    ∃ pieces' ahead', s'.Sorted l base start source pieces' ahead' := by
  obtain ⟨hsplit, hpassed, hcount, hall, -, halike, hfilled⟩ := hsorted
  have halike' := hnoted.alike halike
  have hhouses := hnoted.houses hfilled.houses
  cases hd : t.staging.materialize t.reader.source h.rawSize with
  | waits =>
    simp only [Session.readContent, hd, settle, Option.some.injEq] at hsettle
    subst hsettle
    exact ⟨pieces, ahead, hsplit, hpassed, hcount, hall, hbehind, halike',
      hfilled.restaged hhouses fun c _ => hnoted.remaining c⟩
  | overflows => simp [Session.readContent, hd, settle] at hsettle
  | delivers d =>
    obtain ⟨hholds, hleaves⟩ := Staging.materialize_holds hhouses hd
    unfold Staging.Holds at hholds
    have hspared : ∀ c ∈ s.berths.filterMap Berth.live?,
        d.staging.remaining c = s.session.staging.remaining c := by
      intro c hc
      rw [hleaves.spared c hc, hnoted.remaining]
    cases hc : d.content with
    | error cause =>
      obtain ⟨t', hreceived, ⟨c, hno, -, -⟩ | ⟨cause', -, hfinal, hread⟩⟩ :=
        Session.readContent_of_delivers hd
      · rw [hc] at hno
        cases hno
      rw [hread] at hsettle
      obtain rfl := Option.some.inj hsettle
      rw [hc] at hholds
      have hlog : d.staging.Noted t'.staging := hreceived.staging
      refine ⟨pieces, ahead, hsplit, hpassed, hcount, hall, Or.inl hfinal,
        hlog.alike (halike'.trans hleaves.alike), hfilled.restaged (hlog.houses hholds) ?_⟩
      intro c hc
      rw [hlog.remaining, hspared c hc]
    | ok c =>
      rw [hc] at hholds
      have hwithin := hfitting.within halike' hhouses
      have hready := hhouses.ready_of_delivers hd hc
      obtain ⟨hrest, hmax, hfits, hwhole, rfl⟩ := hbehind
      by_cases hstuck : l.Stuck ahead
      · -- What is no frame that is taken would not have come to a content.
        obtain ⟨d', t', hd', hno, -⟩ :=
          Session.content_of_stuck (hwithin.heeds hready) hfits hwhole hstuck hrest
        obtain rfl := Staging.Step.delivers.inj (hd.symm.trans hd')
        rw [hc] at hno
        cases hno
      · simp only [Limits.Stuck, not_forall, not_not] at hstuck
        obtain ⟨f, rest, hleads⟩ := hstuck
        obtain ⟨d', r, t', hd', hread, hkept⟩ :=
          Session.content_of_leads (hwithin.heeds hready) hleads hrest
        obtain rfl := Staging.Step.delivers.inj (hd.symm.trans hd')
        rw [hread] at hsettle
        obtain rfl := Option.some.inj hsettle
        obtain rfl : c = r.content := Except.ok.inj (hc.symm.trans hkept.content)
        have hlog : d.staging.Noted t'.staging := hkept.received.staging
        have hframes : Piece.frames (pieces ++ [.frame f]) = Piece.frames pieces ++ [f] := by
          simp [Piece.frames, Piece.frame?]
        refine ⟨pieces ++ [.frame f], rest, ?_, ?_, ?_, ?_, ?_,
          hlog.alike (halike'.trans hleaves.alike), ?_⟩
        · rw [hsplit, hleads.2, List.flatMap_append, List.append_assoc]
          simp [Piece.bytes]
        · exact List.forall_mem_append.mpr ⟨hpassed, List.forall_mem_singleton.mpr hleads.1⟩
        · rw [hframes, List.length_append, hcount]
          rfl
        · rw [List.length_append, hall, List.length_singleton]
          exact Nat.add_right_comm _ _ _
        · exact Or.inr ⟨hkept.rest, hkept.received.maxMetadata.trans hmax⟩
        · show Filled base t'.staging _ (s.berths ++ [⟨r.content, some (s.returned, [])⟩])
          rw [← hcount, hframes]
          refine hfilled.add (hlog.houses hholds) ?_ ?_
          · intro c hc
            rw [hlog.remaining, hspared c hc]
          · rw [hlog.remaining]
            exact hkept.remaining

/-- **A call that an exception leaves** goes past the length field and no further. -/
theorem Shelf.Sorted.throws (hsorted : s.Sorted l base start source pieces ahead)
    (hrest : s.session.reader.source.rest = ahead)
    (hmax : s.session.reader.maxMetadata = l.maxMetadata) (hlong : Overlong ahead)
    (hM : ¬ Oversized l.maxMetadata ahead) {t : Session}
    (hheader : s.session.readHeader = (.error .thrown, t)) :
    Sorted l base start source
      { s with session := t, waiting := none, thrown := s.thrown + 1 }
      (pieces ++ [.vast (metadataSize ahead)]) (ahead.drop lengthWidth) := by
  obtain ⟨hsplit, hpassed, hcount, hall, -, halike, hfilled⟩ := hsorted
  subst hrest
  obtain ⟨t', hheader', hmoved, -⟩ := Session.readHeader_overlong (hmax ▸ hM) hlong
  obtain rfl : t' = t := congrArg Prod.snd (hheader'.symm.trans hheader)
  have hlog : s.session.staging.Noted t'.staging := hmoved.staging
  have hframes : Piece.frames (pieces ++ [.vast (metadataSize s.session.reader.source.rest)])
      = Piece.frames pieces := by
    simp [Piece.frames, Piece.frame?]
  have hfield : encodeLength (metadataSize s.session.reader.source.rest)
      = s.session.reader.source.rest.take lengthWidth := by
    have hfirst := hlong.1
    rw [metadataSize, encodeLength_decodeLength]
    rw [List.length_take]
    omega
  refine ⟨?_, ?_, by rw [hframes, hcount], ?_, ?_, hlog.alike halike, ?_⟩
  · rw [hsplit, List.flatMap_append, List.append_assoc]
    simp [Piece.bytes, hfield]
  · exact List.forall_mem_append.mpr ⟨hpassed, List.forall_mem_singleton.mpr
      ⟨fun hlt => hM ⟨hlong.1, hlt⟩, hlong.2⟩⟩
  · rw [List.length_append, hall, List.length_singleton]
    exact Nat.add_assoc _ _ _
  · exact Or.inr ⟨hmoved.rest, hmoved.maxMetadata.trans hmax⟩
  · rw [hframes]
    exact hfilled.restaged (hlog.houses hfilled.houses) fun c _ => hlog.remaining c

/-- **A call for the next record** reads a header, and the content behind it. -/
theorem Shelf.Sorted.call (hsorted : s.Sorted l base start source pieces ahead)
    (hfitting : Fitting l base start) (hfree : s.waiting = none)
    (hsettle : s.settle s.session.next = some s') :
    ∃ pieces' ahead', s'.Sorted l base start source pieces' ahead' := by
  have hstands := hsorted.stands
  unfold Stands at hstands
  rw [hfree] at hstands
  unfold Session.next at hsettle
  split at hsettle
  · rename_i hfinal
    obtain rfl := Option.some.inj hsettle
    exact ⟨pieces, ahead, hsorted.split, hsorted.passed, hsorted.count, hsorted.all,
      Or.inl hfinal, hsorted.alike, hsorted.filled⟩
  · rename_i hopen
    obtain ⟨hrest, hmax⟩ := hstands.resolve_left hopen
    rcases Session.readHeader_cases hmax with ⟨t, hheader, hmoved, hfits, hwhole⟩ |
      ⟨t, n, m, hheader, hmoved, -, hleft, -⟩
    · rw [hrest] at hheader hmoved hfits hwhole
      rw [hheader] at hsettle
      refine hsorted.content hfitting ⟨?_, hmoved.maxMetadata.trans hmax, hfits, hwhole, rfl⟩
        hmoved.staging hsettle
      rw [hmoved.rest]
      exact congrArg _ hrest
    · rw [hheader] at hsettle
      cases hexit : l.stopCause s.session.reader.source.failure.isSome
          s.session.reader.source.rest with
      | failed cause =>
        rw [hexit] at hsettle hleft
        obtain rfl := Option.some.inj hsettle
        have hlog : s.session.staging.Noted t.staging := hmoved.staging
        have hfinal : t.reader.stage.isFinal = true := Session.Stopped.isFinal hleft
        exact ⟨pieces, ahead, hsorted.split, hsorted.passed, hsorted.count, hsorted.all,
          Or.inl hfinal, hlog.alike hsorted.alike,
          hsorted.filled.restaged (hlog.houses hsorted.filled.houses) fun c _ => hlog.remaining c⟩
      | thrown =>
        obtain ⟨hlong, hM⟩ := (l.stopCause_thrown_iff _ _).mp hexit
        rw [hexit] at hheader hsettle
        obtain rfl := Option.some.inj hsettle
        exact ⟨_, _, hsorted.throws hrest hmax (hrest ▸ hlong) (hrest ▸ hM) hheader⟩

theorem Shelf.Sorted.refilled (hsorted : s.Sorted l base start source pieces ahead)
    (hreader : s'.session.reader = s.session.reader) (hwaiting : s'.waiting = s.waiting)
    (hreturned : s'.returned = s.returned) (hthrown : s'.thrown = s.thrown)
    (halike : s.session.staging.Alike s'.session.staging)
    (hfilled : Filled base s'.session.staging (Piece.frames pieces) s'.berths) :
    s'.Sorted l base start source pieces ahead := by
  refine ⟨hsorted.split, hsorted.passed, hsorted.count.trans hreturned.symm, ?_, ?_,
    hsorted.alike.trans halike, hfilled⟩
  · rw [hreturned, hthrown]
    exact hsorted.all
  unfold Stands
  rw [hwaiting, hreader]
  exact hsorted.stands

/-- **Every deed keeps a shelf in order.** -/
theorem Shelf.Sorted.next {d : Deed} (hsorted : s.Sorted l base start source pieces ahead)
    (hfitting : Fitting l base start) (hstep : s.next d = some s') :
    ∃ pieces' ahead', s'.Sorted l base start source pieces' ahead' := by
  cases d with
  | next =>
    rw [Shelf.next] at hstep
    split at hstep
    · rename_i hfree
      exact hsorted.call hfitting hfree hstep
    · cases hstep
  | resume =>
    obtain ⟨h, hwaiting, hsettle⟩ := Option.bind_eq_some_iff.mp hstep
    have hstands := hsorted.stands
    unfold Stands at hstands
    rw [hwaiting] at hstands
    exact hsorted.content hfitting hstands (.refl _) hsettle
  | read i n =>
    rw [Shelf.next] at hstep
    split at hstep
    · rename_i c k got hi
      obtain rfl := Option.some.inj hstep
      exact ⟨pieces, ahead, hsorted.refilled rfl rfl rfl rfl (.refl _) (hsorted.filled.read hi n)⟩
    · cases hstep
  | move target origin =>
    rw [Shelf.next] at hstep
    split at hstep
    · rename_i old b hold hb
      split at hstep
      · obtain rfl := Option.some.inj hstep
        exact ⟨pieces, ahead, hsorted⟩
      · rename_i hne
        obtain rfl := Option.some.inj hstep
        obtain ⟨hvacated, halike⟩ := hsorted.filled.vacate hold
        obtain ⟨hlt, -⟩ := List.getElem?_eq_some_iff.mp hold
        have hfilled := hvacated.shift (List.getElem?_set_self hlt)
          ((List.getElem?_set_ne hne).trans hb) hne
        rw [List.set_set] at hfilled
        exact ⟨pieces, ahead, hsorted.refilled rfl rfl rfl rfl halike hfilled⟩
    · cases hstep
  | drop i =>
    obtain ⟨b, hb, rfl⟩ := Option.map_eq_some_iff.mp hstep
    obtain ⟨hvacated, halike⟩ := hsorted.filled.vacate hb
    exact ⟨pieces, ahead, hsorted.refilled rfl rfl rfl rfl halike hvacated⟩

end Sorted

/-! ## 4. Records that are alive -/

namespace Shelf

variable {host : Host} {source : Source} {maxMetadata : UInt64} {progress : Progress}
  {buffers : UInt32} {bufferSize threshold : UInt64} {dir : Bytes} {places : Nat} {s s' : Shelf}

theorem room_le (d : Disk) : Spill.room d ≤ Disk.largestSize :=
  Nat.min_le_left _ _

/-- The limits that a reader and its staging area go by. -/
def limits (host : Host) (maxMetadata threshold : UInt64) : Limits where
  maxMetadata := maxMetadata
  threshold := threshold
  largest := Spill.room host.disk
  largest_le := room_le host.disk

/-- **What is reachable is in order.**  The induction is on the deeds. -/
theorem Reachable.sorted (hbuffers : buffers.toNat ≤ Ring.widest) (hfit : threshold ≤ bufferSize)
    (h : (create host source maxMetadata progress buffers bufferSize threshold dir places).Reachable
      s) :
    Fitting (limits host maxMetadata threshold) host
        (.create host (.create buffers bufferSize) threshold dir) ∧
      ∃ pieces ahead, s.Sorted (limits host maxMetadata threshold) host
        (.create host (.create buffers bufferSize) threshold dir) source pieces ahead := by
  have hfitting : Fitting (limits host maxMetadata threshold) host
      (.create host (.create buffers bufferSize) threshold dir) := ⟨rfl, hfit, rfl⟩
  refine ⟨hfitting, ?_⟩
  induction h with
  | refl =>
    have hempty : (List.replicate places Berth.empty).filterMap Berth.live? = [] := by
      refine List.filterMap_eq_nil_iff.mpr ?_
      intro b hb
      obtain rfl := List.eq_of_mem_replicate hb
      rfl
    refine ⟨[], source.rest, rfl, by simp, rfl, rfl, Or.inr ⟨rfl, rfl⟩, .refl _, ?_, ?_, ?_⟩
    · show Staging.Houses _ _ ((List.replicate places Berth.empty).filterMap Berth.live?)
      rw [hempty]
      exact Staging.houses_create hbuffers _ _ _ _
    · intro b hb _
      obtain rfl := List.eq_of_mem_replicate hb
      exact Content.isHollow_none
    · intro b hb k got hlife
      obtain rfl := List.eq_of_mem_replicate hb
      cases hlife
  | next _ hstep ih =>
    obtain ⟨pieces, ahead, hsorted⟩ := ih
    exact hsorted.next hfitting hstep

theorem Sorted.not_overflows {l : Limits} {start : Staging} {pieces : List Piece}
    {ahead : Bytes} (hsorted : s.Sorted l host start source pieces ahead)
    (hfitting : Fitting l host start) :
    s.session.next.1 ≠ .overflows ∧ ∀ h, (s.session.readContent h).1 ≠ .overflows := by
  have hwithin := hfitting.within hsorted.alike hsorted.filled.houses
  have hfit : s.session.staging.threshold ≤ s.session.staging.pool.bufferSize := by
    rw [hwithin.threshold]
    exact hwithin.fits
  refine ⟨?_, Session.readContent_not_overflows hfit⟩
  unfold Session.next
  split
  · simp
  · rcases Session.readHeader_cases (s := s.session)
      (l := { l with maxMetadata := s.session.reader.maxMetadata }) rfl with
      ⟨t, hheader, hmoved, -, -⟩ | ⟨t, n, m, hheader, -⟩
    · obtain ⟨log, hstaging⟩ := hmoved.staging
      rw [hheader]
      refine Session.readContent_not_overflows ?_ _
      rw [hstaging]
      exact hfit
    · rw [hheader]
      exact Exit.outcome_ne_overflows _

/-- **Records that are alive are isolated.**  Whatever the stream, whatever the threshold as long as
a buffer holds as much, for every pool of at most 2147483648 buffers and whatever was read, kept,
moved and dropped in between: what is left of a record that is alive are the bytes of its own frame
that were not read from it, however the reads are cut; and no two records that are alive share a
buffer or a file.  No deed fails for a content that is too large for its buffer.

The frames stand one behind the other in the stream as long as no call was left by an exception; a
call that was has gone past a length field, and the next frame is what stands behind that.

A deed changes the contents at two places at most, and the staging area houses the contents of the
records that are alive and nothing else; that is what keeps the others as they are, by induction on
the deeds. -/
theorem live_records_isolated (hbuffers : buffers.toNat ≤ Ring.widest) (hfit : threshold ≤ bufferSize)
    (h : (create host source maxMetadata progress buffers bufferSize threshold dir places).Reachable
      s) :
    ∃ pieces ahead, source.rest = pieces.flatMap Piece.bytes ++ ahead ∧
      (∀ p ∈ pieces, p.PassedBy (limits host maxMetadata threshold)) ∧
      (Piece.frames pieces).length = s.returned ∧ pieces.length = s.returned + s.thrown ∧
      (s.thrown = 0 → source.rest = encodeAll (Piece.frames pieces) ++ ahead) ∧
      (∀ (i : Nat) b k got, s.berths[i]? = some b → b.life = some (k, got) →
        ∃ f rest, (Piece.frames pieces)[k]? = some f ∧ f.2 = got ++ rest ∧
          s.session.staging.ReadsBack b.content rest) ∧
      (∀ (i j : Nat) b b', i ≠ j → s.berths[i]? = some b → s.berths[j]? = some b' →
        b.life.isSome → b'.life.isSome → b.content.Apart b'.content) ∧
      s.session.next.1 ≠ .overflows ∧ ∀ h, (s.session.readContent h).1 ≠ .overflows := by
  obtain ⟨hfitting, pieces, ahead, hsorted⟩ := h.sorted hbuffers hfit
  refine ⟨pieces, ahead, hsorted.split, hsorted.passed, hsorted.count, hsorted.all, ?_, ?_, ?_,
    hsorted.not_overflows hfitting⟩
  · intro hnone
    have hall := hsorted.all
    rw [hnone, Nat.add_zero, ← hsorted.count] at hall
    rw [hsorted.split, Piece.bytes_of_frames hall.symm]
  · intro i b k got hi hlife
    obtain ⟨f, rest, hf, hsplit, hremaining⟩ :=
      hsorted.filled.own b (List.mem_of_getElem? hi) k got hlife
    exact ⟨f, rest, hf, hsplit, readsBack_of_remaining hremaining⟩
  · intro i j b b' hne hi hj halive halive'
    obtain ⟨life, hlife⟩ := Option.isSome_iff_exists.mp halive
    obtain ⟨life', hlife'⟩ := Option.isSome_iff_exists.mp halive'
    have hapart := List.pairwise_filterMap.mp hsorted.filled.houses.apart
    have hlive : b.live? = some b.content := by rw [Berth.live?, hlife]; rfl
    have hlive' : b'.live? = some b'.content := by rw [Berth.live?, hlife']; rfl
    obtain ⟨hlt, rfl⟩ := List.getElem?_eq_some_iff.mp hi
    obtain ⟨hlt', rfl⟩ := List.getElem?_eq_some_iff.mp hj
    rcases Nat.lt_or_gt_of_ne hne with hij | hji
    · exact List.pairwise_iff_getElem.mp hapart i j hlt hlt' hij _ hlive _ hlive'
    · exact (List.pairwise_iff_getElem.mp hapart j i hlt' hlt hji _ hlive' _ hlive).symm

/-- The shelf after a row of deeds. -/
def follow (s : Shelf) : List Deed → Option Shelf
  | [] => some s
  | d :: rest => (s.next d).bind fun s' => s'.follow rest

theorem Reachable.follow {s₀ : Shelf} {deeds : List Deed} (h : s₀.Reachable s)
    (hfollow : s.follow deeds = some s') : s₀.Reachable s' := by
  induction deeds generalizing s with
  | nil =>
    obtain rfl := Option.some.inj hfollow
    exact h
  | cons d rest ih =>
    rw [Shelf.follow] at hfollow
    obtain ⟨t, hstep, hrest⟩ := Option.bind_eq_some_iff.mp hfollow
    exact ih (h.next hstep) hrest

/-- A shelf with one empty place and one buffer of three bytes, in front of two frames for buffers
and one for a file. -/
def small : Shelf :=
  create .empty (.ofBytes (encodeAll [([], [1, 2]), ([], [3, 4, 5]), ([], [6, 7, 8, 9])]) 0) 16
    .zero 1 3 3 (Bytes.ofAscii "/tmp") 1

/-- The first record is read from and moved, the second waits until the first is dropped, and the
third goes to a file. -/
def smallRun : List Deed :=
  [.next, .read 1 1, .next, .move 0 1, .read 0 1, .resume, .drop 0, .resume, .read 2 2, .next,
    .read 3 3, .move 0 2]

/-- The record in the buffer that was used before, and the one in a file, are read in part. -/
theorem live_records_isolated_small :
    ∃ s, small.Reachable s ∧ s.returned = 3 ∧ s.thrown = 0 ∧
      s.berths.map Berth.life = [some (1, [3, 4]), none, none, some (2, [6, 7, 8])] ∧
      ∃ frames ahead,
        encodeAll [([], [1, 2]), ([], [3, 4, 5]), ([], [6, 7, 8, 9])]
          = encodeAll frames ++ ahead ∧
        frames.length = 3 ∧
        (∀ (i : Nat) b k got, s.berths[i]? = some b → b.life = some (k, got) →
          ∃ f rest, frames[k]? = some f ∧ f.2 = got ++ rest ∧
            s.session.staging.ReadsBack b.content rest) := by
  have hrun : (small.follow smallRun).any (fun s => s.returned = 3 ∧ s.thrown = 0 ∧
      s.berths.map Berth.life = [some (1, [3, 4]), none, none, some (2, [6, 7, 8])]) = true := by
    decide +kernel
  obtain ⟨s, hfollow, hends⟩ := (Option.any_eq_true _ _).mp hrun
  obtain ⟨hreturned, hthrown, hlives⟩ := of_decide_eq_true hends
  have hreach : small.Reachable s := Reachable.refl.follow hfollow
  obtain ⟨pieces, ahead, -, -, hcount, -, hsplit, hreads, -⟩ :=
    live_records_isolated (by decide) (by decide) hreach
  exact ⟨s, hreach, hreturned, hthrown, hlives, Piece.frames pieces, ahead, hsplit hthrown,
    hcount.trans hreturned, hreads⟩

end Shelf

end Intake.Frame
