/-
# Reading in pieces

An `InputStream` brings its bytes in pieces, as it likes, and a payload goes to a file in blocks
that have nothing to do with these.  **How the bytes are split is not seen in anything that a reader
does** (`pacing_unseen`): two readers of streams that bring the same bytes, and then both end or
both fail, return the same records and errors, call by call, whatever is read from the records,
moved and dropped in between; and after every deed they stand at the same place, with the same
counters, the same pool and the same log.

The file system draws the endings of temporary names, on each side as it likes.  They are crossed
out before the two sides are compared, and nothing else is.

The two readers, each with the records that were kept (`Shelf`), are `Abreast`: their sessions are
twins, and so are the records that were kept.  Each deed keeps them so, and comes to the same
(`Abreast.next`).
-/
import Mathlib
import Intake.Proofs.Frame.Shelf
import Intake.Proofs.Staging.Twins

namespace Intake.Frame

/-! ## 1. Readers side by side -/

/-- What reading a frame comes to, with the ending of a temporary name crossed out. -/
def Outcome.veiled : Outcome → Outcome
  | record r => record { r with content := r.content.veiled }
  | o => o

namespace Session

/-- The same session, over a stream that is like the other one and a staging area that is a twin. -/
def Twin (s s' : Session) : Prop :=
  ∃ source staging, s.reader.source.Like source ∧ s.staging.Twin staging ∧
    s' = { s with reader := { s.reader with source }, staging }

variable {s s' : Session}

theorem Twin.reader (ht : s.Twin s') :
    s'.reader = { s.reader with source := s'.reader.source } := by
  obtain ⟨source, staging, -, -, rfl⟩ := ht
  rfl

theorem Twin.source (ht : s.Twin s') : s.reader.source.Like s'.reader.source := by
  obtain ⟨source, staging, hsource, -, rfl⟩ := ht
  exact hsource

theorem Twin.staging (ht : s.Twin s') : s.staging.Twin s'.staging := by
  obtain ⟨source, staging, -, hstaging, rfl⟩ := ht
  exact hstaging

theorem Twin.report (ht : s.Twin s') (e : Event) : (s.report e).Twin (s'.report e) := by
  obtain ⟨source, staging, hsource, hstaging, rfl⟩ := ht
  exact ⟨source, _, hsource, hstaging.report e, rfl⟩

theorem Twin.stop (ht : s.Twin s') (stage : Stage) (e : FrameError) :
    (s.stop stage e).Twin (s'.stop stage e) := by
  obtain ⟨source, staging, hsource, hstaging, rfl⟩ := ht
  exact ⟨source, staging, hsource, hstaging, rfl⟩

theorem Twin.enter (ht : s.Twin s') (stage : Stage) : (s.enter stage).Twin (s'.enter stage) := by
  obtain ⟨source, staging, hsource, hstaging, rfl⟩ := ht
  exact ⟨source, staging, hsource, hstaging, rfl⟩

theorem Twin.beginFrame (ht : s.Twin s') : s.beginFrame.Twin s'.beginFrame := by
  obtain ⟨source, staging, hsource, hstaging, rfl⟩ := ht
  exact ⟨source, staging, hsource, hstaging, rfl⟩

theorem Twin.count (ht : s.Twin s') (n : UInt64) : (s.count n).Twin (s'.count n) := by
  obtain ⟨source, staging, hsource, hstaging, rfl⟩ := ht
  exact ⟨source, _, hsource, hstaging.report? _, rfl⟩

theorem Twin.ended (ht : s.Twin s') (expected got : Nat) :
    ∃ r t t', s.ended expected got = (r, t) ∧ s'.ended expected got = (r, t') ∧ t.Twin t' := by
  obtain ⟨source, staging, hsource, hstaging, rfl⟩ := ht
  unfold Session.ended
  simp only
  split
  · exact ⟨_, _, _, rfl, rfl, source, _, hsource, hstaging.report _, rfl⟩
  · exact ⟨_, _, _, rfl, rfl, source, _, hsource, hstaging.report _, rfl⟩

/-- **Taking a field** on both sides. -/
theorem Twin.readField (ht : s.Twin s') (n : Nat) :
    ∃ r t t', s.readField n = (r, t) ∧ s'.readField n = (r, t') ∧ t.Twin t' := by
  obtain ⟨source, staging, hsource, hstaging, rfl⟩ := ht
  obtain ⟨hresult, hlike⟩ := hsource.readUpTo n
  unfold Session.readField
  rcases hfirst : readUpTo Source.read n s.reader.source with ⟨r, rest⟩
  rcases hsecond : readUpTo Source.read n source with ⟨r', rest'⟩
  rw [hfirst, hsecond] at hresult hlike
  obtain rfl : r' = r := hresult
  simp only
  cases r' with
  | error e => exact ⟨_, _, _, rfl, rfl, rest', _, hlike, hstaging.report _, rfl⟩
  | ok bytes =>
    have htaken : ({ s with reader := { s.reader with source := rest } } : Session).Twin
        { s with reader := { s.reader with source := rest' }, staging } :=
      ⟨rest', staging, hlike, hstaging, rfl⟩
    simp only
    split
    · exact (htaken.count _).ended _ _
    · exact ⟨_, _, _, rfl, rfl, htaken.count _⟩

theorem Twin.oversized (ht : s.Twin s') (length : UInt64) :
    (s.oversized length).Twin (s'.oversized length) := by
  obtain ⟨source, staging, hsource, hstaging, rfl⟩ := ht
  exact ⟨source, _, hsource, hstaging.report _, rfl⟩

/-- **Taking a header** on both sides, field by field. -/
theorem Twin.readHeader (ht : s.Twin s') :
    ∃ r t t', s.readHeader = (r, t) ∧ s'.readHeader = (r, t') ∧ t.Twin t' := by
  unfold Session.readHeader
  obtain ⟨r, t, t', hfirst, hsecond, ht⟩ := ht.beginFrame.readField lengthWidth
  rw [hfirst, hsecond]
  cases r with
  | error e => exact ⟨_, t, t', rfl, rfl, ht⟩
  | ok field =>
    have hmax : t'.reader.maxMetadata = t.reader.maxMetadata := by rw [ht.reader]
    simp only [hmax]
    split
    · exact ⟨_, _, _, rfl, rfl, ht.oversized _⟩
    split
    · exact ⟨_, _, _, rfl, rfl, ht.enter .metadata⟩
    · obtain ⟨r, u, u', hfirst, hsecond, hu⟩ :=
        (ht.enter .metadata).readField (decodeLength field).toNat
      rw [hfirst, hsecond]
      cases r with
      | error e => exact ⟨_, u, u', rfl, rfl, hu⟩
      | ok metadata =>
        obtain ⟨r, v, v', hfirst, hsecond, hv⟩ := (hu.enter .contentLength).readField lengthWidth
        simp only [hfirst, hsecond]
        cases r with
        | error e => exact ⟨_, v, v', rfl, rfl, hv⟩
        | ok field => exact ⟨_, _, _, rfl, rfl, hv.enter .content⟩

theorem Twin.received (ht : s.Twin s') {d d' : Staging.Delivery} (hd : d.Alike d') :
    (s.received d).Twin (s'.received d') := by
  obtain ⟨source, staging, -, -, rfl⟩ := ht
  unfold Session.received
  rw [hd.consumed]
  exact ⟨d'.source, _, hd.source, hd.staging.report? _, rfl⟩

theorem Twin.complete (ht : s.Twin s') (h : Header) {c c' : Content} (hc : c'.veiled = c.veiled) :
    (Outcome.record (s'.complete h c').1).veiled = (Outcome.record (s.complete h c).1).veiled ∧
      (s.complete h c).2.Twin (s'.complete h c').2 := by
  obtain ⟨source, staging, hsource, hstaging, rfl⟩ := ht
  refine ⟨?_, source, staging, hsource, hstaging, rfl⟩
  simp only [Outcome.veiled, Session.complete, hc]

/-- The next temporary file would be made alike on both sides. -/
def DrawsAlike (s s' : Session) : Prop :=
  Disk.MadeAlike (Spill.stem s.staging.tempDir)
    (s.staging.host.disk.createTemp (Spill.stem s.staging.tempDir))
    (s'.staging.host.disk.createTemp (Spill.stem s.staging.tempDir))

/-- **Taking the content of a frame** on both sides. -/
theorem Twin.readContent (ht : s.Twin s') (hdraws : s.DrawsAlike s') (h : Header) :
    (s'.readContent h).1.veiled = (s.readContent h).1.veiled ∧
      (s.readContent h).2.Twin (s'.readContent h).2 := by
  have halike := Staging.materialize_alike ht.staging ht.source hdraws h.rawSize
  unfold Session.readContent
  generalize s.staging.materialize s.reader.source h.rawSize = step at halike ⊢
  generalize s'.staging.materialize s'.reader.source h.rawSize = step' at halike ⊢
  cases halike with
  | waits => exact ⟨rfl, ht⟩
  | overflows => exact ⟨rfl, ht⟩
  | @delivers d d' hd =>
    have hreceived := ht.received hd
    rcases result_cases hd.content with ⟨e, he, he'⟩ | ⟨c, c', hc, hc', hsame⟩
    · have hstart : (s'.received d').reader.frameStart = (s.received d).reader.frameStart := by
        rw [hreceived.reader]
      simp only [he, he', hd.consumed, hstart]
      exact ⟨trivial, (hreceived.report _).stop _ _⟩
    · simp only [hc, hc']
      exact hreceived.complete h hsame

theorem noted_readHeader (s : Session) : s.staging.Noted s.readHeader.2.staging := by
  rcases readHeader_cases (s := s) (l := ⟨s.reader.maxMetadata, 0, 0, Nat.zero_le _⟩) rfl with
    ⟨t, hheader, hmoved, -, -⟩ | ⟨t, n, m, hheader, hmoved, -⟩
  · rw [hheader]
    exact hmoved.staging
  · rw [hheader]
    exact hmoved.staging

/-- **Taking the next frame** on both sides. -/
theorem Twin.next (ht : s.Twin s') (hdraws : s.DrawsAlike s') :
    s'.next.1.veiled = s.next.1.veiled ∧ s.next.2.Twin s'.next.2 := by
  have hstage : s'.reader.stage = s.reader.stage := by rw [ht.reader]
  have hlast : s'.reader.lastError = s.reader.lastError := by rw [ht.reader]
  have hnoted := s.noted_readHeader
  have hnoted' := s'.noted_readHeader
  obtain ⟨r, t, t', hfirst, hsecond, hheader⟩ := ht.readHeader
  rw [hfirst] at hnoted
  rw [hsecond] at hnoted'
  unfold Session.next
  rw [hstage, hlast, hfirst, hsecond]
  split
  · exact ⟨rfl, ht⟩
  · cases r with
    | error e => exact ⟨rfl, hheader⟩
    | ok h =>
      refine hheader.readContent ?_ h
      obtain ⟨log, hstaging⟩ := hnoted
      obtain ⟨log', hstaging'⟩ := hnoted'
      rw [DrawsAlike, hstaging, hstaging']
      exact hdraws

/-! ## 2. What a call leaves on the host -/

variable {base : Host} {files : List SpillFile}

/-- After a call the temporary files belong to the contents there were and to that of a record. -/
def Stocks (base : Host) (files : List SpillFile) : Outcome × Session → Prop
  | (.record r, t) => t.staging.Stocked base (r.content.file :: files)
  | (.overflows, _) => True
  | (_, t) => t.staging.Stocked base files

theorem stocks_readContent (hs : s.staging.Stocked base files) (h : Header) :
    Stocks base files (s.readContent h) := by
  cases hd : s.staging.materialize s.reader.source h.rawSize with
  | waits =>
    simp only [Session.readContent, hd]
    exact hs
  | overflows =>
    simp only [Session.readContent, hd]
    trivial
  | delivers d =>
    obtain ⟨t, hreceived, ⟨c, hc, -, hread⟩ | ⟨e, he, -, hread⟩⟩ := readContent_of_delivers hd
    · have hstocked := ((Staging.Delivers.bySize hd).stocked hs).noted hreceived.staging
      rw [Staging.Delivery.into, hc] at hstocked
      rw [hread]
      exact hstocked
    · have hstocked := ((Staging.Delivers.bySize hd).stocked hs).noted hreceived.staging
      rw [Staging.Delivery.into, he] at hstocked
      rw [hread]
      exact hstocked

theorem stocks_next (hs : s.staging.Stocked base files) : Stocks base files s.next := by
  have hheader := hs.noted s.noted_readHeader
  unfold Session.next
  split
  · exact hs
  · rcases hread : s.readHeader with ⟨r, t⟩
    rw [hread] at hheader
    cases r with
    | error exit => cases exit <;> exact hheader
    | ok h => exact stocks_readContent hheader h

end Session

/-! ## 3. What is seen of a shelf -/

/-- What can be seen of a reader, of its staging area and of the records that were kept: of each the
number of its frame and the bytes read from it, its content, and the bytes that are left. -/
structure View where
  stage : Stage
  lastError : FrameError
  cursor : UInt64
  frameStart : UInt64
  records : UInt64
  progress : Progress
  pool : Pool
  buffered : UInt64
  spilled : UInt64
  log : Log
  waiting : Option Header
  returned : Nat
  thrown : Nat
  berths : List (Option (Nat × Bytes) × Content × Except ReadFault Bytes)

namespace Shelf

/-- A shelf with empty places, and a reader. -/
def opened (session : Session) (places : Nat) : Shelf :=
  ⟨session, none, List.replicate places .empty, 0, 0⟩

/-- The file system goes on with other names. -/
def redraw (s : Shelf) (drawn : Nat) : Shelf :=
  let host := s.session.staging.host
  { s with
    session := { s.session with
      staging := { s.session.staging with
        host := { host with disk := { host.disk with drawn } } } } }

/-- What a call for a record comes to; other deeds are no calls. -/
def answer (s : Shelf) : Deed → Option Outcome
  | .next => if s.waiting = none then some s.session.next.1 else none
  | .resume => s.waiting.map fun h => (s.session.readContent h).1
  | _ => none

/-- What is seen of a shelf, with the endings of temporary names crossed out. -/
def view (s : Shelf) : View where
  stage := s.session.reader.stage
  lastError := s.session.reader.lastError
  cursor := s.session.reader.cursor
  frameStart := s.session.reader.frameStart
  records := s.session.reader.records
  progress := s.session.progress
  pool := s.session.staging.pool
  buffered := s.session.staging.buffered
  spilled := s.session.staging.spilled
  log := s.session.staging.host.log.veiled
  waiting := s.waiting
  returned := s.returned
  thrown := s.thrown
  berths := s.berths.map fun b =>
    (b.life, b.content.veiled, s.session.staging.remaining b.content)

/-- What the calls come to in a row of deeds, and what is seen after each.  Before a deed the file
system chooses the number from which it tries endings. -/
def transcript (s : Shelf) : List (Nat × Deed) → List (Option Outcome × Option View)
  | [] => []
  | (drawn, d) :: rest =>
    let after := (s.redraw drawn).next d
    (((s.redraw drawn).answer d).map Outcome.veiled, after.map view)
      :: after.elim [] fun s' => s'.transcript rest

/-! ## 4. Shelves side by side -/

/-- The temporary files on a shelf belong to the contents on it. -/
def Stocked (base : Host) (s : Shelf) : Prop :=
  s.session.staging.Stocked base (s.berths.map fun b => b.content.file)

end Shelf

/-- A place with the ending of a temporary name crossed out. -/
def Berth.veiled (b : Berth) : Berth := { b with content := b.content.veiled }

namespace Shelf

/-- The same shelf on both sides. -/
structure Twin (s s' : Shelf) : Prop where
  session : s.session.Twin s'.session
  waiting : s'.waiting = s.waiting
  returned : s'.returned = s.returned
  thrown : s'.thrown = s.thrown
  berths : s'.berths.map Berth.veiled = s.berths.map Berth.veiled

/-- The same shelf on both sides, and no temporary files that belong to nobody. -/
structure Abreast (base : Host) (s s' : Shelf) : Prop where
  twin : s.Twin s'
  first : s.Stocked base
  second : s'.Stocked base

variable {base : Host} {s s' t t' : Shelf} {d : Deed}

theorem Twin.place (h : s.Twin s') (i : Nat) :
    (s.berths[i]? = none ∧ s'.berths[i]? = none) ∨
      ∃ b b', s.berths[i]? = some b ∧ s'.berths[i]? = some b' ∧ b'.life = b.life ∧
        b'.content.veiled = b.content.veiled := by
  have hget : s'.berths[i]?.map Berth.veiled = s.berths[i]?.map Berth.veiled := by
    rw [← List.getElem?_map, ← List.getElem?_map, h.berths]
  cases hfirst : s.berths[i]? with
  | none =>
    rw [hfirst] at hget
    exact Or.inl ⟨rfl, Option.map_eq_none_iff.mp hget⟩
  | some b =>
    rw [hfirst] at hget
    obtain ⟨b', hsecond, hb⟩ := Option.map_eq_some_iff.mp hget
    exact Or.inr ⟨b, b', rfl, hsecond, (Berth.mk.inj hb).2, (Berth.mk.inj hb).1⟩

theorem Twin.view (h : s.Twin s') : s'.view = s.view := by
  have hberths : s'.berths.map (fun b =>
        (b.life, b.content.veiled, s'.session.staging.remaining b.content))
      = s.berths.map fun b =>
        (b.life, b.content.veiled, s.session.staging.remaining b.content) := by
    refine List.ext_getElem? fun i => ?_
    rw [List.getElem?_map, List.getElem?_map]
    rcases h.place i with ⟨hfirst, hsecond⟩ | ⟨b, b', hfirst, hsecond, hlife, hcontent⟩
    · rw [hfirst, hsecond]
      rfl
    · rw [hfirst, hsecond, Option.map_some, Option.map_some, hlife, hcontent,
        h.session.staging.remaining hcontent]
  obtain ⟨source, staging, -, ⟨host, hhost, rfl⟩, hsession⟩ := h.session
  unfold Shelf.view
  rw [hberths, h.waiting, h.returned, h.thrown, hsession]
  simp only [hhost.log]

theorem Twin.redraw (h : s.Twin s') (drawn drawn' : Nat) :
    (s.redraw drawn).Twin (s'.redraw drawn') := by
  obtain ⟨hsession, hwaiting, hreturned, hthrown, hberths⟩ := h
  obtain ⟨source, staging, hsource, ⟨host, hhost, rfl⟩, hsession⟩ := hsession
  refine ⟨⟨source, _, hsource, ⟨_, hhost.redraw drawn drawn', rfl⟩, ?_⟩, hwaiting, hreturned, hthrown,
    hberths⟩
  rw [Shelf.redraw, hsession]
  rfl

theorem Stocked.redraw (h : s.Stocked base) (drawn : Nat) : (s.redraw drawn).Stocked base :=
  Host.Stocked.of_parts h

theorem Abreast.redraw (h : Abreast base s s') (drawn drawn' : Nat) :
    Abreast base (s.redraw drawn) (s'.redraw drawn') :=
  ⟨h.twin.redraw drawn drawn', h.first.redraw drawn, h.second.redraw drawn'⟩

theorem Abreast.draws (h : Abreast base s s') : s.session.DrawsAlike s'.session := by
  obtain ⟨htwin, hfirst, hsecond⟩ := h
  obtain ⟨host, hhost, hstaging⟩ := htwin.session.staging
  have hdir : s'.session.staging.tempDir = s.session.staging.tempDir := by rw [hstaging]
  have hnodes : s'.session.staging.host.disk.nodes = s.session.staging.host.disk.nodes := by
    rw [hstaging]
    exact hhost.nodes
  have hfiles : (s'.berths.map fun b => b.content.file).map SpillFile.veiled
      = (s.berths.map fun b => b.content.file).map SpillFile.veiled := by
    have hveiled : ∀ berths : List Berth, (berths.map fun b => b.content.file).map SpillFile.veiled
        = (berths.map Berth.veiled).map fun b => b.content.file := by
      intro berths
      rw [List.map_map, List.map_map]
      exact List.map_congr_left fun b _ => (Content.file_veiled b.content).symm
    rw [hveiled, hveiled, htwin.berths]
  unfold Stocked Staging.Stocked at hsecond
  rw [hdir] at hsecond
  exact Host.Stocked.madeAlike hfirst hsecond hfiles hnodes

/-! ## 5. One deed -/

theorem Stocked.settle {called : Outcome × Session}
    (h : Session.Stocks base (s.berths.map fun b => b.content.file) called)
    (hstep : s.settle called = some t) : t.Stocked base := by
  obtain ⟨o, u⟩ := called
  cases o with
  | waits header =>
    obtain rfl := Option.some.inj hstep
    exact h
  | overflows => cases hstep
  | failed e =>
    obtain rfl := Option.some.inj hstep
    exact h
  | thrown =>
    obtain rfl := Option.some.inj hstep
    exact h
  | record r =>
    obtain rfl := Option.some.inj hstep
    unfold Stocked Staging.Stocked
    rw [List.map_append]
    exact Host.Stocked.perm h (List.perm_append_singleton _ _).symm

/-- **Every deed leaves the temporary files to the contents.** -/
theorem Stocked.next (h : s.Stocked base) (hstep : s.next d = some t) : t.Stocked base := by
  have hfile : ∀ {i : Nat} {b : Berth}, s.berths[i]? = some b →
      (s.berths.map fun b => b.content.file)[i]? = some b.content.file := by
    intro i b hi
    rw [List.getElem?_map, hi]
    rfl
  cases d with
  | next =>
    rw [Shelf.next] at hstep
    split at hstep
    · exact Stocked.settle (Session.stocks_next h) hstep
    · cases hstep
  | resume =>
    obtain ⟨header, -, hsettle⟩ := Option.bind_eq_some_iff.mp hstep
    exact Stocked.settle (Session.stocks_readContent h header) hsettle
  | read i n =>
    rw [Shelf.next] at hstep
    split at hstep
    · rename_i c k got hi
      obtain rfl := Option.some.inj hstep
      have hread := Host.Stocked.read h (hfile hi) s.session.staging.host.disk n
      unfold Stocked
      rw [List.map_set]
      unfold Staging.read
      rw [Content.read_file]
      exact hread
    · cases hstep
  | move target origin =>
    rw [Shelf.next] at hstep
    split at hstep
    · rename_i old b hold hb
      split at hstep
      · obtain rfl := Option.some.inj hstep
        exact h
      · rename_i hne
        obtain rfl := Option.some.inj hstep
        have hvacated := Staging.Stocked.release h (hfile hold) SpillFile.isHollow_empty
        obtain ⟨hlt, -⟩ := List.getElem?_eq_some_iff.mp (hfile hold)
        have hmoved := Host.Stocked.shift hvacated (List.getElem?_set_self hlt)
          SpillFile.isHollow_empty ((List.getElem?_set_ne hne).trans (hfile hb)) hne
        rw [List.set_set] at hmoved
        unfold Stocked
        rw [List.map_set, List.map_set]
        unfold Berth.afterMove
        rw [Content.file_afterMove]
        exact hmoved
    · cases hstep
  | drop i =>
    obtain ⟨b, hb, rfl⟩ := Option.map_eq_some_iff.mp hstep
    unfold Stocked
    rw [List.map_set]
    exact Staging.Stocked.release h (hfile hb) SpillFile.isHollow_empty

theorem Twin.settle (h : s.Twin s') {called called' : Outcome × Session}
    (houtcome : called'.1.veiled = called.1.veiled) (hsession : called.2.Twin called'.2) :
    Option.Rel Twin (s.settle called) (s'.settle called') := by
  obtain ⟨o, u⟩ := called
  obtain ⟨o', u'⟩ := called'
  cases o <;> cases o'
  case waits.waits header header' =>
    obtain rfl := Outcome.waits.inj houtcome
    exact .some ⟨hsession, rfl, h.returned, h.thrown, h.berths⟩
  case overflows.overflows => exact .none
  case failed.failed e e' => exact .some ⟨hsession, rfl, h.returned, h.thrown, h.berths⟩
  case thrown.thrown =>
    exact .some ⟨hsession, rfl, h.returned, congrArg (· + 1) h.thrown, h.berths⟩
  case record.record r r' =>
    have hcontent : r'.content.veiled = r.content.veiled :=
      congrArg Record.content (Outcome.record.inj houtcome)
    refine .some ⟨hsession, rfl, congrArg (· + 1) h.returned, h.thrown, ?_⟩
    rw [List.map_append, List.map_append, h.berths, h.returned]
    simp only [List.map_cons, List.map_nil, Berth.veiled, hcontent]
  all_goals cases houtcome

theorem Abreast.release (h : Abreast base s s') {i : Nat} {b b' : Berth}
    (hb : s.berths[i]? = some b) (hb' : s'.berths[i]? = some b')
    (hcontent : b'.content.veiled = b.content.veiled) :
    (s.release b.content).session.Twin (s'.release b'.content).session := by
  have hmem : b.content.file ∈ s.berths.map fun b => b.content.file :=
    List.mem_map.mpr ⟨b, List.mem_of_getElem? hb, rfl⟩
  have hmem' : b'.content.file ∈ s'.berths.map fun b => b.content.file :=
    List.mem_map.mpr ⟨b', List.mem_of_getElem? hb', rfl⟩
  have hreleased := h.twin.session.staging.release hcontent h.first.owned h.second.owned hmem hmem'
  obtain ⟨source, staging, hsource, -, hsession⟩ := h.twin.session
  refine ⟨source, _, hsource, hreleased, ?_⟩
  simp only [Shelf.release, hsession]

/-- **A deed on both sides**: it is possible on both or on none, and leads to the same. -/
theorem Abreast.twin_next (h : Abreast base s s') (d : Deed) :
    Option.Rel Twin (s.next d) (s'.next d) := by
  cases d with
  | next =>
    rw [Shelf.next, Shelf.next, h.twin.waiting]
    split
    · obtain ⟨houtcome, hsession⟩ := h.twin.session.next h.draws
      exact h.twin.settle houtcome hsession
    · exact .none
  | resume =>
    rw [Shelf.next, Shelf.next, h.twin.waiting]
    cases s.waiting with
    | none => exact .none
    | some header =>
      obtain ⟨houtcome, hsession⟩ := h.twin.session.readContent h.draws header
      exact h.twin.settle houtcome hsession
  | read i n =>
    rw [Shelf.next, Shelf.next]
    rcases h.twin.place i with ⟨hfirst, hsecond⟩ | ⟨b, b', hfirst, hsecond, hlife, hcontent⟩
    · rw [hfirst, hsecond]
      exact .none
    · obtain ⟨c, life⟩ := b
      obtain ⟨c', life'⟩ := b'
      obtain rfl : life' = life := hlife
      rw [hfirst, hsecond]
      cases life' with
      | none => exact .none
      | some life =>
        obtain ⟨hgot, hleft⟩ := h.twin.session.staging.read hcontent n
        refine .some ⟨h.twin.session, h.twin.waiting, h.twin.returned, h.twin.thrown, ?_⟩
        rw [List.map_set, List.map_set, h.twin.berths]
        simp only [Berth.veiled, hgot, hleft]
  | move target origin =>
    rw [Shelf.next, Shelf.next]
    rcases h.twin.place target with ⟨hfirst, hsecond⟩ | ⟨old, old', hfirst, hsecond, -, hcontent⟩
    · rw [hfirst, hsecond]
      exact .none
    rcases h.twin.place origin with ⟨horigin, horigin'⟩ | ⟨b, b', horigin, horigin', hlife, hb⟩
    · rw [hfirst, hsecond, horigin, horigin']
      exact .none
    rw [hfirst, hsecond, horigin, horigin']
    simp only
    split
    · exact .some h.twin
    · refine .some ⟨h.release hfirst hsecond hcontent, h.twin.waiting, h.twin.returned, h.twin.thrown, ?_⟩
      simp only [List.map_set, h.twin.berths, Berth.veiled, Berth.afterMove, hb, hlife,
        Content.veiled_afterMove hb]
  | drop i =>
    rw [Shelf.next, Shelf.next]
    rcases h.twin.place i with ⟨hfirst, hsecond⟩ | ⟨b, b', hfirst, hsecond, -, hcontent⟩
    · rw [hfirst, hsecond]
      exact .none
    · rw [hfirst, hsecond]
      refine .some ⟨h.release hfirst hsecond hcontent, h.twin.waiting, h.twin.returned, h.twin.thrown, ?_⟩
      rw [List.map_set, List.map_set, h.twin.berths]

theorem Abreast.answer (h : Abreast base s s') (d : Deed) :
    (s'.answer d).map Outcome.veiled = (s.answer d).map Outcome.veiled := by
  cases d with
  | next =>
    rw [Shelf.answer, Shelf.answer, h.twin.waiting]
    split
    · exact congrArg some (h.twin.session.next h.draws).1
    · rfl
  | resume =>
    rw [Shelf.answer, Shelf.answer, h.twin.waiting]
    cases s.waiting with
    | none => rfl
    | some header => exact congrArg some (h.twin.session.readContent h.draws header).1
  | read i n => rfl
  | move target origin => rfl
  | drop i => rfl

/-- **Every deed keeps two shelves abreast.** -/
theorem Abreast.next (h : Abreast base s s') (d : Deed) :
    Option.Rel (Abreast base) (s.next d) (s'.next d) := by
  have hfirst : ∀ t, s.next d = some t → t.Stocked base := fun t => h.first.next
  have hsecond : ∀ t, s'.next d = some t → t.Stocked base := fun t => h.second.next
  have htwin := h.twin_next d
  generalize s.next d = after at htwin hfirst ⊢
  generalize s'.next d = after' at htwin hsecond ⊢
  cases htwin with
  | none => exact .none
  | @some t t' ht => exact .some ⟨ht, hfirst t rfl, hsecond t' rfl⟩

/-! ## 6. Whole runs -/

/-- **A row of deeds on both sides.**  The induction is on the deeds. -/
theorem Abreast.transcript (h : Abreast base s s') {run run' : List (Nat × Deed)}
    (hdeeds : run'.map Prod.snd = run.map Prod.snd) : s'.transcript run' = s.transcript run := by
  induction run generalizing s s' run' with
  | nil =>
    obtain rfl : run' = [] := List.map_eq_nil_iff.mp hdeeds
    rfl
  | cons entry rest ih =>
    obtain ⟨entry', rest', rfl, hdeed, hrest⟩ := List.map_eq_cons_iff.mp hdeeds
    obtain ⟨drawn, d⟩ := entry
    obtain ⟨drawn', d'⟩ := entry'
    obtain rfl : d' = d := hdeed
    have hredrawn := h.redraw drawn drawn'
    have hnext := hredrawn.next d'
    unfold Shelf.transcript
    simp only [hredrawn.answer d']
    generalize (s.redraw drawn).next d' = after at hnext ⊢
    generalize (s'.redraw drawn').next d' = after' at hnext ⊢
    cases hnext with
    | none => rfl
    | @some t t' ht =>
      simp only [Option.map_some, Option.elim_some, ht.twin.view, ih ht hrest]

end Shelf

end Intake.Frame
