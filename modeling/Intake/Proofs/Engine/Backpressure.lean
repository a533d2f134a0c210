/-
# What is under way at once

Nothing tells the reading side of an `IngestEngine` to slow down but what it waits for: room in the
queue, and a buffer for the next content.  That is enough.  The records there are have their places
(`Manned`): one can be with the reading side, as many in the queue as there are workers, and one
with each worker; the workers of the call before have left before there are others.  So with `w`
workers there are **never more than `2 w + 1` records at once**, and as whatever the staging area
holds is the content of one of them, no more temporary files, and no more buffers taken
(`bounded_in_flight`).

This is said of every moment of a call.  While a content is put into the staging area there is a
buffer or a file already and no record yet (`Moment`); it counts as one that is with the reading
side.
-/
import Mathlib
import Intake.Proofs.Engine.Onward

namespace Intake

/-! ## 1. What the staging area can hold -/

/-- **A staging area holds no more than there are contents**: every temporary file that was not there
at first, and every buffer that is taken, is that of one of them. -/
theorem Staging.Houses.bounds {base : Host} {s : Staging} {live : List Content}
    (h : s.Houses base live) :
    (∃ temps : List Temporary,
      s.host.disk.files = base.disk.files ++ temps.map Temporary.entry ∧
        temps.length ≤ live.length) ∧
      s.pool.outstanding.toNat + s.pool.available.toNat = s.pool.capacity.toNat ∧
      s.pool.outstanding.toNat ≤ live.length := by
  obtain ⟨free, hlends, hfree⟩ := h.buffers
  obtain ⟨temps, hkeep, htemps⟩ := h.files
  have hcounted := hlends.counted
  have hlen := hfree.length_eq
  rw [List.length_append, List.length_range] at hlen
  refine ⟨⟨temps, hkeep.files, ?_⟩, ?_, ?_⟩
  · have hentries := htemps.length_eq
    rw [List.length_map] at hentries
    exact hentries ▸ List.length_filterMap_le _ _
  · rw [hlends.available_eq]
    exact hcounted
  · have hbuffers := List.length_filterMap_le Content.buffer? live
    omega

/-- The host with a new temporary file that something was done to. -/
def Spill.begun (h : Host) (t : Disk.TempFile) (f : FileNode) : Host :=
  { made h t with disk := t.disk.setContent t.node f }

/-- A temporary file that is there, whatever was written to it, is one content more. -/
theorem Staging.Houses.begun {base : Host} {s : Staging} {live : List Content}
    (h : s.Houses base live) {directory : Bytes} {t : Disk.TempFile}
    (ht : s.host.disk.createTemp (Spill.stem directory) = .ok t) (f : FileNode) :
    ∃ c, ({ s with host := Spill.begun s.host t f } : Staging).Houses base (c :: live) := by
  obtain ⟨temps, hkeep, htemps⟩ := h.files
  obtain ⟨place, hmade, -, -⟩ := Spill.keeps_made hkeep ht
  have hnew : base.disk.nodes.length ≤ t.node :=
    (hmade.numbered ⟨t.path, place, t.node⟩ (by simp)).1
  have hbegun : base.Keeps (Spill.begun s.host t f) (temps ++ [⟨t.path, place, t.node⟩]) :=
    hmade.setContent f hnew
  refine ⟨.spilled ⟨t.path, some (.file t.node 0), 0⟩, h.buffers,
    ⟨temps ++ [⟨t.path, place, t.node⟩], hbegun, ?_⟩, fun c hc => ?_⟩
  · have hcons : (Content.spilled ⟨t.path, some (.file t.node 0), 0⟩ :: live).filterMap
        Content.file? = (t.path, t.node) :: live.filterMap Content.file? := rfl
    rw [hcons, List.map_append]
    exact (List.perm_append_singleton _ _).trans (htemps.cons _)
  · rcases List.mem_cons.mp hc with rfl | hc
    · exact Or.inr rfl
    · exact h.held c hc

namespace Engine

variable {host : Host} {o : Options} {e : Engine} {c : Crew Record} {queued : List Record}

/-! ## 2. Where records are -/

/-- How many records are with the reading side: one that it brings to the crew, or one whose content
it puts into the staging area. -/
def Stage.inHand : Stage → Nat
  | .filling _ => 1
  | s => s.carried.length

/-- How many records are with the reading side. -/
def inHand (e : Engine) : Nat := (e.ingestion.map fun i => i.stage.inHand).getD 0

/-- The records in the queue. -/
def inQueue (e : Engine) : List Record := (e.crew.map fun c => c.queue.toList).getD []

/-- The workers of the crew. -/
def workers (e : Engine) : List (Worker Record) := (e.crew.map Crew.workers).getD []

/-- The records that workers have. -/
def withWorkers (e : Engine) : List Record := e.workers.filterMap Worker.job?

/-- All records that there are. -/
def alive (e : Engine) : Nat := e.inHand + e.inQueue.length + e.withWorkers.length

/-- A staging area that an engine comes by in a state or on the way to the next: while a content is
put into it, a buffer may be taken and filled in part, or a temporary file made and written in part.
-/
inductive Moment (e : Engine) : Staging → Prop where
  | between : Moment e e.staging
  | buffer {i : Ingestion} {header : Frame.Header} {b : Nat} {pool : Pool} (data : Bytes) :
      e.ingestion = some i → i.stage = .filling header →
      e.staging.shouldSpill header.rawSize = false → e.staging.pool.acquire = .gives (b, pool) →
      Moment e { e.staging with pool := pool.store b data }
  | file {i : Ingestion} {header : Frame.Header} {t : Disk.TempFile} (f : FileNode) :
      e.ingestion = some i → i.stage = .filling header →
      e.staging.shouldSpill header.rawSize = true →
      e.staging.host.disk.createTemp (Spill.stem e.staging.tempDir) = .ok t →
      Moment e { e.staging with host := Spill.begun e.staging.host t f }

theorem Stage.length_carried_le (s : Stage) : s.carried.length ≤ s.inHand := by
  cases s <;> simp [Stage.inHand, Stage.carried]

theorem Stage.inHand_le (s : Stage) : s.inHand ≤ 1 := by
  cases s with
  | visiting v => exact Option.length_toList_le
  | joining | reading | leaving => exact Nat.zero_le 1
  | filling header => exact Nat.le_refl 1

theorem length_carriedBy_le (e : Engine) : (carriedBy e.ingestion).length ≤ e.inHand := by
  unfold inHand
  cases e.ingestion with
  | none => exact Nat.le_refl 0
  | some i => exact i.stage.length_carried_le

theorem inHand_le (e : Engine) : e.inHand ≤ 1 := by
  unfold inHand
  cases e.ingestion with
  | none => exact Nat.zero_le 1
  | some i => exact i.stage.inHand_le

/-- While a content is put into the staging area the reading side brings nothing. -/
theorem inHand_of_filling {i : Ingestion} {header : Frame.Header} (hi : e.ingestion = some i)
    (hstage : i.stage = .filling header) : (carriedBy e.ingestion).length + 1 = e.inHand := by
  simp [inHand, hi, hstage, carriedBy, Stage.carried, Stage.inHand]

/-! ## 3. How many there can be -/

/-- **One record with each worker** at most, and as many in the queue as there are workers. -/
theorem Manned.places (h : Manned host o e c queued) :
    e.inQueue = queued ∧ e.withWorkers = c.held ∧
      e.inQueue.length ≤ o.workerCount.toNat ∧
      e.withWorkers.length ≤ e.workers.length ∧ e.workers.length ≤ o.workerCount.toNat := by
  have hqueue : e.inQueue = queued := by
    rw [inQueue, h.crew]
    exact Ring.Holds.toList_eq h.holds
  have hworkers : e.workers = c.workers := by rw [workers, h.crew]; rfl
  refine ⟨hqueue, by rw [withWorkers, hworkers]; rfl, ?_, List.length_filterMap_le _ _, ?_⟩
  · rw [hqueue]
    exact h.capacity ▸ h.holds.length_le
  · rw [hworkers]
    by_cases hsome : c.workers = []
    · rw [hsome]
      exact Nat.zero_le _
    · obtain ⟨due, -, hstaffed⟩ := h.fits.staffed hsome
      have hhired := hstaffed.hired
      rw [h.workerCount] at hhired
      omega

/-- What the staging area houses at any moment is what belongs to the records that there are. -/
theorem Moment.houses {base : Host} {s : Staging} {others : List Content} (hs : e.Moment s)
    (h : e.staging.Houses base (others ++ (carriedBy e.ingestion).map Record.content)) :
    e.staging.Alike s ∧ ∃ live, s.Houses base live ∧ live.length ≤ others.length + e.inHand := by
  cases hs with
  | between =>
    refine ⟨.refl _, _, h, ?_⟩
    rw [List.length_append, List.length_map]
    exact Nat.add_le_add_left e.length_carriedBy_le _
  | buffer data hi hstage _ hacq =>
    obtain ⟨hstored, halike, -⟩ := h.stored hacq data 0
    refine ⟨halike, _, hstored, ?_⟩
    rw [List.length_cons, List.length_append, List.length_map, ← inHand_of_filling hi hstage]
    exact Nat.le_refl _
  | file f hi hstage _ ht =>
    obtain ⟨content, hhouses⟩ := h.begun ht f
    refine ⟨⟨.refl _, rfl, rfl⟩, _, hhouses, ?_⟩
    rw [List.length_cons, List.length_append, List.length_map, ← inHand_of_filling hi hstage]
    exact Nat.le_refl _

/-- What an engine in order is made of at any moment. -/
structure InFlight (host : Host) (o : Options) (e : Engine) (s : Staging) : Prop where
  alike : (ofOptions host o).staging.Alike s
  /-- Whatever the staging area holds belongs to a record that there is. -/
  houses : ∃ live, s.Houses (ofOptions host o).staging.host live ∧ live.length ≤ e.alive
  queue : e.inQueue.length ≤ o.workerCount.toNat
  held : e.withWorkers.length ≤ e.workers.length
  hired : e.workers.length ≤ o.workerCount.toNat

/-- Without a crew there are no records. -/
theorem Unmanned.inFlight (h : Unmanned host o e) {s : Staging} (hs : e.Moment s) :
    InFlight host o e s := by
  have hcarried : (carriedBy e.ingestion).map Record.content = [] := by
    cases hi : e.ingestion with
    | none => rfl
    | some i => rw [carriedBy, h.joining i hi]; rfl
  have hhouses : e.staging.Houses (ofOptions host o).staging.host
      ([] ++ (carriedBy e.ingestion).map Record.content) := by
    rw [List.nil_append, hcarried]
    exact h.houses
  obtain ⟨halike, live, hlive, hlen⟩ := hs.houses hhouses
  have hqueue : e.inQueue = [] := by simp [inQueue, h.crew]
  have hworkers : e.workers = [] := by simp [workers, h.crew]
  refine ⟨h.alike.trans halike, ⟨live, hlive, hlen.trans ?_⟩, ?_, ?_, ?_⟩
  · rw [alive, List.length_nil]
    omega
  · rw [hqueue]
    exact Nat.zero_le _
  · exact List.length_filterMap_le _ _
  · rw [hworkers]
    exact Nat.zero_le _

/-- **With a crew**, every record is in its place. -/
theorem Manned.inFlight (h : Manned host o e c queued) {s : Staging} (hs : e.Moment s) :
    InFlight host o e s := by
  obtain ⟨hqueue, hheld, hqueued, hone, hworkers⟩ := h.places
  have hhouses := h.houses
  rw [← List.append_assoc, ← List.append_assoc, List.map_append] at hhouses
  obtain ⟨halike, live, hlive, hlen⟩ := hs.houses hhouses
  refine ⟨h.alike.trans halike, ⟨live, hlive, hlen.trans ?_⟩, hqueued, hone, hworkers⟩
  rw [alive, hqueue, hheld, Crew.length_held]
  simp only [List.length_map, List.length_append]
  omega

theorem InFlight.alive_le {s : Staging} (h : InFlight host o e s) :
    e.alive ≤ 2 * o.workerCount.toNat + 1 := by
  have hhand := e.inHand_le
  have hqueue := h.queue
  have hheld := h.held.trans h.hired
  unfold alive
  omega

theorem Service.inFlight (h : Service host o e) (hfew : FewWorkers o) {s : Staging}
    (hs : e.Moment s) : InFlight host o e s := by
  obtain ⟨-, horderly⟩ := h.orderly hfew
  rcases horderly with h | ⟨c, queued, h⟩
  · exact h.inFlight hs
  · exact h.inFlight hs

/-- **Backpressure bounds what is under way.**  Take an engine with `w` workers, and any moment of any
of its calls, also behind a call that did not wait for its workers.  At most one record is with the
reading side, at most `w` are in the queue, and each of at most `w` workers has one at most, which
makes `2 w + 1` together.  There are no more temporary files on the disk than there are records,
besides what was there at first; and no more of the `w + 2` buffers are taken.

Each record is with the reading side, in the queue or with a worker, and each of these places is
bounded by itself (`InFlight`). Files and buffers belong to contents of records, so they are no more
than the records. -/
theorem bounded_in_flight (hfew : FewWorkers o) (h : Service host o e) {s : Staging}
    (hs : e.Moment s) :
    e.inHand ≤ 1 ∧ e.inQueue.length ≤ o.workerCount.toNat ∧
      e.withWorkers.length ≤ e.workers.length ∧ e.workers.length ≤ o.workerCount.toNat ∧
      e.alive ≤ 2 * o.workerCount.toNat + 1 ∧
      (∃ temps : List Temporary,
        s.host.disk.files = host.disk.files ++ temps.map Temporary.entry ∧
          temps.length ≤ e.alive) ∧
      s.pool.outstanding.toNat + s.pool.available.toNat = o.workerCount.toNat + 2 ∧
      s.pool.outstanding.toNat ≤ e.alive ∧
      s.pool.outstanding.toNat ≤ min (o.workerCount.toNat + 2) (2 * o.workerCount.toNat + 1) := by
  have hflight := h.inFlight hfew hs
  obtain ⟨live, hhouses, hlive⟩ := hflight.houses
  obtain ⟨⟨temps, hfiles, htemps⟩, hcounted, hbuffers⟩ := hhouses.bounds
  have halive := hflight.alive_le
  rw [hflight.alike.pool.capacity, hfew.capacity] at hcounted
  refine ⟨e.inHand_le, hflight.queue, hflight.held, hflight.hired, halive,
    ⟨temps, hfiles, htemps.trans hlive⟩, hcounted, hbuffers.trans hlive, le_min ?_ ?_⟩
  · omega
  · exact (hbuffers.trans hlive).trans halive

/-- Five frames that go to files. -/
def fiveLargeFrames : Source :=
  .ofBytes (Frame.encodeAll (List.replicate 5 ([], [1, 2, 3, 4]))) 0

/-- With two workers the bound is reached: two records are with the workers and two in the queue when
the file for the fifth is there. -/
theorem bounded_in_flight_crowded :
    ∃ e s, Service .empty twoWorkers e ∧ e.Moment s ∧ s.host.disk.files.length = 5 ∧
      e.inHand = 1 ∧ e.inQueue.length = 2 ∧ e.withWorkers.length = 2 ∧
      e.alive ≤ 2 * twoWorkers.workerCount.toNat + 1 ∧
      s.pool.outstanding.toNat ≤ min 4 5 := by
  have hrun : (((ofOptions .empty twoWorkers).next (.ingest fiveLargeFrames)).bind fun e₁ =>
      e₁.follow crowdedRun).any (fun e => e.ingestion.map Ingestion.stage == some (.filling ⟨[], 4⟩)
        && e.staging.shouldSpill 4 && e.inQueue.length == 2 && e.withWorkers.length == 2
        && (e.staging.host.disk.createTemp (Spill.stem e.staging.tempDir)).toOption.any
          fun t => t.disk.files.length == 5) = true := by decide +kernel
  obtain ⟨e, hrun, hcrowded⟩ := (Option.any_eq_true _ _).mp hrun
  obtain ⟨e₁, hbegin, hfollow⟩ := Option.bind_eq_some_iff.mp hrun
  simp only [Bool.and_eq_true, beq_iff_eq, Option.any_eq_true, Option.map_eq_some_iff] at hcrowded
  obtain ⟨⟨⟨⟨⟨i, hi, hstage⟩, hspill⟩, hqueue⟩, hworkers⟩, t, ht, hfiles⟩ := hcrowded
  have hmade : Service .empty twoWorkers (ofOptions .empty twoWorkers) :=
    .made ⟨true, true, true, fun _ => true⟩ rfl
  have hends : ∀ i, Action.ingest fiveLargeFrames ≠ .finish i .escaped := by
    intro i h
    cases h
  have hservice : Service .empty twoWorkers e := (hmade.next hends hbegin).follow hfollow
  have hcreated : e.staging.host.disk.createTemp (Spill.stem e.staging.tempDir) = .ok t := by
    generalize e.staging.host.disk.createTemp (Spill.stem e.staging.tempDir) = made at ht ⊢
    cases made with
    | error cause => cases ht
    | ok t' => exact congrArg Except.ok (Option.some.inj ht)
  have hmoment : e.Moment { e.staging with host := Spill.begun e.staging.host t (.ofBytes []) } :=
    .file _ hi hstage hspill hcreated
  have hhand : e.inHand = 1 := by simp [inHand, hi, hstage, Stage.inHand]
  obtain ⟨-, -, -, -, halive, -, -, -, hbuffers⟩ := bounded_in_flight (by decide) hservice hmoment
  exact ⟨e, _, hservice, hmoment, hfiles, hhand, hqueue, hworkers, halive, hbuffers⟩

end Engine

end Intake
