/-
# What the staging area holds

`Staging.Houses base s live` says that the contents in `live` are all there is in a staging area:
each buffer of the pool is either free or that of one of them, and each temporary file that was not
there in `base` is that of one of them.  Putting a payload into the staging area adds its content,
or nothing if there is none (`materialize_holds`), releasing a content takes it away
(`Houses.release`), and neither is seen in the other contents.
-/
import Mathlib
import Intake.Proofs.Staging.Taking

namespace Intake

/-! ## 1. Contents that hold something -/

/-- The path and the node of a content that is in a temporary file. -/
def Content.file? : Content → Option (Bytes × Nat)
  | spilled ⟨path, some (.file node _), _⟩ => some (path, node)
  | _ => Option.none

/-- A content that holds a buffer or an open file. -/
def Content.IsHeld (c : Content) : Prop := c.buffer?.isSome ∨ c.file?.isSome

namespace Staging

/-- Two staging areas over the same buffers that work in the same way. -/
structure Alike (s s' : Staging) : Prop where
  pool : s.pool.Alike s'.pool
  threshold : s'.threshold = s.threshold
  tempDir : s'.tempDir = s.tempDir

theorem Alike.refl (s : Staging) : s.Alike s := ⟨.refl _, rfl, rfl⟩

theorem Alike.trans {s s' s'' : Staging} (h : s.Alike s') (h' : s'.Alike s'') : s.Alike s'' :=
  ⟨h.pool.trans h'.pool, h'.threshold.trans h.threshold, h'.tempDir.trans h.tempDir⟩

theorem Alike.report {s s' : Staging} (h : s.Alike s') (e : Event) : s.Alike (s'.report e) :=
  ⟨h.pool, h.threshold, h.tempDir⟩

/-- The contents in a staging area. -/
structure Houses (base : Host) (s : Staging) (live : List Content) : Prop where
  buffers : ∃ free, s.pool.Lends free ∧
    (free ++ live.filterMap Content.buffer?).Perm (List.range s.pool.capacity.toNat)
  files : ∃ temps, base.Keeps s.host temps ∧
    (temps.map fun t => (t.path, t.node)).Perm (live.filterMap Content.file?)
  held : ∀ c ∈ live, c.IsHeld

variable {base : Host} {s s' : Staging} {live live' : List Content}

theorem Houses.perm (h : s.Houses base live) (hp : live.Perm live') : s.Houses base live' := by
  obtain ⟨free, hlends, hfree⟩ := h.buffers
  obtain ⟨temps, hkeep, htemps⟩ := h.files
  exact ⟨⟨free, hlends, ((hp.filterMap _).append_left free).symm.trans hfree⟩,
    ⟨temps, hkeep, htemps.trans (hp.filterMap _)⟩, fun c hc => h.held c (hp.symm.subset hc)⟩

theorem Houses.report (h : s.Houses base live) (e : Event) : (s.report e).Houses base live := by
  obtain ⟨temps, hkeep, htemps⟩ := h.files
  exact ⟨h.buffers, ⟨temps, hkeep.report e, htemps⟩, h.held⟩

/-- With nothing in it, every buffer is free, and files and list are as they were. -/
theorem Houses.at_rest (h : s.Houses base []) (htidy : base.Tidy) :
    (s.pool.outstanding = 0 ∧ s.pool.available = s.pool.capacity) ∧
      s.host.disk.files = base.disk.files ∧ s.host.registry = base.registry := by
  obtain ⟨free, hlends, hfree⟩ := h.buffers
  obtain ⟨temps, hkeep, htemps⟩ := h.files
  have hlen := hfree.length_eq
  rw [List.filterMap_nil, List.append_nil, List.length_range] at hlen
  have htemps : temps = [] := by simpa using htemps
  subst htemps
  exact ⟨hlends.at_rest hlen, by simpa using hkeep.files, by simpa using hkeep.registry htidy⟩

theorem nodup_of_buffers {free : List Nat}
    (h : (free ++ live.filterMap Content.buffer?).Perm (List.range s.pool.capacity.toNat)) :
    (free ++ live.filterMap Content.buffer?).Nodup :=
  h.nodup_iff.mpr List.nodup_range

theorem remaining_congr {c : Content} (hheld : c.IsHeld)
    (hbuffer : ∀ b, c.buffer? = some b → s'.pool.written b = s.pool.written b)
    (hfile : ∀ path node, c.file? = some (path, node) →
      s'.host.disk.content node = s.host.disk.content node) :
    s'.remaining c = s.remaining c := by
  cases c with
  | none => rfl
  | buffered handle length offset =>
    cases hb : handle.buffer with
    | none => simp [Content.IsHeld, Content.buffer?, Content.file?, hb] at hheld
    | some b =>
      have hw := hbuffer b hb
      simp only [Staging.remaining, Content.remaining, hb, Pool.load_congr hw]
  | spilled f =>
    obtain ⟨path, file, size⟩ := f
    cases file with
    | none => rfl
    | some o =>
      cases o with
      | directory => rfl
      | file node position =>
        have hc := hfile path node rfl
        simp only [Staging.remaining, Content.remaining, SpillFile.remaining, hc]

theorem houses_create {count : UInt32} (h : count.toNat ≤ Ring.widest) (host : Host)
    (bufferSize threshold : UInt64) (dir : Bytes) :
    (Staging.create host (.create count bufferSize) threshold dir).Houses host [] := by
  obtain ⟨hlends, -⟩ := Pool.lends_create bufferSize h
  refine ⟨⟨_, hlends, ?_⟩, ⟨[], Host.keeps_self _, .refl _⟩, by simp⟩
  rw [List.filterMap_nil, List.append_nil]
  exact .refl _

/-! ## 2. A log that grows -/

/-- Nothing was done but to write to the log. -/
def Noted (s s' : Staging) : Prop := ∃ log, s' = { s with host := { s.host with log } }

theorem Noted.refl (s : Staging) : s.Noted s := ⟨s.host.log, rfl⟩

theorem noted_report (s : Staging) (e : Event) : s.Noted (s.report e) := ⟨_, rfl⟩

theorem Noted.trans {s'' : Staging} (h : s.Noted s') (h' : s'.Noted s'') : s.Noted s'' := by
  obtain ⟨log, rfl⟩ := h
  obtain ⟨log', rfl⟩ := h'
  exact ⟨log', rfl⟩

theorem Noted.houses (h : s.Noted s') (hs : s.Houses base live) : s'.Houses base live := by
  obtain ⟨log, rfl⟩ := h
  obtain ⟨temps, hkeep, htemps⟩ := hs.files
  exact ⟨hs.buffers, ⟨temps, hkeep.of_parts rfl rfl, htemps⟩, hs.held⟩

theorem Noted.alike (h : s.Noted s') {start : Staging} (hs : start.Alike s) : start.Alike s' := by
  obtain ⟨log, rfl⟩ := h
  exact ⟨hs.pool, hs.threshold, hs.tempDir⟩

theorem Noted.remaining (h : s.Noted s') (c : Content) : s'.remaining c = s.remaining c := by
  obtain ⟨log, rfl⟩ := h
  rfl

/-! ## 3. Letting go of a content -/

theorem Houses.release_buffered {b length offset : Nat}
    (h : s.Houses base (.buffered ⟨some b⟩ length offset :: live)) :
    (s.release (.buffered ⟨some b⟩ length offset)).Houses base live ∧
      s.Alike (s.release (.buffered ⟨some b⟩ length offset)) ∧
      ∀ c ∈ live, (s.release (.buffered ⟨some b⟩ length offset)).remaining c = s.remaining c := by
  obtain ⟨free, hlends, hfree⟩ := h.buffers
  obtain ⟨temps, hkeep, htemps⟩ := h.files
  have hcons : (Content.buffered ⟨some b⟩ length offset :: live).filterMap Content.buffer?
      = b :: live.filterMap Content.buffer? := rfl
  rw [hcons] at hfree
  have hroom : free.length < s.pool.capacity.toNat := by
    have hlen := hfree.length_eq
    rw [List.length_append, List.length_cons, List.length_range] at hlen
    omega
  obtain ⟨p', hgive, hlends', halike, hmemory⟩ := hlends.giveBack hroom b
  have hrelease : s.release (.buffered ⟨some b⟩ length offset) = { s with pool := p' } := by
    simp [Staging.release, Content.release, Handle.release, hgive, Host.reportAll, Log.recordAll]
  rw [hrelease]
  refine ⟨⟨⟨free ++ [b], hlends', ?_⟩, ⟨temps, hkeep, htemps⟩,
    fun c hc => h.held c (List.mem_cons_of_mem _ hc)⟩, ⟨halike, rfl, rfl⟩, ?_⟩
  · rw [halike.capacity, List.append_assoc]
    exact hfree
  · intro c hc
    exact remaining_congr (h.held c (List.mem_cons_of_mem _ hc))
      (fun a _ => Pool.written_congr hmemory a) (fun _ _ _ => rfl)

theorem Houses.release_spilled {path : Bytes} {node position : Nat} {size : UInt64}
    (h : s.Houses base (.spilled ⟨path, some (.file node position), size⟩ :: live)) :
    (s.release (.spilled ⟨path, some (.file node position), size⟩)).Houses base live ∧
      s.Alike (s.release (.spilled ⟨path, some (.file node position), size⟩)) ∧
      ∀ c ∈ live, (s.release (.spilled ⟨path, some (.file node position), size⟩)).remaining c
        = s.remaining c := by
  obtain ⟨temps, hkeep, htemps⟩ := h.files
  have hcons : (Content.spilled ⟨path, some (.file node position), size⟩ :: live).filterMap
      Content.file? = (path, node) :: live.filterMap Content.file? := rfl
  rw [hcons] at htemps
  obtain ⟨t, ht, hentry⟩ := List.mem_map.mp (htemps.symm.subset List.mem_cons_self)
  obtain ⟨rfl, rfl⟩ := Prod.mk.inj hentry
  obtain ⟨before, behind, rfl⟩ := List.append_of_mem ht
  obtain ⟨hkeep', hspare⟩ := hkeep.remove (f := ⟨t.path, some (.file t.node position), size⟩) rfl
  refine ⟨⟨h.buffers, ⟨before ++ behind, hkeep', ?_⟩,
    fun c hc => h.held c (List.mem_cons_of_mem _ hc)⟩, ⟨.refl _, rfl, rfl⟩, ?_⟩
  · have hmiddle : ((before ++ t :: behind).map fun t => (t.path, t.node)).Perm
        ((t.path, t.node) :: (before ++ behind).map fun t => (t.path, t.node)) := by
      simp
    exact (hmiddle.symm.trans htemps).cons_inv
  · intro c hc
    refine remaining_congr (h.held c (List.mem_cons_of_mem _ hc)) (fun _ _ => rfl)
      fun path' node' hfile => ?_
    have hmem : (path', node') ∈ live.filterMap Content.file? :=
      List.mem_filterMap.mpr ⟨c, hc, hfile⟩
    obtain ⟨t', ht', hentry'⟩ := List.mem_map.mp (htemps.symm.subset (List.mem_cons_of_mem _ hmem))
    obtain ⟨-, rfl⟩ := Prod.mk.inj hentry'
    exact hspare.2 _ (hkeep.numbered t' ht').2

/-- **Letting go of a content** takes it out of the staging area, and leaves the others as they are.
-/
theorem Houses.release {c : Content} (h : s.Houses base (c :: live)) :
    (s.release c).Houses base live ∧ s.Alike (s.release c) ∧
      ∀ c' ∈ live, (s.release c).remaining c' = s.remaining c' := by
  have hheld := h.held c List.mem_cons_self
  match c with
  | .none => simp [Content.IsHeld, Content.buffer?, Content.file?] at hheld
  | .buffered ⟨none⟩ _ _ => simp [Content.IsHeld, Content.buffer?, Content.file?] at hheld
  | .buffered ⟨some b⟩ _ _ => exact h.release_buffered
  | .spilled ⟨_, none, _⟩ => simp [Content.IsHeld, Content.buffer?, Content.file?] at hheld
  | .spilled ⟨_, some .directory, _⟩ =>
    simp [Content.IsHeld, Content.buffer?, Content.file?] at hheld
  | .spilled ⟨_, some (.file _ _), _⟩ => exact h.release_spilled

/-! ## 4. Taking a payload -/

/-- A content more, or what there was. -/
def Holds (base : Host) (live : List Content) (d : Delivery) : Prop :=
  match d.content with
  | .ok c => d.staging.Houses base (c :: live)
  | .error _ => d.staging.Houses base live

/-- The other contents are as they were, and so is the way in which the staging area works. -/
structure Leaves (s : Staging) (live : List Content) (s' : Staging) : Prop where
  alike : s.Alike s'
  spared : ∀ c ∈ live, s'.remaining c = s.remaining c

theorem toSpill_holds (h : s.Houses base live) (source : Source) (size : UInt64) :
    Holds base live (s.toSpill source size) ∧ s.Leaves live (s.toSpill source size).staging := by
  obtain ⟨temps, hkeep, htemps⟩ := h.files
  obtain ⟨hleaves, hspare⟩ := Spill.write_leaves hkeep source size s.tempDir
  have hparts : (s.toSpill source size).staging.pool = s.pool ∧
      (s.toSpill source size).staging.threshold = s.threshold ∧
      (s.toSpill source size).staging.tempDir = s.tempDir ∧
      (s.toSpill source size).staging.host
        = (Spill.write s.host source size s.tempDir).host := by
    unfold toSpill
    simp only
    split <;> exact ⟨rfl, rfl, rfl, rfl⟩
  obtain ⟨hpool, hthreshold, hdir, hhost⟩ := hparts
  refine ⟨?_, ⟨⟨by rw [hpool]; exact .refl _, hthreshold, hdir⟩, ?_⟩⟩
  · unfold Holds
    unfold Spill.Leaves at hleaves
    cases hresult : (Spill.write s.host source size s.tempDir).result with
    | error e =>
      rw [hresult] at hleaves
      have hcontent : (s.toSpill source size).content = .error e := by
        simp only [toSpill, hresult]
      rw [hcontent]
      exact ⟨by rw [hpool]; exact h.buffers, ⟨temps, by rw [hhost]; exact hleaves, htemps⟩, h.held⟩
    | ok f =>
      rw [hresult] at hleaves
      obtain ⟨t, rfl, hkeep'⟩ := hleaves
      have hcontent : (s.toSpill source size).content
          = .ok (.spilled ⟨t.path, some (.file t.node 0), size⟩) := by
        simp only [toSpill, hresult]
      rw [hcontent]
      refine ⟨by rw [hpool]; exact h.buffers,
        ⟨temps ++ [t], by rw [hhost]; exact hkeep', ?_⟩, fun c hc => ?_⟩
      · have hcons : (Content.spilled ⟨t.path, some (.file t.node 0), size⟩ :: live).filterMap
            Content.file? = (t.path, t.node) :: live.filterMap Content.file? := rfl
        rw [hcons, List.map_append]
        exact (List.perm_append_singleton _ _).trans (htemps.cons _)
      · rcases List.mem_cons.mp hc with rfl | hc
        · exact Or.inr rfl
        · exact h.held c hc
  · intro c hc
    refine remaining_congr (h.held c hc) (fun b _ => by rw [hpool]) fun path node hfile => ?_
    have hmem : (path, node) ∈ live.filterMap Content.file? := List.mem_filterMap.mpr ⟨c, hc, hfile⟩
    obtain ⟨t', ht', hentry⟩ := List.mem_map.mp (htemps.symm.subset hmem)
    obtain ⟨-, rfl⟩ := Prod.mk.inj hentry
    rw [hhost]
    exact hspare.2 _ (hkeep.numbered t' ht').2

theorem Houses.stored (h : s.Houses base live) {b : Nat} {pool : Pool}
    (hacq : s.pool.acquire = .gives (b, pool)) (data : Bytes) (length : Nat) :
    ({ s with pool := pool.store b data } : Staging).Houses base
        (.buffered ⟨some b⟩ length 0 :: live) ∧
      s.Alike { s with pool := pool.store b data } ∧
      ∀ c ∈ live,
        ({ s with pool := pool.store b data } : Staging).remaining c = s.remaining c := by
  obtain ⟨free, hlends, hfree⟩ := h.buffers
  obtain ⟨rest, rfl, hlends', halike, hmemory⟩ := hlends.of_acquire hacq
  have hnodup := nodup_of_buffers hfree
  rw [List.cons_append, List.nodup_cons] at hnodup
  refine ⟨⟨⟨rest, hlends'.store b data, ?_⟩, h.files, ?_⟩,
    ⟨halike.trans (Pool.alike_store _ _ _), rfl, rfl⟩, ?_⟩
  · show (rest ++ b :: _).Perm (List.range pool.capacity.toNat)
    rw [halike.capacity]
    exact List.perm_middle.trans hfree
  · intro c hc
    rcases List.mem_cons.mp hc with rfl | hc
    · exact Or.inl rfl
    · exact h.held c hc
  · intro c hc
    refine remaining_congr (h.held c hc) (fun a ha => ?_) (fun _ _ _ => rfl)
    have hne : a ≠ b := by
      intro e
      apply hnodup.1
      rw [← e]
      exact List.mem_append_right _ (List.mem_filterMap.mpr ⟨c, hc, ha⟩)
    exact (Pool.written_store_of_ne hne).trans (Pool.written_congr hmemory a)

theorem fillBuffer_holds (h : s.Houses base live) {b : Nat} {pool : Pool}
    (hacq : s.pool.acquire = .gives (b, pool)) (source : Source) (size : UInt64) :
    Holds base live (fillBuffer { s with pool } b source size) ∧
      s.Leaves live (fillBuffer { s with pool } b source size).staging := by
  obtain ⟨reads, -, -, hfill⟩ := fillBuffer_eq { s with pool } b source size
  obtain ⟨hstored, halike, hspared⟩ := h.stored hacq (source.rest.take size.toNat) size.toNat
  unfold Holds
  rcases Nat.lt_or_ge source.rest.length size.toNat with hshort | hfull
  · rw [Source.payload_of_lt hshort] at hfill
    obtain ⟨hcontent, event, hstaging⟩ := hfill
    obtain ⟨hreleased, halike', hspared'⟩ := hstored.release
    rw [hcontent, hstaging]
    exact ⟨hreleased.report event, (halike.trans halike').report event,
      fun c hc => (hspared' c hc).trans (hspared c hc)⟩
  · rw [Source.payload_of_le hfull] at hfill
    obtain ⟨hcontent, hstaging⟩ := hfill
    rw [hcontent, hstaging]
    exact ⟨⟨hstored.buffers, hstored.files, hstored.held⟩,
      ⟨halike.pool, halike.threshold, halike.tempDir⟩, hspared⟩

theorem toBuffer_holds (h : s.Houses base live) {source : Source} {size : UInt64} {d : Delivery}
    (hd : s.toBuffer source size = .delivers d) : Holds base live d ∧ s.Leaves live d.staging := by
  unfold toBuffer at hd
  split at hd
  · cases hd
  · obtain rfl := Step.delivers.inj hd
    exact ⟨h.report _, (Alike.refl s).report _, fun _ _ => rfl⟩
  · rename_i b pool hacq
    split at hd
    · cases hd
    · obtain rfl := Step.delivers.inj hd
      exact fillBuffer_holds h hacq source size

/-- **Whatever becomes of a payload**, the staging area holds its content or nothing of it. -/
theorem materialize_holds (h : s.Houses base live) {source : Source} {size : UInt64}
    {d : Delivery} (hd : s.materialize source size = .delivers d) :
    Holds base live d ∧ s.Leaves live d.staging := by
  unfold materialize at hd
  split at hd
  · obtain rfl := Step.delivers.inj hd
    exact toSpill_holds h source size
  · exact toBuffer_holds h hd

/-! ## 5. Waiting for a buffer -/

theorem Houses.acquires (h : s.Houses base live) (hsome : s.pool.available ≠ 0) :
    ∃ b pool, s.pool.acquire = .gives (b, pool) ∧ b < s.pool.memory.length := by
  obtain ⟨free, hlends, hfree⟩ := h.buffers
  cases free with
  | nil => exact absurd (UInt32.toNat_inj.mp hlends.available_eq) hsome
  | cons b rest =>
    obtain ⟨pool, hacq, -⟩ := hlends.acquire
    refine ⟨b, pool, hacq, ?_⟩
    rw [hlends.length_memory]
    exact List.mem_range.mp (hfree.subset List.mem_cons_self)

/-- A payload waits for a buffer as long as there is none and nobody ends the wait. -/
theorem materialize_waits (h : s.Houses base live) (hcalm : s.pool.free.interrupted = false)
    {size : UInt64} (hbuffer : s.shouldSpill size = false) (hnone : s.pool.available = 0)
    (source : Source) : s.materialize source size = .waits := by
  obtain ⟨free, hlends, -⟩ := h.buffers
  have hlen := hlends.available_eq
  rw [hnone] at hlen
  obtain rfl : free = [] := List.eq_nil_of_length_eq_zero hlen.symm
  have htake := hlends.holds.take_waits hlends.opened hcalm
  simp [materialize, hbuffer, toBuffer, Pool.acquire, Pool.takeFree, htake, Attempt.map]

/-- **A payload waits only when every buffer is that of some content.** -/
theorem Houses.exhausted (h : s.Houses base live) {source : Source} {size : UInt64}
    (hwaits : s.materialize source size = .waits) : s.pool.capacity.toNat ≤ live.length := by
  have hnone : s.pool.available = 0 := by
    by_contra hsome
    obtain ⟨b, pool, hacq, -⟩ := h.acquires hsome
    unfold materialize toBuffer at hwaits
    rw [hacq] at hwaits
    split at hwaits
    · cases hwaits
    · simp only at hwaits
      split at hwaits <;> cases hwaits
  obtain ⟨free, hlends, hfree⟩ := h.buffers
  have hlen := hlends.available_eq
  rw [hnone] at hlen
  obtain rfl : free = [] := List.eq_nil_of_length_eq_zero hlen.symm
  have hcount := hfree.length_eq
  rw [List.nil_append, List.length_range] at hcount
  exact hcount ▸ List.length_filterMap_le _ _

end Staging

end Intake
