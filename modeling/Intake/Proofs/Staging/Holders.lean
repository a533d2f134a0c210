/-
# Contents in several hands

The contents in a staging area have neither a buffer nor a file in common (`Houses.apart`), and a
read of one moves nothing but its own position (`Houses.read`).  A content that was moved is hollow:
letting go of it is nothing to the staging area (`release_of_hollow`).

A payload that was put into the staging area and brought forth a content found what it needed there
(`ready_of_delivers`), so what the content reads back to is known without asking for room or for a
free buffer beforehand.
-/
import Mathlib
import Intake.Proofs.Staging.Housing
import Intake.Proofs.Staging.Reading

namespace Intake

/-! ## 1. Two contents -/

namespace Content

/-- Two contents that have neither a buffer nor a file in common: the files differ in their paths
and in their nodes. -/
structure Apart (c c' : Content) : Prop where
  buffers : ∀ b ∈ c.buffer?, ∀ b' ∈ c'.buffer?, b ≠ b'
  files : ∀ f ∈ c.file?, ∀ f' ∈ c'.file?, f.1 ≠ f'.1 ∧ f.2 ≠ f'.2

theorem Apart.symm {c c' : Content} (h : c.Apart c') : c'.Apart c :=
  ⟨fun b hb b' hb' => (h.buffers b' hb' b hb).symm,
    fun f hf f' hf' => ⟨(h.files f' hf' f hf).1.symm, (h.files f' hf' f hf).2.symm⟩⟩

/-- What is left of a content that was moved. -/
def IsHollow (c : Content) : Prop := c.afterMove = c

theorem isHollow_afterMove (c : Content) : c.afterMove.IsHollow := by
  cases c <;> rfl

theorem isHollow_none : Content.none.IsHollow := rfl

theorem read_same (p : Pool) (d : Disk) (c : Content) (n : Nat) :
    (c.read p d n).2.buffer? = c.buffer? ∧ (c.read p d n).2.file? = c.file? := by
  cases c with
  | none => exact ⟨rfl, rfl⟩
  | buffered handle length offset =>
    simp only [Content.read]
    split
    · exact ⟨rfl, rfl⟩
    · cases handle.buffer <;> exact ⟨rfl, rfl⟩
  | spilled f =>
    obtain ⟨path, file, size⟩ := f
    cases file with
    | none => exact ⟨rfl, rfl⟩
    | some o => cases o <;> exact ⟨rfl, rfl⟩

end Content

namespace Staging

variable {base : Host} {s s' : Staging} {live : List Content}

theorem release_of_hollow {c : Content} (h : c.IsHollow) : s.release c = s := by
  cases c with
  | none => rfl
  | buffered handle length offset =>
    have hnone : handle = .empty := (Content.buffered.inj h).1.symm
    subst hnone
    simp [Staging.release, Content.release, Handle.release, Handle.empty, Host.reportAll,
      Log.recordAll]
  | spilled f =>
    have hnone : f = .empty := (Content.spilled.inj h).symm
    subst hnone
    rfl

/-! ## 2. All contents -/

theorem pairwise_of_keeps {h : Host} {temps : List Temporary} (hkeep : base.Keeps h temps) :
    (temps.map fun t => (t.path, t.node)).Pairwise fun f f' => f.1 ≠ f'.1 ∧ f.2 ≠ f'.2 := by
  have hplaces : temps.Pairwise fun t t' => t.place ≠ t'.place := List.pairwise_map.mp hkeep.places
  have hnodes : temps.Pairwise fun t t' => t.node ≠ t'.node := List.pairwise_map.mp hkeep.nodes
  refine List.pairwise_map.mpr ((hplaces.and hnodes).imp_of_mem ?_)
  rintro t t' ht ht' ⟨hplace, hnode⟩
  refine ⟨?_, hnode⟩
  intro (hpath : t.path = t'.path)
  have hleads := hkeep.leads t ht
  rw [hpath] at hleads
  exact hplace (hleads.unique (hkeep.leads t' ht'))

/-- **No two contents in a staging area share a buffer or a file.** -/
theorem Houses.apart (h : s.Houses base live) : live.Pairwise Content.Apart := by
  obtain ⟨free, -, hfree⟩ := h.buffers
  obtain ⟨temps, hkeep, htemps⟩ := h.files
  have hbuffers : (live.filterMap Content.buffer?).Pairwise (· ≠ ·) :=
    (List.nodup_append.mp (nodup_of_buffers hfree)).2.1
  have hfiles : (live.filterMap Content.file?).Pairwise fun f f' => f.1 ≠ f'.1 ∧ f.2 ≠ f'.2 :=
    (htemps.pairwise_iff fun hne => ⟨hne.1.symm, hne.2.symm⟩).mp (pairwise_of_keeps hkeep)
  rw [List.pairwise_filterMap] at hbuffers hfiles
  refine (hbuffers.and hfiles).imp ?_
  rintro c c' ⟨hb, hf⟩
  exact ⟨hb, hf⟩

theorem Houses.replace {c c' : Content} (h : s.Houses base (c :: live))
    (hbuffer : c'.buffer? = c.buffer?) (hfile : c'.file? = c.file?) :
    s.Houses base (c' :: live) := by
  obtain ⟨free, hlends, hfree⟩ := h.buffers
  obtain ⟨temps, hkeep, htemps⟩ := h.files
  rw [List.filterMap_cons, ← hbuffer, ← List.filterMap_cons] at hfree
  rw [List.filterMap_cons, ← hfile, ← List.filterMap_cons] at htemps
  refine ⟨⟨free, hlends, hfree⟩, ⟨temps, hkeep, htemps⟩, ?_⟩
  intro a ha
  rcases List.mem_cons.mp ha with rfl | ha
  · have hheld := h.held c List.mem_cons_self
    unfold Content.IsHeld at hheld ⊢
    rw [hbuffer, hfile]
    exact hheld
  · exact h.held a (List.mem_cons_of_mem _ ha)

/-- **Reading from a content** moves its position. -/
theorem Houses.read {c : Content} (h : s.Houses base (c :: live)) (n : Nat) :
    s.Houses base ((s.read c n).2 :: live) := by
  obtain ⟨hbuffer, hfile⟩ := Content.read_same s.pool s.host.disk c n
  exact h.replace hbuffer hfile

/-! ## 3. A payload that brought forth a content -/

/-- **Where there is a content there was what it took**: a free buffer, or a new temporary file. -/
theorem Houses.ready_of_delivers (h : s.Houses base live) {source : Source} {size : UInt64}
    {d : Delivery} {c : Content} (hd : s.materialize source size = .delivers d)
    (hc : d.content = .ok c) : s.Ready size := by
  unfold Ready
  unfold materialize at hd
  split at hd
  · rename_i hspill
    rw [if_pos hspill]
    obtain rfl := Step.delivers.inj hd
    cases hmade : s.host.disk.createTemp (Spill.stem s.tempDir) with
    | ok t => exact ⟨t, rfl⟩
    | error cause => simp [toSpill, Spill.write_willing, hmade] at hc
  · rename_i hspill
    rw [if_neg hspill]
    cases hacq : s.pool.acquire with
    | waits => simp [toBuffer, hacq] at hd
    | fails cause =>
      simp only [toBuffer, hacq, Step.delivers.injEq] at hd
      subst hd
      cases hc
    | gives r =>
      obtain ⟨b, pool⟩ := r
      obtain ⟨free, hlends, hfree⟩ := h.buffers
      obtain ⟨rest, rfl, -⟩ := hlends.of_acquire hacq
      refine ⟨b, pool, rfl, ?_⟩
      rw [hlends.length_memory]
      exact List.mem_range.mp (hfree.subset List.mem_cons_self)

end Staging

end Intake
