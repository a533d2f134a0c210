/-
# Files that differ in their names

Two hosts that came from the same one, by writing and removing spill files, may have drawn other
endings for the names of their temporary files.  Where the nodes of their files are the same, and
the spill files but for the paths, **the next temporary file is made alike on both**
(`Stocked.madeAlike`): the names that are taken are as many on one as on the other.

Such a host is `Stocked`: each of its temporary files is owned by a spill file, whose path is drawn
for the stem of the directory.
-/
import Mathlib
import Intake.Proofs.Disk.Endings
import Intake.Proofs.Spill.Owners

namespace Intake

open scoped List

/-! ## 1. Files with their names veiled -/

/-- A path with the letters of its ending crossed out. -/
def Bytes.veiled (path : Bytes) : Bytes :=
  path.take (path.length - Disk.suffixWidth)
    ++ (path.drop (path.length - Disk.suffixWidth)).map fun _ => 88

theorem veiled_drawn {stem path : Bytes} (h : Disk.Drawn stem path) :
    path.veiled = stem ++ List.replicate Disk.suffixWidth 88 := by
  obtain ⟨n, rfl⟩ := h
  have hlen := Disk.length_suffix n Disk.suffixWidth
  have hstem : (stem ++ Disk.suffix n Disk.suffixWidth).length - Disk.suffixWidth
      = stem.length := by
    rw [List.length_append, hlen, Nat.add_sub_cancel]
  rw [Bytes.veiled, hstem, List.take_left, List.drop_left, List.map_const', hlen]

/-- A spill file with the ending of its path crossed out. -/
def SpillFile.veiled (f : SpillFile) : SpillFile := { f with path := f.path.veiled }

theorem SpillFile.owned?_veiled (f : SpillFile) : f.veiled.owned?.isSome = f.owned?.isSome := by
  obtain ⟨path, file, size⟩ := f
  cases file with
  | none => rfl
  | some o => cases o <;> rfl

/-! ## 2. What was drawn for a stem -/

namespace Host

/-- Each temporary file is owned by one of the spill files, and the paths of these are drawn for a
stem. -/
structure Stocked (base h : Host) (stem : Bytes) (files : List SpillFile) : Prop where
  owned : base.Owned h files
  drawn : ∀ f ∈ files, f.path ≠ [] → Disk.Drawn stem f.path

variable {base h h' : Host} {parent name stem : Bytes} {files files' : List SpillFile}
  {temps : List Temporary} {dir : Place}

/-- A temporary file whose path was drawn is at the place that its ending stands for, in the
directory of its stem. -/
theorem Keeps.place_of_path (hk : base.Keeps h temps) (hname : (47 : UInt8) ∉ name) {t : Temporary}
    (ht : t ∈ temps) {n : Nat}
    (hpath : t.path = parent ++ 47 :: name ++ Disk.suffix n Disk.suffixWidth) :
    ∃ dir, base.disk.walkStem parent name = .ok dir ∧ t.place = Disk.tried dir name n ∧
      base.disk.occupied t.place = false := by
  have hleads := hk.leads t ht
  rw [hpath] at hleads
  obtain ⟨dir, hwalk, hplace, hdir⟩ := Disk.tried_of_leads hname hleads (hk.node?_eq ht)
  have hback : h.disk.SameTree base.disk := ⟨hk.tree.1.symm, hk.tree.2.symm⟩
  refine ⟨dir, ?_, hplace, ?_⟩
  · rw [Disk.walkStem, hback.start]
    exact Disk.walk_congr hback hwalk
  · rw [Disk.occupied, hback.isDirectory, hdir, hk.fresh t ht]
    rfl

/-- The temporary files of a host are where their stem leads, at places that were free. -/
theorem Keeps.tried (hk : base.Keeps h temps) (hname : (47 : UInt8) ∉ name) {t : Temporary}
    (ht : t ∈ temps) (hdrawn : Disk.Drawn (parent ++ 47 :: name) t.path) :
    ∃ dir n, base.disk.walkStem parent name = .ok dir ∧ t.place = Disk.tried dir name n ∧
      base.disk.occupied t.place = false := by
  obtain ⟨n, hpath⟩ := hdrawn
  obtain ⟨dir, hplace⟩ := hk.place_of_path hname ht hpath
  exact ⟨dir, n, hplace⟩

/-- The way to the directory of a stem does not depend on the temporary files in it. -/
theorem Keeps.walkStem (hk : base.Keeps h temps) (hname : (47 : UInt8) ∉ name)
    (hdrawn : ∀ t ∈ temps, Disk.Drawn (parent ++ 47 :: name) t.path) :
    h.disk.walkStem parent name = base.disk.walkStem parent name := by
  cases temps with
  | nil =>
    rw [Disk.walkStem, hk.tree.start]
    exact Disk.walk_of_files hk.tree (by simpa using hk.files) _ _
  | cons t temps =>
    obtain ⟨dir, n, hwalk, -, -⟩ := hk.tried hname List.mem_cons_self (hdrawn t List.mem_cons_self)
    rw [hwalk, Disk.walkStem, hk.tree.start]
    exact Disk.walk_congr hk.tree hwalk

theorem Keeps.hasFree_iff (hk : base.Keeps h temps) (hname : (47 : UInt8) ∉ name)
    (hdrawn : ∀ t ∈ temps, Disk.Drawn (parent ++ 47 :: name) t.path)
    (hdir : base.disk.walkStem parent name = .ok dir) :
    h.disk.HasFree dir name ↔ (base.disk.taken dir name).card + temps.length < Disk.endings := by
  have htried : ∀ t ∈ temps, (∃ n, t.place = Disk.tried dir name n) ∧
      base.disk.occupied t.place = false := by
    intro t ht
    obtain ⟨dir', n, hwalk, hplace, hfree⟩ := hk.tried hname ht (hdrawn t ht)
    obtain rfl := Except.ok.inj (hdir.symm.trans hwalk)
    exact ⟨⟨n, hplace⟩, hfree⟩
  have hplaces : (temps.map Temporary.entry).map Prod.fst = temps.map Temporary.place := by
    rw [List.map_map]
    rfl
  have hcard := Disk.card_taken dir name hk.tree hk.files (hplaces ▸ hk.places)
    (fun p hp => ?_) (fun p hp => ?_)
  · rw [Disk.hasFree_iff, hcard, List.length_map]
  · rw [hplaces] at hp
    obtain ⟨t, ht, rfl⟩ := List.mem_map.mp hp
    exact (htried t ht).2
  · rw [hplaces] at hp
    obtain ⟨t, ht, rfl⟩ := List.mem_map.mp hp
    obtain ⟨n, hplace⟩ := (htried t ht).1
    rw [hplace]
    exact Disk.tried_mem_candidates dir name n

/-- The temporary files of a stocked host: one for each spill file that owns one. -/
theorem Stocked.keeps (hs : base.Stocked h stem files) :
    ∃ temps, base.Keeps h temps ∧ (∀ t ∈ temps, Disk.Drawn stem t.path) ∧
      temps.length = files.countP fun f => f.owned?.isSome := by
  obtain ⟨⟨⟨temps, hkeep, htemps⟩, -⟩, hdrawn⟩ := hs
  refine ⟨temps, hkeep, fun t ht => ?_, ?_⟩
  · obtain ⟨f, hf, howned⟩ := List.mem_filterMap.mp
      (htemps.subset (List.mem_map.mpr ⟨t, ht, rfl⟩))
    have hpath := (SpillFile.eq_of_owned? howned).1
    rw [← hpath]
    exact hdrawn f hf (hpath ▸ hkeep.named t ht)
  · have hlen := htemps.length_eq
    rwa [List.length_map, List.length_filterMap_eq_countP] at hlen

/-- **The next temporary file is made alike** on two hosts that differ in names only. -/
theorem Stocked.madeAlike {directory : Bytes} (hs : base.Stocked h (Spill.stem directory) files)
    (hs' : base.Stocked h' (Spill.stem directory) files')
    (hfiles : files'.map SpillFile.veiled = files.map SpillFile.veiled)
    (hnodes : h'.disk.nodes = h.disk.nodes) :
    Disk.MadeAlike (Spill.stem directory) (h.disk.createTemp (Spill.stem directory))
      (h'.disk.createTemp (Spill.stem directory)) := by
  obtain ⟨temps, hkeep, hdrawn, hlen⟩ := hs.keeps
  obtain ⟨temps', hkeep', hdrawn', hlen'⟩ := hs'.keeps
  have hcount : ∀ files : List SpillFile, files.countP (fun f => f.owned?.isSome)
      = (files.map SpillFile.veiled).countP fun f => f.owned?.isSome := by
    intro files
    rw [List.countP_map]
    exact List.countP_congr fun f _ => by rw [Function.comp_apply, SpillFile.owned?_veiled]
  have hsame : temps'.length = temps.length := by
    rw [hlen, hlen', hcount files, hcount files', hfiles]
  obtain ⟨parent, hstem⟩ := Spill.stem_eq directory
  rw [hstem] at hdrawn hdrawn' ⊢
  have hname : (47 : UInt8) ∉ Bytes.ofAscii "sift" := by decide
  have hwalk := hkeep.walkStem hname hdrawn
  refine Disk.createTemp_alike hname hnodes ((hkeep'.walkStem hname hdrawn').trans hwalk.symm) ?_
  intro dir hdir
  rw [hwalk] at hdir
  rw [hkeep'.hasFree_iff hname hdrawn' hdir, hkeep.hasFree_iff hname hdrawn hdir, hsame]

/-! ## 3. What keeps a host stocked -/

theorem Stocked.of_parts (hs : base.Stocked h stem files) {drawn : Nat} {log : Log} :
    base.Stocked { h with disk := { h.disk with drawn }, log } stem files :=
  ⟨hs.owned.of_parts, hs.drawn⟩

theorem Stocked.perm (hs : base.Stocked h stem files) (hp : files ~ files') :
    base.Stocked h stem files' :=
  ⟨hs.owned.reassign (hp.filterMap _) fun f hf => hs.owned.hollow f (hp.symm.subset hf),
    fun f hf => hs.drawn f (hp.symm.subset hf)⟩

theorem Stocked.cons {g : SpillFile} (hs : base.Stocked h stem files) (hg : g.IsHollow) :
    base.Stocked h stem (g :: files) := by
  refine ⟨hs.owned.cons hg, fun f hf hne => ?_⟩
  rcases List.mem_cons.mp hf with rfl | hf
  · exact absurd hg.path hne
  · exact hs.drawn f hf hne

theorem drawn_of_write {source : Source} {size : UInt64} {directory : Bytes} {f : SpillFile}
    (hf : (Spill.write h source size directory).result = .ok f) :
    Disk.Drawn (Spill.stem directory) f.path := by
  rw [Spill.write_willing] at hf
  split at hf
  · cases hf
  · rename_i t ht
    have hpath : f.path = t.path := by
      split at hf
      · cases hf
      · rename_i disk _
        cases Spill.filled_willing { Spill.made h t with disk } t source size with
        | abandoned disk' e event hdisk hresult herror hhost => cases hf.symm.trans hresult
        | opened bytes file event hopen hresult hhost =>
          obtain rfl := Except.ok.inj (hf.symm.trans hresult)
          rfl
    obtain ⟨parent, hstem⟩ := Spill.stem_eq directory
    rw [hpath, hstem]
    rw [hstem] at ht
    exact (Disk.drawn_of_createTemp (by decide) ht).1

theorem Stocked.write {directory : Bytes} (hs : base.Stocked h (Spill.stem directory) files)
    (source : Source) (size : UInt64) :
    match (Spill.write h source size directory).result with
    | .ok f => base.Stocked (Spill.write h source size directory).host (Spill.stem directory)
        (f :: files)
    | .error _ => base.Stocked (Spill.write h source size directory).host (Spill.stem directory)
        files := by
  have howned := (hs.owned.writeUnder source size directory Spill.willing).1
  rw [← Spill.write] at howned
  cases hresult : (Spill.write h source size directory).result with
  | error e =>
    rw [hresult] at howned
    exact ⟨howned, hs.drawn⟩
  | ok f =>
    rw [hresult] at howned
    refine ⟨howned, fun g hg hne => ?_⟩
    rcases List.mem_cons.mp hg with rfl | hg
    · exact drawn_of_write hresult
    · exact hs.drawn g hg hne

/-- Putting a hollow spill file in the place of another one, which is removed. -/
theorem Stocked.vacate {f g : SpillFile} {i : Nat} (hs : base.Stocked h stem files)
    (hi : files[i]? = some f) (hg : g.IsHollow) :
    base.Stocked (f.remove h).1 stem (files.set i g) := by
  refine ⟨((hs.owned.cons hg).replace hi).1, fun a ha hne => ?_⟩
  rcases List.mem_or_eq_of_mem_set ha with ha | rfl
  · exact hs.drawn a ha hne
  · exact absurd hg.path hne

theorem Stocked.read {f : SpillFile} {i : Nat} (hs : base.Stocked h stem files)
    (hi : files[i]? = some f) (d : Disk) (n : Nat) :
    base.Stocked h stem (files.set i (f.read d n).2) := by
  have hpath : (f.read d n).2.path = f.path := by
    unfold SpillFile.read
    split <;> rfl
  refine ⟨hs.owned.read hi d n, fun g hg hne => ?_⟩
  rcases List.mem_or_eq_of_mem_set hg with hg | rfl
  · exact hs.drawn g hg hne
  · rw [hpath] at hne ⊢
    exact hs.drawn f (List.mem_of_getElem? hi) hne

theorem Stocked.shift {f g : SpillFile} {i j : Nat} (hs : base.Stocked h stem files)
    (hi : files[i]? = some g) (hg : g.IsHollow) (hj : files[j]? = some f) (hne : i ≠ j) :
    base.Stocked h stem ((files.set i f).set j .empty) := by
  refine ⟨hs.owned.shift hi hg hj hne, fun a ha hne => ?_⟩
  rcases List.mem_or_eq_of_mem_set ha with ha | rfl
  · rcases List.mem_or_eq_of_mem_set ha with ha | rfl
    · exact hs.drawn a ha hne
    · exact hs.drawn a (List.mem_of_getElem? hj) hne
  · exact absurd rfl hne

end Host

end Intake
