/-
# Who owns a temporary file

A temporary file exists for a `SpillFile` that owns it, and for nothing else: `Host.Owned base h
files` says that a host is as `base` was but for temporary files, one for each of the spill files in
`files` that has one.  The others are hollow, they have neither a path nor an open file.

Spill files are kept in a row of slots, the variables of a caller.  They are written, read, moved,
removed and come to their end in any order (`Slots.Deed`), the file system is free to draw any name
that is not taken, and it may refuse any request of a write: to make the file, to size it, to take a
block, to close it or to open it again.  At every time **the temporary files on the disk, the list
of the host and the paths in the slots are the same, and no path is in two slots** (`owned_once`).
So nothing is left when the slots have come to their end, and nothing either when the host removes
what is on its list before (`RemoveAll`).

The three views are changed in separate steps, and a write has seven exits once there is a file.
What makes it safe is that the file is put on the list as soon as it exists, and that every exit but
the last takes it off the disk and off the list again (`Filled`); a spill file is made at the last
exit only, and has the path that is on the list.
-/
import Mathlib
import Intake.Proofs.Places
import Intake.Proofs.Spill.Writing
import Intake.Spill.Slots

namespace Intake

open scoped List

/-! ## 1. Owners -/

namespace SpillFile

/-- The path and the node of the temporary file that a spill file owns. -/
def owned? : SpillFile → Option (Bytes × Nat)
  | ⟨path, some (.file node _), _⟩ => some (path, node)
  | _ => none

/-- A spill file that owns nothing. -/
structure IsHollow (f : SpillFile) : Prop where
  path : f.path = []
  file : f.file = none

theorem isHollow_empty : SpillFile.empty.IsHollow := ⟨rfl, rfl⟩

theorem IsHollow.owned? {f : SpillFile} (h : f.IsHollow) : f.owned? = none := by
  obtain ⟨path, file, size⟩ := f
  obtain rfl : file = none := h.file
  rfl

theorem IsHollow.remove {f : SpillFile} (h : f.IsHollow) (host : Host) :
    (f.remove host).1 = host := by
  unfold SpillFile.remove
  rw [h.path]
  rfl

theorem isHollow_remove (host : Host) (f : SpillFile) : (f.remove host).2.IsHollow := by
  refine ⟨remove_path host f, ?_⟩
  unfold SpillFile.remove
  split <;> rfl

theorem eq_of_owned? {f : SpillFile} {path : Bytes} {node : Nat} (h : f.owned? = some (path, node)) :
    f.path = path ∧ ∃ position, f.file = some (.file node position) := by
  obtain ⟨path', file, size⟩ := f
  cases file with
  | none => cases h
  | some o =>
    cases o with
    | directory => cases h
    | file node' position =>
      obtain ⟨rfl, rfl⟩ := Prod.mk.inj (Option.some.inj h)
      exact ⟨rfl, position, rfl⟩

theorem read_owned? (d : Disk) (f : SpillFile) (n : Nat) : (f.read d n).2.owned? = f.owned? := by
  obtain ⟨path, file, size⟩ := f
  cases file with
  | none => rfl
  | some o => cases o <;> rfl

theorem IsHollow.read {f : SpillFile} (h : f.IsHollow) (d : Disk) (n : Nat) :
    (f.read d n).2 = f := by
  simp only [SpillFile.read, h.file]

end SpillFile

namespace Host

/-- Each temporary file is owned by one of the spill files, and what owns none is hollow. -/
structure Owned (base h : Host) (files : List SpillFile) : Prop where
  temps : ∃ temps, base.Keeps h temps ∧
    (temps.map fun t => (t.path, t.node)) ~ files.filterMap SpillFile.owned?
  hollow : ∀ f ∈ files, f.owned? = none → f.IsHollow

variable {base h h' : Host} {files files' others : List SpillFile} {f g : SpillFile} {i j : Nat}

theorem owned_nothing (base : Host) (hfiles : ∀ f ∈ files, f.IsHollow) : base.Owned base files := by
  refine ⟨⟨[], keeps_self base, ?_⟩, fun f hf _ => hfiles f hf⟩
  have hnone : files.filterMap SpillFile.owned? = [] :=
    List.filterMap_eq_nil_iff.mpr fun f hf => (hfiles f hf).owned?
  rw [hnone]
  exact .refl _

theorem Owned.reassign (ho : base.Owned h files)
    (hsame : files.filterMap SpillFile.owned? ~ files'.filterMap SpillFile.owned?)
    (hhollow : ∀ f ∈ files', f.owned? = none → f.IsHollow) : base.Owned h files' := by
  obtain ⟨⟨temps, hkeep, htemps⟩, -⟩ := ho
  exact ⟨⟨temps, hkeep, htemps.trans hsame⟩, hhollow⟩

theorem Owned.opened (ho : base.Owned h files) (hf : f ∈ files) :
    f.IsHollow ∨ f.path ≠ [] ∧ ∃ place node position,
      h.disk.resolve f.path = .ok (.file place node) ∧ f.file = some (.file node position) := by
  obtain ⟨⟨temps, hkeep, htemps⟩, hhollow⟩ := ho
  cases howned : f.owned? with
  | none => exact Or.inl (hhollow f hf howned)
  | some file =>
    obtain ⟨t, ht, rfl⟩ := List.mem_map.mp
      (htemps.symm.subset (List.mem_filterMap.mpr ⟨f, hf, howned⟩))
    obtain ⟨hpath, position, hfile⟩ := SpillFile.eq_of_owned? howned
    have hfound := (hkeep.leads t ht).resolve
    rw [Disk.found_of_some (hkeep.node?_eq ht)] at hfound
    exact Or.inr ⟨hpath ▸ hkeep.named t ht, t.place, t.node, position, hpath ▸ hfound, hfile⟩

theorem Owned.of_parts (ho : base.Owned h files) {drawn : Nat} {log : Log} :
    base.Owned { h with disk := { h.disk with drawn }, log } files := by
  obtain ⟨⟨temps, hk, htemps⟩, hhollow⟩ := ho
  refine ⟨⟨temps, ?_, htemps⟩, hhollow⟩
  exact ⟨hk.tree, hk.sizeLimit, hk.files, hk.registry, hk.older, hk.leads, hk.named, hk.numbered,
    hk.nodes, hk.places, hk.fresh⟩

/-- **Removing a spill file** takes its temporary file away, if it has one, and leaves the others. -/
theorem Owned.remove (ho : base.Owned h (f :: others)) :
    base.Owned (f.remove h).1 others ∧ h.Spares (f.remove h).1 := by
  obtain ⟨⟨temps, hkeep, htemps⟩, hhollow⟩ := ho
  have hothers : ∀ g ∈ others, g.owned? = none → g.IsHollow :=
    fun g hg => hhollow g (List.mem_cons_of_mem _ hg)
  cases hf : f.owned? with
  | none =>
    have hempty := hhollow f List.mem_cons_self hf
    rw [hempty.remove]
    rw [List.filterMap_cons_none hf] at htemps
    exact ⟨⟨⟨temps, hkeep, htemps⟩, hothers⟩, .of_nodes rfl⟩
  | some file =>
    rw [List.filterMap_cons_some hf] at htemps
    obtain ⟨t, ht, hentry⟩ := List.mem_map.mp (htemps.symm.subset List.mem_cons_self)
    obtain ⟨before, behind, rfl⟩ := List.append_of_mem ht
    have hpath : f.path = t.path := by
      rw [← hentry] at hf
      exact (SpillFile.eq_of_owned? hf).1
    obtain ⟨hkeep', hspare⟩ := hkeep.remove hpath
    refine ⟨⟨⟨before ++ behind, hkeep', ?_⟩, hothers⟩, hspare⟩
    have hmiddle : ((before ++ t :: behind).map fun t => (t.path, t.node))
        ~ file :: (before ++ behind).map fun t => (t.path, t.node) := by
      rw [← hentry]
      simp
    exact (hmiddle.symm.trans htemps).cons_inv

/-- **Writing a payload to a new file** adds a spill file that owns it, or nothing. -/
theorem Owned.writeUnder (ho : base.Owned h files) (source : Source) (size : UInt64)
    (directory : Bytes) (refuses : Spill.Refusals) :
    (match (Spill.writeUnder refuses h source size directory).result with
      | .ok f => base.Owned (Spill.writeUnder refuses h source size directory).host (f :: files)
      | .error _ => base.Owned (Spill.writeUnder refuses h source size directory).host files) ∧
      h.Spares (Spill.writeUnder refuses h source size directory).host := by
  obtain ⟨⟨temps, hkeep, htemps⟩, hhollow⟩ := ho
  obtain ⟨hleaves, hspare⟩ := Spill.leaves_writeUnder hkeep source size directory refuses
  refine ⟨?_, hspare⟩
  unfold Spill.Leaves at hleaves
  cases hresult : (Spill.writeUnder refuses h source size directory).result with
  | error e =>
    rw [hresult] at hleaves
    exact ⟨⟨temps, hleaves, htemps⟩, hhollow⟩
  | ok f =>
    rw [hresult] at hleaves
    obtain ⟨t, rfl, hkeep'⟩ := hleaves
    have howned : (⟨t.path, some (.file t.node 0), size⟩ : SpillFile).owned?
        = some (t.path, t.node) := rfl
    refine ⟨⟨temps ++ [t], hkeep', ?_⟩, fun g hg hnone => ?_⟩
    · rw [List.map_append, List.filterMap_cons_some howned]
      exact (List.perm_append_singleton _ _).trans (htemps.cons _)
    · rcases List.mem_cons.mp hg with rfl | hg
      · rw [howned] at hnone
        cases hnone
      · exact hhollow g hg hnone

theorem Owned.replace (ho : base.Owned h (g :: files)) (hi : files[i]? = some f) :
    base.Owned (f.remove h).1 (files.set i g) ∧ h.Spares (f.remove h).1 := by
  obtain ⟨before, behind, rfl, -, hset⟩ := exists_split_at hi
  have hfront : g :: (before ++ f :: behind) ~ f :: g :: (before ++ behind) :=
    (List.perm_middle.cons g).trans (.swap ..)
  have hfirst : base.Owned h (f :: g :: (before ++ behind)) :=
    ho.reassign (hfront.filterMap _) fun a ha => ho.hollow a (hfront.symm.subset ha)
  obtain ⟨howned, hspare⟩ := hfirst.remove
  have hback : g :: (before ++ behind) ~ before ++ g :: behind := List.perm_middle.symm
  rw [hset g]
  exact ⟨howned.reassign (hback.filterMap _) fun a ha => howned.hollow a (hback.symm.subset ha),
    hspare⟩

theorem Owned.cons (ho : base.Owned h files) (hg : g.IsHollow) : base.Owned h (g :: files) := by
  refine ho.reassign ?_ fun a ha => ?_
  · rw [List.filterMap_cons_none hg.owned?]
  · rcases List.mem_cons.mp ha with rfl | ha
    · exact fun _ => hg
    · exact ho.hollow a ha

theorem Owned.update (ho : base.Owned h files) (hi : files[i]? = some f)
    (hsame : g.owned? = f.owned?) (hg : g.owned? = none → g.IsHollow) :
    base.Owned h (files.set i g) := by
  obtain ⟨others, hbefore, hafter⟩ := exists_others SpillFile.owned? hi
  refine ho.reassign (hbefore.trans ?_) fun a ha => ?_
  · rw [← hsame]
    exact (hafter g).symm
  · rcases List.mem_or_eq_of_mem_set ha with ha | rfl
    · exact ho.hollow a ha
    · exact hg

theorem Owned.read (ho : base.Owned h files) (hi : files[i]? = some f) (d : Disk) (n : Nat) :
    base.Owned h (files.set i (f.read d n).2) := by
  have hsame := SpillFile.read_owned? d f n
  refine ho.update hi hsame fun hnone => ?_
  have hhollow := ho.hollow f (List.mem_of_getElem? hi) (hsame ▸ hnone)
  rw [hhollow.read]
  exact hhollow

/-- **Moving a spill file** to where nothing is owned. -/
theorem Owned.shift (ho : base.Owned h files) (hi : files[i]? = some g) (hg : g.IsHollow)
    (hj : files[j]? = some f) (hne : i ≠ j) :
    base.Owned h ((files.set i f).set j .empty) := by
  have hmoved : (files.set i f)[j]? = some f := by
    rw [List.getElem?_set_ne hne]
    exact hj
  obtain ⟨others, hbefore, hbetween⟩ := exists_others SpillFile.owned? hi
  obtain ⟨others', hbetween', hafter⟩ := exists_others SpillFile.owned? hmoved
  have hsame : others ~ others' :=
    (List.perm_append_left_iff _).mp ((hbetween f).symm.trans hbetween')
  have hempty : ((files.set i f).set j .empty).filterMap SpillFile.owned? ~ others' := hafter .empty
  rw [hg.owned?] at hbefore
  refine ho.reassign ((hbefore.trans hsame).trans hempty.symm) fun a ha => ?_
  rcases List.mem_or_eq_of_mem_set ha with ha | rfl
  · rcases List.mem_or_eq_of_mem_set ha with ha | rfl
    · exact ho.hollow a ha
    · exact ho.hollow a (List.mem_of_getElem? hj)
  · exact fun _ => SpillFile.isHollow_empty

/-- **Removing what is on the list** leaves no temporary file. -/
theorem Keeps.discardAll {temps : List Temporary} (hk : base.Keeps h temps) :
    ((temps.map Temporary.path).reverse.foldl Disk.discard h.disk).files = base.disk.files := by
  induction temps using List.reverseRecOn generalizing h with
  | nil => simpa using hk.files
  | append_singleton temps t ih =>
    obtain ⟨hgone, -⟩ := hk.abandon
    rw [List.append_nil] at hgone
    rw [List.map_append, List.reverse_append]
    exact ih hgone

end Host

namespace Spill.Slots

/-! ## 2. What can be done -/

/-- Something that is done with a row of spill files. -/
inductive Deed where
  /-- A slot more, with nothing in it. -/
  | add
  /-- The next bytes of a stream are written to a new file for a slot.  The file system tries the
  endings of names from a number on, and refuses what it refuses. -/
  | write (slot : Nat) (source : Source) (size : UInt64) (directory : Bytes) (drawn : Nat)
    (refuses : Refusals)
  | read (slot count : Nat)
  | remove (slot : Nat)
  | move (target origin : Nat)
  /-- A slot more, with what is moved out of another. -/
  | construct (origin : Nat)
  /-- A slot comes to its end. -/
  | destroy (slot : Nat)

/-- The file system goes on with other names. -/
def redraw (s : Slots) (drawn : Nat) : Slots :=
  { s with host := { s.host with disk := { s.host.disk with drawn } } }

/-- What a deed does; `none` when there is no such slot. -/
def next (s : Slots) : Deed → Option Slots
  | .add => some { s with files := s.files ++ [.empty] }
  | .write i source size directory drawn refuses =>
    if i < s.files.length then
      some ((s.redraw drawn).writeUnder refuses i source size directory).2
    else none
  | .read i n => if i < s.files.length then some (s.read i n).2 else none
  | .remove i => if i < s.files.length then some (s.remove i) else none
  | .move target origin =>
    if target < s.files.length ∧ origin < s.files.length then some (s.move target origin) else none
  | .construct origin =>
    if origin < s.files.length then
      some { s with files := s.files.set origin .empty ++ [s.get origin] }
    else none
  | .destroy i =>
    if i < s.files.length then
      some { s.remove i with files := s.files.eraseIdx i }
    else none

/-- What a row of deeds leads to. -/
def follow (s : Slots) : List Deed → Option Slots
  | [] => some s
  | d :: rest => (s.next d).bind fun s' => s'.follow rest

variable {base : Host} {s s' : Slots} {i j : Nat} {d : Deed}

theorem getElem?_get (hi : i < s.files.length) : s.files[i]? = some (s.get i) := by
  rw [get, List.getD_eq_getElem?_getD, List.getElem?_eq_getElem hi]
  rfl

/-- The spill files in the slots own what there is. -/
def Owns (base : Host) (s : Slots) : Prop := base.Owned s.host s.files

/-! ## 3. One deed -/

theorem Owns.redraw (h : s.Owns base) (drawn : Nat) : (s.redraw drawn).Owns base :=
  Host.Owned.of_parts h

theorem Owns.writeUnder (h : s.Owns base) (hi : i < s.files.length) (source : Source) (size : UInt64)
    (directory : Bytes) (refuses : Refusals) :
    (s.writeUnder refuses i source size directory).2.Owns base := by
  obtain ⟨hwritten, -⟩ := Host.Owned.writeUnder h source size directory refuses
  unfold Slots.writeUnder Owns
  simp only
  cases hresult : (Spill.writeUnder refuses s.host source size directory).result with
  | error e =>
    rw [hresult] at hwritten
    exact hwritten
  | ok f =>
    rw [hresult] at hwritten
    exact (hwritten.replace (getElem?_get hi)).1

theorem Owns.read (h : s.Owns base) (hi : i < s.files.length) (n : Nat) :
    (s.read i n).2.Owns base :=
  Host.Owned.read h (getElem?_get hi) s.host.disk n

theorem Owns.replace_hollow (h : s.Owns base) (hi : i < s.files.length) {f : SpillFile}
    (hf : f.IsHollow) : (s.replace i f).Owns base :=
  ((Host.Owned.cons h hf).replace (getElem?_get hi)).1

theorem Owns.remove (h : s.Owns base) (hi : i < s.files.length) : (s.remove i).Owns base :=
  h.replace_hollow hi (SpillFile.isHollow_remove s.host (s.get i))

theorem Owns.move (h : s.Owns base) (hi : i < s.files.length) (hj : j < s.files.length) :
    (s.move i j).Owns base := by
  unfold Slots.move
  split
  · exact h
  · rename_i hne
    have hemptied := h.replace_hollow hi SpillFile.isHollow_empty
    have htarget : (s.replace i .empty).files[i]? = some .empty := List.getElem?_set_self hi
    have horigin : (s.replace i .empty).files[j]? = some (s.get j) :=
      (List.getElem?_set_ne hne).trans (getElem?_get hj)
    have hmoved := Host.Owned.shift hemptied htarget SpillFile.isHollow_empty horigin hne
    rw [replace, List.set_set] at hmoved
    exact hmoved

theorem Owns.add (h : s.Owns base) : ({ s with files := s.files ++ [.empty] } : Slots).Owns base := by
  have hone : SpillFile.empty :: s.files ~ s.files ++ [.empty] :=
    (List.perm_append_singleton _ _).symm
  have hmore := Host.Owned.cons h SpillFile.isHollow_empty
  exact hmore.reassign (hone.filterMap _) fun f hf => hmore.hollow f (hone.symm.subset hf)

theorem Owns.construct (h : s.Owns base) (hi : i < s.files.length) :
    ({ s with files := s.files.set i .empty ++ [s.get i] } : Slots).Owns base := by
  have hlast : (s.files ++ [SpillFile.empty])[s.files.length]? = some .empty :=
    List.getElem?_concat_length
  have hfirst : (s.files ++ [SpillFile.empty])[i]? = some (s.get i) :=
    (List.getElem?_append_left hi).trans (getElem?_get hi)
  have hmoved := Host.Owned.shift h.add hlast SpillFile.isHollow_empty hfirst hi.ne'
  have hfiles : ((s.files ++ [SpillFile.empty]).set s.files.length (s.get i)).set i .empty
      = s.files.set i .empty ++ [s.get i] := by
    rw [List.set_append_right _ _ le_rfl, Nat.sub_self, List.set_cons_zero,
      List.set_append_left _ _ hi]
  rw [hfiles] at hmoved
  exact hmoved

theorem Owns.destroy (h : s.Owns base) (hi : i < s.files.length) :
    ({ s.remove i with files := s.files.eraseIdx i } : Slots).Owns base := by
  have hsplit : s.files ~ s.get i :: s.files.eraseIdx i := by
    have hget : s.get i = s.files[i] := by
      rw [get, List.getD_eq_getElem _ _ hi]
    rw [hget]
    exact (List.getElem_cons_eraseIdx_perm hi).symm
  have hfront := Host.Owned.reassign h (hsplit.filterMap _) fun f hf =>
    h.hollow f (hsplit.symm.subset hf)
  exact hfront.remove.1

/-- **Every deed keeps it so.** -/
theorem Owns.next (h : s.Owns base) (hstep : s.next d = some s') : s'.Owns base := by
  cases d with
  | add =>
    obtain rfl := Option.some.inj hstep
    exact h.add
  | write i source size directory drawn refuses =>
    rw [Slots.next] at hstep
    split at hstep
    · rename_i hi
      obtain rfl := Option.some.inj hstep
      exact (h.redraw drawn).writeUnder hi source size directory refuses
    · cases hstep
  | read i n =>
    rw [Slots.next] at hstep
    split at hstep
    · rename_i hi
      obtain rfl := Option.some.inj hstep
      exact h.read hi n
    · cases hstep
  | remove i =>
    rw [Slots.next] at hstep
    split at hstep
    · rename_i hi
      obtain rfl := Option.some.inj hstep
      exact h.remove hi
    · cases hstep
  | move target origin =>
    rw [Slots.next] at hstep
    split at hstep
    · rename_i hboth
      obtain rfl := Option.some.inj hstep
      exact h.move hboth.1 hboth.2
    · cases hstep
  | construct origin =>
    rw [Slots.next] at hstep
    split at hstep
    · rename_i hi
      obtain rfl := Option.some.inj hstep
      exact h.construct hi
    · cases hstep
  | destroy i =>
    rw [Slots.next] at hstep
    split at hstep
    · rename_i hi
      obtain rfl := Option.some.inj hstep
      exact h.destroy hi
    · cases hstep

theorem owns_create (host : Host) (count : Nat) : (create host count).Owns host := by
  refine Host.owned_nothing host fun f hf => ?_
  obtain rfl := List.eq_of_mem_replicate hf
  exact SpillFile.isHollow_empty

/-- **What a row of deeds leads to.**  The induction is on the deeds. -/
theorem Owns.follow {deeds : List Deed} (h : s.Owns base) (hrun : s.follow deeds = some s') :
    s'.Owns base := by
  induction deeds generalizing s with
  | nil =>
    obtain rfl := Option.some.inj hrun
    exact h
  | cons d rest ih =>
    obtain ⟨t, hstep, hrest⟩ := Option.bind_eq_some_iff.mp hrun
    exact ih (h.next hstep) hrest

/-! ## 4. The end of all slots -/

theorem Owns.remove_first (h : s.Owns base) {n : Nat} (hn : n ≤ s.files.length) :
    ((List.range n).foldl Slots.remove s).Owns base ∧
      ((List.range n).foldl Slots.remove s).files.length = s.files.length ∧
      ∀ i f, i < n → ((List.range n).foldl Slots.remove s).files[i]? = some f → f.IsHollow := by
  induction n with
  | zero => exact ⟨h, rfl, nofun⟩
  | succ n ih =>
    obtain ⟨howns, hlen, hempty⟩ := ih (Nat.le_of_succ_le hn)
    rw [List.range_succ, List.foldl_concat]
    have hslot : n < ((List.range n).foldl Slots.remove s).files.length := hlen.symm ▸ hn
    refine ⟨howns.remove hslot, List.length_set.trans hlen, fun i f hi hf => ?_⟩
    rcases Nat.lt_succ_iff_lt_or_eq.mp hi with hi | rfl
    · rw [Slots.remove, List.getElem?_set_ne hi.ne'] at hf
      exact hempty i f hi hf
    · rw [Slots.remove, List.getElem?_set_self hslot] at hf
      obtain rfl := Option.some.inj hf
      exact SpillFile.isHollow_remove _ _

theorem Owns.finish (h : s.Owns base) :
    s.finish.Owns base ∧ ∀ f ∈ s.finish.files, f.IsHollow := by
  obtain ⟨howns, hlen, hempty⟩ := h.remove_first le_rfl
  refine ⟨howns, fun f hf => ?_⟩
  obtain ⟨i, hi, rfl⟩ := List.mem_iff_getElem.mp hf
  exact hempty i _ (hlen ▸ hi) (List.getElem?_eq_getElem hi)

/-! ## 5. Three views of the same files -/

/-- The paths in the slots. -/
def paths (s : Slots) : List Bytes := (s.files.map SpillFile.path).filter (· ≠ [])

theorem paths_eq {files : List SpillFile} (hhollow : ∀ f ∈ files, f.owned? = none → f.IsHollow)
    (hnamed : ∀ file ∈ files.filterMap SpillFile.owned?, file.1 ≠ []) :
    (files.map SpillFile.path).filter (· ≠ []) = (files.filterMap SpillFile.owned?).map Prod.fst := by
  induction files with
  | nil => rfl
  | cons f files ih =>
    have hrest := ih fun g hg => hhollow g (List.mem_cons_of_mem _ hg)
    cases hf : f.owned? with
    | none =>
      have hpath := (hhollow f List.mem_cons_self hf).path
      rw [List.filterMap_cons_none hf] at hnamed ⊢
      rw [List.map_cons, List.filter_cons_of_neg (by simpa using hpath), hrest hnamed]
    | some file =>
      have hpath := (SpillFile.eq_of_owned? hf).1
      rw [List.filterMap_cons_some hf] at hnamed ⊢
      have hne : f.path ≠ [] := hpath ▸ hnamed file List.mem_cons_self
      rw [List.map_cons, List.filter_cons_of_pos (by simpa using hne),
        hrest fun g hg => hnamed g (List.mem_cons_of_mem _ hg), List.map_cons, hpath]

theorem Owns.temps (h : s.Owns base) :
    ∃ temps, base.Keeps s.host temps ∧ temps.map Temporary.path ~ s.paths := by
  obtain ⟨⟨temps, hkeep, htemps⟩, hhollow⟩ := h
  refine ⟨temps, hkeep, ?_⟩
  have hnamed : ∀ file ∈ s.files.filterMap SpillFile.owned?, file.1 ≠ [] := by
    intro file hfile
    obtain ⟨t, ht, rfl⟩ := List.mem_map.mp (htemps.symm.subset hfile)
    exact hkeep.named t ht
  rw [paths, paths_eq hhollow hnamed]
  have hfirst := htemps.map Prod.fst
  rw [List.map_map] at hfirst
  exact hfirst

theorem nodup_paths {h : Host} {temps : List Temporary} (hkeep : base.Keeps h temps) :
    (temps.map Temporary.path).Nodup := by
  have hplaces : temps.Pairwise fun t t' => t.place ≠ t'.place := List.pairwise_map.mp hkeep.places
  refine List.pairwise_map.mpr (hplaces.imp_of_mem ?_)
  intro t t' ht ht' hplace hpath
  have hleads := hkeep.leads t ht
  rw [hpath] at hleads
  exact hplace (hleads.unique (hkeep.leads t' ht'))

theorem Owns.at_rest (h : s.Owns base) (htidy : base.Tidy) (hempty : ∀ f ∈ s.files, f.IsHollow) :
    s.host.disk.files = base.disk.files ∧ s.host.registry = base.registry := by
  obtain ⟨temps, hkeep, hpaths⟩ := h.temps
  have hnone : s.paths = [] := by
    refine List.filter_eq_nil_iff.mpr fun path hpath => ?_
    obtain ⟨f, hf, rfl⟩ := List.mem_map.mp hpath
    simpa using (hempty f hf).path
  have htemps : temps = [] := by simpa [hnone] using hpaths
  subst htemps
  exact ⟨by simpa using hkeep.files, by simpa using hkeep.registry htidy⟩

/-- What was removed or moved away owns nothing. -/
def Vacates (s : Slots) : Prop :=
  (∀ i s', s.next (.remove i) = some s' → (s'.get i).IsHollow) ∧
  (∀ target origin s', target ≠ origin → s.next (.move target origin) = some s' →
    (s'.get origin).IsHollow) ∧
  ∀ origin s', s.next (.construct origin) = some s' → (s'.get origin).IsHollow

theorem get_set_self {files : List SpillFile} {host : Host} (hi : i < files.length) (f : SpillFile) :
    (⟨host, files.set i f⟩ : Slots).get i = f := by
  rw [get, List.getD_eq_getElem?_getD, List.getElem?_set_self hi]
  rfl

theorem vacates (s : Slots) : s.Vacates := by
  refine ⟨fun i s' hstep => ?_, fun target origin s' hne hstep => ?_, fun origin s' hstep => ?_⟩
  · rw [Slots.next] at hstep
    split at hstep
    · rename_i hi
      obtain rfl := Option.some.inj hstep
      rw [remove, get_set_self hi]
      exact SpillFile.isHollow_remove _ _
    · cases hstep
  · rw [Slots.next] at hstep
    split at hstep
    · rename_i hboth
      obtain rfl := Option.some.inj hstep
      have hlen : origin < (s.replace target (s.get origin)).files.length :=
        List.length_set.symm ▸ hboth.2
      rw [move, if_neg hne, get_set_self hlen]
      exact SpillFile.isHollow_empty
    · cases hstep
  · rw [Slots.next] at hstep
    split at hstep
    · rename_i hi
      obtain rfl := Option.some.inj hstep
      have hempty : ({ s with files := s.files.set origin .empty ++ [s.get origin] } : Slots).get
          origin = .empty := by
        rw [get, List.getD_eq_getElem?_getD, List.getElem?_append_left (List.length_set.symm ▸ hi),
          List.getElem?_set_self hi]
        rfl
      rw [hempty]
      exact SpillFile.isHollow_empty
    · cases hstep

/-- **Every temporary file has exactly one owner.** However spill files are written, read, moved and
removed, and at whatever request the file system refuses a write: the temporary files on the disk,
the list and the paths in the slots are the same, no path is in two slots, and the slot of a path
has the file open that the path leads to. What was removed or moved away owns nothing. Nothing is
left once the slots have come to their end, and nothing once all that is on the list was removed.

The file and its entry on the list come about together, before anything can fail, and every exit
without a spill file takes back both (`Owned.writeUnder`). The other deeds hand a path from one slot
to another or take it from all three views at once. -/
theorem owned_once {host : Host} (hlist : host.registry = []) {count : Nat} {deeds : List Deed}
    (hrun : (create host count).follow deeds = some s) :
    (∃ temps : List Temporary,
      s.host.disk.files = host.disk.files ++ temps.map Temporary.entry ∧
      (∀ t ∈ temps, s.host.disk.resolve t.path = .ok (.file t.place t.node)) ∧
      s.host.registry = (temps.map Temporary.path).reverse ∧
      temps.map Temporary.path ~ s.paths) ∧
    s.paths.Nodup ∧
    (∀ f ∈ s.files, f.IsHollow ∨ f.isValid = true ∧ f.path ≠ [] ∧ ∃ place node position,
      s.host.disk.resolve f.path = .ok (.file place node) ∧
      f.file = some (.file node position)) ∧
    s.Vacates ∧
    (s.finish.host.disk.files = host.disk.files ∧ s.finish.host.registry = []) ∧
    s.host.removeRegistered.disk.files = host.disk.files ∧
      s.host.removeRegistered.registry = [] := by
  have htidy : host.Tidy := by
    intro path hpath
    rw [hlist] at hpath
    cases hpath
  have howns := (owns_create host count).follow hrun
  obtain ⟨temps, hkeep, hpaths⟩ := howns.temps
  have hregistry : s.host.registry = (temps.map Temporary.path).reverse := by
    rw [hkeep.registry htidy, hlist, List.append_nil]
  obtain ⟨hfinish, hempty⟩ := howns.finish
  obtain ⟨hfiles, hentries⟩ := hfinish.at_rest htidy hempty
  refine ⟨⟨temps, hkeep.files, fun t ht => ?_, hregistry, hpaths⟩,
    hpaths.nodup_iff.mp (nodup_paths hkeep), fun f hf => ?_, s.vacates,
    ⟨hfiles, hentries.trans hlist⟩, ?_, rfl⟩
  · rw [(hkeep.leads t ht).resolve, Disk.found_of_some (hkeep.node?_eq ht)]
  · refine (Host.Owned.opened howns hf).imp_right fun hopen => ⟨?_, hopen⟩
    obtain ⟨-, place, node, position, -, hfile⟩ := hopen
    rw [SpillFile.isValid, hfile]
    rfl
  · rw [Host.removeRegistered, hregistry]
    exact hkeep.discardAll

/-- A file system that refuses one request. -/
def refusing (request : Request) (cause : SystemError) : Refusals :=
  fun r => if r = request then some cause else none

/-- A file is written to each of two slots, the first is moved onto the second, which is removed, and
then to where it is.  Three payloads leave nothing: one is cut short, the disk is full at the second
block of another, and the file of the third cannot be closed.  A third slot takes the one file
over. -/
def smallRun : List Deed :=
  [.write 0 (.ofBytes [1, 2, 3] 2) 3 (Bytes.ofAscii "/tmp") 7 willing,
    .write 1 (.ofBytes [4] 0) 1 (Bytes.ofAscii "/tmp") 7 willing, .move 1 0, .move 1 1, .read 1 2,
    .write 0 (.ofBytes [5] 0) 2 (Bytes.ofAscii "/tmp") 7 willing,
    .write 0 (.ofBytes [1, 2, 3] 2) 3 (Bytes.ofAscii "/tmp") 7 (refusing (.write 1) .noSpace),
    .write 0 (.ofBytes [6] 0) 1 (Bytes.ofAscii "/tmp") 7 (refusing .close .deviceFault),
    .construct 1, .remove 1, .destroy 0]

theorem owned_once_small :
    ∃ s, (create .empty 2).follow smallRun = some s ∧
      s.files.map SpillFile.isValid = [false, true] ∧
      s.paths = s.host.registry ∧ s.host.registry.length = 1 ∧ s.host.disk.files.length = 1 ∧
      s.host.removeRegistered.disk.files = [] ∧ s.finish.host.disk.files = [] ∧
      s.finish.host.registry = [] := by
  have hruns : ((create .empty 2).follow smallRun).any (fun s =>
      s.files.map SpillFile.isValid = [false, true] ∧ s.paths = s.host.registry ∧
        s.host.registry.length = 1 ∧ s.host.disk.files.length = 1) = true := by
    decide +kernel
  obtain ⟨s, hrun, hends⟩ := (Option.any_eq_true _ _).mp hruns
  obtain ⟨hvalid, hpaths, hlisted, hdisk⟩ := of_decide_eq_true hends
  obtain ⟨-, -, -, -, ⟨hfinish, hrest⟩, hremoved, -⟩ := owned_once rfl hrun
  exact ⟨s, hrun, hvalid, hpaths, hlisted, hdisk, hremoved, hfinish, hrest⟩

end Spill.Slots

end Intake
