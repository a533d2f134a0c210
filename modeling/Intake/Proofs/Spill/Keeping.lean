/-
# Temporary files in use

`Host.Keeps base h temps` says that a host is as `base` was but for some temporary files, each of
which is at a place of its own, with a node of its own.  Making a temporary file adds one
(`Keeps.created`), removing it takes it away again (`Keeps.removed`), and nothing that is done to
one of them is seen in another.

A host is `Tidy` when every path on its list, the `SpillRegistry`, is that of a file.  This is what
keeps the path of a new file from being on the list already, so that the list is what it was but for
the temporary files that are in use.
-/
import Mathlib
import Intake.Spill.Write
import Intake.Proofs.Disk.Temporary

namespace Intake

/-- A temporary file in use. -/
structure Temporary where
  path : Bytes
  place : Place
  node : Nat

/-- The entry of a temporary file in the table of files. -/
def Temporary.entry (t : Temporary) : Place × Nat := (t.place, t.node)

namespace Host

/-- Every path on the list is that of a file. -/
def Tidy (h : Host) : Prop :=
  ∀ path ∈ h.registry, ∃ place node, h.disk.resolve path = .ok (.file place node)

/-- A host as it was, and some temporary files. -/
structure Keeps (base h : Host) (temps : List Temporary) : Prop where
  tree : base.disk.SameTree h.disk
  sizeLimit : h.disk.sizeLimit = base.disk.sizeLimit
  files : h.disk.files = base.disk.files ++ temps.map Temporary.entry
  registry : base.Tidy → h.registry = (temps.map Temporary.path).reverse ++ base.registry
  older : base.disk.nodes <+: h.disk.nodes
  leads : ∀ t ∈ temps, h.disk.Leads t.path t.place
  named : ∀ t ∈ temps, t.path ≠ []
  numbered : ∀ t ∈ temps, base.disk.nodes.length ≤ t.node ∧ t.node < h.disk.nodes.length
  nodes : (temps.map Temporary.node).Nodup
  places : (temps.map Temporary.place).Nodup
  fresh : ∀ t ∈ temps, base.disk.node? t.place = none

variable {base h : Host} {temps : List Temporary}

theorem keeps_self (base : Host) : base.Keeps base [] where
  tree := .refl _
  sizeLimit := rfl
  files := by simp
  registry := by simp
  older := List.prefix_refl _
  leads := by simp
  named := by simp
  numbered := by simp
  nodes := by simp
  places := by simp
  fresh := by simp

theorem Keeps.of_parts {h' : Host} (hk : base.Keeps h temps) (hdisk : h'.disk = h.disk)
    (hlist : h'.registry = h.registry) : base.Keeps h' temps := by
  constructor
  · rw [hdisk]; exact hk.tree
  · rw [hdisk]; exact hk.sizeLimit
  · rw [hdisk]; exact hk.files
  · rw [hlist]; exact hk.registry
  · rw [hdisk]; exact hk.older
  · rw [hdisk]; exact hk.leads
  · exact hk.named
  · rw [hdisk]; exact hk.numbered
  · exact hk.nodes
  · exact hk.places
  · exact hk.fresh

theorem Keeps.report (hk : base.Keeps h temps) (e : Event) : base.Keeps (h.report e) temps :=
  hk.of_parts rfl rfl

/-! ## 1. Where the files are -/

theorem Keeps.node?_eq (hk : base.Keeps h temps) {t : Temporary} (ht : t ∈ temps) :
    h.disk.node? t.place = some t.node := by
  have hbase : base.disk.files.lookup t.place = none := hk.fresh t ht
  have hplaces := hk.places
  rw [Disk.node?, hk.files, List.lookup_append, hbase, Option.none_or]
  clear hk hbase
  induction temps with
  | nil => cases ht
  | cons a rest ih =>
    rw [List.map_cons, List.nodup_cons] at hplaces
    rcases List.mem_cons.mp ht with rfl | ht
    · simp [Temporary.entry]
    · have hne : t.place ≠ a.place := fun e =>
        hplaces.1 (e ▸ List.mem_map_of_mem ht)
      rw [List.map_cons, List.lookup_cons]
      simp only [Temporary.entry, beq_false_of_ne hne]
      exact ih ht hplaces.2

theorem Keeps.node?_of_base (hk : base.Keeps h temps) {place : Place} {node : Nat}
    (hn : base.disk.node? place = some node) : h.disk.node? place = some node := by
  rw [Disk.node?, hk.files, List.lookup_append]
  rw [Disk.node?] at hn
  simp [hn]

/-- **The path of a new file is not on the list.**  A path on the list leads to a place that is
taken. -/
theorem Keeps.not_listed (hk : base.Keeps h temps) (htidy : base.Tidy) {path : Bytes}
    {place : Place} (hleads : h.disk.Leads path place) (hfree : h.disk.node? place = none) :
    path ∉ h.registry := by
  intro hmem
  rw [hk.registry htidy, List.mem_append, List.mem_reverse, List.mem_map] at hmem
  rcases hmem with ⟨t, ht, rfl⟩ | hmem
  · have hsame := (hk.leads t ht).unique hleads
    rw [← hsame, hk.node?_eq ht] at hfree
    cases hfree
  · obtain ⟨place', node, hres⟩ := htidy path hmem
    have hlead := (Disk.leads_of_resolve hres).of_sameTree hk.tree
    have hsame := hlead.unique hleads
    have hfound := (Disk.leads_of_resolve hres).resolve
    rw [hres] at hfound
    have hnode : base.disk.node? place' = some node := by
      have hfound := Except.ok.inj hfound
      unfold Disk.found at hfound
      split at hfound
      · rename_i n hn
        rw [hn, (Target.file.inj hfound).2]
      · cases hfound
    rw [← hsame, hk.node?_of_base hnode] at hfree
    cases hfree

/-! ## 2. Making one and removing it -/

/-- Nothing is written to the nodes that there are. -/
def Spares (h h' : Host) : Prop :=
  h.disk.nodes.length ≤ h'.disk.nodes.length ∧
    ∀ n < h.disk.nodes.length, h'.disk.content n = h.disk.content n

theorem Spares.of_nodes {h' : Host} (hn : h'.disk.nodes = h.disk.nodes) : h.Spares h' :=
  ⟨by rw [hn], fun n _ => by rw [Disk.content, hn, ← Disk.content]⟩

theorem Spares.trans {h' h'' : Host} (hs : h.Spares h') (hs' : h'.Spares h'') : h.Spares h'' :=
  ⟨hs.1.trans hs'.1, fun n hn => (hs'.2 n (by have := hs.1; omega)).trans (hs.2 n hn)⟩

theorem content_addFile (d : Disk) (p : Place) (f : FileNode) {n : Nat} (hn : n < d.nodes.length) :
    (d.addFile p f).2.content n = d.content n := by
  simp [Disk.content, Disk.addFile, List.getElem?_append_left hn]

theorem content_setContent_self (d : Disk) (f : FileNode) {n : Nat} (hn : n < d.nodes.length) :
    (d.setContent n f).content n = f := by
  simp [Disk.content, Disk.setContent, hn]

theorem content_setContent_of_ne (d : Disk) (f : FileNode) {m n : Nat} (h : m ≠ n) :
    (d.setContent n f).content m = d.content m := by
  simp [Disk.content, Disk.setContent, List.getElem?_set_ne h.symm]

/-- **Making a temporary file** adds it to those that are kept. -/
theorem Keeps.created (hk : base.Keeps h temps) {path : Bytes} {place : Place}
    (hleads : h.disk.Leads path place) (hfree : h.disk.occupied place = false) (hpath : path ≠ [])
    (f : FileNode) (drawn : Nat) :
    base.Keeps (({ h with disk := { (h.disk.addFile place f).2 with drawn } } : Host).register path)
      (temps ++ [⟨path, place, h.disk.nodes.length⟩]) := by
  have hnone : h.disk.node? place = none := by
    have hsome := (Bool.or_eq_false_iff.mp hfree).2
    simpa using hsome
  have hbase : base.disk.node? place = none := by
    by_contra hsome
    obtain ⟨node, hnode⟩ := Option.ne_none_iff_exists'.mp hsome
    rw [hk.node?_of_base hnode] at hnone
    cases hnone
  have htree : h.disk.SameTree { (h.disk.addFile place f).2 with drawn } := ⟨rfl, rfl⟩
  have hplace : ∀ t ∈ temps, t.place ≠ place := by
    intro t ht e
    rw [← e, hk.node?_eq ht] at hnone
    cases hnone
  constructor
  · exact hk.tree.trans htree
  · exact hk.sizeLimit
  · show h.disk.files ++ [(place, h.disk.nodes.length)] = _
    rw [hk.files, List.map_append, List.append_assoc]
    rfl
  · intro htidy
    show h.registry.insert path = _
    rw [List.insert_of_not_mem (hk.not_listed htidy hleads hnone), hk.registry htidy]
    simp
  · exact hk.older.trans (List.prefix_append _ _)
  · intro t ht
    rcases List.mem_append.mp ht with ht | ht
    · exact (hk.leads t ht).of_sameTree htree
    · obtain rfl := List.mem_singleton.mp ht
      exact hleads.of_sameTree htree
  · intro t ht
    rcases List.mem_append.mp ht with ht | ht
    · exact hk.named t ht
    · obtain rfl := List.mem_singleton.mp ht
      exact hpath
  · intro t ht
    have hlen : ({ (h.disk.addFile place f).2 with drawn } : Disk).nodes.length
        = h.disk.nodes.length + 1 := by simp [Disk.addFile]
    show _ ∧ t.node < ({ (h.disk.addFile place f).2 with drawn } : Disk).nodes.length
    rw [hlen]
    rcases List.mem_append.mp ht with ht | ht
    · have hn := hk.numbered t ht
      omega
    · obtain rfl := List.mem_singleton.mp ht
      exact ⟨hk.older.length_le, Nat.lt_succ_self _⟩
  · rw [List.map_append, List.nodup_append]
    refine ⟨hk.nodes, by simp, ?_⟩
    intro n hn m hm
    obtain ⟨t, ht, rfl⟩ := List.mem_map.mp hn
    obtain rfl : m = h.disk.nodes.length := by simpa using hm
    have := (hk.numbered t ht).2
    omega
  · rw [List.map_append, List.nodup_append]
    refine ⟨hk.places, by simp, ?_⟩
    intro p hp q hq
    obtain ⟨t, ht, rfl⟩ := List.mem_map.mp hp
    obtain rfl : q = place := by simpa using hq
    exact hplace t ht
  · intro t ht
    rcases List.mem_append.mp ht with ht | ht
    · exact hk.fresh t ht
    · obtain rfl := List.mem_singleton.mp ht
      exact hbase

theorem Keeps.setContent (hk : base.Keeps h temps) {node : Nat} (f : FileNode)
    (hnew : base.disk.nodes.length ≤ node) :
    base.Keeps { h with disk := h.disk.setContent node f } temps := by
  have htree : h.disk.SameTree (h.disk.setContent node f) := ⟨rfl, rfl⟩
  have hlen : (h.disk.setContent node f).nodes.length = h.disk.nodes.length := List.length_set
  refine ⟨hk.tree.trans htree, hk.sizeLimit, hk.files, hk.registry, ?_,
    fun t ht => (hk.leads t ht).of_sameTree htree, hk.named, ?_, hk.nodes, hk.places, hk.fresh⟩
  · obtain ⟨others, hothers⟩ := hk.older
    show base.disk.nodes <+: h.disk.nodes.set node f
    rw [← hothers, List.set_append_right _ _ hnew]
    exact List.prefix_append _ _
  · intro t ht
    rw [hlen]
    exact hk.numbered t ht

/-- **Removing a temporary file** leaves the others. -/
theorem Keeps.removed {t : Temporary} {before behind : List Temporary}
    (hk : base.Keeps h (before ++ t :: behind)) :
    base.Keeps (({ h with disk := h.disk.removeFile t.place } : Host).unregister t.path)
      (before ++ behind) := by
  have hsub : (before ++ behind).Sublist (before ++ t :: behind) :=
    (List.sublist_cons_self t behind).append_left before
  have htree : h.disk.SameTree (h.disk.removeFile t.place) := ⟨rfl, rfl⟩
  have ht : t ∈ before ++ t :: behind := by simp
  have hplaces := hk.places
  rw [List.map_append, List.map_cons, List.nodup_middle, List.nodup_cons] at hplaces
  have hother : ∀ a ∈ before ++ behind, a.place ≠ t.place := by
    intro a ha e
    apply hplaces.1
    rw [← List.map_append, ← e]
    exact List.mem_map_of_mem ha
  have hpath : ∀ a ∈ before ++ behind, a.path ≠ t.path := by
    intro a ha e
    apply hother a ha
    have hlead := hk.leads a (hsub.subset ha)
    rw [e] at hlead
    exact hlead.unique (hk.leads t ht)
  refine ⟨hk.tree.trans htree, hk.sizeLimit, ?_, ?_, hk.older,
    fun a ha => (hk.leads a (hsub.subset ha)).of_sameTree htree,
    fun a ha => hk.named a (hsub.subset ha), fun a ha => hk.numbered a (hsub.subset ha),
    hk.nodes.sublist (hsub.map _), hk.places.sublist (hsub.map _),
    fun a ha => hk.fresh a (hsub.subset ha)⟩
  · show h.disk.files.filter (fun entry => entry.1 != t.place) = _
    have hkeep : ∀ rest : List Temporary, rest ⊆ before ++ behind →
        (rest.map Temporary.entry).filter (fun entry => entry.1 != t.place)
          = rest.map Temporary.entry := by
      intro rest hrest
      rw [List.filter_eq_self]
      intro entry hentry
      obtain ⟨a, ha, rfl⟩ := List.mem_map.mp hentry
      exact bne_iff_ne.mpr (hother a (hrest ha))
    have hbase : base.disk.files.filter (fun entry => entry.1 != t.place) = base.disk.files := by
      rw [List.filter_eq_self]
      intro entry hentry
      have hfresh : base.disk.files.lookup t.place = none := hk.fresh t ht
      exact bne_iff_ne.mpr (bne_iff_ne.mp (List.lookup_eq_none_iff.mp hfresh entry hentry)).symm
    rw [hk.files, List.filter_append, hbase, List.map_append, List.map_cons, List.filter_append,
      List.filter_cons_of_neg (by simp [Temporary.entry]), hkeep before (by simp),
      hkeep behind (by simp), List.map_append]
  · intro htidy
    show h.registry.erase t.path = _
    have hnot : t.path ∉ (behind.map Temporary.path).reverse := by
      rw [List.mem_reverse, List.mem_map]
      rintro ⟨a, ha, e⟩
      exact hpath a (List.mem_append_right _ ha) e
    rw [hk.registry htidy]
    simp only [List.map_append, List.map_cons, List.reverse_append, List.reverse_cons,
      List.append_assoc]
    rw [List.erase_append_right _ hnot, List.singleton_append, List.erase_cons_head]

theorem Keeps.remove {t : Temporary} {before behind : List Temporary}
    (hk : base.Keeps h (before ++ t :: behind)) {f : SpillFile} (hf : f.path = t.path) :
    base.Keeps (f.remove h).1 (before ++ behind) ∧ h.Spares (f.remove h).1 := by
  have ht : t ∈ before ++ t :: behind := by simp
  have hunlink := (hk.leads t ht).unlink (hk.node?_eq ht)
  have hpath : t.path.isEmpty = false := by simpa using hk.named t ht
  have hremove : (f.remove h).1
      = ({ h with disk := h.disk.removeFile t.place } : Host).unregister t.path := by
    simp [SpillFile.remove, SpillFile.unlink, hf, hpath, hunlink]
  rw [hremove]
  exact ⟨hk.removed, .of_nodes rfl⟩

theorem Keeps.abandon {t : Temporary} {before behind : List Temporary}
    (hk : base.Keeps h (before ++ t :: behind)) :
    base.Keeps (Spill.abandon h t.path) (before ++ behind) ∧ h.Spares (Spill.abandon h t.path) := by
  have ht : t ∈ before ++ t :: behind := by simp
  rw [Spill.abandon, (hk.leads t ht).discard (hk.node?_eq ht)]
  exact ⟨hk.removed, .of_nodes rfl⟩

end Host

end Intake
