/-
# Temporary files on a disk

What a path leads to is decided by the directories, which are fixed, and then by whether there is a
file at the place that the path names.  `Leads d path place` says that a path names a place,
whatever files come and go; such a path can be opened and unlinked as soon as there is a file
(`Leads.openPath`, `Leads.unlink`).

A temporary file, as `mkstemp` makes one, gets a path that leads to a place where nothing was
(`createTemp_spec`), and making one is only refused for a path that is too long, for a directory
that is not there, and when every name is taken (`createTemp_ok`).
-/
import Mathlib
import Intake.Disk.File

namespace Intake.Disk

/-! ## 1. Walking does not depend on files -/

/-- The directories and the working directory are the same. -/
def SameTree (d d' : Disk) : Prop := d'.directories = d.directories ∧ d'.current = d.current

theorem SameTree.refl (d : Disk) : d.SameTree d := ⟨rfl, rfl⟩

theorem SameTree.trans {d d' d'' : Disk} (h : d.SameTree d') (h' : d'.SameTree d'') :
    d.SameTree d'' :=
  ⟨h'.1.trans h.1, h'.2.trans h.2⟩

theorem SameTree.isDirectory {d d' : Disk} (h : d.SameTree d') (p : Place) :
    d'.isDirectory p = d.isDirectory p := by
  rw [Disk.isDirectory, h.1, ← Disk.isDirectory]

theorem SameTree.start {d d' : Disk} (h : d.SameTree d') (path : Bytes) :
    d'.start path = d.start path := by
  rw [Disk.start, h.2, ← Disk.start]

theorem walk_congr {d d' : Disk} (h : d.SameTree d') {names : List Bytes} {p q : Place}
    (hw : d.walk p names = .ok q) : d'.walk p names = .ok q := by
  induction names generalizing p with
  | nil => exact hw
  | cons name rest ih =>
    simp only [walk] at hw ⊢
    rw [h.isDirectory]
    split at hw
    · rename_i h1
      rw [if_pos h1]
      exact ih hw
    · rename_i h1
      rw [if_neg h1]
      split at hw
      · rename_i h2
        rw [if_pos h2]
        exact ih hw
      · rename_i h2
        rw [if_neg h2]
        split at hw
        · cases hw
        · rename_i h3
          rw [if_neg h3]
          split at hw
          · rename_i h4
            rw [if_pos h4]
            exact ih hw
          · split at hw <;> cases hw

theorem walk_filter (d : Disk) (p : Place) (names : List Bytes) :
    d.walk p (names.filter (· != [])) = d.walk p names := by
  induction names generalizing p with
  | nil => rfl
  | cons name rest ih =>
    by_cases hn : name = []
    · subst hn
      simpa [walk] using ih p
    · have hkeep : (name :: rest).filter (· != []) = name :: rest.filter (· != []) := by
        simp [hn]
      rw [hkeep]
      simp only [walk, ih]

/-! ## 2. Paths and places -/

/-- What is found at a place that is no directory. -/
def found (d : Disk) (place : Place) : Target :=
  match d.node? place with
  | some node => .file place node
  | none => .missing place

/-- A path leads to a place, whichever files there are. -/
def Leads (d : Disk) (path : Bytes) (place : Place) : Prop :=
  ∀ d' : Disk, d.SameTree d' → d'.resolve path = .ok (d'.found place)

theorem Leads.of_sameTree {d d' : Disk} {path : Bytes} {place : Place} (h : d.Leads path place)
    (ht : d.SameTree d') : d'.Leads path place :=
  fun d'' ht' => h d'' (ht.trans ht')

theorem Leads.resolve {d : Disk} {path : Bytes} {place : Place} (h : d.Leads path place) :
    d.resolve path = .ok (d.found place) :=
  h d (.refl d)

theorem found_of_some {d : Disk} {place : Place} {node : Nat} (h : d.node? place = some node) :
    d.found place = .file place node := by
  simp [found, h]

theorem found_inj {d : Disk} {p q : Place} (h : d.found p = d.found q) : p = q := by
  unfold found at h
  split at h <;> split at h <;> cases h <;> rfl

theorem Leads.unique {d : Disk} {path : Bytes} {p q : Place} (hp : d.Leads path p)
    (hq : d.Leads path q) : p = q := by
  have h := hp.resolve.symm.trans hq.resolve
  exact found_inj (Except.ok.inj h)

theorem Leads.openPath {d : Disk} {path : Bytes} {place : Place} {node : Nat}
    (h : d.Leads path place) (hn : d.node? place = some node) :
    d.openPath path = .ok (.file node 0) := by
  simp [Disk.openPath, h.resolve, found_of_some hn]

theorem Leads.unlink {d : Disk} {path : Bytes} {place : Place} {node : Nat}
    (h : d.Leads path place) (hn : d.node? place = some node) :
    d.unlink path = .ok (d.removeFile place) := by
  simp [Disk.unlink, h.resolve, found_of_some hn]

theorem Leads.discard {d : Disk} {path : Bytes} {place : Place} {node : Nat}
    (h : d.Leads path place) (hn : d.node? place = some node) :
    d.discard path = d.removeFile place := by
  simp [Disk.discard, h.unlink hn]

/-- A name that stands for neither this directory nor the one above leads to its place below it. -/
theorem target_of_name {d : Disk} {dir : Place} {name : Bytes} (hdot : name ≠ [46])
    (hdots : name ≠ [46, 46]) (hshort : name.length ≤ longestName)
    (hdir : d.isDirectory (dir ++ [name]) = false) :
    d.target dir name false = .ok (d.found (dir ++ [name])) := by
  simp only [target, if_neg hdot, if_neg hdots, if_neg (Nat.not_lt.mpr hshort), hdir]
  unfold found
  cases d.node? (dir ++ [name]) <;> rfl

/-- Walking to the directory of a last component, and looking for that component there. -/
theorem resolve_of_walk {d : Disk} {path : Bytes} {dirs : List Bytes} {name : Bytes} {dir : Place}
    (hne : path ≠ []) (hroom : path.length < pathRoom)
    (hnames : (Path.components path).filter (· != []) = dirs ++ [name])
    (hwalk : d.walk (d.start path) dirs = .ok dir) :
    d.resolve path = d.target dir name (path.getLast? == some 47) := by
  have hempty : path.isEmpty = false := by simpa using hne
  simp [resolve, hempty, Nat.not_le.mpr hroom, hnames, hwalk]

/-- How a path comes to lead to something: through a directory and a last name in it, unless it
names the directory that walking starts from. -/
theorem walk_of_resolve {d : Disk} {path : Bytes} {t : Target} (h : d.resolve path = .ok t) :
    path ≠ [] ∧ path.length < pathRoom ∧
      (t = .directory (d.start path) ∨
        ∃ dirs name dir, (Path.components path).filter (· != []) = dirs ++ [name] ∧
          d.walk (d.start path) dirs = .ok dir ∧
          d.target dir name (path.getLast? == some 47) = .ok t) := by
  unfold resolve at h
  split at h
  · cases h
  rename_i hempty
  have hne : path ≠ [] := by simpa using hempty
  split at h
  · cases h
  rename_i hroom
  refine ⟨hne, Nat.not_le.mp hroom, ?_⟩
  simp only at h
  split at h
  · exact Or.inl (Except.ok.inj h).symm
  · rename_i name hlast
    split at h
    · cases h
    · rename_i dir hwalk
      obtain ⟨dirs, hnames⟩ := List.getLast?_eq_some_iff.mp hlast
      rw [hnames, List.dropLast_concat] at hwalk
      exact Or.inr ⟨dirs, name, dir, hnames, hwalk, h⟩

theorem name_of_target {d : Disk} {dir : Place} {name : Bytes} {slash : Bool} {place : Place}
    {node : Nat} (h : d.target dir name slash = .ok (.file place node)) :
    place = dir ++ [name] ∧ slash = false ∧ name ≠ [46] ∧ name ≠ [46, 46] ∧
      name.length ≤ longestName ∧ d.isDirectory (dir ++ [name]) = false := by
  unfold target at h
  split at h
  · cases h
  rename_i hdot
  split at h
  · cases h
  rename_i hdots
  split at h
  · cases h
  rename_i hshort
  split at h
  · cases h
  rename_i hdir
  split at h
  · split at h
    · cases h
    · rename_i hslash
      obtain ⟨rfl, -⟩ := Target.file.inj (Except.ok.inj h)
      exact ⟨rfl, by simpa using hslash, hdot, hdots, Nat.not_lt.mp hshort, by simpa using hdir⟩
  · cases h

theorem leads_of_resolve {d : Disk} {path : Bytes} {place : Place} {node : Nat}
    (h : d.resolve path = .ok (.file place node)) : d.Leads path place := by
  obtain ⟨hne, hroom, hdir | ⟨dirs, name, dir, hnames, hwalk, htarget⟩⟩ := walk_of_resolve h
  · cases hdir
  · obtain ⟨rfl, hslash, hdot, hdots, hshort, hdir⟩ := name_of_target htarget
    intro d' ht
    have hwalk' : d'.walk (d'.start path) dirs = .ok dir := by
      rw [ht.start]
      exact walk_congr ht hwalk
    rw [resolve_of_walk hne hroom hnames hwalk', hslash]
    exact target_of_name hdot hdots hshort (by rw [ht.isDirectory, hdir])

/-! ## 3. Endings of temporary names -/

theorem length_suffix (n w : Nat) : (suffix n w).length = w := by
  induction w generalizing n with
  | zero => rfl
  | succ w ih => simp [suffix, ih]

theorem suffixLetter_ne_slash : ∀ n < 62, suffixLetter n ≠ 47 := by decide

theorem suffixLetter_inj : ∀ m < 62, ∀ n < 62, suffixLetter m = suffixLetter n → m = n := by decide

theorem slash_notMem_suffix (n w : Nat) : (47 : UInt8) ∉ suffix n w := by
  induction w generalizing n with
  | zero => simp [suffix]
  | succ w ih =>
    intro h
    rcases List.mem_append.mp h with h | h
    · exact ih _ h
    · exact suffixLetter_ne_slash (n % 62) (Nat.mod_lt _ (by omega)) (List.mem_singleton.mp h).symm

theorem suffix_inj {m n w : Nat} (h : suffix m w = suffix n w) : m % 62 ^ w = n % 62 ^ w := by
  induction w generalizing m n with
  | zero => simp [Nat.mod_one]
  | succ w ih =>
    obtain ⟨hinit, hlast⟩ := List.append_inj' h rfl
    have hrec := ih hinit
    have hdigit : m % 62 = n % 62 :=
      suffixLetter_inj _ (Nat.mod_lt _ (by omega)) _ (Nat.mod_lt _ (by omega))
        (List.singleton_inj.mp hlast)
    rw [pow_succ', Nat.mod_mul, Nat.mod_mul, hdigit, hrec]

/-! ## 4. Making a temporary file -/

theorem node?_addFile {d : Disk} {p : Place} (f : FileNode) (h : d.node? p = none) (q : Place) :
    (d.addFile p f).2.node? q = if q = p then some d.nodes.length else d.node? q := by
  simp only [node?, addFile] at h ⊢
  rw [List.lookup_append]
  by_cases hq : q = p
  · subst hq
    simp [h]
  · have hne : (q == p) = false := by simpa using hq
    simp [List.lookup_cons, hne, hq]

section Create

variable {d : Disk} {parent name : Bytes}

/-- The components of a stem: those of its directory, and the beginning of the new name. -/
theorem components_stem (hname : (47 : UInt8) ∉ name) :
    Path.components (parent ++ 47 :: name) = Path.components parent ++ [name] := by
  rw [Path.components_append_slash, Path.components_of_no_slash hname]

theorem leads_of_stem {dir : Place} {ending : Bytes} (hname : (47 : UInt8) ∉ name)
    (hending : (47 : UInt8) ∉ ending) (hlen : 2 < ending.length)
    (hroom : (parent ++ 47 :: name).length + ending.length < pathRoom)
    (hwalk : d.walk (d.start (parent ++ 47 :: name)) (Path.components parent) = .ok dir)
    (hshort : name.length + ending.length ≤ longestName)
    (hdir : d.isDirectory (dir ++ [name ++ ending]) = false) :
    d.Leads (parent ++ 47 :: name ++ ending) (dir ++ [name ++ ending]) := by
  have hwhole : parent ++ 47 :: name ++ ending = parent ++ 47 :: (name ++ ending) := by simp
  have hlong : 2 < (name ++ ending).length := by rw [List.length_append]; omega
  have hnames : (Path.components (parent ++ 47 :: (name ++ ending))).filter (· != [])
      = (Path.components parent).filter (· != []) ++ [name ++ ending] := by
    rw [components_stem (by simp [hname, hending]), List.filter_append]
    have hne : (name ++ ending != []) = true := by
      rw [bne_iff_ne]
      intro h
      rw [h] at hlong
      simp at hlong
    simp [hne]
  have hlast : ((parent ++ 47 :: (name ++ ending)).getLast? == some 47) = false := by
    obtain ⟨init, last, rfl⟩ : ∃ init last, ending = init ++ [last] := by
      obtain rfl | ⟨init, last, h⟩ := List.eq_nil_or_concat ending
      · simp at hlen
      · exact ⟨init, last, by simpa using h⟩
    have hl : last ≠ 47 := fun e => hending (by simp [e])
    have hwhole' : parent ++ 47 :: (name ++ (init ++ [last]))
        = (parent ++ 47 :: (name ++ init)) ++ [last] := by simp
    rw [hwhole', List.getLast?_concat]
    simpa using hl
  intro d' ht
  rw [hwhole]
  have hstart : d'.start (parent ++ 47 :: (name ++ ending)) = d.start (parent ++ 47 :: name) := by
    rw [ht.start]
    unfold start
    cases parent <;> rfl
  have hwalk' : d'.walk (d'.start (parent ++ 47 :: (name ++ ending)))
      ((Path.components parent).filter (· != [])) = .ok dir := by
    rw [walk_filter, hstart]
    exact walk_congr ht hwalk
  rw [resolve_of_walk (by simp) (by rw [← hwhole, List.length_append]; exact hroom) hnames hwalk',
    hlast]
  refine target_of_name ?_ ?_ (by rw [List.length_append]; exact hshort)
    (by rw [ht.isDirectory, hdir])
  · intro h
    rw [h] at hlong
    simp at hlong
  · intro h
    rw [h] at hlong
    simp at hlong

/-- **What making a temporary file leaves**: an empty file at a place where nothing was, and a path
that leads there. -/
theorem createTemp_spec {t : TempFile} (hname : (47 : UInt8) ∉ name)
    (h : d.createTemp (parent ++ 47 :: name) = .ok t) :
    ∃ place drawn, d.Leads t.path place ∧ d.occupied place = false ∧ t.path ≠ [] ∧
      t.node = d.nodes.length ∧
      t.disk = { (d.addFile place (.ofBytes [])).2 with drawn } := by
  unfold createTemp at h
  split at h
  · cases h
  rename_i hroom
  simp only [components_stem hname, List.dropLast_concat, List.getLastD_concat] at h
  split at h
  · cases h
  rename_i dir hwalk
  split at h
  · cases h
  rename_i hshort
  split at h
  · cases h
  rename_i k hfind
  obtain rfl := (Except.ok.inj h).symm
  have hfree : d.occupied (dir ++ [name ++ suffix (d.drawn + k) suffixWidth]) = false := by
    simpa using List.find?_some hfind
  have hdir : d.isDirectory (dir ++ [name ++ suffix (d.drawn + k) suffixWidth]) = false :=
    (Bool.or_eq_false_iff.mp hfree).1
  have hwidth : (suffix (d.drawn + k) suffixWidth).length = suffixWidth := length_suffix _ _
  refine ⟨dir ++ [name ++ suffix (d.drawn + k) suffixWidth], d.drawn + k + 1, ?_, hfree, by simp,
    rfl, rfl⟩
  exact leads_of_stem hname (slash_notMem_suffix _ _) (by rw [hwidth]; decide)
    (by rw [hwidth]; omega) hwalk (by rw [hwidth]; omega) hdir

/-- A place that is taken is one of the directories or one of the places of files. -/
theorem mem_of_occupied {p : Place} (h : d.occupied p = true) :
    p ∈ d.directories ++ d.files.map Prod.fst := by
  rcases Bool.or_eq_true_iff.mp h with hdir | hfile
  · exact List.mem_append_left _ (List.contains_iff_mem.mp hdir)
  · obtain ⟨entry, hentry, hp⟩ := List.lookup_isSome_iff.mp hfile
    exact List.mem_append_right _ (List.mem_map.mpr ⟨entry, hentry, (beq_iff_eq.mp hp).symm⟩)

/-- **A temporary file can be made** in a directory that exists, as long as its path is not too long
and there are fewer files and directories than names.  One of the names that are tried is free,
since there are more of them than places that are taken. -/
theorem createTemp_ok {dir : Place} (hname : (47 : UInt8) ∉ name)
    (hroom : (parent ++ 47 :: name).length + suffixWidth < pathRoom)
    (hwalk : d.walk (d.start (parent ++ 47 :: name)) (Path.components parent) = .ok dir)
    (hshort : name.length + suffixWidth ≤ longestName)
    (hfew : d.files.length + d.directories.length < 56800235584) :
    ∃ t, d.createTemp (parent ++ 47 :: name) = .ok t := by
  unfold createTemp
  rw [if_neg (Nat.not_le.mpr hroom)]
  simp only [components_stem hname, List.dropLast_concat, List.getLastD_concat, hwalk,
    if_neg (Nat.not_lt.mpr hshort)]
  split
  · rename_i hnone
    exfalso
    let tried (k : Nat) : Place := dir ++ [name ++ suffix (d.drawn + k) suffixWidth]
    let numbers := List.range (d.files.length + d.directories.length + 1)
    have htaken : ∀ k ∈ numbers, d.occupied (tried k) = true := by
      intro k hk
      simpa using List.find?_eq_none.mp hnone k hk
    have hdistinct : (numbers.map tried).Nodup := by
      refine List.Nodup.map_on ?_ List.nodup_range
      intro k hk k' hk' heq
      have hk := List.mem_range.mp hk
      have hk' := List.mem_range.mp hk'
      have hsuffix : suffix (d.drawn + k) suffixWidth = suffix (d.drawn + k') suffixWidth := by
        simpa [tried] using heq
      have hmod : (d.drawn + k) % 56800235584 = (d.drawn + k') % 56800235584 := suffix_inj hsuffix
      omega
    have hsubset : numbers.map tried ⊆ d.directories ++ d.files.map Prod.fst := by
      intro p hp
      obtain ⟨k, hk, rfl⟩ := List.mem_map.mp hp
      exact mem_of_occupied (htaken k hk)
    have hlen := hdistinct.length_le_of_subset hsubset
    simp only [numbers, List.length_map, List.length_range, List.length_append] at hlen
    omega
  · exact ⟨_, rfl⟩

end Create

end Intake.Disk
