/-
# Which ending a temporary name gets

`mkstemp` tries the endings of temporary names from a number on that the file system is free to
choose.  **The choice decides the six letters of the ending and nothing else**: a temporary file is
made as long as one of the names is free (`createTemp_of_free`), since all of them come up sooner or
later, and otherwise none is.  How many are free can be told from how many files were made so far
(`card_taken`), whatever they are called.

So two disks with the same directories and nodes, and with as many names taken, make temporary files
alike (`createTemp_alike`).
-/
import Mathlib
import Intake.Proofs.Disk.Temporary

namespace Intake.Disk

/-! ## 1. Endings and their numbers -/

/-- How many endings there are. -/
def endings : Nat := 62 ^ suffixWidth

theorem endings_eq : endings = 56800235584 := rfl

theorem suffix_congr {m n w : Nat} (h : m % 62 ^ w = n % 62 ^ w) : suffix m w = suffix n w := by
  induction w generalizing m n with
  | zero => rfl
  | succ w ih =>
    rw [pow_succ', Nat.mod_mul, Nat.mod_mul] at h
    have hm := Nat.mod_lt m (show 62 > 0 by decide)
    have hn := Nat.mod_lt n (show 62 > 0 by decide)
    have hdigit : m % 62 = n % 62 := by omega
    have hrec : m / 62 % 62 ^ w = n / 62 % 62 ^ w := by omega
    rw [suffix, suffix, ih hrec, hdigit]

/-- A path that is a stem and an ending. -/
def Drawn (stem path : Bytes) : Prop := ∃ n, path = stem ++ suffix n suffixWidth

/-- The place that a number stands for. -/
def tried (dir : Place) (name : Bytes) (n : Nat) : Place := dir ++ [name ++ suffix n suffixWidth]

/-- One of the places is free. -/
def HasFree (d : Disk) (dir : Place) (name : Bytes) : Prop :=
  ∃ n, d.occupied (tried dir name n) = false

theorem tried_congr {m n : Nat} (dir : Place) (name : Bytes) (h : m % endings = n % endings) :
    tried dir name m = tried dir name n := by
  rw [tried, tried, suffix_congr h]

theorem tried_inj {dir : Place} {name : Bytes} {m n : Nat}
    (h : tried dir name m = tried dir name n) : m % endings = n % endings := by
  have hname := List.singleton_inj.mp (List.append_cancel_left h)
  exact suffix_inj (List.append_cancel_left hname)

/-! ## 2. Trying them in turn -/

section Create

variable {d d' : Disk} {parent name : Bytes} {dir : Place} {t : TempFile}

/-- The walk to the directory of a stem. -/
def walkStem (d : Disk) (parent name : Bytes) : Except SystemError Place :=
  d.walk (d.start (parent ++ 47 :: name)) (Path.components parent)

theorem createTemp_stem (hname : (47 : UInt8) ∉ name) :
    d.createTemp (parent ++ 47 :: name) =
      if pathRoom ≤ (parent ++ 47 :: name).length + suffixWidth then .error .nameTooLong
      else
        match d.walkStem parent name with
        | .error e => .error e
        | .ok dir =>
          if longestName < name.length + suffixWidth then .error .nameTooLong
          else
            match (List.range (d.files.length + d.directories.length + 1)).find?
                fun k => !d.occupied (tried dir name (d.drawn + k)) with
            | none => .error .fileExists
            | some k =>
              .ok ⟨parent ++ 47 :: name ++ suffix (d.drawn + k) suffixWidth, d.nodes.length,
                { (d.addFile (tried dir name (d.drawn + k)) (.ofBytes [])).2 with
                  drawn := d.drawn + k + 1 }⟩ := by
  simp only [createTemp, components_stem hname, List.dropLast_concat, List.getLastD_concat]
  rfl

/-- With a free name a temporary file is made.  Where fewer names are tried than there are, one of
those is free that are tried. -/
theorem createTemp_of_free (hname : (47 : UInt8) ∉ name)
    (hroom : ¬ pathRoom ≤ (parent ++ 47 :: name).length + suffixWidth)
    (hwalk : d.walkStem parent name = .ok dir)
    (hshort : ¬ longestName < name.length + suffixWidth) (hfree : d.HasFree dir name) :
    ∃ t, d.createTemp (parent ++ 47 :: name) = .ok t := by
  by_cases hfew : d.files.length + d.directories.length < 56800235584
  · exact createTemp_ok hname (Nat.not_le.mp hroom) hwalk (Nat.not_lt.mp hshort) hfew
  · obtain ⟨n, hn⟩ := hfree
    rw [createTemp_stem hname, if_neg hroom]
    simp only [hwalk, if_neg hshort]
    split
    · rename_i hnone
      exfalso
      -- the number among those that are tried that has the ending of `n`
      let k := (n + (56800235584 - d.drawn % 56800235584)) % 56800235584
      have hk : k ∈ List.range (d.files.length + d.directories.length + 1) := by
        have hlt : k < 56800235584 := Nat.mod_lt _ (by decide)
        exact List.mem_range.mpr (by omega)
      have hmod : (d.drawn + k) % endings = n % endings := by
        rw [endings_eq]
        omega
      have htaken := List.find?_eq_none.mp hnone k hk
      rw [tried_congr dir name hmod, hn] at htaken
      exact htaken rfl
    · exact ⟨_, rfl⟩

theorem createTemp_of_full (hname : (47 : UInt8) ∉ name)
    (hroom : ¬ pathRoom ≤ (parent ++ 47 :: name).length + suffixWidth)
    (hwalk : d.walkStem parent name = .ok dir)
    (hshort : ¬ longestName < name.length + suffixWidth) (hfull : ¬ d.HasFree dir name) :
    d.createTemp (parent ++ 47 :: name) = .error .fileExists := by
  rw [createTemp_stem hname, if_neg hroom]
  simp only [hwalk, if_neg hshort]
  split
  · rfl
  · rename_i k hfind
    exact absurd ⟨d.drawn + k, by simpa using List.find?_some hfind⟩ hfull

/-- The path of a temporary file is its stem and an ending, and its node is the next one. -/
theorem drawn_of_createTemp (hname : (47 : UInt8) ∉ name)
    (h : d.createTemp (parent ++ 47 :: name) = .ok t) :
    Drawn (parent ++ 47 :: name) t.path ∧ t.node = d.nodes.length ∧
      t.disk.nodes = d.nodes ++ [.ofBytes []] := by
  rw [createTemp_stem hname] at h
  split at h
  · cases h
  split at h
  · cases h
  split at h
  · cases h
  split at h
  · cases h
  · rename_i k _
    obtain rfl := Except.ok.inj h
    exact ⟨⟨d.drawn + k, rfl⟩, rfl, rfl⟩

/-- Two tries to make a temporary file that came to the same, but for the ending of its name. -/
inductive MadeAlike (stem : Bytes) :
    Except SystemError TempFile → Except SystemError TempFile → Prop where
  | made {t t' : TempFile} (drawn : Drawn stem t.path) (drawn' : Drawn stem t'.path)
      (node : t'.node = t.node) (nodes : t'.disk.nodes = t.disk.nodes) :
      MadeAlike stem (.ok t) (.ok t')
  | refused (cause : SystemError) : MadeAlike stem (.error cause) (.error cause)

/-- **Temporary files are made alike** when the way to their directory is the same and there is a
free name either for both or for none. -/
theorem createTemp_alike (hname : (47 : UInt8) ∉ name) (hnodes : d'.nodes = d.nodes)
    (hwalk : d'.walkStem parent name = d.walkStem parent name)
    (hfree : ∀ dir, d.walkStem parent name = .ok dir → (d'.HasFree dir name ↔ d.HasFree dir name)) :
    MadeAlike (parent ++ 47 :: name) (d.createTemp (parent ++ 47 :: name))
      (d'.createTemp (parent ++ 47 :: name)) := by
  by_cases hroom : pathRoom ≤ (parent ++ 47 :: name).length + suffixWidth
  · rw [createTemp_stem hname, createTemp_stem hname, if_pos hroom, if_pos hroom]
    exact .refused _
  cases hdir : d.walkStem parent name with
  | error e =>
    rw [createTemp_stem hname, createTemp_stem hname, if_neg hroom, if_neg hroom, hwalk, hdir]
    exact .refused e
  | ok dir =>
    rw [hdir] at hwalk
    by_cases hshort : longestName < name.length + suffixWidth
    · rw [createTemp_stem hname, createTemp_stem hname, if_neg hroom, if_neg hroom, hwalk, hdir]
      simp only [if_pos hshort]
      exact .refused _
    by_cases hone : d.HasFree dir name
    · obtain ⟨t, ht⟩ := createTemp_of_free hname hroom hdir hshort hone
      obtain ⟨t', ht'⟩ := createTemp_of_free hname hroom hwalk hshort ((hfree dir hdir).mpr hone)
      obtain ⟨hdrawn, hnode, hadded⟩ := drawn_of_createTemp hname ht
      obtain ⟨hdrawn', hnode', hadded'⟩ := drawn_of_createTemp hname ht'
      rw [ht, ht']
      refine .made hdrawn hdrawn' ?_ ?_
      · rw [hnode, hnode', hnodes]
      · rw [hadded, hadded', hnodes]
    · have hnone := fun h => hone ((hfree dir hdir).mp h)
      rw [createTemp_of_full hname hroom hdir hshort hone,
        createTemp_of_full hname hroom hwalk hshort hnone]
      exact .refused _

end Create

/-! ## 3. How many are taken -/

/-- All the places that can be tried. -/
def candidates (dir : Place) (name : Bytes) : Finset Place :=
  (Finset.range endings).image (tried dir name)

/-- Those of them that are taken. -/
def taken (d : Disk) (dir : Place) (name : Bytes) : Finset Place :=
  (candidates dir name).filter fun p => d.occupied p = true

variable {base d : Disk} {dir : Place} {name : Bytes}

theorem tried_mem_candidates (dir : Place) (name : Bytes) (n : Nat) :
    tried dir name n ∈ candidates dir name := by
  refine Finset.mem_image.mpr ⟨n % endings, Finset.mem_range.mpr (Nat.mod_lt _ ?_), ?_⟩
  · rw [endings_eq]
    decide
  · exact tried_congr dir name (Nat.mod_mod n endings)

theorem card_candidates (dir : Place) (name : Bytes) : (candidates dir name).card = endings := by
  have hinj : Set.InjOn (tried dir name) (Finset.range endings) := by
    intro m hm n hn h
    have hmod := tried_inj h
    rwa [Nat.mod_eq_of_lt (Finset.mem_range.mp hm), Nat.mod_eq_of_lt (Finset.mem_range.mp hn)]
      at hmod
  rw [candidates, Finset.card_image_of_injOn hinj, Finset.card_range]

theorem hasFree_iff : d.HasFree dir name ↔ (d.taken dir name).card < endings := by
  rw [← card_candidates dir name]
  constructor
  · rintro ⟨n, hn⟩
    refine Finset.card_lt_card (Finset.filter_ssubset.mpr ?_)
    exact ⟨_, tried_mem_candidates dir name n, by simp [hn]⟩
  · intro hlt
    obtain ⟨p, hp, hnot⟩ := Finset.exists_mem_notMem_of_card_lt_card hlt
    obtain ⟨n, -, rfl⟩ := Finset.mem_image.mp hp
    refine ⟨n, Bool.eq_false_iff.mpr fun htaken => hnot ?_⟩
    exact Finset.mem_filter.mpr ⟨hp, htaken⟩

theorem occupied_append {entries : List (Place × Nat)} (htree : base.SameTree d)
    (hfiles : d.files = base.files ++ entries) (p : Place) :
    d.occupied p = true ↔ base.occupied p = true ∨ p ∈ entries.map Prod.fst := by
  have hlookup : (entries.lookup p).isSome = true ↔ p ∈ entries.map Prod.fst := by
    rw [List.lookup_isSome_iff, List.mem_map]
    simp only [eq_comm (a := p), beq_iff_eq]
  rw [occupied, htree.isDirectory, node?, hfiles, List.lookup_append, Option.isSome_or, occupied,
    node?, ← Bool.or_assoc, Bool.or_eq_true, hlookup]

/-- **How many names are taken** on a disk with some files more at places that can be tried. -/
theorem card_taken {entries : List (Place × Nat)} (dir : Place) (name : Bytes)
    (htree : base.SameTree d) (hfiles : d.files = base.files ++ entries)
    (hplaces : (entries.map Prod.fst).Nodup)
    (hfresh : ∀ p ∈ entries.map Prod.fst, base.occupied p = false)
    (htried : ∀ p ∈ entries.map Prod.fst, p ∈ candidates dir name) :
    (d.taken dir name).card = (base.taken dir name).card + entries.length := by
  have hsplit : d.taken dir name = base.taken dir name ∪ (entries.map Prod.fst).toFinset := by
    ext p
    simp only [taken, Finset.mem_filter, Finset.mem_union, List.mem_toFinset,
      occupied_append htree hfiles]
    constructor
    · rintro ⟨hp, hbase | hentry⟩
      · exact Or.inl ⟨hp, hbase⟩
      · exact Or.inr hentry
    · rintro (⟨hp, hbase⟩ | hentry)
      · exact ⟨hp, Or.inl hbase⟩
      · exact ⟨htried p hentry, Or.inr hentry⟩
  have hapart : Disjoint (base.taken dir name) (entries.map Prod.fst).toFinset := by
    refine Finset.disjoint_left.mpr fun p hp hentry => ?_
    rw [List.mem_toFinset] at hentry
    exact absurd (Finset.mem_filter.mp hp).2 (Bool.eq_false_iff.mp (hfresh p hentry))
  rw [hsplit, Finset.card_union_of_disjoint hapart, List.toFinset_card_of_nodup hplaces,
    List.length_map]

/-! ## 4. Where a drawn path leads -/

theorem walk_of_files {d' : Disk} (htree : d.SameTree d') (hfiles : d'.files = d.files) (p : Place)
    (names : List Bytes) : d'.walk p names = d.walk p names := by
  have hnode : ∀ q, d'.node? q = d.node? q := fun q => by rw [node?, hfiles, ← node?]
  induction names generalizing p with
  | nil => rfl
  | cons name rest ih => simp only [walk, ih, htree.isDirectory, hnode]

/-- **A path that was drawn leads to one of the places that are tried**, if there is a file behind
it. -/
theorem tried_of_leads {parent : Bytes} {place : Place} {node n : Nat} (hname : (47 : UInt8) ∉ name)
    (hleads : d.Leads (parent ++ 47 :: name ++ suffix n suffixWidth) place)
    (hnode : d.node? place = some node) :
    ∃ dir, d.walkStem parent name = .ok dir ∧ place = tried dir name n ∧
      d.isDirectory place = false := by
  have hwhole : parent ++ 47 :: name ++ suffix n suffixWidth
      = parent ++ 47 :: (name ++ suffix n suffixWidth) := by simp
  have hcomponents : (Path.components (parent ++ 47 :: (name ++ suffix n suffixWidth))).filter
        (· != [])
      = (Path.components parent).filter (· != []) ++ [name ++ suffix n suffixWidth] := by
    have hne : (name ++ suffix n suffixWidth != []) = true := by
      have hlen := length_suffix n suffixWidth
      rw [bne_iff_ne]
      intro h
      rw [(List.append_eq_nil_iff.mp h).2] at hlen
      cases hlen
    rw [components_stem (by simp [hname, slash_notMem_suffix]), List.filter_append]
    simp [hne]
  have hresolve := hleads.resolve
  rw [found_of_some hnode, hwhole] at hresolve
  obtain ⟨-, -, hdir | ⟨dirs, last, dir, hnames, hwalk, htarget⟩⟩ := walk_of_resolve hresolve
  · cases hdir
  · obtain ⟨hdirs, hlast⟩ := List.append_inj' (hcomponents.symm.trans hnames) rfl
    obtain rfl := List.singleton_inj.mp hlast
    obtain ⟨rfl, -, -, -, -, hplace⟩ := name_of_target htarget
    have hstart : d.start (parent ++ 47 :: (name ++ suffix n suffixWidth))
        = d.start (parent ++ 47 :: name) := by
      unfold start
      cases parent <;> rfl
    rw [← hdirs, walk_filter, hstart] at hwalk
    exact ⟨dir, hwalk, rfl, hplace⟩

end Intake.Disk
