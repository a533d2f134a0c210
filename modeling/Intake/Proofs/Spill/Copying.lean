/-
# Copying a payload to a file of its own

**`WriteSpillFile` copies a payload to a new file exactly, or nothing is left of the attempt**
(`copies_or_leaves_nothing`): in a directory that can be used (`Usable`), for a size that files can
have, and from any stream, it is copied when the stream has that many bytes, and otherwise turned
away for what the stream ran into, as long as the file system refuses nothing (`write`).  The bytes
taken are counted either way, and none is taken that is behind the payload.

What becomes of the payload, and which files are kept, is known from `write_result` and
`write_leaves`; here it is shown that a usable directory is one where the file can be made
(`Usable.createTemp`) and is found (`Usable.place_eq`), that the list of temporary files follows it
(`write_lists`), and that reads of the file bring its bytes in order (`readsBack_of_content`).
-/
import Mathlib
import Intake.Proofs.Spill.Drawing

namespace Intake

/-! ## 1. Reading a file in order -/

namespace SpillFile

/-- The file after reads of the given sizes. -/
def readOn (d : Disk) (f : SpillFile) (sizes : List Nat) : SpillFile :=
  sizes.foldl (fun f n => (f.read d n).2) f

/-- Whatever was read before, the next read brings the bytes that come next, and nothing when there
are none left. -/
def ReadsBack (d : Disk) (f : SpillFile) (b : Bytes) : Prop :=
  ∀ sizes n, ((f.readOn d sizes).read d n).1 = .ok ((b.drop sizes.sum).take n)

variable {d : Disk} {path b : Bytes} {node : Nat} {size : UInt64}

theorem read_of_content (h : d.content node = .ofBytes b) (position n : Nat) :
    (⟨path, some (.file node position), size⟩ : SpillFile).read d n =
      (.ok ((b.drop position).take n),
        ⟨path, some (.file node (position + ((b.drop position).take n).length)), size⟩) := by
  simp only [read, Disk.readOpen, h, FileNode.readAt_ofBytes]

theorem readOn_of_content (h : d.content node = .ofBytes b) (sizes : List Nat) :
    readOn d ⟨path, some (.file node 0), size⟩ sizes
      = ⟨path, some (.file node (min sizes.sum b.length)), size⟩ := by
  induction sizes using List.reverseRecOn with
  | nil => simp [readOn]
  | append_singleton sizes n ih =>
    have hstep : readOn d ⟨path, some (.file node 0), size⟩ (sizes ++ [n])
        = ((readOn d ⟨path, some (.file node 0), size⟩ sizes).read d n).2 := by
      rw [readOn, List.foldl_append]
      rfl
    have hmove : min sizes.sum b.length
        + ((b.drop (min sizes.sum b.length)).take n).length = min (sizes.sum + n) b.length := by
      rw [List.length_take, List.length_drop]
      omega
    rw [hstep, ih, read_of_content h, hmove, List.sum_append, List.sum_singleton]

/-- **A file that was written in full reads back**, however its reads are cut. -/
theorem readsBack_of_content (h : d.content node = .ofBytes b) :
    ReadsBack d ⟨path, some (.file node 0), size⟩ b := by
  intro sizes n
  have hdrop : b.drop (min sizes.sum b.length) = b.drop sizes.sum := by
    rw [List.drop_eq_drop_iff]
    omega
  rw [readOn_of_content h, read_of_content h, hdrop]

end SpillFile

/-! ## 2. Directories that can be used -/

namespace Disk

variable {d : Disk}

theorem walk_of_target {dir place : Place} {name : Bytes} {slash : Bool} (hne : name ≠ [])
    (h : d.target dir name slash = .ok (.directory place)) : d.walk dir [name] = .ok place := by
  unfold target at h
  simp only [walk]
  split at h
  · rename_i hdot
    rw [if_pos (Or.inr hdot)]
    exact congrArg Except.ok (Target.directory.inj (Except.ok.inj h))
  rename_i hdot
  rw [if_neg (not_or.mpr ⟨hne, hdot⟩)]
  split at h
  · rename_i hdots
    rw [if_pos hdots]
    exact congrArg Except.ok (Target.directory.inj (Except.ok.inj h))
  rename_i hdots
  rw [if_neg hdots]
  split at h
  · cases h
  rename_i hshort
  rw [if_neg hshort]
  split at h
  · rename_i hdir
    rw [if_pos hdir]
    exact congrArg Except.ok (Target.directory.inj (Except.ok.inj h))
  · split at h
    · split at h <;> cases h
    · cases h

theorem walk_of_directory {path : Bytes} {place : Place}
    (h : d.resolve path = .ok (.directory place)) :
    path ≠ [] ∧ d.walk (d.start path) (Path.components path) = .ok place := by
  rw [← walk_filter]
  unfold resolve at h
  split at h
  · cases h
  rename_i hempty
  refine ⟨by simpa using hempty, ?_⟩
  split at h
  · cases h
  simp only at h
  split at h
  · rename_i hlast
    rw [List.getLast?_eq_none_iff.mp hlast, walk_nil]
    exact congrArg Except.ok (Target.directory.inj (Except.ok.inj h))
  · rename_i name hlast
    obtain ⟨dirs, hnames⟩ := List.getLast?_eq_some_iff.mp hlast
    rw [hnames, List.dropLast_concat] at h
    split at h
    · cases h
    · rename_i dir hwalk
      have hmem : name ∈ (Path.components path).filter (· != []) := by
        rw [hnames]
        simp
      have hne : name ≠ [] := bne_iff_ne.mp (List.mem_filter.mp hmem).2
      rw [hnames, walk_append, hwalk]
      exact walk_of_target hne h

end Disk

namespace Spill

/-- The beginning of the names of temporary files. -/
def nameStart : Bytes := Bytes.ofAscii "sift"

theorem slash_notMem_nameStart : (47 : UInt8) ∉ nameStart := by decide

/-- The directory for temporary files as a path; no text stands for the working directory. -/
def directoryPath (directory : Bytes) : Bytes := if directory.isEmpty then [46] else directory

/-- A directory in which temporary files can be made: it is there, the paths of files in it are not
too long, and there is a name left. -/
structure Usable (d : Disk) (directory : Bytes) (place : Place) : Prop where
  there : d.resolve (directoryPath directory) = .ok (.directory place)
  short : (stem directory).length + Disk.suffixWidth < pathRoom
  free : d.HasFree place nameStart

variable {d : Disk} {directory : Bytes} {place : Place}

theorem walkStem_of_directory (h : d.resolve (directoryPath directory) = .ok (.directory place)) :
    ∃ parent, stem directory = parent ++ 47 :: nameStart ∧
      d.walkStem parent nameStart = .ok place := by
  obtain ⟨hne, hwalk⟩ := Disk.walk_of_directory h
  have hstem : stem directory = (if (directoryPath directory).getLast? = some 47 then
      directoryPath directory else directoryPath directory ++ [47]) ++ nameStart := rfl
  rw [hstem]
  generalize directoryPath directory = dir at hne hwalk
  by_cases hslash : dir.getLast? = some 47
  · obtain ⟨parent, rfl⟩ := List.getLast?_eq_some_iff.mp hslash
    refine ⟨parent, by rw [if_pos hslash, List.append_assoc]; rfl, ?_⟩
    have hstart : d.start (parent ++ 47 :: nameStart) = d.start (parent ++ [47]) := by
      cases parent <;> rfl
    -- the component behind the slash is empty, and a walk stays where it is there
    have hlast : Path.components (parent ++ [47]) = Path.components parent ++ [[]] :=
      Path.components_append_slash parent []
    rw [hlast, Disk.walk_append] at hwalk
    rw [Disk.walkStem, hstart]
    cases hparent : d.walk (d.start (parent ++ [47])) (Path.components parent) with
    | error e =>
      rw [hparent] at hwalk
      cases hwalk
    | ok q =>
      rw [hparent] at hwalk
      exact hwalk
  · refine ⟨dir, by rw [if_neg hslash, List.append_assoc]; rfl, ?_⟩
    have hstart : d.start (dir ++ 47 :: nameStart) = d.start dir := by
      obtain ⟨c, r, rfl⟩ := List.exists_cons_of_ne_nil hne
      rfl
    rw [Disk.walkStem, hstart]
    exact hwalk

/-- **A temporary file can be made in a directory that can be used.** -/
theorem Usable.createTemp (h : Usable d directory place) :
    ∃ t, d.createTemp (stem directory) = .ok t ∧ Disk.Drawn (stem directory) t.path := by
  obtain ⟨parent, hstem, hwalk⟩ := walkStem_of_directory h.there
  have hshort := h.short
  rw [hstem] at hshort ⊢
  obtain ⟨t, ht⟩ := Disk.createTemp_of_free slash_notMem_nameStart (Nat.not_le.mpr hshort) hwalk
    (by decide) h.free
  exact ⟨t, ht, (Disk.drawn_of_createTemp slash_notMem_nameStart ht).1⟩

theorem Usable.place_eq {base h : Host} {temps : List Temporary} {t : Temporary} {n : Nat}
    (hdir : Usable base.disk directory place) (hk : base.Keeps h temps) (ht : t ∈ temps)
    (hpath : t.path = stem directory ++ Disk.suffix n Disk.suffixWidth) :
    t.place = Disk.tried place nameStart n := by
  obtain ⟨parent, hstem, hwalk⟩ := walkStem_of_directory hdir.there
  rw [hstem] at hpath
  obtain ⟨dir, hwalk', hplace, -⟩ := hk.place_of_path slash_notMem_nameStart ht hpath
  obtain rfl := Except.ok.inj (hwalk.symm.trans hwalk')
  exact hplace

/-! ## 3. The list of temporary files -/

theorem erase_insert (registry : TempRegistry) (path : Bytes) :
    (registry.insert path).erase path = registry.erase path := by
  by_cases hmem : path ∈ registry
  · rw [List.insert_of_mem hmem]
  · rw [List.insert_of_not_mem hmem, List.erase_cons_head, List.erase_of_not_mem hmem]

/-- What the list of temporary files is when a payload has become a file, and when it has not. -/
def Lists (registry : TempRegistry) (path : Bytes) (w : Written) : Prop :=
  match w.result with
  | .ok f => f.path = path ∧ w.host.registry = registry
  | .error _ => w.host.registry = registry.erase path

theorem fill_lists (h : Host) (t : Disk.TempFile) (s : Source) (size : UInt64) :
    Lists h.registry t.path (fill h t s size) := by
  unfold Lists
  cases filled_willing h t s size with
  | abandoned disk e event hdisk hresult herror hhost =>
    rw [hresult, hhost]
    rfl
  | opened bytes file event hopen hresult hhost =>
    rw [hresult, hhost]
    exact ⟨rfl, rfl⟩

/-- **The list follows the file.** -/
theorem write_lists {h : Host} {t : Disk.TempFile}
    (ht : h.disk.createTemp (stem directory) = .ok t) {size : UInt64}
    (hfits : size.toNat ≤ room t.disk) (s : Source) :
    Lists (h.registry.insert t.path) t.path (write h s size directory) := by
  rw [write_of_le ht hfits]
  exact fill_lists (sized h t size) t s size

/-! ## 4. Copying -/

/-- The payload is in a file of its own in the directory: the file is open at its start, it is on
the list, and it is the only one that was not there before. -/
structure Copied (h : Host) (directory : Bytes) (place : Place) (payload : Bytes) (w : Written)
    (f : SpillFile) : Prop where
  size : f.size.toNat = payload.length
  file : ∃ n node, f.path = stem directory ++ Disk.suffix n Disk.suffixWidth ∧
    w.host.disk.resolve f.path = .ok (.file (Disk.tried place nameStart n) node) ∧
    w.host.disk.content node = .ofBytes payload ∧
    w.host.disk.files = h.disk.files ++ [(Disk.tried place nameStart n, node)]
  registry : w.host.registry = h.registry.insert f.path
  reads : f.ReadsBack w.host.disk payload

/-- Nothing is left: the files are those there were before, and the path of the one that was made is
not put on the list.  If it was there already, for a file that was gone, it is taken off; a list
without such paths is as it was. -/
structure LeftNothing (h : Host) (directory : Bytes) (w : Written) : Prop where
  files : w.host.disk.files = h.disk.files
  registry : ∃ path, Disk.Drawn (stem directory) path ∧ w.host.registry = h.registry.erase path
  tidy : h.Tidy → w.host.registry = h.registry

section Copy

variable {h : Host} {size : UInt64}

theorem room_of_createTemp {t : Disk.TempFile}
    (ht : h.disk.createTemp (stem directory) = .ok t) : room t.disk = room h.disk := by
  obtain ⟨-, -, hlimit, -⟩ := opens_of_createTemp ht
  rw [room, room, hlimit]

/-- **A payload that is there in full** is copied. -/
theorem copied_of_le (hdir : Usable h.disk directory place) (hsize : size.toNat ≤ room h.disk)
    {source : Source} (hwhole : size.toNat ≤ source.rest.length) :
    ∃ f, (write h source size directory).result = .ok f ∧
      Copied h directory place (source.rest.take size.toNat) (write h source size directory) f := by
  obtain ⟨t, ht, n, hdrawn⟩ := hdir.createTemp
  have hresult := write_result ht source size
  rw [fate, if_neg (Nat.not_lt.mpr hsize), Source.payload_of_le hwhole] at hresult
  obtain ⟨hok, hcontent⟩ := hresult
  have hlists := write_lists ht ((room_of_createTemp ht).symm ▸ hsize) source
  rw [Lists, hok] at hlists
  obtain ⟨hleaves, -⟩ := write_leaves (Host.keeps_self h) source size directory
  rw [Leaves, hok] at hleaves
  obtain ⟨⟨path, located, node⟩, hsame, hkeep⟩ := hleaves
  obtain ⟨rfl, hfile, -⟩ := SpillFile.mk.inj hsame
  obtain ⟨rfl, -⟩ := OpenFile.file.inj (Option.some.inj hfile)
  have hmem : (⟨t.path, located, t.node⟩ : Temporary) ∈ [] ++ [⟨t.path, located, t.node⟩] := by simp
  obtain rfl : located = Disk.tried place nameStart n := hdir.place_eq hkeep hmem hdrawn
  refine ⟨_, hok, ?_, ⟨n, t.node, hdrawn, ?_, hcontent, hkeep.files⟩, hlists.2,
    SpillFile.readsBack_of_content hcontent⟩
  · show size.toNat = (source.rest.take size.toNat).length
    rw [List.length_take, Nat.min_eq_left hwhole]
  · rw [(hkeep.leads _ hmem).resolve, Disk.found_of_some (hkeep.node?_eq hmem)]

/-- **A payload that is cut short** leaves nothing. -/
theorem leftNothing_of_lt (hdir : Usable h.disk directory place) (hsize : size.toNat ≤ room h.disk)
    {source : Source} (hshort : source.rest.length < size.toNat) :
    (write h source size directory).result = .error source.cut ∧
      LeftNothing h directory (write h source size directory) := by
  obtain ⟨t, ht, hdrawn⟩ := hdir.createTemp
  have hresult := write_result ht source size
  rw [fate, if_neg (Nat.not_lt.mpr hsize), Source.payload_of_lt hshort] at hresult
  have hlists := write_lists ht ((room_of_createTemp ht).symm ▸ hsize) source
  rw [Lists, hresult] at hlists
  obtain ⟨hkeep, -⟩ := write_leaves (Host.keeps_self h) source size directory
  rw [Leaves, hresult] at hkeep
  refine ⟨hresult, by simpa using hkeep.files, ⟨t.path, hdrawn, ?_⟩,
    fun htidy => by simpa using hkeep.registry htidy⟩
  rw [hlists, erase_insert]

/-- **What is taken from the stream** for a payload that had a file: the payload, as far as it is
there. -/
theorem taken_of_ne {source : Source}
    (hmade : (write h source size directory).result ≠ .error .spillFailed) :
    (write h source size directory).source.rest = source.rest.drop size.toNat ∧
      (write h source size directory).source.delivered
        = source.delivered + min size.toNat source.rest.length ∧
      (write h source size directory).consumed.toNat = min size.toNat source.rest.length := by
  rcases write_source h source size directory with ⟨reads, hsource, hconsumed⟩ | ⟨-, -, hfailed⟩
  · rw [hsource, hconsumed]
    refine ⟨rfl, Source.after_delivered _ _ _, ?_⟩
    have hlt := size.toNat_lt
    rw [List.length_take, UInt64.toNat_ofNat']
    exact Nat.mod_eq_of_lt (by omega)
  · exact absurd hfailed hmade

/-- **A payload is copied exactly, or nothing is left of the attempt.**  In a directory that can be
used, and for a size that files can have, it is copied when the stream has that many bytes;
otherwise the stream has ended or failed, and that is the error.  Either way the bytes taken are
those of the payload, as far as they were there, they are counted, and other files are left alone.

In a usable directory making the file and sizing it succeed, so the stream alone decides: the blocks
together are the payload, or there is one at which it was cut short. -/
theorem copies_or_leaves_nothing (hdir : Usable h.disk directory place)
    (hsize : size.toNat ≤ room h.disk) (source : Source) :
    ((∃ f, (write h source size directory).result = .ok f) ↔
      size.toNat ≤ source.rest.length) ∧
    (∀ f, (write h source size directory).result = .ok f →
      Copied h directory place (source.rest.take size.toNat) (write h source size directory) f) ∧
    (∀ e, (write h source size directory).result = .error e →
      e = (if source.failure.isSome then .ioError else .truncated) ∧
      LeftNothing h directory (write h source size directory)) ∧
    (write h source size directory).source.rest = source.rest.drop size.toNat ∧
    (write h source size directory).source.delivered
      = source.delivered + min size.toNat source.rest.length ∧
    (write h source size directory).consumed.toNat = min size.toNat source.rest.length ∧
    h.Spares (write h source size directory).host := by
  obtain ⟨-, hspares⟩ := write_leaves (Host.keeps_self h) source size directory
  rcases Nat.lt_or_ge source.rest.length size.toNat with hshort | hwhole
  · obtain ⟨herror, hnothing⟩ := leftNothing_of_lt hdir hsize hshort
    have hcut : source.cut ≠ .spillFailed := by
      unfold Source.cut
      split <;> simp
    obtain ⟨hrest, hdelivered, hconsumed⟩ :=
      taken_of_ne (fun hfailed => hcut (Except.error.inj (herror.symm.trans hfailed)))
    refine ⟨⟨?_, fun hle => absurd hle (Nat.not_le.mpr hshort)⟩, ?_, ?_, hrest, hdelivered,
      hconsumed, hspares⟩
    · rintro ⟨f, hok⟩
      cases herror.symm.trans hok
    · intro f hok
      cases herror.symm.trans hok
    · intro e he
      exact ⟨(Except.error.inj (herror.symm.trans he)).symm, hnothing⟩
  · obtain ⟨f, hok, hcopied⟩ := copied_of_le hdir hsize hwhole
    obtain ⟨hrest, hdelivered, hconsumed⟩ :=
      taken_of_ne (fun hfailed => by cases hok.symm.trans hfailed)
    refine ⟨⟨fun _ => hwhole, fun _ => ⟨f, hok⟩⟩, ?_, ?_, hrest, hdelivered, hconsumed, hspares⟩
    · intro f' hok'
      obtain rfl := Except.ok.inj (hok.symm.trans hok')
      exact hcopied
    · intro e he
      cases hok.symm.trans he

theorem usable_empty :
    Usable Host.empty.disk [] [Bytes.ofAscii "work"] ∧
      Usable Host.empty.disk (Bytes.ofAscii "/tmp/") [Bytes.ofAscii "tmp"] :=
  ⟨⟨by decide, by decide, 0, by decide⟩, ⟨by decide, by decide, 0, by decide⟩⟩

/-- Three of five bytes are copied to a file in the one directory; for six bytes nothing is left in
the other. -/
theorem copies_three_of_five :
    (∃ f, (write Host.empty (.ofBytes [1, 2, 3, 4, 5] 2) 3 []).result = .ok f ∧
      f.ReadsBack (write Host.empty (.ofBytes [1, 2, 3, 4, 5] 2) 3 []).host.disk [1, 2, 3]) ∧
    (write Host.empty (.ofBytes [1, 2, 3, 4, 5] 2) 3 []).source.rest = [4, 5] ∧
    (write Host.empty (.ofBytes [1, 2, 3, 4, 5] 2) 6 (Bytes.ofAscii "/tmp/")).consumed.toNat = 5 ∧
    ¬ ∃ f, (write Host.empty (.ofBytes [1, 2, 3, 4, 5] 2) 6 (Bytes.ofAscii "/tmp/")).result
      = .ok f := by
  obtain ⟨hwork, htmp⟩ := usable_empty
  have hthree : (3 : UInt64).toNat ≤ room Host.empty.disk := by decide
  have hsix : (6 : UInt64).toNat ≤ room Host.empty.disk := by decide
  obtain ⟨hwhole, hcopied, -, hrest, -⟩ :=
    copies_or_leaves_nothing hwork hthree (.ofBytes [1, 2, 3, 4, 5] 2)
  obtain ⟨hshort, -, -, -, -, hcounted, -⟩ :=
    copies_or_leaves_nothing htmp hsix (.ofBytes [1, 2, 3, 4, 5] 2)
  obtain ⟨f, hok⟩ := hwhole.mpr (by decide)
  exact ⟨⟨f, hok, (hcopied f hok).reads⟩, hrest, hcounted,
    fun h => absurd (hshort.mp h) (by decide)⟩

end Copy

end Spill

end Intake
