/-
# What becomes of a payload in a temporary file

`WriteSpillFile` either writes a payload to a file in full, or the payload is turned away because no
file can have its size, or the stream cuts it short (`Spill.fate`, `write_result`), or the file
system refuses one of the requests (`filled`).  In the first case there is one temporary file more,
in the others there is none, and payloads in other files are left alone (`leaves_writeUnder`).

Whatever is refused, what is taken from the stream is a beginning of the payload, and it is counted
(`counted_writeUnder`): a block is counted when it has come and before it is written, so that a
refused write is no exception.
-/
import Mathlib
import Intake.Proofs.Spill.Keeping
import Intake.Proofs.Stream.Taking

namespace Intake

/-! ## 1. The next bytes of a stream -/

/-- What a stream that has too few bytes fails a payload with. -/
def Source.cut (s : Source) : FrameError := if s.failure.isSome then .ioError else .truncated

/-- The next `n` bytes of a stream, or why there are not so many. -/
def Source.payload (s : Source) (n : Nat) : Except FrameError Bytes :=
  if n ≤ s.rest.length then .ok (s.rest.take n) else .error s.cut

theorem Source.payload_of_le {s : Source} {n : Nat} (h : n ≤ s.rest.length) :
    s.payload n = .ok (s.rest.take n) := if_pos h

theorem Source.payload_of_lt {s : Source} {n : Nat} (h : s.rest.length < n) :
    s.payload n = .error s.cut := if_neg (Nat.not_le.mpr h)

namespace Spill

/-- What becomes of the next `n` bytes of a stream when files can have sizes up to a limit. -/
def fate (limit : Nat) (s : Source) (n : Nat) : Except FrameError Bytes :=
  if limit < n then .error .spillFailed else s.payload n

/-- The largest size that files on a disk can have. -/
def room (d : Disk) : Nat := min Disk.largestSize d.sizeLimit

/-! ## 2. Making the file -/

theorem stem_eq (directory : Bytes) :
    ∃ parent, stem directory = parent ++ 47 :: Bytes.ofAscii "sift" := by
  unfold stem
  simp only
  generalize (if directory.isEmpty = true then [46] else directory) = dir
  split
  · rename_i hslash
    obtain ⟨parent, hdir⟩ := List.getLast?_eq_some_iff.mp hslash
    exact ⟨parent, by rw [hdir, List.append_assoc]; rfl⟩
  · exact ⟨dir, by rw [List.append_assoc]; rfl⟩

/-- The host with a new temporary file. -/
def made (h : Host) (t : Disk.TempFile) : Host := ({ h with disk := t.disk }).register t.path

variable {base h : Host} {temps : List Temporary} {t : Disk.TempFile} {directory : Bytes}

/-- A new temporary file is empty and can be opened, whatever is written to it. -/
theorem opens_of_createTemp (ht : h.disk.createTemp (stem directory) = .ok t) :
    t.node < t.disk.nodes.length ∧ t.disk.content t.node = .ofBytes [] ∧
      t.disk.sizeLimit = h.disk.sizeLimit ∧
      ∀ d : Disk, t.disk.SameTree d → d.files = t.disk.files →
        d.openPath t.path = .ok (.file t.node 0) := by
  obtain ⟨parent, hstem⟩ := stem_eq directory
  rw [hstem] at ht
  obtain ⟨place, drawn, hleads, hfree, -, hnode, hdisk⟩ := Disk.createTemp_spec (by decide) ht
  have hnone : h.disk.node? place = none := by
    simpa using (Bool.or_eq_false_iff.mp hfree).2
  rw [hdisk, hnode]
  refine ⟨by simp [Disk.addFile], by simp [Disk.content, Disk.addFile], rfl, ?_⟩
  intro d hd hfiles
  have htree : h.disk.SameTree { (h.disk.addFile place (.ofBytes [])).2 with drawn } := ⟨rfl, rfl⟩
  refine (hleads.of_sameTree (htree.trans hd)).openPath ?_
  have hadded := Disk.node?_addFile (.ofBytes []) hnone place
  rw [if_pos rfl] at hadded
  rw [Disk.node?, hfiles]
  exact hadded

theorem keeps_made (hk : base.Keeps h temps)
    (ht : h.disk.createTemp (stem directory) = .ok t) :
    ∃ place, base.Keeps (made h t) (temps ++ [⟨t.path, place, t.node⟩]) ∧ h.Spares (made h t) ∧
      t.node = h.disk.nodes.length := by
  obtain ⟨parent, hstem⟩ := stem_eq directory
  rw [hstem] at ht
  obtain ⟨place, drawn, hleads, hfree, hpath, hnode, hdisk⟩ :=
    Disk.createTemp_spec (by decide) ht
  have hmade : made h t
      = ({ h with disk := { (h.disk.addFile place (.ofBytes [])).2 with drawn } } : Host).register
          t.path := by
    rw [made, hdisk]
  refine ⟨place, ?_, ?_, hnode⟩
  · rw [hmade, hnode]
    exact hk.created hleads hfree hpath _ _
  · rw [hmade]
    refine ⟨?_, fun n hn => Host.content_addFile h.disk place _ hn⟩
    show h.disk.nodes.length ≤ (h.disk.nodes ++ [FileNode.ofBytes []]).length
    rw [List.length_append]
    omega

theorem resize_of_le {d : Disk} {size : UInt64} (node : Nat) (h : size.toNat ≤ room d) :
    d.resize node size = .ok (d.setContent node ((d.content node).resize size.toNat)) := by
  have hle := le_min_iff.mp h
  rw [Disk.resize, if_neg (Nat.not_lt.mpr hle.1), if_neg (Nat.not_lt.mpr hle.2)]

theorem eq_of_resize {d d' : Disk} {node : Nat} {size : UInt64}
    (h : d.resize node size = .ok d') :
    d' = d.setContent node ((d.content node).resize size.toNat) := by
  unfold Disk.resize at h
  split at h
  · cases h
  · split at h
    · cases h
    · exact (Except.ok.inj h).symm

theorem resize_of_lt {d : Disk} {size : UInt64} (node : Nat) (h : room d < size.toNat) :
    ∃ cause, d.resize node size = .error cause := by
  unfold Disk.resize
  split
  · exact ⟨_, rfl⟩
  · split
    · exact ⟨_, rfl⟩
    · rename_i h1 h2
      exact absurd (le_min (Nat.not_lt.mp h1) (Nat.not_lt.mp h2)) (Nat.not_le.mpr h)

/-! ## 3. Copying -/

/-- Behind a block that was not written nothing is read any more. -/
theorem gather_next_refused (refuses : Refusals) (cap want : Nat) (s : Source) (blocks : Nat)
    (cause : SystemError) :
    gather (Copying.next refuses) cap want ⟨s, blocks, some cause⟩
      = ⟨[], none, ⟨s, blocks, some cause⟩⟩ := by
  by_cases hw : want = 0
  · rw [hw, gather_zero]
  · exact gather_end hw rfl

/-- Where the stream has nothing left, copying ends as the stream does. -/
theorem gather_next_nil (refuses : Refusals) (cap : Nat) {want : Nat} {s : Source} (blocks : Nat)
    (hw : want ≠ 0) (hrest : s.rest = []) :
    gather (Copying.next refuses) cap want ⟨s, blocks, none⟩
      = ⟨[], s.failure, ⟨s, blocks, none⟩⟩ := by
  cases hf : s.failure with
  | some e =>
    refine gather_error hw ?_
    simp only [Copying.next, Source.read_of_nil_failure hrest hf]
    rfl
  | none =>
    refine gather_end hw ?_
    simp only [Copying.next, Source.read_of_nil_end hrest hf]
    rfl

/-- **Copying takes a beginning of the stream**, and stops short of what is wanted only where a write
is refused.  The induction is on the bytes still wanted, as for gathering: a block that was written
leaves fewer of them, and behind one that was not the next read brings nothing. -/
theorem gather_next (refuses : Refusals) (cap want : Nat) (s : Source) (blocks : Nat)
    (hcap : want ≠ 0 → 0 < cap) :
    ∃ n reads blocks' refused failure, n ≤ want ∧
      gather (Copying.next refuses) cap want ⟨s, blocks, none⟩
        = ⟨s.rest.take n, failure, ⟨s.after n reads, blocks', refused⟩⟩ ∧
      (refused = none → n = want ∧ failure = s.shortfall want) ∧
      ((∀ k, refuses (.write k) = none) → refused = none) := by
  induction want using Nat.strongRecOn generalizing s blocks with
  | ind want ih =>
    by_cases hw : want = 0
    · subst hw
      exact ⟨0, s.reads, blocks, none, none, le_rfl, by simp [gather_zero, Source.after_zero],
        fun _ => ⟨rfl, by simp [Source.shortfall]⟩, fun _ => rfl⟩
    have hask : min want cap ≠ 0 := by have := hcap hw; omega
    by_cases hrest : s.rest = []
    · have hshort : s.shortfall want = s.failure :=
        Source.shortfall_of_short (by rw [hrest]; exact Nat.pos_of_ne_zero hw)
      refine ⟨want, s.reads, blocks, none, s.failure, le_rfl, ?_, fun _ => ⟨rfl, hshort.symm⟩,
        fun _ => rfl⟩
      rw [Source.after_of_nil hrest, hrest, List.take_nil]
      exact gather_next_nil refuses cap blocks hw hrest
    · obtain ⟨b, bs, hle, hkl, hcons, hread⟩ := Source.read_of_ne_nil hask hrest
      obtain ⟨k, hk⟩ : ∃ k, k = bs.length + 1 := ⟨_, rfl⟩
      rw [← hk] at hle hkl hcons hread
      have hnext : Copying.next refuses ⟨s, blocks, none⟩ (min want cap)
          = (.ok (b :: bs), ⟨s.after k (s.reads + 1), blocks + 1, refuses (.write blocks)⟩) := by
        simp only [Copying.next, hread]
        rfl
      rw [gather_step hw hnext, ← hk, ← hcons]
      cases hrefused : refuses (.write blocks) with
      | some cause =>
        rw [gather_next_refused, List.append_nil]
        exact ⟨k, s.reads + 1, blocks + 1, some cause, none, by omega, rfl,
          fun hnone => absurd hnone (Option.some_ne_none _),
          fun hnone => absurd (hrefused.symm.trans (hnone blocks)) (Option.some_ne_none _)⟩
      | none =>
        obtain ⟨n, reads, blocks', refused, failure, hn, hgather, hall, hwilling⟩ :=
          ih (want - k) (by omega) (s.after k (s.reads + 1)) (blocks + 1) (fun _ => hcap hw)
        rw [hgather]
        refine ⟨k + n, reads, blocks', refused, failure, by omega, ?_, fun hnone => ?_, hwilling⟩
        · rw [Source.after_rest, ← List.take_add, Source.after_after s k n _ _ hkl]
        · obtain ⟨rfl, rfl⟩ := hall hnone
          have hsum : k + (want - k) = want := by omega
          exact ⟨hsum, by rw [Source.shortfall_after _ _ hkl, hsum]⟩

theorem gather_willing (size : UInt64) (s : Source) :
    ∃ reads blocks, gather (Copying.next willing) blockSize size.toNat (.start s)
      = ⟨s.rest.take size.toNat, s.shortfall size.toNat, ⟨s.after size.toNat reads, blocks, none⟩⟩ := by
  obtain ⟨n, reads, blocks, refused, failure, -, hgather, hall, hwilling⟩ :=
    gather_next willing blockSize size.toNat s 0 fun _ => by decide
  obtain rfl := hwilling fun _ => rfl
  obtain ⟨rfl, rfl⟩ := hall rfl
  exact ⟨reads, blocks, hgather⟩

/-! ## 4. Filling the file -/

/-- How filling a file ends: it is taken away, whatever was written to it, or it is open at its
start. -/
inductive Filled (h : Host) (t : Disk.TempFile) (size : UInt64) (w : Written) : Prop where
  | abandoned (disk : Disk) (e : FrameError) (event : Event)
      (disk_eq : disk = h.disk ∨ ∃ bytes, disk = h.disk.write t.node bytes)
      (result : w.result = .error e) (error : e ≠ .endOfStream)
      (host : w.host = abandon (({ h with disk } : Host).report event) t.path)
  | opened (bytes : Bytes) (file : OpenFile) (event : Event)
      (opens : (h.disk.write t.node bytes).openPath t.path = .ok file)
      (result : w.result = .ok ⟨t.path, some file, size⟩)
      (host : w.host = ({ h with disk := h.disk.write t.node bytes } : Host).report event)

theorem granted_eq_ok {α : Type} {refusal : Option SystemError} {answer : Except SystemError α}
    {a : α} (h : granted refusal answer = .ok a) : refusal = none ∧ answer = .ok a := by
  cases refusal with
  | some cause => cases h
  | none => exact ⟨rfl, h⟩

/-- **What filling a file can do**, whatever is refused: one case for each exit. -/
theorem filled (h : Host) (t : Disk.TempFile) (s : Source) (size : UInt64) (refuses : Refusals) :
    Filled h t size (fillUnder refuses h t s size) := by
  unfold fillUnder
  simp only
  split
  · exact .abandoned _ _ _ (Or.inl rfl) rfl (by simp) rfl
  · exact .abandoned _ _ _ (Or.inl rfl) rfl (by simp) rfl
  · split
    · exact .abandoned _ _ _ (Or.inl rfl) rfl (by simp) rfl
    · split
      · exact .abandoned _ _ _ (Or.inr ⟨_, rfl⟩) rfl (by simp) rfl
      · split
        · exact .abandoned _ _ _ (Or.inr ⟨_, rfl⟩) rfl (by simp) rfl
        · rename_i file hopen
          exact .opened _ file _ (granted_eq_ok hopen).2 rfl rfl

theorem filled_willing (h : Host) (t : Disk.TempFile) (s : Source) (size : UInt64) :
    Filled h t size (fill h t s size) := filled h t s size willing

/-- **What is taken from the stream is counted**, whatever is refused. -/
theorem taken_fillUnder (h : Host) (t : Disk.TempFile) (s : Source) (size : UInt64)
    (refuses : Refusals) :
    ∃ n reads, n ≤ size.toNat ∧ (fillUnder refuses h t s size).source = s.after n reads ∧
      (fillUnder refuses h t s size).consumed = UInt64.ofNat (s.rest.take n).length := by
  obtain ⟨n, reads, blocks, refused, failure, hn, hgather, -, -⟩ :=
    gather_next refuses blockSize size.toNat s 0 fun _ => by decide
  refine ⟨n, reads, hn, ?_⟩
  unfold fillUnder
  simp only [Copying.start, hgather]
  split
  · exact ⟨rfl, rfl⟩
  · exact ⟨rfl, rfl⟩
  · split
    · exact ⟨rfl, rfl⟩
    · split
      · exact ⟨rfl, rfl⟩
      · split <;> exact ⟨rfl, rfl⟩

theorem fill_eq (h : Host) (t : Disk.TempFile) (s : Source) (size : UInt64) :
    ∃ reads, (fill h t s size).source = s.after size.toNat reads ∧
      (fill h t s size).consumed = UInt64.ofNat (s.rest.take size.toNat).length ∧
      match s.payload size.toNat with
      | .error e => (fill h t s size).result = .error e ∧
          ∃ event, (fill h t s size).host = abandon (h.report event) t.path
      | .ok bytes =>
        ∀ file, (h.disk.write t.node bytes).openPath t.path = .ok file →
          (fill h t s size).result = .ok ⟨t.path, some file, size⟩ ∧
          ∃ event, (fill h t s size).host
            = ({ h with disk := h.disk.write t.node bytes } : Host).report event := by
  obtain ⟨reads, blocks, hgather⟩ := gather_willing size s
  have hlen := List.length_take (i := size.toNat) (l := s.rest)
  refine ⟨reads, ?_⟩
  unfold fill fillUnder
  simp only [hgather]
  rcases Nat.lt_or_ge s.rest.length size.toNat with hshort | hfull
  · rw [Source.payload_of_lt hshort]
    cases hf : s.failure with
    | some e =>
      have hshortfall : s.shortfall size.toNat = some e :=
        (Source.shortfall_of_short hshort).trans hf
      simp only [hshortfall, Source.cut, hf, true_and]
      exact ⟨rfl, _, rfl⟩
    | none =>
      have hshortfall : s.shortfall size.toNat = none :=
        (Source.shortfall_of_short hshort).trans hf
      have hcut : (s.rest.take size.toNat).length < size.toNat := by omega
      simp only [hshortfall, Source.cut, hf, if_pos hcut, true_and]
      exact ⟨rfl, _, rfl⟩
  · have hshortfall : s.shortfall size.toNat = none := if_pos hfull
    have hwhole : ¬ (s.rest.take size.toNat).length < size.toNat := by omega
    rw [Source.payload_of_le hfull]
    simp only [hshortfall, if_neg hwhole, willing, granted]
    cases hopen : (h.disk.write t.node (s.rest.take size.toNat)).openPath t.path with
    | error cause =>
      refine ⟨rfl, rfl, ?_⟩
      intro file hfile
      cases hfile
    | ok file =>
      refine ⟨rfl, rfl, ?_⟩
      intro file' hfile
      obtain rfl := Except.ok.inj hfile
      exact ⟨rfl, _, rfl⟩

/-! ## 5. Writing a payload -/

theorem write_willing (h : Host) (s : Source) (size : UInt64) (directory : Bytes) :
    write h s size directory =
      match h.disk.createTemp (stem directory) with
      | .error cause => ⟨.error .spillFailed, 0, s, h.report (.spillUncreated directory cause)⟩
      | .ok t =>
        match t.disk.resize t.node size with
        | .error cause =>
          ⟨.error .spillFailed, 0, s,
            abandon ((made h t).report (.spillUnsized size t.path cause)) t.path⟩
        | .ok disk => fill { made h t with disk } t s size := rfl

theorem write_of_lt (ht : h.disk.createTemp (stem directory) = .ok t) {size : UInt64}
    (hlarge : room t.disk < size.toNat) (s : Source) :
    ∃ event, write h s size directory
      = ⟨.error .spillFailed, 0, s, abandon ((made h t).report event) t.path⟩ := by
  obtain ⟨cause, hresize⟩ := resize_of_lt t.node hlarge
  exact ⟨.spillUnsized size t.path cause, by simp only [write_willing, ht, hresize]⟩

/-- The host with a new temporary file that has a size. -/
def sized (h : Host) (t : Disk.TempFile) (size : UInt64) : Host :=
  { made h t with
    disk := t.disk.setContent t.node ((t.disk.content t.node).resize size.toNat) }

theorem write_of_le (ht : h.disk.createTemp (stem directory) = .ok t) {size : UInt64}
    (hfits : size.toNat ≤ room t.disk) (s : Source) :
    write h s size directory = fill (sized h t size) t s size := by
  have hresize := resize_of_le t.node hfits
  simp only [write_willing, ht, hresize, sized]

/-- **What a payload for a file takes from the stream** is counted, whatever becomes of it. -/
theorem write_source (h : Host) (s : Source) (size : UInt64) (directory : Bytes) :
    (∃ reads, (write h s size directory).source = s.after size.toNat reads ∧
      (write h s size directory).consumed = UInt64.ofNat (s.rest.take size.toNat).length) ∨
    ((write h s size directory).source = s ∧ (write h s size directory).consumed = 0 ∧
      (write h s size directory).result = .error .spillFailed) := by
  rw [write_willing]
  split
  · exact Or.inr ⟨rfl, rfl, rfl⟩
  · rename_i t _
    split
    · exact Or.inr ⟨rfl, rfl, rfl⟩
    · obtain ⟨reads, hsource, hconsumed, -⟩ := fill_eq _ t s size
      exact Or.inl ⟨reads, hsource, hconsumed⟩

/-- **What a payload takes from the stream is counted even where a request is refused.** -/
theorem counted_writeUnder (h : Host) (s : Source) (size : UInt64) (directory : Bytes)
    (refuses : Refusals) :
    ∃ n reads, n ≤ size.toNat ∧ (writeUnder refuses h s size directory).source = s.after n reads ∧
      (writeUnder refuses h s size directory).consumed = UInt64.ofNat (s.rest.take n).length := by
  have hnone : s = s.after 0 s.reads := (Source.after_zero s).symm
  unfold writeUnder
  split
  · exact ⟨0, s.reads, Nat.zero_le _, hnone, rfl⟩
  · simp only
    split
    · exact ⟨0, s.reads, Nat.zero_le _, hnone, rfl⟩
    · exact taken_fillUnder _ _ s size refuses

/-- **What becomes of a payload that goes to a file**, if a temporary file can be made. -/
theorem write_result (ht : h.disk.createTemp (stem directory) = .ok t) (s : Source)
    (size : UInt64) :
    match fate (room h.disk) s size.toNat with
    | .ok bytes =>
      (write h s size directory).result = .ok ⟨t.path, some (.file t.node 0), size⟩ ∧
        (write h s size directory).host.disk.content t.node = .ofBytes bytes
    | .error e => (write h s size directory).result = .error e := by
  obtain ⟨hlen, hempty, hlimit, hopens⟩ := opens_of_createTemp ht
  have hroom : room t.disk = room h.disk := by rw [room, room, hlimit]
  rcases Nat.lt_or_ge (room h.disk) size.toNat with hlarge | hfits
  · obtain ⟨event, hwrite⟩ := write_of_lt ht (hroom.symm ▸ hlarge) s
    rw [fate, if_pos hlarge, hwrite]
  · obtain ⟨reads, -, -, hfill⟩ := fill_eq (sized h t size) t s size
    rw [fate, if_neg (Nat.not_lt.mpr hfits), write_of_le ht (hroom.symm ▸ hfits)]
    rcases Nat.lt_or_ge s.rest.length size.toNat with hshort | hfull
    · rw [Source.payload_of_lt hshort] at hfill ⊢
      exact hfill.1
    · rw [Source.payload_of_le hfull] at hfill ⊢
      obtain ⟨hresult, event, hhost⟩ := hfill _ (hopens _ ⟨rfl, rfl⟩ rfl)
      have hsame := Host.content_setContent_self t.disk
        ((t.disk.content t.node).resize size.toNat) hlen
      have htake : (s.rest.take size.toNat).length = size.toNat := by
        rw [List.length_take]
        omega
      have hbytes : ((sized h t size).disk.content t.node).overwrite (s.rest.take size.toNat)
          = .ofBytes (s.rest.take size.toNat) := by
        show ((t.disk.setContent _ _).content _).overwrite _ = _
        rw [hsame, hempty]
        simp [FileNode.overwrite, FileNode.resize, FileNode.ofBytes, htake]
      refine ⟨hresult, ?_⟩
      rw [hhost, ← hbytes]
      refine Host.content_setContent_self _ _ ?_
      show t.node < (t.disk.nodes.set _ _).length
      rw [List.length_set]
      exact hlen

/-! ## 6. What is left on the host -/

/-- One temporary file more, if there is a result, and otherwise none. -/
def Leaves (base : Host) (temps : List Temporary) (size : UInt64) (w : Written) : Prop :=
  match w.result with
  | .ok f => ∃ t : Temporary, f = ⟨t.path, some (.file t.node 0), size⟩ ∧
      base.Keeps w.host (temps ++ [t])
  | .error _ => base.Keeps w.host temps

/-- A file that was made and sized is kept, or taken away, whatever is refused. -/
theorem leaves_fillUnder {place : Place} (hk : base.Keeps h (temps ++ [⟨t.path, place, t.node⟩]))
    (s : Source) (size : UInt64) (refuses : Refusals) :
    Leaves base temps size (fillUnder refuses h t s size) ∧
      h.disk.nodes.length ≤ (fillUnder refuses h t s size).host.disk.nodes.length ∧
      ∀ n < h.disk.nodes.length, n ≠ t.node →
        (fillUnder refuses h t s size).host.disk.content n = h.disk.content n := by
  have htemp : (⟨t.path, place, t.node⟩ : Temporary) ∈ temps ++ [⟨t.path, place, t.node⟩] := by simp
  have hwritten : ∀ bytes,
      base.Keeps { h with disk := h.disk.write t.node bytes } (temps ++ [⟨t.path, place, t.node⟩]) :=
    fun bytes => hk.setContent ((h.disk.content t.node).overwrite bytes) (hk.numbered _ htemp).1
  have hothers : ∀ bytes n, n ≠ t.node → (h.disk.write t.node bytes).content n = h.disk.content n :=
    fun bytes n hne => Host.content_setContent_of_ne _ _ hne
  have hlength : ∀ bytes, (h.disk.write t.node bytes).nodes.length = h.disk.nodes.length :=
    fun bytes => List.length_set
  unfold Leaves
  cases filled h t s size refuses with
  | abandoned disk e event hdisk hresult herror hhost =>
    rw [hresult, hhost]
    rcases hdisk with rfl | ⟨bytes, rfl⟩
    · obtain ⟨hkeep, hspare⟩ := (hk.report event).abandon
      rw [List.append_nil] at hkeep
      exact ⟨hkeep, hspare.1, fun n hn _ => hspare.2 n hn⟩
    · obtain ⟨hkeep, hspare⟩ := ((hwritten bytes).report event).abandon
      rw [List.append_nil] at hkeep
      exact ⟨hkeep, (hlength bytes).ge.trans hspare.1, fun n hn hne =>
        (hspare.2 n (hn.trans_eq (hlength bytes).symm)).trans (hothers bytes n hne)⟩
  | opened bytes file event hopen hresult hhost =>
    have hleads := ((hwritten bytes).leads _ htemp).openPath ((hwritten bytes).node?_eq htemp)
    obtain rfl := Except.ok.inj (hopen.symm.trans hleads)
    rw [hresult, hhost]
    exact ⟨⟨⟨t.path, place, t.node⟩, rfl, (hwritten bytes).report event⟩, (hlength bytes).ge,
      fun n _ hne => hothers bytes n hne⟩

/-- **What a payload that was to go to a file leaves behind**: its file, or nothing.  A request may be
refused at any time.  Before the file is made there is nothing to take away, and from then on every
exit but the last takes the file off the disk and off the list. -/
theorem leaves_writeUnder (hk : base.Keeps h temps) (s : Source) (size : UInt64) (directory : Bytes)
    (refuses : Refusals) :
    Leaves base temps size (writeUnder refuses h s size directory) ∧
      h.Spares (writeUnder refuses h s size directory).host := by
  unfold writeUnder
  split
  · exact ⟨hk.report _, .of_nodes rfl⟩
  rename_i t hgranted
  obtain ⟨place, hkeep, hspare, hnode⟩ := keeps_made hk (granted_eq_ok hgranted).2
  simp only
  split
  · rename_i cause _
    obtain ⟨hgone, hspare'⟩ := (hkeep.report (.spillUnsized size t.path cause)).abandon
    rw [List.append_nil] at hgone
    exact ⟨hgone, hspare.trans hspare'⟩
  · rename_i disk hsized
    obtain rfl := eq_of_resize (granted_eq_ok hsized).2
    have hnew : base.disk.nodes.length ≤ t.node :=
      (hkeep.numbered ⟨t.path, place, t.node⟩ (by simp)).1
    have hkept := hkeep.setContent ((t.disk.content t.node).resize size.toNat) hnew
    obtain ⟨hleaves, hlonger, hothers⟩ := leaves_fillUnder (h := sized h t size) hkept s size refuses
    have hlen : (sized h t size).disk.nodes.length = t.disk.nodes.length := List.length_set
    refine ⟨hleaves, (hspare.1.trans hlen.ge).trans hlonger, ?_⟩
    intro n hn
    have hlt : n < (sized h t size).disk.nodes.length := by
      rw [hlen]
      exact hn.trans_le hspare.1
    have hne : n ≠ t.node := by omega
    exact (hothers n hlt hne).trans
      ((Host.content_setContent_of_ne _ _ hne).trans (hspare.2 n hn))

theorem write_leaves (hk : base.Keeps h temps) (s : Source) (size : UInt64) (directory : Bytes) :
    Leaves base temps size (write h s size directory) ∧
      h.Spares (write h s size directory).host :=
  leaves_writeUnder hk s size directory willing

end Spill

end Intake
