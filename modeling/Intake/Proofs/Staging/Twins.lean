/-
# Two runs side by side

Two streams are `Like` each other when they bring the same bytes and then both end, or both fail in
the same way; in which pieces the bytes come is left open.  Two hosts are `Twins` when their logs
and the nodes of their files are the same, but for the endings of temporary names.

What is done on the one and on the other side comes out alike: a payload that is written to a file
(`Spill.write_alike`) or put into the staging area (`materialize_alike`), what is read from a
content (`Content.read_veiled`), and what is left when it is released (`Twin.release`).  The names
have a part in this only where a file is made and where it is removed; that both go alike is due to
the hosts being `Stocked`.
-/
import Mathlib
import Intake.Proofs.Spill.Drawing
import Intake.Proofs.Staging.Household

namespace Intake

theorem result_cases {ε α β : Type} {seen : α → β} {r r' : Except ε α}
    (h : r'.map seen = r.map seen) :
    (∃ e, r = .error e ∧ r' = .error e) ∨
      ∃ a a', r = .ok a ∧ r' = .ok a' ∧ seen a' = seen a := by
  cases r <;> cases r'
  case error.error e e' => exact Or.inl ⟨e, rfl, congrArg _ (Except.error.inj h)⟩
  case ok.ok a a' => exact Or.inr ⟨a, a', rfl, rfl, Except.ok.inj h⟩
  all_goals cases h

/-! ## 1. Streams -/

namespace Source

/-- The same bytes and the same end, in whatever pieces. -/
structure Like (s s' : Source) : Prop where
  rest : s'.rest = s.rest
  failure : s'.failure = s.failure

variable {s s' : Source}

theorem Like.after (h : s.Like s') (n reads reads' : Nat) :
    (s.after n reads).Like (s'.after n reads') :=
  ⟨by rw [after_rest, after_rest, h.rest], h.failure⟩

theorem Like.shortfall (h : s.Like s') (want : Nat) : s'.shortfall want = s.shortfall want := by
  rw [Source.shortfall, h.rest, h.failure, ← Source.shortfall]

/-- **What is gathered does not depend on the pieces.** -/
theorem Like.gather (h : s.Like s') (cap want : Nat) (hcap : want ≠ 0 → 0 < cap) :
    ∃ source', gather Source.read cap want s'
        = { gather Source.read cap want s with source := source' } ∧
      (gather Source.read cap want s).source.Like source' := by
  obtain ⟨reads, hgather⟩ := gather_source cap want s hcap
  obtain ⟨reads', hgather'⟩ := gather_source cap want s' hcap
  refine ⟨s'.after want reads', ?_, ?_⟩
  · rw [hgather, hgather', h.rest, h.shortfall]
  · rw [hgather]
    exact h.after want reads reads'

theorem Like.readUpTo (h : s.Like s') (want : Nat) :
    (readUpTo Source.read want s').1 = (readUpTo Source.read want s).1 ∧
      (readUpTo Source.read want s).2.Like (readUpTo Source.read want s').2 := by
  obtain ⟨reads, hread⟩ := readUpTo_source want s
  obtain ⟨reads', hread'⟩ := readUpTo_source want s'
  rw [hread, hread', h.rest, h.shortfall]
  exact ⟨rfl, h.after want reads reads'⟩

end Source

/-! ## 2. Logs and hosts -/

/-- An event with the ending of a temporary name crossed out. -/
def Event.veiled : Event → Event
  | spillUnsized size path cause => spillUnsized size path.veiled cause
  | spilled size path => spilled size path.veiled
  | spillUnwritten path cause => spillUnwritten path.veiled cause
  | spillUnclosed path cause => spillUnclosed path.veiled cause
  | spillUnreopened path cause => spillUnreopened path.veiled cause
  | unlinkFailed path cause => unlinkFailed path.veiled cause
  | e => e

theorem Event.level_veiled (e : Event) : e.veiled.level = e.level := by
  cases e <;> rfl

namespace Log

/-- A log with the endings of temporary names crossed out. -/
def veiled (l : Log) : Log := { l with events := l.events.map Event.veiled }

theorem veiled_record (l : Log) (e : Event) : (l.record e).veiled = l.veiled.record e.veiled := by
  simp only [record, veiled, Event.level_veiled]
  split
  · rfl
  · simp

theorem veiled_recordAll (l : Log) (es : List Event) :
    (l.recordAll es).veiled = l.veiled.recordAll (es.map Event.veiled) := by
  induction es generalizing l with
  | nil => rfl
  | cons e es ih => exact (ih (l.record e)).trans (by rw [veiled_record]; rfl)

end Log

namespace Host

/-- The same log and the same nodes of files, whatever the files are called. -/
structure Twins (h h' : Host) : Prop where
  nodes : h'.disk.nodes = h.disk.nodes
  sizeLimit : h'.disk.sizeLimit = h.disk.sizeLimit
  log : h'.log.veiled = h.log.veiled

/-- Files may have been taken away, and the list is another one. -/
structure Stays (h h' : Host) : Prop where
  nodes : h'.disk.nodes = h.disk.nodes
  sizeLimit : h'.disk.sizeLimit = h.disk.sizeLimit
  log : h'.log = h.log

variable {base h h' h₁ h₁' : Host}

theorem Twins.refl (h : Host) : h.Twins h := ⟨rfl, rfl, rfl⟩

theorem Twins.report (ht : h.Twins h') {e e' : Event} (he : e'.veiled = e.veiled) :
    (h.report e).Twins (h'.report e') := by
  refine ⟨ht.nodes, ht.sizeLimit, ?_⟩
  rw [Host.report, Host.report, Log.veiled_record, Log.veiled_record, ht.log, he]

theorem Twins.reportAll (ht : h.Twins h') (es : List Event) :
    (h.reportAll es).Twins (h'.reportAll es) := by
  refine ⟨ht.nodes, ht.sizeLimit, ?_⟩
  rw [Host.reportAll, Host.reportAll, Log.veiled_recordAll, Log.veiled_recordAll, ht.log]

theorem Twins.stay (ht : h.Twins h') (hs : h.Stays h₁) (hs' : h'.Stays h₁') : h₁.Twins h₁' :=
  ⟨hs'.nodes.trans (ht.nodes.trans hs.nodes.symm),
    hs'.sizeLimit.trans (ht.sizeLimit.trans hs.sizeLimit.symm), by rw [hs'.log, hs.log, ht.log]⟩

theorem Twins.redraw (ht : h.Twins h') (drawn drawn' : Nat) :
    ({ h with disk := { h.disk with drawn } } : Host).Twins
      { h' with disk := { h'.disk with drawn := drawn' } } :=
  ⟨ht.nodes, ht.sizeLimit, ht.log⟩

theorem stays_abandon (h : Host) (path : Bytes) : h.Stays (Spill.abandon h path) := by
  have hdiscard : (h.disk.discard path).nodes = h.disk.nodes ∧
      (h.disk.discard path).sizeLimit = h.disk.sizeLimit := by
    unfold Disk.discard Disk.unlink
    cases h.disk.resolve path with
    | error e => exact ⟨rfl, rfl⟩
    | ok target => cases target <;> exact ⟨rfl, rfl⟩
  exact ⟨hdiscard.1, hdiscard.2, rfl⟩

theorem Owned.stays_remove {f : SpillFile} {files : List SpillFile} (ho : base.Owned h files)
    (hf : f ∈ files) : h.Stays (f.remove h).1 := by
  rcases ho.opened hf with hhollow | ⟨hnamed, place, node, -, hresolve, -⟩
  · rw [hhollow.remove]
    exact ⟨rfl, rfl, rfl⟩
  · have hpath : f.path.isEmpty = false := by simpa using hnamed
    have hunlink : h.disk.unlink f.path = .ok (h.disk.removeFile place) := by
      rw [Disk.unlink, hresolve]
    simp only [SpillFile.remove, SpillFile.unlink, hpath, hunlink]
    exact ⟨rfl, rfl, rfl⟩

end Host

/-! ## 3. Writing to a file -/

namespace Spill

/-- Two payloads that were written to files, or were not, in the same way. -/
structure Written.Alike (w w' : Written) : Prop where
  result : w'.result.map SpillFile.veiled = w.result.map SpillFile.veiled
  consumed : w'.consumed = w.consumed
  source : w.source.Like w'.source
  host : w.host.Twins w'.host

variable {h h' : Host} {s s' : Source} {t t' : Disk.TempFile}

/-- **Filling a file** on both sides, block by block. -/
theorem fill_alike (ht : h.Twins h') (hs : s.Like s') (hnode : t'.node = t.node)
    (hpath : t'.path.veiled = t.path.veiled)
    (hopens : ∀ bytes, (h.disk.write t.node bytes).openPath t.path = .ok (.file t.node 0))
    (hopens' : ∀ bytes, (h'.disk.write t'.node bytes).openPath t'.path = .ok (.file t'.node 0))
    (size : UInt64) : (fill h t s size).Alike (fill h' t' s' size) := by
  obtain ⟨reads, blocks, hgather⟩ := gather_willing size s
  obtain ⟨reads', blocks', hgather'⟩ := gather_willing size s'
  have hlike := hs.after size.toNat reads reads'
  rw [hs.rest, hs.shortfall] at hgather'
  unfold fill fillUnder
  simp only [hgather, hgather', hopens, hopens', willing, granted]
  cases s.shortfall size.toNat with
  | some e =>
    exact ⟨rfl, rfl, hlike,
      (ht.report rfl).stay (Host.stays_abandon _ _) (Host.stays_abandon _ _)⟩
  | none =>
    simp only
    split
    · exact ⟨rfl, rfl, hlike,
        (ht.report rfl).stay (Host.stays_abandon _ _) (Host.stays_abandon _ _)⟩
    · have hwritten : ∀ bytes, ({ h with disk := h.disk.write t.node bytes } : Host).Twins
          { h' with disk := h'.disk.write t'.node bytes } := by
        intro bytes
        refine ⟨?_, ht.sizeLimit, ht.log⟩
        simp only [Disk.write, Disk.setContent, Disk.content, ht.nodes, hnode]
      refine ⟨?_, rfl, hlike, (hwritten _).report ?_⟩
      · simp only [Except.map, SpillFile.veiled, hpath, hnode]
      · rw [Event.veiled, Event.veiled, hpath]

theorem resize_alike {d d' : Disk} (hlimit : d'.sizeLimit = d.sizeLimit) (node : Nat)
    (size : UInt64) :
    (∃ cause, d.resize node size = .error cause ∧ d'.resize node size = .error cause) ∨
      (d.resize node size = .ok (d.setContent node ((d.content node).resize size.toNat)) ∧
        d'.resize node size = .ok (d'.setContent node ((d'.content node).resize size.toNat))) := by
  unfold Disk.resize
  rw [hlimit]
  split
  · exact Or.inl ⟨_, rfl, rfl⟩
  split
  · exact Or.inl ⟨_, rfl, rfl⟩
  · exact Or.inr ⟨rfl, rfl⟩

/-- **Writing a payload to a file** on both sides. -/
theorem write_alike {directory : Bytes} (ht : h.Twins h') (hs : s.Like s')
    (hmade : Disk.MadeAlike (stem directory) (h.disk.createTemp (stem directory))
      (h'.disk.createTemp (stem directory)))
    (size : UInt64) : (write h s size directory).Alike (write h' s' size directory) := by
  rw [write_willing, write_willing]
  generalize hfirst : h.disk.createTemp (stem directory) = made? at hmade
  generalize hsecond : h'.disk.createTemp (stem directory) = made?' at hmade
  cases hmade with
  | refused cause => exact ⟨rfl, rfl, hs, ht.report rfl⟩
  | @made t t' hdrawn hdrawn' hnode hnodes =>
    have hpath : t'.path.veiled = t.path.veiled := by
      rw [veiled_drawn hdrawn, veiled_drawn hdrawn']
    obtain ⟨-, -, hlimit, hopens⟩ := opens_of_createTemp hfirst
    obtain ⟨-, -, hlimit', hopens'⟩ := opens_of_createTemp hsecond
    have hlimits : t'.disk.sizeLimit = t.disk.sizeLimit := by
      rw [hlimit, hlimit', ht.sizeLimit]
    have hmadeTwins : (made h t).Twins (made h' t') := ⟨hnodes, hlimits, ht.log⟩
    have hrefused : ∀ cause,
        (abandon ((made h t).report (.spillUnsized size t.path cause)) t.path).Twins
          (abandon ((made h' t').report (.spillUnsized size t'.path cause)) t'.path) := by
      intro cause
      refine (hmadeTwins.report ?_).stay (Host.stays_abandon _ _) (Host.stays_abandon _ _)
      rw [Event.veiled, Event.veiled, hpath]
    rcases resize_alike hlimits t.node size with
      ⟨cause, hresize, hresize'⟩ | ⟨hresize, hresize'⟩
    · rw [← hnode] at hresize'
      simp only [hresize, hresize']
      exact ⟨rfl, rfl, hs, hrefused cause⟩
    · rw [← hnode] at hresize'
      simp only [hresize, hresize']
      have hsized : (sized h t size).Twins (sized h' t' size) := by
        refine ⟨?_, hlimits, ht.log⟩
        simp only [sized, Disk.setContent, Disk.content, hnodes, hnode]
      exact fill_alike hsized hs hnode hpath (fun _ => hopens _ ⟨rfl, rfl⟩ rfl)
        (fun _ => hopens' _ ⟨rfl, rfl⟩ rfl) size

end Spill

/-! ## 4. Contents -/

namespace Content

/-- A content with the ending of its path crossed out. -/
def veiled : Content → Content
  | spilled f => spilled f.veiled
  | c => c

/-- The spill file of a content, or one that owns nothing. -/
def file : Content → SpillFile
  | spilled f => f
  | _ => .empty

theorem file_veiled (c : Content) : c.veiled.file = c.file.veiled := by
  cases c <;> rfl

theorem veiled_cases {c c' : Content} (h : c'.veiled = c.veiled) :
    c' = c ∨ ∃ path path' file size, c = spilled ⟨path, file, size⟩ ∧
      c' = spilled ⟨path', file, size⟩ ∧ path'.veiled = path.veiled := by
  cases c <;> cases c'
  case spilled.spilled f f' =>
    obtain ⟨path, file, size⟩ := f
    obtain ⟨path', file', size'⟩ := f'
    obtain ⟨hpath, rfl, rfl⟩ := SpillFile.mk.inj (spilled.inj h)
    exact Or.inr ⟨path, path', file', size', rfl, rfl, hpath⟩
  all_goals first | exact Or.inl h | cases h

theorem veiled_afterMove {c c' : Content} (h : c'.veiled = c.veiled) :
    c'.afterMove = c.afterMove := by
  rcases veiled_cases h with rfl | ⟨path, path', file, size, rfl, rfl, -⟩ <;> rfl

variable {d d' : Disk} {c c' : Content}

theorem content_of_nodes (hd : d'.nodes = d.nodes) (node : Nat) :
    d'.content node = d.content node := by
  rw [Disk.content, hd, ← Disk.content]

/-- **Reading from a content** on both sides. -/
theorem read_veiled (p : Pool) (hd : d'.nodes = d.nodes) (hc : c'.veiled = c.veiled) (n : Nat) :
    (c'.read p d' n).1 = (c.read p d n).1 ∧
      (c'.read p d' n).2.veiled = (c.read p d n).2.veiled := by
  have hfile : ∀ (path path' : Bytes) (file : Option OpenFile) (size : UInt64),
      path'.veiled = path.veiled →
      ((spilled ⟨path', file, size⟩).read p d' n).1 = ((spilled ⟨path, file, size⟩).read p d n).1 ∧
        ((spilled ⟨path', file, size⟩).read p d' n).2.veiled
          = ((spilled ⟨path, file, size⟩).read p d n).2.veiled := by
    intro path path' file size hpath
    cases file with
    | none => simp only [read, SpillFile.read, veiled, SpillFile.veiled, hpath, and_self]
    | some o =>
      cases o with
      | directory =>
        simp only [read, SpillFile.read, Disk.readOpen, veiled, SpillFile.veiled, hpath, and_self]
      | file node position =>
        simp only [read, SpillFile.read, Disk.readOpen, content_of_nodes hd, veiled,
          SpillFile.veiled, hpath, and_self]
  rcases veiled_cases hc with rfl | ⟨path, path', file, size, rfl, rfl, hpath⟩
  · cases c' with
    | none => exact ⟨rfl, rfl⟩
    | buffered handle length offset => exact ⟨rfl, rfl⟩
    | spilled f => exact hfile f.path f.path f.file f.size rfl
  · exact hfile path path' file size hpath

theorem remaining_veiled (p : Pool) (hd : d'.nodes = d.nodes) (hc : c'.veiled = c.veiled) :
    c'.remaining p d' = c.remaining p d := by
  have hfile : ∀ (path path' : Bytes) (file : Option OpenFile) (size : UInt64),
      (spilled ⟨path', file, size⟩).remaining p d'
        = (spilled ⟨path, file, size⟩).remaining p d := by
    intro path path' file size
    cases file with
    | none => rfl
    | some o =>
      cases o with
      | directory => rfl
      | file node position => simp only [remaining, SpillFile.remaining, content_of_nodes hd]
  rcases veiled_cases hc with rfl | ⟨path, path', file, size, rfl, rfl, -⟩
  · cases c' with
    | none => rfl
    | buffered handle length offset => rfl
    | spilled f => exact hfile f.path f.path f.file f.size
  · exact hfile path path' file size

theorem read_file (p : Pool) (d : Disk) (c : Content) (n : Nat) :
    (c.read p d n).2.file = (c.file.read d n).2 := by
  cases c with
  | none => rfl
  | buffered handle length offset =>
    simp only [read]
    split
    · rfl
    · cases handle.buffer <;> rfl
  | spilled f => rfl

theorem file_afterMove (c : Content) : c.afterMove.file = .empty := by
  cases c <;> rfl

end Content

/-! ## 5. The staging area -/

namespace Staging

/-- The same staging area, on a host that is a twin. -/
def Twin (s s' : Staging) : Prop := ∃ host, s.host.Twins host ∧ s' = { s with host }

/-- Two payloads that went into the staging area, or did not, in the same way. -/
structure Delivery.Alike (d d' : Delivery) : Prop where
  content : d'.content.map Content.veiled = d.content.map Content.veiled
  consumed : d'.consumed = d.consumed
  source : d.source.Like d'.source
  staging : d.staging.Twin d'.staging

/-- Two tries that came to the same. -/
inductive Step.Alike : Step → Step → Prop where
  | waits : Alike .waits .waits
  | overflows : Alike .overflows .overflows
  | delivers {d d' : Delivery} (h : d.Alike d') : Alike (.delivers d) (.delivers d')

variable {base : Host} {s s' : Staging} {source source' : Source} {c c' : Content}

theorem Twin.report (ht : s.Twin s') (e : Event) : (s.report e).Twin (s'.report e) := by
  obtain ⟨host, hhost, rfl⟩ := ht
  exact ⟨_, hhost.report rfl, rfl⟩

theorem Twin.report? (ht : s.Twin s') (e : Option Event) : (s.report? e).Twin (s'.report? e) := by
  obtain ⟨host, hhost, rfl⟩ := ht
  exact ⟨_, hhost.reportAll _, rfl⟩

/-- **Filling a buffer** on both sides. -/
theorem fillBuffer_alike (ht : s.Twin s') (hs : source.Like source') (b : Nat) (size : UInt64) :
    (s.fillBuffer b source size).Alike (s'.fillBuffer b source' size) := by
  obtain ⟨host, hhost, rfl⟩ := ht
  obtain ⟨source', hgather, hlike⟩ := hs.gather size.toNat size.toNat (by omega)
  unfold fillBuffer
  simp only [hgather]
  cases (gather Source.read size.toNat size.toNat source).failure with
  | some e => exact ⟨rfl, rfl, hlike, _, (hhost.reportAll _).report rfl, rfl⟩
  | none =>
    simp only
    split
    · exact ⟨rfl, rfl, hlike, _, (hhost.reportAll _).report rfl, rfl⟩
    · exact ⟨rfl, rfl, hlike, host, hhost, rfl⟩

/-- **Putting a payload into the staging area** on both sides. -/
theorem materialize_alike (ht : s.Twin s') (hs : source.Like source')
    (hmade : Disk.MadeAlike (Spill.stem s.tempDir) (s.host.disk.createTemp (Spill.stem s.tempDir))
      (s'.host.disk.createTemp (Spill.stem s.tempDir)))
    (size : UInt64) : (s.materialize source size).Alike (s'.materialize source' size) := by
  obtain ⟨host, hhost, rfl⟩ := ht
  unfold materialize shouldSpill
  simp only
  split
  · obtain ⟨hresult, hconsumed, hlike, htwins⟩ := Spill.write_alike hhost hs hmade size
    unfold toSpill
    simp only
    rcases result_cases hresult with ⟨e, hfirst, hsecond⟩ | ⟨f, f', hfirst, hsecond, hf⟩
    · simp only [hfirst, hsecond]
      exact .delivers ⟨rfl, hconsumed, hlike, _, htwins, rfl⟩
    · simp only [hfirst, hsecond]
      exact .delivers ⟨congrArg (Except.ok ∘ Content.spilled) hf, hconsumed, hlike, _, htwins, rfl⟩
  · unfold toBuffer
    simp only
    split
    · exact .waits
    · exact .delivers ⟨rfl, rfl, hs, _, hhost.report rfl, rfl⟩
    · rename_i b pool _
      split
      · exact .overflows
      · have hpool : ({ s with pool } : Staging).Twin { s with host, pool } := ⟨host, hhost, rfl⟩
        exact .delivers (fillBuffer_alike hpool hs b size)

/-- **Letting go of a content** on both sides. -/
theorem Twin.release {files files' : List SpillFile} (ht : s.Twin s') (hc : c'.veiled = c.veiled)
    (ho : base.Owned s.host files) (ho' : base.Owned s'.host files') (hf : c.file ∈ files)
    (hf' : c'.file ∈ files') : (s.release c).Twin (s'.release c') := by
  obtain ⟨host, hhost, rfl⟩ := ht
  cases c with
  | none =>
    obtain rfl : c' = .none := (Content.veiled_cases hc).elim id fun ⟨_, _, _, _, h, _⟩ => nomatch h
    exact ⟨host, hhost, rfl⟩
  | buffered handle length offset =>
    obtain rfl : c' = .buffered handle length offset :=
      (Content.veiled_cases hc).elim id fun ⟨_, _, _, _, h, _⟩ => nomatch h
    exact ⟨_, hhost.reportAll _, rfl⟩
  | spilled f =>
    cases c' with
    | none => cases hc
    | buffered handle length offset => cases hc
    | spilled f' => exact ⟨_, hhost.stay (ho.stays_remove hf) (ho'.stays_remove hf'), rfl⟩

theorem Twin.read (ht : s.Twin s') (hc : c'.veiled = c.veiled) (n : Nat) :
    (s'.read c' n).1 = (s.read c n).1 ∧ (s'.read c' n).2.veiled = (s.read c n).2.veiled := by
  obtain ⟨host, hhost, rfl⟩ := ht
  exact Content.read_veiled s.pool hhost.nodes hc n

theorem Twin.remaining (ht : s.Twin s') (hc : c'.veiled = c.veiled) :
    s'.remaining c' = s.remaining c := by
  obtain ⟨host, hhost, rfl⟩ := ht
  exact Content.remaining_veiled s.pool hhost.nodes hc

/-! ## 6. What keeps a staging area stocked -/

/-- The temporary files in the staging area belong to contents. -/
def Stocked (base : Host) (s : Staging) (files : List SpillFile) : Prop :=
  base.Stocked s.host (Spill.stem s.tempDir) files

variable {files : List SpillFile} {d : Delivery}

theorem Stocked.noted (hs : s.Stocked base files) (hn : s.Noted s') : s'.Stocked base files := by
  obtain ⟨log, rfl⟩ := hn
  exact Host.Stocked.of_parts hs

theorem Stocked.release {g : SpillFile} {i : Nat} (hs : s.Stocked base files)
    (hi : files[i]? = some c.file) (hg : g.IsHollow) :
    (s.release c).Stocked base (files.set i g) := by
  have hvacated := Host.Stocked.vacate hs hi hg
  cases c with
  | none => exact hvacated
  | buffered handle length offset => exact Host.Stocked.of_parts hvacated
  | spilled f => exact hvacated

/-- The files that a payload was put into: one, or none. -/
def Delivery.into (d : Delivery) : List SpillFile :=
  match d.content with
  | .ok c => [c.file]
  | .error _ => []

theorem toSpill_stocked (hs : s.Stocked base files) (source : Source) (size : UInt64) :
    (s.toSpill source size).staging.Stocked base ((s.toSpill source size).into ++ files) := by
  have hwrite := Host.Stocked.write hs source size
  unfold toSpill Delivery.into
  simp only
  cases hresult : (Spill.write s.host source size s.tempDir).result with
  | error e =>
    rw [hresult] at hwrite
    exact hwrite
  | ok f =>
    rw [hresult] at hwrite
    exact hwrite

theorem toBuffer_stocked (hs : s.Stocked base files) {source : Source} {size : UInt64}
    (hd : s.toBuffer source size = .delivers d) : d.staging.Stocked base (d.into ++ files) := by
  unfold toBuffer at hd
  split at hd
  · cases hd
  · obtain rfl := Step.delivers.inj hd
    exact Host.Stocked.of_parts hs
  · rename_i b pool _
    split at hd
    · cases hd
    · obtain rfl := Step.delivers.inj hd
      obtain ⟨reads, -, -, hfill⟩ := fillBuffer_eq { s with pool } b source size
      unfold Delivery.into
      split at hfill
      · obtain ⟨hcontent, event, hstaging⟩ := hfill
        rw [hcontent, hstaging]
        exact Host.Stocked.of_parts hs
      · obtain ⟨hcontent, hstaging⟩ := hfill
        rw [hcontent, hstaging]
        exact Host.Stocked.cons hs SpillFile.isHollow_empty

/-- **A payload in the staging area** adds its file, if it went to one. -/
theorem Delivers.stocked (hd : s.Delivers d) (hs : s.Stocked base files) :
    d.staging.Stocked base (d.into ++ files) := by
  cases hd with
  | @bySize source size _ hd =>
    unfold materialize at hd
    split at hd
    · obtain rfl := Step.delivers.inj hd
      exact toSpill_stocked hs source size
    · exact toBuffer_stocked hs hd
  | buffer hd => exact toBuffer_stocked hs hd
  | spill source size => exact toSpill_stocked hs source size

end Staging

end Intake
