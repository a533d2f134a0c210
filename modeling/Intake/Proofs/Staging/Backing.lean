/-
# What a content says it has

A buffered `Content` says how many bytes there are in its buffer (`Size`), and goes on saying so
when it has been moved and the buffer is gone (`Content.afterMove`).  So a row of contents that are
made, moved about, read and dropped in any order (`Handling`) is **free of contents without their
bytes exactly as long as no content that still has some is moved away, and none is made over no
buffer** (`backed_iff_kept`).  What counts are the bytes that the content claims, and for reading it
those that it has not read.

Both counts are a `Gauge`: they do not depend on the buffer, and reading does not raise them.  The
argument is one for all gauges (`backed_always_iff`): a step that strips a content leaves one
without its bytes behind (`exists_stripped`), and no other step does (`backed_after`).
-/
import Mathlib
import Intake.Staging.Slots
import Intake.Proofs.Staging.Holders

namespace Intake

namespace Content

/-! ## 1. Bytes that a content counts on -/

/-- The bytes of a buffer that a content says it has. -/
def claimed (c : Content) : Nat :=
  match c.kind with
  | .buffer => c.size.toNat
  | .none | .spill => 0

/-- The bytes of a buffer that a content has not read yet. -/
def unread : Content → Nat
  | buffered _ length offset => length - offset
  | none | spilled _ => 0

/-- A count of bytes in a buffer: it is the same without the buffer, and reading does not raise it.
-/
structure Gauge (f : Content → Nat) : Prop where
  none : f .none = 0
  spilled : ∀ file, f (.spilled file) = 0
  emptied : ∀ handle length offset,
    f (.buffered .empty length offset) = f (.buffered handle length offset)
  read_le : ∀ p d c n, f (c.read p d n).2 ≤ f c

/-- The content has a buffer if it counts on one. -/
def Backed (f : Content → Nat) (c : Content) : Prop := 0 < f c → c.buffer?.isSome

theorem read_buffered (p : Pool) (d : Disk) (handle : Handle) (length offset n : Nat) :
    ((buffered handle length offset).read p d n).2 = buffered handle length offset ∨
      ((buffered handle length offset).read p d n).2
        = buffered handle length (offset + min n (length - offset)) := by
  simp only [read]
  split
  · exact Or.inl rfl
  · cases handle.buffer with
    | none => exact Or.inl rfl
    | some b => exact Or.inr rfl

theorem gauge_claimed : Gauge claimed where
  none := rfl
  spilled _ := rfl
  emptied _ _ _ := rfl
  read_le p d c n := by
    cases c with
    | none => exact Nat.le_refl _
    | spilled file => exact Nat.le_refl _
    | buffered handle length offset =>
      -- the length stays, whether the position moves or not
      rcases read_buffered p d handle length offset n with h | h <;>
        exact (congrArg claimed h).le

theorem gauge_unread : Gauge unread where
  none := rfl
  spilled _ := rfl
  emptied _ _ _ := rfl
  read_le p d c n := by
    cases c with
    | none => exact Nat.le_refl _
    | spilled file => exact Nat.le_refl _
    | buffered handle length offset =>
      rcases read_buffered p d handle length offset n with h | h
      · rw [h]
      · rw [h]
        simp only [unread]
        omega

theorem backed_claimed_iff (p : Pool) (c : Content) :
    c.Backed claimed ↔ (c.kind = .buffer → 0 < c.size → (c.data? p).isSome) := by
  cases c with
  | none => exact ⟨fun _ h => (by cases h), fun _ h => absurd h (Nat.lt_irrefl 0)⟩
  | spilled file => exact ⟨fun _ h => (by cases h), fun _ h => absurd h (Nat.lt_irrefl 0)⟩
  | buffered handle length offset =>
    have hpos : 0 < (buffered handle length offset).claimed ↔
        0 < (buffered handle length offset).size :=
      (UInt64.lt_iff_toNat_lt (a := 0) (b := (buffered handle length offset).size)).symm
    have hshown : ((buffered handle length offset).data? p).isSome ↔
        (buffered handle length offset).buffer?.isSome := by
      obtain ⟨buffer⟩ := handle
      cases buffer <;> simp [data?, buffer?]
    rw [Backed, hpos, hshown]
    exact ⟨fun h _ => h, fun h => h rfl⟩

theorem read_noBuffer_iff (p : Pool) (d : Disk) (c : Content) (n : Nat) :
    (c.read p d n).1 = .error .noBuffer ↔ 0 < n ∧ 0 < c.unread ∧ c.buffer? = Option.none := by
  cases c with
  | none => simp [read, unread]
  | spilled file =>
    have hnot : (Content.read p d (spilled file) n).1 ≠ .error .noBuffer := by
      simp only [read]
      cases (file.read d n).1 <;> simp [Except.mapError]
    simp [hnot, unread]
  | buffered handle length offset =>
    simp only [read, unread, buffer?]
    split
    · rename_i hnone
      have hcount : ¬ (0 < n ∧ 0 < length - offset) := by omega
      simp only [reduceCtorEq, false_iff]
      exact fun h => hcount ⟨h.1, h.2.1⟩
    · rename_i hsome
      have hcount : 0 < n ∧ 0 < length - offset := by omega
      cases handle.buffer <;> simp [hcount]

/-- A content is backed in what it has not read when no read fails for want of a buffer. -/
theorem backed_unread_iff (p : Pool) (d : Disk) (c : Content) :
    c.Backed unread ↔ ∀ n, (c.read p d n).1 ≠ .error .noBuffer := by
  constructor
  · intro h n hread
    obtain ⟨-, hunread, hnone⟩ := (read_noBuffer_iff p d c n).mp hread
    have hsome := h hunread
    rw [hnone] at hsome
    cases hsome
  · intro h hunread
    by_contra hnone
    exact h 1 ((read_noBuffer_iff p d c 1).mpr
      ⟨Nat.one_pos, hunread, Option.not_isSome_iff_eq_none.mp hnone⟩)

section Gauge

variable {f : Content → Nat}

theorem Gauge.afterMove (hf : Gauge f) (c : Content) :
    f c.afterMove = f c ∧ c.afterMove.buffer? = Option.none := by
  cases c with
  | none => exact ⟨rfl, rfl⟩
  | buffered handle length offset => exact ⟨hf.emptied handle length offset, rfl⟩
  | spilled file => exact ⟨(hf.spilled _).trans (hf.spilled _).symm, rfl⟩

theorem Gauge.backed_none (hf : Gauge f) : Content.none.Backed f :=
  fun h => absurd h (by rw [hf.none]; exact Nat.lt_irrefl 0)

/-- What is left of a content without bytes to count on is backed, and of no other. -/
theorem Gauge.backed_afterMove_iff (hf : Gauge f) (c : Content) :
    c.afterMove.Backed f ↔ f c = 0 := by
  obtain ⟨hsame, hnone⟩ := hf.afterMove c
  simp only [Backed, hsame, hnone, Option.isSome_none, Bool.false_eq_true, imp_false]
  exact Nat.not_lt.trans Nat.le_zero

theorem Gauge.backed_read (hf : Gauge f) {c : Content} (h : c.Backed f) (p : Pool) (d : Disk)
    (n : Nat) : (c.read p d n).2.Backed f := by
  intro hpos
  rw [(read_same p d c n).1]
  exact h (Nat.lt_of_lt_of_le hpos (hf.read_le p d c n))

end Gauge

/-- What is left of a content that was moved: its kind, and the size if it was in a buffer, but no
bytes; and a read fails for want of a buffer when there were bytes to read. -/
structure Emptied (c left : Content) : Prop where
  kind : left.kind = c.kind
  size : left.size = if c.kind = .buffer then c.size else 0
  data : ∀ p, left.data? p = Option.none
  read : ∀ p d n, (left.read p d n).1 = .error .noBuffer ↔ 0 < n ∧ 0 < c.unread

theorem emptied_afterMove (c : Content) : c.Emptied c.afterMove where
  kind := by cases c <;> rfl
  size := by cases c <;> rfl
  data p := by cases c <;> rfl
  read p d n := by
    obtain ⟨hsame, hnone⟩ := gauge_unread.afterMove c
    rw [read_noBuffer_iff, hsame, hnone]
    simp only [and_true]

/-- The position of a content is in the content. -/
def InRange : Content → Prop
  | buffered _ length offset => offset ≤ length
  | none | spilled _ => True

theorem InRange.afterMove {c : Content} (h : c.InRange) : c.afterMove.InRange := by
  cases c <;> exact h

theorem InRange.read {c : Content} (h : c.InRange) (p : Pool) (d : Disk) (n : Nat) :
    (c.read p d n).2.InRange := by
  cases c with
  | none => trivial
  | spilled file => trivial
  | buffered handle length offset =>
    have hle : offset ≤ length := h
    rcases read_buffered p d handle length offset n with hread | hread
    · rw [hread]
      exact hle
    · rw [hread]
      simp only [InRange]
      omega

end Content

namespace Staging

/-! ## 2. Contents in many hands -/

/-- Something that is done with a content, or around it. -/
inductive Handling where
  /-- A content over the buffer of a handle; the first bytes are the content. -/
  | ofBuffer (handle : Handle) (length : UInt64)
  | ofSpill (file : SpillFile)
  /-- A new content that another one is moved into. -/
  | moved (origin : Nat)
  | move (target origin : Nat)
  | read (slot count : Nat)
  | reset (slot : Nat)
  /-- Something happens to the buffers, the files or the stream. -/
  | meanwhile (staging : Staging) (source : Source)

namespace Slots

/-- A new content in a slot of its own. -/
def add (s : Slots) (c : Content) : Slots := { s with contents := s.contents ++ [c] }

/-- What is done with the contents, and what becomes of them. -/
def handle (s : Slots) : Handling → Slots
  | .ofBuffer handle length => s.add (.buffered handle length.toNat 0)
  | .ofSpill file => s.add (.spilled file)
  | .moved origin => (s.add .none).move s.contents.length origin
  | .move target origin => s.move target origin
  | .read i n => (s.read i n).2
  | .reset i => s.reset i
  | .meanwhile staging source => { s with staging, source }

/-- What becomes of the contents when one thing is done after another. -/
def handleAll (s : Slots) (deeds : List Handling) : Slots := deeds.foldl handle s

theorem handleAll_concat (s : Slots) (deeds : List Handling) (d : Handling) :
    s.handleAll (deeds ++ [d]) = (s.handleAll deeds).handle d := by
  rw [handleAll, List.foldl_append]
  rfl

/-- A content that counts on bytes is moved away from its slot, or made over no buffer. -/
def Strips (f : Content → Nat) (s : Slots) : Handling → Prop
  | .ofBuffer handle length =>
    handle.buffer = none ∧ 0 < f (.buffered handle length.toNat 0)
  | .moved origin => 0 < f (s.get origin)
  | .move target origin => target ≠ origin ∧ 0 < f (s.get origin)
  | .ofSpill _ | .read _ _ | .reset _ | .meanwhile _ _ => False

instance (f : Content → Nat) (s : Slots) : (d : Handling) → Decidable (Strips f s d)
  | .ofBuffer _ _ => inferInstanceAs (Decidable (_ ∧ _))
  | .moved _ => inferInstanceAs (Decidable (_ < _))
  | .move _ _ => inferInstanceAs (Decidable (_ ∧ _))
  | .ofSpill _ | .read _ _ | .reset _ | .meanwhile _ _ => inferInstanceAs (Decidable False)

variable {s : Slots} {f : Content → Nat} {P : Content → Prop}

/-! ## 3. One step -/

theorem get_mem_or_eq_none (s : Slots) (i : Nat) : s.get i ∈ s.contents ∨ s.get i = .none := by
  rw [get, List.getD_eq_getElem?_getD]
  cases hi : s.contents[i]? with
  | none => exact Or.inr rfl
  | some c => exact Or.inl (List.mem_of_getElem? hi)

theorem of_get (h : ∀ c ∈ s.contents, P c) (hnone : P .none) (i : Nat) : P (s.get i) := by
  rcases s.get_mem_or_eq_none i with hmem | heq
  · exact h _ hmem
  · rw [heq]
    exact hnone

theorem contents_move {target origin : Nat} (h : target ≠ origin) :
    (s.move target origin).contents
      = (s.contents.set target (s.get origin)).set origin (s.get origin).afterMove := by
  rw [move, if_neg h]
  rfl

theorem mem_set_of_get {i : Nat} {contents : List Content} (c : Content)
    (hlength : contents.length = s.contents.length) (h : s.get i ≠ .none) :
    c ∈ contents.set i c := by
  have hi : i < s.contents.length := by
    by_contra hout
    apply h
    rw [get, List.getD_eq_getElem?_getD, List.getElem?_eq_none (Nat.not_lt.mp hout)]
    rfl
  rw [List.mem_iff_getElem?]
  exact ⟨i, by rw [List.getElem?_set_self (hlength ▸ hi)]⟩

/-- A move keeps what holds of all contents, if it holds of what is left behind. -/
theorem all_move (h : ∀ c ∈ s.contents, P c) (hnone : P .none) {target origin : Nat}
    (hbehind : target ≠ origin → P (s.get origin).afterMove) :
    ∀ c ∈ (s.move target origin).contents, P c := by
  by_cases hsame : target = origin
  · rw [move, if_pos hsame]
    exact h
  · rw [contents_move hsame]
    intro c hc
    rcases List.mem_or_eq_of_mem_set hc with hc | rfl
    · rcases List.mem_or_eq_of_mem_set hc with hc | rfl
      · exact h c hc
      · exact of_get h hnone origin
    · exact hbehind hsame

theorem all_add (h : ∀ c ∈ s.contents, P c) {c : Content} (hc : P c) :
    ∀ c' ∈ (s.add c).contents, P c' := by
  intro c' hmem
  rcases List.mem_append.mp hmem with hmem | hmem
  · exact h c' hmem
  · rw [List.mem_singleton.mp hmem]
    exact hc

theorem get_add_none (s : Slots) (i : Nat) : (s.add .none).get i = s.get i := by
  rw [get, get, add, List.getD_eq_getElem?_getD, List.getD_eq_getElem?_getD]
  by_cases hi : i < s.contents.length
  · rw [List.getElem?_append_left hi]
  · rw [List.getElem?_append_right (Nat.not_lt.mp hi), List.getElem?_eq_none (Nat.not_lt.mp hi)]
    cases i - s.contents.length <;> rfl

/-- **What each deed keeps of all contents**, if the contents that it makes and leaves behind have
it. -/
theorem all_handle {d : Handling} (h : ∀ c ∈ s.contents, P c) (hnone : P .none)
    (hbuffer : ∀ handle length, d = .ofBuffer handle length → P (.buffered handle length.toNat 0))
    (hspill : ∀ file, P (.spilled file))
    (hmoved : ∀ origin, d = .moved origin → P (s.get origin).afterMove)
    (hmove : ∀ target origin, d = .move target origin → target ≠ origin →
      P (s.get origin).afterMove)
    (hread : ∀ c n, P c → P (c.read s.staging.pool s.staging.host.disk n).2) :
    ∀ c ∈ (s.handle d).contents, P c := by
  cases d with
  | ofBuffer handle length => exact all_add h (hbuffer handle length rfl)
  | ofSpill file => exact all_add h (hspill file)
  | moved origin =>
    refine all_move (all_add h hnone) hnone fun _ => ?_
    rw [get_add_none]
    exact hmoved origin rfl
  | move target origin => exact all_move h hnone (hmove target origin rfl)
  | read i n =>
    intro c hc
    rcases List.mem_or_eq_of_mem_set hc with hc | rfl
    · exact h c hc
    · exact hread _ n (of_get h hnone i)
  | reset i =>
    intro c hc
    rcases List.mem_or_eq_of_mem_set hc with hc | rfl
    · exact h c hc
    · exact hnone
  | meanwhile staging source => exact h

/-- **No content loses its bytes** in a step that strips none. -/
theorem backed_after (hf : Content.Gauge f) {d : Handling} (h : ∀ c ∈ s.contents, c.Backed f)
    (hkeeps : ¬ Strips f s d) : ∀ c ∈ (s.handle d).contents, c.Backed f := by
  refine all_handle h hf.backed_none ?_ ?_ ?_ ?_ ?_
  · rintro handle length rfl hpos
    rw [Option.isSome_iff_ne_none]
    exact fun hnone => hkeeps ⟨hnone, hpos⟩
  · exact fun file hpos => absurd hpos (by rw [hf.spilled]; exact Nat.lt_irrefl 0)
  · rintro origin rfl
    exact (hf.backed_afterMove_iff _).mpr (Nat.eq_zero_of_not_pos hkeeps)
  · rintro target origin rfl hne
    exact (hf.backed_afterMove_iff _).mpr (Nat.eq_zero_of_not_pos fun hpos => hkeeps ⟨hne, hpos⟩)
  · exact fun c n hc => hf.backed_read hc _ _ n

theorem afterMove_mem {target origin : Nat} (hne : target ≠ origin) (h : s.get origin ≠ .none) :
    (s.get origin).afterMove ∈ (s.move target origin).contents := by
  rw [contents_move hne]
  exact mem_set_of_get _ (List.length_set ..) h

/-- **A step that strips a content leaves one without its bytes.** -/
theorem exists_stripped (hf : Content.Gauge f) {d : Handling} (h : Strips f s d) :
    ∃ c ∈ (s.handle d).contents, ¬ c.Backed f := by
  -- what is moved counts on bytes, so it is something
  have hsome : ∀ {t : Slots} {origin : Nat}, 0 < f (t.get origin) → t.get origin ≠ .none := by
    intro t origin hpos hnone
    rw [hnone, hf.none] at hpos
    exact Nat.lt_irrefl 0 hpos
  have hbehind : ∀ {c : Content}, 0 < f c → ¬ c.afterMove.Backed f :=
    fun hpos hbacked => Nat.ne_of_gt hpos ((hf.backed_afterMove_iff _).mp hbacked)
  cases d with
  | ofBuffer handle length =>
    obtain ⟨hnone, hpos⟩ := h
    refine ⟨.buffered handle length.toNat 0, List.mem_append_right _ List.mem_cons_self, ?_⟩
    intro hbacked
    have hbuffer : handle.buffer.isSome := hbacked hpos
    rw [hnone] at hbuffer
    cases hbuffer
  | moved origin =>
    have hpos : 0 < f ((s.add .none).get origin) := by
      rw [get_add_none]
      exact h
    have hne : s.contents.length ≠ origin := by
      rintro rfl
      refine hsome h ?_
      rw [get, List.getD_eq_getElem?_getD, List.getElem?_eq_none (Nat.le_refl _)]
      rfl
    exact ⟨_, afterMove_mem hne (hsome hpos), hbehind hpos⟩
  | move target origin => exact ⟨_, afterMove_mem h.1 (hsome h.2), hbehind h.2⟩
  | ofSpill file => exact h.elim
  | read i n => exact h.elim
  | reset i => exact h.elim
  | meanwhile staging source => exact h.elim

/-! ## 4. Whole runs -/

/-- What holds at each place of a run, with what was done before, holds of every beginning. -/
theorem of_places {P : List Handling → Handling → Prop} {deeds : List Handling}
    (h : ∀ (i : Nat) (hi : i < deeds.length), P (deeds.take i) deeds[i]) {before : List Handling}
    {d : Handling} (hd : before ++ [d] <+: deeds) : P before d := by
  obtain ⟨behind, rfl⟩ := hd
  have hi : before.length < (before ++ [d] ++ behind).length := by simp
  simpa using h before.length hi

/-- **All contents have their bytes at all times exactly when no step strips one.** -/
theorem backed_always_iff (hf : Content.Gauge f) (h : ∀ c ∈ s.contents, c.Backed f)
    (deeds : List Handling) :
    (∀ before, before <+: deeds → ∀ c ∈ (s.handleAll before).contents, c.Backed f) ↔
      ∀ before d, before ++ [d] <+: deeds → ¬ Strips f (s.handleAll before) d := by
  constructor
  · intro hbacked before d hd hstrips
    obtain ⟨c, hc, hnot⟩ := exists_stripped hf hstrips
    refine hnot (hbacked _ hd c ?_)
    rw [handleAll_concat]
    exact hc
  · intro hkeeps before
    induction before using List.reverseRecOn with
    | nil => exact fun _ => h
    | append_singleton before d ih =>
      intro hd
      rw [handleAll_concat]
      exact backed_after hf (ih ((List.prefix_append _ _).trans hd)) (hkeeps before d hd)

theorem inRange_always (h : ∀ c ∈ s.contents, c.InRange) (deeds : List Handling) :
    ∀ c ∈ (s.handleAll deeds).contents, c.InRange := by
  induction deeds using List.reverseRecOn with
  | nil => exact h
  | append_singleton deeds d ih =>
    rw [handleAll_concat]
    have hget := of_get ih trivial
    exact all_handle ih trivial (fun _ length _ => Nat.zero_le length.toNat) (fun _ => trivial)
      (fun origin _ => (hget origin).afterMove) (fun _ origin _ _ => (hget origin).afterMove)
      (fun c n hc => hc.read _ _ n)

theorem emptied_move {target origin : Nat} (hne : target ≠ origin)
    (horigin : origin < s.contents.length) :
    (s.get origin).Emptied ((s.move target origin).get origin) := by
  have hleft : (s.move target origin).get origin = (s.get origin).afterMove := by
    rw [get, contents_move hne, List.getD_eq_getElem?_getD,
      List.getElem?_set_self (by rw [List.length_set]; exact horigin)]
    rfl
  rw [hleft]
  exact Content.emptied_afterMove _

/-- What becomes of a row of empty slots. -/
def run (staging : Staging) (source : Source) (count : Nat) (deeds : List Handling) : Slots :=
  (create staging source count).handleAll deeds

/-- Every content in a buffer shows its bytes, if it has any. -/
def ShowsAll (s : Slots) : Prop :=
  ∀ c ∈ s.contents, c.kind = .buffer → 0 < c.size → (c.data? s.staging.pool).isSome

/-- No content fails to be read for want of a buffer. -/
def ReadsAll (s : Slots) : Prop :=
  ∀ c ∈ s.contents, ∀ n, (s.staging.read c n).1 ≠ .error .noBuffer

theorem showsAll_iff : s.ShowsAll ↔ ∀ c ∈ s.contents, c.Backed Content.claimed :=
  forall₂_congr fun c _ => (Content.backed_claimed_iff s.staging.pool c).symm

theorem readsAll_iff : s.ReadsAll ↔ ∀ c ∈ s.contents, c.Backed Content.unread :=
  forall₂_congr fun c _ =>
    (Content.backed_unread_iff s.staging.pool s.staging.host.disk c).symm

/-- **Contents have the bytes that they claim exactly as long as none that claims some is moved
away**, or made over no buffer; **and they can be read exactly as long as none that has bytes to
read is**.  What is left of a content that was moved claims as many bytes as before, and reading it
fails if there were some left to read.

The first two parts are one fact about a gauge (`backed_always_iff`): only a step that strips a
content leaves one with a size and no bytes behind, and there it stays at least until the next
step. -/
theorem backed_iff_kept (staging : Staging) (source : Source) (count : Nat)
    (deeds : List Handling) :
    ((∀ before, before <+: deeds → (run staging source count before).ShowsAll) ↔
      ∀ before d, before ++ [d] <+: deeds →
        ¬ Strips Content.claimed (run staging source count before) d) ∧
    ((∀ before, before <+: deeds → (run staging source count before).ReadsAll) ↔
      ∀ before d, before ++ [d] <+: deeds →
        ¬ Strips Content.unread (run staging source count before) d) ∧
    (∀ c ∈ (run staging source count deeds).contents, c.InRange) ∧
    ∀ origin < (run staging source count deeds).contents.length,
      ((run staging source count deeds).get origin).Emptied
        ((run staging source count (deeds ++ [.moved origin])).get origin) ∧
      ∀ target ≠ origin, ((run staging source count deeds).get origin).Emptied
        ((run staging source count (deeds ++ [.move target origin])).get origin) := by
  have hempty : ∀ c ∈ (create staging source count).contents, c = .none :=
    fun c hc => List.eq_of_mem_replicate hc
  have hbacked : ∀ {f}, Content.Gauge f →
      ∀ c ∈ (create staging source count).contents, c.Backed f := by
    intro f hf c hc
    rw [hempty c hc]
    exact hf.backed_none
  refine ⟨?_, ?_, ?_, ?_⟩
  · simp only [showsAll_iff]
    exact backed_always_iff Content.gauge_claimed (hbacked Content.gauge_claimed) deeds
  · simp only [readsAll_iff]
    exact backed_always_iff Content.gauge_unread (hbacked Content.gauge_unread) deeds
  · refine inRange_always (fun c hc => ?_) deeds
    rw [hempty c hc]
    trivial
  · intro origin horigin
    simp only [run, handleAll_concat]
    constructor
    · have hlength : origin < (((create staging source count).handleAll deeds).add
          .none).contents.length := by
        rw [add, List.length_append]
        exact Nat.lt_add_right _ horigin
      have hleft := emptied_move (Nat.ne_of_gt horigin) hlength
      rw [get_add_none] at hleft
      exact hleft
    · exact fun target hne => emptied_move hne horigin

/-- Three bytes in a buffer are read to their end, and then the content is moved into a new one. -/
def readThenMoved : List Handling := [.ofBuffer ⟨some 0⟩ 3, .read 0 5, .moved 0]

/-- A staging area with one buffer of four bytes. -/
def oneBuffer : Staging := .create .empty (.create 1 4) 4 []

/-- What was read to its end can be moved away, and every content can still be read; but what is
left of it claims three bytes. -/
theorem readThenMoved_readable :
    (∀ before, before <+: readThenMoved →
      (run oneBuffer (.ofBytes [] 0) 0 before).ReadsAll) ∧
    ¬ (∀ before, before <+: readThenMoved →
      (run oneBuffer (.ofBytes [] 0) 0 before).ShowsAll) := by
  obtain ⟨hshows, hreads, -, -⟩ := backed_iff_kept oneBuffer (.ofBytes [] 0) 0 readThenMoved
  rw [hshows, hreads]
  constructor
  · intro before d hd
    refine of_places (P := fun before d => ¬ Strips Content.unread
      (run oneBuffer (.ofBytes [] 0) 0 before) d) ?_ hd
    decide
  · intro hkept
    exact hkept [.ofBuffer ⟨some 0⟩ 3, .read 0 5] (.moved 0) (List.prefix_refl _) (by decide)

/-- **A content that was moved claims the bytes that it had, shows none, and cannot be read.** -/
theorem moved_content_claims :
    ∃ c ∈ (run oneBuffer (.ofBytes [] 0) 0 [.ofBuffer ⟨some 0⟩ 3, .moved 0]).contents,
      c.kind = .buffer ∧ c.size = 3 ∧ c.data? oneBuffer.pool = none ∧
        (oneBuffer.read c 1).1 = .error .noBuffer :=
  ⟨.buffered .empty 3 0, by decide, rfl, rfl, rfl, rfl⟩

end Slots

end Staging

end Intake
