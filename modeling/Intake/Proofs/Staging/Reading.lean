/-
# Reading a content back

Buffers and files alike read as zeros behind what was written to them (`Bytes.padded`).  So it does
not matter how reads of a `Content` are cut: one after another they bring its bytes in order, and
nothing once those are used up (`readsBack_of_remaining`).
-/
import Mathlib
import Intake.Staging.Basic

namespace Intake

/-! ## 1. Zeros behind the bytes -/

/-- The first `n` bytes, with zeros where there are fewer. -/
def Bytes.padded (b : Bytes) (n : Nat) : Bytes := (b ++ List.replicate n 0).take n

theorem padded_eq (b : Bytes) (n : Nat) :
    b.padded n = if (b.take n).length = n then b.take n
      else b.take n ++ List.replicate (n - (b.take n).length) 0 := by
  have hlen := List.length_take (i := n) (l := b)
  unfold Bytes.padded
  split
  · rename_i h
    rw [List.take_append_of_le_length (by omega)]
  · rename_i h
    rw [List.take_append, List.take_of_length_le (by omega : b.length ≤ n), List.take_replicate]
    congr 2
    omega

theorem length_padded (b : Bytes) (n : Nat) : (b.padded n).length = n := by
  simp [Bytes.padded]

theorem take_padded (b : Bytes) {k n : Nat} (hk : k ≤ n) : (b.padded n).take k = b.padded k := by
  apply List.ext_getElem?
  intro i
  simp only [Bytes.padded, List.getElem?_take, List.getElem?_append, List.getElem?_replicate]
  split_ifs <;> first | rfl | omega

theorem drop_padded (b : Bytes) {k n : Nat} (hk : k ≤ n) :
    (b.padded n).drop k = Bytes.padded (b.drop k) (n - k) := by
  apply List.ext_getElem?
  intro i
  simp only [Bytes.padded, List.getElem?_drop, List.getElem?_take, List.getElem?_append,
    List.getElem?_replicate, List.length_drop]
  split_ifs <;> first | rfl | omega

theorem Pool.load_eq_padded (p : Pool) (b position n : Nat) :
    p.load b position n = Bytes.padded ((p.written b).drop position) n := by
  rw [padded_eq]
  rfl

theorem FileNode.readAt_eq_padded (f : FileNode) (position n : Nat) :
    f.readAt position n = Bytes.padded (f.data.drop position) (min n (f.size - position)) := by
  rw [padded_eq]
  rfl

theorem padded_split (b : Bytes) (position room n : Nat) :
    Bytes.padded (b.drop position) (min n room) = (Bytes.padded (b.drop position) room).take n ∧
      Bytes.padded (b.drop (position + min n room)) (room - min n room)
        = (Bytes.padded (b.drop position) room).drop n := by
  have hle : min n room ≤ room := Nat.min_le_right n room
  have hlen := length_padded (b.drop position) room
  constructor
  · rw [← take_padded _ hle, List.take_eq_take_iff]
    omega
  · rw [← List.drop_drop, ← drop_padded _ hle, List.drop_eq_drop_iff]
    omega

/-! ## 2. One read of a content -/

section Read

variable {p : Pool} {d : Disk} {bytes : Bytes}

theorem read_of_remaining_buffered {handle : Handle} {length offset : Nat}
    (h : (Content.buffered handle length offset).remaining p d = .ok bytes) (n : Nat) :
    ((Content.buffered handle length offset).read p d n).1 = .ok (bytes.take n) ∧
      ((Content.buffered handle length offset).read p d n).2.remaining p d
        = .ok (bytes.drop n) := by
  simp only [Content.remaining] at h
  by_cases hleft : length - offset = 0
  · rw [if_pos hleft] at h
    cases h
    simp [Content.read, Content.remaining, hleft]
  rw [if_neg hleft] at h
  cases hb : handle.buffer with
  | none => simp [hb] at h
  | some b =>
    simp only [hb, Pool.load_eq_padded] at h
    obtain rfl := (Except.ok.inj h).symm
    obtain ⟨htake, hdrop⟩ := padded_split (p.written b) offset (length - offset) n
    by_cases hn : n = 0
    · subst hn
      simp [Content.read, Content.remaining, hleft, hb, Pool.load_eq_padded]
    have hk : min n (length - offset) ≠ 0 := by omega
    have hread : (Content.buffered handle length offset).read p d n
        = (.ok (p.load b offset (min n (length - offset))),
          .buffered handle length (offset + min n (length - offset))) := by
      simp only [Content.read, if_neg hk, hb]
    have hrest : length - (offset + min n (length - offset))
        = length - offset - min n (length - offset) := by omega
    rw [hread]
    refine ⟨by rw [Pool.load_eq_padded, htake], ?_⟩
    simp only [Content.remaining, hb, hrest, Pool.load_eq_padded, hdrop]
    split
    · rename_i hnil
      rw [← hdrop, hnil, Bytes.padded, List.take_zero]
    · rfl

theorem read_of_remaining_spilled {f : SpillFile}
    (h : (Content.spilled f).remaining p d = .ok bytes) (n : Nat) :
    ((Content.spilled f).read p d n).1 = .ok (bytes.take n) ∧
      ((Content.spilled f).read p d n).2.remaining p d = .ok (bytes.drop n) := by
  obtain ⟨path, file, size⟩ := f
  cases file with
  | none => cases h
  | some o =>
    cases o with
    | directory => cases h
    | file node position =>
      have hbytes : bytes = Bytes.padded ((d.content node).data.drop position)
          ((d.content node).size - position) := by
        have h := (Except.ok.inj h).symm
        rwa [FileNode.readAt_eq_padded, Nat.min_self] at h
      obtain ⟨htake, hdrop⟩ :=
        padded_split (d.content node).data position ((d.content node).size - position) n
      have hrest : ∀ k, (d.content node).size - (position + k)
          = (d.content node).size - position - k := by omega
      rw [hbytes, ← htake, ← hdrop]
      simp [Content.read, SpillFile.read, Disk.readOpen, Content.remaining, SpillFile.remaining,
        Except.mapError, FileNode.readAt_eq_padded, length_padded, hrest]

/-- **One read** brings the next bytes of a content and leaves the others. -/
theorem read_of_remaining {c : Content} (h : c.remaining p d = .ok bytes) (n : Nat) :
    (c.read p d n).1 = .ok (bytes.take n) ∧
      (c.read p d n).2.remaining p d = .ok (bytes.drop n) := by
  cases c with
  | none =>
    obtain rfl := (Except.ok.inj h).symm
    simp [Content.read, Content.remaining]
  | buffered handle length offset => exact read_of_remaining_buffered h n
  | spilled f => exact read_of_remaining_spilled h n

end Read

/-! ## 3. Many reads -/

/-- Reads of the given sizes, one after another. -/
def Staging.readEach (s : Staging) (c : Content) : List Nat → List (Except ReadFault Bytes)
  | [] => []
  | n :: sizes => (s.read c n).1 :: s.readEach (s.read c n).2 sizes

/-- Bytes in pieces of the given sizes, as far as they go. -/
def Bytes.pieces (b : Bytes) : List Nat → List Bytes
  | [] => []
  | n :: sizes => b.take n :: Bytes.pieces (b.drop n) sizes

/-- A content reads back to the given bytes, however its reads are cut. -/
def Staging.ReadsBack (s : Staging) (c : Content) (b : Bytes) : Prop :=
  ∀ sizes, s.readEach c sizes = (b.pieces sizes).map .ok

/-- **What is left of a content is what reads bring.** -/
theorem readsBack_of_remaining {s : Staging} {c : Content} {b : Bytes}
    (h : s.remaining c = .ok b) : s.ReadsBack c b := by
  intro sizes
  induction sizes generalizing c b with
  | nil => rfl
  | cons n sizes ih =>
    obtain ⟨hread, hrest⟩ := read_of_remaining h n
    have hstep : s.readEach c (n :: sizes)
        = (s.read c n).1 :: s.readEach (s.read c n).2 sizes := rfl
    rw [hstep, ih (c := (s.read c n).2) hrest]
    show (c.read s.pool s.host.disk n).1 :: _ = _
    rw [hread]
    rfl

/-! ## 4. Reading until enough has come -/

variable {s : Staging} {c : Content}

/-- However little a read is asked for at a time, all that is wanted comes, as far as it goes.  The
induction is on how much is wanted. -/
theorem gather_of_remaining {b : Bytes} {cap : Nat} (hcap : cap ≠ 0) (h : s.remaining c = .ok b)
    (want : Nat) :
    (gather s.read cap want c).bytes = b.take want ∧ (gather s.read cap want c).failure = none := by
  induction want using Nat.strongRecOn generalizing c b with
  | ind want ih =>
    by_cases hw : want = 0
    · subst hw
      rw [gather_zero]
      exact ⟨rfl, rfl⟩
    obtain ⟨hread, hrest⟩ := read_of_remaining h (min want cap)
    obtain ⟨hone, hmore⟩ : (s.read c (min want cap)).1 = .ok (b.take (min want cap)) ∧
        s.remaining (s.read c (min want cap)).2 = .ok (b.drop (min want cap)) := ⟨hread, hrest⟩
    cases hb : b.take (min want cap) with
    | nil =>
      have hnothing : b = [] := (List.take_eq_nil_iff.mp hb).resolve_left (by omega)
      rw [gather_end hw (Prod.ext (hone.trans (congrArg _ hb)) rfl), hnothing, List.take_nil]
      exact ⟨rfl, rfl⟩
    | cons x xs =>
      have hlength : xs.length + 1 = min (min want cap) b.length := by
        rw [← List.length_take, hb, List.length_cons]
      obtain ⟨hbytes, hfailure⟩ := ih (want - (xs.length + 1)) (by omega) hmore
      rw [gather_step hw (Prod.ext (hone.trans (congrArg _ hb)) rfl)]
      refine ⟨?_, hfailure⟩
      simp only [hbytes]
      have hlater : (b.drop (min want cap)).take (want - (xs.length + 1))
          = (b.drop (min want cap)).take (want - min want cap) := by
        rw [List.take_eq_take_iff, List.length_drop]
        omega
      rw [hlater, ← hb, ← List.take_add, Nat.add_sub_of_le (Nat.min_le_left _ _)]

theorem read_of_remaining_error {cause : ReadFault} {n : Nat} (hn : n ≠ 0)
    (h : s.remaining c = .error cause) : (s.read c n).1 = .error cause := by
  unfold Staging.remaining at h
  unfold Staging.read
  cases c with
  | none => cases h
  | buffered handle length offset =>
    simp only [Content.remaining] at h
    split at h
    · cases h
    · rename_i hleft
      have hk : min n (length - offset) ≠ 0 := by omega
      simp only [Content.read, if_neg hk]
      cases hb : handle.buffer with
      | none => simpa [hb] using h
      | some b => simp [hb] at h
  | spilled f =>
    obtain ⟨path, file, size⟩ := f
    rcases file with _ | _ | ⟨node, position⟩
    · exact h
    · exact h
    · cases h

/-- **Who reads until so many bytes have come has the first bytes of what is left**, or the fault that
keeps it from being read. -/
theorem readUpTo_remaining (s : Staging) (c : Content) {n : Nat} (hn : n ≠ 0) :
    (readUpTo s.read n c).1 = (s.remaining c).map (List.take n) := by
  unfold readUpTo
  cases h : s.remaining c with
  | ok b =>
    obtain ⟨hbytes, hfailure⟩ := gather_of_remaining hn h n
    simp only [hfailure, hbytes, Except.map]
  | error cause =>
    have hread := read_of_remaining_error hn h
    rw [gather_error hn (Prod.ext (by rwa [Nat.min_self]) rfl)]
    rfl

end Intake
