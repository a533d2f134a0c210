/-
# Reading until enough has come

The loop of `ReadUpTo`, and of all who read in blocks.  `gather` asks a stream again and again, for
at most `cap` bytes at a time, until `want` bytes have come, the stream ends or a read fails.  It
tells what came, whether a read failed, and the stream that is left.

It works on anything that can be read: a read takes the stream and the number of bytes asked for,
and gives back bytes (none at the end of the stream) or an error, and the stream after it.
-/
import Intake.Bytes

namespace Intake

/-- One read: what came, or why nothing could come, and the stream afterwards. -/
abbrev ReadFrom (σ ε : Type) := σ → Nat → Except ε Bytes × σ

/-- What a run of reads brought. -/
structure Gathered (σ ε : Type) where
  bytes : Bytes
  /-- The read that failed, if one did. -/
  failure : Option ε
  source : σ

namespace Gathered

variable {σ ε : Type}

/-- Reads on with the bytes that came so far, last one first. -/
def loop (read : ReadFrom σ ε) (cap want : Nat) (sofar : Bytes) (s : σ) : Gathered σ ε :=
  if want = 0 then ⟨sofar.reverse, none, s⟩
  else
    match read s (min want cap) with
    | (.error e, s') => ⟨sofar.reverse, some e, s'⟩
    | (.ok [], s') => ⟨sofar.reverse, none, s'⟩
    | (.ok (b :: bs), s') => loop read cap (want - (bs.length + 1)) (bs.reverseAux (b :: sofar)) s'
termination_by want
decreasing_by omega

end Gathered

variable {σ ε : Type}

/-- Reads until `want` bytes have come, at most `cap` of them at a time. -/
def gather (read : ReadFrom σ ε) (cap want : Nat) (s : σ) : Gathered σ ε :=
  Gathered.loop read cap want [] s

/-- Reads until `want` bytes have come or the stream ends; a failed read loses the bytes before it. -/
def readUpTo (read : ReadFrom σ ε) (want : Nat) (s : σ) : Except ε Bytes × σ :=
  let g := gather read want want s
  match g.failure with
  | some e => (.error e, g.source)
  | none => (.ok g.bytes, g.source)

/-! ## 1. The bytes so far are only carried along -/

theorem Gathered.loop_eq (read : ReadFrom σ ε) (cap want : Nat) (sofar : Bytes) (s : σ) :
    loop read cap want sofar s =
      { loop read cap want [] s with bytes := sofar.reverse ++ (loop read cap want [] s).bytes } := by
  induction want using Nat.strongRecOn generalizing sofar s with
  | ind want ih =>
    rw [loop, loop.eq_def read cap want []]
    by_cases hw : want = 0
    · simp [hw]
    · simp only [if_neg hw]
      split
      · simp
      · simp
      · rename_i b bs s' _
        rw [ih (want - (bs.length + 1)) (by omega) (bs.reverseAux (b :: sofar)),
          ih (want - (bs.length + 1)) (by omega) (bs.reverseAux [b])]
        simp [List.reverseAux_eq]

/-- Nothing wanted, nothing read. -/
theorem gather_zero (read : ReadFrom σ ε) (cap : Nat) (s : σ) :
    gather read cap 0 s = ⟨[], none, s⟩ := by
  rw [gather, Gathered.loop, if_pos rfl, List.reverse_nil]

/-- A failed read ends it. -/
theorem gather_error {read : ReadFrom σ ε} {cap want : Nat} {s s' : σ} {e : ε} (hw : want ≠ 0)
    (h : read s (min want cap) = (.error e, s')) : gather read cap want s = ⟨[], some e, s'⟩ := by
  rw [gather, Gathered.loop, if_neg hw, h]; rfl

/-- The end of the stream ends it. -/
theorem gather_end {read : ReadFrom σ ε} {cap want : Nat} {s s' : σ} (hw : want ≠ 0)
    (h : read s (min want cap) = (.ok [], s')) : gather read cap want s = ⟨[], none, s'⟩ := by
  rw [gather, Gathered.loop, if_neg hw, h]; rfl

/-- What one read brings comes first. -/
theorem gather_step {read : ReadFrom σ ε} {cap want : Nat} {s s' : σ} {b : UInt8} {bs : Bytes}
    (hw : want ≠ 0) (h : read s (min want cap) = (.ok (b :: bs), s')) :
    gather read cap want s =
      { gather read cap (want - (bs.length + 1)) s' with
        bytes := b :: bs ++ (gather read cap (want - (bs.length + 1)) s').bytes } := by
  rw [gather, Gathered.loop, if_neg hw, h]
  simp only
  rw [Gathered.loop_eq]
  simp [gather, List.reverseAux_eq]

end Intake
