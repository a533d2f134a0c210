/-
# What reading takes from a stream

However an `InputStream` splits its bytes into reads, gathering takes the next `want` bytes of it,
or all that are left (`gather_source`).  It comes back with the stream's failure when there were
fewer than that and the stream fails at its end; the bytes before the failure are taken all the
same.
-/
import Mathlib
import Intake.Stream.Source

namespace Intake

namespace Source

/-- The stream after `n` more bytes were taken, in so many reads altogether. -/
def after (s : Source) (n reads : Nat) : Source :=
  { s with rest := s.rest.drop n, reads, delivered := s.delivered + (s.rest.take n).length }

@[simp] theorem after_rest (s : Source) (n reads : Nat) : (s.after n reads).rest = s.rest.drop n :=
  rfl

@[simp] theorem after_failure (s : Source) (n reads : Nat) :
    (s.after n reads).failure = s.failure := rfl

theorem after_delivered (s : Source) (n reads : Nat) :
    (s.after n reads).delivered = s.delivered + min n s.rest.length := by
  simp [after]

theorem after_zero (s : Source) : s.after 0 s.reads = s := by
  simp [after]

/-- Nothing can be taken from a stream that has nothing left. -/
theorem after_of_nil {s : Source} (h : s.rest = []) (n : Nat) : s.after n s.reads = s := by
  cases s
  simp_all [after]

theorem after_after (s : Source) (m n r r' : Nat) (h : m ≤ s.rest.length) :
    (s.after m r).after n r' = s.after (m + n) r' := by
  have hlen : min m s.rest.length + min n (s.rest.length - m) = min (m + n) s.rest.length := by
    omega
  simp only [after, List.drop_drop, List.length_take, List.length_drop, Nat.add_assoc, hlen]

/-! ## 1. One read -/

/-- A read from a stream that has bytes left takes some of them, and no more than were asked for. -/
theorem read_of_ne_nil {s : Source} {n : Nat} (hn : n ≠ 0) (h : s.rest ≠ []) :
    ∃ b bs, bs.length + 1 ≤ n ∧ bs.length + 1 ≤ s.rest.length ∧
      s.rest.take (bs.length + 1) = b :: bs ∧
      s.read n = (.ok (b :: bs), s.after (bs.length + 1) (s.reads + 1)) := by
  have hpos : 0 < s.rest.length := List.length_pos_iff.mpr h
  obtain ⟨k, hk, hkn, hkl, hread⟩ : ∃ k, 0 < k ∧ k ≤ n ∧ k ≤ s.rest.length ∧
      s.read n = (.ok (s.rest.take k), s.after k (s.reads + 1)) := by
    refine ⟨min (min n (max 1 (s.pace s.reads))) s.rest.length, by omega, by omega, by omega, ?_⟩
    have htake : ∀ k, s.rest.take (min k s.rest.length) = s.rest.take k := by
      intro k
      rw [List.take_eq_take_iff]; omega
    have hdrop : ∀ k, s.rest.drop (min k s.rest.length) = s.rest.drop k := by
      intro k
      rw [List.drop_eq_drop_iff]; omega
    have hempty : s.rest.isEmpty = false := by simpa using h
    simp only [read, hempty, Bool.false_eq_true, if_false, after, htake, hdrop]
  have hlen : (s.rest.take k).length = k := by rw [List.length_take]; omega
  obtain ⟨b, bs, hcons⟩ := List.exists_cons_of_length_pos (hlen.symm ▸ hk)
  obtain rfl : bs.length + 1 = k := by rw [← hlen, hcons, List.length_cons]
  exact ⟨b, bs, hkn, hkl, hcons, hcons ▸ hread⟩

theorem read_of_nil_failure {s : Source} {n : Nat} {e : IoError} (h : s.rest = [])
    (hf : s.failure = some e) : s.read n = (.error e, s) := by
  simp [read, h, hf]

theorem read_of_nil_end {s : Source} {n : Nat} (h : s.rest = []) (hf : s.failure = none) :
    s.read n = (.ok [], s) := by
  simp [read, h, hf]

end Source

/-! ## 2. Many reads -/

/-- What gathering comes back with after its last read: the failure of a stream that ran out. -/
def Source.shortfall (s : Source) (want : Nat) : Option IoError :=
  if want ≤ s.rest.length then none else s.failure

/-- With fewer bytes than that left, it is the failure of the stream, if it has one. -/
theorem Source.shortfall_of_short {s : Source} {want : Nat} (h : s.rest.length < want) :
    s.shortfall want = s.failure := if_neg (Nat.not_le.mpr h)

theorem Source.shortfall_of_clean {s : Source} (h : s.failure = none) (want : Nat) :
    s.shortfall want = none := by
  rw [shortfall, h, ite_self]

theorem Source.shortfall_after {s : Source} {n : Nat} (reads m : Nat) (h : n ≤ s.rest.length) :
    (s.after n reads).shortfall m = s.shortfall (n + m) := by
  have hiff : m ≤ s.rest.length - n ↔ n + m ≤ s.rest.length := by omega
  simp only [shortfall, after_rest, after_failure, List.length_drop, hiff]

/-- **Gathering does not see how the bytes are split.**  The induction is on the bytes still wanted;
each read that brings something leaves a smaller number. -/
theorem gather_source (cap want : Nat) (s : Source) (hcap : want ≠ 0 → 0 < cap) :
    ∃ reads, gather Source.read cap want s =
      ⟨s.rest.take want, s.shortfall want, s.after want reads⟩ := by
  induction want using Nat.strongRecOn generalizing s with
  | ind want ih =>
    by_cases hw : want = 0
    · subst hw
      exact ⟨s.reads, by simp [gather_zero, Source.shortfall, Source.after_zero]⟩
    have hask : min want cap ≠ 0 := by have := hcap hw; omega
    by_cases hrest : s.rest = []
    · have hlen : ¬ want ≤ s.rest.length := by simp [hrest, hw]
      refine ⟨s.reads, ?_⟩
      rw [Source.after_of_nil hrest, Source.shortfall, if_neg hlen, hrest, List.take_nil]
      cases hf : s.failure with
      | some e => rw [gather_error hw (Source.read_of_nil_failure hrest hf)]
      | none => rw [gather_end hw (Source.read_of_nil_end hrest hf)]
    · obtain ⟨b, bs, hle, hkl, hcons, hread⟩ := Source.read_of_ne_nil hask hrest
      obtain ⟨k, hk⟩ : ∃ k, k = bs.length + 1 := ⟨_, rfl⟩
      rw [← hk] at hle hkl hcons hread
      obtain ⟨reads, hgo⟩ := ih (want - k) (by omega) (s.after k (s.reads + 1))
        (fun _ => hcap hw)
      have hsum : k + (want - k) = want := by omega
      have hshort : (s.after k (s.reads + 1)).shortfall (want - k) = s.shortfall want := by
        rw [Source.shortfall_after _ _ hkl, hsum]
      have htake : s.rest.take k ++ (s.rest.drop k).take (want - k) = s.rest.take want := by
        rw [← List.take_add, hsum]
      refine ⟨reads, ?_⟩
      rw [gather_step hw hread, ← hk, hgo, hshort, ← hcons, Source.after_rest, htake,
        Source.after_after s k _ _ _ hkl, hsum]

/-- Reading up to `want` bytes: all of them, or what is left of a stream that ends, or nothing but
an error from one that fails. -/
theorem readUpTo_source (want : Nat) (s : Source) :
    ∃ reads, readUpTo Source.read want s =
      ((s.shortfall want).elim (.ok (s.rest.take want)) .error, s.after want reads) := by
  obtain ⟨reads, h⟩ := gather_source want want s (by omega)
  refine ⟨reads, ?_⟩
  simp only [readUpTo, h]
  cases s.shortfall want <;> rfl

end Intake
