/-
# Places in a list

Workers, visitors and records are kept in lists, and a step changes what is at one place.  What is
picked from the others stays the same (`exists_others`).
-/
import Mathlib

namespace Intake

variable {α β : Type} {xs : List α} {i : Nat} {x : α}

theorem exists_split_at (h : xs[i]? = some x) :
    ∃ before behind, xs = before ++ x :: behind ∧ before.length = i ∧
      ∀ y, xs.set i y = before ++ y :: behind := by
  obtain ⟨hi, hx⟩ := List.getElem?_eq_some_iff.mp h
  refine ⟨xs.take i, xs.drop (i + 1), ?_, List.length_take_of_le hi.le, ?_⟩
  · rw [← hx, List.getElem_cons_drop, List.take_append_drop]
  · intro y
    exact List.set_eq_take_append_cons_drop.trans (if_pos hi)

/-- What is picked from one place of a list, and what is picked from the others. -/
theorem perm_filterMap_split (pick : α → Option β) (before behind : List α) (x : α) :
    ((before ++ x :: behind).filterMap pick).Perm
      ((pick x).toList ++ (before ++ behind).filterMap pick) := by
  have hone : (x :: (before ++ behind)).filterMap pick
      = (pick x).toList ++ (before ++ behind).filterMap pick := by
    cases hx : pick x <;> simp [hx]
  rw [← hone]
  exact List.perm_middle.filterMap _

theorem perm_filterMap_middle (pick : α → Option β) (before behind : List α) (x y : α) :
    ((pick x).toList ++ (before ++ y :: behind).filterMap pick).Perm
      ((pick y).toList ++ (before ++ x :: behind).filterMap pick) := by
  refine ((perm_filterMap_split pick before behind y).append_left _).trans (List.Perm.trans ?_
    ((perm_filterMap_split pick before behind x).symm.append_left _))
  rw [← List.append_assoc, ← List.append_assoc]
  exact List.perm_append_comm.append_right _

/-- **Setting a place does not change what is picked from the others.** -/
theorem exists_others (pick : α → Option β) (h : xs[i]? = some x) :
    ∃ others, (xs.filterMap pick).Perm ((pick x).toList ++ others) ∧
      ∀ y, ((xs.set i y).filterMap pick).Perm ((pick y).toList ++ others) := by
  obtain ⟨before, behind, rfl, -, hset⟩ := exists_split_at h
  refine ⟨(before ++ behind).filterMap pick, perm_filterMap_split pick before behind x, ?_⟩
  intro y
  rw [hset y]
  exact perm_filterMap_split pick before behind y

/-- Every place of a list with another element behind it is one of the list, or the last. -/
theorem getElem?_concat_cases {y : α} (h : (xs ++ [y])[i]? = some x) :
    xs[i]? = some x ∨ (i = xs.length ∧ x = y) := by
  rcases Nat.lt_or_ge i xs.length with hi | hi
  · rw [List.getElem?_append_left hi] at h
    exact Or.inl h
  · have hlast : i < (xs ++ [y]).length := (List.getElem?_eq_some_iff.mp h).1
    rw [List.length_append, List.length_singleton] at hlast
    obtain rfl : i = xs.length := by omega
    rw [List.getElem?_concat_length] at h
    exact Or.inr ⟨rfl, (Option.some.inj h).symm⟩

theorem countP_set_add (kind : α → Bool) (h : xs[i]? = some x) (y : α) :
    (xs.set i y).countP kind + (kind x).toNat = xs.countP kind + (kind y).toNat := by
  obtain ⟨before, behind, rfl, -, hset⟩ := exists_split_at h
  rw [hset y]
  cases hx : kind x <;> cases hy : kind y <;> simp [hx, hy] <;> omega

/-- What the elements come to together, before and after one place has changed. -/
theorem sum_set_add (weight : α → Nat) (h : xs[i]? = some x) (y : α) :
    ((xs.set i y).map weight).sum + weight x = (xs.map weight).sum + weight y := by
  obtain ⟨before, behind, rfl, -, hset⟩ := exists_split_at h
  rw [hset y]
  simp only [List.map_append, List.map_cons, List.sum_append, List.sum_cons]
  omega

theorem exists_two_of_filterMap {pick : α → Option β} (h : 2 ≤ (xs.filterMap pick).length) :
    ∃ (i j : Nat) (x y : β), i ≠ j ∧ (xs[i]?).bind pick = some x ∧ (xs[j]?).bind pick = some y := by
  match hpicks : xs.filterMap pick with
  | [] => simp [hpicks] at h
  | [x] => simp [hpicks] at h
  | x :: y :: rest =>
    obtain ⟨before, a, behind, rfl, -, ha, hbehind⟩ := List.filterMap_eq_cons_iff.mp hpicks
    obtain ⟨between, b, last, rfl, -, hb, -⟩ := List.filterMap_eq_cons_iff.mp hbehind
    have hsplit : before ++ a :: (between ++ b :: last) = (before ++ a :: between) ++ b :: last := by
      simp
    refine ⟨before.length, (before ++ a :: between).length, x, y, ?_, ?_, ?_⟩
    · rw [List.length_append, List.length_cons]
      omega
    · simpa using ha
    · rw [hsplit, List.getElem?_append_right (Nat.le_refl _), Nat.sub_self]
      simpa using hb

end Intake
