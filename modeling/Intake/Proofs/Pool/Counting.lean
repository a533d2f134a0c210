/-
# Counts of a pool with checkouts on their way

`Acquire` and `Return` of a `BufferPool` are several steps each: a checkout takes a buffer before it
counts it, and uncounts it before it puts it back, so that on the way the count of a pool and its
free list do not add up.  What does add up is kept by `Stocked`: every buffer is free or with one
checkout, and the count is the number of checkouts that have counted theirs and not uncounted it.
From this the count is at most the number of buffers that are not free, and it is not lowered when
it is zero; a buffer that comes back finds room.

The mark is raised in a loop of looking and swapping.  `Marked` says what becomes of the counts that
there were: each is at most the mark, or at most the count of a checkout that is still raising it.
So **when no checkout is raising it, the mark is the largest count there was**
(`Marked.is_largest`).

Whether a checkout comes to an end at all is left open.
-/
import Mathlib
import Intake.Pool.Traffic
import Intake.Proofs.Places
import Intake.Proofs.Pool.Lending

namespace Intake.Pool

open scoped List

/-! ## 1. What a checkout has -/

namespace Checkout

/-- True while the buffer is counted as taken. -/
def isCounted : Checkout → Bool
  | looking .. | marking .. | holding _ | uncounting _ => true
  | taking | counting _ | returning _ | returned | refused _ => false

/-- The count that the mark is being raised to. -/
def raising? : Checkout → Option UInt32
  | looking _ now | marking _ now _ => some now
  | taking | counting _ | holding _ | uncounting _ | returning _ | returned | refused _ => none

/-- True for a checkout that has come to its end. -/
def isOver : Checkout → Bool
  | returned | refused _ => true
  | taking | counting _ | looking .. | marking .. | holding _ | uncounting _ | returning _ => false

/-- True for a checkout that no call is at: its buffer is held, or it has come to its end. -/
def isSettled (c : Checkout) : Bool := c.held?.isSome || c.isOver

theorem buffer?_of_isOver {c : Checkout} (h : c.isOver = true) : c.buffer? = none := by
  cases c <;> simp_all [isOver, buffer?]

theorem isSome_buffer?_of_isCounted {c : Checkout} (h : c.isCounted = true) :
    c.buffer?.isSome = true := by
  cases c <;> simp_all [isCounted, buffer?]

theorem isCounted_of_isSettled {c : Checkout} (h : c.isSettled = true) :
    c.isCounted = c.buffer?.isSome ∧ c.raising? = none := by
  cases c <;> simp_all [isSettled, isOver, held?, isCounted, buffer?, raising?]

end Checkout

namespace Traffic

/-- What one step makes of a checkout and of the pool. -/
inductive Moves (p : Pool) : Checkout → Checkout → Pool → Prop where
  | refused {e : ChannelError} : p.takeFree = .fails e → Moves p .taking (.refused e) p
  | takes {b : Nat} {p' : Pool} : p.takeFree = .gives (b, p') → Moves p .taking (.counting b) p'
  | counts {b : Nat} : Moves p (.counting b) (.looking b p.countOut.outstanding) p.countOut
  | looks {b : Nat} {now : UInt32} : Moves p (.looking b now) (.marking b now p.highWater) p
  /-- The mark is high enough. -/
  | passes {b : Nat} {now seen : UInt32} : now ≤ seen → Moves p (.marking b now seen) (.holding b) p
  | raises {b : Nat} {now seen : UInt32} : seen < now → p.highWater = seen →
      Moves p (.marking b now seen) (.holding b) { p with highWater := now }
  /-- Somebody else raised the mark, or the swap failed for no reason. -/
  | looksAgain {b : Nat} {now seen : UInt32} :
      Moves p (.marking b now seen) (.marking b now p.highWater) p
  | letsGo {b : Nat} : Moves p (.holding b) (.uncounting b) p
  | uncounts {b : Nat} : Moves p (.uncounting b) (.returning b) p.countIn
  | puts {b : Nat} {p' : Pool} : p.putFree b = .gives p' → Moves p (.returning b) .returned p'
  | strands {b : Nat} {e : ChannelError} : p.putFree b = .fails e →
      Moves p (.returning b) .returned p

variable {t t' : Traffic} {p p' : Pool} {c c' : Checkout} {i : Nat}

theorem moves_of_step (h : step p c = some (c', p')) : Moves p c c' p' := by
  cases c with
  | taking =>
    simp only [step] at h
    split at h
    · cases h
    · rename_i htake
      cases h
      exact .refused htake
    · rename_i htake
      cases h
      exact .takes htake
  | counting b =>
    cases h
    exact .counts
  | looking b now =>
    cases h
    exact .looks
  | marking b now seen =>
    simp only [step, swapMark] at h
    split at h
    · rename_i hle
      cases h
      exact .passes hle
    · rename_i hgt
      by_cases hsame : p.highWater = seen
      · rw [if_pos hsame] at h
        cases h
        exact .raises (UInt32.not_le.mp hgt) hsame
      · rw [if_neg hsame] at h
        cases h
        exact .looksAgain
  | uncounting b =>
    cases h
    exact .uncounts
  | returning b =>
    simp only [step] at h
    split at h
    · rename_i hput
      cases h
      exact .puts hput
    · rename_i hput
      cases h
      exact .strands hput
    · cases h
  | holding b => cases h
  | returned => cases h
  | refused e => cases h

/-- **What a step is**: one checkout moves, a new one begins, or waits are ended or allowed. -/
theorem next_cases {a : Action} (h : t.next a = some t') :
    (∃ i c c' p', t.checkouts[i]? = some c ∧ Moves t.pool c c' p' ∧ t' = t.update i c' p') ∨
      (∃ new interrupted, t' = ⟨{ t.pool with free := { t.pool.free with interrupted } },
        t.checkouts ++ new⟩ ∧ ∀ c ∈ new, c = .taking) := by
  cases a with
  | ask =>
    obtain rfl := Option.some.inj h
    exact Or.inr ⟨[.taking], t.pool.free.interrupted, rfl, by simp⟩
  | letGo i =>
    simp only [next] at h
    split at h
    · rename_i b hi
      obtain rfl := Option.some.inj h
      exact Or.inl ⟨i, _, _, _, hi, .letsGo, rfl⟩
    · cases h
  | advance i =>
    simp only [next] at h
    split at h
    · rename_i c hi
      obtain ⟨⟨c', p'⟩, hstep, rfl⟩ := Option.map_eq_some_iff.mp h
      exact Or.inl ⟨i, c, c', p', hi, moves_of_step hstep, rfl⟩
    · cases h
  | falter i =>
    simp only [next] at h
    split at h
    · rename_i b now seen hi
      split at h
      · cases h
      · obtain rfl := Option.some.inj h
        exact Or.inl ⟨i, _, _, _, hi, .looksAgain, rfl⟩
    · cases h
  | interrupt =>
    obtain rfl := Option.some.inj h
    exact Or.inr ⟨[], true, by simp [Pool.interrupt, Channel.interrupt], by simp⟩
  | clearInterrupt =>
    obtain rfl := Option.some.inj h
    exact Or.inr ⟨[], false, by simp [Pool.clearInterrupt, Channel.clearInterrupt], by simp⟩

/-! ## 2. Buffers and their count -/

/-- Every buffer of a pool is free or with one checkout, and those are counted that should be. -/
structure Stocked (t : Traffic) (free : List Nat) : Prop where
  holds : t.pool.free.Holds free
  opened : t.pool.free.closed = false
  buffers : (free ++ t.checkouts.filterMap Checkout.buffer?).Perm
    (List.range t.pool.capacity.toNat)
  counted : t.pool.outstanding.toNat = t.checkouts.countP Checkout.isCounted

variable {free : List Nat}

theorem Stocked.length_eq (h : t.Stocked free) :
    free.length + t.checkouts.countP (fun c => c.buffer?.isSome) = t.pool.capacity.toNat := by
  have hlength := h.buffers.length_eq
  rwa [List.length_append, List.length_range, List.length_filterMap_eq_countP] at hlength

theorem Stocked.counted_le (h : t.Stocked free) :
    t.pool.outstanding.toNat ≤ t.checkouts.countP fun c => c.buffer?.isSome := by
  rw [h.counted]
  exact List.countP_mono_left fun c _ => Checkout.isSome_buffer?_of_isCounted

theorem of_takeFree {b : Nat} (h : p.takeFree = .gives (b, p')) :
    ∃ channel, p.free.take = .gives (b, channel) ∧ p' = { p with free := channel } := by
  unfold takeFree at h
  cases htake : p.free.take with
  | waits => simp [htake, Attempt.map] at h
  | fails e => simp [htake, Attempt.map] at h
  | gives r =>
    simp only [htake, Attempt.map, Attempt.gives.injEq, Prod.mk.injEq] at h
    obtain ⟨rfl, rfl⟩ := h
    exact ⟨r.2, rfl, rfl⟩

theorem of_putFree {b : Nat} (h : p.putFree b = .gives p') :
    ∃ channel, p' = { p with free := channel } := by
  unfold putFree at h
  cases hput : p.free.put b with
  | waits => simp [hput, Attempt.map] at h
  | fails e => simp [hput, Attempt.map] at h
  | gives channel =>
    simp only [hput, Attempt.map, Attempt.gives.injEq] at h
    exact ⟨channel, h.symm⟩

theorem Stocked.room (h : t.Stocked free) (hi : t.checkouts[i]? = some c)
    (hbuffer : c.buffer?.isSome = true) : free.length < t.pool.capacity.toNat := by
  have hlength := h.length_eq
  have hpos : 0 < t.checkouts.countP fun c => c.buffer?.isSome :=
    List.countP_pos_iff.mpr ⟨c, List.mem_of_getElem? hi, hbuffer⟩
  omega

theorem Stocked.count_pos (h : t.Stocked free) (hi : t.checkouts[i]? = some c)
    (hcounted : c.isCounted = true) : 0 < t.pool.outstanding.toNat := by
  rw [h.counted]
  exact List.countP_pos_iff.mpr ⟨c, List.mem_of_getElem? hi, hcounted⟩

theorem Stocked.toNat_countOut (h : t.Stocked free) :
    t.pool.countOut.outstanding.toNat = t.pool.outstanding.toNat + 1 := by
  have hle := h.counted_le
  have hlength := h.length_eq
  have hcap : t.pool.capacity.toNat ≤ Ring.widest := h.holds.capacity_le
  have hwide : Ring.widest = 2147483648 := rfl
  show (t.pool.outstanding + 1).toNat = _
  rw [UInt32.toNat_add]
  show (t.pool.outstanding.toNat + 1) % 4294967296 = _
  omega

theorem toNat_countIn (hpos : 0 < p.outstanding.toNat) :
    p.countIn.outstanding.toNat = p.outstanding.toNat - 1 := by
  refine UInt32.toNat_sub_of_le _ _ ?_
  rw [UInt32.le_iff_toNat_le]
  exact hpos

/-- **A buffer that comes back finds room**, whether the pool was interrupted or not. -/
theorem Stocked.putFree (h : t.Stocked free) (hi : t.checkouts[i]? = some c)
    (hbuffer : c.buffer?.isSome = true) (b : Nat) :
    t.pool.putFree b
      = .gives { t.pool with free := { t.pool.free with ring := t.pool.free.ring.push b } } := by
  simp only [Pool.putFree, h.holds.put_gives h.opened (h.room hi hbuffer) b, Attempt.map]

theorem Stocked.stays (h : t.Stocked free) (hi : t.checkouts[i]? = some c)
    (hfree : p'.free = t.pool.free) (hbuffer : c'.buffer? = c.buffer?)
    (hcount : p'.outstanding.toNat + c.isCounted.toNat
      = t.pool.outstanding.toNat + c'.isCounted.toNat) :
    (t.update i c' p').Stocked free := by
  have hcapacity : p'.capacity = t.pool.capacity := congrArg Channel.capacity hfree
  obtain ⟨others, hbefore, hafter⟩ := exists_others Checkout.buffer? hi
  have hsame : ((t.checkouts.set i c').filterMap Checkout.buffer?).Perm
      (t.checkouts.filterMap Checkout.buffer?) := by
    refine (hafter c').trans ?_
    rw [hbuffer]
    exact hbefore.symm
  refine ⟨hfree ▸ h.holds, hfree ▸ h.opened, ?_, ?_⟩
  · show (free ++ (t.checkouts.set i c').filterMap _).Perm (List.range p'.capacity.toNat)
    rw [hcapacity]
    exact (hsame.append_left free).trans h.buffers
  · have hset := countP_set_add Checkout.isCounted hi c'
    have hcounted := h.counted
    show p'.outstanding.toNat = (t.checkouts.set i c').countP _
    omega

theorem Stocked.passed {free' : List Nat} {channel : Channel Nat} (h : t.Stocked free)
    (hi : t.checkouts[i]? = some c) (hholds : channel.Holds free')
    (hopened : channel.closed = t.pool.free.closed)
    (hcapacity : channel.capacity = t.pool.free.capacity)
    (hbuffer : (free' ++ c'.buffer?.toList).Perm (free ++ c.buffer?.toList))
    (hcount : c'.isCounted = c.isCounted) :
    (t.update i c' { t.pool with free := channel }).Stocked free' := by
  obtain ⟨others, hbefore, hafter⟩ := exists_others Checkout.buffer? hi
  refine ⟨hholds, hopened.trans h.opened, ?_, ?_⟩
  · show (free' ++ (t.checkouts.set i c').filterMap _).Perm (List.range channel.capacity.toNat)
    rw [hcapacity]
    calc
      free' ++ (t.checkouts.set i c').filterMap Checkout.buffer?
          ~ free' ++ (c'.buffer?.toList ++ others) := (hafter c').append_left free'
      _ ~ free ++ (c.buffer?.toList ++ others) := by
          rw [← List.append_assoc, ← List.append_assoc]
          exact hbuffer.append_right others
      _ ~ free ++ t.checkouts.filterMap Checkout.buffer? := hbefore.symm.append_left free
      _ ~ List.range t.pool.free.capacity.toNat := h.buffers
  · have hset := countP_set_add Checkout.isCounted hi c'
    rw [hcount] at hset
    exact h.counted.trans (Nat.add_right_cancel hset).symm

/-- **A step keeps every buffer in its one place.** -/
theorem Stocked.moves (h : t.Stocked free) (hi : t.checkouts[i]? = some c)
    (hmove : Moves t.pool c c' p') :
    (∃ free', (t.update i c' p').Stocked free') ∧ p'.capacity = t.pool.capacity := by
  cases hmove with
  | refused => exact ⟨⟨free, h.stays hi rfl rfl rfl⟩, rfl⟩
  | @takes b p' htake =>
    obtain ⟨channel, hfirst, rfl⟩ := of_takeFree htake
    obtain ⟨rest, rfl, hrest, rfl⟩ := h.holds.of_take_gives hfirst
    exact ⟨⟨rest, h.passed hi hrest rfl rfl (by simp [Checkout.buffer?]) rfl⟩, rfl⟩
  | counts => exact ⟨⟨free, h.stays hi rfl rfl h.toNat_countOut⟩, rfl⟩
  | looks => exact ⟨⟨free, h.stays hi rfl rfl rfl⟩, rfl⟩
  | passes => exact ⟨⟨free, h.stays hi rfl rfl rfl⟩, rfl⟩
  | raises => exact ⟨⟨free, h.stays hi rfl rfl rfl⟩, rfl⟩
  | looksAgain => exact ⟨⟨free, h.stays hi rfl rfl rfl⟩, rfl⟩
  | letsGo => exact ⟨⟨free, h.stays hi rfl rfl rfl⟩, rfl⟩
  | uncounts =>
    have hpos := h.count_pos hi rfl
    refine ⟨⟨free, h.stays hi rfl rfl ?_⟩, rfl⟩
    rw [toNat_countIn hpos]
    exact Nat.sub_add_cancel hpos
  | @puts b p' hput =>
    have hgives := h.putFree hi rfl b
    obtain rfl := Attempt.gives.inj (hput.symm.trans hgives)
    have hback := h.holds.of_put_gives (h.holds.put_gives h.opened (h.room hi rfl) b)
    exact ⟨⟨free ++ [b], h.passed hi hback.1 rfl rfl (by simp [Checkout.buffer?]) rfl⟩, rfl⟩
  | strands hput =>
    rw [h.putFree hi rfl] at hput
    cases hput

theorem Stocked.next {a : Action} (h : t.Stocked free) (hstep : t.next a = some t') :
    (∃ free', t'.Stocked free') ∧ t'.pool.capacity = t.pool.capacity := by
  rcases next_cases hstep with ⟨i, c, c', p', hi, hmove, rfl⟩ | ⟨new, interrupted, rfl, hnew⟩
  · exact h.moves hi hmove
  · have hnone : new.filterMap Checkout.buffer? = [] := by
      refine List.filterMap_eq_nil_iff.mpr fun c hc => ?_
      rw [hnew c hc]
      rfl
    have hzero : new.countP Checkout.isCounted = 0 := by
      refine List.countP_eq_zero.mpr fun c hc => ?_
      rw [hnew c hc]
      exact Bool.false_ne_true
    refine ⟨⟨free, h.holds, h.opened, ?_, ?_⟩, rfl⟩
    · rw [List.filterMap_append, hnone, List.append_nil]
      exact h.buffers
    · rw [List.countP_append, hzero]
      exact h.counted

theorem stocked_create {count : UInt32} (bufferSize : UInt64) (h : count.toNat ≤ Ring.widest) :
    ∃ free, (create count bufferSize).Stocked free := by
  obtain ⟨hlends, -⟩ := lends_create bufferSize h
  refine ⟨_, hlends.holds, hlends.opened, ?_, rfl⟩
  simp [create]

theorem Stocked.adds_up (h : t.Stocked free) (hsettled : ∀ c ∈ t.checkouts, c.isSettled = true) :
    t.pool.outstanding.toNat + t.pool.available.toNat = t.pool.capacity.toNat := by
  have hsame : t.checkouts.countP Checkout.isCounted
      = t.checkouts.countP fun c => c.buffer?.isSome :=
    List.countP_congr fun c hc => by rw [(Checkout.isCounted_of_isSettled (hsettled c hc)).1]
  have hlength := h.length_eq
  have havailable : t.pool.available.toNat = free.length := h.holds.count_eq
  rw [h.counted, hsame, havailable]
  omega

theorem Stocked.outstanding_le (h : t.Stocked free) :
    t.pool.outstanding.toNat + t.pool.available.toNat ≤ t.pool.capacity.toNat := by
  have hcounted := h.counted_le
  have hlength := h.length_eq
  have havailable : t.pool.available.toNat = free.length := h.holds.count_eq
  omega

/-! ## 3. The mark -/

/-- A count has been reached by the mark, or will be by a checkout that raises it. -/
def Covers (t : Traffic) (n : UInt32) : Prop :=
  n ≤ t.pool.highWater ∨
    ∃ (i : Nat) (c : Checkout) (now : UInt32),
      t.checkouts[i]? = some c ∧ c.raising? = some now ∧ n ≤ now

/-- What the mark and those who raise it know about the counts that there were. -/
structure Marked (t : Traffic) (past : List UInt32) : Prop where
  current : t.pool.outstanding ∈ past
  mark_mem : t.pool.highWater ∈ past
  /-- Nobody raises the mark to a count that there was not. -/
  raising_mem : ∀ c ∈ t.checkouts, ∀ now, c.raising? = some now → now ∈ past
  /-- The mark was never higher than it is. -/
  seen_le : ∀ b now seen, .marking b now seen ∈ t.checkouts → seen ≤ t.pool.highWater
  covers : ∀ n ∈ past, t.Covers n

variable {past : List UInt32}

/-- No step lowers the mark. -/
theorem highWater_le_of_moves (h : Moves p c c' p') : p.highWater ≤ p'.highWater := by
  cases h with
  | takes htake =>
    obtain ⟨channel, -, rfl⟩ := of_takeFree htake
    exact UInt32.le_refl _
  | raises hlt hsame => exact hsame ▸ UInt32.le_of_lt hlt
  | puts hput =>
    obtain ⟨channel, rfl⟩ := of_putFree hput
    exact UInt32.le_refl _
  | _ => exact UInt32.le_refl _

theorem highWater_le_of_next {a : Action} (h : t.next a = some t') :
    t.pool.highWater ≤ t'.pool.highWater := by
  rcases next_cases h with ⟨i, c, c', p', -, hmove, rfl⟩ | ⟨new, interrupted, rfl, -⟩
  · exact highWater_le_of_moves hmove
  · exact UInt32.le_refl _

/-- A checkout that raises the mark goes on to do so, or has seen to it that the mark is high
enough. -/
theorem raising_of_moves (h : Moves p c c' p') {now : UInt32} (hraising : c.raising? = some now)
    (hseen : ∀ b now seen, c = .marking b now seen → seen ≤ p.highWater) :
    c'.raising? = some now ∨ now ≤ p'.highWater := by
  cases h with
  | looks => exact Or.inl hraising
  | looksAgain => exact Or.inl hraising
  | passes hle =>
    obtain rfl := Option.some.inj hraising
    exact Or.inr (UInt32.le_trans hle (hseen _ _ _ rfl))
  | raises =>
    obtain rfl := Option.some.inj hraising
    exact Or.inr (UInt32.le_refl _)
  | _ => cases hraising

theorem raising_before (h : Moves p c c' p') {now : UInt32} (hraising : c'.raising? = some now) :
    c.raising? = some now ∨ now = p'.outstanding := by
  cases h with
  | counts =>
    obtain rfl := Option.some.inj hraising
    exact Or.inr rfl
  | looks => exact Or.inl hraising
  | looksAgain => exact Or.inl hraising
  | _ => cases hraising

theorem raising_of_count (h : Moves p c c' p') (hpos : c.isCounted = true → 0 < p.outstanding.toNat) :
    c'.raising? = some p'.outstanding ∨ p'.outstanding ≤ p.outstanding := by
  cases h with
  | counts => exact Or.inl rfl
  | takes htake =>
    obtain ⟨channel, -, rfl⟩ := of_takeFree htake
    exact Or.inr (UInt32.le_refl _)
  | puts hput =>
    obtain ⟨channel, rfl⟩ := of_putFree hput
    exact Or.inr (UInt32.le_refl _)
  | uncounts =>
    refine Or.inr (UInt32.le_iff_toNat_le.mpr ?_)
    rw [toNat_countIn (hpos rfl)]
    exact Nat.sub_le _ _
  | _ => exact Or.inr (UInt32.le_refl _)

theorem highWater_of_moves (h : Moves p c c' p') :
    p'.highWater = p.highWater ∨ c.raising? = some p'.highWater := by
  cases h with
  | takes htake =>
    obtain ⟨channel, -, rfl⟩ := of_takeFree htake
    exact Or.inl rfl
  | raises => exact Or.inr rfl
  | puts hput =>
    obtain ⟨channel, rfl⟩ := of_putFree hput
    exact Or.inl rfl
  | _ => exact Or.inl rfl

theorem seen_of_moves (h : Moves p c c' p') {b : Nat} {now seen : UInt32}
    (hc : c' = .marking b now seen) : seen = p.highWater := by
  cases h with
  | looks =>
    cases hc
    rfl
  | looksAgain =>
    cases hc
    rfl
  | _ => cases hc

theorem Covers.mono {n m : UInt32} (h : t.Covers n) (hle : m ≤ n) : t.Covers m := by
  rcases h with hmark | ⟨i, c, now, hi, hraising, hnow⟩
  · exact Or.inl (UInt32.le_trans hle hmark)
  · exact Or.inr ⟨i, c, now, hi, hraising, UInt32.le_trans hle hnow⟩

/-- **What is covered stays covered.** -/
theorem Marked.covers_moves {n : UInt32} (h : t.Marked past) (hi : t.checkouts[i]? = some c)
    (hmove : Moves t.pool c c' p') (hn : t.Covers n) : (t.update i c' p').Covers n := by
  rcases hn with hmark | ⟨j, d, now, hj, hraising, hle⟩
  · exact Or.inl (UInt32.le_trans hmark (highWater_le_of_moves hmove))
  · by_cases hij : i = j
    · subst hij
      obtain rfl := Option.some.inj (hi.symm.trans hj)
      have hseen : ∀ b now seen, c = .marking b now seen → seen ≤ t.pool.highWater :=
        fun b now seen hc => h.seen_le b now seen (hc ▸ List.mem_of_getElem? hi)
      rcases raising_of_moves hmove hraising hseen with hstill | hreached
      · refine Or.inr ⟨i, c', now, ?_, hstill, hle⟩
        exact List.getElem?_set_self (List.getElem?_eq_some_iff.mp hi).1
      · exact Or.inl (UInt32.le_trans hle hreached)
    · refine Or.inr ⟨j, d, now, ?_, hraising, hle⟩
      exact (List.getElem?_set_ne hij).trans hj

/-- **A step adds its count to those that there were.** -/
theorem Marked.moves (h : t.Marked past) (hi : t.checkouts[i]? = some c)
    (hpos : c.isCounted = true → 0 < t.pool.outstanding.toNat) (hmove : Moves t.pool c c' p') :
    (t.update i c' p').Marked (past ++ [p'.outstanding]) := by
  have hold : c ∈ t.checkouts := List.mem_of_getElem? hi
  have hnew : (t.update i c' p').checkouts[i]? = some c' :=
    List.getElem?_set_self (List.getElem?_eq_some_iff.mp hi).1
  refine ⟨by simp [update], ?_, ?_, ?_, ?_⟩
  · refine List.mem_append_left _ ?_
    show p'.highWater ∈ past
    rcases highWater_of_moves hmove with hsame | hraised
    · exact hsame ▸ h.mark_mem
    · exact h.raising_mem c hold _ hraised
  · intro d hd now hraising
    rcases List.mem_or_eq_of_mem_set hd with hd | rfl
    · exact List.mem_append_left _ (h.raising_mem d hd now hraising)
    · rcases raising_before hmove hraising with hbefore | rfl
      · exact List.mem_append_left _ (h.raising_mem c hold now hbefore)
      · exact List.mem_append_right _ (List.mem_singleton_self _)
  · intro b now seen hd
    refine UInt32.le_trans ?_ (highWater_le_of_moves hmove)
    rcases List.mem_or_eq_of_mem_set hd with hd | hd
    · exact h.seen_le b now seen hd
    · exact seen_of_moves hmove hd.symm ▸ UInt32.le_refl _
  · intro n hn
    rcases List.mem_append.mp hn with hn | hn
    · exact h.covers_moves hi hmove (h.covers n hn)
    · obtain rfl := List.mem_singleton.mp hn
      rcases raising_of_count hmove hpos with hbegins | hle
      · exact Or.inr ⟨i, c', _, hnew, hbegins, UInt32.le_refl _⟩
      · exact (h.covers_moves hi hmove (h.covers _ h.current)).mono hle

theorem Marked.again (h : t.Marked past) : t.Marked (past ++ [t.pool.outstanding]) where
  current := List.mem_append_left _ h.current
  mark_mem := List.mem_append_left _ h.mark_mem
  raising_mem := fun c hc now hraising => List.mem_append_left _ (h.raising_mem c hc now hraising)
  seen_le := h.seen_le
  covers := fun n hn => by
    rcases List.mem_append.mp hn with hn | hn
    · exact h.covers n hn
    · exact List.mem_singleton.mp hn ▸ h.covers _ h.current

/-- New checkouts, and waits that are ended or allowed, have nothing to do with the mark. -/
theorem Marked.more {new : List Checkout} (h : t.Marked past) (hnew : ∀ c ∈ new, c = .taking)
    (interrupted : Bool) :
    Marked ⟨{ t.pool with free := { t.pool.free with interrupted } }, t.checkouts ++ new⟩ past where
  current := h.current
  mark_mem := h.mark_mem
  raising_mem := fun c hc now hraising => by
    rcases List.mem_append.mp hc with hc | hc
    · exact h.raising_mem c hc now hraising
    · rw [hnew c hc] at hraising
      cases hraising
  seen_le := fun b now seen hc => by
    rcases List.mem_append.mp hc with hc | hc
    · exact h.seen_le b now seen hc
    · cases hnew _ hc
  covers := fun n hn => by
    rcases h.covers n hn with hmark | ⟨i, c, now, hi, hraising⟩
    · exact Or.inl hmark
    · refine Or.inr ⟨i, c, now, ?_, hraising⟩
      exact (List.getElem?_append_left (List.getElem?_eq_some_iff.mp hi).1).trans hi

theorem Marked.next {a : Action} (hstocked : t.Stocked free) (h : t.Marked past)
    (hstep : t.next a = some t') : t'.Marked (past ++ [t'.pool.outstanding]) := by
  rcases next_cases hstep with ⟨i, c, c', p', hi, hmove, rfl⟩ | ⟨new, interrupted, rfl, hnew⟩
  · exact h.moves hi (hstocked.count_pos hi) hmove
  · exact (h.more hnew interrupted).again

theorem marked_create (count : UInt32) (bufferSize : UInt64) :
    (create count bufferSize).Marked [0] where
  current := List.mem_singleton_self _
  mark_mem := List.mem_singleton_self _
  raising_mem := fun c hc => by cases hc
  seen_le := fun b now seen hc => by cases hc
  covers := fun n hn => Or.inl (List.mem_singleton.mp hn ▸ UInt32.le_refl _)

/-- **The mark is the largest count there was** once nobody raises it. -/
theorem Marked.is_largest (h : t.Marked past)
    (hnobody : ∀ c ∈ t.checkouts, c.raising? = none) :
    t.pool.highWater ∈ past ∧ ∀ n ∈ past, n ≤ t.pool.highWater := by
  refine ⟨h.mark_mem, fun n hn => ?_⟩
  rcases h.covers n hn with hle | ⟨i, c, now, hi, hraising, -⟩
  · exact hle
  · rw [hnobody c (List.mem_of_getElem? hi)] at hraising
    cases hraising

end Traffic

end Intake.Pool
