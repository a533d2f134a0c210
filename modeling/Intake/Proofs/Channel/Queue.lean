/-
# A channel is a queue

A `BoundedChannel` is a ring of slots behind a mutex.  `Ring.Sized r` says that the head and the
count of a ring are within it; that stays so whatever its capacity.  `Ring.Holds r xs` says that its
slots from the head on hold the items of `xs`, in order and one behind the other.  Putting an item
in adds it at the end of the list and taking one out takes it from the front, as long as a ring has
at most 2147483648 slots, so that slot numbers do not wrap (`Holds.push`, `Holds.pop`).  With that,
a channel does what a bounded queue does: `put_gives`, `take_gives` and the conditions under which a
call waits or fails.
-/
import Mathlib
import Intake.Channel.Basic

namespace Intake

variable {α : Type}

/-! ## 1. Slot numbers -/

namespace Ring

/-- The most slots of a ring whose slot numbers do not wrap. -/
def widest : Nat := 2147483648

theorem mod_of_lt_twice {a c : Nat} (h : a < 2 * c) : a % c = if a < c then a else a - c := by
  split
  · rename_i hlt
    exact Nat.mod_eq_of_lt hlt
  · rename_i hge
    rw [Nat.mod_eq_sub_mod (by omega), Nat.mod_eq_of_lt (by omega)]

theorem slot_ne {h i j c : Nat} (hh : h < c) (hij : i < j) (hj : j < c) :
    (h + i) % c ≠ (h + j) % c := by
  rw [mod_of_lt_twice (by omega), mod_of_lt_twice (by omega)]
  split <;> split <;> omega

theorem toNat_slotAt {capacity head offset : UInt32}
    (h : head.toNat + offset.toNat < 4294967296) :
    (slotAt capacity head offset).toNat = (head.toNat + offset.toNat) % capacity.toNat := by
  rw [slotAt, UInt32.toNat_mod, UInt32.toNat_add, Nat.mod_eq_of_lt h]

theorem slot?_set_self {r : Ring α} {i : Nat} {slots : List (Option α)} (x : Option α)
    (hr : r.slots = slots.set i x) (hi : i < slots.length) : r.slot? i = x := by
  simp [slot?, hr, hi]

theorem slot?_set_ne {r r' : Ring α} {i j : Nat} {x : Option α} (hr : r'.slots = r.slots.set i x)
    (h : i ≠ j) : r'.slot? j = r.slot? j := by
  simp [slot?, hr, List.getElem?_set_ne h]

/-! ## 2. Rings that are sized -/

/-- Head and count are within the ring. -/
structure Sized (r : Ring α) : Prop where
  slots_length : r.slots.length = r.capacity.toNat
  head_lt : r.head.toNat < r.capacity.toNat
  count_le : r.count.toNat ≤ r.capacity.toNat

section Sized

variable {r : Ring α}

theorem sized_create (capacity : UInt32) : (create capacity : Ring α).Sized := by
  have hne := @create_capacity_pos α capacity
  exact ⟨length_slots_create capacity,
    Nat.pos_of_ne_zero fun h0 => hne (UInt32.toNat_inj.mp h0), Nat.zero_le _⟩

theorem toNat_count_push (hroom : r.count.toNat < r.capacity.toNat) (x : α) :
    (r.push x).count.toNat = r.count.toNat + 1 := by
  have hcapacity := r.capacity.toNat_lt
  have hone : (r.push x).count.toNat = (r.count.toNat + 1) % 4294967296 := UInt32.toNat_add _ _
  rw [hone, Nat.mod_eq_of_lt (by omega)]

theorem toNat_count_advance (hsome : r.count ≠ 0) :
    r.advance.count.toNat + 1 = r.count.toNat := by
  have hpos : 0 < r.count.toNat := Nat.pos_of_ne_zero fun h0 => hsome (UInt32.toNat_inj.mp h0)
  have hone : (1 : UInt32) ≤ r.count := UInt32.le_iff_toNat_le.mpr hpos
  have hless : r.advance.count.toNat = r.count.toNat - 1 := UInt32.toNat_sub_of_le _ _ hone
  omega

theorem Sized.push (h : r.Sized) (hroom : r.count.toNat < r.capacity.toNat) (x : α) :
    (r.push x).Sized := by
  refine ⟨?_, h.head_lt, ?_⟩
  · rw [Ring.push, List.length_set]
    exact h.slots_length
  · rw [toNat_count_push hroom]
    exact hroom

theorem Sized.advance (h : r.Sized) (hsome : r.count ≠ 0) : r.advance.Sized := by
  have hpos : 0 < r.capacity.toNat := Nat.lt_of_le_of_lt (Nat.zero_le _) h.head_lt
  have hcount := h.count_le
  refine ⟨?_, ?_, ?_⟩
  · rw [Ring.advance, List.length_set]
    exact h.slots_length
  · rw [Ring.advance, slotAt, UInt32.toNat_mod]
    exact Nat.mod_lt _ hpos
  · have hless := toNat_count_advance hsome
    show r.advance.count.toNat ≤ r.capacity.toNat
    omega

end Sized

/-! ## 3. The list that a ring holds -/

/-- The slots from the head on hold the items of a list. -/
structure Holds (r : Ring α) (xs : List α) : Prop where
  capacity_pos : 0 < r.capacity.toNat
  capacity_le : r.capacity.toNat ≤ widest
  slots_length : r.slots.length = r.capacity.toNat
  head_lt : r.head.toNat < r.capacity.toNat
  count_eq : r.count.toNat = xs.length
  length_le : xs.length ≤ r.capacity.toNat
  item : ∀ i, i < xs.length → r.slot? ((r.head.toNat + i) % r.capacity.toNat) = xs[i]?

theorem holds_create {capacity : UInt32} (h : capacity.toNat ≤ widest) :
    (create capacity : Ring α).Holds [] where
  capacity_pos := (sized_create capacity).head_lt
  capacity_le := by
    simp only [create]
    split
    · decide
    · exact h
  slots_length := length_slots_create capacity
  head_lt := (sized_create capacity).head_lt
  count_eq := rfl
  length_le := Nat.zero_le _
  item := fun i hi => absurd hi (by simp)

theorem Holds.sized {r : Ring α} {xs : List α} (h : r.Holds xs) : r.Sized :=
  ⟨h.slots_length, h.head_lt, h.count_eq.trans_le h.length_le⟩

/-- **An item put in comes behind the others.**  Its slot is none of theirs. -/
theorem Holds.push {r : Ring α} {xs : List α} (h : r.Holds xs)
    (hroom : xs.length < r.capacity.toNat) (x : α) : (r.push x).Holds (xs ++ [x]) := by
  have hcap := h.capacity_le
  have hhead := h.head_lt
  have hcount := h.count_eq
  have hwide : widest = 2147483648 := rfl
  have hslot : (slotAt r.capacity r.head r.count).toNat
      = (r.head.toNat + xs.length) % r.capacity.toNat := by
    rw [toNat_slotAt (by omega), hcount]
  have hlt : (r.head.toNat + xs.length) % r.capacity.toNat < r.slots.length := by
    rw [h.slots_length]
    exact Nat.mod_lt _ h.capacity_pos
  have hslots : (r.push x).slots
      = r.slots.set ((r.head.toNat + xs.length) % r.capacity.toNat) (some x) := by
    rw [← hslot]; rfl
  have hfits : r.count.toNat < r.capacity.toNat := hcount.trans_lt hroom
  have hsized := h.sized.push hfits x
  have hmore : (r.push x).count.toNat = (xs ++ [x]).length := by
    rw [toNat_count_push hfits, hcount, List.length_append, List.length_singleton]
  refine ⟨h.capacity_pos, hcap, hsized.slots_length, hhead, hmore,
    hmore.symm.trans_le hsized.count_le, ?_⟩
  intro i hi
  rw [List.length_append, List.length_singleton] at hi
  show (r.push x).slot? ((r.head.toNat + i) % r.capacity.toNat) = (xs ++ [x])[i]?
  rcases Nat.lt_or_ge i xs.length with hlast | hlast
  · rw [slot?_set_ne hslots (slot_ne hhead hlast hroom).symm, h.item i hlast,
      List.getElem?_append_left hlast]
  · obtain rfl : i = xs.length := by omega
    rw [slot?_set_self _ hslots hlt]
    simp

/-- **The item taken out is the first one.** -/
theorem Holds.pop {r : Ring α} {x : α} {xs : List α} (h : r.Holds (x :: xs)) :
    r.pop? = some (x, r.advance) ∧ r.advance.Holds xs := by
  have hcap := h.capacity_le
  have hhead := h.head_lt
  have hcount := h.count_eq
  have hle := h.length_le
  have hwide : widest = 2147483648 := rfl
  rw [List.length_cons] at hcount hle
  have hfirst : r.slot? r.head.toNat = some x := by
    have h0 := h.item 0 (by simp)
    rwa [Nat.add_zero, Nat.mod_eq_of_lt hhead] at h0
  have hsome : r.count ≠ 0 := fun h0 => by rw [h0] at hcount; simp at hcount
  have hempty : r.isEmpty = false := by simp [isEmpty, hsome]
  have hsized := h.sized.advance hsome
  have hfewer : r.advance.count.toNat = xs.length :=
    Nat.succ.inj ((toNat_count_advance hsome).trans hcount)
  have hnext : (slotAt r.capacity r.head 1).toNat = (r.head.toNat + 1) % r.capacity.toNat :=
    toNat_slotAt (by show r.head.toNat + 1 < _; omega)
  refine ⟨by simp [pop?, hempty, hfirst], h.capacity_pos, hcap, hsized.slots_length,
    hsized.head_lt, hfewer, hfewer.symm.trans_le hsized.count_le, ?_⟩
  intro i hi
  have hmod : ((slotAt r.capacity r.head 1).toNat + i) % r.capacity.toNat
      = (r.head.toNat + (i + 1)) % r.capacity.toNat := by
    rw [hnext, Nat.mod_add_mod]
    congr 1
    omega
  have hne : r.head.toNat ≠ (r.head.toNat + (i + 1)) % r.capacity.toNat := by
    have hslot := slot_ne (i := 0) (j := i + 1) hhead (by omega) (by omega)
    rwa [Nat.add_zero, Nat.mod_eq_of_lt hhead] at hslot
  show r.advance.slot? (((slotAt r.capacity r.head 1).toNat + i) % r.capacity.toNat) = xs[i]?
  rw [hmod, slot?_set_ne (r := r) rfl hne, h.item (i + 1) (by simpa using hi)]
  rfl

theorem Holds.pop_nil {r : Ring α} (h : r.Holds []) : r.pop? = none := by
  have h0 : r.count = 0 := UInt32.toNat_inj.mp h.count_eq
  simp [pop?, isEmpty, h0]

theorem filterMap_getElem?_range (xs : List α) :
    (List.range xs.length).filterMap (fun i => xs[i]?) = xs := by
  induction xs using List.reverseRecOn with
  | nil => rfl
  | append_singleton xs x ih =>
    have hcongr : (List.range xs.length).filterMap (fun i => (xs ++ [x])[i]?)
        = (List.range xs.length).filterMap (fun i => xs[i]?) :=
      List.filterMap_congr fun i hi => by
        rw [List.getElem?_append_left (List.mem_range.mp hi)]
    rw [List.length_append, List.length_singleton, List.range_succ, List.filterMap_append, hcongr,
      ih]
    simp

theorem Holds.toList_eq {r : Ring α} {xs : List α} (h : r.Holds xs) : r.toList = xs := by
  have hcongr : r.toList = (List.range xs.length).filterMap (fun i => xs[i]?) := by
    rw [toList, h.count_eq]
    exact List.filterMap_congr fun i hi => h.item i (List.mem_range.mp hi)
  rw [hcongr, filterMap_getElem?_range]

end Ring

/-! ## 4. Calls on a channel -/

namespace Channel

/-- The items inside a channel. -/
abbrev Holds (c : Channel α) (xs : List α) : Prop := c.ring.Holds xs

theorem holds_create {capacity : UInt32} (h : capacity.toNat ≤ Ring.widest) :
    (create capacity : Channel α).Holds [] :=
  Ring.holds_create h

theorem Holds.count_lt_iff {c : Channel α} {xs : List α} (h : c.Holds xs) :
    c.ring.count < c.ring.capacity ↔ xs.length < c.capacity.toNat := by
  rw [UInt32.lt_iff_toNat_lt, h.count_eq]; rfl

theorem put_of_closed {c : Channel α} (h : c.closed = true) (x : α) :
    c.put x = .fails .closed := by
  simp [put, putReady, h]

theorem put_of_room {c : Channel α} (hroom : c.ring.count.toNat < c.ring.capacity.toNat)
    (hopen : c.closed = false) (x : α) : c.put x = .gives { c with ring := c.ring.push x } := by
  have hlt : c.ring.count < c.ring.capacity := UInt32.lt_iff_toNat_lt.mpr hroom
  have hfull : c.ring.isFull = false := by
    have hne : c.ring.count ≠ c.ring.capacity := fun heq => by
      rw [heq] at hroom
      exact absurd hroom (Nat.lt_irrefl _)
    simp [Ring.isFull, hne]
  simp [put, putReady, hlt, hopen, hfull]

theorem pushed_of_put {c c' : Channel α} {x : α} (hput : c.put x = .gives c') :
    c.ring.isFull = false ∧ c' = { c with ring := c.ring.push x } := by
  unfold put at hput
  split at hput
  · cases hput
  · split at hput
    · cases hput
    · split at hput
      · cases hput
      · rename_i hroom
        exact ⟨by simpa using hroom, (Attempt.gives.inj hput).symm⟩

theorem flags_of_put {c c' : Channel α} {x : α} (h : c.put x = .gives c') :
    c'.closed = c.closed ∧ c'.interrupted = c.interrupted := by
  obtain ⟨-, rfl⟩ := pushed_of_put h
  exact ⟨rfl, rfl⟩

theorem of_put_gives {c c' : Channel α} {x : α} (h : c.ring.Sized)
    (hput : c.put x = .gives c') :
    c.ring.count.toNat < c.ring.capacity.toNat ∧ c' = { c with ring := c.ring.push x } := by
  obtain ⟨hfull, hpushed⟩ := pushed_of_put hput
  have hne : c.ring.count.toNat ≠ c.ring.capacity.toNat := by
    intro heq
    simp [Ring.isFull, UInt32.toNat_inj.mp heq] at hfull
  exact ⟨lt_of_le_of_ne h.count_le hne, hpushed⟩

theorem take_cases (c : Channel α) :
    (c.take = .waits ∧ c.size = 0 ∧ c.interrupted = false ∧ c.closed = false) ∨
      (c.take = .fails c.emptyCause) ∨
      (0 < c.size ∧ ∃ x, c.take = .gives (x, { c with ring := c.ring.advance })) := by
  unfold take
  split
  · rename_i hready
    simp only [takeReady, Bool.not_eq_true', Bool.or_eq_false_iff, decide_eq_false_iff_not,
      UInt32.not_lt] at hready
    exact Or.inl ⟨rfl, UInt32.le_zero_iff.mp hready.1.1, hready.1.2, hready.2⟩
  · unfold Ring.pop?
    split
    · rename_i hnone
      exact Or.inr (Or.inl rfl)
    · rename_i x ring hsome
      split at hsome
      · cases hsome
      · rename_i hne
        obtain ⟨y, -, hy⟩ := Option.map_eq_some_iff.mp hsome
        obtain ⟨rfl, rfl⟩ := Prod.mk.inj hy
        refine Or.inr (Or.inr ⟨?_, y, rfl⟩)
        have hcount : c.ring.count ≠ 0 := by simpa [Ring.isEmpty] using hne
        exact UInt32.pos_iff_ne_zero.mpr hcount

theorem of_take_gives {c c' : Channel α} {x : α} (htake : c.take = .gives (x, c')) :
    c.ring.count ≠ 0 ∧ c' = { c with ring := c.ring.advance } := by
  rcases c.take_cases with ⟨hwaits, -⟩ | hfails | ⟨hpos, y, hgives⟩
  · rw [hwaits] at htake
    cases htake
  · rw [hfails] at htake
    cases htake
  · rw [hgives] at htake
    exact ⟨UInt32.pos_iff_ne_zero.mp hpos, (Prod.mk.inj (Attempt.gives.inj htake)).2.symm⟩

theorem flags_of_take {c c' : Channel α} {x : α} (h : c.take = .gives (x, c')) :
    c'.closed = c.closed ∧ c'.interrupted = c.interrupted := by
  obtain ⟨-, rfl⟩ := of_take_gives h
  exact ⟨rfl, rfl⟩

theorem Holds.put_gives {c : Channel α} {xs : List α} (h : c.Holds xs) (hopen : c.closed = false)
    (hroom : xs.length < c.capacity.toNat) (x : α) :
    c.put x = .gives { c with ring := c.ring.push x } :=
  put_of_room (h.count_eq.trans_lt hroom) hopen x

theorem Holds.put_waits {c : Channel α} {xs : List α} (h : c.Holds xs) (hopen : c.closed = false)
    (hcalm : c.interrupted = false) (hfull : xs.length = c.capacity.toNat) (x : α) :
    c.put x = .waits := by
  have hlt : ¬ c.ring.count < c.ring.capacity := by
    intro hlt
    have := h.count_lt_iff.mp hlt
    omega
  simp [put, putReady, hlt, hopen, hcalm]

/-- Whatever went in, it went in behind the others, and there was room for it. -/
theorem Holds.of_put_gives {c c' : Channel α} {xs : List α} {x : α} (h : c.Holds xs)
    (hput : c.put x = .gives c') :
    c'.Holds (xs ++ [x]) ∧ xs.length < c.capacity.toNat ∧
      c' = { c with ring := c.ring.push x } := by
  obtain ⟨hfits, rfl⟩ := Channel.of_put_gives h.sized hput
  have hroom : xs.length < c.capacity.toNat := h.count_eq.symm.trans_lt hfits
  exact ⟨h.push hroom x, hroom, rfl⟩

theorem put_not_fails {c : Channel α} {x : α} {e : ChannelError} (hopen : c.closed = false)
    (hcalm : c.interrupted = false) : c.put x ≠ .fails e := by
  intro hput
  by_cases hlt : c.ring.count < c.ring.capacity
  · rw [put_of_room (UInt32.lt_iff_toNat_lt.mp hlt) hopen] at hput
    cases hput
  · simp [put, putReady, hopen, hcalm, hlt] at hput

theorem Holds.take_gives {c : Channel α} {x : α} {xs : List α} (h : c.Holds (x :: xs)) :
    c.take = .gives (x, { c with ring := c.ring.advance }) ∧
      ({ c with ring := c.ring.advance } : Channel α).Holds xs := by
  obtain ⟨hpop, hrest⟩ := h.pop
  have hpos : (0 : UInt32) < c.ring.count := by
    rw [UInt32.lt_iff_toNat_lt, h.count_eq]
    simp
  exact ⟨by simp [take, takeReady, hpos, hpop], hrest⟩

theorem Holds.take_waits {c : Channel α} (h : c.Holds []) (hopen : c.closed = false)
    (hcalm : c.interrupted = false) : c.take = .waits := by
  have h0 : c.ring.count = 0 := UInt32.toNat_inj.mp h.count_eq
  simp [take, takeReady, h0, hopen, hcalm]

theorem Holds.take_fails {c : Channel α} (h : c.Holds [])
    (hstop : c.closed = true ∨ c.interrupted = true) : c.take = .fails c.emptyCause := by
  have hready : c.takeReady = true := by
    rcases hstop with hs | hs <;> simp [takeReady, hs]
  simp [take, hready, h.pop_nil]

theorem Holds.of_take_gives {c c' : Channel α} {xs : List α} {x : α} (h : c.Holds xs)
    (htake : c.take = .gives (x, c')) :
    ∃ rest, xs = x :: rest ∧ c'.Holds rest ∧ c' = { c with ring := c.ring.advance } := by
  cases xs with
  | nil =>
    simp only [take, h.pop_nil] at htake
    split at htake <;> cases htake
  | cons y rest =>
    obtain ⟨hgives, hrest⟩ := h.take_gives
    rw [hgives] at htake
    simp only [Attempt.gives.injEq, Prod.mk.injEq] at htake
    obtain ⟨rfl, rfl⟩ := htake
    exact ⟨rest, rfl, hrest, rfl⟩

/-- A call fails only on an empty channel, and only if something ends its wait. -/
theorem Holds.of_take_fails {c : Channel α} {xs : List α} {e : ChannelError} (h : c.Holds xs)
    (htake : c.take = .fails e) : xs = [] ∧ (c.closed = true ∨ c.interrupted = true) := by
  cases xs with
  | nil =>
    refine ⟨rfl, ?_⟩
    by_contra hno
    obtain ⟨hopen, hcalm⟩ := not_or.mp hno
    rw [h.take_waits (by simpa using hopen) (by simpa using hcalm)] at htake
    cases htake
  | cons y rest =>
    rw [h.take_gives.1] at htake
    cases htake

end Channel

end Intake
