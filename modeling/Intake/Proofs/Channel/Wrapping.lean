/-
# Slot numbers that wrap

The slot in which `Put` leaves an item of a `BoundedChannel` is worked out in words of 32 bits.  It
is a free one exactly as long as the head and the count add up to a number of 32 bits
(`Ring.Sized.nextSlot_notMem_iff`): beyond that the sum wraps before it is taken round the ring, and
falls on a slot in which an item is queued.

**In a channel for at most 2147483648 items that never happens; in every larger one it does**
(`next_slot_free_iff`), for instance in the largest one there can be, when the head has come to the
last slot (`queued_item_overwritten`).  Which heads and counts can come about is the same for all
capacities: every head within the ring, with every count that fits (`exists_resting`,
`exists_filled`).
-/
import Mathlib
import Intake.Proofs.Channel.Wakes

namespace Intake

variable {α : Type}

/-! ## 1. The slot for the next item -/

namespace Ring

/-- The slots that hold items, from the head on. -/
def occupied (r : Ring α) : List Nat :=
  (List.range r.count.toNat).map fun i => (r.head.toNat + i) % r.capacity.toNat

/-- The slot that the next item is put into. -/
def nextSlot (r : Ring α) : Nat := (slotAt r.capacity r.head r.count).toNat

variable {r : Ring α}

theorem mem_occupied {j : Nat} :
    j ∈ r.occupied ↔ ∃ i < r.count.toNat, (r.head.toNat + i) % r.capacity.toNat = j := by
  simp [occupied]

theorem toNat_slotAt_of_wraps {capacity head offset : UInt32}
    (hhead : head.toNat < capacity.toNat) (hoffset : offset.toNat < capacity.toNat)
    (hwraps : 4294967296 ≤ head.toNat + offset.toNat) :
    (slotAt capacity head offset).toNat = head.toNat + offset.toNat - 4294967296 := by
  have hcapacity := capacity.toNat_lt
  have hsum : (head.toNat + offset.toNat) % 4294967296
      = head.toNat + offset.toNat - 4294967296 := by
    rw [Nat.mod_eq_sub_mod hwraps, Nat.mod_eq_of_lt (by omega)]
  rw [slotAt, UInt32.toNat_mod, UInt32.toNat_add, hsum, Nat.mod_eq_of_lt (by omega)]

/-- **When the next slot is free**: as long as head and count add up to a word. -/
theorem Sized.nextSlot_notMem_iff (h : r.Sized) (hroom : r.count.toNat < r.capacity.toNat) :
    r.nextSlot ∉ r.occupied ↔ r.head.toNat + r.count.toNat < 4294967296 := by
  have hhead := h.head_lt
  rw [mem_occupied, nextSlot]
  constructor
  · intro hfree
    by_contra hwraps
    rw [toNat_slotAt_of_wraps hhead hroom (by omega)] at hfree
    -- the item that is queued there is as far from the last one as the ring is short of all words
    have hcapacity := r.capacity.toNat_lt
    refine hfree ⟨r.count.toNat + r.capacity.toNat - 4294967296, by omega, ?_⟩
    rw [mod_of_lt_twice (by omega), if_neg (by omega)]
    omega
  · rintro hsum ⟨i, hi, hslot⟩
    rw [toNat_slotAt hsum] at hslot
    exact slot_ne hhead hi hroom hslot

theorem slot?_push_of_free (hfree : r.nextSlot ∉ r.occupied) (x : α) :
    ∀ j ∈ r.occupied, (r.push x).slot? j = r.slot? j := by
  intro j hj
  have hslots : (r.push x).slots = r.slots.set r.nextSlot (some x) := rfl
  refine slot?_set_ne hslots ?_
  rintro rfl
  exact hfree hj

theorem Sized.slot?_push (h : r.Sized) (x : α) : (r.push x).slot? r.nextSlot = some x := by
  have hpos : 0 < r.capacity.toNat := Nat.lt_of_le_of_lt (Nat.zero_le _) h.head_lt
  refine slot?_set_self (r := r.push x) (some x) rfl ?_
  show (slotAt r.capacity r.head r.count).toNat < r.slots.length
  rw [h.slots_length, slotAt, UInt32.toNat_mod]
  exact Nat.mod_lt _ hpos

end Ring

/-! ## 2. What a channel does to its ring -/

namespace Channel

variable {c c' : Channel α} {x : α}

theorem ring_of_takeSection {s : Section α} (hs : c.takeSection = some s) :
    s.channel.ring = c.ring ∨ c.ring.count ≠ 0 ∧ s.channel.ring = c.ring.advance := by
  unfold takeSection at hs
  split at hs
  · cases hs
  · split at hs
    · obtain rfl := Option.some.inj hs
      exact Or.inl rfl
    · rename_i hsome
      obtain rfl := Option.some.inj hs
      exact Or.inr ⟨hsome, rfl⟩
  · rename_i y c₁ htake
    obtain rfl := Option.some.inj hs
    obtain ⟨hsome, rfl⟩ := of_take_gives htake
    exact Or.inr ⟨hsome, rfl⟩

/-- **Every call keeps the ring sized**, whatever its capacity, which does not change. -/
theorem sized_of_critical {expired : Bool} {call : Call α} {s : Section α} (h : c.ring.Sized)
    (hs : c.critical expired call = some s) :
    s.channel.ring.Sized ∧ s.channel.capacity = c.capacity := by
  have htaken : ∀ {s : Section α}, c.takeSection = some s →
      s.channel.ring.Sized ∧ s.channel.capacity = c.capacity := by
    intro s hs
    unfold Channel.capacity
    rcases ring_of_takeSection hs with hring | ⟨hsome, hring⟩
    · rw [hring]
      exact ⟨h, rfl⟩
    · rw [hring]
      exact ⟨h.advance hsome, rfl⟩
  cases call with
  | put x =>
    simp only [critical] at hs
    split at hs
    · cases hs
    · obtain rfl := Option.some.inj hs
      exact ⟨h, rfl⟩
    · rename_i c₁ hput
      obtain rfl := Option.some.inj hs
      obtain ⟨hroom, rfl⟩ := of_put_gives h hput
      exact ⟨h.push hroom x, rfl⟩
  | take => exact htaken hs
  | takeFor ms =>
    simp only [critical] at hs
    split at hs
    · rename_i s₁ hs₁
      obtain rfl := Option.some.inj hs
      exact htaken hs₁
    · split at hs
      · obtain rfl := Option.some.inj hs
        exact ⟨h, rfl⟩
      · cases hs
  | interrupt | clearInterrupt | close =>
    obtain rfl := Option.some.inj hs
    exact ⟨h, rfl⟩

/-! ## 3. Which rings come about -/

namespace Monitor

variable {capacity : UInt32} {m : Monitor α}

theorem sized_of_reachable (h : Reachable capacity m) :
    m.channel.ring.Sized ∧ m.channel.capacity = if capacity = 0 then 1 else capacity := by
  induction h with
  | create => exact ⟨Ring.sized_create capacity, rfl⟩
  | next _ hnext ih =>
    obtain ⟨hsized, hcapacity⟩ := ih
    rcases next_cases hnext with ⟨i, call, expired, s, -, hs, -, hchannel, -⟩ | ⟨-, hchannel, -⟩
    · rw [hchannel]
      obtain ⟨hsized', hsame⟩ := sized_of_critical hsized hs
      exact ⟨hsized', hsame.trans hcapacity⟩
    · rw [hchannel]
      exact ⟨hsized, hcapacity⟩

/-- What a call does with the channel can come about whenever it need not wait. -/
theorem Reachable.serve {call : Call α} {s : Section α} (h : Reachable capacity m)
    (hs : m.channel.critical false call = some s) :
    ∃ m', Reachable capacity m' ∧ m'.channel = s.channel := by
  have hentered : Reachable capacity (m.entered call) := .next (a := .enter call) h rfl
  have hrun : (m.entered call).next (.run m.threads.length)
      = some { ((m.entered call).setThread m.threads.length
          ⟨call, .told s.notices s.answer, false⟩) with channel := s.channel } := by
    have hthread : (m.entered call).threads[m.threads.length]? = some ⟨call, .awake, false⟩ := by
      simp [entered]
    have hsame : (m.entered call).channel = m.channel := rfl
    simp only [Monitor.next, hthread, hsame, hs]
  exact ⟨_, .next hentered hrun, rfl⟩

theorem Reachable.put {c' : Channel α} {x : α} (h : Reachable capacity m)
    (hput : m.channel.put x = .gives c') : ∃ m', Reachable capacity m' ∧ m'.channel = c' := by
  have hs : m.channel.critical false (.put x) = some ⟨.accepted, [.one .notEmpty], c'⟩ := by
    rw [critical, hput]
  exact h.serve hs

theorem Reachable.take {c' : Channel α} {x : α} (h : Reachable capacity m)
    (htake : m.channel.take = .gives (x, c')) : ∃ m', Reachable capacity m' ∧ m'.channel = c' := by
  have hs : m.channel.critical false .take = some ⟨.item x, [.one .notFull], c'⟩ := by
    rw [critical, takeSection, htake]
  exact h.serve hs

end Monitor

/-- An open channel with no item in it and its head at a slot. -/
def restingAt (capacity head : UInt32) : Channel α :=
  ⟨⟨capacity, List.replicate capacity.toNat none, head, 0⟩, false, false⟩

/-- An item that goes through an empty channel takes the head one slot further. -/
theorem take_of_restingAt {capacity head : UInt32} (hhead : head.toNat + 1 < capacity.toNat) (x : α) :
    (⟨(restingAt capacity head).ring.push x, false, false⟩ : Channel α).take
      = .gives (x, restingAt capacity (head + 1)) := by
  have hcapacity := capacity.toNat_lt
  have hslot : (Ring.slotAt capacity head 0).toNat = head.toNat := by
    rw [Ring.slotAt, UInt32.add_zero, UInt32.toNat_mod, Nat.mod_eq_of_lt (by omega)]
  have hnext : Ring.slotAt capacity head 1 = head + 1 := by
    apply UInt32.toNat_inj.mp
    have hone : (1 : UInt32).toNat = 1 := rfl
    rw [Ring.toNat_slotAt (by rw [hone]; omega), UInt32.toNat_add, hone, Nat.mod_eq_of_lt hhead,
      Nat.mod_eq_of_lt (by omega)]
  have hpushed : (restingAt capacity head).ring.push x
      = ⟨capacity, (List.replicate capacity.toNat none).set head.toNat (some x), head, 1⟩ := by
    simp [restingAt, Ring.push, hslot]
  have hfirst : ((List.replicate capacity.toNat none).set head.toNat (some x))[head.toNat]?
      = some (some x) :=
    List.getElem?_set_self (by rw [List.length_replicate]; omega)
  rw [hpushed]
  simp [take, takeReady, Ring.pop?, Ring.isEmpty, Ring.slot?, Ring.advance, hfirst, hnext, restingAt]

namespace Monitor

variable {capacity : UInt32}

/-- **Every slot is the head of the empty ring** at some time. -/
theorem exists_resting (x : α) {head : Nat} (hhead : head < capacity.toNat) :
    ∃ m : Monitor α, Reachable capacity m ∧
      m.channel = restingAt capacity (UInt32.ofNat head) := by
  induction head with
  | zero =>
    refine ⟨create capacity, .create, ?_⟩
    have hne : capacity ≠ 0 := by
      rintro rfl
      exact absurd hhead (Nat.not_lt_zero _)
    simp [create, Channel.create, Ring.create, restingAt, hne]
  | succ head ih =>
    obtain ⟨m, hreach, hchannel⟩ := ih (by omega)
    have hcapacity := capacity.toNat_lt
    have hword : (UInt32.ofNat head).toNat = head := UInt32.toNat_ofNat_of_lt' (by
      have hsize : UInt32.size = 4294967296 := rfl
      omega)
    have hput := put_of_room (c := (restingAt capacity (UInt32.ofNat head) : Channel α))
      (by show 0 < capacity.toNat; omega) rfl x
    rw [← hchannel] at hput
    obtain ⟨m₁, hreach₁, hchannel₁⟩ := hreach.put hput
    have htake : m₁.channel.take = .gives (x, restingAt capacity (UInt32.ofNat head + 1)) := by
      rw [hchannel₁, hchannel]
      exact take_of_restingAt (by rw [hword]; exact hhead) x
    obtain ⟨m₂, hreach₂, hchannel₂⟩ := hreach₁.take htake
    refine ⟨m₂, hreach₂, hchannel₂.trans ?_⟩
    rw [UInt32.ofNat_add]
    rfl

/-- **Every count comes about** with every head. -/
theorem exists_filled (x : α) {head count : Nat} (hhead : head < capacity.toNat)
    (hcount : count ≤ capacity.toNat) :
    ∃ m : Monitor α, Reachable capacity m ∧ m.channel.closed = false ∧
      m.channel.ring.capacity = capacity ∧ m.channel.ring.head = UInt32.ofNat head ∧
      m.channel.ring.count.toNat = count := by
  induction count with
  | zero =>
    obtain ⟨m, hreach, hchannel⟩ := exists_resting x hhead
    exact ⟨m, hreach, by rw [hchannel]; rfl, by rw [hchannel]; rfl, by rw [hchannel]; rfl,
      by rw [hchannel]; rfl⟩
  | succ count ih =>
    obtain ⟨m, hreach, hopen, hcapacity, hslot, hfilled⟩ := ih (by omega)
    have hroom : m.channel.ring.count.toNat < m.channel.ring.capacity.toNat := by
      rw [hfilled, hcapacity]
      exact hcount
    obtain ⟨m', hreach', hchannel⟩ := hreach.put (put_of_room hroom hopen x)
    refine ⟨m', hreach', by rw [hchannel]; exact hopen, by rw [hchannel]; exact hcapacity,
      by rw [hchannel]; exact hslot, ?_⟩
    rw [hchannel]
    exact (Ring.toNat_count_push hroom x).trans (congrArg (· + 1) hfilled)

/-! ## 4. Channels that are wide and channels that are not -/

/-- In a channel that is too wide, a sum of head and count that is no word comes about. -/
theorem exists_wrapping (x : α) (hwide : Ring.widest < capacity.toNat) :
    ∃ m : Monitor α, Reachable capacity m ∧ m.channel.size < m.channel.capacity ∧
      m.channel.ring.nextSlot ∈ m.channel.ring.occupied := by
  have hcapacity := capacity.toNat_lt
  have hwidest : Ring.widest = 2147483648 := rfl
  -- the head in the last slot, and just as many items as make the sum wrap
  obtain ⟨m, hreach, -, hsame, hhead, hcount⟩ :=
    exists_filled x (show capacity.toNat - 1 < capacity.toNat by omega)
      (show 4294967297 - capacity.toNat ≤ capacity.toNat by omega)
  have hroom : m.channel.ring.count.toNat < m.channel.ring.capacity.toNat := by
    rw [hcount, hsame]
    omega
  have hlast : m.channel.ring.head.toNat = capacity.toNat - 1 := by
    have hsize : UInt32.size = 4294967296 := rfl
    rw [hhead, UInt32.toNat_ofNat_of_lt' (by omega)]
  refine ⟨m, hreach, UInt32.lt_iff_toNat_lt.mpr hroom, ?_⟩
  by_contra hfree
  have hsum := ((sized_of_reachable hreach).1.nextSlot_notMem_iff hroom).mp hfree
  omega

theorem sum_lt_of_narrow {m : Monitor α} (hnarrow : capacity.toNat ≤ Ring.widest)
    (h : Reachable capacity m) (hroom : m.channel.ring.count.toNat < m.channel.ring.capacity.toNat) :
    m.channel.ring.head.toNat + m.channel.ring.count.toNat < 4294967296 := by
  obtain ⟨hsized, hcapacity⟩ := sized_of_reachable h
  have hwidest : Ring.widest = 2147483648 := rfl
  have hhead := hsized.head_lt
  have hle : m.channel.ring.capacity.toNat ≤ 2147483648 := by
    show m.channel.capacity.toNat ≤ 2147483648
    rw [hcapacity]
    split
    · decide
    · exact hnarrow
  omega

/-- **When the slot for the next item is free.**  In a channel for at most 2147483648 items it always
is, if there is room; in every larger one it is not always.  In whatever channel, it is free exactly
if the head and the count add up to a number of 32 bits.  The next item comes into that slot, and if
it is a free one, every item that is queued stays where it is.

The sum of head and count is taken round the ring after it has wrapped, and lands on a slot that is
in use. In a large channel such a pair can be brought about: the head is moved on by one item at a
time that is put and taken, and then the channel is filled. -/
theorem next_slot_free_iff (x : α) (capacity : UInt32) :
    ((∀ m : Monitor α, Reachable capacity m → m.channel.size < m.channel.capacity →
        m.channel.ring.nextSlot ∉ m.channel.ring.occupied) ↔ capacity.toNat ≤ Ring.widest) ∧
    ∀ m : Monitor α, Reachable capacity m → m.channel.size < m.channel.capacity →
      (m.channel.ring.nextSlot ∉ m.channel.ring.occupied ↔
        m.channel.ring.head.toNat + m.channel.ring.count.toNat < 4294967296) ∧
      ∀ y, (m.channel.ring.push y).slot? m.channel.ring.nextSlot = some y ∧
        (m.channel.ring.nextSlot ∉ m.channel.ring.occupied →
          ∀ j ∈ m.channel.ring.occupied,
            (m.channel.ring.push y).slot? j = m.channel.ring.slot? j) := by
  refine ⟨⟨?_, ?_⟩, ?_⟩
  · intro hfree
    by_contra hwide
    obtain ⟨m, hreach, hroom, htaken⟩ := exists_wrapping x (Nat.lt_of_not_le hwide)
    exact hfree m hreach hroom htaken
  · intro hnarrow m hreach hroom
    have hroom' : m.channel.ring.count.toNat < m.channel.ring.capacity.toNat :=
      UInt32.lt_iff_toNat_lt.mp hroom
    exact ((sized_of_reachable hreach).1.nextSlot_notMem_iff hroom').mpr
      (sum_lt_of_narrow hnarrow hreach hroom')
  · intro m hreach hroom
    have hsized := (sized_of_reachable hreach).1
    exact ⟨hsized.nextSlot_notMem_iff (UInt32.lt_iff_toNat_lt.mp hroom), fun y =>
      ⟨hsized.slot?_push y, fun hfree => Ring.slot?_push_of_free hfree y⟩⟩

/-- In a channel for two items, the slot behind the one that is queued in the last slot is free; in
the largest channel a slot is not always free. -/
theorem next_slot_free_of_two :
    (∃ m : Monitor Nat, Reachable 2 m ∧ m.channel.size < m.channel.capacity ∧
      m.channel.ring.head = 1 ∧ m.channel.ring.nextSlot ∉ m.channel.ring.occupied ∧
      ∀ j ∈ m.channel.ring.occupied,
        (m.channel.ring.push 9).slot? j = m.channel.ring.slot? j) ∧
    ¬ ∀ m : Monitor Nat, Reachable 4294967295 m → m.channel.size < m.channel.capacity →
      m.channel.ring.nextSlot ∉ m.channel.ring.occupied := by
  obtain ⟨hnarrow, hslots⟩ := next_slot_free_iff 5 2
  obtain ⟨hwide, -⟩ := next_slot_free_iff 5 4294967295
  obtain ⟨m, hreach, -, hcapacity, hhead, hcount⟩ :=
    exists_filled 5 (show 1 < (2 : UInt32).toNat by decide)
      (show 1 ≤ (2 : UInt32).toNat by decide)
  have hroom : m.channel.size < m.channel.capacity := by
    rw [UInt32.lt_iff_toNat_lt, Channel.size, Channel.capacity, hcount, hcapacity]
    decide
  have hfree := hnarrow.mpr (by decide) m hreach hroom
  refine ⟨⟨m, hreach, hroom, hhead, hfree, ((hslots m hreach hroom).2 9).2 hfree⟩, ?_⟩
  rw [hwide]
  decide

/-- The largest channel, with its head in the last slot and two items. -/
def twoAtTheEnd : Channel Nat where
  ring := ⟨4294967295,
    ((List.replicate 4294967295 none).set 4294967294 (some 7)).set 0 (some 8), 4294967294, 2⟩
  interrupted := false
  closed := false

theorem exists_twoAtTheEnd :
    ∃ m : Monitor Nat, Reachable 4294967295 m ∧ m.channel = twoAtTheEnd := by
  obtain ⟨m, hreach, hchannel⟩ := exists_resting 0
    (show 4294967294 < (4294967295 : UInt32).toNat by decide)
  have hput := put_of_room (c := m.channel) (by rw [hchannel]; decide) (by rw [hchannel]; rfl) 7
  obtain ⟨m₁, hreach₁, hchannel₁⟩ := hreach.put hput
  have hput₁ := put_of_room (c := m₁.channel) (by rw [hchannel₁, hchannel]; decide)
    (by rw [hchannel₁, hchannel]; rfl) 8
  obtain ⟨m₂, hreach₂, hchannel₂⟩ := hreach₁.put hput₁
  exact ⟨m₂, hreach₂, by rw [hchannel₂, hchannel₁, hchannel]; rfl⟩

theorem slot?_twoAtTheEnd (j : Nat) :
    twoAtTheEnd.ring.slot? j = if j = 0 then some 8 else if j = 4294967294 then some 7 else none := by
  simp only [Ring.slot?, twoAtTheEnd, List.getElem?_set, List.length_set, List.length_replicate,
    List.getElem?_replicate]
  split_ifs <;> first | rfl | omega

theorem slot?_third (j : Nat) :
    (twoAtTheEnd.ring.push 9).slot? j
      = if j = 0 then some 9 else if j = 4294967294 then some 7 else none := by
  have hsized : twoAtTheEnd.ring.Sized := by
    obtain ⟨m, hreach, hchannel⟩ := exists_twoAtTheEnd
    rw [← hchannel]
    exact (sized_of_reachable hreach).1
  have hslot : twoAtTheEnd.ring.nextSlot = 0 := by decide
  by_cases hj : j = 0
  · rw [if_pos hj, hj, ← hslot]
    exact hsized.slot?_push 9
  · have hother : (twoAtTheEnd.ring.push 9).slot? j = twoAtTheEnd.ring.slot? j :=
      Ring.slot?_set_ne (r := twoAtTheEnd.ring) rfl fun heq => hj (heq.symm.trans hslot)
    rw [hother, slot?_twoAtTheEnd, if_neg hj, if_neg hj]

/-- **An item that is queued is overwritten** there: the third one comes into the slot of the
second, and of three items that were accepted two are left. -/
theorem queued_item_overwritten :
    ∃ m : Monitor Nat, Reachable 4294967295 m ∧ m.channel.size = 2 ∧
      m.channel.size < m.channel.capacity ∧ m.channel.toList = [7, 8] ∧
      m.channel.ring.occupied = [4294967294, 0] ∧ m.channel.ring.nextSlot = 0 ∧
      ∃ c, m.channel.put 9 = .gives c ∧ c.size = 3 ∧ c.toList = [7, 9] := by
  obtain ⟨m, hreach, hchannel⟩ := exists_twoAtTheEnd
  refine ⟨m, hreach, ?_⟩
  rw [hchannel]
  refine ⟨rfl, by decide, ?_, by decide, by decide, _, put_of_room (by decide) rfl 9, rfl, ?_⟩
  · simp only [toList, Ring.toList, slot?_twoAtTheEnd]
    rfl
  · simp only [toList, Ring.toList, slot?_third]
    rfl

end Monitor

end Channel

end Intake
