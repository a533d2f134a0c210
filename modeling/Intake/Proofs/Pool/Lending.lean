/-
# What a pool lends out

`Pool.Lends p free` says which buffers of a `BufferPool` are free, in the order in which they will
be taken, and that the others are counted as taken.  Taking a buffer takes the first free one
(`Lends.acquire`), and giving one back puts it behind the others (`Lends.giveBack`), so that a pool
never runs out of room for a buffer that comes back.

A buffer keeps what was written to it (`load_store`), and writing to one leaves the others alone
(`written_store_of_ne`).
-/
import Mathlib
import Intake.Pool.Basic
import Intake.Proofs.Channel.Queue

namespace Intake.Pool

/-! ## 1. Free buffers -/

/-- The free buffers of a pool that counts the others as taken. -/
structure Lends (p : Pool) (free : List Nat) : Prop where
  holds : p.free.Holds free
  opened : p.free.closed = false
  length_memory : p.memory.length = p.capacity.toNat
  counted : p.outstanding.toNat + free.length = p.capacity.toNat

/-- Two pools of the same buffers, of the same size, with waits that end in the same way. -/
structure Alike (p p' : Pool) : Prop where
  bufferSize : p'.bufferSize = p.bufferSize
  capacity : p'.capacity = p.capacity
  interrupted : p'.free.interrupted = p.free.interrupted

theorem Alike.refl (p : Pool) : p.Alike p := ⟨rfl, rfl, rfl⟩

theorem Alike.trans {p p' p'' : Pool} (h : p.Alike p') (h' : p'.Alike p'') : p.Alike p'' :=
  ⟨h'.bufferSize.trans h.bufferSize, h'.capacity.trans h.capacity,
    h'.interrupted.trans h.interrupted⟩

variable {p p' : Pool} {free : List Nat} {b : Nat}

theorem Lends.available_eq (h : p.Lends free) : p.available.toNat = free.length := h.holds.count_eq

theorem Lends.capacity_le (h : p.Lends free) : p.capacity.toNat ≤ Ring.widest := h.holds.capacity_le

theorem Lends.at_rest (h : p.Lends free) (hall : free.length = p.capacity.toNat) :
    p.outstanding = 0 ∧ p.available = p.capacity := by
  have hcounted := h.counted
  constructor
  · apply UInt32.toNat_inj.mp
    show p.outstanding.toNat = 0
    omega
  · apply UInt32.toNat_inj.mp
    rw [h.available_eq, hall]

theorem stock_holds {c : Channel Nat} {xs : List Nat} (ys : List Nat) (h : c.Holds xs)
    (hopen : c.closed = false) (hroom : xs.length + ys.length ≤ c.capacity.toNat) :
    (stock c ys).Holds (xs ++ ys) ∧ (stock c ys).closed = false ∧
      (stock c ys).interrupted = c.interrupted ∧ (stock c ys).capacity = c.capacity := by
  induction ys generalizing c xs with
  | nil => simpa [stock] using ⟨h, hopen⟩
  | cons y ys ih =>
    rw [List.length_cons] at hroom
    have hput := h.put_gives hopen (by omega) y
    have hstep : stock c (y :: ys) = stock { c with ring := c.ring.push y } ys := by
      simp only [stock, List.foldl_cons, hput]
    have hnext := ih (h.of_put_gives hput).1 hopen
      (by rw [List.length_append, List.length_singleton]; show _ ≤ c.capacity.toNat; omega)
    rw [hstep, List.append_cons]
    exact hnext

/-- **A new pool** has every buffer free, unless there are more than slot numbers can tell apart. -/
theorem lends_create {count : UInt32} (bufferSize : UInt64) (h : count.toNat ≤ Ring.widest) :
    (create count bufferSize).Lends (List.range (create count bufferSize).capacity.toNat) ∧
      (create count bufferSize).free.interrupted = false := by
  have hstock := stock_holds (List.range (Channel.create count : Channel Nat).capacity.toNat)
    (Channel.holds_create h) rfl (by simp)
  obtain ⟨hholds, hopened, hcalm, hcap⟩ := hstock
  have hcapacity : (create count bufferSize).capacity
      = (Channel.create count : Channel Nat).capacity := hcap
  rw [hcapacity]
  refine ⟨⟨hholds, hopened, ?_, ?_⟩, hcalm⟩
  · rw [hcapacity]
    simp [create]
  · rw [hcapacity]
    simp [create]

theorem capacity_create_eq {count : UInt32} (bufferSize : UInt64)
    (h : count.toNat ≤ Ring.widest) :
    (create count bufferSize).capacity = if count = 0 then 1 else count := by
  obtain ⟨-, -, -, hcapacity⟩ := stock_holds
    (List.range (Channel.create count : Channel Nat).capacity.toNat) (Channel.holds_create h) rfl
    (by simp)
  exact hcapacity

theorem capacity_create {count : UInt32} (bufferSize : UInt64) (h : count.toNat ≤ Ring.widest)
    (hsome : count ≠ 0) : (create count bufferSize).capacity = count :=
  (capacity_create_eq bufferSize h).trans (if_neg hsome)

/-! ## 2. Taking a buffer -/

theorem raiseMark_eq (p : Pool) (now : UInt32) :
    p.raiseMark now = { p with highWater := if p.highWater < now then now else p.highWater } := by
  unfold raiseMark
  split <;> rfl

/-- **Taking a buffer** takes the first free one and counts it. -/
theorem Lends.acquire (h : p.Lends (b :: free)) :
    ∃ p', p.acquire = .gives (b, p') ∧ p'.Lends free ∧ p.Alike p' ∧ p'.memory = p.memory := by
  obtain ⟨htake, hrest⟩ := h.holds.take_gives
  have hcounted := h.counted
  have hcap := h.capacity_le
  have hwide : Ring.widest = 2147483648 := rfl
  rw [List.length_cons] at hcounted
  refine ⟨_, by simp only [Pool.acquire, takeFree, htake, Attempt.map]; rfl, ?_, ?_, ?_⟩
  · rw [raiseMark_eq]
    refine ⟨hrest, h.opened, h.length_memory, ?_⟩
    show (p.outstanding + 1).toNat + free.length = p.capacity.toNat
    rw [UInt32.toNat_add]
    show (p.outstanding.toNat + 1) % 4294967296 + free.length = p.capacity.toNat
    omega
  · rw [raiseMark_eq]
    exact ⟨rfl, rfl, rfl⟩
  · rw [raiseMark_eq]
    rfl

theorem Lends.of_acquire {p' : Pool} (h : p.Lends free) (hacq : p.acquire = .gives (b, p')) :
    ∃ rest, free = b :: rest ∧ p'.Lends rest ∧ p.Alike p' ∧ p'.memory = p.memory := by
  cases free with
  | nil =>
    have htake : ∀ r, p.free.take ≠ .gives r := by
      intro r hr
      have hpair : p.free.take = .gives (r.1, r.2) := hr
      obtain ⟨rest, hnil, -⟩ := h.holds.of_take_gives hpair
      cases hnil
    unfold Pool.acquire takeFree at hacq
    cases hr : p.free.take with
    | waits => simp [hr, Attempt.map] at hacq
    | fails e => simp [hr, Attempt.map] at hacq
    | gives r => exact absurd hr (htake r)
  | cons a rest =>
    obtain ⟨q, hgives, hq⟩ := h.acquire
    rw [hgives] at hacq
    simp only [Attempt.gives.injEq, Prod.mk.injEq] at hacq
    obtain ⟨rfl, rfl⟩ := hacq
    exact ⟨rest, rfl, hq⟩

/-! ## 3. Giving one back -/

/-- **Giving a buffer back** puts it behind the free ones. -/
theorem Lends.giveBack (h : p.Lends free) (hroom : free.length < p.capacity.toNat) (b : Nat) :
    ∃ p', p.giveBack b = (p', none) ∧ p'.Lends (free ++ [b]) ∧ p.Alike p' ∧
      p'.memory = p.memory := by
  have hput := h.holds.put_gives h.opened hroom b
  have hcounted := h.counted
  have hcap := h.capacity_le
  have hwide : Ring.widest = 2147483648 := rfl
  have hone : (1 : UInt32) ≤ p.outstanding := by
    rw [UInt32.le_iff_toNat_le]
    show 1 ≤ p.outstanding.toNat
    omega
  have hless : (p.outstanding - 1).toNat = p.outstanding.toNat - 1 :=
    UInt32.toNat_sub_of_le _ _ hone
  have hgives : p.countIn.putFree b
      = .gives { p.countIn with free := { p.free with ring := p.free.ring.push b } } := by
    simp only [putFree, countIn, hput, Attempt.map]
  refine ⟨{ p.countIn with free := { p.free with ring := p.free.ring.push b } },
    by simp only [Pool.giveBack, hgives], ⟨(h.holds.of_put_gives hput).1, h.opened,
    h.length_memory, ?_⟩, ⟨rfl, rfl, rfl⟩, rfl⟩
  show (p.outstanding - 1).toNat + (free ++ [b]).length = p.capacity.toNat
  rw [List.length_append, List.length_singleton, hless]
  omega

/-! ## 4. What is in the buffers -/

theorem Lends.store (h : p.Lends free) (b : Nat) (data : Bytes) : (p.store b data).Lends free :=
  ⟨h.holds, h.opened, (List.length_set).trans h.length_memory, h.counted⟩

theorem alike_store (p : Pool) (b : Nat) (data : Bytes) : p.Alike (p.store b data) :=
  ⟨rfl, rfl, rfl⟩

theorem written_store {data : Bytes} (hb : b < p.memory.length) :
    (p.store b data).written b = data ++ (p.written b).drop data.length := by
  simp [written, store, hb]

theorem written_store_of_ne {a : Nat} {data : Bytes} (h : a ≠ b) :
    (p.store b data).written a = p.written a := by
  simp [written, store, List.getElem?_set_ne h.symm]

theorem load_congr (h : p'.written b = p.written b) (position n : Nat) :
    p'.load b position n = p.load b position n := by
  simp only [load, h]

theorem written_congr (h : p'.memory = p.memory) (b : Nat) : p'.written b = p.written b := by
  simp only [written, h]

/-- **What was written to a buffer is read back from it.** -/
theorem load_store (data : Bytes) (hb : b < p.memory.length) :
    (p.store b data).load b 0 data.length = data := by
  simp [load, written_store hb]

end Intake.Pool
