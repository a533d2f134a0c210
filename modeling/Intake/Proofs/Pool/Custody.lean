/-
# Who has which buffer

`Custody` is a `BufferPool` with its checkouts and with the handles that callers keep, which are
variables of the type `PooledBuffer`.  A call that has taken, counted and marked a buffer hands it
over in a new handle; handles are moved, assigned and let go of, and a handle that is assigned to
lets go of what it held before it takes over the other one's buffer.  Calls go on side by side, one
step of one of them at a time.

**Every buffer is free, behind one handle, or with one call that is going on**, in any order of the
steps (`every_buffer_has_one_place`).  With it come the bounds on the counts: a buffer that comes
back finds room, no count wraps, and when no call is going on the count and the free buffers add up
and the mark is the largest count there was.

A handle is used by one call at a time: nobody takes over from a handle while a call empties it.
-/
import Mathlib
import Intake.Proofs.Pool.Counting

namespace Intake.Pool

open scoped List

/-! ## 1. Handles -/

/-- What a handle is at. -/
inductive Grip where
  | empty
  /-- It has the buffer of a checkout. -/
  | holds (checkout : Nat)
  /-- The buffer that it had is on its way back; after that it takes over from another handle, if
  there is one. -/
  | leaving (checkout : Nat) (heir : Option Nat)
  deriving DecidableEq, Repr

/-- The checkout behind a handle. -/
def Grip.checkout? : Grip → Option Nat
  | .holds k => some k
  | .empty | .leaving .. => none

/-- A pool, its checkouts, and the handles on buffers. -/
structure Custody where
  traffic : Traffic
  handles : List Grip
  deriving DecidableEq, Repr

namespace Custody

/-- What can happen next. -/
inductive Deed where
  /-- Someone asks for a buffer. -/
  | acquire
  /-- A call takes its next step. -/
  | advance (checkout : Nat)
  /-- A swap of the mark fails for no reason. -/
  | falter (checkout : Nat)
  /-- A call returns its buffer in a new handle. -/
  | receive (checkout : Nat)
  /-- A handle lets go of its buffer, or comes to its end. -/
  | release (handle : Nat)
  /-- A new handle takes over from another one. -/
  | construct (source : Nat)
  /-- A handle takes over from another one, and lets go of its own buffer first. -/
  | assign (target source : Nat)
  /-- The buffer that a handle let go of is back, and the call on the handle goes on. -/
  | finish (handle : Nat)
  | interrupt
  | clearInterrupt
  deriving DecidableEq, Repr

/-- A new pool without handles. -/
def create (count : UInt32) (bufferSize : UInt64) : Custody := ⟨.create count bufferSize, []⟩

/-- The checkouts that are behind handles. -/
def held (c : Custody) : List Nat := c.handles.filterMap Grip.checkout?

/-- A step that no handle takes part in. -/
def pass (c : Custody) (a : Traffic.Action) : Option Custody :=
  (c.traffic.next a).map fun traffic => { c with traffic }

/-- A handle lets go of a checkout. -/
def letGo (c : Custody) (handle checkout : Nat) (heir : Option Nat) : Option Custody :=
  (c.traffic.next (.letGo checkout)).map fun traffic =>
    ⟨traffic, c.handles.set handle (.leaving checkout heir)⟩

/-- An empty handle takes over from another one, which is empty then. -/
def takeOver (c : Custody) (target source : Nat) : Option Custody :=
  match c.handles[source]? with
  | none | some (.leaving ..) => none
  | some grip => some { c with handles := (c.handles.set source .empty).set target grip }

/-- What a step does; `none` when it is not possible. -/
def next (c : Custody) : Deed → Option Custody
  | .acquire => c.pass .ask
  | .advance k => c.pass (.advance k)
  | .falter k => c.pass (.falter k)
  | .receive k =>
    match c.traffic.checkouts[k]? with
    | some (.holding _) =>
      if k ∈ c.held then none else some { c with handles := c.handles ++ [.holds k] }
    | _ => none
  | .release h =>
    match c.handles[h]? with
    | some (.holds k) => c.letGo h k none
    | some .empty => some c
    | _ => none
  | .construct source => (⟨c.traffic, c.handles ++ [.empty]⟩ : Custody).takeOver c.handles.length source
  | .assign target source =>
    if target = source then some c
    else
      match c.handles[target]? with
      | some (.holds k) => c.letGo target k (some source)
      | some .empty => c.takeOver target source
      | _ => none
  | .finish h =>
    match c.handles[h]? with
    | some (.leaving k heir) =>
      if c.traffic.checkout k = .returned then
        let emptied : Custody := { c with handles := c.handles.set h .empty }
        match heir with
        | none => some emptied
        | some source => emptied.takeOver h source
      else none
    | _ => none
  | .interrupt => c.pass .interrupt
  | .clearInterrupt => c.pass .clearInterrupt

/-- What a row of steps leads to, and the count after each of them. -/
def follow (c : Custody) : List Deed → Option (Custody × List UInt32)
  | [] => some (c, [])
  | d :: rest =>
    (c.next d).bind fun c' =>
      (c'.follow rest).map fun r => (r.1, c'.traffic.pool.outstanding :: r.2)

/-- The buffer that a checkout has. -/
def bufferOf (c : Custody) (k : Nat) : Option Nat := (c.traffic.checkout k).buffer?

/-- The calls that are going on. -/
def onTheWay (c : Custody) : List Nat :=
  (List.range c.traffic.checkouts.length).filter fun k =>
    k ∉ c.held && !(c.traffic.checkout k).isOver

/-! ## 2. What is behind the handles -/

variable {c c' : Custody} {t' : Traffic}

/-- Each handle has a checkout of its own, and that one has its buffer. -/
structure Kept (c : Custody) : Prop where
  nodup : c.held.Nodup
  holding : ∀ k ∈ c.held, ∃ b, c.traffic.checkouts[k]? = some (.holding b)

theorem holding_of_next {t : Traffic} {a : Traffic.Action} {k b : Nat}
    (hk : t.checkouts[k]? = some (.holding b)) (ha : a ≠ .letGo k) (h : t.next a = some t') :
    t'.checkouts[k]? = some (.holding b) := by
  have hother : ∀ {i d p}, i ≠ k → (t.update i d p).checkouts[k]? = some (.holding b) :=
    fun hne => (List.getElem?_set_ne hne).trans hk
  cases a with
  | ask =>
    obtain rfl := Option.some.inj h
    exact (List.getElem?_append_left (List.getElem?_eq_some_iff.mp hk).1).trans hk
  | letGo i =>
    simp only [Traffic.next] at h
    split at h
    · obtain rfl := Option.some.inj h
      exact hother fun e => ha (congrArg _ e)
    · cases h
  | advance i =>
    simp only [Traffic.next] at h
    split at h
    · rename_i d hd
      obtain ⟨r, hstep, rfl⟩ := Option.map_eq_some_iff.mp h
      refine hother ?_
      rintro rfl
      obtain rfl := Option.some.inj (hd.symm.trans hk)
      cases hstep
    · cases h
  | falter i =>
    simp only [Traffic.next] at h
    split at h
    · rename_i d now seen hd
      split at h
      · cases h
      · obtain rfl := Option.some.inj h
        refine hother ?_
        rintro rfl
        cases hd.symm.trans hk
    · cases h
  | interrupt =>
    obtain rfl := Option.some.inj h
    exact hk
  | clearInterrupt =>
    obtain rfl := Option.some.inj h
    exact hk

theorem Kept.pass {a : Traffic.Action} (h : c.Kept) (ha : ∀ k, a ≠ .letGo k)
    (hstep : c.pass a = some c') : c'.Kept := by
  obtain ⟨t', ht, rfl⟩ := Option.map_eq_some_iff.mp hstep
  refine ⟨h.nodup, fun k hk => ?_⟩
  obtain ⟨b, hb⟩ := h.holding k hk
  exact ⟨b, holding_of_next hb (ha k) ht⟩

theorem Kept.letGo {i k : Nat} {heir : Option Nat} (h : c.Kept)
    (hi : c.handles[i]? = some (.holds k)) (hstep : c.letGo i k heir = some c') : c'.Kept := by
  obtain ⟨t', ht, rfl⟩ := Option.map_eq_some_iff.mp hstep
  obtain ⟨others, hbefore, hafter⟩ := exists_others Grip.checkout? hi
  have hheld : c.held ~ k :: others := hbefore
  have hleft : (⟨t', c.handles.set i (.leaving k heir)⟩ : Custody).held ~ others := hafter _
  obtain ⟨hk, hnodup⟩ := List.nodup_cons.mp (hheld.nodup_iff.mp h.nodup)
  refine ⟨hleft.nodup_iff.mpr hnodup, fun j hj => ?_⟩
  have hmem : j ∈ others := hleft.mem_iff.mp hj
  obtain ⟨b, hb⟩ := h.holding j (hheld.mem_iff.mpr (List.mem_cons_of_mem _ hmem))
  refine ⟨b, holding_of_next hb ?_ ht⟩
  intro e
  exact hk (Traffic.Action.letGo.inj e ▸ hmem)

theorem Kept.congr {handles : List Grip} (h : c.Kept)
    (hheld : handles.filterMap Grip.checkout? ~ c.held) : (⟨c.traffic, handles⟩ : Custody).Kept :=
  ⟨hheld.nodup_iff.mpr h.nodup, fun k hk => h.holding k (hheld.mem_iff.mp hk)⟩

theorem Kept.takeOver {target source : Nat} (h : c.Kept)
    (htarget : c.handles[target]? = some .empty) (hstep : c.takeOver target source = some c') :
    c'.Kept := by
  unfold Custody.takeOver at hstep
  split at hstep
  · cases hstep
  · cases hstep
  · rename_i grip _ hsource
    obtain rfl := Option.some.inj hstep
    obtain ⟨others, hbefore, hafter⟩ := exists_others Grip.checkout? hsource
    refine h.congr ?_
    by_cases hsame : target = source
    · subst hsame
      obtain rfl := Option.some.inj (htarget.symm.trans hsource)
      rw [List.set_set]
      exact (hafter _).trans hbefore.symm
    · have hempty : (c.handles.set source .empty)[target]? = some .empty :=
        (List.getElem?_set_ne (Ne.symm hsame)).trans htarget
      obtain ⟨rest, hrest, htaken⟩ := exists_others Grip.checkout? hempty
      calc
        ((c.handles.set source .empty).set target grip).filterMap Grip.checkout?
            ~ grip.checkout?.toList ++ rest := htaken grip
        _ ~ grip.checkout?.toList ++ others := (hrest.symm.trans (hafter .empty)).append_left _
        _ ~ c.held := hbefore.symm

/-- **No step puts a buffer behind two handles.** -/
theorem Kept.next {d : Deed} (h : c.Kept) (hstep : c.next d = some c') : c'.Kept := by
  cases d with
  | acquire => exact h.pass (a := .ask) nofun hstep
  | advance k => exact h.pass (a := .advance k) nofun hstep
  | falter k => exact h.pass (a := .falter k) nofun hstep
  | interrupt => exact h.pass (a := .interrupt) nofun hstep
  | clearInterrupt => exact h.pass (a := .clearInterrupt) nofun hstep
  | receive k =>
    simp only [Custody.next] at hstep
    split at hstep
    · rename_i b hb
      split at hstep
      · cases hstep
      · rename_i hfresh
        obtain rfl := Option.some.inj hstep
        have hheld : ({ c with handles := c.handles ++ [.holds k] } : Custody).held
            = c.held ++ [k] := by simp [held, Grip.checkout?]
        refine ⟨?_, ?_⟩
        · rw [hheld]
          exact List.nodup_append.mpr ⟨h.nodup, List.nodup_singleton k, by grind⟩
        · intro j hj
          rw [hheld] at hj
          rcases List.mem_append.mp hj with hj | hj
          · exact h.holding j hj
          · exact ⟨b, List.mem_singleton.mp hj ▸ hb⟩
    · cases hstep
  | release i =>
    simp only [Custody.next] at hstep
    split at hstep
    · rename_i k hi
      exact h.letGo hi hstep
    · exact Option.some.inj hstep ▸ h
    · cases hstep
  | construct source =>
    have hheld : (c.handles ++ [Grip.empty]).filterMap Grip.checkout? = c.held := by
      simp [held, Grip.checkout?]
    exact (h.congr (hheld ▸ List.Perm.refl _)).takeOver (by simp) hstep
  | assign target source =>
    simp only [Custody.next] at hstep
    split at hstep
    · exact Option.some.inj hstep ▸ h
    · split at hstep
      · rename_i k hi
        exact h.letGo hi hstep
      · rename_i hi
        exact h.takeOver hi hstep
      · cases hstep
  | finish i =>
    simp only [Custody.next] at hstep
    split at hstep
    · rename_i k heir hi
      have hlt : i < c.handles.length := (List.getElem?_eq_some_iff.mp hi).1
      have hemptied : (⟨c.traffic, c.handles.set i .empty⟩ : Custody).Kept := by
        obtain ⟨others, hbefore, hafter⟩ := exists_others Grip.checkout? hi
        exact h.congr ((hafter .empty).trans hbefore.symm)
      split at hstep
      · cases heir with
        | none => exact Option.some.inj hstep ▸ hemptied
        | some source => exact hemptied.takeOver (List.getElem?_set_self hlt) hstep
      · cases hstep
    · cases hstep

/-! ## 3. Where the buffers are -/

theorem filterMap_range_checkout (t : Traffic) :
    (List.range t.checkouts.length).filterMap (fun k => (t.checkout k).buffer?)
      = t.checkouts.filterMap Checkout.buffer? := by
  have hplaces : (List.range t.checkouts.length).map t.checkout = t.checkouts := by
    refine List.ext_getElem (by simp) fun k hk _ => ?_
    rw [List.length_map, List.length_range] at hk
    simp [Traffic.checkout, List.getD_eq_getElem?_getD, hk]
  rw [← hplaces, List.filterMap_map, hplaces]
  rfl

/-- **A buffer that is out is behind a handle or with a call that is going on.** -/
theorem Kept.buffers (h : c.Kept) :
    c.traffic.checkouts.filterMap Checkout.buffer?
      ~ c.held.filterMap c.bufferOf ++ c.onTheWay.filterMap c.bufferOf := by
  have hheld : (List.range c.traffic.checkouts.length).filter (· ∈ c.held) ~ c.held := by
    refine (List.perm_ext_iff_of_nodup (List.nodup_range.filter _) h.nodup).mpr fun k => ?_
    rw [List.mem_filter, List.mem_range, decide_eq_true_eq]
    refine ⟨And.right, fun hk => ⟨?_, hk⟩⟩
    obtain ⟨b, hb⟩ := h.holding k hk
    exact (List.getElem?_eq_some_iff.mp hb).1
  have hway : c.onTheWay.filterMap c.bufferOf
      = ((List.range c.traffic.checkouts.length).filter fun k => !decide (k ∈ c.held)).filterMap
          c.bufferOf := by
    rw [onTheWay, List.filterMap_filter, List.filterMap_filter]
    refine List.filterMap_congr fun k _ => ?_
    cases hover : (c.traffic.checkout k).isOver with
    | true => simp [bufferOf, Checkout.buffer?_of_isOver hover]
    | false => simp
  rw [← filterMap_range_checkout, hway, ← List.filterMap_append]
  exact ((List.filter_append_perm _ _).symm.trans (hheld.append_right _)).filterMap _

theorem Kept.settled (h : c.Kept) (hquiet : c.onTheWay = []) :
    ∀ d ∈ c.traffic.checkouts, d.isSettled = true := by
  intro d hd
  obtain ⟨k, hk⟩ := List.mem_iff_getElem?.mp hd
  by_cases hheld : k ∈ c.held
  · obtain ⟨b, hb⟩ := h.holding k hheld
    obtain rfl := Option.some.inj (hk.symm.trans hb)
    rfl
  · have hover := List.filter_eq_nil_iff.mp hquiet k
      (List.mem_range.mpr (List.getElem?_eq_some_iff.mp hk).1)
    have hd : c.traffic.checkout k = d := by simp [Traffic.checkout, List.getD_eq_getElem?_getD, hk]
    rw [hd] at hover
    simp only [Checkout.isSettled, Bool.or_eq_true]
    exact Or.inr (by simpa [hheld] using hover)

/-! ## 4. Runs -/

theorem next_traffic {d : Deed} (h : c.next d = some c') :
    c'.traffic = c.traffic ∨ ∃ a, c.traffic.next a = some c'.traffic := by
  have hpass : ∀ {a}, c.pass a = some c' → ∃ a, c.traffic.next a = some c'.traffic := by
    intro a hstep
    obtain ⟨t, ht, rfl⟩ := Option.map_eq_some_iff.mp hstep
    exact ⟨a, ht⟩
  have hletGo : ∀ {i k heir}, c.letGo i k heir = some c' →
      ∃ a, c.traffic.next a = some c'.traffic := by
    intro i k heir hstep
    obtain ⟨t, ht, rfl⟩ := Option.map_eq_some_iff.mp hstep
    exact ⟨_, ht⟩
  have htakeOver : ∀ {handles target source},
      (⟨c.traffic, handles⟩ : Custody).takeOver target source = some c' →
        c'.traffic = c.traffic := by
    intro handles target source hstep
    unfold Custody.takeOver at hstep
    split at hstep
    · cases hstep
    · cases hstep
    · obtain rfl := Option.some.inj hstep
      rfl
  cases d with
  | acquire => exact Or.inr (hpass h)
  | advance k => exact Or.inr (hpass h)
  | falter k => exact Or.inr (hpass h)
  | interrupt => exact Or.inr (hpass h)
  | clearInterrupt => exact Or.inr (hpass h)
  | construct source => exact Or.inl (htakeOver h)
  | receive k =>
    simp only [Custody.next] at h
    split at h
    · split at h
      · cases h
      · obtain rfl := Option.some.inj h
        exact Or.inl rfl
    · cases h
  | release i =>
    simp only [Custody.next] at h
    split at h
    · exact Or.inr (hletGo h)
    · exact Or.inl (congrArg traffic (Option.some.inj h).symm)
    · cases h
  | assign target source =>
    simp only [Custody.next] at h
    split at h
    · exact Or.inl (congrArg traffic (Option.some.inj h).symm)
    · split at h
      · exact Or.inr (hletGo h)
      · exact Or.inl (htakeOver h)
      · cases h
  | finish i =>
    simp only [Custody.next] at h
    split at h
    · rename_i k heir hi
      split at h
      · cases heir with
        | none =>
          obtain rfl := Option.some.inj h
          exact Or.inl rfl
        | some source => exact Or.inl (htakeOver h)
      · cases h
    · cases h

/-- What holds of a pool in use, with all the counts that it had so far. -/
structure Sound (count : UInt32) (c : Custody) (past : List UInt32) : Prop where
  stocked : ∃ free, c.traffic.Stocked free
  marked : c.traffic.Marked past
  kept : c.Kept
  capacity_eq : c.traffic.pool.capacity = if count = 0 then 1 else count
  bounded : ∀ n ∈ past, n ≤ c.traffic.pool.capacity

variable {count : UInt32} {past : List UInt32}

/-- **A step keeps a pool sound.** -/
theorem Sound.next {d : Deed} (h : c.Sound count past) (hstep : c.next d = some c') :
    c'.Sound count (past ++ [c'.traffic.pool.outstanding]) := by
  obtain ⟨free, hstocked⟩ := h.stocked
  have hkept : c'.Kept := h.kept.next hstep
  obtain ⟨⟨free', hstocked'⟩, hmarked, hcapacity⟩ : (∃ free', c'.traffic.Stocked free') ∧
      c'.traffic.Marked (past ++ [c'.traffic.pool.outstanding]) ∧
      c'.traffic.pool.capacity = c.traffic.pool.capacity := by
    rcases next_traffic hstep with hsame | ⟨a, ha⟩
    · rw [hsame]
      exact ⟨⟨free, hstocked⟩, h.marked.again, rfl⟩
    · obtain ⟨hstocked', hcapacity⟩ := hstocked.next ha
      exact ⟨hstocked', h.marked.next hstocked ha, hcapacity⟩
  refine ⟨⟨free', hstocked'⟩, hmarked, hkept, hcapacity.trans h.capacity_eq, ?_⟩
  intro n hn
  rcases List.mem_append.mp hn with hn | hn
  · exact hcapacity ▸ h.bounded n hn
  · have hle := hstocked'.outstanding_le
    rw [List.mem_singleton.mp hn, UInt32.le_iff_toNat_le]
    omega

/-- **A run keeps a pool sound.** -/
theorem Sound.follow {deeds : List Deed} {counts : List UInt32} (h : c.Sound count past)
    (hrun : c.follow deeds = some (c', counts)) : c'.Sound count (past ++ counts) := by
  induction deeds generalizing c past counts with
  | nil =>
    obtain ⟨rfl, rfl⟩ := Prod.mk.inj (Option.some.inj hrun)
    simpa using h
  | cons d rest ih =>
    rw [Custody.follow] at hrun
    obtain ⟨c₁, hstep, hrest⟩ := Option.bind_eq_some_iff.mp hrun
    obtain ⟨⟨c₂, later⟩, hlater, hsame⟩ := Option.map_eq_some_iff.mp hrest
    obtain ⟨rfl, rfl⟩ := Prod.mk.inj hsame
    have hsound := ih (h.next hstep) hlater
    rwa [List.append_assoc] at hsound

theorem highWater_le_of_follow {deeds : List Deed} {counts : List UInt32}
    (hrun : c.follow deeds = some (c', counts)) :
    c.traffic.pool.highWater ≤ c'.traffic.pool.highWater := by
  induction deeds generalizing c counts with
  | nil =>
    obtain ⟨rfl, -⟩ := Prod.mk.inj (Option.some.inj hrun)
    exact UInt32.le_refl _
  | cons d rest ih =>
    rw [Custody.follow] at hrun
    obtain ⟨c₁, hstep, hrest⟩ := Option.bind_eq_some_iff.mp hrun
    obtain ⟨⟨c₂, later⟩, hlater, hsame⟩ := Option.map_eq_some_iff.mp hrest
    obtain ⟨rfl, -⟩ := Prod.mk.inj hsame
    refine UInt32.le_trans ?_ (ih hlater)
    rcases next_traffic hstep with hsame | ⟨a, ha⟩
    · rw [hsame]
      exact UInt32.le_refl _
    · exact Traffic.highWater_le_of_next ha

theorem sound_create (bufferSize : UInt64) (h : count.toNat ≤ Ring.widest) :
    (create count bufferSize).Sound count [0] where
  stocked := Traffic.stocked_create bufferSize h
  marked := Traffic.marked_create count bufferSize
  kept := ⟨List.nodup_nil, fun k hk => by cases hk⟩
  capacity_eq := capacity_create_eq bufferSize h
  bounded := fun n hn => List.mem_singleton.mp hn ▸ UInt32.zero_le

/-- **Every buffer has one place.**  In any state that a pool in use comes to, every buffer is free,
behind one handle, or with one call that is going on.  A buffer that is put back finds room at once,
also while the pool is interrupted, and a count that goes down was positive.  The count is at most the
number of buffers that are not free; the mark is at most the number of buffers, and no run lowers it.
When no call is going on, the count and the free buffers add up, and the mark is the largest count
there was.

A step takes one buffer from one of the three places to another. A buffer leaves the free ones
before it is counted and is uncounted before it comes back; that is why the count is a lower bound
while calls go on, and why there is room. -/
theorem every_buffer_has_one_place {bufferSize : UInt64} {deeds : List Deed}
    {counts : List UInt32} (hcount : count.toNat ≤ Ring.widest)
    (hrun : (create count bufferSize).follow deeds = some (c, counts)) :
    (c.traffic.pool.free.toList ++ c.held.filterMap c.bufferOf ++ c.onTheWay.filterMap c.bufferOf
      ~ List.range c.traffic.pool.capacity.toNat) ∧
    c.traffic.pool.capacity = (if count = 0 then 1 else count) ∧
    c.held.Nodup ∧
    (∀ k ∈ c.held, ∃ b, c.traffic.checkouts[k]? = some (.holding b)) ∧
    (∀ (i b : Nat), c.traffic.checkouts[i]? = some (.returning b) →
      ∃ p, c.traffic.pool.putFree b = .gives p) ∧
    (∀ (i b : Nat), c.traffic.checkouts[i]? = some (.uncounting b) →
      c.traffic.pool.countIn.outstanding.toNat + 1 = c.traffic.pool.outstanding.toNat) ∧
    c.traffic.pool.outstanding ≤ c.traffic.pool.capacity - c.traffic.pool.available ∧
    c.traffic.pool.highWater ≤ c.traffic.pool.capacity ∧
    (∀ later c' counts', c.follow later = some (c', counts') →
      c.traffic.pool.highWater ≤ c'.traffic.pool.highWater) ∧
    (c.onTheWay = [] →
      c.traffic.pool.outstanding + c.traffic.pool.available = c.traffic.pool.capacity ∧
      c.traffic.pool.highWater ∈ 0 :: counts ∧
      ∀ n ∈ 0 :: counts, n ≤ c.traffic.pool.highWater) := by
  have hsound : c.Sound count (0 :: counts) := (sound_create bufferSize hcount).follow hrun
  obtain ⟨free, hstocked⟩ := hsound.stocked
  have hfree : c.traffic.pool.free.toList = free := Ring.Holds.toList_eq hstocked.holds
  have hle := hstocked.outstanding_le
  have havailable : c.traffic.pool.available.toNat ≤ c.traffic.pool.capacity.toNat := by omega
  refine ⟨?_, hsound.capacity_eq, hsound.kept.nodup, hsound.kept.holding, ?_, ?_, ?_,
    hsound.bounded _ hsound.marked.mark_mem, fun _ _ _ => highWater_le_of_follow, ?_⟩
  · rw [hfree, List.append_assoc]
    exact (hsound.kept.buffers.symm.append_left free).trans hstocked.buffers
  · intro i b hi
    exact ⟨_, hstocked.putFree hi rfl b⟩
  · intro i b hi
    have hpos := hstocked.count_pos hi rfl
    rw [Traffic.toNat_countIn hpos]
    exact Nat.sub_add_cancel hpos
  · rw [UInt32.le_iff_toNat_le, UInt32.toNat_sub_of_le _ _ (UInt32.le_iff_toNat_le.mpr havailable)]
    omega
  · intro hquiet
    have hsettled := hsound.kept.settled hquiet
    have hsum := hstocked.adds_up hsettled
    refine ⟨?_, hsound.marked.is_largest fun d hd =>
      (Checkout.isCounted_of_isSettled (hsettled d hd)).2⟩
    apply UInt32.toNat_inj.mp
    rw [UInt32.toNat_add, hsum]
    exact Nat.mod_eq_of_lt c.traffic.pool.capacity.toNat_lt

/-- Two calls race for the mark, and a third one is turned away when the pool is interrupted.  Then
one handle takes over from the other, and the buffer that it had before comes back. -/
def raceRun : List Deed :=
  [.acquire, .acquire, .advance 0, .advance 1, .advance 0, .advance 1, .advance 1, .advance 0,
    .advance 1, .advance 0, .advance 0, .receive 0, .receive 1, .acquire, .interrupt, .advance 2,
    .assign 0 1, .advance 0, .advance 0, .finish 0]

theorem every_buffer_has_one_place_race :
    ∃ c counts, (create 2 16).follow raceRun = some (c, counts) ∧
      c.handles = [.holds 1, .empty] ∧ c.traffic.pool.free.toList = [0] ∧
      (c.traffic.pool.free.toList ++ c.held.filterMap c.bufferOf
        ++ c.onTheWay.filterMap c.bufferOf ~ List.range c.traffic.pool.capacity.toNat) ∧
      c.traffic.pool.outstanding + c.traffic.pool.available = c.traffic.pool.capacity ∧
      c.traffic.pool.highWater = 2 ∧ ∀ n ∈ 0 :: counts, n ≤ c.traffic.pool.highWater := by
  have hruns : ((create 2 16).follow raceRun).any (fun r =>
      r.1.handles = [.holds 1, .empty] ∧ r.1.traffic.pool.free.toList = [0] ∧
        r.1.traffic.pool.highWater = 2 ∧ r.1.onTheWay = []) = true := by
    decide +kernel
  obtain ⟨⟨c, counts⟩, hrun, hends⟩ := (Option.any_eq_true _ _).mp hruns
  obtain ⟨hhandles, hfree, hmark, hquiet⟩ := of_decide_eq_true hends
  obtain ⟨hplaces, -, -, -, -, -, -, -, -, hrest⟩ := every_buffer_has_one_place (by decide) hrun
  obtain ⟨hsum, -, hlargest⟩ := hrest hquiet
  exact ⟨c, counts, hrun, hhandles, hfree, hplaces, hsum, hmark, hlargest⟩

end Custody

end Intake.Pool
