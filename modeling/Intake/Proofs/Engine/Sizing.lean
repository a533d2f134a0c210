/-
# How many buffers there are for the workers

An engine has two more buffers than workers.  The number of buffers (`BufferCount`) is worked out in
words of 32 bits, and `ValidateIngestOptions` does not look at how many workers there are beyond
that there are some: with one of the two largest numbers the sum wraps, and the engine comes to have
one buffer (`buffers_for_workers_iff`).  Settings cannot ask for so many workers, as they are read
as numbers of 31 bits; they can leave them as they are.

The threshold is worked out in words of 64 bits.  There a number of 32 bits has room for its
megabytes (`toNat_threshold`).
-/
import Mathlib
import Intake.Proofs.Config.Overlaying
import Intake.Proofs.Engine.Contract

namespace Intake

/-! ## 1. New pools -/

namespace Pool

/-- Stocking a channel with no more items than it has room for counts them all.  It does not matter
here whether slot numbers can tell them apart. -/
theorem count_stock {c : Channel Nat} (ys : List Nat) (hopen : c.closed = false)
    (hroom : c.ring.count.toNat + ys.length ≤ c.ring.capacity.toNat) :
    (stock c ys).ring.capacity = c.ring.capacity ∧
      (stock c ys).ring.count.toNat = c.ring.count.toNat + ys.length := by
  induction ys generalizing c with
  | nil => exact ⟨rfl, rfl⟩
  | cons y ys ih =>
    rw [List.length_cons] at hroom ⊢
    have hless : c.ring.count.toNat < c.ring.capacity.toNat := by omega
    have hpushed : (c.ring.push y).capacity = c.ring.capacity := rfl
    have hcount : (c.ring.push y).count.toNat = c.ring.count.toNat + 1 :=
      Ring.toNat_count_push hless y
    have hstep : stock c (y :: ys) = stock { c with ring := c.ring.push y } ys := by
      simp only [stock, List.foldl_cons, Channel.put_of_room hless hopen]
    have hmore : (c.ring.push y).count.toNat + ys.length ≤ (c.ring.push y).capacity.toNat := by
      rw [hpushed]
      omega
    obtain ⟨hcapacity, hsize⟩ := ih (c := { c with ring := c.ring.push y }) hopen hmore
    rw [hstep, hcapacity, hsize, hcount, Nat.add_assoc, Nat.add_comm 1]
    exact ⟨hpushed, rfl⟩

/-- **A new pool has as many buffers as it was asked for**, and at least one, all of them free. -/
theorem create_full (count : UInt32) (bufferSize : UInt64) :
    (create count bufferSize).capacity = (if count = 0 then 1 else count) ∧
      (create count bufferSize).available = (create count bufferSize).capacity := by
  have hroom : (Ring.create count : Ring Nat).count.toNat
      + (List.range (Ring.create count : Ring Nat).capacity.toNat).length
        ≤ (Ring.create count : Ring Nat).capacity.toNat := by
    rw [List.length_range]
    exact Nat.le_of_eq (Nat.zero_add _)
  obtain ⟨hcapacity, hcount⟩ := count_stock (c := .create count) _ rfl hroom
  refine ⟨hcapacity, UInt32.toNat_inj.mp ?_⟩
  rw [List.length_range] at hcount
  exact (hcount.trans (Nat.zero_add _)).trans (congrArg UInt32.toNat hcapacity.symm)

end Pool

namespace Options

variable {o base : Options} {s : Settings} {log : Log}

/-! ## 2. Workers and buffers -/

/-- The most workers for which there is a number of 32 bits that is larger by two. -/
def mostWorkers : Nat := 4294967293

theorem toNat_bufferCount (o : Options) :
    o.bufferCount.toNat = (o.workerCount.toNat + 2) % 4294967296 :=
  UInt32.toNat_add _ _

/-- The number of buffers is right for every number of workers but the two largest. -/
theorem bufferCount_exact_iff :
    o.bufferCount.toNat = o.workerCount.toNat + 2 ↔ o.workerCount.toNat ≤ mostWorkers := by
  have hlt := o.workerCount.toNat_lt
  rw [toNat_bufferCount, mostWorkers]
  omega

theorem capacity_ofOptions (host : Host) (o : Options) :
    (Engine.ofOptions host o).staging.pool.capacity.toNat
      = if o.workerCount.toNat ≤ mostWorkers then o.workerCount.toNat + 2 else 1 := by
  have hcapacity : (Engine.ofOptions host o).staging.pool.capacity
      = if o.bufferCount = 0 then 1 else o.bufferCount := (Pool.create_full ..).1
  have hlt := o.workerCount.toNat_lt
  have hcount := toNat_bufferCount o
  rw [hcapacity, mostWorkers]
  by_cases hzero : o.bufferCount = 0
  · rw [hzero, UInt32.toNat_zero] at hcount
    rw [if_pos hzero, if_neg (by omega)]
    rfl
  · have hpos : o.bufferCount.toNat ≠ 0 := fun h => hzero (UInt32.toNat_inj.mp h)
    rw [if_neg hzero, hcount]
    split_ifs <;> omega

/-- **The threshold is exact**: the number of bytes, or of megabytes in bytes. -/
theorem toNat_threshold (o : Options) :
    o.threshold.toNat
      = if o.thresholdExact = 0 then o.thresholdMb.toNat * 2 ^ 20 else o.thresholdExact.toNat := by
  have hlt := o.thresholdMb.toNat_lt
  unfold threshold
  by_cases hexact : o.thresholdExact = 0
  · rw [if_pos hexact, if_neg (not_not.mpr hexact)]
    have hproduct : (o.thresholdMb.toUInt64 * megabyte).toNat
        = o.thresholdMb.toNat * 1048576 % 18446744073709551616 := UInt64.toNat_mul _ _
    exact hproduct.trans (Nat.mod_eq_of_lt (by omega))
  · rw [if_neg hexact, if_pos hexact]

/-! ## 3. Where options come from -/

theorem validate_ok_iff : (validate o log).1 = .ok () ↔ o.Valid := by
  unfold validate Valid
  cases o.fault? <;> simp

theorem valid_of_workers {n : UInt32} (h : o.Valid) (hn : n ≠ 0) :
    Valid { o with workerCount := n } :=
  (valid_iff _).mpr ⟨hn, ((valid_iff o).mp h).2⟩

/-- Settings that name a number of workers name one with room for two more; others leave it to the
base. -/
theorem workers_of_load (h : (load s base log).1 = .ok o) :
    o.workerCount.toNat ≤ mostWorkers ↔
      s.hasKey group workersKey = true ∨ base.workerCount.toNat ≤ mostWorkers := by
  obtain ⟨hoverlaid, -⟩ := overlay_ok_iff.mp ((load_ok_iff log).mp h)
  have hcount := hoverlaid.workerCount
  unfold Counts at hcount
  by_cases hkey : s.hasKey group workersKey = true
  · rw [if_pos hkey] at hcount
    have hle := le_largestCount_of_findInt hcount
    rw [largestCount] at hle
    have hmost : o.workerCount.toNat ≤ mostWorkers := by
      rw [mostWorkers]
      omega
    exact iff_of_true hmost (.inl hkey)
  · rw [if_neg hkey] at hcount
    rw [hcount, or_iff_right hkey]

/-- **There are two more buffers than workers, unless the sum wraps.**  Valid options stay valid with
whatever number of workers but none.  The number of buffers is larger by two, and the pool of an engine
that is made has as many buffers free, if and only if the number of workers is neither of the two
largest ones; that is so for options that settings have named the number in, and for others if it is
so for their base.  A buffer has the size of the threshold, which is what was asked for in bytes or
in megabytes, without exception.

The number of buffers is a sum of two words that wraps exactly for the two largest numbers of
workers, and then gives zero or one, each of which makes a pool of one buffer. -/
theorem buffers_for_workers_iff (o : Options) (log : Log) :
    ((validate o log).1 = .ok () →
      ∀ n ≠ 0, (validate { o with workerCount := n } log).1 = .ok ()) ∧
    (o.bufferCount.toNat = o.workerCount.toNat + 2 ↔ o.workerCount.toNat ≤ mostWorkers) ∧
    (∀ host c e, (Engine.create host o c).result = .ok e →
      (validate o log).1 = .ok () ∧
      (o.workerCount.toNat + 2 ≤ e.staging.pool.capacity.toNat ↔
        o.workerCount.toNat ≤ mostWorkers) ∧
      e.staging.pool.available = e.staging.pool.capacity ∧
      e.staging.pool.bufferSize = o.threshold) ∧
    (∀ s base, (load s base log).1 = .ok o →
      (validate o log).1 = .ok () ∧
      (o.workerCount.toNat ≤ mostWorkers ↔
        s.hasKey group workersKey = true ∨ base.workerCount.toNat ≤ mostWorkers)) ∧
    o.threshold.toNat
      = if o.thresholdExact = 0 then o.thresholdMb.toNat * 2 ^ 20 else o.thresholdExact.toNat := by
  refine ⟨fun hvalid n hn => ?_, bufferCount_exact_iff, fun host c e hmade => ?_,
    fun s base hload => ⟨?_, workers_of_load hload⟩, toNat_threshold o⟩
  · exact validate_ok_iff.mpr (valid_of_workers (validate_ok_iff.mp hvalid) hn)
  · obtain ⟨hvalid, rfl⟩ := Engine.of_create hmade
    refine ⟨validate_ok_iff.mpr hvalid, ?_, (Pool.create_full ..).2, rfl⟩
    rw [capacity_ofOptions]
    split_ifs with hmost
    · exact iff_of_true (Nat.le_refl _) hmost
    · exact iff_of_false (by omega) hmost
  · exact validate_ok_iff.mpr (overlay_ok_iff.mp ((load_ok_iff log).mp hload)).2

/-- The most workers with two more buffers, and the gigabytes of a threshold that no word of 32 bits
could hold. -/
def largestCrew : Options := { workerCount := 4294967293, thresholdMb := 4096 }

/-- Every collaborator, and a classifier that takes every model. -/
def everyCollaborator : Collaborators := ⟨true, true, true, fun _ => true⟩

/-- The engine that is made has its buffers, and the threshold is exact. -/
theorem buffers_for_largest_crew :
    (validate largestCrew .empty).1 = .ok () ∧
      largestCrew.bufferCount.toNat = largestCrew.workerCount.toNat + 2 ∧
      (∃ e, (Engine.create .empty largestCrew everyCollaborator).result = .ok e ∧
        largestCrew.workerCount.toNat + 2 ≤ e.staging.pool.capacity.toNat) ∧
      largestCrew.threshold.toNat = 4096 * 2 ^ 20 := by
  obtain ⟨-, hcount, hmade, -, hthreshold⟩ := buffers_for_workers_iff largestCrew .empty
  obtain ⟨hvalid, hpool, -⟩ := hmade .empty everyCollaborator _ rfl
  exact ⟨hvalid, hcount.mpr (Nat.le_refl _), ⟨_, rfl, hpool.mpr (Nat.le_refl _)⟩, hthreshold⟩

/-- The default options with as many workers as a word can say. -/
def everyWorker : Options := { workerCount := 4294967295 }

/-- They are valid, and empty settings leave them as they are; but the engine that is made has one
buffer. -/
theorem one_buffer_for_every_worker :
    (validate everyWorker .empty).1 = .ok () ∧
      (load .empty everyWorker .empty).1 = .ok everyWorker ∧
      everyWorker.bufferCount.toNat = 1 ∧
      everyWorker.bufferCount.toNat ≠ everyWorker.workerCount.toNat + 2 ∧
      ∃ e, (Engine.create .empty everyWorker everyCollaborator).result = .ok e ∧
        e.staging.pool.capacity.toNat = 1 :=
  ⟨by decide, by decide, by decide, by decide, _, rfl, by decide⟩

end Options

end Intake
