/-
# A line for each gigabyte

Whoever reads a stream counts what he has taken in an `IngestProgress`: stream bytes, content bytes,
records (`Count`).  When the stream bytes pass a multiple of a gigabyte (`Passes`), the log gets a
line with the counters as they stand then, and one line only, however many multiples are passed at
once (`Account.log_add`).  So no two lines tell of the same gigabyte, the last line tells of the one
that was reached last, and there are never more lines than full gigabytes (`Account.Told`, which
every count keeps).  Gigabytes without a line of their own are those that a larger count has
skipped.

**That describes the log after any counts, as long as the log keeps such lines and the bytes fit
into a word** (`lines_at_gigabytes`).
-/
import Mathlib
import Intake.Log
import Intake.Progress

namespace Intake

namespace Progress

/-- What is counted at a time. -/
inductive Count where
  | stream (n : UInt64)
  | content (n : UInt64)
  | file
  deriving DecidableEq, Repr

namespace Count

/-- The stream bytes that are counted. -/
def bytes : Count → Nat
  | stream n | content n => n.toNat
  | file => 0

/-- The content bytes among them. -/
def contentBytes : Count → Nat
  | content n => n.toNat
  | stream _ | file => 0

theorem contentBytes_le_bytes (c : Count) : c.contentBytes ≤ c.bytes := by
  cases c <;> simp [contentBytes, bytes]

end Count

/-- All stream bytes that are counted. -/
def totalBytes (counts : List Count) : Nat := (counts.map Count.bytes).sum

/-- All content bytes that are counted. -/
def totalContent (counts : List Count) : Nat := (counts.map Count.contentBytes).sum

/-- Counts, and makes the line that is due. -/
def add (p : Progress) : Count → Progress × Option Event
  | .stream n => p.addStream n
  | .content n => p.addContent n
  | .file => (p.addFile, none)

theorem totalBytes_append (counts counts' : List Count) :
    totalBytes (counts ++ counts') = totalBytes counts + totalBytes counts' := by
  simp [totalBytes]

theorem totalBytes_concat (counts : List Count) (c : Count) :
    totalBytes (counts ++ [c]) = totalBytes counts + c.bytes := by
  simp [totalBytes]

theorem totalContent_concat (counts : List Count) (c : Count) :
    totalContent (counts ++ [c]) = totalContent counts + c.contentBytes := by
  simp [totalContent]

theorem totalContent_le_totalBytes (counts : List Count) :
    totalContent counts ≤ totalBytes counts :=
  List.sum_le_sum fun c _ => c.contentBytes_le_bytes

/-! ## 1. Gigabytes -/

/-- The bytes between two occasions for a line. -/
def gigabyte : Nat := 1073741824

/-- The full gigabytes that have been read. -/
def gigabytes (p : Progress) : Nat := p.bytes.toNat / gigabyte

/-- On the way from `a` to `b` there is a multiple of a gigabyte, which may be `b`. -/
def Passes (a b : Nat) : Prop := ∃ k, a < k * gigabyte ∧ k * gigabyte ≤ b

theorem passes_iff {a b : Nat} : Passes a b ↔ a / gigabyte < b / gigabyte := by
  have hpos : 0 < gigabyte := by decide
  constructor
  · rintro ⟨k, hbehind, hahead⟩
    calc
      a / gigabyte < k := (Nat.div_lt_iff_lt_mul hpos).mpr hbehind
      _ ≤ b / gigabyte := (Nat.le_div_iff_mul_le hpos).mpr hahead
  · intro h
    exact ⟨b / gigabyte, (Nat.div_lt_iff_lt_mul hpos).mp h, Nat.div_mul_le_self b gigabyte⟩

instance (a b : Nat) : Decidable (Passes a b) := decidable_of_iff _ passes_iff.symm

theorem div_gigabyte_add_le (a : Nat) {n : Nat} (h : n ≤ gigabyte) :
    (a + n) / gigabyte ≤ a / gigabyte + 1 :=
  calc
    (a + n) / gigabyte ≤ (a + gigabyte) / gigabyte := Nat.div_le_div_right (by omega)
    _ = a / gigabyte + 1 := Nat.add_div_right a (by decide)

/-! ## 2. One count -/

section Add

variable {p : Progress} {c : Count}

theorem toNat_add_of_fits {m n : UInt64} (hfits : m.toNat + n.toNat < UInt64.size) :
    (m + n).toNat = m.toNat + n.toNat := by
  rw [UInt64.toNat_add]
  exact Nat.mod_eq_of_lt hfits

theorem toNat_div_interval (n : UInt64) : (n / interval).toNat = n.toNat / gigabyte := by
  rw [UInt64.toNat_div]
  rfl

theorem bytes_add (hfits : p.bytes.toNat + c.bytes < UInt64.size) :
    (p.add c).1.bytes.toNat = p.bytes.toNat + c.bytes := by
  cases c with
  | stream n | content n => exact toNat_add_of_fits hfits
  | file => rfl

theorem fileBytes_add (hfits : p.fileBytes.toNat + c.contentBytes < UInt64.size) :
    (p.add c).1.fileBytes.toNat = p.fileBytes.toNat + c.contentBytes := by
  cases c with
  | content n => exact toNat_add_of_fits hfits
  | stream n | file => rfl

theorem line_addStream {n : UInt64} (hfits : p.bytes.toNat + n.toNat < UInt64.size) :
    (p.addStream n).2 = if Passes p.bytes.toNat (p.addStream n).1.bytes.toNat
      then some (p.addStream n).1.event else none := by
  have hbytes : (p.bytes + n).toNat = p.bytes.toNat + n.toNat := toNat_add_of_fits hfits
  have hgrows : p.bytes.toNat / gigabyte ≤ (p.bytes + n).toNat / gigabyte := by
    rw [hbytes]
    exact Nat.div_le_div_right (Nat.le_add_right _ _)
  have hmoved : p.bytes / interval ≠ (p.bytes + n) / interval ↔
      Passes p.bytes.toNat (p.bytes + n).toNat := by
    rw [ne_eq, ← UInt64.toNat_inj, toNat_div_interval, toNat_div_interval, passes_iff]
    omega
  exact if_congr hmoved rfl rfl

/-- A count makes a line exactly if it passes a multiple; the line tells the counters as they stand
then. -/
theorem line_add (hfits : p.bytes.toNat + c.bytes < UInt64.size) :
    (p.add c).2 = if Passes p.bytes.toNat (p.add c).1.bytes.toNat
      then some (p.add c).1.event else none := by
  cases c with
  | stream n => exact line_addStream hfits
  | content n => exact line_addStream (p := { p with fileBytes := p.fileBytes + n }) hfits
  | file =>
    have hstays : ¬ Passes p.bytes.toNat p.bytes.toNat := fun h => lt_irrefl _ (passes_iff.mp h)
    exact (if_neg hstays).symm

end Add

/-! ## 3. The log -/

/-- The counters, and the log to which their lines go. -/
structure Account where
  progress : Progress
  log : Log
  deriving DecidableEq, Repr

namespace Account

/-- Nothing is counted yet. -/
def opened (log : Log) : Account := ⟨zero, log⟩

/-- Counts, and writes the line that is due. -/
def add (a : Account) (c : Count) : Account :=
  let r := a.progress.add c
  ⟨r.1, a.log.recordAll r.2.toList⟩

/-- Counts one after the other. -/
def addAll (a : Account) (counts : List Count) : Account := counts.foldl add a

/-- What was counted from the start. -/
def counted (log : Log) (counts : List Count) : Account := (opened log).addAll counts

theorem addAll_append (a : Account) (counts counts' : List Count) :
    a.addAll (counts ++ counts') = (a.addAll counts).addAll counts' :=
  List.foldl_append

theorem counted_concat (log : Log) (counts : List Count) (c : Count) :
    counted log (counts ++ [c]) = (counted log counts).add c :=
  addAll_append ..

theorem progress_add (a : Account) (c : Count) : (a.add c).progress = (a.progress.add c).1 := rfl

theorem log_eq (a : Account) (c : Count) :
    (a.add c).log = a.log.recordAll (a.progress.add c).2.toList := rfl

variable {log : Log} {a : Account} {c : Count} {reports : List Progress} {counts : List Count}

/-- **One count adds one line or none** to a log that keeps such lines. -/
theorem log_add (hinfo : a.log.level.rank ≤ Level.info.rank)
    (hfits : a.progress.bytes.toNat + c.bytes < UInt64.size) :
    (a.add c).log = { a.log with events := (a.log.events ++
      if Passes a.progress.bytes.toNat (a.add c).progress.bytes.toNat
        then [(a.add c).progress.event] else []) } := by
  rw [log_eq, progress_add, line_add hfits]
  split
  · have hkept : ¬ (a.progress.add c).1.event.level.rank < a.log.level.rank := UInt8.not_lt.mpr hinfo
    exact Log.record_of_ge hkept
  · rw [List.append_nil]
    rfl

/-! ## 4. Any counts -/

/-- What the log tells in its new lines: `reports` are the counters that they show, line by line. -/
structure Told (a : Account) (log : Log) (reports : List Progress) : Prop where
  log : a.log = { log with events := log.events ++ reports.map Progress.event }
  /-- Each line tells of a later gigabyte than the one before. -/
  increasing : reports.Pairwise fun r r' => r.gigabytes < r'.gigabytes
  /-- The last line tells of the gigabyte that was reached last. -/
  latest : (reports = [] ∧ a.progress.bytes.toNat < gigabyte) ∨
    ∃ r, reports.getLast? = some r ∧ r.gigabytes = a.progress.gigabytes
  few : reports.length ≤ a.progress.gigabytes

theorem told_opened (log : Log) : (opened log).Told log [] where
  log := by rw [List.map_nil, List.append_nil]; rfl
  increasing := .nil
  latest := .inl ⟨rfl, Nat.zero_lt_succ _⟩
  few := Nat.zero_le _

/-- No line tells of more than has been read. -/
theorem Told.reached (h : a.Told log reports) : ∀ r ∈ reports, r.gigabytes ≤ a.progress.gigabytes := by
  intro r hr
  rcases h.latest with ⟨rfl, -⟩ | ⟨last, hlast, hnow⟩
  · cases hr
  · obtain ⟨front, rfl⟩ := List.getLast?_eq_some_iff.mp hlast
    rw [← hnow]
    rcases List.mem_append.mp hr with hfront | hend
    · exact ((List.pairwise_append.mp h.increasing).2.2 r hfront last (List.mem_singleton_self _)).le
    · rw [List.mem_singleton.mp hend]

theorem Told.concat {a' : Account} (h : a.Told log reports)
    (hlog : a'.log = { a.log with events := a.log.events ++ [a'.progress.event] })
    (hmore : a.progress.gigabytes < a'.progress.gigabytes) :
    a'.Told log (reports ++ [a'.progress]) where
  log := by
    rw [hlog, h.log, List.map_append, List.append_assoc]
    rfl
  increasing := by
    refine List.pairwise_append.mpr ⟨h.increasing, List.pairwise_singleton _ _, ?_⟩
    intro r hr r' hr'
    rw [List.mem_singleton.mp hr']
    exact (h.reached r hr).trans_lt hmore
  latest := .inr ⟨a'.progress, List.getLast?_concat, rfl⟩
  few := by
    have hfew := h.few
    rw [List.length_append, List.length_singleton]
    omega

theorem Told.same {a' : Account} (h : a.Told log reports) (hlog : a'.log = a.log)
    (hsame : a'.progress.gigabytes = a.progress.gigabytes) : a'.Told log reports where
  log := hlog.trans h.log
  increasing := h.increasing
  latest := by
    refine h.latest.imp ?_ ?_
    · rintro ⟨hnone, hless⟩
      have hzero : a'.progress.gigabytes = 0 := hsame.trans (Nat.div_eq_of_lt hless)
      exact ⟨hnone, Nat.lt_of_div_eq_zero (by decide) hzero⟩
    · rintro ⟨r, hlast, hnow⟩
      exact ⟨r, hlast, hnow.trans hsame.symm⟩
  few := h.few.trans_eq hsame.symm

/-- **Every count keeps the log in step with the bytes.** -/
theorem Told.add (h : a.Told log reports) (hinfo : log.level.rank ≤ Level.info.rank)
    (hfits : a.progress.bytes.toNat + c.bytes < UInt64.size) :
    ∃ more, (a.add c).Told log (reports ++ more) ∧
      (c.bytes ≤ gigabyte → reports.length = a.progress.gigabytes →
        (reports ++ more).length = (a.add c).progress.gigabytes) := by
  have hlog := log_add (a := a) (c := c) (by rw [h.log]; exact hinfo) hfits
  have hbytes : (a.add c).progress.bytes.toNat = a.progress.bytes.toNat + c.bytes := bytes_add hfits
  have hgrows : a.progress.gigabytes ≤ (a.add c).progress.gigabytes := by
    rw [gigabytes, gigabytes, hbytes]
    exact Nat.div_le_div_right (Nat.le_add_right _ _)
  by_cases hpasses : Passes a.progress.bytes.toNat (a.add c).progress.bytes.toNat
  · have hmore : a.progress.gigabytes < (a.add c).progress.gigabytes := passes_iff.mp hpasses
    rw [if_pos hpasses] at hlog
    refine ⟨[(a.add c).progress], h.concat hlog hmore, ?_⟩
    intro hsmall hall
    have hone : (a.add c).progress.gigabytes ≤ a.progress.gigabytes + 1 := by
      rw [gigabytes, gigabytes, hbytes]
      exact div_gigabyte_add_le _ hsmall
    rw [List.length_append, List.length_singleton]
    omega
  · have hsame : (a.add c).progress.gigabytes = a.progress.gigabytes :=
      le_antisymm (not_lt.mp fun hmore => hpasses (passes_iff.mpr hmore)) hgrows
    rw [if_neg hpasses, List.append_nil] at hlog
    refine ⟨[], ?_, ?_⟩
    · rw [List.append_nil]
      exact h.same hlog hsame
    · intro _ hall
      rw [List.append_nil, hall, hsame]

theorem totals_counted (log : Log) (hfits : totalBytes counts < UInt64.size) :
    (counted log counts).progress.bytes.toNat = totalBytes counts ∧
      (counted log counts).progress.fileBytes.toNat = totalContent counts := by
  induction counts using List.reverseRecOn with
  | nil => exact ⟨rfl, rfl⟩
  | append_singleton counts c ih =>
    rw [totalBytes_concat] at hfits
    obtain ⟨hbytes, hcontent⟩ := ih (by omega)
    have hless := totalContent_le_totalBytes counts
    have hcless := c.contentBytes_le_bytes
    rw [counted_concat, totalBytes_concat, totalContent_concat, ← hbytes, ← hcontent]
    exact ⟨bytes_add (by omega), fileBytes_add (by omega)⟩

/-- **Whatever is counted, the log is in step with the bytes.** -/
theorem told_counted (hinfo : log.level.rank ≤ Level.info.rank)
    (hfits : totalBytes counts < UInt64.size) :
    ∃ reports, (counted log counts).Told log reports ∧
      ((∀ c ∈ counts, c.bytes ≤ gigabyte) →
        reports.length = (counted log counts).progress.gigabytes) := by
  induction counts using List.reverseRecOn with
  | nil => exact ⟨[], told_opened log, fun _ => (Nat.zero_div gigabyte).symm⟩
  | append_singleton counts c ih =>
    rw [totalBytes_concat] at hfits
    have hbefore : totalBytes counts < UInt64.size := by omega
    obtain ⟨reports, htold, hall⟩ := ih hbefore
    rw [← (totals_counted log hbefore).1] at hfits
    obtain ⟨more, hmore, hone⟩ := htold.add hinfo hfits
    rw [counted_concat]
    refine ⟨reports ++ more, hmore, ?_⟩
    intro hsmall
    refine hone (hsmall c (by simp)) (hall ?_)
    intro c' hc'
    exact hsmall c' (List.mem_append_left _ hc')

theorem log_counted_concat (hinfo : log.level.rank ≤ Level.info.rank)
    (hfits : totalBytes (counts ++ [c]) < UInt64.size) :
    (counted log (counts ++ [c])).log = { (counted log counts).log with
      events := ((counted log counts).log.events ++
        if Passes (totalBytes counts) (totalBytes (counts ++ [c]))
          then [(counted log (counts ++ [c])).progress.event] else []) } := by
  have hbefore : totalBytes counts < UInt64.size := by
    rw [totalBytes_concat] at hfits
    omega
  obtain ⟨reports, htold, -⟩ := told_counted hinfo hbefore
  have hbytes := (totals_counted log hbefore).1
  have hlevel : (counted log counts).log.level.rank ≤ Level.info.rank := by
    rw [htold.log]
    exact hinfo
  rw [← (totals_counted log hfits).1, ← hbytes, counted_concat]
  refine log_add hlevel ?_
  rw [hbytes, ← totalBytes_concat]
  exact hfits

/-- **Lines follow the gigabytes.**  In a log that keeps such lines, a count makes one line if it
passes a multiple of a gigabyte, with the counters as they stand then, and no line otherwise.  The
lines tell of later and later gigabytes, the last of the one that was reached last; they are no more
than the full gigabytes, and as many if nothing larger than a gigabyte is counted at a time.  The
counters hold all stream bytes and all content bytes, which are among them.

A count compares the gigabytes before and after itself. As the bytes only grow and do not wrap, a
gigabyte lies between the two for one count at most, and a count of one gigabyte or less has no room
for two. -/
theorem lines_at_gigabytes (log : Log) (counts : List Count)
    (hinfo : log.level.rank ≤ Level.info.rank) (hfits : totalBytes counts < UInt64.size) :
    (∀ before c, before ++ [c] <+: counts →
      (counted log (before ++ [c])).log = { (counted log before).log with
        events := ((counted log before).log.events ++
          if Passes (totalBytes before) (totalBytes (before ++ [c]))
            then [(counted log (before ++ [c])).progress.event] else []) }) ∧
    (∃ reports, (counted log counts).Told log reports ∧
      ((∀ c ∈ counts, c.bytes ≤ gigabyte) →
        reports.length = (counted log counts).progress.gigabytes)) ∧
    (counted log counts).progress.bytes.toNat = totalBytes counts ∧
    (counted log counts).progress.fileBytes.toNat = totalContent counts ∧
    totalContent counts ≤ totalBytes counts := by
  obtain ⟨hbytes, hcontent⟩ := totals_counted log hfits
  refine ⟨?_, told_counted hinfo hfits, hbytes, hcontent, totalContent_le_totalBytes counts⟩
  rintro before c ⟨rest, rfl⟩
  refine log_counted_concat hinfo ?_
  rw [totalBytes_append] at hfits
  omega

/-- One count ends the first gigabyte, and another the second and the third. -/
def uneven : List Count := [.stream 1073741823, .content 1, .file, .content 2147483648, .stream 0]

theorem two_lines_in_three_gigabytes :
    (counted .empty uneven).log.events
        = [.progress 1073741824 1 0, .progress 3221225472 2147483649 1] ∧
      (counted .empty uneven).progress.bytes.toNat = totalBytes uneven ∧
      ∃ reports, (counted .empty uneven).Told .empty reports ∧ reports.length = 2 := by
  have hlines : (counted .empty uneven).log.events
      = [.progress 1073741824 1 0, .progress 3221225472 2147483649 1] := by decide
  obtain ⟨-, ⟨reports, htold, -⟩, hbytes, -⟩ :=
    lines_at_gigabytes .empty uneven (by decide) (by decide)
  refine ⟨hlines, hbytes, reports, htold, ?_⟩
  rw [htold.log] at hlines
  have hlength := congrArg List.length hlines
  simpa [Log.empty] using hlength

end Account

end Progress

end Intake
