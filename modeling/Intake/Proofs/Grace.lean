/-
# Grace periods

A wait that began at some time is over when the clock has come to its deadline (`overdue`).  The
deadline is worked out in signed words of 64 bits, so that it is the right one only as long as it is
not later than the last moment there is (`toInt_deadline_of_le`); a grace period that is one
millisecond longer than that wraps round and is over long since (`toInt_deadline_succ`).

So longer grace periods do not wait less up to the longest one with a deadline, `longestGrace`, and
no further (`longer_grace_iff`), whoever waits: a call of `TakeFor`, a call of `AwaitTermination`,
or a call of `Ingest` at its end.  Settings are not bounded by it: every number of 64 bits is taken
(`Options.load_graceSettings`).
-/
import Mathlib
import Intake.Deadline
import Intake.Engine.Pipeline
import Intake.Proofs.Channel.Interrupts
import Intake.Proofs.Config.Integers
import Intake.Proofs.Config.Overlaying

namespace Intake

variable {began clock : Int64} {ms : UInt64}

/-! ## 1. Deadlines -/

/-- The last moment of the clock. -/
def lastMoment : Int := 9223372036854775807

/-- The longest grace period from a time on whose deadline is a moment of the clock. -/
def longestGrace (began : Int64) : Nat := ((lastMoment - began.toInt) / 1000000).toNat

theorem le_longestGrace_iff {n : Nat} :
    n ≤ longestGrace began ↔ began.toInt + n * 1000000 ≤ lastMoment := by
  have hle : began.toInt ≤ lastMoment := began.toInt_le
  unfold longestGrace
  omega

theorem longestGrace_lt (began : Int64) : longestGrace began < 18446744073710 := by
  have hle : -9223372036854775808 ≤ began.toInt := began.le_toInt
  unfold longestGrace lastMoment
  omega

theorem toInt_deadline (began : Int64) (ms : UInt64) :
    (deadline began ms).toInt = (began.toInt + ms.toNat * 1000000).bmod (2 ^ 64) := by
  have hnanos : nanosPerMilli.toInt = 1000000 := rfl
  have hms : ms.toInt64.toInt = (ms.toNat : Int).bmod (2 ^ 64) :=
    BitVec.toInt_eq_toNat_bmod ms.toBitVec
  rw [deadline, Int64.toInt_add, Int64.toInt_mul, hnanos, hms, Int.bmod_mul_bmod, Int.add_bmod_bmod]

/-- **Up to the longest grace period the deadline is exact.** -/
theorem toInt_deadline_of_le (h : ms.toNat ≤ longestGrace began) :
    (deadline began ms).toInt = began.toInt + ms.toNat * 1000000 := by
  have hle := le_longestGrace_iff.mp h
  have hlow : -9223372036854775808 ≤ began.toInt := began.le_toInt
  rw [lastMoment] at hle
  rw [toInt_deadline]
  exact Int.bmod_eq_of_le (by omega) (by omega)

/-- **One millisecond more wraps round.** -/
theorem toInt_deadline_succ (h : ms.toNat = longestGrace began + 1) :
    (deadline began ms).toInt = began.toInt + ms.toNat * 1000000 - 2 ^ 64 := by
  have hle := le_longestGrace_iff.mp (Nat.le_refl (longestGrace began))
  have hgt : ¬ began.toInt + ms.toNat * 1000000 ≤ lastMoment :=
    mt le_longestGrace_iff.mpr (by omega)
  have hlow : -9223372036854775808 ≤ began.toInt := began.le_toInt
  rw [lastMoment] at hle hgt
  rw [toInt_deadline, ← Int.sub_bmod_right]
  exact Int.bmod_eq_of_le (by push_cast; omega) (by push_cast; omega)

/-- **Deadlines come in the order of the grace periods** up to the longest one, and no further. -/
theorem deadline_mono_iff {longest : UInt64} :
    (∀ a b, a ≤ b → b ≤ longest → deadline began a ≤ deadline began b) ↔
      longest.toNat ≤ longestGrace began := by
  constructor
  · intro hmono
    by_contra hlong
    have hsmall := longestGrace_lt began
    have hlongest : (UInt64.ofNat (longestGrace began)).toNat = longestGrace began :=
      UInt64.toNat_ofNat_of_lt' (by rw [UInt64.size]; omega)
    have hnext : (UInt64.ofNat (longestGrace began + 1)).toNat = longestGrace began + 1 :=
      UInt64.toNat_ofNat_of_lt' (by rw [UInt64.size]; omega)
    have hle := hmono (.ofNat (longestGrace began)) (.ofNat (longestGrace began + 1))
      (by rw [UInt64.le_iff_toNat_le]; omega) (by rw [UInt64.le_iff_toNat_le]; omega)
    rw [Int64.le_iff_toInt_le, toInt_deadline_of_le hlongest.le, toInt_deadline_succ hnext] at hle
    omega
  · intro hlong a b hab hb
    rw [UInt64.le_iff_toNat_le] at hab hb
    rw [Int64.le_iff_toInt_le, toInt_deadline_of_le (by omega), toInt_deadline_of_le (by omega)]
    omega

/-! ## 2. Who waits -/

/-- The clock has come to the deadline of a wait that began then. -/
def overdue (began clock : Int64) (ms : UInt64) : Bool := deadline began ms ≤ clock

theorem overdue_iff : overdue began clock ms = true ↔ deadline began ms ≤ clock :=
  decide_eq_true_iff

/-- **Whoever gives up when the time is over**, and only then, gives up in the order of the grace
periods up to the longest one, and no further. -/
theorem gives_up_in_order_iff {σ : Type} (longest : UInt64) (givesUp : σ → Int64 → UInt64 → Prop)
    (waits : σ → Prop)
    (hgives : ∀ s clock ms, givesUp s clock ms ↔ waits s ∧ overdue began clock ms = true)
    (hwaits : ∃ s, waits s) :
    (∀ a b, a ≤ b → b ≤ longest → ∀ clock s, givesUp s clock b → givesUp s clock a) ↔
      longest.toNat ≤ longestGrace began := by
  simp only [← deadline_mono_iff, hgives, overdue_iff]
  constructor
  · intro h a b hab hb
    obtain ⟨s, hs⟩ := hwaits
    exact (h a b hab hb (deadline began b) s ⟨hs, Int64.le_refl _⟩).2
  · rintro h a b hab hb clock s ⟨hs, hover⟩
    exact ⟨hs, Int64.le_trans (h a b hab hb) hover⟩

section Channel

variable {α : Type} {c : Channel α}

/-- A call that takes an item gives up when it looks at the clock. -/
def Channel.TimesOut (c : Channel α) (began clock : Int64) (ms : UInt64) : Prop :=
  c.critical (overdue began clock ms) (.takeFor ms) = some ⟨.refused .timeout, [], c⟩

theorem Channel.timesOut_iff :
    c.TimesOut began clock ms ↔ c.takeSection = none ∧ overdue began clock ms = true := by
  unfold TimesOut critical
  cases htake : c.takeSection with
  | none => simp
  | some s =>
    have hends := endsWith_of_takeSection htake
    refine iff_of_false (fun hs => ?_) (fun h => by cases h.1)
    obtain rfl := Option.some.inj hs
    simp [Call.EndsWith] at hends

end Channel

section Crew

variable {Job : Type} {c : Crew Job}

/-- A visitor who waits for the workers gives up when it looks at the clock. -/
def Crew.GivesUp (c : Crew Job) (began clock : Int64) (ms : UInt64) : Prop :=
  (Crew.Visit.await ms (overdue began clock ms)).step c
    = some ⟨.returned (.awaited false), c, none⟩

theorem Crew.givesUp_iff :
    c.GivesUp began clock ms ↔ c.alive ≠ 0 ∧ overdue began clock ms = true := by
  unfold GivesUp Visit.step
  split_ifs with halive hover <;> simp [*]

end Crew

namespace Engine

variable {e : Engine} {i : Ingestion}

/-- A call at its end, which waits for its workers with a grace period and looks at the clock. -/
def closing (e : Engine) (i : Ingestion) (began clock : Int64) (ms : UInt64) : Engine :=
  { e with options := { e.options with shutdownTimeoutMs := ms } }.enter i
    (.visiting (.await ms (overdue began clock ms)))

/-- There are workers left, and the call returns with a report that they are busy. -/
def ReportsBusy (e : Engine) (i : Ingestion) (began clock : Int64) (ms : UInt64) : Prop :=
  (∃ c, e.crew = some c ∧ c.alive ≠ 0) ∧
    (e.closing i began clock ms).read = some ((e.closing i began clock ms).answer i false)

theorem reportsBusy_iff :
    e.ReportsBusy i began clock ms ↔
      (∃ c, e.crew = some c ∧ c.alive ≠ 0) ∧ overdue began clock ms = true := by
  refine and_congr_right ?_
  rintro ⟨c, hcrew, halive⟩
  have hread : (e.closing i began clock ms).read
      = if overdue began clock ms then some ((e.closing i began clock ms).answer i false)
        else none := by
    simp only [closing, enter, read, visit, hcrew, Crew.Visit.step, if_neg halive]
    split_ifs <;> rfl
  rw [hread]
  split_ifs with hover <;> simp [hover]

end Engine

/-! ## 3. Where grace periods come from -/

namespace Options

/-- Settings with nothing but a grace period. -/
def graceSettings (ms : UInt64) : Settings :=
  (Settings.empty.put .empty group timeoutKey (some (decimal ms.toNat))).2.1

theorem value?_graceSettings (ms : UInt64) :
    (graceSettings ms).value? group timeoutKey = some (decimal ms.toNat) := by
  have htext : (Bounded.ofBytes 255 (decimal ms.toNat)).text = decimal ms.toNat := by
    refine Bounded.text_ofBytes_of_le (fun hzero => ?_) ?_
    · exact absurd (Numeral.isDigit_of_mem_decimal _ _ hzero) (by decide)
    · have hlt : ms.toNat < 10 ^ 20 := Nat.lt_trans ms.toNat_lt (by decide)
      exact Nat.le_trans (Numeral.length_decimal_le (by decide) hlt) (by decide)
  exact congrArg some htext

theorem value?_graceSettings_of_ne {key : Bytes} (ms : UInt64)
    (hkey : Ascii.sameText timeoutKey key = false) : (graceSettings ms).value? group key = none := by
  have hentries : (graceSettings ms).entries
      = [⟨.ofBytes 63 group, .ofBytes 63 timeoutKey, .ofBytes 255 (decimal ms.toNat)⟩] := rfl
  have htext : (Bounded.ofBytes 63 timeoutKey).text = timeoutKey := rfl
  simp only [Settings.value?, Settings.find?, hentries, List.find?_cons, Setting.answers, htext, hkey,
    Bool.false_and, List.find?_nil, Option.map_none]

/-- **Settings let every grace period through.** -/
theorem load_graceSettings {base : Options} (hbase : base.Valid) (log : Log) (ms : UInt64) :
    (load (graceSettings ms) base log).1 = .ok { base with shutdownTimeoutMs := ms } := by
  have hother : ∀ key, Ascii.sameText timeoutKey key = false →
      (graceSettings ms).hasKey group key = false := by
    intro key hkey
    rw [hasKey_eq_isSome, value?_graceSettings_of_ne ms hkey, Option.isSome_none]
  have hoverlaid : Overlaid (graceSettings ms) base { base with shutdownTimeoutMs := ms } :=
    { workerCount := by rw [Counts, hother workersKey rfl]; rfl
      thresholdMb := by rw [Counts, hother thresholdKey rfl]; rfl
      thresholdExact := by rw [hother thresholdKey rfl]; rfl
      tempDir := by rw [value?_graceSettings_of_ne ms rfl, Option.getD_none]
      modelPath := by rw [value?_graceSettings_of_ne ms rfl, Option.getD_none]
      maxMetadata := by rw [value?_graceSettings_of_ne ms rfl, Option.bind_none, Option.getD_none]
      shutdownTimeoutMs := by
        rw [value?_graceSettings, Option.bind_some, Numeral.parseUnsigned_decimal,
          Option.getD_some] }
  exact (load_ok_iff log).mpr (overlay_ok_iff.mpr ⟨hoverlaid, hbase⟩)

end Options

/-! ## 4. Longer grace periods -/

/-- An engine with a worker that is busy. -/
def busyEngine : Engine :=
  { Engine.ofOptions .empty {} with crew := some { Crew.create [] 1 with alive := 1 } }

/-- A call of it that has read its stream. -/
def lastCall : Engine.Ingestion := ⟨0, .create (.ofBytes [] 0) 0, true, .leaving⟩

/-- **Longer grace periods never wait less, up to the longest one that has a deadline, and no
further.**  That is so for the deadlines, for calls that take an item from a channel, for visitors who
wait for the workers of a crew, and for calls of an engine that report busy workers.  Up to there every
deadline is exact; but settings let every grace period of 64 bits through, over whatever base.

All who wait give up by the same comparison of the clock with the deadline, whatever else they
wait for (`gives_up_in_order_iff`). One millisecond beyond the last deadline the sum wraps into
the past. -/
theorem longer_grace_iff (α Job : Type) (began : Int64) (longest : UInt64) :
    ((∀ a b, a ≤ b → b ≤ longest → deadline began a ≤ deadline began b) ↔
      longest.toNat ≤ longestGrace began) ∧
    ((∀ a b, a ≤ b → b ≤ longest → ∀ clock, ∀ c : Channel α,
        c.TimesOut began clock b → c.TimesOut began clock a) ↔
      longest.toNat ≤ longestGrace began) ∧
    ((∀ a b, a ≤ b → b ≤ longest → ∀ clock, ∀ c : Crew Job,
        c.GivesUp began clock b → c.GivesUp began clock a) ↔
      longest.toNat ≤ longestGrace began) ∧
    ((∀ a b, a ≤ b → b ≤ longest → ∀ clock, ∀ s : Engine × Engine.Ingestion,
        s.1.ReportsBusy s.2 began clock b → s.1.ReportsBusy s.2 began clock a) ↔
      longest.toNat ≤ longestGrace began) ∧
    (longest.toNat ≤ longestGrace began →
      (deadline began longest).toInt = began.toInt + longest.toNat * 1000000) ∧
    ∀ base, base.Valid → ∀ log,
      (Options.load (Options.graceSettings longest) base log).1
        = .ok { base with shutdownTimeoutMs := longest } := by
  have hchannel := gives_up_in_order_iff longest (fun c : Channel α => c.TimesOut began)
    (fun c => c.takeSection = none) (fun _ _ _ => Channel.timesOut_iff) ⟨.create 1, rfl⟩
  have hcrew := gives_up_in_order_iff longest (fun c : Crew Job => c.GivesUp began)
    (fun c => c.alive ≠ 0) (fun _ _ _ => Crew.givesUp_iff)
    ⟨{ Crew.create [] 1 with alive := 1 }, (by decide : (1 : UInt32) ≠ 0)⟩
  have hcall := gives_up_in_order_iff longest
    (fun s : Engine × Engine.Ingestion => s.1.ReportsBusy s.2 began)
    (fun s => ∃ c, s.1.crew = some c ∧ c.alive ≠ 0) (fun _ _ _ => Engine.reportsBusy_iff)
    ⟨(busyEngine, lastCall), _, rfl, by decide⟩
  exact ⟨deadline_mono_iff, hchannel, hcrew, hcall, toInt_deadline_of_le,
    fun base hbase log => Options.load_graceSettings hbase log longest⟩

/-- A thousand seconds after the clock has started. -/
def someTime : Int64 := 1000000000000

/-- An hour is not longer than the longest grace period from then on, and waits no longer. -/
theorem hour_within_longest :
    longestGrace someTime = 9223371036854 ∧
      deadline someTime 3600000 ≤ deadline someTime 9223371036854 ∧
      ∀ clock, (Channel.create 1 : Channel Nat).TimesOut someTime clock 9223371036854 →
        (Channel.create 1 : Channel Nat).TimesOut someTime clock 3600000 := by
  have hlongest : longestGrace someTime = 9223371036854 := by decide
  obtain ⟨hdeadline, hchannel, -⟩ := longer_grace_iff Nat Nat someTime 9223371036854
  have hle : (9223371036854 : UInt64).toNat ≤ longestGrace someTime := hlongest.ge
  exact ⟨hlongest, hdeadline.mpr hle _ _ (by decide) (by decide),
    fun clock => hchannel.mpr hle _ _ (by decide) (by decide) clock _⟩

/-- The largest number that a setting can be is meant to be for ever.  It is let through, but its
deadline lies before that of an hour and is over at once: who wants an item from an empty channel, who
waits for a busy worker and a call of the engine at its end give up where they would have waited. -/
theorem for_ever_ends_at_once :
    deadline someTime 18446744073709551615 < deadline someTime 3600000 ∧
      ((Channel.create 1 : Channel Nat).TimesOut someTime someTime 18446744073709551615 ∧
        ¬ (Channel.create 1 : Channel Nat).TimesOut someTime someTime 3600000) ∧
      (busyEngine.ReportsBusy lastCall someTime someTime 18446744073709551615 ∧
        ¬ busyEngine.ReportsBusy lastCall someTime someTime 3600000) ∧
      (Options.load (Options.graceSettings 18446744073709551615) {} .empty).1
        = .ok { shutdownTimeoutMs := 18446744073709551615 } := by
  have hatOnce : overdue someTime someTime 18446744073709551615 = true := by decide
  have hhour : ¬ overdue someTime someTime 3600000 = true := by decide
  have hbusy : ∃ c, busyEngine.crew = some c ∧ c.alive ≠ 0 := ⟨_, rfl, by decide⟩
  refine ⟨by decide, ⟨Channel.timesOut_iff.mpr ⟨rfl, hatOnce⟩, fun h => ?_⟩,
    ⟨Engine.reportsBusy_iff.mpr ⟨hbusy, hatOnce⟩, fun h => ?_⟩,
    Options.load_graceSettings (by decide) .empty _⟩
  · exact hhour (Channel.timesOut_iff.mp h).2
  · exact hhour (Engine.reportsBusy_iff.mp h).2

end Intake
