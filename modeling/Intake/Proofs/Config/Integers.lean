/-
# Whole numbers in settings

`Spells t n` says that a text spells a whole number: white space, perhaps a sign, digits, blanks.
What the digits denote is said by their places, the last one counting ones (`denoted`), and not by
how they are read.

Reading (`ParseSigned`, `FindInt`, `ReadPositive`) takes a text for the number that it spells, if
the number is small enough, and nothing else for a number (`reads_what_is_spelled`): `parseSigned`
asks for 64 signed bits, a setting that is read as a number for 32 of them, and a count that is laid
over options for a positive number among those.  A number written in base ten is spelled by what was
written (`spells_signedDecimal`), so that every number of 64 bits is read as itself.
-/
import Mathlib
import Intake.Proofs.Config.Overlaying
import Intake.Proofs.Text.Numerals

namespace Intake.Numeral

variable {t : Bytes} {n : Int}

/-! ## 1. What digits denote -/

/-- What a sign does to the number behind it. -/
def Sign.factor : Sign → Int
  | none | plus => 1
  | minus => -1

/-- The number that digits denote: the last one counts ones, the one before it tens, and so on. -/
def denoted (ds : Bytes) : Nat := Nat.ofDigits 10 (ds.reverse.map fun d => d.toNat - 48)

/-- The text spells the number. -/
def Spells (t : Bytes) (n : Int) : Prop :=
  ∃ w : Spelling, w.text = t ∧ n = w.sign.factor * denoted w.digits

theorem digitsValue_eq_denoted (ds : Bytes) : digitsValue ds = denoted ds := by
  induction ds using List.reverseRecOn with
  | nil => rfl
  | append_singleton ds d ih =>
    rw [digitsValue_append, ih, denoted, denoted, List.reverse_append, List.reverse_singleton,
      List.singleton_append, List.map_cons, Nat.ofDigits_cons, Nat.add_comm]

theorem Spelling.number_eq (w : Spelling) : w.number = w.sign.factor * denoted w.digits := by
  rw [Spelling.number, Spelling.magnitude, digitsValue_eq_denoted]
  cases w.sign with
  | none => simp [Sign.factor]
  | plus => simp [Sign.factor]
  | minus => simp [Sign.factor]

theorem spells_iff : Spells t n ↔ ∃ w : Spelling, w.text = t ∧ w.number = n := by
  simp only [Spells, Spelling.number_eq, eq_comm]

/-! ## 2. Numbers as they are written -/

theorem isDigit_digit {d : Nat} (h : d < 10) : Ascii.isDigit (digit d) = true := by
  interval_cases d <;> rfl

theorem toNat_digit {d : Nat} (h : d < 10) : (digit d).toNat - 48 = d := by
  interval_cases d <;> rfl

theorem isDigit_of_mem_decimal (m : Nat) : ∀ c ∈ decimal m, Ascii.isDigit c = true := by
  induction m using Nat.strongRecOn with
  | ind m ih =>
    by_cases hm : m < 10
    · rw [decimal_of_lt hm]
      exact List.forall_mem_singleton.mpr (isDigit_digit hm)
    · rw [decimal_of_ge hm]
      intro c hc
      rcases List.mem_append.mp hc with hc | hc
      · exact ih (m / 10) (by omega) c hc
      · rw [List.mem_singleton.mp hc]
        exact isDigit_digit (Nat.mod_lt m (by decide))

theorem digitsValue_decimal (m : Nat) : digitsValue (decimal m) = m := by
  induction m using Nat.strongRecOn with
  | ind m ih =>
    by_cases hm : m < 10
    · rw [decimal_of_lt hm, ← List.nil_append [digit m], digitsValue_append, digitsValue_nil,
        toNat_digit hm, Nat.mul_zero, Nat.zero_add]
    · rw [decimal_of_ge hm, digitsValue_append, ih (m / 10) (by omega),
        toNat_digit (Nat.mod_lt m (by decide)), Nat.div_add_mod]

theorem isBlank_of_mem_nil : ∀ c ∈ ([] : Bytes), Ascii.isBlank c = true := List.forall_mem_nil _

/-- A number in base ten, with a minus if it is negative. -/
def written (n : Int) : Spelling where
  white := []
  sign := if n < 0 then .minus else .none
  digits := decimal n.natAbs
  blanks := []
  white_isSpace := List.forall_mem_nil _
  digits_isDigit := isDigit_of_mem_decimal n.natAbs
  digits_ne_nil := decimal_ne_nil n.natAbs
  blanks_isBlank := isBlank_of_mem_nil

theorem text_written (n : Int) : (written n).text = signedDecimal n := by
  unfold signedDecimal
  split
  · rename_i hneg
    simp [Spelling.text, written, hneg, Sign.text]
  · rename_i hpos
    simp [Spelling.text, written, hpos, Sign.text]

theorem number_written (n : Int) : (written n).number = n := by
  have hmagnitude : (written n).magnitude = n.natAbs := digitsValue_decimal n.natAbs
  rw [Spelling.number, hmagnitude]
  by_cases hneg : n < 0
  · rw [if_pos (show (written n).sign = .minus from if_pos hneg)]
    omega
  · have hsign : (written n).sign = .none := if_neg hneg
    rw [if_neg (by rw [hsign]; decide)]
    omega

/-- **A number in base ten spells itself.** -/
theorem spells_signedDecimal (n : Int) : Spells (signedDecimal n) n :=
  spells_iff.mpr ⟨written n, text_written n, number_written n⟩

theorem length_decimal_le {n k : Nat} (hk : 0 < k) (h : n < 10 ^ k) : (decimal n).length ≤ k := by
  induction k generalizing n with
  | zero => exact absurd hk (Nat.lt_irrefl 0)
  | succ k ih =>
    by_cases hn : n < 10
    · rw [decimal_of_lt hn, List.length_singleton]
      exact hk
    · have hdigits : 0 < k := by
        rcases Nat.eq_zero_or_pos k with rfl | hpos
        · exact absurd h hn
        · exact hpos
      have hless : n / 10 < 10 ^ k := by
        rw [Nat.pow_succ] at h
        omega
      rw [decimal_of_ge hn, List.length_append, List.length_singleton]
      exact Nat.succ_le_succ (ih hdigits hless)

theorem parseUnsigned_decimal (v : UInt64) : parseUnsigned (decimal v.toNat) = some v := by
  have hpos : ¬ ((v.toNat : Int) < 0) := by omega
  have hmagnitude : (written v.toNat).magnitude = v.toNat := digitsValue_decimal _
  have hsign : (written v.toNat).sign = .none := by simp only [written, if_neg hpos]
  refine Denotes.parseUnsigned ⟨written v.toNat, ?_, ?_, ?_, ?_⟩
  · exact (text_written _).trans (if_neg hpos)
  · rw [hsign]
    decide
  · rw [hmagnitude]
    exact v.toNat_lt
  · rw [hmagnitude, UInt64.ofNat_toNat]

/-! ## 3. Reading numbers and counts -/

/-- What is read of a whole text: the numbers of 64 signed bits that are spelled. -/
theorem parseSigned_iff_spells :
    parseSigned t = some n ↔ Spells t n ∧ -2 ^ 63 ≤ n ∧ n < 2 ^ 63 := by
  have hmin : Int64.minValue.toInt = -2 ^ 63 := rfl
  have hmax : Int64.maxValue.toInt = 2 ^ 63 - 1 := rfl
  rw [parseSigned_iff, spells_iff, hmin, hmax]
  constructor
  · rintro ⟨w, htext, hnumber, hlow, hhigh⟩
    exact ⟨⟨w, htext, hnumber⟩, hlow, by omega⟩
  · rintro ⟨⟨w, htext, hnumber⟩, hlow, hhigh⟩
    exact ⟨w, htext, hnumber, hlow, by omega⟩

variable {s : Settings} {group key : Bytes}

/-- What is found under a key: the numbers of 32 signed bits that are spelled. -/
theorem findInt_iff_spells (h : s.value? group key = some t) :
    s.findInt group key = some n ↔ Spells t n ∧ -2 ^ 31 ≤ n ∧ n < 2 ^ 31 := by
  have hmin : Int32.minValue.toInt = -2 ^ 31 := rfl
  have hmax : Int32.maxValue.toInt = 2 ^ 31 - 1 := rfl
  rw [Settings.findInt, h]
  simp only [Option.filter_eq_some_iff, parseSigned_iff_spells, Settings.isInt32, Bool.and_eq_true,
    decide_eq_true_eq, hmin, hmax]
  constructor
  · rintro ⟨⟨hspells, -, -⟩, hlow, hhigh⟩
    exact ⟨hspells, hlow, by omega⟩
  · rintro ⟨hspells, hlow, hhigh⟩
    exact ⟨⟨hspells, by omega, by omega⟩, hlow, by omega⟩

theorem positive_iff_spells (h : s.value? Options.group key = some t) {current v : UInt32} :
    Options.positive s key current = .ok v ↔
      Spells t v.toNat ∧ 1 ≤ v.toNat ∧ v.toNat < 2 ^ 31 := by
  have hkey : s.hasKey Options.group key = true := by rw [Options.hasKey_eq_isSome, h]; rfl
  have hlargest : Options.largestCount = 2 ^ 31 - 1 := rfl
  simp only [Options.positive_ok_iff, Options.Counts, Options.Spoils, hkey, if_true, true_and,
    not_not, findInt_iff_spells h]
  constructor
  · rintro ⟨hcounts, m, hfound, hone, hle⟩
    obtain rfl : (v.toNat : Int) = m := by
      have hread := (findInt_iff_spells h).mpr hcounts
      rw [(findInt_iff_spells h).mpr hfound] at hread
      exact (Option.some.inj hread).symm
    exact ⟨hcounts.1, by omega, by omega⟩
  · rintro ⟨hspells, hone, hlt⟩
    have hcounts : Spells t v.toNat ∧ -2 ^ 31 ≤ (v.toNat : Int) ∧ (v.toNat : Int) < 2 ^ 31 :=
      ⟨hspells, by omega, by omega⟩
    exact ⟨hcounts, v.toNat, hcounts, by omega, by omega⟩

/-- A number that is taken for a count is one that a word of 32 bits stands for. -/
theorem exists_word {n : Int} (hone : 1 ≤ n) (hlt : n < 2 ^ 31) :
    ∃ v : UInt32, (v.toNat : Int) = n := by
  have hsize : UInt32.size = 2 ^ 32 := rfl
  refine ⟨UInt32.ofNat n.toNat, ?_⟩
  rw [UInt32.toNat_ofNat_of_lt' (by omega)]
  omega

/-- **What is read of a text is the number that it spells.**  The whole text is read as the number
`n` exactly if it spells `n`, and `n` has 64 signed bits; a setting with that text is found to be
`n` exactly if besides `n` has 32 of them; and it is taken for the count `n` exactly if `n` is a
positive one among those.  Every number of 64 signed bits that is written in base ten is read as
itself.

A text can be taken apart in one way only, and that is the scanner's; so it spells one number at
most, and what the digits denote by their places is what the scanner has added up. The three bounds
on the number are all that the three readers differ in. -/
theorem reads_what_is_spelled (t : Bytes) :
    (∀ n, parseSigned t = some n ↔ Spells t n ∧ -2 ^ 63 ≤ n ∧ n < 2 ^ 63) ∧
    (∀ (s : Settings) (group key : Bytes), s.value? group key = some t → ∀ n,
      s.findInt group key = some n ↔ Spells t n ∧ -2 ^ 31 ≤ n ∧ n < 2 ^ 31) ∧
    (∀ (s : Settings) (key : Bytes) (current : UInt32), s.value? Options.group key = some t →
      ∀ n : Int, (∃ v, Options.positive s key current = .ok v ∧ (v.toNat : Int) = n) ↔
        Spells t n ∧ 1 ≤ n ∧ n < 2 ^ 31) ∧
    ∀ v : Int64, parseSigned (signedDecimal v.toInt) = some v.toInt := by
  refine ⟨fun n => parseSigned_iff_spells, fun s group key h n => findInt_iff_spells h, ?_, ?_⟩
  · intro s key current h n
    simp only [positive_iff_spells h]
    constructor
    · rintro ⟨v, ⟨hspells, hone, hlt⟩, rfl⟩
      exact ⟨hspells, by omega, by omega⟩
    · rintro ⟨hspells, hone, hlt⟩
      obtain ⟨v, rfl⟩ := exists_word hone hlt
      exact ⟨v, ⟨hspells, by omega, by omega⟩, rfl⟩
  · intro v
    have hlow := v.le_toInt
    have hhigh := v.toInt_lt
    exact parseSigned_iff_spells.mpr ⟨spells_signedDecimal v.toInt, hlow, hhigh⟩

/-- A table with a number of workers that has a plus in front and blanks around it. -/
def eightKept : Settings where
  entries := [⟨.ofBytes 63 Options.group, .ofBytes 63 Options.workersKey,
    .ofBytes 255 [32, 43, 56, 9]⟩]
  length_le := by decide

/-- It is read as a number, found as one and taken for a count. -/
theorem eight_is_read :
    eightKept.value? Options.group Options.workersKey = some [32, 43, 56, 9] ∧
      Spells [32, 43, 56, 9] 8 ∧
      eightKept.findInt Options.group Options.workersKey = some 8 ∧
      (∃ v, Options.positive eightKept Options.workersKey 4 = .ok v ∧ (v.toNat : Int) = 8) ∧
      parseSigned (signedDecimal (-9223372036854775808)) = some (-9223372036854775808) := by
  have hkept : eightKept.value? Options.group Options.workersKey = some [32, 43, 56, 9] := by decide
  obtain ⟨hparse, hfind, hcount, hwritten⟩ := reads_what_is_spelled [32, 43, 56, 9]
  have hspells : Spells [32, 43, 56, 9] 8 := ((hparse 8).mp (by decide)).1
  refine ⟨hkept, hspells, ?_, ?_, hwritten Int64.minValue⟩
  · exact (hfind eightKept _ _ hkept 8).mpr ⟨hspells, by decide, by decide⟩
  · exact (hcount eightKept _ 4 hkept 8).mpr ⟨hspells, by decide, by decide⟩

end Intake.Numeral
