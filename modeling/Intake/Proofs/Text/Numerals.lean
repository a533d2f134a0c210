/-
# Numbers as they are written

What `ParseSigned` and `ParseUnsigned` read.  A whole number is written with white space in front,
perhaps a sign, at least one digit, and blanks behind (`Spelling`).  A text is written in at most
one such way, and the scanner finds it (`scan_text`, `exists_spelling`).  So what is read as a
number can be read off the spelling:

* `parseSigned` reads every number within 64 signed bits, and nothing else (`parseSigned_iff`);
* `parseUnsigned` reads every number without a minus that is below `2 ^ 64`; but a minus is only
  seen in front of the digits or behind blanks.  One that is hidden behind other white space is
  read, and the number negated modulo `2 ^ 64` (`parseUnsigned_iff`).

**The numbers that `parseUnsigned` reads are those without a minus exactly for texts in which no
minus is hidden** (`unsigned_unless_minus_hidden`).
-/
import Mathlib
import Intake.Config.Settings

namespace Intake.Numeral

/-! ## 1. Spellings -/

/-- What may stand in front of the digits. -/
inductive Sign where
  | none
  | plus
  | minus
  deriving DecidableEq, Repr

def Sign.text : Sign → Bytes
  | none => []
  | plus => [43]
  | minus => [45]

theorem Sign.text_injective : Function.Injective Sign.text := by
  intro s s' h
  cases s <;> cases s' <;> simp_all [Sign.text]

/-- A whole number as it is written. -/
structure Spelling where
  white : Bytes
  sign : Sign
  digits : Bytes
  blanks : Bytes
  white_isSpace : ∀ c ∈ white, Ascii.isSpace c = true
  digits_isDigit : ∀ c ∈ digits, Ascii.isDigit c = true
  digits_ne_nil : digits ≠ []
  blanks_isBlank : ∀ c ∈ blanks, Ascii.isBlank c = true

namespace Spelling

/-- The text, from the white space to the blanks. -/
def text (w : Spelling) : Bytes := w.white ++ (w.sign.text ++ (w.digits ++ w.blanks))

/-- The number that the digits denote. -/
def magnitude (w : Spelling) : Nat := digitsValue w.digits

/-- The number that is written. -/
def number (w : Spelling) : Int :=
  if w.sign = .minus then -(w.magnitude : Int) else w.magnitude

/-- The number modulo `2 ^ 64`. -/
def word (w : Spelling) : UInt64 :=
  if w.sign = .minus then -UInt64.ofNat w.magnitude else UInt64.ofNat w.magnitude

/-- A minus behind blanks only. -/
def ShowsMinus (w : Spelling) : Prop := w.sign = .minus ∧ ∀ c ∈ w.white, Ascii.isBlank c = true

/-- A minus in front of a number of 64 bits, behind white space that is not all blank. -/
structure HidesMinus (w : Spelling) : Prop where
  sign : w.sign = .minus
  fits : w.magnitude < UInt64.size
  white : ¬ ∀ c ∈ w.white, Ascii.isBlank c = true

/-! ## 2. Scanning a spelling -/

theorem digit_cases {c : UInt8} (h : Ascii.isDigit c = true) :
    Ascii.isSpace c = false ∧ Ascii.isBlank c = false ∧ c ≠ 43 ∧ c ≠ 45 := by
  grind [Ascii.isDigit, Ascii.isSpace, Ascii.isBlank]

theorem not_isDigit_of_isBlank {c : UInt8} (h : Ascii.isBlank c = true) :
    Ascii.isDigit c = false := by
  grind [Ascii.isDigit, Ascii.isBlank]

theorem exists_digit (w : Spelling) :
    ∃ d rest, w.digits ++ w.blanks = d :: rest ∧ Ascii.isDigit d = true := by
  obtain ⟨d, ds, hd⟩ := List.exists_cons_of_ne_nil w.digits_ne_nil
  refine ⟨d, ds ++ w.blanks, by rw [hd]; rfl, w.digits_isDigit d ?_⟩
  rw [hd]
  exact List.mem_cons_self

theorem head_behind_white (w : Spelling) :
    ∃ c rest, w.sign.text ++ (w.digits ++ w.blanks) = c :: rest ∧
      Ascii.isSpace c = false ∧ Ascii.isBlank c = false ∧ (c = 45 ↔ w.sign = .minus) := by
  obtain ⟨d, rest, hdigits, hd⟩ := w.exists_digit
  obtain ⟨hspace, hblank, -, hminus⟩ := digit_cases hd
  rw [hdigits]
  cases w.sign with
  | none => exact ⟨d, rest, rfl, hspace, hblank, by simp [hminus]⟩
  | plus => exact ⟨43, d :: rest, rfl, by decide, by decide, by decide⟩
  | minus => exact ⟨45, d :: rest, rfl, by decide, by decide, by decide⟩

theorem span_digits (w : Spelling) :
    (w.digits ++ w.blanks).takeWhile Ascii.isDigit = w.digits ∧
      (w.digits ++ w.blanks).dropWhile Ascii.isDigit = w.blanks := by
  have hstop : w.blanks = [] ∨ ∃ c rest, w.blanks = c :: rest ∧ Ascii.isDigit c = false := by
    cases hb : w.blanks with
    | nil => exact Or.inl rfl
    | cons c rest =>
      have hc := w.blanks_isBlank c (by rw [hb]; exact List.mem_cons_self)
      exact Or.inr ⟨c, rest, rfl, not_isDigit_of_isBlank hc⟩
  rw [List.takeWhile_append_of_pos w.digits_isDigit, List.dropWhile_append_of_pos w.digits_isDigit]
  rcases hstop with hb | ⟨c, rest, hb, hc⟩
  · simp [hb]
  · simp [hb, hc]

theorem sign_text (w : Spelling) :
    Numeral.sign (w.sign.text ++ (w.digits ++ w.blanks))
      = (decide (w.sign = .minus), w.digits ++ w.blanks) := by
  obtain ⟨d, rest, hdigits, hd⟩ := w.exists_digit
  obtain ⟨-, -, hplus, hminus⟩ := digit_cases hd
  rw [hdigits]
  cases w.sign with
  | none => simp [Sign.text, Numeral.sign, hplus, hminus]
  | plus => rfl
  | minus => rfl

/-- **The scanner finds the parts of a spelling.** -/
theorem scan_text (w : Spelling) :
    scan w.text = some ⟨decide (w.sign = .minus), w.digits, w.blanks⟩ := by
  obtain ⟨c, rest, hbehind, hspace, -⟩ := w.head_behind_white
  have hdrop : w.text.dropWhile Ascii.isSpace = w.sign.text ++ (w.digits ++ w.blanks) := by
    rw [text, List.dropWhile_append_of_pos w.white_isSpace, hbehind,
      List.dropWhile_cons_of_neg (by simp [hspace])]
  obtain ⟨htake, hleft⟩ := w.span_digits
  have hsome : w.digits.isEmpty = false := by simpa using w.digits_ne_nil
  simp only [scan, hdrop, w.sign_text, htake, hleft, hsome, Bool.false_eq_true, if_false]

theorem takeWhile_isSpace (w : Spelling) : w.text.takeWhile Ascii.isSpace = w.white := by
  obtain ⟨c, rest, hbehind, hspace, -⟩ := w.head_behind_white
  rw [text, List.takeWhile_append_of_pos w.white_isSpace, hbehind,
    List.takeWhile_cons_of_neg (by simp [hspace]), List.append_nil]

/-- **A text is spelled in one way.** -/
theorem text_injective : Function.Injective text := by
  intro w w' h
  have hwhite : w.white = w'.white := by rw [← w.takeWhile_isSpace, h, w'.takeWhile_isSpace]
  have hscan := w.scan_text
  rw [h, w'.scan_text, Option.some.injEq, Numeral.mk.injEq] at hscan
  obtain ⟨-, hdigits, hblanks⟩ := hscan
  have hsign : w.sign = w'.sign := by
    rw [text, text, hwhite, ← hdigits, ← hblanks] at h
    exact Sign.text_injective (List.append_cancel_right (List.append_cancel_left h))
  cases w
  cases w'
  simp_all

/-- **What the scanner finds is a spelling** if there are only blanks behind it. -/
theorem exists_spelling {t : Bytes} {n : Numeral} (h : scan t = some n)
    (hblanks : Ascii.onlyBlanks n.rest = true) :
    ∃ w : Spelling, w.text = t ∧ n = ⟨decide (w.sign = .minus), w.digits, w.blanks⟩ := by
  have hne : n.digits ≠ [] := (scan_digits h).1
  have hdigits := List.all_eq_true.mp (scan_digits h).2
  have hwhite : ∀ c ∈ t.takeWhile Ascii.isSpace, Ascii.isSpace c = true :=
    fun c hc => List.mem_takeWhile_imp hc
  have hrest := List.all_eq_true.mp hblanks
  -- the sign that was split off, and what was left of the text then
  obtain ⟨s, hs, hminus⟩ : ∃ s : Sign,
      s.text ++ (Numeral.sign (t.dropWhile Ascii.isSpace)).2 = t.dropWhile Ascii.isSpace ∧
        (Numeral.sign (t.dropWhile Ascii.isSpace)).1 = decide (s = .minus) := by
    generalize t.dropWhile Ascii.isSpace = behind
    cases behind with
    | nil => exact ⟨.none, rfl, rfl⟩
    | cons c r =>
      by_cases hminus : c = 45
      · exact ⟨.minus, by simp [Numeral.sign, hminus, Sign.text]⟩
      by_cases hplus : c = 43
      · exact ⟨.plus, by simp [Numeral.sign, hplus, Sign.text]⟩
      exact ⟨.none, by simp [Numeral.sign, hminus, hplus, Sign.text]⟩
  simp only [scan] at h
  split at h
  · cases h
  obtain rfl := Option.some.inj h
  refine ⟨⟨t.takeWhile Ascii.isSpace, s, _, _, hwhite, hdigits, hne, hrest⟩, ?_, ?_⟩
  · rw [text, List.takeWhile_append_dropWhile, hs, List.takeWhile_append_dropWhile]
  · rw [hminus]

end Spelling

/-! ## 3. Reading signed numbers -/

variable {t : Bytes}

/-- **A text is read as a signed number when it is the spelling of one within 64 bits.** -/
theorem parseSigned_iff {n : Int} :
    parseSigned t = some n ↔
      ∃ w : Spelling, w.text = t ∧ w.number = n ∧
        Int64.minValue.toInt ≤ n ∧ n ≤ Int64.maxValue.toInt := by
  constructor
  · intro h
    unfold parseSigned at h
    split at h
    · cases h
    rename_i found hscan
    split at h
    · rename_i hchecks
      obtain ⟨w, hw, rfl⟩ := Spelling.exists_spelling hscan hchecks.2.2
      have hnumber : w.number = n := by
        rw [← Option.some.inj h]
        simp only [Spelling.number, value, decide_eq_true_eq]
        rfl
      rw [Option.some.inj h] at hchecks
      exact ⟨w, hw, hnumber, hchecks.1, hchecks.2.1⟩
    · cases h
  · rintro ⟨w, rfl, rfl, hmin, hmax⟩
    have hvalue : value ⟨decide (w.sign = .minus), w.digits, w.blanks⟩ = w.number := by
      simp only [Spelling.number, value, decide_eq_true_eq]
      rfl
    have hblanks : Ascii.onlyBlanks w.blanks = true := List.all_eq_true.mpr w.blanks_isBlank
    simp only [parseSigned, w.scan_text, hvalue, hmin, hmax, hblanks, and_self, if_true]

/-! ## 4. Reading unsigned numbers -/

theorem scan_dropWhile_isBlank (t : Bytes) : scan (t.dropWhile Ascii.isBlank) = scan t := by
  have hspace : (t.dropWhile Ascii.isBlank).dropWhile Ascii.isSpace
      = t.dropWhile Ascii.isSpace := by
    induction t with
    | nil => rfl
    | cons c r ih =>
      cases hc : Ascii.isBlank c with
      | true =>
        rw [List.dropWhile_cons_of_pos hc, ih,
          List.dropWhile_cons_of_pos (Ascii.isSpace_of_isBlank hc)]
      | false => rw [List.dropWhile_cons_of_neg (by simp [hc])]
  simp only [scan, hspace]

theorem Spelling.showsMinus_iff (w : Spelling) :
    (w.text.dropWhile Ascii.isBlank).head? = some 45 ↔ w.ShowsMinus := by
  obtain ⟨c, rest, hbehind, -, hblank, hminus⟩ := w.head_behind_white
  rw [Spelling.text, hbehind, List.dropWhile_append]
  by_cases hwhite : ∀ c ∈ w.white, Ascii.isBlank c = true
  · have hnone : w.white.dropWhile Ascii.isBlank = [] := List.dropWhile_eq_nil_iff.mpr hwhite
    rw [hnone, List.isEmpty_nil, if_pos rfl, List.dropWhile_cons_of_neg (by simp [hblank]),
      List.head?_cons, Option.some.injEq, hminus]
    exact ⟨fun h => ⟨h, hwhite⟩, fun h => h.1⟩
  · -- the first character that is no blank belongs to the white space
    obtain ⟨d, ds, hsome⟩ := List.exists_cons_of_ne_nil
      (fun h => hwhite (List.dropWhile_eq_nil_iff.mp h))
    have hd : d ∈ w.white :=
      (List.dropWhile_suffix Ascii.isBlank).subset (hsome ▸ List.mem_cons_self)
    have hspace := w.white_isSpace d hd
    rw [hsome, List.isEmpty_cons, if_neg Bool.false_ne_true, List.cons_append, List.head?_cons,
      Option.some.injEq]
    constructor
    · rintro rfl
      cases hspace
    · exact fun h => absurd h.2 hwhite

theorem parseUnsigned_text {w : Spelling} (hshows : ¬ w.ShowsMinus) :
    parseUnsigned w.text = if w.magnitude < UInt64.size then some w.word else none := by
  have hseen : ¬ (w.text.dropWhile Ascii.isBlank).head? = some 45 :=
    fun h => hshows (w.showsMinus_iff.mp h)
  have hblanks : Ascii.onlyBlanks w.blanks = true := List.all_eq_true.mpr w.blanks_isBlank
  have hmagnitude : magnitude ⟨decide (w.sign = .minus), w.digits, w.blanks⟩ = w.magnitude := rfl
  simp only [parseUnsigned, if_neg hseen, scan_dropWhile_isBlank, w.scan_text, hmagnitude, hblanks,
    and_true, decide_eq_true_eq]
  rfl

theorem exists_spelling_of_parseUnsigned {v : UInt64} (h : parseUnsigned t = some v) :
    ∃ w : Spelling, w.text = t := by
  unfold parseUnsigned at h
  simp only [scan_dropWhile_isBlank] at h
  split at h
  · cases h
  split at h
  · cases h
  rename_i n hscan
  split at h
  · rename_i hchecks
    obtain ⟨w, hw, -⟩ := Spelling.exists_spelling hscan hchecks.2
    exact ⟨w, hw⟩
  · cases h

/-- **A text is read as an unsigned number when it is the spelling of one of 64 bits that shows no
minus.** -/
theorem parseUnsigned_iff {v : UInt64} :
    parseUnsigned t = some v ↔
      ∃ w : Spelling, w.text = t ∧ ¬ w.ShowsMinus ∧ w.magnitude < UInt64.size ∧ w.word = v := by
  constructor
  · intro h
    obtain ⟨w, rfl⟩ := exists_spelling_of_parseUnsigned h
    have hshows : ¬ w.ShowsMinus := by
      intro hshows
      rw [parseUnsigned, if_pos (w.showsMinus_iff.mpr hshows)] at h
      cases h
    rw [parseUnsigned_text hshows] at h
    split at h
    · rename_i hfits
      exact ⟨w, rfl, hshows, hfits, Option.some.inj h⟩
    · cases h
  · rintro ⟨w, rfl, hshows, hfits, rfl⟩
    rw [parseUnsigned_text hshows, if_pos hfits]

/-! ## 5. A minus that is hidden -/

/-- The text spells an unsigned number of 64 bits. -/
def Denotes (t : Bytes) (v : UInt64) : Prop :=
  ∃ w : Spelling, w.text = t ∧ w.sign ≠ .minus ∧ w.magnitude < UInt64.size ∧
    v = UInt64.ofNat w.magnitude

theorem parseUnsigned_of_hidesMinus {w : Spelling} (h : w.HidesMinus) :
    parseUnsigned w.text = some (-UInt64.ofNat w.magnitude) := by
  have hshows : ¬ w.ShowsMinus := fun hshows => h.white hshows.2
  rw [parseUnsigned_text hshows, if_pos h.fits, Spelling.word, if_pos h.sign]

/-- **What is read is what the text denotes, or there is a minus that is hidden.** -/
theorem denotes_or_hidesMinus {v : UInt64} (h : parseUnsigned t = some v) :
    Denotes t v ∨ ∃ w : Spelling, w.text = t ∧ w.HidesMinus ∧ v = -UInt64.ofNat w.magnitude := by
  obtain ⟨w, rfl, hshows, hfits, rfl⟩ := parseUnsigned_iff.mp h
  by_cases hsign : w.sign = .minus
  · have hhides : w.HidesMinus := ⟨hsign, hfits, fun hwhite => hshows ⟨hsign, hwhite⟩⟩
    exact Or.inr ⟨w, rfl, hhides, if_pos hsign⟩
  · exact Or.inl ⟨w, rfl, hsign, hfits, if_neg hsign⟩

theorem Denotes.parseUnsigned {v : UInt64} (h : Denotes t v) : parseUnsigned t = some v := by
  obtain ⟨w, rfl, hsign, hfits, rfl⟩ := h
  exact parseUnsigned_iff.mpr ⟨w, rfl, fun hshows => hsign hshows.1, hfits, if_neg hsign⟩

theorem toNat_neg_ofNat {m : Nat} (h : m < UInt64.size) (hpos : 0 < m) :
    (-UInt64.ofNat m).toNat = UInt64.size - m := by
  have hlt : UInt64.size - m < UInt64.size := by omega
  rw [UInt64.toNat_neg, UInt64.toNat_ofNat_of_lt' h, Nat.mod_eq_of_lt hlt]

namespace Spelling

theorem number_eq_toNat {w : Spelling} (hsign : w.sign ≠ .minus)
    (hfits : w.magnitude < UInt64.size) :
    w.number = ((UInt64.ofNat w.magnitude).toNat : Int) := by
  rw [number, if_neg hsign, UInt64.toNat_ofNat_of_lt' hfits]

/-- A number with a hidden minus is the word that is read for it only when it is zero. -/
theorem HidesMinus.number_eq_iff {w : Spelling} (h : w.HidesMinus) :
    w.number = ((-UInt64.ofNat w.magnitude).toNat : Int) ↔ ¬ 0 < w.magnitude := by
  rw [number, if_pos h.sign]
  by_cases hpos : 0 < w.magnitude
  · rw [toNat_neg_ofNat h.fits hpos]
    have hfits := h.fits
    omega
  · have hzero : w.magnitude = 0 := Nat.eq_zero_of_not_pos hpos
    simp [hzero]

theorem HidesMinus.not_denotes {w : Spelling} (h : w.HidesMinus) {v : UInt64} :
    ¬ Denotes w.text v := by
  rintro ⟨w', htext, hsign, -, -⟩
  obtain rfl := text_injective htext
  exact hsign h.sign

/-- The first character behind the white space is a minus exactly when the sign is one. -/
theorem head_behind_space_iff (w : Spelling) :
    (w.text.dropWhile Ascii.isSpace).head? = some 45 ↔ w.sign = .minus := by
  obtain ⟨c, rest, hbehind, hspace, -, hminus⟩ := w.head_behind_white
  rw [text, List.dropWhile_append_of_pos w.white_isSpace, hbehind,
    List.dropWhile_cons_of_neg (by simp [hspace]), List.head?_cons, Option.some.injEq, hminus]

end Spelling

/-- **What is read is the number that is spelled**, unless a hidden minus negates it. -/
theorem number_of_parseUnsigned {w : Spelling} {v : UInt64} (h : parseUnsigned w.text = some v) :
    w.number = (v.toNat : Int) ↔ ¬ (w.HidesMinus ∧ 0 < w.magnitude) := by
  rcases denotes_or_hidesMinus h with ⟨w', htext, hsign, hfits, rfl⟩ | ⟨w', htext, hhides, rfl⟩
  · obtain rfl := Spelling.text_injective htext
    simp only [Spelling.number_eq_toNat hsign hfits, true_iff]
    exact fun hw => hsign hw.1.sign
  · obtain rfl := Spelling.text_injective htext
    simp only [hhides.number_eq_iff, hhides, true_and]

/-! ## 6. What a hidden minus changes -/

/-- A text whose first character behind the white space is a minus is turned away, unless the minus
is hidden. -/
theorem turned_away_iff :
    ((t.dropWhile Ascii.isSpace).head? = some 45 → parseUnsigned t = none) ↔
      ¬ ∃ w : Spelling, w.text = t ∧ w.HidesMinus := by
  constructor
  · rintro hnone ⟨w, rfl, hhides⟩
    have hread := parseUnsigned_of_hidesMinus hhides
    rw [hnone (w.head_behind_space_iff.mpr hhides.sign)] at hread
    cases hread
  · intro hnot hminus
    by_contra hread
    obtain ⟨v, hv⟩ := Option.ne_none_iff_exists'.mp hread
    rcases denotes_or_hidesMinus hv with ⟨w, rfl, hsign, -⟩ | ⟨w, hw, hhides, -⟩
    · exact hsign (w.head_behind_space_iff.mp hminus)
    · exact hnot ⟨w, hw, hhides⟩

theorem signed_agrees_iff :
    (∀ v n, parseUnsigned t = some v → parseSigned t = some n → (v.toNat : Int) = n) ↔
      ¬ ∃ w : Spelling, w.text = t ∧ w.HidesMinus ∧ 0 < w.magnitude ∧
        Int64.minValue.toInt ≤ w.number := by
  constructor
  · rintro hagrees ⟨w, rfl, hhides, hpos, hlow⟩
    have hnumber : w.number = -(w.magnitude : Int) := if_pos hhides.sign
    have hhigh : w.number ≤ Int64.maxValue.toInt := by
      have hmax : Int64.maxValue.toInt = 9223372036854775807 := rfl
      omega
    have hsigned : parseSigned w.text = some w.number :=
      parseSigned_iff.mpr ⟨w, rfl, rfl, hlow, hhigh⟩
    have heq := hagrees _ _ (parseUnsigned_of_hidesMinus hhides) hsigned
    exact hhides.number_eq_iff.mp heq.symm hpos
  · intro hnot v n hunsigned hsigned
    obtain ⟨w, rfl, rfl, hlow, -⟩ := parseSigned_iff.mp hsigned
    refine ((number_of_parseUnsigned hunsigned).mpr ?_).symm
    rintro ⟨hhides, hpos⟩
    exact hnot ⟨w, rfl, hhides, hpos, hlow⟩

/-- A setting gives the number in its text or the fallback, unless a minus is hidden in the text. -/
theorem setting_spelled_iff {s : Settings} {group key : Bytes} (h : s.value? group key = some t) :
    (∀ fallback, s.unsigned group key fallback = fallback ∨
        ∃ w : Spelling, w.text = t ∧ w.number = ((s.unsigned group key fallback).toNat : Int)) ↔
      ¬ ∃ w : Spelling, w.text = t ∧ w.HidesMinus ∧ 0 < w.magnitude := by
  have hread : ∀ fallback, s.unsigned group key fallback = (parseUnsigned t).getD fallback := by
    intro fallback
    rw [Settings.unsigned, h]
  simp only [hread]
  constructor
  · rintro hspelled ⟨w, rfl, hhides, hpos⟩
    have hw := parseUnsigned_of_hidesMinus hhides
    rw [hw] at hspelled
    -- zero is no word for a negative number, so it shows that the text was read
    rcases hspelled 0 with hzero | ⟨w', htext, hnumber⟩
    · have hnat := congrArg UInt64.toNat hzero
      rw [Option.getD_some, toNat_neg_ofNat hhides.fits hpos] at hnat
      have hfits := hhides.fits
      exact absurd hnat (by simp only [UInt64.toNat_zero]; omega)
    · obtain rfl := Spelling.text_injective htext
      exact (number_of_parseUnsigned hw).mp hnumber ⟨hhides, hpos⟩
  · intro hnot fallback
    cases hv : parseUnsigned t with
    | none => exact Or.inl rfl
    | some v =>
      obtain ⟨w, rfl⟩ := exists_spelling_of_parseUnsigned hv
      refine Or.inr ⟨w, rfl, (number_of_parseUnsigned hv).mpr fun hw => hnot ⟨w, rfl, hw⟩⟩

/-- **What is read as an unsigned number is what the text denotes, exactly for texts in which no
minus is hidden.**  Where one is hidden, the number is negated modulo `2 ^ 64`: then a text with a
minus is accepted, a number that is read both signed and unsigned is read as two numbers (if it is
not zero and has 64 signed bits), and a setting gives a number that is not the one in its text.

A text has one spelling at most, so that the five parts are about the same one. The test for a minus
skips blanks and tabs while the scanner skips every white space, and the texts between the two are
those that hide a minus. -/
theorem unsigned_unless_minus_hidden (t : Bytes) :
    ((∀ v, parseUnsigned t = some v ↔ Denotes t v) ↔ ¬ ∃ w : Spelling, w.text = t ∧ w.HidesMinus) ∧
    (∀ w : Spelling, w.text = t → w.HidesMinus →
      parseUnsigned t = some (-UInt64.ofNat w.magnitude)) ∧
    (((t.dropWhile Ascii.isSpace).head? = some 45 → parseUnsigned t = none) ↔
      ¬ ∃ w : Spelling, w.text = t ∧ w.HidesMinus) ∧
    ((∀ v n, parseUnsigned t = some v → parseSigned t = some n → (v.toNat : Int) = n) ↔
      ¬ ∃ w : Spelling, w.text = t ∧ w.HidesMinus ∧ 0 < w.magnitude ∧
        Int64.minValue.toInt ≤ w.number) ∧
    ∀ (s : Settings) (group key : Bytes), s.value? group key = some t →
      ((∀ fallback, s.unsigned group key fallback = fallback ∨
          ∃ w : Spelling, w.text = t ∧ w.number = ((s.unsigned group key fallback).toNat : Int)) ↔
        ¬ ∃ w : Spelling, w.text = t ∧ w.HidesMinus ∧ 0 < w.magnitude) := by
  refine ⟨⟨?_, ?_⟩, ?_, turned_away_iff, signed_agrees_iff, fun s group key h =>
    setting_spelled_iff h⟩
  · rintro hdenotes ⟨w, rfl, hhides⟩
    exact hhides.not_denotes ((hdenotes _).mp (parseUnsigned_of_hidesMinus hhides))
  · intro hnot v
    refine ⟨fun hv => ?_, Denotes.parseUnsigned⟩
    rcases denotes_or_hidesMinus hv with hdenotes | ⟨w, hw, hhides, -⟩
    · exact hdenotes
    · exact absurd ⟨w, hw, hhides⟩ hnot
  · rintro w rfl hhides
    exact parseUnsigned_of_hidesMinus hhides

/-- A minus behind a line feed. -/
def minusFive : Spelling where
  white := [10]
  sign := .minus
  digits := [53]
  blanks := []
  white_isSpace := List.forall_mem_singleton.mpr rfl
  digits_isDigit := List.forall_mem_singleton.mpr rfl
  digits_ne_nil := List.cons_ne_nil _ _
  blanks_isBlank := List.forall_mem_nil _

theorem minusFive_hidesMinus : minusFive.HidesMinus := ⟨rfl, by decide, by decide⟩

/-- A table that keeps the text under a key. -/
def minusFiveKept : Settings where
  entries := [⟨.ofBytes 63 [], .ofBytes 63 [107], .ofBytes 255 [10, 45, 53]⟩]
  length_le := by decide

/-- The text and the table at hand. -/
theorem minusFive_is_read :
    minusFive.text = [10, 45, 53] ∧ minusFive.HidesMinus ∧
      parseUnsigned [10, 45, 53] = some 18446744073709551611 ∧
      minusFiveKept.value? [] [107] = some [10, 45, 53] ∧
      ¬ ∀ fallback, minusFiveKept.unsigned [] [107] fallback = fallback ∨
        ∃ w : Spelling, w.text = [10, 45, 53] ∧
          w.number = ((minusFiveKept.unsigned [] [107] fallback).toNat : Int) := by
  have htext : minusFive.text = [10, 45, 53] := rfl
  have hkept : minusFiveKept.value? [] [107] = some [10, 45, 53] := by decide
  obtain ⟨-, hread, -, -, hsettings⟩ := unsigned_unless_minus_hidden [10, 45, 53]
  refine ⟨htext, minusFive_hidesMinus, hread minusFive htext minusFive_hidesMinus, hkept, ?_⟩
  rw [hsettings minusFiveKept [] [107] hkept]
  exact fun hnot => hnot ⟨minusFive, htext, minusFive_hidesMinus, by decide⟩

/-- **A text with a minus is read as an unsigned number**, and as another number than the signed
one; set as a value, it gives the wrapped number. -/
theorem minus_behind_line_feed :
    parseUnsigned [10, 45, 53] = some 18446744073709551611 ∧
      parseSigned [10, 45, 53] = some (-5) ∧
      (Settings.empty.set? [] [107] (some [10, 45, 53])).map (fun s => s.unsigned [] [107] 0)
        = some 18446744073709551611 := by
  decide

end Intake.Numeral
