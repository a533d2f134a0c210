/-
# Reading whole numbers from text

Models `ParseSigned` and `ParseUnsigned`, and the scanner `Numeral.scan` under them: a numeral is
optional white space, an optional sign and at least one decimal digit.  `parseSigned` reads the
whole text as such a number within 64 signed bits; `parseUnsigned` reads one within 64 unsigned
bits.  After the digits only blanks may follow.

`parseUnsigned` turns away a minus sign that comes first or after blanks.  A minus sign that the
scanner itself meets, behind white space that is no blank, negates modulo `2 ^ 64`.
-/
import Intake.Text.Ascii

namespace Intake

/-- A scanned numeral: its sign, its digits and the text behind it. -/
structure Numeral where
  negative : Bool
  digits : Bytes
  rest : Bytes
  deriving DecidableEq, Repr

/-- The number that a string of decimal digits denotes. -/
def digitsValue (ds : Bytes) : Nat := ds.foldl (fun n d => 10 * n + (d.toNat - 48)) 0

namespace Numeral

/-- Splits an optional sign off: `true` for a minus. -/
def sign : Bytes → Bool × Bytes
  | [] => (false, [])
  | c :: r => if c = 45 then (true, r) else if c = 43 then (false, r) else (false, c :: r)

/-- Scans white space, a sign and digits; `none` when there is no digit. -/
def scan (t : Bytes) : Option Numeral :=
  let signed := sign (t.dropWhile Ascii.isSpace)
  let digits := signed.2.takeWhile Ascii.isDigit
  if digits.isEmpty then none
  else some ⟨signed.1, digits, signed.2.dropWhile Ascii.isDigit⟩

/-- The number without its sign. -/
def magnitude (n : Numeral) : Nat := digitsValue n.digits

/-- The number with its sign. -/
def value (n : Numeral) : Int := if n.negative then -(n.magnitude : Int) else n.magnitude

end Numeral

/-- Reads a whole text as a number from `-2 ^ 63` to `2 ^ 63 - 1`. -/
def parseSigned (t : Bytes) : Option Int :=
  match Numeral.scan t with
  | none => none
  | some n =>
    if Int64.minValue.toInt ≤ n.value ∧ n.value ≤ Int64.maxValue.toInt ∧ Ascii.onlyBlanks n.rest
    then some n.value
    else none

/-- Reads a whole text as a number below `2 ^ 64`. -/
def parseUnsigned (t : Bytes) : Option UInt64 :=
  let t := t.dropWhile Ascii.isBlank
  if t.head? = some 45 then none
  else
    match Numeral.scan t with
    | none => none
    | some n =>
      if n.magnitude < UInt64.size ∧ Ascii.onlyBlanks n.rest then
        some (if n.negative then -UInt64.ofNat n.magnitude else UInt64.ofNat n.magnitude)
      else none

/-! ## 1. What scanning leaves -/

theorem digitsValue_nil : digitsValue [] = 0 := rfl

theorem digitsValue_append (ds : Bytes) (d : UInt8) :
    digitsValue (ds ++ [d]) = 10 * digitsValue ds + (d.toNat - 48) := by
  simp [digitsValue, List.foldl_append]

/-- A numeral's digits are digits, and there is at least one. -/
theorem Numeral.scan_digits {t : Bytes} {n : Numeral} (h : scan t = some n) :
    n.digits ≠ [] ∧ n.digits.all Ascii.isDigit = true := by
  simp only [scan] at h
  split at h
  · simp at h
  · rename_i hd
    simp only [Option.some.injEq] at h
    subst h
    refine ⟨?_, List.all_takeWhile⟩
    simpa using hd

end Intake
