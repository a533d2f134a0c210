/-
# Byte strings

Paths, settings, log lines and stream data are all byte strings here: nothing assumes that they are
valid in any character encoding.  A text that ends at its first zero byte, as the texts that the
library is called with do, is cut with `untilNul`, and numbers are written with `decimal`.
-/
namespace Intake

/-- A finite sequence of bytes. -/
abbrev Bytes := List UInt8

namespace Bytes

/-- The bytes of an ASCII literal. -/
def ofAscii (s : String) : Bytes := s.toList.map fun c => UInt8.ofNat c.toNat

/-- A text ends at its first zero byte. -/
def untilNul (b : Bytes) : Bytes := b.takeWhile (· != 0)

end Bytes

instance : Coe String Bytes := ⟨Bytes.ofAscii⟩

/-! ## 1. Numbers in base ten -/

/-- The character of one decimal digit. -/
def digit (d : Nat) : UInt8 := UInt8.ofNat (48 + d)

/-- The decimal digits of a number, without leading zeros. -/
def decimal (n : Nat) : Bytes :=
  if n < 10 then [digit n] else decimal (n / 10) ++ [digit (n % 10)]

/-- The decimal digits of an integer, after a minus sign when it is negative. -/
def signedDecimal (n : Int) : Bytes :=
  if n < 0 then 45 :: decimal n.natAbs else decimal n.natAbs

theorem decimal_of_lt {n : Nat} (h : n < 10) : decimal n = [digit n] := by
  rw [decimal, if_pos h]

theorem decimal_of_ge {n : Nat} (h : ¬ n < 10) : decimal n = decimal (n / 10) ++ [digit (n % 10)] := by
  rw [decimal, if_neg h]

theorem decimal_ne_nil (n : Nat) : decimal n ≠ [] := by
  by_cases h : n < 10
  · simp [decimal_of_lt h]
  · simp [decimal_of_ge h]

/-! ## 2. Cutting at a zero byte -/

/-- A text without a zero byte is whole. -/
theorem untilNul_eq_self {b : Bytes} (h : (0 : UInt8) ∉ b) : Bytes.untilNul b = b := by
  induction b with
  | nil => rfl
  | cons c r ih =>
    have hc : (c != 0) = true := by
      simp only [bne_iff_ne]
      rintro rfl
      exact h (by simp)
    have hr : (0 : UInt8) ∉ r := fun e => h (by simp [e])
    simpa [Bytes.untilNul, List.takeWhile_cons, hc] using ih hr

end Intake
