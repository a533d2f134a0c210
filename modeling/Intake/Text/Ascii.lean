/-
# ASCII classes and case folding

What `AsciiLower`, `CaseEqual` and `OnlyBlanks` go by.  Only the letters `A` to `Z` have a case;
every other byte, those above 127 included, is its own lower-case form.  Blanks are the space and
the tab; white space adds the line feed, vertical tab, form feed and carriage return.
-/
import Intake.Bytes

namespace Intake.Ascii

/-- The space and the tab. -/
def isBlank (c : UInt8) : Bool := c == 32 || c == 9

/-- The space and the control characters from the tab to the carriage return. -/
def isSpace (c : UInt8) : Bool := c == 32 || (9 ≤ c && c ≤ 13)

/-- The characters `0` to `9`. -/
def isDigit (c : UInt8) : Bool := 48 ≤ c && c ≤ 57

/-- Maps `A` to `Z` onto `a` to `z` and leaves every other byte alone. -/
def lower (c : UInt8) : UInt8 := if 65 ≤ c && c ≤ 90 then c + 32 else c

/-- Lower-case form of a text. -/
def fold (t : Bytes) : Bytes := t.map lower

/-- Two texts that differ at most in the case of ASCII letters. -/
def sameText : Bytes → Bytes → Bool
  | [], [] => true
  | a :: as, b :: bs => lower a == lower b && sameText as bs
  | _, _ => false

/-- True when nothing but blanks is left. -/
def onlyBlanks (t : Bytes) : Bool := t.all isBlank

/-! ## 1. Comparison is equality of lower-case forms -/

theorem sameText_iff (a b : Bytes) : sameText a b = true ↔ fold a = fold b := by
  induction a generalizing b with
  | nil => cases b <;> simp [sameText, fold]
  | cons x xs ih =>
    cases b with
    | nil => simp [sameText, fold]
    | cons y ys => simp [sameText, fold, ih ys]

theorem isSpace_of_isBlank {c : UInt8} (h : isBlank c = true) : isSpace c = true := by
  simp only [isBlank, Bool.or_eq_true, beq_iff_eq] at h
  rcases h with rfl | rfl <;> decide

end Intake.Ascii
