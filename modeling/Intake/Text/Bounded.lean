/-
# Text of bounded length

Models `FixedString`.  Names and settings are kept in slots of a fixed capacity.  A longer text is
cut to its first `capacity` bytes, and a text never holds a zero byte: it ends there.
-/
import Intake.Bytes

namespace Intake

/-- A text of at most `capacity` bytes. -/
structure Bounded (capacity : Nat) where
  text : Bytes
  length_le : text.length ≤ capacity
  deriving DecidableEq, Repr

namespace Bounded

variable {capacity : Nat}

/-- Keeps the first `capacity` bytes of a text, up to its first zero byte. -/
def ofBytes (capacity : Nat) (t : Bytes) : Bounded capacity :=
  ⟨(Bytes.untilNul t).take capacity, List.length_take_le capacity _⟩

/-- An absent text counts as the empty one. -/
def ofBytes? (capacity : Nat) (t : Option Bytes) : Bounded capacity :=
  ofBytes capacity (t.getD [])

/-- The empty text. -/
def empty : Bounded capacity := ⟨[], by simp⟩

instance : Inhabited (Bounded capacity) := ⟨empty⟩

/-- Number of bytes held. -/
def size (s : Bounded capacity) : Nat := s.text.length

/-- Compares with a text; an absent text equals nothing. -/
def equals? (s : Bounded capacity) (t : Option Bytes) : Bool :=
  match t with
  | none => false
  | some t => s.text == t

theorem text_ofBytes (t : Bytes) :
    (ofBytes capacity t).text = (Bytes.untilNul t).take capacity := rfl

theorem text_ofBytes_of_le {t : Bytes} (h0 : (0 : UInt8) ∉ t) (h : t.length ≤ capacity) :
    (ofBytes capacity t).text = t := by
  rw [text_ofBytes, untilNul_eq_self h0, List.take_of_length_le h]

end Bounded

end Intake
