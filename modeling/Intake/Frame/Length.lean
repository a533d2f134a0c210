/-
# Length fields

Models `EncodeLe64` and `DecodeLe64`: a length is written as eight bytes, the lowest first.
-/
import Intake.Bytes

namespace Intake.Frame

/-- How many bytes a length field has. -/
def lengthWidth : Nat := 8

/-- The lowest bytes of a word, lowest first. -/
def lowBytes (v : UInt64) : (count : Nat) → Bytes
  | 0 => []
  | k + 1 => v.toUInt8 :: lowBytes (v >>> 8) k

/-- The bytes of a length field. -/
def encodeLength (v : UInt64) : Bytes := lowBytes v lengthWidth

/-- The word that bytes stand for, lowest first. -/
def decodeLength (b : Bytes) : UInt64 := b.foldr (fun x v => (v <<< 8) ||| x.toUInt64) 0

theorem length_lowBytes (v : UInt64) (k : Nat) : (lowBytes v k).length = k := by
  induction k generalizing v with
  | zero => rfl
  | succ k ih => simp [lowBytes, ih]

theorem length_encodeLength (v : UInt64) : (encodeLength v).length = lengthWidth :=
  length_lowBytes v lengthWidth

end Intake.Frame
