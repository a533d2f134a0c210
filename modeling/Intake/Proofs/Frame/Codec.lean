/-
# Length fields and the numbers they stand for

The bytes of a length field are the digits of a number in base 256, lowest first (`digits`).
Reading a field of at most eight bytes, as `DecodeLe64` does, gives that number
(`toNat_decodeLength`), and writing a word, as `EncodeLe64` does, gives its digits
(`ofDigits_lowBytes`).  Digits of one length are determined by their number, so writing and reading
undo each other in both directions (`decodeLength_encodeLength`, `encodeLength_decodeLength`).  Each
byte that is written holds eight bits of the word as they stand (`toBitVec_getElem_lowBytes`), and
with that words and fields correspond one to one (`length_codec_bijective`).
-/
import Mathlib
import Intake.Frame.Encoding

namespace Intake.Frame

/-! ## 1. Digits in base 256 -/

/-- The bytes as digits. -/
def digits (b : Bytes) : List Nat := b.map UInt8.toNat

theorem digits_lt {b : Bytes} : ∀ d ∈ digits b, d < 256 := by
  intro d hd
  obtain ⟨x, -, rfl⟩ := List.mem_map.mp hd
  exact x.toNat_lt

theorem ofDigits_lt (b : Bytes) : Nat.ofDigits 256 (digits b) < 256 ^ b.length := by
  have h := Nat.ofDigits_lt_base_pow_length (b := 256) (by omega) (digits_lt (b := b))
  rwa [digits, List.length_map] at h

theorem eq_of_ofDigits_eq {a b : Bytes} (hlen : a.length = b.length)
    (h : Nat.ofDigits 256 (digits a) = Nat.ofDigits 256 (digits b)) : a = b := by
  have hdigits : digits a = digits b :=
    Nat.ofDigits_inj_of_len_eq (by omega) (by simp [digits, hlen]) digits_lt digits_lt h
  exact List.map_injective_iff.mpr (fun _ _ => UInt8.toNat_inj.mp) hdigits

/-! ## 2. Reading and writing -/

/-- One byte more in front: the word moves up by eight bits, and none of them is lost. -/
theorem toNat_shift_or {v : UInt64} (x : UInt8) (h : v.toNat < 256 ^ 7) :
    ((v <<< 8) ||| x.toUInt64).toNat = x.toNat + 256 * v.toNat := by
  have hshift : (v <<< 8).toNat = v.toNat <<< 8 := by
    rw [UInt64.toNat_shiftLeft]
    show v.toNat <<< 8 % 2 ^ 64 = v.toNat <<< 8
    rw [Nat.shiftLeft_eq]
    omega
  rw [UInt64.toNat_or, hshift, UInt8.toNat_toUInt64,
    ← Nat.shiftLeft_add_eq_or_of_lt x.toNat_lt, Nat.shiftLeft_eq]
  omega

theorem toNat_decodeLength {b : Bytes} (h : b.length ≤ lengthWidth) :
    (decodeLength b).toNat = Nat.ofDigits 256 (digits b) := by
  induction b with
  | nil => rfl
  | cons x r ih =>
    have hr : r.length ≤ 7 := by
      simp only [List.length_cons, lengthWidth] at h
      omega
    have ih := ih (by simp only [lengthWidth]; omega)
    have hlt : (decodeLength r).toNat < 256 ^ 7 := by
      rw [ih]
      exact lt_of_lt_of_le (ofDigits_lt r) (Nat.pow_le_pow_right (by omega) hr)
    have hstep : decodeLength (x :: r) = (decodeLength r <<< 8) ||| x.toUInt64 := rfl
    have hcons : digits (x :: r) = x.toNat :: digits r := rfl
    rw [hstep, toNat_shift_or x hlt, ih, hcons, Nat.ofDigits_cons]

theorem ofDigits_lowBytes (v : UInt64) (k : Nat) :
    Nat.ofDigits 256 (digits (lowBytes v k)) = v.toNat % 256 ^ k := by
  induction k generalizing v with
  | zero => simp [lowBytes, digits, Nat.mod_one]
  | succ k ih =>
    have hshift : (v >>> 8).toNat = v.toNat / 256 := by
      rw [UInt64.toNat_shiftRight]
      exact Nat.shiftRight_eq_div_pow _ _
    have hcons : digits (lowBytes v (k + 1)) = v.toNat % 256 :: digits (lowBytes (v >>> 8) k) := by
      simp [digits, lowBytes]
    rw [hcons, Nat.ofDigits_cons, ih, hshift, pow_succ', Nat.mod_mul]

theorem decodeLength_encodeLength (v : UInt64) : decodeLength (encodeLength v) = v := by
  apply UInt64.toNat_inj.mp
  rw [toNat_decodeLength (length_encodeLength v).le, encodeLength, ofDigits_lowBytes]
  exact Nat.mod_eq_of_lt v.toNat_lt

theorem encodeLength_decodeLength {p : Bytes} (h : p.length = lengthWidth) :
    encodeLength (decodeLength p) = p := by
  have hlt := ofDigits_lt p
  rw [h] at hlt
  apply eq_of_ofDigits_eq (by rw [length_encodeLength, h])
  rw [encodeLength, ofDigits_lowBytes, toNat_decodeLength h.le]
  exact Nat.mod_eq_of_lt hlt

/-! ## 3. The bits of each byte -/

theorem extractLsb_shiftRight_byte (v : UInt64) (start : Nat) :
    (v >>> 8).toBitVec.extractLsb' start 8 = v.toBitVec.extractLsb' (start + 8) 8 := by
  have hshift : (v >>> 8).toBitVec = v.toBitVec >>> 8 := rfl
  ext j hj
  rw [hshift, BitVec.getElem_extractLsb', BitVec.getElem_extractLsb', BitVec.getLsbD_ushiftRight]
  congr 1
  omega

theorem toBitVec_getElem_lowBytes (v : UInt64) (k : Nat) {i : Nat}
    (hi : i < (lowBytes v k).length) :
    (lowBytes v k)[i].toBitVec = v.toBitVec.extractLsb' (8 * i) 8 := by
  -- behind its first byte a word goes on as the word moved down, so the induction is for any word
  induction k generalizing v i with
  | zero => simp [lowBytes] at hi
  | succ k ih =>
    cases i with
    | zero => exact BitVec.setWidth_eq_extractLsb' (by decide : 8 ≤ 64)
    | succ i =>
      have hi : i < (lowBytes (v >>> 8) k).length := Nat.lt_of_succ_lt_succ hi
      calc (lowBytes v (k + 1))[i + 1].toBitVec
          = (lowBytes (v >>> 8) k)[i].toBitVec := rfl
        _ = (v >>> 8).toBitVec.extractLsb' (8 * i) 8 := ih (v >>> 8) hi
        _ = v.toBitVec.extractLsb' (8 * (i + 1)) 8 := extractLsb_shiftRight_byte v (8 * i)

/-! ## 4. Words and fields -/

/-- **Words and the bytes of length fields correspond one to one.**  A word comes back from the
bytes it is written as, the bytes of a field come back from the word they stand for, and byte `i` of
what is written for a word is made of its bits `8 * i` to `8 * i + 7`.

Digits in base 256 and their number determine each other, as long as there are eight of them; a word
has no more than eight, and so neither direction loses anything. -/
theorem length_codec_bijective (v : UInt64) {p : Bytes} (hp : p.length = lengthWidth) :
    decodeLength (encodeLength v) = v ∧
      encodeLength (decodeLength p) = p ∧
      (encodeLength v).length = lengthWidth ∧
      ∀ (i : Nat) (hi : i < (encodeLength v).length),
        (encodeLength v)[i].toBitVec = v.toBitVec.extractLsb' (8 * i) 8 :=
  ⟨decodeLength_encodeLength v, encodeLength_decodeLength hp, length_encodeLength v,
    fun _ hi => toBitVec_getElem_lowBytes v lengthWidth hi⟩

/-- A word with its highest bit set, and a field of which each byte has. -/
theorem length_codec_bijective_high_bits :
    ([255, 254, 253, 252, 251, 250, 249, 248] : Bytes).length = lengthWidth ∧
      decodeLength (encodeLength 0x80000000000000ff) = 0x80000000000000ff ∧
      encodeLength (decodeLength [255, 254, 253, 252, 251, 250, 249, 248])
        = [255, 254, 253, 252, 251, 250, 249, 248] ∧
      encodeLength 0x80000000000000ff = [255, 0, 0, 0, 0, 0, 0, 128] ∧
      ∀ (i : Nat) (hi : i < (encodeLength 0x80000000000000ff).length),
        (encodeLength 0x80000000000000ff)[i].toBitVec
          = (0x80000000000000ff : UInt64).toBitVec.extractLsb' (8 * i) 8 := by
  have hp : ([255, 254, 253, 252, 251, 250, 249, 248] : Bytes).length = lengthWidth := rfl
  obtain ⟨hword, hfield, -, hbits⟩ := length_codec_bijective 0x80000000000000ff hp
  exact ⟨hp, hword, hfield, by decide, hbits⟩

end Intake.Frame
