/-
Module: FixedShape.Proofs.Wire.Bytes
Purpose: Numbers of a fixed width are read back from the bytes they were written as, and a text is
  read back from its bytes.
-/
import FixedShape.Wire.Bytes
import Mathlib.Algebra.Group.Nat.Defs

namespace FixedShape.Wire.Bytes

@[simp] theorem length_littleEndian (width value : Nat) :
    (littleEndian width value).length = width := by
  induction width generalizing value with
  | zero => rfl
  | succ width ih => rw [littleEndian, List.length_cons, ih]

@[simp] theorem length_ofWord32 (word : UInt32) : (ofWord32 word).length = 4 :=
  length_littleEndian 4 word.toNat

@[simp] theorem length_ofWord64 (word : UInt64) : (ofWord64 word).length = 8 :=
  length_littleEndian 8 word.toNat

/-- The bytes of a number give the number back, as far as they reach. -/
theorem ofLittleEndian_littleEndian (width value : Nat) :
    ofLittleEndian (littleEndian width value) = value % 256 ^ width := by
  induction width generalizing value with
  | zero => rw [littleEndian, ofLittleEndian, Nat.pow_zero, Nat.mod_one]
  | succ width ih =>
      have hbyte : (UInt8.ofNat value).toNat = value % 256 := UInt8.toNat_ofNat
      rw [littleEndian, ofLittleEndian, ih, hbyte, Nat.pow_succ, Nat.mul_comm (256 ^ width),
        Nat.mod_mul]

theorem toWord32_ofWord32 (word : UInt32) : toWord32 (ofWord32 word) = word := by
  have hlt : word.toNat < 256 ^ 4 := word.toNat_lt
  rw [toWord32, ofWord32, ofLittleEndian_littleEndian, Nat.mod_eq_of_lt hlt, UInt32.ofNat_toNat]

theorem toWord64_ofWord64 (word : UInt64) : toWord64 (ofWord64 word) = word := by
  have hlt : word.toNat < 256 ^ 8 := word.toNat_lt
  rw [toWord64, ofWord64, ofLittleEndian_littleEndian, Nat.mod_eq_of_lt hlt, UInt64.ofNat_toNat]

/-- A number has the bytes that it was read from. -/
theorem littleEndian_ofLittleEndian (bytes : Bytes) :
    littleEndian bytes.length (ofLittleEndian bytes) = bytes := by
  induction bytes with
  | nil => rfl
  | cons byte rest ih =>
      have hbyte : byte.toNat < 256 := byte.toNat_lt
      have hlow : UInt8.ofNat (byte.toNat + 256 * ofLittleEndian rest) = byte := by
        apply UInt8.toNat_inj.mp
        rw [UInt8.toNat_ofNat']
        omega
      have hhigh : (byte.toNat + 256 * ofLittleEndian rest) / 256 = ofLittleEndian rest := by omega
      rw [List.length_cons, ofLittleEndian, littleEndian, hlow, hhigh, ih]

theorem ofLittleEndian_lt (bytes : Bytes) : ofLittleEndian bytes < 256 ^ bytes.length := by
  induction bytes with
  | nil => exact Nat.one_pos
  | cons byte rest ih =>
      have hbyte : byte.toNat < 256 := byte.toNat_lt
      rw [ofLittleEndian, List.length_cons, Nat.pow_succ]
      omega

theorem ofWord32_toWord32 {bytes : Bytes} (h : bytes.length = 4) :
    ofWord32 (toWord32 bytes) = bytes := by
  have hlt : ofLittleEndian bytes < 2 ^ 32 := by
    have hbound := ofLittleEndian_lt bytes
    rw [h] at hbound
    exact hbound
  rw [ofWord32, toWord32, UInt32.toNat_ofNat', Nat.mod_eq_of_lt hlt, ← h,
    littleEndian_ofLittleEndian]

theorem ofWord64_toWord64 {bytes : Bytes} (h : bytes.length = 8) :
    ofWord64 (toWord64 bytes) = bytes := by
  have hlt : ofLittleEndian bytes < 2 ^ 64 := by
    have hbound := ofLittleEndian_lt bytes
    rw [h] at hbound
    exact hbound
  rw [ofWord64, toWord64, UInt64.toNat_ofNat', Nat.mod_eq_of_lt hlt, ← h,
    littleEndian_ofLittleEndian]

end FixedShape.Wire.Bytes
