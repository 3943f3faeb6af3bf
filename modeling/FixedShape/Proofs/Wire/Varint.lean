/-
Module: FixedShape.Proofs.Wire.Varint
Purpose: A varint is read back as the value it was written for, and no reading takes fewer bytes
  than the shortest form of its value.
-/
import FixedShape.Wire.Varint
import Mathlib.Algebra.Group.Nat.Defs

namespace FixedShape.Wire.Varint

/-! ### Within a number of bytes -/

/-- What is read back. Nine bytes hold seven bits each and the tenth holds one. -/
theorem decodeWithin_encodeWithin (room : Nat) {value : Nat} (rest : Bytes)
    (h : value < 2 * 128 ^ room) :
    decodeWithin (room + 1) (encodeWithin room value ++ rest) =
      .ok (value, (encodeWithin room value).length) := by
  induction room generalizing value with
  | zero =>
      have hbyte : (UInt8.ofNat value).toNat = value := by
        rw [UInt8.toNat_ofNat']
        omega
      have hlow : UInt8.ofNat value < 0x80 := by
        rw [UInt8.lt_iff_toNat_lt, hbyte]
        exact Nat.lt_of_lt_of_le h (by decide)
      have hbit : ¬ 1 < UInt8.ofNat value := by
        rw [UInt8.lt_iff_toNat_lt, hbyte]
        exact Nat.not_lt.mpr (Nat.le_of_lt_succ h)
      simp [encodeWithin, decodeWithin, hlow, hbit, hbyte]
  | succ room ih =>
      by_cases hvalue : value < 0x80
      · have hbyte : (UInt8.ofNat value).toNat = value := by
          rw [UInt8.toNat_ofNat']
          omega
        have hlow : UInt8.ofNat value < 0x80 := by
          rw [UInt8.lt_iff_toNat_lt, hbyte]
          exact hvalue
        simp [encodeWithin, decodeWithin, hvalue, hlow, hbyte]
      · have hbyte : (UInt8.ofNat (value % 0x80 + 0x80)).toNat = value % 0x80 + 0x80 := by
          rw [UInt8.toNat_ofNat']
          omega
        have hhigh : ¬ UInt8.ofNat (value % 0x80 + 0x80) < 0x80 := by
          rw [UInt8.lt_iff_toNat_lt, hbyte]
          exact Nat.not_lt.mpr (Nat.le_add_left _ _)
        have hgroups : value / 0x80 < 2 * 128 ^ room := by
          rw [Nat.pow_succ] at h
          omega
        rw [encodeWithin, if_neg hvalue, List.cons_append, decodeWithin, if_neg hhigh, ih hgroups,
          hbyte, List.length_cons]
        have hsum : value % 0x80 + 0x80 - 0x80 + 0x80 * (value / 0x80) = value := by
          rw [Nat.add_sub_cancel]
          exact Nat.mod_add_div value 0x80
        simp only [hsum]

/-- What a reading takes: at least as many bytes as the shortest form of its value. -/
theorem length_le_of_decodeWithin {room : Nat} {bytes : Bytes} {value size : Nat}
    (h : decodeWithin (room + 1) bytes = .ok (value, size)) :
    value < 2 * 128 ^ room ∧ (encodeWithin room value).length ≤ size ∧ size ≤ bytes.length := by
  induction room generalizing bytes value size with
  | zero =>
      cases bytes with
      | nil => cases h
      | cons byte rest =>
          rw [decodeWithin] at h
          split at h
          · split at h
            · cases h
            · next hbit =>
                cases h
                have hle : ¬ (1 : UInt8).toNat < byte.toNat := fun hlt => hbit ⟨rfl, hlt⟩
                refine ⟨?_, Nat.le_refl 1, Nat.le_add_left 1 rest.length⟩
                simp at hle
                omega
          · cases h
  | succ room ih =>
      cases bytes with
      | nil => cases h
      | cons byte rest =>
          rw [decodeWithin] at h
          split at h
          · next hlow =>
              rw [if_neg (fun hfull => Nat.succ_ne_zero room hfull.1)] at h
              cases h
              have hvalue : byte.toNat < 0x80 := hlow
              have hgroups : 0 < 128 ^ room := Nat.pow_pos (by decide)
              rw [encodeWithin, if_pos hvalue, Nat.pow_succ]
              exact ⟨by omega, Nat.le_refl 1, Nat.le_add_left 1 rest.length⟩
          · next hhigh =>
              split at h
              · cases h
              · next high size hrest =>
                  cases h
                  obtain ⟨hlt, hshort, hsize⟩ := ih hrest
                  have hbyte : byte.toNat < 256 := byte.toNat_lt
                  have hdiv : (byte.toNat - 0x80 + 0x80 * high) / 0x80 = high := by omega
                  refine ⟨?_, ?_, Nat.succ_le_succ hsize⟩
                  · rw [Nat.pow_succ]
                    omega
                  · rw [encodeWithin]
                    split
                    · exact Nat.le_add_left 1 size
                    · rw [hdiv]
                      exact Nat.succ_le_succ hshort

/-- The number of bytes is that of the groups of seven bits. -/
theorem length_encodeWithin_succ (room value : Nat) :
    (encodeWithin (room + 1) value).length =
      if value < 0x80 then 1 else (encodeWithin room (value / 0x80)).length + 1 := by
  rw [encodeWithin]
  split
  · rfl
  · rfl

theorem length_encodeWithin_pos (room value : Nat) : 1 ≤ (encodeWithin room value).length := by
  cases room with
  | zero => exact Nat.le_refl 1
  | succ room =>
      rw [length_encodeWithin_succ]
      split
      · exact Nat.le_refl 1
      · exact Nat.le_add_left 1 _

theorem length_encodeWithin_le (room value : Nat) :
    (encodeWithin room value).length ≤ room + 1 := by
  induction room generalizing value with
  | zero => exact Nat.le_refl 1
  | succ room ih =>
      rw [length_encodeWithin_succ]
      split
      · exact Nat.le_add_left 1 _
      · exact Nat.succ_le_succ (ih _)

/-- A number of more than `groups` groups fills more than as many bytes. -/
theorem lt_length_encodeWithin {groups room value : Nat} (hroom : groups ≤ room)
    (hvalue : 128 ^ groups ≤ value) : groups < (encodeWithin room value).length := by
  induction groups generalizing room value with
  | zero => exact length_encodeWithin_pos room value
  | succ groups ih =>
      cases room with
      | zero => exact absurd hroom (Nat.not_succ_le_zero groups)
      | succ room =>
          rw [Nat.pow_succ] at hvalue
          have hpos : 0 < 128 ^ groups := Nat.pow_pos (by decide)
          have hdiv : 128 ^ groups ≤ value / 0x80 := by omega
          rw [length_encodeWithin_succ, if_neg (by omega)]
          exact Nat.succ_lt_succ (ih (Nat.le_of_succ_le_succ hroom) hdiv)

theorem length_encodeWithin_mono (room : Nat) {small large : Nat} (h : small ≤ large) :
    (encodeWithin room small).length ≤ (encodeWithin room large).length := by
  induction room generalizing small large with
  | zero => exact Nat.le_refl 1
  | succ room ih =>
      have hdiv : (encodeWithin room (small / 0x80)).length ≤
          (encodeWithin room (large / 0x80)).length := ih (Nat.div_le_div_right h)
      rw [length_encodeWithin_succ, length_encodeWithin_succ]
      split
      · split
        · exact Nat.le_refl 1
        · exact Nat.le_add_left 1 _
      · next hsmall =>
          rw [if_neg (fun hlarge => hsmall (Nat.lt_of_le_of_lt h hlarge))]
          exact Nat.succ_le_succ hdiv

/-- One more bit takes at most one more byte. -/
theorem length_encodeWithin_double (room value : Nat) :
    (encodeWithin room (2 * value + 1)).length ≤ (encodeWithin room value).length + 1 := by
  induction room generalizing value with
  | zero => exact Nat.le_succ 1
  | succ room ih =>
      have hhalf : (2 * value + 1) / 0x80 ≤ 2 * (value / 0x80) + 1 := by omega
      have hrest : (encodeWithin room ((2 * value + 1) / 0x80)).length ≤
          (encodeWithin room (value / 0x80)).length + 1 :=
        Nat.le_trans (length_encodeWithin_mono room hhalf) (ih (value / 0x80))
      rw [length_encodeWithin_succ, length_encodeWithin_succ]
      split
      · exact Nat.le_add_left 1 _
      · split
        · next hvalue =>
            have hone : (2 * value + 1) / 0x80 = 1 := by omega
            have hbyte : (encodeWithin room 1).length = 1 := by
              cases room with
              | zero => rfl
              | succ room => rfl
            rw [hone]
            exact Nat.succ_le_succ (Nat.le_of_eq hbyte)
        · exact Nat.succ_le_succ hrest

/-! ### Sizes -/

/-- The number of bytes that a number fills in its shortest form. -/
def size (value : Nat) : Nat := (encodeWithin (maxSize - 1) value).length

theorem size_pos (value : Nat) : 1 ≤ size value := length_encodeWithin_pos _ value

theorem size_mono {small large : Nat} (h : small ≤ large) : size small ≤ size large :=
  length_encodeWithin_mono _ h

/-- A sum takes no more bytes than its parts. -/
theorem size_add_le (first second : Nat) : size (first + second) ≤ size first + size second := by
  have hdouble (value : Nat) : size (2 * value + 1) ≤ size value + 1 :=
    length_encodeWithin_double _ value
  have hfirst : 1 ≤ size first := size_pos first
  have hsecond : 1 ≤ size second := size_pos second
  cases Nat.le_total first second with
  | inl hle =>
      have hsum : size (first + second) ≤ size (2 * second + 1) := size_mono (by omega)
      have := hdouble second
      omega
  | inr hle =>
      have hsum : size (first + second) ≤ size (2 * first + 1) := size_mono (by omega)
      have := hdouble first
      omega

/-- Small numbers fill a byte. -/
theorem size_eq_one {value : Nat} (h : value < 0x80) : size value = 1 := by
  rw [size, maxSize, encodeWithin, if_pos h]
  rfl

/-- The bytes of a number hold seven bits each, so its low bits do not count if it has others. -/
theorem size_mul_add (number : Nat) {low : Nat} (h : low < 8) :
    size (8 * number + low) = size (8 * number) := by
  have hiff : 8 * number + low < 0x80 ↔ 8 * number < 0x80 := by omega
  have hdiv : (8 * number + low) / 0x80 = 8 * number / 0x80 := by omega
  change (encodeWithin (8 + 1) _).length = (encodeWithin (8 + 1) _).length
  rw [length_encodeWithin_succ 8 (8 * number), length_encodeWithin_succ 8, hdiv]
  simp only [hiff]

/-! ### Values of 64 bits -/

theorem length_encode (value : UInt64) : (encode value).length = size value.toNat := rfl

theorem length_encode_pos (value : UInt64) : 1 ≤ (encode value).length :=
  length_encodeWithin_pos _ _

theorem length_encode_le (value : UInt64) : (encode value).length ≤ 10 :=
  length_encodeWithin_le _ _

theorem decode_of_ne_nil {bytes : Bytes} (h : bytes ≠ []) :
    decode bytes =
      (decodeWithin maxSize bytes).map fun read => (UInt64.ofNat read.1, read.2) := by
  cases bytes with
  | nil => exact absurd rfl h
  | cons byte rest =>
      rw [decode]
      · cases decodeWithin maxSize (byte :: rest) <;> rfl
      · exact h

/-- A value is read back, whatever follows it. -/
theorem decode_encode (value : UInt64) (rest : Bytes) :
    decode (encode value ++ rest) = .ok (value, (encode value).length) := by
  have hlt : value.toNat < 2 * 128 ^ 9 := value.toNat_lt
  have hne : encode value ++ rest ≠ [] := by
    intro h
    have hpos : 1 ≤ (encode value).length := length_encode_pos value
    rw [(List.append_eq_nil_iff.mp h).1] at hpos
    exact absurd hpos (by decide)
  rw [decode_of_ne_nil hne, encode]
  change (decodeWithin (9 + 1) (encodeWithin 9 value.toNat ++ rest)).map _ = _
  rw [decodeWithin_encodeWithin 9 rest hlt]
  change Except.ok (UInt64.ofNat value.toNat, _) = _
  rw [UInt64.ofNat_toNat]
  rfl

/-- A value that was read fills at least as many bytes as its shortest form. -/
theorem length_le_of_decode {bytes : Bytes} {value : UInt64} {taken : Nat}
    (h : decode bytes = .ok (value, taken)) :
    (encode value).length ≤ taken ∧ taken ≤ bytes.length := by
  have hne : bytes ≠ [] := by
    intro hnil
    rw [hnil] at h
    cases h
  rw [decode_of_ne_nil hne] at h
  cases hread : decodeWithin maxSize bytes with
  | error error =>
      rw [hread] at h
      cases h
  | ok read =>
      rw [hread] at h
      cases h
      have hread' : decodeWithin (9 + 1) bytes = .ok (read.1, read.2) := hread
      obtain ⟨hlt, hshort, hsize⟩ := length_le_of_decodeWithin hread'
      have hvalue : (UInt64.ofNat read.1).toNat = read.1 := by
        rw [UInt64.toNat_ofNat']
        exact Nat.mod_eq_of_lt (Nat.lt_of_lt_of_le hlt (by decide))
      refine ⟨?_, hsize⟩
      rw [length_encode, hvalue]
      exact hshort

end FixedShape.Wire.Varint
