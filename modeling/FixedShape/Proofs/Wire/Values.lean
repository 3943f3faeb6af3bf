/-
Module: FixedShape.Proofs.Wire.Values
Purpose: The schema types of fields. Each reads back what it writes, and a value that was read is
  written in at most twice the bytes that its field filled: a 32-bit integer may widen, and a list
  may change its packing.
-/
import FixedShape.Proofs.Wire.Fields

namespace FixedShape.Wire

open FixedShape.Outcome

/-! ### Texts and widened integers -/

@[simp] theorem Bytes.toText?_ofText (text : String) :
    Bytes.toText? (Bytes.ofText text) = some text := by
  unfold Bytes.toText? Bytes.ofText String.fromUTF8?
  exact dif_pos text.isValidUTF8

theorem Bytes.ofText_of_toText? {bytes : Bytes} {text : String}
    (h : Bytes.toText? bytes = some text) : Bytes.ofText text = bytes := by
  unfold Bytes.toText? String.fromUTF8? at h
  split at h
  · cases h
    rfl
  · cases h

/-- The low half of a widened integer is the integer. -/
@[simp] theorem toInt32_widen (value : Int32) :
    value.toInt64.toUInt64.toUInt32.toInt32 = value := by
  apply Int32.toBitVec_inj.mp
  change (value.toBitVec.signExtend 64).setWidth 32 = value.toBitVec
  apply BitVec.eq_of_toNat_eq
  have hlt : value.toBitVec.toNat < 2 ^ 32 := value.toBitVec.isLt
  rw [BitVec.toNat_setWidth, BitVec.toNat_signExtend, BitVec.toNat_setWidth]
  split
  · omega
  · omega

/-- The low half of a value, widened with its sign, takes at most twice the bytes. A half below
`2 ^ 31` does not grow, and one above it stands in a value of five bytes. -/
theorem size_widen_le (value : UInt64) :
    Varint.size (value.toUInt32.toInt32.toInt64.toUInt64).toNat ≤ 2 * Varint.size value.toNat := by
  have hhalf : value.toUInt32.toInt32.toBitVec.toNat = value.toNat % 2 ^ 32 := by
    change value.toUInt32.toNat = _
    rw [UInt64.toNat_toUInt32]
  have hlt : value.toNat % 2 ^ 32 < 2 ^ 32 := Nat.mod_lt _ (by decide)
  have hle : value.toNat % 2 ^ 32 ≤ value.toNat := Nat.mod_le _ _
  cases hsign : value.toUInt32.toInt32.toBitVec.msb with
  | false =>
      have hwide : (value.toUInt32.toInt32.toInt64.toUInt64).toNat = value.toNat % 2 ^ 32 := by
        change (value.toUInt32.toInt32.toBitVec.signExtend 64).toNat = _
        rw [BitVec.toNat_signExtend, hsign, BitVec.toNat_setWidth, hhalf, if_neg Bool.false_ne_true]
        omega
      have hsize : Varint.size (value.toNat % 2 ^ 32) ≤ Varint.size value.toNat :=
        Varint.size_mono hle
      rw [hwide]
      omega
  | true =>
      have hlarge : 2 ^ 31 ≤ value.toNat % 2 ^ 32 := by
        have := BitVec.msb_eq_true_iff_two_mul_ge.mp hsign
        omega
      have hfive : 4 < Varint.size value.toNat :=
        Varint.lt_length_encodeWithin (by decide) (by omega)
      have hten : Varint.size (value.toUInt32.toInt32.toInt64.toUInt64).toNat ≤ 10 :=
        Varint.length_encodeWithin_le _ _
      omega

/-! ### Sizes of fields -/

namespace Emit

theorem length_tag_pos (number wireType : UInt64) : 1 ≤ (tag number wireType).length :=
  Varint.length_encode_pos _

/-- Small numbers have tags of one byte. -/
theorem length_tag_eq_one {number wireType : UInt64} (hnumber : number.toNat < 16)
    (hwire : wireType.toNat < 8) : (tag number wireType).length = 1 := by
  rw [length_tag (by omega) hwire]
  exact Varint.size_eq_one (by omega)

/-- The length of a payload is written with 64 bits. -/
theorem length_bytes_mod (number : UInt64) (payload : Bytes) :
    (bytes number payload).length =
      (tag number 2).length + (Varint.size (payload.length % 2 ^ 64) + payload.length) := by
  rw [bytes, List.length_append, List.length_append, Varint.length_encode, UInt64.toNat_ofNat']

theorem block_of_ne_nil {number : UInt64} {payload : Bytes} (h : payload ≠ []) :
    block number payload = bytes number payload := by
  cases payload with
  | nil => exact absurd rfl h
  | cons byte rest => rfl

theorem length_le_length_bytes (number : UInt64) (payload : Bytes) :
    payload.length ≤ (bytes number payload).length := by
  rw [length_bytes_mod]
  omega

end Emit

namespace Field

/-- The bytes of a field whose payload they become are at most twice those of this field. -/
def Holds (field : Field) (payload : Bytes) : Prop :=
  (Emit.tag field.number 2).length + (Varint.size payload.length + payload.length) ≤
    2 * (Emit.field field).length

theorem length_field {field : Field} (h : field.Writable) :
    (Emit.field field).length = (Emit.tag field.number 2).length + field.value.toBytes.length := by
  rw [Emit.field_eq, List.length_append, Emit.length_tag h.number_lt field.value.wireType_lt,
    Emit.length_tag h.number_lt (by decide)]

/-- A payload of twice the length of the one that was read. -/
theorem holds_of_bytes {field : Field} {old new : Bytes} (h : field.Writable)
    (hvalue : field.value = .bytes old) (hlength : new.length ≤ 2 * old.length) :
    field.Holds new := by
  have hsize : Varint.size new.length ≤ Varint.size (old.length + old.length) :=
    Varint.size_mono (by omega)
  have hdouble := Varint.size_add_le old.length old.length
  have hold : field.value.toBytes.length = Varint.size old.length + old.length := by
    rw [hvalue, Value.toBytes, List.length_append, Varint.length_encode, UInt64.toNat_ofNat',
      Nat.mod_eq_of_lt (h.length_lt old hvalue)]
  rw [Holds, length_field h, hold]
  omega

/-- A payload of one value that stood by itself. -/
theorem holds_of_single {field : Field} {new : Bytes} (h : field.Writable)
    (hlength : new.length ≤ 2 * field.value.toBytes.length) (hsmall : new.length < 0x80) :
    field.Holds new := by
  have htag := Emit.length_tag_pos field.number 2
  rw [Holds, length_field h, Varint.size_eq_one hsmall]
  omega

theorem Holds.length_bytes_le {field : Field} {payload : Bytes} (h : field.Holds payload) :
    (Emit.bytes field.number payload).length ≤ 2 * (Emit.field field).length := by
  have hsize : Varint.size (payload.length % 2 ^ 64) ≤ Varint.size payload.length :=
    Varint.size_mono (Nat.mod_le _ _)
  rw [Holds] at h
  rw [Emit.length_bytes_mod]
  omega

/-- What a block grows by. -/
theorem Holds.length_block_le {field : Field} {payload : Bytes} (h : field.Holds payload)
    (before : Bytes) :
    (Emit.block field.number (before ++ payload)).length ≤
      (Emit.block field.number before).length + 2 * (Emit.field field).length := by
  cases before with
  | nil =>
      rw [List.nil_append, Emit.block]
      split
      · exact Nat.zero_le _
      · exact Nat.le_trans h.length_bytes_le (Nat.le_add_left _ _)
  | cons byte behind =>
      have hne : byte :: behind ≠ [] := List.cons_ne_nil byte behind
      rw [Emit.block_of_ne_nil hne,
        Emit.block_of_ne_nil (List.append_ne_nil_of_left_ne_nil hne payload)]
      have hmod : (byte :: behind ++ payload).length % 2 ^ 64 ≤
          (byte :: behind).length % 2 ^ 64 + payload.length := by
        rw [List.length_append]
        omega
      have hsize := Nat.le_trans (Varint.size_mono hmod) (Varint.size_add_le _ _)
      rw [Holds] at h
      rw [Emit.length_bytes_mod, Emit.length_bytes_mod, List.length_append]
      rw [List.length_append] at hsize
      omega

/-! ### Single values -/

variable {field : Field} {context : Context}

@[simp] theorem asText_ofText (number : UInt64) (context : Context) (text : String) :
    asText { number, value := .bytes (Bytes.ofText text) } context = .ok text := by
  simp [asText, asBytes]

@[simp] theorem asInt64_toUInt64 (number : UInt64) (context : Context) (value : Int64) :
    asInt64 { number, value := .varint value.toUInt64 } context = .ok value := by
  simp [asInt64, asVarint, Except.map]

@[simp] theorem asInt32_widen (number : UInt64) (context : Context) (value : Int32) :
    asInt32 { number, value := .varint value.toInt64.toUInt64 } context = .ok value := by
  simp [asInt32, asVarint, Except.map]

theorem asFloat_fixed32 (number : UInt64) (context : Context) (bits : UInt32) :
    asFloat { number, value := .fixed32 bits } context = .ok bits := rfl

theorem asBytes_bytes (number : UInt64) (context : Context) (payload : Bytes) :
    asBytes { number, value := .bytes payload } context = .ok payload := rfl

theorem field_of_asText {text : String} (h : field.asText context = .ok text) :
    Emit.text field.number text = Emit.field field := by
  obtain ⟨number, value⟩ := field
  cases value with
  | bytes payload =>
      simp only [asText, asBytes] at h
      split at h
      · next htext =>
          cases h
          rw [Emit.text, Bytes.ofText_of_toText? htext]
          rfl
      · cases h
  | varint | fixed64 | groupStart | groupEnd | fixed32 => cases h

theorem value_of_asInt64 {value : Int64} (h : field.asInt64 context = .ok value) :
    ∃ word, field.value = .varint word := by
  obtain ⟨number, stored⟩ := field
  cases stored with
  | varint word => exact ⟨word, rfl⟩
  | bytes | fixed64 | groupStart | groupEnd | fixed32 => cases h

theorem field_of_asInt64 {value : Int64} (h : field.asInt64 context = .ok value) :
    Emit.int64 field.number value = Emit.field field := by
  obtain ⟨number, stored⟩ := field
  cases stored with
  | varint word =>
      cases h
      rw [Emit.int64]
      simp
      rfl
  | bytes | fixed64 | groupStart | groupEnd | fixed32 => cases h

theorem field_of_asFloat {bits : UInt32} (h : field.asFloat context = .ok bits) :
    Emit.float field.number bits = Emit.field field := by
  obtain ⟨number, stored⟩ := field
  cases stored with
  | fixed32 word =>
      cases h
      rfl
  | bytes | fixed64 | groupStart | groupEnd | varint => cases h

theorem value_of_asBytes {payload : Bytes} (h : field.asBytes context = .ok payload) :
    field.value = .bytes payload := by
  obtain ⟨number, stored⟩ := field
  cases stored with
  | bytes payload =>
      cases h
      rfl
  | varint | fixed64 | groupStart | groupEnd | fixed32 => cases h

theorem field_of_asBytes {payload : Bytes} (h : field.asBytes context = .ok payload) :
    Emit.bytes field.number payload = Emit.field field := by
  rw [Emit.field, value_of_asBytes h]

theorem length_of_asInt32 {value : Int32} (hwritable : field.Writable)
    (h : field.asInt32 context = .ok value) :
    (Emit.int32 field.number value).length ≤ 2 * (Emit.field field).length := by
  obtain ⟨number, stored⟩ := field
  cases stored with
  | varint word =>
      obtain rfl : word.toUInt32.toInt32 = value := Except.ok.inj h
      have hsize := size_widen_le word
      have htag := Emit.length_tag hwritable.number_lt (show (0 : UInt64).toNat < 8 by decide)
      rw [length_field hwritable, Emit.int32, Emit.int64, Emit.uint64, List.length_append,
        Varint.length_encode, Value.toBytes, Varint.length_encode]
      rw [← Emit.length_tag hwritable.number_lt (show (2 : UInt64).toNat < 8 by decide)] at htag
      omega
  | bytes | fixed64 | groupStart | groupEnd | fixed32 => cases h

/-! ### Embedded messages -/

theorem of_asMessage {α : Type} {decode : Bytes → Except DecodeError α} {message : α}
    (h : field.asMessage context decode = .ok message) :
    ∃ payload, field.value = .bytes payload ∧ decode payload = .ok message := by
  rw [asMessage] at h
  split at h
  · cases h
  · next payload hpayload =>
      exact ⟨payload, value_of_asBytes hpayload, mapError_eq_ok.mp h⟩

theorem asMessage_of_decode {α : Type} {decode : Bytes → Except DecodeError α} {message : α}
    {payload : Bytes} (number : UInt64) (context : Context) (h : decode payload = .ok message) :
    asMessage { number, value := .bytes payload } context decode = .ok message := by
  simp [asMessage, asBytes, h, Except.mapError]

end Field

end FixedShape.Wire
