/-
Module: FixedShape.Wire.Varint
Purpose: Variable-length integers, the form of every tag, length and integer of the wire
  format: seven bits a byte, least significant group first, the high bit set on every byte
  but the last.
-/
import FixedShape.Wire.Bytes

namespace FixedShape.Wire.Varint

/-- A 64-bit value fills nine groups of seven bits and one bit of a tenth. -/
def maxSize : Nat := 10

/-- Why no varint starts a buffer. -/
inductive Error where
  /-- The buffer is empty. -/
  | empty
  /-- The last byte is missing, or the value does not fit in 64 bits. -/
  | malformed
  deriving DecidableEq, Repr

/-- Reads a varint of at most `room` bytes: its value and its size. The sum is taken over the
natural numbers, so no bit can be lost; the one bit that a full-size varint has left for its
last byte is checked instead. -/
def decodeWithin : (room : Nat) → Bytes → Except Error (Nat × Nat)
  | 0, _ => .error .malformed
  | _ + 1, [] => .error .malformed
  | room + 1, byte :: rest =>
    if byte < 0x80 then
      if room = 0 ∧ 1 < byte then .error .malformed else .ok (byte.toNat, 1)
    else
      match decodeWithin room rest with
      | .error error => .error error
      | .ok (high, size) => .ok (byte.toNat - 0x80 + 0x80 * high, size + 1)

/-- Reads the varint at the start of a buffer: its value and the number of bytes it fills. What
follows it is not looked at. -/
def decode : Bytes → Except Error (UInt64 × Nat)
  | [] => .error .empty
  | bytes =>
    match decodeWithin maxSize bytes with
    | .error error => .error error
    | .ok (value, size) => .ok (UInt64.ofNat value, size)

/-- The shortest form of `value`, given that `room` bytes and one more hold it. -/
def encodeWithin : (room : Nat) → (value : Nat) → Bytes
  | 0, value => [UInt8.ofNat value]
  | room + 1, value =>
    if value < 0x80 then [UInt8.ofNat value]
    else UInt8.ofNat (value % 0x80 + 0x80) :: encodeWithin room (value / 0x80)

/-- The shortest varint of a value. -/
def encode (value : UInt64) : Bytes := encodeWithin (maxSize - 1) value.toNat

end FixedShape.Wire.Varint
