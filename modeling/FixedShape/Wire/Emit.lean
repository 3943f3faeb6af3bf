/-
Module: FixedShape.Wire.Emit
Purpose: The bytes of a field, for each schema type and packing. A message is the
  concatenation of its fields, so writing needs no state.
-/
import FixedShape.Wire.Field

namespace FixedShape.Wire.Emit

/-- A tag: the field number above three bits of wire type, in 64 bits. -/
def tag (number wireType : UInt64) : Bytes := Varint.encode (number <<< 3 ||| wireType)

/-- An unsigned integer or a truth value. -/
def uint64 (number value : UInt64) : Bytes := tag number 0 ++ Varint.encode value

/-- A signed integer. A negative one fills ten bytes. -/
def int64 (number : UInt64) (value : Int64) : Bytes := uint64 number value.toUInt64

/-- A 32-bit integer or an enumeration code, widened with its sign. -/
def int32 (number : UInt64) (value : Int32) : Bytes := int64 number value.toInt64

/-- A single-precision float, given by its bits. -/
def float (number : UInt64) (bits : UInt32) : Bytes := tag number 5 ++ Bytes.ofWord32 bits

/-- A double-precision float, given by its bits. -/
def double (number : UInt64) (bits : UInt64) : Bytes := tag number 1 ++ Bytes.ofWord64 bits

/-- A byte string, after its length. An embedded message is written in this form. -/
def bytes (number : UInt64) (payload : Bytes) : Bytes :=
  tag number 2 ++ (Varint.encode (UInt64.ofNat payload.length) ++ payload)

/-- A text, as the bytes of its UTF-8 form. -/
def text (number : UInt64) (value : String) : Bytes := bytes number (Bytes.ofText value)

/-- Texts, a field for each. -/
def texts (number : UInt64) (values : List String) : Bytes := values.flatMap (text number)

/-- Byte strings or messages, a field for each. -/
def payloads (number : UInt64) (values : List Bytes) : Bytes := values.flatMap (bytes number)

/-- Signed integers, a field for each. -/
def unpackedInt64 (number : UInt64) (values : List Int64) : Bytes := values.flatMap (int64 number)

/-- Floats, a field for each. -/
def unpackedFloat (number : UInt64) (values : List UInt32) : Bytes := values.flatMap (float number)

/-- A packed block. An empty one is left out. -/
def block (number : UInt64) (payload : Bytes) : Bytes :=
  if payload.isEmpty then [] else bytes number payload

/-- Unsigned integers in one block. -/
def packedUInt64 (number : UInt64) (values : List UInt64) : Bytes :=
  block number (values.flatMap Varint.encode)

/-- Signed integers in one block. -/
def packedInt64 (number : UInt64) (values : List Int64) : Bytes :=
  packedUInt64 number (values.map Int64.toUInt64)

/-- 32-bit integers in one block, each widened with its sign. -/
def packedInt32 (number : UInt64) (values : List Int32) : Bytes :=
  packedInt64 number (values.map Int32.toInt64)

/-- Single-precision floats in one block. -/
def packedFloat (number : UInt64) (values : List UInt32) : Bytes :=
  block number (values.flatMap Bytes.ofWord32)

/-- Double-precision floats in one block. -/
def packedDouble (number : UInt64) (values : List UInt64) : Bytes :=
  block number (values.flatMap Bytes.ofWord64)

/-- A field as it was read. -/
def field (field : Field) : Bytes :=
  match field.value with
  | .varint value => uint64 field.number value
  | .fixed64 bits => double field.number bits
  | .bytes payload => bytes field.number payload
  | .groupStart => tag field.number 3
  | .groupEnd => tag field.number 4
  | .fixed32 bits => float field.number bits

/-- Fields as they were read, in order. -/
def fields (values : List Field) : Bytes := values.flatMap field

/-- A field that may be absent. -/
def optional {α : Type} (emit : α → Bytes) : Option α → Bytes
  | none => []
  | some value => emit value

end FixedShape.Wire.Emit
