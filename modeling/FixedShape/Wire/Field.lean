/-
Module: FixedShape.Wire.Field
Purpose: The fields of a message as they stand on the wire, and the schema types as which a
  field can be read.
-/
import FixedShape.Wire.Varint
import FixedShape.Wire.DecodeError

namespace FixedShape.Wire

/-- The value of a field, one constructor per wire type. Fixed-width values are kept as bits:
what they mean (an integer or a float) is up to the schema. -/
inductive Value where
  | varint (value : UInt64)
  | fixed64 (bits : UInt64)
  | bytes (payload : Bytes)
  | groupStart
  | groupEnd
  | fixed32 (bits : UInt32)
  deriving DecidableEq, Repr

/-- The wire type that a tag gives for a value. -/
def Value.wireType : Value → UInt64
  | .varint _ => 0
  | .fixed64 _ => 1
  | .bytes _ => 2
  | .groupStart => 3
  | .groupEnd => 4
  | .fixed32 _ => 5

/-- A numbered field. A message keeps those it does not interpret in this form, so that nothing
is lost when it is written again. -/
structure Field where
  number : UInt64
  value : Value
  deriving DecidableEq, Repr

/-- The label of the message that is being read, if it has one. It is used in errors only. -/
abbrev Context := Option String

/-- Items read one after the other, with the error that ended the reading early, if one did. -/
structure Scan (α : Type) where
  items : List α
  error : Option DecodeError := none

namespace Scan

/-- All items, if the reading came to its end. -/
def all {α : Type} (scan : Scan α) : Except DecodeError (List α) :=
  match scan.error with
  | some error => .error error
  | none => .ok scan.items

/-- The items, each seen through `f`. -/
def map {α β : Type} (f : α → β) (scan : Scan α) : Scan β :=
  { items := scan.items.map f, error := scan.error }

end Scan

namespace Varint

/-- An empty buffer is a message that ends too soon. -/
def Error.fault : Error → Fault
  | .empty => .truncated
  | .malformed => .malformedVarint

end Varint

namespace Field

/-- A fault found in this field. -/
def failure (field : Field) (context : Context) (fault : Fault) : DecodeError :=
  { fault, context, field := some field.number }

/-- The value of an integer field. -/
def asVarint (field : Field) (context : Context) : Except DecodeError UInt64 :=
  match field.value with
  | .varint value => .ok value
  | _ => .error (field.failure context .wireTypeMismatch)

/-- A 32-bit integer: the low half of the varint. -/
def asInt32 (field : Field) (context : Context) : Except DecodeError Int32 :=
  (field.asVarint context).map fun value => value.toUInt32.toInt32

/-- The code of an enumeration, which is a 32-bit integer. -/
def asEnum (field : Field) (context : Context) : Except DecodeError Int32 :=
  field.asInt32 context

/-- A 64-bit integer in two's complement. -/
def asInt64 (field : Field) (context : Context) : Except DecodeError Int64 :=
  (field.asVarint context).map UInt64.toInt64

/-- The bits of a single-precision float. -/
def asFloat (field : Field) (context : Context) : Except DecodeError UInt32 :=
  match field.value with
  | .fixed32 bits => .ok bits
  | _ => .error (field.failure context .wireTypeMismatch)

/-- A byte string. -/
def asBytes (field : Field) (context : Context) : Except DecodeError Bytes :=
  match field.value with
  | .bytes payload => .ok payload
  | _ => .error (field.failure context .wireTypeMismatch)

/-- A text. Its bytes must be UTF-8. -/
def asText (field : Field) (context : Context) : Except DecodeError String :=
  match field.asBytes context with
  | .error error => .error error
  | .ok payload =>
    match Bytes.toText? payload with
    | some text => .ok text
    | none => .error (field.failure context .invalidUtf8)

/-- An embedded message, read by `decode`. An error keeps the place that `decode` gave it. -/
def asMessage {α : Type} (field : Field) (context : Context)
    (decode : Bytes → Except DecodeError α) : Except DecodeError α :=
  match field.asBytes context with
  | .error error => .error error
  | .ok payload => (decode payload).mapError (·.within context (some field.number))

/-- The varints of a packed block, newest first in `done`. `fuel` bounds their number; a varint
fills at least a byte, so the length of the block is enough. -/
def packedLoop (failure : Fault → DecodeError) : (fuel : Nat) → (done : List UInt64) →
    Bytes → Scan UInt64
  | 0, done, _ => { items := done.reverse }
  | _ + 1, done, [] => { items := done.reverse }
  | fuel + 1, done, block =>
    match Varint.decode block with
    | .error error => { items := done.reverse, error := some (failure error.fault) }
    | .ok (value, size) => packedLoop failure fuel (value :: done) (block.drop size)

/-- A repeated integer: the one value of an unpacked field, or the varints of a packed block. -/
def asVarints (field : Field) (context : Context) : Except DecodeError (Scan UInt64) :=
  match field.value with
  | .varint value => .ok { items := [value] }
  | .bytes block => .ok (packedLoop (field.failure context) block.length [] block)
  | _ => .error (field.failure context .wireTypeMismatch)

/-- A repeated 32-bit integer. -/
def asInt32s (field : Field) (context : Context) : Except DecodeError (Scan Int32) :=
  (field.asVarints context).map (·.map fun value => value.toUInt32.toInt32)

/-- A repeated 64-bit integer. -/
def asInt64s (field : Field) (context : Context) : Except DecodeError (Scan Int64) :=
  (field.asVarints context).map (·.map UInt64.toInt64)

/-- A repeated unsigned 64-bit integer. -/
def asUInt64s (field : Field) (context : Context) : Except DecodeError (Scan UInt64) :=
  field.asVarints context

/-- Cuts a block into parts of `width` bytes, newest first in `done`, and leaves out a shorter
last part. -/
def chunksLoop (width : Nat) : (fuel : Nat) → (done : List Bytes) → Bytes → List Bytes
  | 0, done, _ => done.reverse
  | fuel + 1, done, block =>
    match Bytes.splitExact width block with
    | none => done.reverse
    | some (chunk, rest) => chunksLoop width fuel (chunk :: done) rest

/-- The parts of `width` bytes of a packed block, which must be filled by them. -/
def fixedChunks (field : Field) (context : Context) (width : Nat) (block : Bytes) :
    Except DecodeError (List Bytes) :=
  if block.length % width = 0 then .ok (chunksLoop width (block.length / width) [] block)
  else .error (field.failure context .unevenBlock)

/-- A repeated single-precision float, as bits. -/
def asFloats (field : Field) (context : Context) : Except DecodeError (Scan UInt32) :=
  match field.value with
  | .fixed32 bits => .ok { items := [bits] }
  | .bytes block =>
    (field.fixedChunks context 4 block).map fun chunks => { items := chunks.map Bytes.toWord32 }
  | _ => .error (field.failure context .wireTypeMismatch)

/-- A repeated double-precision float, as bits. -/
def asDoubles (field : Field) (context : Context) : Except DecodeError (Scan UInt64) :=
  match field.value with
  | .fixed64 bits => .ok { items := [bits] }
  | .bytes block =>
    (field.fixedChunks context 8 block).map fun chunks => { items := chunks.map Bytes.toWord64 }
  | _ => .error (field.failure context .wireTypeMismatch)

end Field

end FixedShape.Wire
