/-
Module: FixedShape.Wire.Reader
Purpose: A buffer as a sequence of fields. Reading stops at the first field that is not well
  formed, and the error says whether its tag or its value is at fault.
-/
import FixedShape.Wire.Field

namespace FixedShape.Wire.Field

/-- Reads a varint off a buffer. -/
def takeVarint (buffer : Bytes) : Except Fault (UInt64 × Bytes) :=
  match Varint.decode buffer with
  | .error error => .error error.fault
  | .ok (value, size) => .ok (value, buffer.drop size)

/-- Reads exactly `count` bytes off a buffer. -/
def takeBytes (count : Nat) (buffer : Bytes) : Except Fault (Bytes × Bytes) :=
  match Bytes.splitExact count buffer with
  | none => .error .truncated
  | some parts => .ok parts

/-- Reads the value that follows a tag with the given wire type. -/
def readValue (wireType : Nat) (buffer : Bytes) : Except Fault (Value × Bytes) :=
  match wireType with
  | 0 => (takeVarint buffer).map fun (value, rest) => (.varint value, rest)
  | 1 => (takeBytes 8 buffer).map fun (word, rest) => (.fixed64 word.toWord64, rest)
  | 2 =>
    match takeVarint buffer with
    | .error fault => .error fault
    | .ok (size, rest) =>
      (takeBytes size.toNat rest).map fun (payload, rest) => (.bytes payload, rest)
  | 3 => .ok (.groupStart, buffer)
  | 4 => .ok (.groupEnd, buffer)
  | 5 => (takeBytes 4 buffer).map fun (word, rest) => (.fixed32 word.toWord32, rest)
  | _ => .error .unassignedWireType

/-- Reads one field: a tag, which holds the field number above three bits of wire type, and a
value. Only a fault of the value is placed in a field, as a bad tag names none. -/
def read (context : Context) (buffer : Bytes) : Except DecodeError (Field × Bytes) :=
  match takeVarint buffer with
  | .error fault => .error { fault }
  | .ok (tag, rest) =>
    let number := tag >>> 3
    match readValue (tag.toNat % 8) rest with
    | .error fault => .error (DecodeError.within { fault } context (some number))
    | .ok (value, rest) => .ok ({ number, value }, rest)

/-- The fields of a buffer, newest first in `done`. `fuel` bounds their number; a field fills at
least a byte, so the length of the buffer is enough. -/
def scanLoop (context : Context) : (fuel : Nat) → (done : List Field) → Bytes → Scan Field
  | 0, done, _ => { items := done.reverse }
  | _ + 1, done, [] => { items := done.reverse }
  | fuel + 1, done, buffer =>
    match read context buffer with
    | .error error => { items := done.reverse, error := some (error.within context none) }
    | .ok (field, rest) => scanLoop context fuel (field :: done) rest

/-- The fields of the message in a buffer. `context` labels the message in errors. -/
def scan (context : Context) (buffer : Bytes) : Scan Field :=
  scanLoop context buffer.length [] buffer

end FixedShape.Wire.Field
