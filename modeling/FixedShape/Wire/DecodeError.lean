/-
Module: FixedShape.Wire.DecodeError
Purpose: What can be wrong with an encoded message, and where it was found.
-/

namespace FixedShape.Wire

/-- What is wrong with an encoded message. -/
inductive Fault where
  /-- The message ends inside a field. -/
  | truncated
  /-- A varint has no last byte or more than 64 bits. -/
  | malformedVarint
  /-- A tag has one of the two wire types that stand for nothing. -/
  | unassignedWireType
  /-- A field has another wire type than its schema type asks for. -/
  | wireTypeMismatch
  /-- A packed block of fixed-width values is no multiple of their width. -/
  | unevenBlock
  /-- A string field does not hold UTF-8. -/
  | invalidUtf8
  deriving DecidableEq, Repr

/-- The wording of a fault. -/
def Fault.message : Fault → String
  | .truncated => "unexpected end of message"
  | .malformedVarint => "invalid varint"
  | .unassignedWireType => "invalid wire type"
  | .wireTypeMismatch => "field type mismatch"
  | .unevenBlock => "field length mismatch"
  | .invalidUtf8 => "invalid UTF-8 in string"

/-- A fault with the label of the message and the number of the field in which it was found, as
far as they are known. -/
structure DecodeError where
  fault : Fault
  context : Option String := none
  field : Option UInt64 := none
  deriving DecidableEq, Repr

namespace DecodeError

/-- Places an error in a message and a field. A place that names a message stays, so that an
error which leaves nested messages keeps the innermost one; one without a message is replaced
as a whole, its field number included. -/
def within (error : DecodeError) (context : Option String) (field : Option UInt64) : DecodeError :=
  match error.context with
  | none => { error with context, field }
  | some _ => error

/-- The wording of an error. A field number is told only beside its message. -/
def message (error : DecodeError) : String :=
  match error.context, error.field with
  | some context, some field =>
    "in message " ++ context ++ " field " ++ toString field.toNat ++ ": " ++ error.fault.message
  | some context, none => "in message " ++ context ++ ": " ++ error.fault.message
  | none, _ => error.fault.message

end DecodeError

end FixedShape.Wire
