/-
Module: FixedShape.Onnx.Detect
Purpose: Telling a model file from other data. The format has no signature, so a file counts
  as a model if it is well formed at its outermost level and has the two fields that every
  useful model has.
-/
import FixedShape.Wire.Reader
import FixedShape.Onnx.Message

namespace FixedShape.Onnx

open FixedShape.Wire (Bytes Field Value)

/-- What has been seen of a model. -/
structure Signs where
  irVersion : Bool := false
  graph : Bool := false
  deriving DecidableEq, Repr

/-- Takes one field. The version must be an integer; the last graph field decides whether there
is a graph, which is not looked into. -/
def Signs.step (signs : Signs) (field : Field) : Option Signs :=
  match field.number, field.value with
  | 1, .varint _ => some { signs with irVersion := true }
  | 1, _ => none
  | 7, .bytes _ => some { signs with graph := true }
  | 7, _ => some { signs with graph := false }
  | _, _ => some signs

/-- Tests whether a buffer holds a model. -/
def isModel (buffer : Bytes) : Bool :=
  let scan := Field.scan none buffer
  match scan.error, scan.items.foldlM Signs.step {} with
  | none, some signs => signs.irVersion && signs.graph
  | _, _ => false

end FixedShape.Onnx
