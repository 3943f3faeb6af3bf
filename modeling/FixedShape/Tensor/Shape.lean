/-
Module: FixedShape.Tensor.Shape
Purpose: Dimensions and shapes as they are declared for a value.
-/
import FixedShape.Onnx.Message

namespace FixedShape

/-- The largest 64-bit signed integer, and so the largest size that a file can declare. -/
def maxInt64 : Nat := 0x7fffffffffffffff

/-- The size of a tensor along one axis, as far as it is declared. -/
inductive Dimension where
  /-- A size known before the graph runs. -/
  | fixed (size : Nat)
  /-- A name for a size that is bound when the graph runs. -/
  | symbolic (name : String)
  /-- Neither a size nor a name. -/
  | unknown
  deriving DecidableEq, Repr

namespace Dimension

/-- Tells whether a dimension has a size. -/
def isFixed : Dimension → Bool
  | .fixed _ => true
  | _ => false

/-- Reads a declared dimension. A size goes before a name, and a negative size or an empty name
says nothing. -/
def ofMessage (dimension : Onnx.Dimension) : Dimension :=
  match dimension.value, dimension.param with
  | some value, _ => if 0 ≤ value.toInt then .fixed value.toInt.toNat else .unknown
  | none, some name => if name = "" then .unknown else .symbolic name
  | none, none => .unknown

/-- Declares a dimension. A size beyond the largest integer is declared as that, as it would
turn negative otherwise. -/
def toMessage : Dimension → Onnx.Dimension
  | .fixed size => { value := some (Int64.ofNat (min size maxInt64)) }
  | .symbolic name => { param := some name }
  | .unknown => {}

/-- A dimension as it is shown. -/
def text : Dimension → String
  | .fixed size => toString size
  | .symbolic name => name
  | .unknown => "?"

end Dimension

/-- The dimensions of a tensor, outermost first. -/
abbrev Shape := List Dimension

namespace Shape

/-- Tells whether every dimension has a size. -/
def isStatic (shape : Shape) : Bool := shape.all Dimension.isFixed

/-- A shape as it is shown. -/
def text (shape : Shape) : String := "[" ++ ", ".intercalate (shape.map Dimension.text) ++ "]"

/-- A shape that may be unknown, as it is shown. -/
def text? : Option Shape → String
  | some shape => shape.text
  | none => "(unknown rank)"

/-- The number of elements of a static shape. -/
def elementCount? (shape : Shape) : Option Nat :=
  shape.foldr
    (fun dimension count? =>
      match dimension, count? with
      | .fixed size, some count => some (size * count)
      | _, _ => none)
    (some 1)

end Shape

end FixedShape
