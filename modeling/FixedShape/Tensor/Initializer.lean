/-
Module: FixedShape.Tensor.Initializer
Purpose: Named constants of a graph. The data of a constant stays in the form in which it was
  read, and new constants are made in the two forms that padding needs.
-/
import FixedShape.Tensor.ElementType
import FixedShape.Tensor.Shape

namespace FixedShape

/-- A named constant. The tensor has no name of its own. -/
structure Initializer where
  name : String
  tensor : Onnx.Tensor
  deriving DecidableEq, Repr

namespace Initializer

/-- Reads a constant. One without a name cannot be read by any node. -/
def ofMessage? (tensor : Onnx.Tensor) : Option Initializer :=
  match tensor.name with
  | none => none
  | some name => if name = "" then none else some { name, tensor := { tensor with name := none } }

/-- The message of a constant. -/
def toMessage (init : Initializer) : Onnx.Tensor := { init.tensor with name := some init.name }

/-- The element type, if it is given. -/
def elemType? (init : Initializer) : Option ElementType := init.tensor.dataType.map .ofCode

/-- A vector of `length` zeros, as raw data. There is none if elements have no fixed size, if the
bytes cannot be counted in 64 bits or if the length cannot be declared. -/
def zeros? (name : String) (elemType : ElementType) (length : Nat) : Option Initializer :=
  match elemType.byteSize? with
  | none => none
  | some size =>
    if size * length < UInt64.size ∧ length ≤ maxInt64 then
      some
        { name
          tensor :=
            { dims := [Int64.ofNat length]
              dataType := some elemType.code
              rawData := some (List.replicate (size * length) 0) } }
    else none

/-- A vector of 64-bit integers. -/
def ofInt64s (name : String) (values : List Int64) : Initializer :=
  { name
    tensor :=
      { dims := [Int64.ofNat values.length]
        dataType := some Onnx.DataType.int64
        int64Data := values } }

end Initializer

end FixedShape
