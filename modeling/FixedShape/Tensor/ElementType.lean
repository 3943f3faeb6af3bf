/-
Module: FixedShape.Tensor.ElementType
Purpose: What the elements of a tensor are: the code in the file, the name shown to the user and
  the size of one element.
-/
import FixedShape.Onnx.Message

namespace FixedShape

/-- The type of the elements of a tensor. Types that no rule names are kept by their code. -/
inductive ElementType where
  | float32
  | float16
  | int32
  | int64
  | bool
  | other (code : Int32)
  deriving DecidableEq, Repr

namespace ElementType

open FixedShape.Onnx

/-- The type that a code stands for. -/
def ofCode (code : Int32) : ElementType :=
  if code = DataType.float then .float32
  else if code = DataType.float16 then .float16
  else if code = DataType.int32 then .int32
  else if code = DataType.int64 then .int64
  else if code = DataType.bool then .bool
  else .other code

/-- The code of a type. -/
def code : ElementType → Int32
  | .float32 => DataType.float
  | .float16 => DataType.float16
  | .int32 => DataType.int32
  | .int64 => DataType.int64
  | .bool => DataType.bool
  | .other code => code

/-- The bytes that one element fills in raw data, if all elements of the type fill the same. -/
def byteSize? : ElementType → Option Nat
  | .float32 | .int32 => some 4
  | .float16 => some 2
  | .int64 => some 8
  | .bool => some 1
  | .other code =>
    if code = DataType.uint8 ∨ code = DataType.int8 then some 1
    else if code = DataType.double then some 8
    else none

/-- The name of a type. -/
def text : ElementType → String
  | .float32 => "float32"
  | .float16 => "float16"
  | .int32 => "int32"
  | .int64 => "int64"
  | .bool => "bool"
  | .other code => "dtype(" ++ toString code.toInt ++ ")"

end ElementType

end FixedShape
