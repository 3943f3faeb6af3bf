/-
Module: FixedShape.Tensor.TensorInfo
Purpose: Declarations of graph values: a name, an element type and a shape. A declaration is a
  view on the message it was read from, so what the view does not show survives every change.
-/
import FixedShape.Tensor.ElementType
import FixedShape.Tensor.Shape

namespace FixedShape

/-- The declaration of a named value. The message has no name of its own. -/
structure TensorInfo where
  name : String
  message : Onnx.ValueInfo
  deriving DecidableEq, Repr

namespace TensorInfo

/-- Reads a declaration. One without a name declares nothing. -/
def ofMessage? (message : Onnx.ValueInfo) : Option TensorInfo :=
  match message.name with
  | none => none
  | some name => if name = "" then none else some { name, message := { message with name := none } }

/-- The message of a declaration. -/
def toMessage (info : TensorInfo) : Onnx.ValueInfo := { info.message with name := some info.name }

/-- The tensor type, if the value is declared to be a tensor. -/
def tensorType? (info : TensorInfo) : Option Onnx.TensorType :=
  info.message.type.bind (·.tensorType)

/-- Changes the tensor type. A value without one is declared to be a tensor by this. -/
def modifyTensorType (change : Onnx.TensorType → Onnx.TensorType) (info : TensorInfo) : TensorInfo :=
  let type := info.message.type.getD {}
  let tensorType := change (type.tensorType.getD {})
  { info with
    message := { info.message with type := some { type with tensorType := some tensorType } } }

/-- The declared element type. The undefined type counts as none. -/
def elemType? (info : TensorInfo) : Option ElementType :=
  match info.tensorType?.bind (·.elemType) with
  | none => none
  | some code => if code = Onnx.DataType.undefined then none else some (.ofCode code)

/-- Declares the element type. -/
def setElemType (elemType : ElementType) (info : TensorInfo) : TensorInfo :=
  info.modifyTensorType fun type => { type with elemType := some elemType.code }

/-- The declared shape, if the rank is known. -/
def shape? (info : TensorInfo) : Option Shape :=
  (info.tensorType?.bind (·.shape)).map fun shape => shape.dims.map Dimension.ofMessage

/-- Declares the shape. Of an earlier shape only the list of dimensions is replaced. -/
def setShape (shape : Shape) (info : TensorInfo) : TensorInfo :=
  info.modifyTensorType fun type =>
    { type with
      shape := some { type.shape.getD {} with dims := shape.map Dimension.toMessage } }

/-- Declares a value. -/
def new (name : String) (elemType? : Option ElementType) (shape? : Option Shape) : TensorInfo :=
  let info : TensorInfo := { name, message := {} }
  let info := match elemType? with
    | some elemType => info.setElemType elemType
    | none => info
  match shape? with
  | some shape => info.setShape shape
  | none => info

/-- Tells whether the shape is known and static. -/
def isStatic (info : TensorInfo) : Bool :=
  match info.shape? with
  | some shape => shape.isStatic
  | none => false

/-- The declared shape as it is shown. -/
def shapeText (info : TensorInfo) : String := Shape.text? info.shape?

end TensorInfo

/-- The first declaration of a name. -/
def findInfo? (name : String) (infos : List TensorInfo) : Option TensorInfo :=
  infos.find? (·.name == name)

/-- Changes the first declaration of a name. -/
def modifyInfo (name : String) (change : TensorInfo → TensorInfo) : List TensorInfo → List TensorInfo
  | [] => []
  | info :: rest =>
    if info.name = name then change info :: rest else info :: modifyInfo name change rest

end FixedShape
