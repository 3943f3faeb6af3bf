/-
Module: FixedShape.Onnx.Message
Purpose: The messages of an ONNX file, as far as the program reads or writes them. Every
  message keeps its remaining fields as they stood on the wire. Floats are held as bits.
-/
import FixedShape.Wire.Field

namespace FixedShape.Onnx

open FixedShape.Wire (Bytes Field)

/-- The message types of the format that are interpreted. -/
inductive MessageType where
  | attr
  | node
  | tensor
  | entry
  | dimension
  | tensorShape
  | tensorType
  | valueType
  | valueInfo
  | graph
  | opsetImport
  | model
  deriving DecidableEq, Repr

/-- The name of a message type in its schema. -/
def MessageType.name : MessageType → String
  | .attr => "AttributeProto"
  | .node => "NodeProto"
  | .tensor => "TensorProto"
  | .entry => "StringStringEntryProto"
  | .dimension => "Dimension"
  | .tensorShape => "TensorShapeProto"
  | .tensorType => "TypeProtoTensor"
  | .valueType => "TypeProto"
  | .valueInfo => "ValueInfoProto"
  | .graph => "GraphProto"
  | .opsetImport => "OperatorSetIdProto"
  | .model => "ModelProto"

/-- The label of a message type in errors: its name after the path of the schema. -/
def MessageType.label (type : MessageType) : String := "static_shape_onnx::onnx::" ++ type.name

/-- A key with a value. -/
structure Entry where
  key : Option String := none
  value : Option String := none
  unknownFields : List Field := []
  deriving DecidableEq, Repr

/-- A constant tensor. Its data is in `rawData`, in one of the typed lists or in a file that
`externalData` names. -/
structure Tensor where
  dims : List Int64 := []
  dataType : Option Int32 := none
  floatData : List UInt32 := []
  int32Data : List Int32 := []
  int64Data : List Int64 := []
  name : Option String := none
  rawData : Option Bytes := none
  doubleData : List UInt64 := []
  uint64Data : List UInt64 := []
  externalData : List Entry := []
  dataLocation : Option Int32 := none
  unknownFields : List Field := []
  deriving DecidableEq, Repr

/-- One dimension of a shape: a size, a name, or neither if nothing is known. -/
structure Dimension where
  value : Option Int64 := none
  param : Option String := none
  unknownFields : List Field := []
  deriving DecidableEq, Repr

/-- A shape of known rank. -/
structure TensorShape where
  dims : List Dimension := []
  unknownFields : List Field := []
  deriving DecidableEq, Repr

/-- The type of a tensor value. -/
structure TensorType where
  elemType : Option Int32 := none
  shape : Option TensorShape := none
  unknownFields : List Field := []
  deriving DecidableEq, Repr

/-- The type of a value. Types of other values than tensors stay among the unknown fields. -/
structure ValueType where
  tensorType : Option TensorType := none
  unknownFields : List Field := []
  deriving DecidableEq, Repr

/-- A named value with its type. -/
structure ValueInfo where
  name : Option String := none
  type : Option ValueType := none
  docString : Option String := none
  unknownFields : List Field := []
  deriving DecidableEq, Repr

/-- The imported version of an operator set. -/
structure OpsetImport where
  domain : Option String := none
  version : Option Int64 := none
  unknownFields : List Field := []
  deriving DecidableEq, Repr

mutual

/-- A named setting of a node. Control flow nodes hold their subgraphs in `g` and `graphs`. -/
structure Attribute where
  name : Option String := none
  f : Option UInt32 := none
  i : Option Int64 := none
  s : Option Bytes := none
  t : Option Tensor := none
  g : Option Graph := none
  floats : List UInt32 := []
  ints : List Int64 := []
  strings : List Bytes := []
  tensors : List Tensor := []
  graphs : List Graph := []
  type : Option Int32 := none
  unknownFields : List Field := []

/-- An operator applied to named values. An empty name stands for a value that is left out. -/
structure Node where
  inputs : List String := []
  outputs : List String := []
  name : Option String := none
  opType : Option String := none
  attributes : List Attribute := []
  docString : Option String := none
  domain : Option String := none
  unknownFields : List Field := []

/-- A list of nodes with its boundary and its constants. -/
structure Graph where
  nodes : List Node := []
  name : Option String := none
  initializers : List Tensor := []
  docString : Option String := none
  inputs : List ValueInfo := []
  outputs : List ValueInfo := []
  valueInfo : List ValueInfo := []
  unknownFields : List Field := []

end

/-- A graph with the metadata of its file. -/
structure Model where
  irVersion : Option Int64 := none
  producerName : Option String := none
  producerVersion : Option String := none
  domain : Option String := none
  modelVersion : Option Int64 := none
  docString : Option String := none
  graph : Option Graph := none
  opsetImports : List OpsetImport := []
  metadataProps : List Entry := []
  unknownFields : List Field := []

/-! ### Codes of `Attribute.type` -/

namespace AttributeType

def float : Int32 := 1
def int : Int32 := 2
def string : Int32 := 3
def tensor : Int32 := 4
def graph : Int32 := 5
def ints : Int32 := 7

end AttributeType

/-! ### Codes of `Tensor.dataType` and `TensorType.elemType` -/

namespace DataType

def undefined : Int32 := 0
def float : Int32 := 1
def uint8 : Int32 := 2
def int8 : Int32 := 3
def int32 : Int32 := 6
def int64 : Int32 := 7
def bool : Int32 := 9
def float16 : Int32 := 10
def double : Int32 := 11

end DataType

end FixedShape.Onnx
