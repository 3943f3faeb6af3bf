/-
Module: FixedShape.Onnx.Decode
Purpose: Messages from bytes. A decoder takes the fields in the order of the wire: a repeated
  field grows, a singular one holds what came last, and a field that the type does not model
  is kept. The first error, in the order of the wire, is the answer.
-/
import FixedShape.Wire.Reader
import FixedShape.Onnx.Message

namespace FixedShape.Onnx

open FixedShape.Wire (Bytes Field Context DecodeError)

/-- The label of a message type as the context of its fields. -/
def MessageType.context (type : MessageType) : Context := some type.label

/-- Folds the fields of a buffer into a message. The fields before a malformed one are taken
first, as an error in one of them comes earlier on the wire. -/
def decodeWith {μ : Type} (type : MessageType) (start : μ)
    (step : μ → Field → Except DecodeError μ) (buffer : Bytes) : Except DecodeError μ :=
  let scan := Field.scan type.context buffer
  match scan.items.foldlM step start with
  | .error error => .error error
  | .ok message =>
    match scan.error with
    | some error => .error error
    | none => .ok message

namespace Entry

/-- Takes one field of an entry. -/
def step (m : Entry) (field : Field) : Except DecodeError Entry := do
  let context := MessageType.entry.context
  match field.number with
  | 1 => return { m with key := some (← field.asText context) }
  | 2 => return { m with value := some (← field.asText context) }
  | _ => return { m with unknownFields := m.unknownFields ++ [field] }

def decode (buffer : Bytes) : Except DecodeError Entry := decodeWith .entry {} step buffer

end Entry

namespace Tensor

/-- Takes one field of a tensor. -/
def step (m : Tensor) (field : Field) : Except DecodeError Tensor := do
  let context := MessageType.tensor.context
  match field.number with
  | 1 => return { m with dims := m.dims ++ (← (← field.asInt64s context).all) }
  | 2 => return { m with dataType := some (← field.asEnum context) }
  | 4 => return { m with floatData := m.floatData ++ (← (← field.asFloats context).all) }
  | 5 => return { m with int32Data := m.int32Data ++ (← (← field.asInt32s context).all) }
  | 7 => return { m with int64Data := m.int64Data ++ (← (← field.asInt64s context).all) }
  | 8 => return { m with name := some (← field.asText context) }
  | 9 => return { m with rawData := some (← field.asBytes context) }
  | 10 => return { m with doubleData := m.doubleData ++ (← (← field.asDoubles context).all) }
  | 11 => return { m with uint64Data := m.uint64Data ++ (← (← field.asUInt64s context).all) }
  | 13 => return { m with externalData := m.externalData ++ [← field.asMessage context Entry.decode] }
  | 14 => return { m with dataLocation := some (← field.asEnum context) }
  | _ => return { m with unknownFields := m.unknownFields ++ [field] }

def decode (buffer : Bytes) : Except DecodeError Tensor := decodeWith .tensor {} step buffer

end Tensor

namespace Dimension

/-- Takes one field of a dimension. A size and a name are kept beside each other. -/
def step (m : Dimension) (field : Field) : Except DecodeError Dimension := do
  let context := MessageType.dimension.context
  match field.number with
  | 1 => return { m with value := some (← field.asInt64 context) }
  | 2 => return { m with param := some (← field.asText context) }
  | _ => return { m with unknownFields := m.unknownFields ++ [field] }

def decode (buffer : Bytes) : Except DecodeError Dimension := decodeWith .dimension {} step buffer

end Dimension

namespace TensorShape

/-- Takes one field of a shape. -/
def step (m : TensorShape) (field : Field) : Except DecodeError TensorShape := do
  let context := MessageType.tensorShape.context
  match field.number with
  | 1 => return { m with dims := m.dims ++ [← field.asMessage context Dimension.decode] }
  | _ => return { m with unknownFields := m.unknownFields ++ [field] }

def decode (buffer : Bytes) : Except DecodeError TensorShape := decodeWith .tensorShape {} step buffer

end TensorShape

namespace TensorType

/-- Takes one field of a tensor type. -/
def step (m : TensorType) (field : Field) : Except DecodeError TensorType := do
  let context := MessageType.tensorType.context
  match field.number with
  | 1 => return { m with elemType := some (← field.asEnum context) }
  | 2 => return { m with shape := some (← field.asMessage context TensorShape.decode) }
  | _ => return { m with unknownFields := m.unknownFields ++ [field] }

def decode (buffer : Bytes) : Except DecodeError TensorType := decodeWith .tensorType {} step buffer

end TensorType

namespace ValueType

/-- Takes one field of a value's type. -/
def step (m : ValueType) (field : Field) : Except DecodeError ValueType := do
  let context := MessageType.valueType.context
  match field.number with
  | 1 => return { m with tensorType := some (← field.asMessage context TensorType.decode) }
  | _ => return { m with unknownFields := m.unknownFields ++ [field] }

def decode (buffer : Bytes) : Except DecodeError ValueType := decodeWith .valueType {} step buffer

end ValueType

namespace ValueInfo

/-- Takes one field of a value's declaration. -/
def step (m : ValueInfo) (field : Field) : Except DecodeError ValueInfo := do
  let context := MessageType.valueInfo.context
  match field.number with
  | 1 => return { m with name := some (← field.asText context) }
  | 2 => return { m with type := some (← field.asMessage context ValueType.decode) }
  | 3 => return { m with docString := some (← field.asText context) }
  | _ => return { m with unknownFields := m.unknownFields ++ [field] }

def decode (buffer : Bytes) : Except DecodeError ValueInfo := decodeWith .valueInfo {} step buffer

end ValueInfo

namespace OpsetImport

/-- Takes one field of an import. -/
def step (m : OpsetImport) (field : Field) : Except DecodeError OpsetImport := do
  let context := MessageType.opsetImport.context
  match field.number with
  | 1 => return { m with domain := some (← field.asText context) }
  | 2 => return { m with version := some (← field.asInt64 context) }
  | _ => return { m with unknownFields := m.unknownFields ++ [field] }

def decode (buffer : Bytes) : Except DecodeError OpsetImport := decodeWith .opsetImport {} step buffer

end OpsetImport

/-- A reader of subgraphs. Graphs, nodes and attributes hold each other, so the step of each
takes the reader of the graphs one level deeper. -/
abbrev GraphDecoder := Bytes → Except DecodeError Graph

namespace Attribute

/-- Takes one field of an attribute. -/
def step (subgraph : GraphDecoder) (m : Attribute) (field : Field) : Except DecodeError Attribute := do
  let context := MessageType.attr.context
  match field.number with
  | 1 => return { m with name := some (← field.asText context) }
  | 2 => return { m with f := some (← field.asFloat context) }
  | 3 => return { m with i := some (← field.asInt64 context) }
  | 4 => return { m with s := some (← field.asBytes context) }
  | 5 => return { m with t := some (← field.asMessage context Tensor.decode) }
  | 6 => return { m with g := some (← field.asMessage context subgraph) }
  | 7 => return { m with floats := m.floats ++ (← (← field.asFloats context).all) }
  | 8 => return { m with ints := m.ints ++ (← (← field.asInt64s context).all) }
  | 9 => return { m with strings := m.strings ++ [← field.asBytes context] }
  | 10 => return { m with tensors := m.tensors ++ [← field.asMessage context Tensor.decode] }
  | 11 => return { m with graphs := m.graphs ++ [← field.asMessage context subgraph] }
  | 20 => return { m with type := some (← field.asEnum context) }
  | _ => return { m with unknownFields := m.unknownFields ++ [field] }

def decodeIn (subgraph : GraphDecoder) (buffer : Bytes) : Except DecodeError Attribute :=
  decodeWith .attr {} (step subgraph) buffer

end Attribute

namespace Node

/-- Takes one field of a node. -/
def step (subgraph : GraphDecoder) (m : Node) (field : Field) : Except DecodeError Node := do
  let context := MessageType.node.context
  match field.number with
  | 1 => return { m with inputs := m.inputs ++ [← field.asText context] }
  | 2 => return { m with outputs := m.outputs ++ [← field.asText context] }
  | 3 => return { m with name := some (← field.asText context) }
  | 4 => return { m with opType := some (← field.asText context) }
  | 5 =>
    return { m with
      attributes := m.attributes ++ [← field.asMessage context (Attribute.decodeIn subgraph)] }
  | 6 => return { m with docString := some (← field.asText context) }
  | 7 => return { m with domain := some (← field.asText context) }
  | _ => return { m with unknownFields := m.unknownFields ++ [field] }

def decodeIn (subgraph : GraphDecoder) (buffer : Bytes) : Except DecodeError Node :=
  decodeWith .node {} (step subgraph) buffer

end Node

namespace Graph

/-- Takes one field of a graph. -/
def step (subgraph : GraphDecoder) (m : Graph) (field : Field) : Except DecodeError Graph := do
  let context := MessageType.graph.context
  match field.number with
  | 1 => return { m with nodes := m.nodes ++ [← field.asMessage context (Node.decodeIn subgraph)] }
  | 2 => return { m with name := some (← field.asText context) }
  | 5 => return { m with initializers := m.initializers ++ [← field.asMessage context Tensor.decode] }
  | 10 => return { m with docString := some (← field.asText context) }
  | 11 => return { m with inputs := m.inputs ++ [← field.asMessage context ValueInfo.decode] }
  | 12 => return { m with outputs := m.outputs ++ [← field.asMessage context ValueInfo.decode] }
  | 13 => return { m with valueInfo := m.valueInfo ++ [← field.asMessage context ValueInfo.decode] }
  | _ => return { m with unknownFields := m.unknownFields ++ [field] }

def decodeIn (subgraph : GraphDecoder) (buffer : Bytes) : Except DecodeError Graph :=
  decodeWith .graph {} (step subgraph) buffer

/-- Reads a graph whose subgraphs are nested less than `depth` deep. Without depth only an empty
buffer is met, and that is the empty graph. -/
def decodeWithin : (depth : Nat) → GraphDecoder
  | 0 => fun _ => .ok {}
  | depth + 1 => decodeIn (decodeWithin depth)

/-- Reads a graph. A subgraph is shorter than the graph around it, so the length of the buffer
bounds the depth. -/
def decode (buffer : Bytes) : Except DecodeError Graph := decodeWithin buffer.length buffer

end Graph

/-- Reads an attribute. -/
def Attribute.decode (buffer : Bytes) : Except DecodeError Attribute :=
  Attribute.decodeIn Graph.decode buffer

/-- Reads a node. -/
def Node.decode (buffer : Bytes) : Except DecodeError Node := Node.decodeIn Graph.decode buffer

namespace Model

/-- Takes one field of a model. -/
def step (m : Model) (field : Field) : Except DecodeError Model := do
  let context := MessageType.model.context
  match field.number with
  | 1 => return { m with irVersion := some (← field.asInt64 context) }
  | 2 => return { m with producerName := some (← field.asText context) }
  | 3 => return { m with producerVersion := some (← field.asText context) }
  | 4 => return { m with domain := some (← field.asText context) }
  | 5 => return { m with modelVersion := some (← field.asInt64 context) }
  | 6 => return { m with docString := some (← field.asText context) }
  | 7 => return { m with graph := some (← field.asMessage context Graph.decode) }
  | 8 =>
    return { m with opsetImports := m.opsetImports ++ [← field.asMessage context OpsetImport.decode] }
  | 14 =>
    return { m with metadataProps := m.metadataProps ++ [← field.asMessage context Entry.decode] }
  | _ => return { m with unknownFields := m.unknownFields ++ [field] }

def decode (buffer : Bytes) : Except DecodeError Model := decodeWith .model {} step buffer

end Model

end FixedShape.Onnx
