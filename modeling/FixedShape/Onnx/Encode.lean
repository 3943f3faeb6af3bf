/-
Module: FixedShape.Onnx.Encode
Purpose: Bytes from messages. Modelled fields are written in ascending order of their numbers
  and the kept fields after them, so equal messages have equal bytes. Tensor data is packed;
  dimensions and attribute lists are not.
-/
import FixedShape.Wire.Emit
import FixedShape.Onnx.Message

namespace FixedShape.Onnx

open FixedShape.Wire

def Entry.encode (m : Entry) : Bytes :=
  Emit.optional (Emit.text 1) m.key ++ (
  Emit.optional (Emit.text 2) m.value ++
  Emit.fields m.unknownFields)

def Tensor.encode (m : Tensor) : Bytes :=
  Emit.unpackedInt64 1 m.dims ++ (
  Emit.optional (Emit.int32 2) m.dataType ++ (
  Emit.packedFloat 4 m.floatData ++ (
  Emit.packedInt32 5 m.int32Data ++ (
  Emit.packedInt64 7 m.int64Data ++ (
  Emit.optional (Emit.text 8) m.name ++ (
  Emit.optional (Emit.bytes 9) m.rawData ++ (
  Emit.packedDouble 10 m.doubleData ++ (
  Emit.packedUInt64 11 m.uint64Data ++ (
  Emit.payloads 13 (m.externalData.map Entry.encode) ++ (
  Emit.optional (Emit.int32 14) m.dataLocation ++
  Emit.fields m.unknownFields))))))))))

def Dimension.encode (m : Dimension) : Bytes :=
  Emit.optional (Emit.int64 1) m.value ++ (
  Emit.optional (Emit.text 2) m.param ++
  Emit.fields m.unknownFields)

def TensorShape.encode (m : TensorShape) : Bytes :=
  Emit.payloads 1 (m.dims.map Dimension.encode) ++
  Emit.fields m.unknownFields

def TensorType.encode (m : TensorType) : Bytes :=
  Emit.optional (Emit.int32 1) m.elemType ++ (
  Emit.optional (Emit.bytes 2) (m.shape.map TensorShape.encode) ++
  Emit.fields m.unknownFields)

def ValueType.encode (m : ValueType) : Bytes :=
  Emit.optional (Emit.bytes 1) (m.tensorType.map TensorType.encode) ++
  Emit.fields m.unknownFields

def ValueInfo.encode (m : ValueInfo) : Bytes :=
  Emit.optional (Emit.text 1) m.name ++ (
  Emit.optional (Emit.bytes 2) (m.type.map ValueType.encode) ++ (
  Emit.optional (Emit.text 3) m.docString ++
  Emit.fields m.unknownFields))

def OpsetImport.encode (m : OpsetImport) : Bytes :=
  Emit.optional (Emit.text 1) m.domain ++ (
  Emit.optional (Emit.int64 2) m.version ++
  Emit.fields m.unknownFields)

mutual

def Attribute.encode : Attribute → Bytes
  | { name, f, i, s, t, g, floats, ints, strings, tensors, graphs, type, unknownFields } =>
    Emit.optional (Emit.text 1) name ++ (
    Emit.optional (Emit.float 2) f ++ (
    Emit.optional (Emit.int64 3) i ++ (
    Emit.optional (Emit.bytes 4) s ++ (
    Emit.optional (Emit.bytes 5) (t.map Tensor.encode) ++ (
    Emit.optional (Emit.bytes 6) (encodeSubgraph? g) ++ (
    Emit.unpackedFloat 7 floats ++ (
    Emit.unpackedInt64 8 ints ++ (
    Emit.payloads 9 strings ++ (
    Emit.payloads 10 (tensors.map Tensor.encode) ++ (
    Emit.payloads 11 (encodeSubgraphs graphs) ++ (
    Emit.optional (Emit.int32 20) type ++
    Emit.fields unknownFields)))))))))))

def Node.encode : Node → Bytes
  | { inputs, outputs, name, opType, attributes, docString, domain, unknownFields } =>
    Emit.texts 1 inputs ++ (
    Emit.texts 2 outputs ++ (
    Emit.optional (Emit.text 3) name ++ (
    Emit.optional (Emit.text 4) opType ++ (
    Emit.payloads 5 (encodeAttributes attributes) ++ (
    Emit.optional (Emit.text 6) docString ++ (
    Emit.optional (Emit.text 7) domain ++
    Emit.fields unknownFields))))))

def Graph.encode : Graph → Bytes
  | { nodes, name, initializers, docString, inputs, outputs, valueInfo, unknownFields } =>
    Emit.payloads 1 (encodeNodes nodes) ++ (
    Emit.optional (Emit.text 2) name ++ (
    Emit.payloads 5 (initializers.map Tensor.encode) ++ (
    Emit.optional (Emit.text 10) docString ++ (
    Emit.payloads 11 (inputs.map ValueInfo.encode) ++ (
    Emit.payloads 12 (outputs.map ValueInfo.encode) ++ (
    Emit.payloads 13 (valueInfo.map ValueInfo.encode) ++
    Emit.fields unknownFields))))))

/-- The encoded attributes of a node. -/
def encodeAttributes : List Attribute → List Bytes
  | [] => []
  | first :: rest => first.encode :: encodeAttributes rest

/-- The encoded nodes of a graph. -/
def encodeNodes : List Node → List Bytes
  | [] => []
  | first :: rest => first.encode :: encodeNodes rest

/-- The encoded subgraphs of an attribute's list. -/
def encodeSubgraphs : List Graph → List Bytes
  | [] => []
  | first :: rest => first.encode :: encodeSubgraphs rest

/-- The encoded single subgraph of an attribute. -/
def encodeSubgraph? : Option Graph → Option Bytes
  | none => none
  | some graph => some graph.encode

end

def Model.encode (m : Model) : Bytes :=
  Emit.optional (Emit.int64 1) m.irVersion ++ (
  Emit.optional (Emit.text 2) m.producerName ++ (
  Emit.optional (Emit.text 3) m.producerVersion ++ (
  Emit.optional (Emit.text 4) m.domain ++ (
  Emit.optional (Emit.int64 5) m.modelVersion ++ (
  Emit.optional (Emit.text 6) m.docString ++ (
  Emit.optional (Emit.bytes 7) (m.graph.map Graph.encode) ++ (
  Emit.payloads 8 (m.opsetImports.map OpsetImport.encode) ++ (
  Emit.payloads 14 (m.metadataProps.map Entry.encode) ++
  Emit.fields m.unknownFields))))))))

end FixedShape.Onnx
