/-
Module: FixedShape.Proofs.Onnx.RoundTrip
Purpose: The messages that hold no graph, as sequences of parts. Each is read back as it was read
  first.
-/
import FixedShape.Proofs.Onnx.Codec

namespace FixedShape.Onnx

open FixedShape.Wire

/-! ### Fields of embedded messages -/

theorem payloads_map {α : Type} (number : UInt64) (encode : α → Bytes) (values : List α) :
    Emit.payloads number (values.map encode) =
      values.flatMap fun value => Emit.field { number, value := .bytes (encode value) } :=
  List.flatMap_map encode (Emit.bytes number) values

theorem optional_map {α : Type} (number : UInt64) (encode : α → Bytes) (value : Option α) :
    Emit.optional (Emit.bytes number) (value.map encode) =
      Emit.optional (fun value => Emit.field { number, value := .bytes (encode value) }) value := by
  cases value with
  | none => rfl
  | some value => rfl

/-! ### Messages without graphs -/

namespace Entry

/-- The parts of an entry. -/
def codec :=
  Codec.cons (.optional (.text 1 MessageType.entry.context)) <|
  Codec.cons (.optional (.text 2 MessageType.entry.context)) Codec.unknown

/-- An entry from its parts. -/
def ofParts : Option String × Option String × List Field → Entry
  | (key, value, unknownFields) => { key, value, unknownFields }

theorem step_ofParts (parts) (field : Field) :
    step (ofParts parts) field = ofParts <$> codec.step parts field := by
  unfold step
  split
  all_goals simp_all [codec, ofParts]

theorem lawful_codec (buffer : Bytes) : codec.Lawful [] buffer := by
  apply Codec.lawful_cons (Part.lawful_optional Element.lawful_text)
  apply Codec.lawful_cons (Part.lawful_optional Element.lawful_text)
  exact Codec.lawful_unknown

/-- Reading an entry loses nothing. -/
theorem faithful_decode (buffer : Bytes) : Faithful decode encode buffer :=
  faithful_of_codec (lawful_codec buffer) (by decide) rfl step_ofParts fun _ => rfl

end Entry

namespace Tensor

/-- The parts of a tensor. -/
def codec :=
  Codec.cons (.numbers 1 (·.asInt64s MessageType.tensor.context) (Emit.unpackedInt64 1)) <|
  Codec.cons (.optional (.int32 2 MessageType.tensor.context)) <|
  Codec.cons (.numbers 4 (·.asFloats MessageType.tensor.context) (Emit.packedFloat 4)) <|
  Codec.cons (.numbers 5 (·.asInt32s MessageType.tensor.context) (Emit.packedInt32 5)) <|
  Codec.cons (.numbers 7 (·.asInt64s MessageType.tensor.context) (Emit.packedInt64 7)) <|
  Codec.cons (.optional (.text 8 MessageType.tensor.context)) <|
  Codec.cons (.optional (.bytes 9 MessageType.tensor.context)) <|
  Codec.cons (.numbers 10 (·.asDoubles MessageType.tensor.context) (Emit.packedDouble 10)) <|
  Codec.cons (.numbers 11 (·.asUInt64s MessageType.tensor.context) (Emit.packedUInt64 11)) <|
  Codec.cons (.repeated (.message 13 MessageType.tensor.context Entry.decode Entry.encode)) <|
  Codec.cons (.optional (.int32 14 MessageType.tensor.context)) Codec.unknown

/-- A tensor from its parts. -/
def ofParts : List Int64 × Option Int32 × List UInt32 × List Int32 × List Int64 × Option String ×
    Option Bytes × List UInt64 × List UInt64 × List Entry × Option Int32 × List Field → Tensor
  | (dims, dataType, floatData, int32Data, int64Data, name, rawData, doubleData, uint64Data,
      externalData, dataLocation, unknownFields) =>
    { dims, dataType, floatData, int32Data, int64Data, name, rawData, doubleData, uint64Data,
      externalData, dataLocation, unknownFields }

theorem step_ofParts (parts) (field : Field) :
    step (ofParts parts) field = ofParts <$> codec.step parts field := by
  unfold step
  split
  all_goals simp_all [codec, ofParts]

theorem encode_ofParts (parts) : encode (ofParts parts) = codec.encode parts := by
  simp only [encode, payloads_map]
  rfl

theorem lawful_codec (buffer : Bytes) : codec.Lawful [] buffer := by
  apply Codec.lawful_cons (Part.lawful_unpackedInt64 (by decide))
  apply Codec.lawful_cons (Part.lawful_optional Element.lawful_int32)
  apply Codec.lawful_cons Part.lawful_packedFloat
  apply Codec.lawful_cons Part.lawful_packedInt32
  apply Codec.lawful_cons Part.lawful_packedInt64
  apply Codec.lawful_cons (Part.lawful_optional Element.lawful_text)
  apply Codec.lawful_cons (Part.lawful_optional Element.lawful_bytes)
  apply Codec.lawful_cons Part.lawful_packedDouble
  apply Codec.lawful_cons Part.lawful_packedUInt64
  apply Codec.lawful_cons (Part.lawful_repeated (Element.lawful_message
    fun payload _ => Entry.faithful_decode payload))
  apply Codec.lawful_cons (Part.lawful_optional Element.lawful_int32)
  exact Codec.lawful_unknown

/-- Reading a tensor loses nothing. -/
theorem faithful_decode (buffer : Bytes) : Faithful decode encode buffer :=
  faithful_of_codec (lawful_codec buffer) (by decide) rfl step_ofParts encode_ofParts

end Tensor

namespace Dimension

/-- The parts of a dimension. -/
def codec :=
  Codec.cons (.optional (.int64 1 MessageType.dimension.context)) <|
  Codec.cons (.optional (.text 2 MessageType.dimension.context)) Codec.unknown

/-- A dimension from its parts. -/
def ofParts : Option Int64 × Option String × List Field → Dimension
  | (value, param, unknownFields) => { value, param, unknownFields }

theorem step_ofParts (parts) (field : Field) :
    step (ofParts parts) field = ofParts <$> codec.step parts field := by
  unfold step
  split
  all_goals simp_all [codec, ofParts]

theorem lawful_codec (buffer : Bytes) : codec.Lawful [] buffer := by
  apply Codec.lawful_cons (Part.lawful_optional Element.lawful_int64)
  apply Codec.lawful_cons (Part.lawful_optional Element.lawful_text)
  exact Codec.lawful_unknown

/-- Reading a dimension loses nothing. -/
theorem faithful_decode (buffer : Bytes) : Faithful decode encode buffer :=
  faithful_of_codec (lawful_codec buffer) (by decide) rfl step_ofParts fun _ => rfl

end Dimension

namespace TensorShape

/-- The parts of a shape. -/
def codec :=
  Codec.cons (.repeated (.message 1 MessageType.tensorShape.context Dimension.decode
    Dimension.encode)) Codec.unknown

/-- A shape from its parts. -/
def ofParts : List Dimension × List Field → TensorShape
  | (dims, unknownFields) => { dims, unknownFields }

theorem step_ofParts (parts) (field : Field) :
    step (ofParts parts) field = ofParts <$> codec.step parts field := by
  unfold step
  split
  all_goals simp_all [codec, ofParts]

theorem encode_ofParts (parts) : encode (ofParts parts) = codec.encode parts := by
  simp only [encode, payloads_map]
  rfl

theorem lawful_codec (buffer : Bytes) : codec.Lawful [] buffer := by
  apply Codec.lawful_cons (Part.lawful_repeated (Element.lawful_message
    fun payload _ => Dimension.faithful_decode payload))
  exact Codec.lawful_unknown

/-- Reading a shape loses nothing. -/
theorem faithful_decode (buffer : Bytes) : Faithful decode encode buffer :=
  faithful_of_codec (lawful_codec buffer) (by decide) rfl step_ofParts encode_ofParts

end TensorShape

namespace TensorType

/-- The parts of a tensor's type. -/
def codec :=
  Codec.cons (.optional (.int32 1 MessageType.tensorType.context)) <|
  Codec.cons (.optional (.message 2 MessageType.tensorType.context TensorShape.decode
    TensorShape.encode)) Codec.unknown

/-- A tensor's type from its parts. -/
def ofParts : Option Int32 × Option TensorShape × List Field → TensorType
  | (elemType, shape, unknownFields) => { elemType, shape, unknownFields }

theorem step_ofParts (parts) (field : Field) :
    step (ofParts parts) field = ofParts <$> codec.step parts field := by
  unfold step
  split
  all_goals simp_all [codec, ofParts]

theorem encode_ofParts (parts) : encode (ofParts parts) = codec.encode parts := by
  simp only [encode, optional_map]
  rfl

theorem lawful_codec (buffer : Bytes) : codec.Lawful [] buffer := by
  apply Codec.lawful_cons (Part.lawful_optional Element.lawful_int32)
  apply Codec.lawful_cons (Part.lawful_optional (Element.lawful_message
    fun payload _ => TensorShape.faithful_decode payload))
  exact Codec.lawful_unknown

/-- Reading a tensor's type loses nothing. -/
theorem faithful_decode (buffer : Bytes) : Faithful decode encode buffer :=
  faithful_of_codec (lawful_codec buffer) (by decide) rfl step_ofParts encode_ofParts

end TensorType

namespace ValueType

/-- The parts of a value's type. -/
def codec :=
  Codec.cons (.optional (.message 1 MessageType.valueType.context TensorType.decode
    TensorType.encode)) Codec.unknown

/-- A value's type from its parts. -/
def ofParts : Option TensorType × List Field → ValueType
  | (tensorType, unknownFields) => { tensorType, unknownFields }

theorem step_ofParts (parts) (field : Field) :
    step (ofParts parts) field = ofParts <$> codec.step parts field := by
  unfold step
  split
  all_goals simp_all [codec, ofParts]

theorem encode_ofParts (parts) : encode (ofParts parts) = codec.encode parts := by
  simp only [encode, optional_map]
  rfl

theorem lawful_codec (buffer : Bytes) : codec.Lawful [] buffer := by
  apply Codec.lawful_cons (Part.lawful_optional (Element.lawful_message
    fun payload _ => TensorType.faithful_decode payload))
  exact Codec.lawful_unknown

/-- Reading a value's type loses nothing. -/
theorem faithful_decode (buffer : Bytes) : Faithful decode encode buffer :=
  faithful_of_codec (lawful_codec buffer) (by decide) rfl step_ofParts encode_ofParts

end ValueType

namespace ValueInfo

/-- The parts of a value's declaration. -/
def codec :=
  Codec.cons (.optional (.text 1 MessageType.valueInfo.context)) <|
  Codec.cons (.optional (.message 2 MessageType.valueInfo.context ValueType.decode
    ValueType.encode)) <|
  Codec.cons (.optional (.text 3 MessageType.valueInfo.context)) Codec.unknown

/-- A value's declaration from its parts. -/
def ofParts : Option String × Option ValueType × Option String × List Field → ValueInfo
  | (name, type, docString, unknownFields) => { name, type, docString, unknownFields }

theorem step_ofParts (parts) (field : Field) :
    step (ofParts parts) field = ofParts <$> codec.step parts field := by
  unfold step
  split
  all_goals simp_all [codec, ofParts]

theorem encode_ofParts (parts) : encode (ofParts parts) = codec.encode parts := by
  simp only [encode, optional_map]
  rfl

theorem lawful_codec (buffer : Bytes) : codec.Lawful [] buffer := by
  apply Codec.lawful_cons (Part.lawful_optional Element.lawful_text)
  apply Codec.lawful_cons (Part.lawful_optional (Element.lawful_message
    fun payload _ => ValueType.faithful_decode payload))
  apply Codec.lawful_cons (Part.lawful_optional Element.lawful_text)
  exact Codec.lawful_unknown

/-- Reading a value's declaration loses nothing. -/
theorem faithful_decode (buffer : Bytes) : Faithful decode encode buffer :=
  faithful_of_codec (lawful_codec buffer) (by decide) rfl step_ofParts encode_ofParts

end ValueInfo

namespace OpsetImport

/-- The parts of an import. -/
def codec :=
  Codec.cons (.optional (.text 1 MessageType.opsetImport.context)) <|
  Codec.cons (.optional (.int64 2 MessageType.opsetImport.context)) Codec.unknown

/-- An import from its parts. -/
def ofParts : Option String × Option Int64 × List Field → OpsetImport
  | (domain, version, unknownFields) => { domain, version, unknownFields }

theorem step_ofParts (parts) (field : Field) :
    step (ofParts parts) field = ofParts <$> codec.step parts field := by
  unfold step
  split
  all_goals simp_all [codec, ofParts]

theorem lawful_codec (buffer : Bytes) : codec.Lawful [] buffer := by
  apply Codec.lawful_cons (Part.lawful_optional Element.lawful_text)
  apply Codec.lawful_cons (Part.lawful_optional Element.lawful_int64)
  exact Codec.lawful_unknown

/-- Reading an import loses nothing. -/
theorem faithful_decode (buffer : Bytes) : Faithful decode encode buffer :=
  faithful_of_codec (lawful_codec buffer) (by decide) rfl step_ofParts fun _ => rfl

end OpsetImport

end FixedShape.Onnx
