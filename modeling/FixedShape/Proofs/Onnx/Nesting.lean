/-
Module: FixedShape.Proofs.Onnx.Nesting
Purpose: The messages that hold graphs, as sequences of parts. Attributes, nodes and graphs hold
  each other, so each rests on the graphs in shorter buffers.
-/
import FixedShape.Proofs.Onnx.Depth
import FixedShape.Proofs.Onnx.RoundTrip

namespace FixedShape.Onnx

open FixedShape.Wire

/-! ### Lists of encoded messages -/

theorem encodeAttributes_eq_map (attributes : List Attribute) :
    encodeAttributes attributes = attributes.map Attribute.encode := by
  induction attributes with
  | nil => rw [encodeAttributes, List.map_nil]
  | cons first rest ih => rw [encodeAttributes, ih, List.map_cons]

theorem encodeNodes_eq_map (nodes : List Node) : encodeNodes nodes = nodes.map Node.encode := by
  induction nodes with
  | nil => rw [encodeNodes, List.map_nil]
  | cons first rest ih => rw [encodeNodes, ih, List.map_cons]

theorem encodeSubgraphs_eq_map (graphs : List Graph) :
    encodeSubgraphs graphs = graphs.map Graph.encode := by
  induction graphs with
  | nil => rw [encodeSubgraphs, List.map_nil]
  | cons first rest ih => rw [encodeSubgraphs, ih, List.map_cons]

theorem encodeSubgraph?_eq_map (graph : Option Graph) :
    encodeSubgraph? graph = graph.map Graph.encode := by
  cases graph with
  | none => rw [encodeSubgraph?, Option.map_none]
  | some graph => rw [encodeSubgraph?, Option.map_some]

/-! ### Messages with graphs -/

namespace Attribute

/-- The parts of an attribute. -/
def codec :=
  Codec.cons (.optional (.text 1 MessageType.attr.context)) <|
  Codec.cons (.optional (.float 2 MessageType.attr.context)) <|
  Codec.cons (.optional (.int64 3 MessageType.attr.context)) <|
  Codec.cons (.optional (.bytes 4 MessageType.attr.context)) <|
  Codec.cons (.optional (.message 5 MessageType.attr.context Tensor.decode Tensor.encode)) <|
  Codec.cons (.optional (.message 6 MessageType.attr.context Graph.decode Graph.encode)) <|
  Codec.cons (.numbers 7 (·.asFloats MessageType.attr.context) (Emit.unpackedFloat 7)) <|
  Codec.cons (.numbers 8 (·.asInt64s MessageType.attr.context) (Emit.unpackedInt64 8)) <|
  Codec.cons (.repeated (.bytes 9 MessageType.attr.context)) <|
  Codec.cons (.repeated (.message 10 MessageType.attr.context Tensor.decode Tensor.encode)) <|
  Codec.cons (.repeated (.message 11 MessageType.attr.context Graph.decode Graph.encode)) <|
  Codec.cons (.optional (.int32 20 MessageType.attr.context)) Codec.unknown

/-- An attribute from its parts. -/
def ofParts : Option String × Option UInt32 × Option Int64 × Option Bytes × Option Tensor ×
    Option Graph × List UInt32 × List Int64 × List Bytes × List Tensor × List Graph × Option Int32 ×
    List Field → Attribute
  | (name, f, i, s, t, g, floats, ints, strings, tensors, graphs, type, unknownFields) =>
    { name, f, i, s, t, g, floats, ints, strings, tensors, graphs, type, unknownFields }

theorem step_ofParts (parts) (field : Field) :
    step Graph.decode (ofParts parts) field = ofParts <$> codec.step parts field := by
  unfold step
  split
  all_goals simp_all [codec, ofParts]

theorem encode_ofParts (parts) : encode (ofParts parts) = codec.encode parts := by
  simp only [ofParts, Attribute.encode, encodeSubgraph?_eq_map, encodeSubgraphs_eq_map,
    payloads_map, optional_map]
  rfl

variable {buffer : Bytes}

theorem lawful_codec
    (hgraphs : ∀ payload, payload.length < buffer.length →
      Faithful Graph.decode Graph.encode payload) :
    codec.Lawful [] buffer := by
  apply Codec.lawful_cons (Part.lawful_optional Element.lawful_text)
  apply Codec.lawful_cons (Part.lawful_optional Element.lawful_float)
  apply Codec.lawful_cons (Part.lawful_optional Element.lawful_int64)
  apply Codec.lawful_cons (Part.lawful_optional Element.lawful_bytes)
  apply Codec.lawful_cons (Part.lawful_optional (Element.lawful_message
    fun payload _ => Tensor.faithful_decode payload))
  apply Codec.lawful_cons (Part.lawful_optional (Element.lawful_message hgraphs))
  apply Codec.lawful_cons (Part.lawful_unpackedFloat (by decide))
  apply Codec.lawful_cons (Part.lawful_unpackedInt64 (by decide))
  apply Codec.lawful_cons (Part.lawful_repeated Element.lawful_bytes)
  apply Codec.lawful_cons (Part.lawful_repeated (Element.lawful_message
    fun payload _ => Tensor.faithful_decode payload))
  apply Codec.lawful_cons (Part.lawful_repeated (Element.lawful_message hgraphs))
  apply Codec.lawful_cons (Part.lawful_optional Element.lawful_int32)
  exact Codec.lawful_unknown

/-- Reading an attribute loses nothing if reading its subgraphs does not. -/
theorem faithful_decode
    (hgraphs : ∀ payload, payload.length < buffer.length →
      Faithful Graph.decode Graph.encode payload) :
    Faithful (decodeIn Graph.decode) encode buffer :=
  faithful_of_codec (lawful_codec hgraphs) (by decide) rfl step_ofParts encode_ofParts

end Attribute

namespace Node

/-- The parts of a node. -/
def codec :=
  Codec.cons (.repeated (.text 1 MessageType.node.context)) <|
  Codec.cons (.repeated (.text 2 MessageType.node.context)) <|
  Codec.cons (.optional (.text 3 MessageType.node.context)) <|
  Codec.cons (.optional (.text 4 MessageType.node.context)) <|
  Codec.cons (.repeated (.message 5 MessageType.node.context (Attribute.decodeIn Graph.decode)
    Attribute.encode)) <|
  Codec.cons (.optional (.text 6 MessageType.node.context)) <|
  Codec.cons (.optional (.text 7 MessageType.node.context)) Codec.unknown

/-- A node from its parts. -/
def ofParts : List String × List String × Option String × Option String × List Attribute ×
    Option String × Option String × List Field → Node
  | (inputs, outputs, name, opType, attributes, docString, domain, unknownFields) =>
    { inputs, outputs, name, opType, attributes, docString, domain, unknownFields }

theorem step_ofParts (parts) (field : Field) :
    step Graph.decode (ofParts parts) field = ofParts <$> codec.step parts field := by
  unfold step
  split
  all_goals simp_all [codec, ofParts]

theorem encode_ofParts (parts) : encode (ofParts parts) = codec.encode parts := by
  simp only [ofParts, Node.encode, encodeAttributes_eq_map, payloads_map]
  rfl

variable {buffer : Bytes}

theorem lawful_codec
    (hgraphs : ∀ payload, payload.length < buffer.length →
      Faithful Graph.decode Graph.encode payload) :
    codec.Lawful [] buffer := by
  have hattributes : ∀ payload, payload.length < buffer.length →
      Faithful (Attribute.decodeIn Graph.decode) Attribute.encode payload := by
    intro payload hpayload
    apply Attribute.faithful_decode
    intro inner hinner
    exact hgraphs inner (Nat.lt_trans hinner hpayload)
  apply Codec.lawful_cons (Part.lawful_repeated Element.lawful_text)
  apply Codec.lawful_cons (Part.lawful_repeated Element.lawful_text)
  apply Codec.lawful_cons (Part.lawful_optional Element.lawful_text)
  apply Codec.lawful_cons (Part.lawful_optional Element.lawful_text)
  apply Codec.lawful_cons (Part.lawful_repeated (Element.lawful_message hattributes))
  apply Codec.lawful_cons (Part.lawful_optional Element.lawful_text)
  apply Codec.lawful_cons (Part.lawful_optional Element.lawful_text)
  exact Codec.lawful_unknown

/-- Reading a node loses nothing if reading its subgraphs does not. -/
theorem faithful_decode
    (hgraphs : ∀ payload, payload.length < buffer.length →
      Faithful Graph.decode Graph.encode payload) :
    Faithful (decodeIn Graph.decode) encode buffer :=
  faithful_of_codec (lawful_codec hgraphs) (by decide) rfl step_ofParts encode_ofParts

end Node

namespace Graph

/-- The parts of a graph. -/
def codec :=
  Codec.cons (.repeated (.message 1 MessageType.graph.context (Node.decodeIn Graph.decode)
    Node.encode)) <|
  Codec.cons (.optional (.text 2 MessageType.graph.context)) <|
  Codec.cons (.repeated (.message 5 MessageType.graph.context Tensor.decode Tensor.encode)) <|
  Codec.cons (.optional (.text 10 MessageType.graph.context)) <|
  Codec.cons (.repeated (.message 11 MessageType.graph.context ValueInfo.decode
    ValueInfo.encode)) <|
  Codec.cons (.repeated (.message 12 MessageType.graph.context ValueInfo.decode
    ValueInfo.encode)) <|
  Codec.cons (.repeated (.message 13 MessageType.graph.context ValueInfo.decode
    ValueInfo.encode)) Codec.unknown

/-- A graph from its parts. -/
def ofParts : List Node × Option String × List Tensor × Option String × List ValueInfo ×
    List ValueInfo × List ValueInfo × List Field → Graph
  | (nodes, name, initializers, docString, inputs, outputs, valueInfo, unknownFields) =>
    { nodes, name, initializers, docString, inputs, outputs, valueInfo, unknownFields }

theorem step_ofParts (parts) (field : Field) :
    step decode (ofParts parts) field = ofParts <$> codec.step parts field := by
  unfold step
  split
  all_goals simp_all [codec, ofParts]

theorem encode_ofParts (parts) : encode (ofParts parts) = codec.encode parts := by
  simp only [ofParts, Graph.encode, encodeNodes_eq_map, payloads_map]
  rfl

variable {buffer : Bytes}

theorem lawful_codec
    (hgraphs : ∀ payload, payload.length < buffer.length → Faithful decode encode payload) :
    codec.Lawful [] buffer := by
  have hnodes : ∀ payload, payload.length < buffer.length →
      Faithful (Node.decodeIn Graph.decode) Node.encode payload := by
    intro payload hpayload
    apply Node.faithful_decode
    intro inner hinner
    exact hgraphs inner (Nat.lt_trans hinner hpayload)
  apply Codec.lawful_cons (Part.lawful_repeated (Element.lawful_message hnodes))
  apply Codec.lawful_cons (Part.lawful_optional Element.lawful_text)
  apply Codec.lawful_cons (Part.lawful_repeated (Element.lawful_message
    fun payload _ => Tensor.faithful_decode payload))
  apply Codec.lawful_cons (Part.lawful_optional Element.lawful_text)
  apply Codec.lawful_cons (Part.lawful_repeated (Element.lawful_message
    fun payload _ => ValueInfo.faithful_decode payload))
  apply Codec.lawful_cons (Part.lawful_repeated (Element.lawful_message
    fun payload _ => ValueInfo.faithful_decode payload))
  apply Codec.lawful_cons (Part.lawful_repeated (Element.lawful_message
    fun payload _ => ValueInfo.faithful_decode payload))
  exact Codec.lawful_unknown

/-- Reading a graph loses nothing. The induction is on the length of the buffer, which bounds
those of the subgraphs. -/
theorem faithful_decode (buffer : Bytes) : Faithful decode encode buffer := by
  induction hlength : buffer.length using Nat.strongRecOn generalizing buffer with
  | ind length ih =>
      have hgraphs : ∀ payload, payload.length < buffer.length →
          Faithful decode encode payload := by
        intro payload hpayload
        rw [hlength] at hpayload
        exact ih payload.length hpayload payload rfl
      have hfaithful : Faithful (decodeIn decode) encode buffer :=
        faithful_of_codec (lawful_codec hgraphs) (by decide) rfl step_ofParts encode_ofParts
      intro message hmessage
      rw [decode_eq] at hmessage
      obtain ⟨hreadable, hle⟩ := hfaithful hmessage
      refine ⟨?_, hle⟩
      intro hfits
      rw [decode_eq]
      exact hreadable hfits

end Graph

namespace Model

/-- The parts of a model. -/
def codec :=
  Codec.cons (.optional (.int64 1 MessageType.model.context)) <|
  Codec.cons (.optional (.text 2 MessageType.model.context)) <|
  Codec.cons (.optional (.text 3 MessageType.model.context)) <|
  Codec.cons (.optional (.text 4 MessageType.model.context)) <|
  Codec.cons (.optional (.int64 5 MessageType.model.context)) <|
  Codec.cons (.optional (.text 6 MessageType.model.context)) <|
  Codec.cons (.optional (.message 7 MessageType.model.context Graph.decode Graph.encode)) <|
  Codec.cons (.repeated (.message 8 MessageType.model.context OpsetImport.decode
    OpsetImport.encode)) <|
  Codec.cons (.repeated (.message 14 MessageType.model.context Entry.decode
    Entry.encode)) Codec.unknown

/-- A model from its parts. -/
def ofParts : Option Int64 × Option String × Option String × Option String × Option Int64 ×
    Option String × Option Graph × List OpsetImport × List Entry × List Field → Model
  | (irVersion, producerName, producerVersion, domain, modelVersion, docString, graph, opsetImports,
      metadataProps, unknownFields) =>
    { irVersion, producerName, producerVersion, domain, modelVersion, docString, graph,
      opsetImports, metadataProps, unknownFields }

theorem step_ofParts (parts) (field : Field) :
    step (ofParts parts) field = ofParts <$> codec.step parts field := by
  unfold step
  split
  all_goals simp_all [codec, ofParts]

theorem encode_ofParts (parts) : encode (ofParts parts) = codec.encode parts := by
  simp only [encode, payloads_map, optional_map]
  rfl

theorem lawful_codec (buffer : Bytes) : codec.Lawful [] buffer := by
  apply Codec.lawful_cons (Part.lawful_optional Element.lawful_int64)
  apply Codec.lawful_cons (Part.lawful_optional Element.lawful_text)
  apply Codec.lawful_cons (Part.lawful_optional Element.lawful_text)
  apply Codec.lawful_cons (Part.lawful_optional Element.lawful_text)
  apply Codec.lawful_cons (Part.lawful_optional Element.lawful_int64)
  apply Codec.lawful_cons (Part.lawful_optional Element.lawful_text)
  apply Codec.lawful_cons (Part.lawful_optional (Element.lawful_message
    fun payload _ => Graph.faithful_decode payload))
  apply Codec.lawful_cons (Part.lawful_repeated (Element.lawful_message
    fun payload _ => OpsetImport.faithful_decode payload))
  apply Codec.lawful_cons (Part.lawful_repeated (Element.lawful_message
    fun payload _ => Entry.faithful_decode payload))
  exact Codec.lawful_unknown

/-- Reading a model loses nothing. -/
theorem faithful_decode (buffer : Bytes) : Faithful decode encode buffer :=
  faithful_of_codec (lawful_codec buffer) (by decide) rfl step_ofParts encode_ofParts

end Model

end FixedShape.Onnx
