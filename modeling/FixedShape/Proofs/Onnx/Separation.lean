/-
Module: FixedShape.Proofs.Onnx.Separation
Purpose: Messages that keep beside their modelled fields only fields of other numbers. Reading gives
  no other messages, and these are read back from the bytes that they are written to.
-/
import FixedShape.Proofs.Onnx.Nesting

namespace FixedShape.Onnx

open FixedShape.Outcome
open FixedShape.Wire

/-! ### Messages kept apart from their unknown fields -/

/-- The numbers of the fields that a type models. -/
def MessageType.modelled : MessageType → List UInt64
  | .attr => [1, 2, 3, 4, 5, 6, 7, 8, 9, 10, 11, 20]
  | .node => [1, 2, 3, 4, 5, 6, 7]
  | .tensor => [1, 2, 4, 5, 7, 8, 9, 10, 11, 13, 14]
  | .entry => [1, 2]
  | .dimension => [1, 2]
  | .tensorShape => [1]
  | .tensorType => [1, 2]
  | .valueType => [1]
  | .valueInfo => [1, 2, 3]
  | .graph => [1, 2, 5, 10, 11, 12, 13]
  | .opsetImport => [1, 2]
  | .model => [1, 2, 3, 4, 5, 6, 7, 8, 14]

/-- Fields that a type does not model, with numbers that fit into a tag. -/
def MessageType.Foreign (type : MessageType) (fields : List Field) : Prop :=
  ∀ field ∈ fields, field.number.toNat < 2 ^ 61 ∧ field.number ∉ type.modelled

instance {type : MessageType} {fields : List Field} : Decidable (type.Foreign fields) :=
  inferInstanceAs (Decidable (∀ field ∈ fields, _))

theorem MessageType.foreign_nil (type : MessageType) : type.Foreign [] := List.forall_mem_nil _

/-- The fields that are kept are foreign, here and in all messages inside. -/
structure Entry.Separated (m : Entry) : Prop where
  unknown : MessageType.entry.Foreign m.unknownFields

@[inherit_doc Entry.Separated]
structure Tensor.Separated (m : Tensor) : Prop where
  unknown : MessageType.tensor.Foreign m.unknownFields
  externalData : ∀ entry ∈ m.externalData, entry.Separated

@[inherit_doc Entry.Separated]
structure Dimension.Separated (m : Dimension) : Prop where
  unknown : MessageType.dimension.Foreign m.unknownFields

@[inherit_doc Entry.Separated]
structure TensorShape.Separated (m : TensorShape) : Prop where
  unknown : MessageType.tensorShape.Foreign m.unknownFields
  dims : ∀ dimension ∈ m.dims, dimension.Separated

@[inherit_doc Entry.Separated]
structure TensorType.Separated (m : TensorType) : Prop where
  unknown : MessageType.tensorType.Foreign m.unknownFields
  shape : ∀ shape ∈ m.shape, shape.Separated

@[inherit_doc Entry.Separated]
structure ValueType.Separated (m : ValueType) : Prop where
  unknown : MessageType.valueType.Foreign m.unknownFields
  tensorType : ∀ type ∈ m.tensorType, type.Separated

@[inherit_doc Entry.Separated]
structure ValueInfo.Separated (m : ValueInfo) : Prop where
  unknown : MessageType.valueInfo.Foreign m.unknownFields
  type : ∀ type ∈ m.type, type.Separated

@[inherit_doc Entry.Separated]
structure OpsetImport.Separated (m : OpsetImport) : Prop where
  unknown : MessageType.opsetImport.Foreign m.unknownFields

mutual

@[inherit_doc Entry.Separated]
inductive Attribute.Separated : Attribute → Prop where
  | intro {m : Attribute} (unknown : MessageType.attr.Foreign m.unknownFields)
      (t : ∀ tensor ∈ m.t, tensor.Separated) (g : ∀ graph ∈ m.g, Graph.Separated graph)
      (tensors : ∀ tensor ∈ m.tensors, tensor.Separated)
      (graphs : ∀ graph ∈ m.graphs, Graph.Separated graph) : Attribute.Separated m

@[inherit_doc Entry.Separated]
inductive Node.Separated : Node → Prop where
  | intro {m : Node} (unknown : MessageType.node.Foreign m.unknownFields)
      (attributes : ∀ setting ∈ m.attributes, Attribute.Separated setting) : Node.Separated m

@[inherit_doc Entry.Separated]
inductive Graph.Separated : Graph → Prop where
  | intro {m : Graph} (unknown : MessageType.graph.Foreign m.unknownFields)
      (nodes : ∀ node ∈ m.nodes, Node.Separated node)
      (initializers : ∀ tensor ∈ m.initializers, tensor.Separated)
      (inputs : ∀ info ∈ m.inputs, info.Separated)
      (outputs : ∀ info ∈ m.outputs, info.Separated)
      (valueInfo : ∀ info ∈ m.valueInfo, info.Separated) : Graph.Separated m

end

@[inherit_doc Entry.Separated]
structure Model.Separated (m : Model) : Prop where
  unknown : MessageType.model.Foreign m.unknownFields
  graph : ∀ graph ∈ m.graph, graph.Separated
  opsetImports : ∀ entry ∈ m.opsetImports, entry.Separated
  metadataProps : ∀ entry ∈ m.metadataProps, entry.Separated

/-! ### What reading keeps true -/

section

variable {α β μ : Type} {buffer : Bytes} {taken : List UInt64}

/-- A property of a part that holds at the start and is kept by every field of a buffer. -/
structure Part.Keeps (part : Part α) (buffer : Bytes) (P : α → Prop) : Prop where
  start : P part.start
  take : ∀ field before after, StandsIn buffer field → P before →
    part.take before field = .ok after → P after

/-- A property of the parts of a message that holds at the start and is kept by every field of a
buffer, of those whose numbers are not taken. -/
structure Codec.Keeps (codec : Codec α) (taken : List UInt64) (buffer : Bytes) (P : α → Prop) :
    Prop where
  start : P codec.start
  step : ∀ field before after, StandsIn buffer field → field.number ∉ taken → P before →
    codec.step before field = .ok after → P after

theorem Part.Keeps.optional {element : Element α} {P : α → Prop}
    (h : ∀ field value, StandsIn buffer field → element.read field = .ok value → P value) :
    (Part.optional element).Keeps buffer fun value => ∀ a ∈ value, P a where
  start := nofun
  take field before after hfield _ htake := by
    obtain ⟨value, hread, rfl⟩ := map_eq_ok.mp htake
    intro a ha
    cases ha
    exact h field value hfield hread

theorem Part.Keeps.repeated {element : Element α} {P : α → Prop}
    (h : ∀ field value, StandsIn buffer field → element.read field = .ok value → P value) :
    (Part.repeated element).Keeps buffer fun values => ∀ a ∈ values, P a where
  start := List.forall_mem_nil _
  take field before after hfield hbefore htake := by
    obtain ⟨value, hread, rfl⟩ := map_eq_ok.mp htake
    intro a ha
    rcases List.mem_append.mp ha with hold | hlast
    · exact hbefore a hold
    · rw [List.mem_singleton.mp hlast]
      exact h field value hfield hread

/-- What holds of the messages in shorter buffers holds of an embedded message. -/
theorem Element.of_read_message {number : UInt64} {context : Context}
    {decode : Bytes → Except DecodeError α} {encode : α → Bytes} {P : α → Prop}
    (h : ∀ payload value, payload.length < buffer.length → decode payload = .ok value → P value)
    (field : Field) (value : α) (hfield : StandsIn buffer field)
    (hread : (Element.message number context decode encode).read field = .ok value) : P value := by
  obtain ⟨payload, hvalue, hdecode⟩ := Field.of_asMessage hread
  exact h payload value (hfield.length_lt payload hvalue) hdecode

namespace Codec

/-- The fields that no part takes. -/
theorem Keeps.unknown : Codec.unknown.Keeps taken buffer fun fields =>
    ∀ field ∈ fields, field.number.toNat < 2 ^ 61 ∧ field.number ∉ taken where
  start := List.forall_mem_nil _
  step field before after hfield hnumber hbefore hstep :=
    (lawful_unknown.of_step field before after hfield hnumber hbefore hstep).1

theorem Keeps.cons {part : Part α} {rest : Codec β} {P : α → Prop} {Q : β → Prop}
    (hpart : part.Keeps buffer P) (hrest : rest.Keeps (part.number :: taken) buffer Q) :
    (Codec.cons part rest).Keeps taken buffer fun value => P value.1 ∧ Q value.2 where
  start := ⟨hpart.start, hrest.start⟩
  step field before after hfield hfree hbefore hstep := by
    by_cases hmine : field.number = part.number
    · rw [step_of_eq rest before hmine] at hstep
      obtain ⟨value, htake, rfl⟩ := map_eq_ok.mp hstep
      exact ⟨hpart.take field before.1 value hfield hbefore.1 htake, hbefore.2⟩
    · rw [step_of_ne rest before hmine] at hstep
      obtain ⟨value, hothers, rfl⟩ := map_eq_ok.mp hstep
      exact ⟨hbefore.1, hrest.step field before.2 value hfield
        (List.not_mem_cons_of_ne_of_not_mem hmine hfree) hbefore.2 hothers⟩

/-- A part of which nothing is asked. -/
theorem Keeps.skip {part : Part α} {rest : Codec β} {Q : β → Prop}
    (hrest : rest.Keeps (part.number :: taken) buffer Q) :
    (Codec.cons part rest).Keeps taken buffer fun value => Q value.2 where
  start := hrest.start
  step field before after hfield hfree hbefore hstep :=
    ((Keeps.cons (P := fun _ => True) ⟨trivial, fun _ _ _ _ _ _ => trivial⟩ hrest).step field before
      after hfield hfree ⟨trivial, hbefore⟩ hstep).2

/-- What every field keeps holds of a message that is read. -/
theorem Keeps.of_decodeWith {codec : Codec α} {P : α → Prop} {ofParts : α → μ} {type : MessageType}
    {start message : μ} {step : μ → Field → Except DecodeError μ}
    (h : codec.Keeps [] buffer P) (hstart : ofParts codec.start = start)
    (hstep : ∀ parts field, step (ofParts parts) field = ofParts <$> codec.step parts field)
    (hread : decodeWith type start step buffer = .ok message) :
    ∃ parts, message = ofParts parts ∧ P parts := by
  subst hstart
  obtain ⟨_, hfold⟩ := decodeWith_eq_ok.mp hread
  rw [foldlM_ofParts hstep] at hfold
  obtain ⟨parts, hparts, rfl⟩ := map_eq_ok.mp hfold
  refine ⟨parts, rfl, ?_⟩
  have hkeeps := @foldlM_keeps _ codec.step P (fun _ => []) (Field.scan type.context buffer).items
    fun field hfield before after hbefore htaken =>
      ⟨h.step field before after (standsIn_of_mem_scan hfield) List.not_mem_nil hbefore htaken,
        Nat.zero_le _⟩
  exact (hkeeps h.start hparts).1

end Codec

end

/-- The numbers that are taken when all parts are passed are the modelled ones. -/
theorem MessageType.Foreign.of_unknown {type : MessageType} {taken : List UInt64}
    {fields : List Field} (htaken : taken = type.modelled.reverse)
    (h : Codec.unknown.Kept taken fields) : type.Foreign fields := by
  subst htaken
  intro field hfield
  obtain ⟨hlt, hnumber⟩ := h field hfield
  exact ⟨hlt, fun hmem => hnumber (List.mem_reverse.mpr hmem)⟩

theorem MessageType.Foreign.kept {type : MessageType} {taken : List UInt64}
    {fields : List Field} (h : type.Foreign fields) (htaken : taken = type.modelled.reverse) :
    Codec.unknown.Kept taken fields := by
  subst htaken
  intro field hfield
  obtain ⟨hlt, hnumber⟩ := h field hfield
  exact ⟨hlt, fun hmem => hnumber (List.mem_reverse.mp hmem)⟩

/-! ### Messages without graphs -/

namespace Entry

theorem separated_of_decode {buffer : Bytes} {m : Entry} (h : decode buffer = .ok m) :
    m.Separated := by
  have hkeeps : codec.Keeps [] buffer _ := .skip <| .skip .unknown
  obtain ⟨parts, rfl, hunknown⟩ := hkeeps.of_decodeWith rfl step_ofParts h
  exact ⟨.of_unknown rfl hunknown⟩

theorem Separated.readable {m : Entry} (h : m.Separated) : Readable decode encode m :=
  readable_of_kept (lawful_codec []) (by decide) rfl step_ofParts (fun _ => rfl)
    (m.key, m.value, m.unknownFields)
    ⟨fun _ _ => trivial, fun _ _ => trivial, h.unknown.kept rfl⟩

end Entry

namespace Tensor

theorem separated_of_decode {buffer : Bytes} {m : Tensor} (h : decode buffer = .ok m) :
    m.Separated := by
  have hkeeps : codec.Keeps [] buffer _ :=
    .skip <| .skip <| .skip <| .skip <| .skip <| .skip <| .skip <| .skip <| .skip <|
    .cons (.repeated (Element.of_read_message fun _ _ _ => Entry.separated_of_decode)) <|
    .skip .unknown
  obtain ⟨parts, rfl, hdata, hunknown⟩ := hkeeps.of_decodeWith rfl step_ofParts h
  exact ⟨.of_unknown rfl hunknown, hdata⟩

theorem Separated.readable {m : Tensor} (h : m.Separated) : Readable decode encode m :=
  readable_of_kept (lawful_codec []) (by decide) rfl step_ofParts encode_ofParts
    (m.dims, m.dataType, m.floatData, m.int32Data, m.int64Data, m.name, m.rawData,
      m.doubleData, m.uint64Data, m.externalData, m.dataLocation, m.unknownFields)
    ⟨trivial, fun _ _ => trivial, trivial, trivial, trivial, fun _ _ => trivial,
      fun _ _ => trivial, trivial, trivial,
      fun entry hentry => (h.externalData entry hentry).readable, fun _ _ => trivial,
      h.unknown.kept rfl⟩

end Tensor

namespace Dimension

theorem separated_of_decode {buffer : Bytes} {m : Dimension} (h : decode buffer = .ok m) :
    m.Separated := by
  have hkeeps : codec.Keeps [] buffer _ := .skip <| .skip .unknown
  obtain ⟨parts, rfl, hunknown⟩ := hkeeps.of_decodeWith rfl step_ofParts h
  exact ⟨.of_unknown rfl hunknown⟩

theorem Separated.readable {m : Dimension} (h : m.Separated) : Readable decode encode m :=
  readable_of_kept (lawful_codec []) (by decide) rfl step_ofParts (fun _ => rfl)
    (m.value, m.param, m.unknownFields)
    ⟨fun _ _ => trivial, fun _ _ => trivial, h.unknown.kept rfl⟩

end Dimension

namespace TensorShape

theorem separated_of_decode {buffer : Bytes} {m : TensorShape} (h : decode buffer = .ok m) :
    m.Separated := by
  have hkeeps : codec.Keeps [] buffer _ :=
    .cons (.repeated (Element.of_read_message fun _ _ _ => Dimension.separated_of_decode)) .unknown
  obtain ⟨parts, rfl, hdims, hunknown⟩ := hkeeps.of_decodeWith rfl step_ofParts h
  exact ⟨.of_unknown rfl hunknown, hdims⟩

theorem Separated.readable {m : TensorShape} (h : m.Separated) : Readable decode encode m :=
  readable_of_kept (lawful_codec []) (by decide) rfl step_ofParts encode_ofParts
    (m.dims, m.unknownFields)
    ⟨fun dimension hdimension => (h.dims dimension hdimension).readable, h.unknown.kept rfl⟩

end TensorShape

namespace TensorType

theorem separated_of_decode {buffer : Bytes} {m : TensorType} (h : decode buffer = .ok m) :
    m.Separated := by
  have hkeeps : codec.Keeps [] buffer _ :=
    .skip <|
    .cons (.optional (Element.of_read_message fun _ _ _ => TensorShape.separated_of_decode)) .unknown
  obtain ⟨parts, rfl, hshape, hunknown⟩ := hkeeps.of_decodeWith rfl step_ofParts h
  exact ⟨.of_unknown rfl hunknown, hshape⟩

theorem Separated.readable {m : TensorType} (h : m.Separated) : Readable decode encode m :=
  readable_of_kept (lawful_codec []) (by decide) rfl step_ofParts encode_ofParts
    (m.elemType, m.shape, m.unknownFields)
    ⟨fun _ _ => trivial, fun shape hshape => (h.shape shape hshape).readable, h.unknown.kept rfl⟩

end TensorType

namespace ValueType

theorem separated_of_decode {buffer : Bytes} {m : ValueType} (h : decode buffer = .ok m) :
    m.Separated := by
  have hkeeps : codec.Keeps [] buffer _ :=
    .cons (.optional (Element.of_read_message fun _ _ _ => TensorType.separated_of_decode)) .unknown
  obtain ⟨parts, rfl, htype, hunknown⟩ := hkeeps.of_decodeWith rfl step_ofParts h
  exact ⟨.of_unknown rfl hunknown, htype⟩

theorem Separated.readable {m : ValueType} (h : m.Separated) : Readable decode encode m :=
  readable_of_kept (lawful_codec []) (by decide) rfl step_ofParts encode_ofParts
    (m.tensorType, m.unknownFields)
    ⟨fun type htype => (h.tensorType type htype).readable, h.unknown.kept rfl⟩

end ValueType

namespace ValueInfo

theorem separated_of_decode {buffer : Bytes} {m : ValueInfo} (h : decode buffer = .ok m) :
    m.Separated := by
  have hkeeps : codec.Keeps [] buffer _ :=
    .skip <|
    .cons (.optional (Element.of_read_message fun _ _ _ => ValueType.separated_of_decode)) <|
    .skip .unknown
  obtain ⟨parts, rfl, htype, hunknown⟩ := hkeeps.of_decodeWith rfl step_ofParts h
  exact ⟨.of_unknown rfl hunknown, htype⟩

theorem Separated.readable {m : ValueInfo} (h : m.Separated) : Readable decode encode m :=
  readable_of_kept (lawful_codec []) (by decide) rfl step_ofParts encode_ofParts
    (m.name, m.type, m.docString, m.unknownFields)
    ⟨fun _ _ => trivial, fun type htype => (h.type type htype).readable, fun _ _ => trivial,
      h.unknown.kept rfl⟩

end ValueInfo

namespace OpsetImport

theorem separated_of_decode {buffer : Bytes} {m : OpsetImport} (h : decode buffer = .ok m) :
    m.Separated := by
  have hkeeps : codec.Keeps [] buffer _ := .skip <| .skip .unknown
  obtain ⟨parts, rfl, hunknown⟩ := hkeeps.of_decodeWith rfl step_ofParts h
  exact ⟨.of_unknown rfl hunknown⟩

theorem Separated.readable {m : OpsetImport} (h : m.Separated) : Readable decode encode m :=
  readable_of_kept (lawful_codec []) (by decide) rfl step_ofParts (fun _ => rfl)
    (m.domain, m.version, m.unknownFields)
    ⟨fun _ _ => trivial, fun _ _ => trivial, h.unknown.kept rfl⟩

end OpsetImport

/-! ### Messages with graphs -/

section

variable {buffer : Bytes}

theorem Attribute.separated_of_decode {m : Attribute}
    (hgraphs : ∀ payload graph, payload.length < buffer.length →
      Graph.decode payload = .ok graph → graph.Separated)
    (h : decodeIn Graph.decode buffer = .ok m) : m.Separated := by
  have hkeeps : codec.Keeps [] buffer _ :=
    .skip <| .skip <| .skip <| .skip <|
    .cons (.optional (Element.of_read_message fun _ _ _ => Tensor.separated_of_decode)) <|
    .cons (.optional (Element.of_read_message hgraphs)) <|
    .skip <| .skip <| .skip <|
    .cons (.repeated (Element.of_read_message fun _ _ _ => Tensor.separated_of_decode)) <|
    .cons (.repeated (Element.of_read_message hgraphs)) <|
    .skip .unknown
  obtain ⟨parts, rfl, ht, hg, htensors, hall, hunknown⟩ := hkeeps.of_decodeWith rfl step_ofParts h
  exact .intro (.of_unknown rfl hunknown) ht hg htensors hall

theorem Node.separated_of_decode {m : Node}
    (hgraphs : ∀ payload graph, payload.length < buffer.length →
      Graph.decode payload = .ok graph → graph.Separated)
    (h : decodeIn Graph.decode buffer = .ok m) : m.Separated := by
  have hsettings : ∀ payload setting, payload.length < buffer.length →
      Attribute.decodeIn Graph.decode payload = .ok setting → setting.Separated := by
    intro payload setting hpayload hsetting
    apply Attribute.separated_of_decode _ hsetting
    intro inner graph hinner
    exact hgraphs inner graph (Nat.lt_trans hinner hpayload)
  have hkeeps : codec.Keeps [] buffer _ :=
    .skip <| .skip <| .skip <| .skip <|
    .cons (.repeated (Element.of_read_message hsettings)) <|
    .skip <| .skip .unknown
  obtain ⟨parts, rfl, hattributes, hunknown⟩ := hkeeps.of_decodeWith rfl step_ofParts h
  exact .intro (.of_unknown rfl hunknown) hattributes

/-- The induction is on the length of the buffer, which bounds those of the subgraphs. -/
theorem Graph.separated_of_decode {m : Graph} (h : decode buffer = .ok m) : m.Separated := by
  induction hlength : buffer.length using Nat.strongRecOn generalizing buffer m with
  | ind length ih =>
      have hnodes : ∀ payload node, payload.length < buffer.length →
          Node.decodeIn Graph.decode payload = .ok node → node.Separated := by
        intro payload node hpayload hnode
        apply Node.separated_of_decode _ hnode
        intro inner graph hinner hgraph
        exact ih inner.length (by omega) hgraph rfl
      have hinfos : ∀ payload info, payload.length < buffer.length →
          ValueInfo.decode payload = .ok info → info.Separated :=
        fun _ _ _ => ValueInfo.separated_of_decode
      have hkeeps : codec.Keeps [] buffer _ :=
        .cons (.repeated (Element.of_read_message hnodes)) <| .skip <|
        .cons (.repeated (Element.of_read_message fun _ _ _ => Tensor.separated_of_decode)) <|
        .skip <| .cons (.repeated (Element.of_read_message hinfos)) <|
        .cons (.repeated (Element.of_read_message hinfos)) <|
        .cons (.repeated (Element.of_read_message hinfos)) .unknown
      rw [decode_eq] at h
      obtain ⟨parts, rfl, hall, hinitializers, hinputs, houtputs, hvalueInfo, hunknown⟩ :=
        hkeeps.of_decodeWith rfl step_ofParts h
      exact .intro (.of_unknown rfl hunknown) hall hinitializers hinputs houtputs hvalueInfo

end

/- A graph holds nodes, which hold graphs again, so a message is put together from its parts by
a lemma. -/

theorem Attribute.ofParts_parts (m : Attribute) :
    Attribute.ofParts (m.name, m.f, m.i, m.s, m.t, m.g, m.floats, m.ints, m.strings, m.tensors,
      m.graphs, m.type, m.unknownFields) = m := by
  cases m
  rfl

theorem Node.ofParts_parts (m : Node) :
    Node.ofParts (m.inputs, m.outputs, m.name, m.opType, m.attributes, m.docString, m.domain,
      m.unknownFields) = m := by
  cases m
  rfl

theorem Graph.ofParts_parts (m : Graph) :
    Graph.ofParts (m.nodes, m.name, m.initializers, m.docString, m.inputs, m.outputs, m.valueInfo,
      m.unknownFields) = m := by
  cases m
  rfl

theorem Graph.faithful_of_shorter (payload : Bytes) (_ : payload.length < ([] : Bytes).length) :
    Faithful Graph.decode Graph.encode payload :=
  Graph.faithful_decode payload

mutual

theorem Attribute.Separated.readable {m : Attribute} :
    m.Separated → Readable (Attribute.decodeIn Graph.decode) Attribute.encode m
  | .intro hunknown ht hg htensors hgraphs => by
      have hinner : ∀ graph, graph ∈ m.g ∨ graph ∈ m.graphs →
          Readable Graph.decode Graph.encode graph := by
        rintro graph (hmem | hmem)
        · exact Graph.Separated.readable (hg graph hmem)
        · exact Graph.Separated.readable (hgraphs graph hmem)
      rw [← Attribute.ofParts_parts m]
      exact readable_of_kept (Attribute.lawful_codec Graph.faithful_of_shorter)
        (by decide) rfl Attribute.step_ofParts Attribute.encode_ofParts
        (m.name, m.f, m.i, m.s, m.t, m.g, m.floats, m.ints, m.strings, m.tensors,
          m.graphs, m.type, m.unknownFields)
        ⟨fun _ _ => trivial, fun _ _ => trivial, fun _ _ => trivial, fun _ _ => trivial,
          fun tensor htensor => (ht tensor htensor).readable,
          fun graph hmem => hinner graph (.inl hmem), trivial, trivial, fun _ _ => trivial,
          fun tensor htensor => (htensors tensor htensor).readable,
          fun graph hmem => hinner graph (.inr hmem), fun _ _ => trivial, hunknown.kept rfl⟩

theorem Node.Separated.readable {m : Node} :
    m.Separated → Readable (Node.decodeIn Graph.decode) Node.encode m
  | .intro hunknown hattributes => by
      have hinner : ∀ setting ∈ m.attributes,
          Readable (Attribute.decodeIn Graph.decode) Attribute.encode setting :=
        fun setting hmem => Attribute.Separated.readable (hattributes setting hmem)
      rw [← Node.ofParts_parts m]
      exact readable_of_kept (Node.lawful_codec Graph.faithful_of_shorter)
        (by decide) rfl Node.step_ofParts Node.encode_ofParts
        (m.inputs, m.outputs, m.name, m.opType, m.attributes, m.docString, m.domain,
          m.unknownFields)
        ⟨fun _ _ => trivial, fun _ _ => trivial, fun _ _ => trivial, fun _ _ => trivial, hinner,
          fun _ _ => trivial, fun _ _ => trivial, hunknown.kept rfl⟩

theorem Graph.Separated.readable {m : Graph} : m.Separated → Readable Graph.decode Graph.encode m
  | .intro hunknown hnodes hinitializers hinputs houtputs hvalueInfo => by
      have hinner : ∀ node ∈ m.nodes, Readable (Node.decodeIn Graph.decode) Node.encode node :=
        fun node hmem => Node.Separated.readable (hnodes node hmem)
      rw [← Graph.ofParts_parts m]
      intro hlength
      rw [Graph.decode_eq]
      exact readable_of_kept (Graph.lawful_codec Graph.faithful_of_shorter)
        (by decide) rfl Graph.step_ofParts Graph.encode_ofParts
        (m.nodes, m.name, m.initializers, m.docString, m.inputs, m.outputs, m.valueInfo,
          m.unknownFields)
        ⟨hinner, fun _ _ => trivial,
          fun tensor hmem => (hinitializers tensor hmem).readable, fun _ _ => trivial,
          fun info hmem => (hinputs info hmem).readable,
          fun info hmem => (houtputs info hmem).readable,
          fun info hmem => (hvalueInfo info hmem).readable, hunknown.kept rfl⟩ hlength

end

namespace Model

theorem separated_of_decode {buffer : Bytes} {m : Model} (h : decode buffer = .ok m) :
    m.Separated := by
  have hkeeps : codec.Keeps [] buffer _ :=
    .skip <| .skip <| .skip <| .skip <| .skip <| .skip <|
    .cons (.optional (Element.of_read_message fun _ _ _ => Graph.separated_of_decode)) <|
    .cons (.repeated (Element.of_read_message fun _ _ _ => OpsetImport.separated_of_decode)) <|
    .cons (.repeated (Element.of_read_message fun _ _ _ => Entry.separated_of_decode)) .unknown
  obtain ⟨parts, rfl, hgraph, himports, hprops, hunknown⟩ :=
    hkeeps.of_decodeWith rfl step_ofParts h
  exact ⟨.of_unknown rfl hunknown, hgraph, himports, hprops⟩

theorem Separated.readable {m : Model} (h : m.Separated) : Readable decode encode m :=
  readable_of_kept (lawful_codec []) (by decide) rfl step_ofParts encode_ofParts
    (m.irVersion, m.producerName, m.producerVersion, m.domain, m.modelVersion,
      m.docString, m.graph, m.opsetImports, m.metadataProps, m.unknownFields)
    ⟨fun _ _ => trivial, fun _ _ => trivial, fun _ _ => trivial, fun _ _ => trivial,
      fun _ _ => trivial, fun _ _ => trivial, fun graph hmem => (h.graph graph hmem).readable,
      fun entry hmem => (h.opsetImports entry hmem).readable,
      fun entry hmem => (h.metadataProps entry hmem).readable, h.unknown.kept rfl⟩

end Model

/-! ### Messages of every type -/

namespace MessageType

/-- The messages of a type. -/
@[reducible] def Message : MessageType → Type
  | .attr => Attribute
  | .node => Node
  | .tensor => Tensor
  | .entry => Entry
  | .dimension => Dimension
  | .tensorShape => TensorShape
  | .tensorType => TensorType
  | .valueType => ValueType
  | .valueInfo => ValueInfo
  | .graph => Graph
  | .opsetImport => OpsetImport
  | .model => Model

/-- Reads a message of a type. -/
def decode : (type : MessageType) → Bytes → Except DecodeError type.Message
  | .attr => Attribute.decode
  | .node => Node.decode
  | .tensor => Tensor.decode
  | .entry => Entry.decode
  | .dimension => Dimension.decode
  | .tensorShape => TensorShape.decode
  | .tensorType => TensorType.decode
  | .valueType => ValueType.decode
  | .valueInfo => ValueInfo.decode
  | .graph => Graph.decode
  | .opsetImport => OpsetImport.decode
  | .model => Model.decode

/-- Writes a message of a type. -/
def encode : (type : MessageType) → type.Message → Bytes
  | .attr => Attribute.encode
  | .node => Node.encode
  | .tensor => Tensor.encode
  | .entry => Entry.encode
  | .dimension => Dimension.encode
  | .tensorShape => TensorShape.encode
  | .tensorType => TensorType.encode
  | .valueType => ValueType.encode
  | .valueInfo => ValueInfo.encode
  | .graph => Graph.encode
  | .opsetImport => OpsetImport.encode
  | .model => Model.encode

/-- The fields that a message of a type keeps are foreign, here and in all messages inside. -/
def Separated : (type : MessageType) → type.Message → Prop
  | .attr => Attribute.Separated
  | .node => Node.Separated
  | .tensor => Tensor.Separated
  | .entry => Entry.Separated
  | .dimension => Dimension.Separated
  | .tensorShape => TensorShape.Separated
  | .tensorType => TensorType.Separated
  | .valueType => ValueType.Separated
  | .valueInfo => ValueInfo.Separated
  | .graph => Graph.Separated
  | .opsetImport => OpsetImport.Separated
  | .model => Model.Separated

theorem readable_of_separated {type : MessageType} {m : type.Message} (h : type.Separated m) :
    Readable type.decode type.encode m := by
  cases type with
  | attr => exact Attribute.Separated.readable h
  | node => exact Node.Separated.readable h
  | tensor => exact Tensor.Separated.readable h
  | entry => exact Entry.Separated.readable h
  | dimension => exact Dimension.Separated.readable h
  | tensorShape => exact TensorShape.Separated.readable h
  | tensorType => exact TensorType.Separated.readable h
  | valueType => exact ValueType.Separated.readable h
  | valueInfo => exact ValueInfo.Separated.readable h
  | graph => exact Graph.Separated.readable h
  | opsetImport => exact OpsetImport.Separated.readable h
  | model => exact Model.Separated.readable h

theorem separated_of_decode {type : MessageType} {buffer : Bytes} {m : type.Message}
    (h : type.decode buffer = .ok m) : type.Separated m := by
  have hgraphs : ∀ payload graph, payload.length < buffer.length →
      Graph.decode payload = .ok graph → graph.Separated :=
    fun _ _ _ hgraph => Graph.separated_of_decode hgraph
  cases type with
  | attr => exact Attribute.separated_of_decode hgraphs h
  | node => exact Node.separated_of_decode hgraphs h
  | tensor => exact Tensor.separated_of_decode h
  | entry => exact Entry.separated_of_decode h
  | dimension => exact Dimension.separated_of_decode h
  | tensorShape => exact TensorShape.separated_of_decode h
  | tensorType => exact TensorType.separated_of_decode h
  | valueType => exact ValueType.separated_of_decode h
  | valueInfo => exact ValueInfo.separated_of_decode h
  | graph => exact Graph.separated_of_decode h
  | opsetImport => exact OpsetImport.separated_of_decode h
  | model => exact Model.separated_of_decode h

theorem faithful_decode (type : MessageType) (buffer : Bytes) :
    Faithful type.decode type.encode buffer := by
  have hgraphs : ∀ payload, payload.length < buffer.length →
      Faithful Graph.decode Graph.encode payload := fun payload _ => Graph.faithful_decode payload
  cases type with
  | attr => exact Attribute.faithful_decode hgraphs
  | node => exact Node.faithful_decode hgraphs
  | tensor => exact Tensor.faithful_decode buffer
  | entry => exact Entry.faithful_decode buffer
  | dimension => exact Dimension.faithful_decode buffer
  | tensorShape => exact TensorShape.faithful_decode buffer
  | tensorType => exact TensorType.faithful_decode buffer
  | valueType => exact ValueType.faithful_decode buffer
  | valueInfo => exact ValueInfo.faithful_decode buffer
  | graph => exact Graph.faithful_decode buffer
  | opsetImport => exact OpsetImport.faithful_decode buffer
  | model => exact Model.faithful_decode buffer

/-- Messages of every type are read back from the bytes that they are written to, if what they keep
beside their modelled fields has other numbers, on every level. All messages that are read are of
this kind, so what was read once is read again. The bounds are those of the lengths in a message
and of a buffer in memory. -/
theorem messages_read_back (type : MessageType) :
    (∀ m, type.Separated m → (type.encode m).length < 2 ^ 64 →
      type.decode (type.encode m) = .ok m) ∧
    ∀ buffer m, type.decode buffer = .ok m →
      type.Separated m ∧ (buffer.length < 2 ^ 63 → type.decode (type.encode m) = .ok m) := by
  refine ⟨fun m hseparated => readable_of_separated hseparated, ?_⟩
  intro buffer m hdecode
  obtain ⟨hreadable, hlength⟩ := type.faithful_decode buffer hdecode
  refine ⟨separated_of_decode hdecode, ?_⟩
  intro hbuffer
  apply hreadable
  omega

/-- A branch inside a node, with fields of their own on three levels, and a constant whose
dimensions are packed and whose fields stand in another order than they are written in. -/
theorem messages_read_back_branch :
    let inner : Node := { inputs := [""], unknownFields := [{ number := 8, value := .varint 5 }] }
    let branch : Graph :=
      { nodes := [inner], unknownFields := [{ number := 0, value := .groupStart },
        { number := 3, value := .bytes [] }, { number := 0, value := .fixed32 7 }] }
    let node : Node :=
      { opType := some "If", attributes := [{ g := some branch, type := some AttributeType.graph }],
        unknownFields := [{ number := 2305843009213693951, value := .fixed64 1 }] }
    let loose : Bytes := [0x42, 0x01, 0x77, 0x0a, 0x02, 0x02, 0x03, 0x3a, 0x01, 0x7f]
    (MessageType.node.Separated node ∧ (MessageType.node.encode node).length < 2 ^ 64 ∧
      MessageType.node.decode (MessageType.node.encode node) = .ok node) ∧
    ∃ m, MessageType.tensor.decode loose = .ok m ∧ MessageType.tensor.encode m ≠ loose ∧
      MessageType.tensor.Separated m ∧ loose.length < 2 ^ 63 ∧
        MessageType.tensor.decode (MessageType.tensor.encode m) = .ok m := by
  intro inner branch node loose
  have hinner : inner.Separated := .intro (by decide) (List.forall_mem_nil _)
  have hbranch : branch.Separated :=
    .intro (by decide) (List.forall_mem_singleton.mpr hinner) (List.forall_mem_nil _)
      (List.forall_mem_nil _) (List.forall_mem_nil _) (List.forall_mem_nil _)
  have hsetting : Attribute.Separated { g := some branch, type := some AttributeType.graph } := by
    refine .intro (by decide) nofun ?_ (List.forall_mem_nil _) (List.forall_mem_nil _)
    rintro graph ⟨⟩
    exact hbranch
  have hnode : MessageType.node.Separated node :=
    .intro (by decide) (List.forall_mem_singleton.mpr hsetting)
  have hlength : (MessageType.node.encode node).length < 2 ^ 64 := by decide +kernel
  have hloose : loose.length < 2 ^ 63 := by decide
  refine ⟨⟨hnode, hlength, (messages_read_back .node).1 node hnode hlength⟩, ?_⟩
  have hchecked : (match MessageType.tensor.decode loose with
      | .ok m => decide (MessageType.tensor.encode m ≠ loose)
      | .error _ => false) = true := by
    decide +kernel
  cases hdecode : MessageType.tensor.decode loose with
  | error error =>
      rw [hdecode] at hchecked
      cases hchecked
  | ok m =>
      rw [hdecode] at hchecked
      obtain ⟨hseparated, hagain⟩ := (messages_read_back .tensor).2 loose m hdecode
      exact ⟨m, rfl, of_decide_eq_true hchecked, hseparated, hloose, hagain hloose⟩

end MessageType

end FixedShape.Onnx
