/-
Module: FixedShape.Proofs.Onnx.Merging
Purpose: Messages from buffers that are put one after the other. Such a buffer is read as the merge of
  the two messages: lists are put one after the other as well, and of a singular field the second
  message decides, if it has it.
-/
import FixedShape.Proofs.Onnx.Separation
import FixedShape.Proofs.Wire.Concatenation

namespace FixedShape.Onnx

open FixedShape.Outcome
open FixedShape.Wire

/-! ### Merges -/

/-- Two messages in one: the lists of both, the first one's in front, and the singular fields of the
second, or those of the first that the second lacks. -/
def Entry.merge (first second : Entry) : Entry where
  key := second.key.or first.key
  value := second.value.or first.value
  unknownFields := first.unknownFields ++ second.unknownFields

@[inherit_doc Entry.merge]
def Tensor.merge (first second : Tensor) : Tensor where
  dims := first.dims ++ second.dims
  dataType := second.dataType.or first.dataType
  floatData := first.floatData ++ second.floatData
  int32Data := first.int32Data ++ second.int32Data
  int64Data := first.int64Data ++ second.int64Data
  name := second.name.or first.name
  rawData := second.rawData.or first.rawData
  doubleData := first.doubleData ++ second.doubleData
  uint64Data := first.uint64Data ++ second.uint64Data
  externalData := first.externalData ++ second.externalData
  dataLocation := second.dataLocation.or first.dataLocation
  unknownFields := first.unknownFields ++ second.unknownFields

@[inherit_doc Entry.merge]
def Dimension.merge (first second : Dimension) : Dimension where
  value := second.value.or first.value
  param := second.param.or first.param
  unknownFields := first.unknownFields ++ second.unknownFields

@[inherit_doc Entry.merge]
def TensorShape.merge (first second : TensorShape) : TensorShape where
  dims := first.dims ++ second.dims
  unknownFields := first.unknownFields ++ second.unknownFields

@[inherit_doc Entry.merge]
def TensorType.merge (first second : TensorType) : TensorType where
  elemType := second.elemType.or first.elemType
  shape := second.shape.or first.shape
  unknownFields := first.unknownFields ++ second.unknownFields

@[inherit_doc Entry.merge]
def ValueType.merge (first second : ValueType) : ValueType where
  tensorType := second.tensorType.or first.tensorType
  unknownFields := first.unknownFields ++ second.unknownFields

@[inherit_doc Entry.merge]
def ValueInfo.merge (first second : ValueInfo) : ValueInfo where
  name := second.name.or first.name
  type := second.type.or first.type
  docString := second.docString.or first.docString
  unknownFields := first.unknownFields ++ second.unknownFields

@[inherit_doc Entry.merge]
def OpsetImport.merge (first second : OpsetImport) : OpsetImport where
  domain := second.domain.or first.domain
  version := second.version.or first.version
  unknownFields := first.unknownFields ++ second.unknownFields

@[inherit_doc Entry.merge]
def Attribute.merge (first second : Attribute) : Attribute where
  name := second.name.or first.name
  f := second.f.or first.f
  i := second.i.or first.i
  s := second.s.or first.s
  t := second.t.or first.t
  g := second.g.or first.g
  floats := first.floats ++ second.floats
  ints := first.ints ++ second.ints
  strings := first.strings ++ second.strings
  tensors := first.tensors ++ second.tensors
  graphs := first.graphs ++ second.graphs
  type := second.type.or first.type
  unknownFields := first.unknownFields ++ second.unknownFields

@[inherit_doc Entry.merge]
def Node.merge (first second : Node) : Node where
  inputs := first.inputs ++ second.inputs
  outputs := first.outputs ++ second.outputs
  name := second.name.or first.name
  opType := second.opType.or first.opType
  attributes := first.attributes ++ second.attributes
  docString := second.docString.or first.docString
  domain := second.domain.or first.domain
  unknownFields := first.unknownFields ++ second.unknownFields

@[inherit_doc Entry.merge]
def Graph.merge (first second : Graph) : Graph where
  nodes := first.nodes ++ second.nodes
  name := second.name.or first.name
  initializers := first.initializers ++ second.initializers
  docString := second.docString.or first.docString
  inputs := first.inputs ++ second.inputs
  outputs := first.outputs ++ second.outputs
  valueInfo := first.valueInfo ++ second.valueInfo
  unknownFields := first.unknownFields ++ second.unknownFields

@[inherit_doc Entry.merge]
def Model.merge (first second : Model) : Model where
  irVersion := second.irVersion.or first.irVersion
  producerName := second.producerName.or first.producerName
  producerVersion := second.producerVersion.or first.producerVersion
  domain := second.domain.or first.domain
  modelVersion := second.modelVersion.or first.modelVersion
  docString := second.docString.or first.docString
  graph := second.graph.or first.graph
  opsetImports := first.opsetImports ++ second.opsetImports
  metadataProps := first.metadataProps ++ second.metadataProps
  unknownFields := first.unknownFields ++ second.unknownFields

@[inherit_doc Entry.merge]
def MessageType.merge : (type : MessageType) → type.Message → type.Message → type.Message
  | .attr => Attribute.merge
  | .node => Node.merge
  | .tensor => Tensor.merge
  | .entry => Entry.merge
  | .dimension => Dimension.merge
  | .tensorShape => TensorShape.merge
  | .tensorType => TensorType.merge
  | .valueType => ValueType.merge
  | .valueInfo => ValueInfo.merge
  | .graph => Graph.merge
  | .opsetImport => OpsetImport.merge
  | .model => Model.merge

/-! ### Reading into a merge -/

section

variable {μ : Type} {type : MessageType} {start : μ} {step : μ → Field → Except DecodeError μ}
  {merge : μ → μ → μ}

/-- Reading starts from a message that adds nothing, and a field that is taken by a merge is one that
its second message takes. -/
structure Merges (start : μ) (step : μ → Field → Except DecodeError μ) (merge : μ → μ → μ) :
    Prop where
  merge_start : ∀ first, merge first start = first
  step_merge : ∀ first second field,
    step (merge first second) field = merge first <$> step second field

theorem Merges.foldlM (h : Merges start step merge) (first second : μ) (fields : List Field) :
    fields.foldlM step (merge first second) = merge first <$> fields.foldlM step second := by
  induction fields generalizing second with
  | nil => rfl
  | cons field fields ih =>
      rw [List.foldlM_cons, List.foldlM_cons, h.step_merge, map_bind, bind_map_left]
      exact bind_congr ih

/-- Behind a buffer that was read, another one is read into a merge. -/
theorem Merges.decodeWith_append (h : Merges start step merge) {first : Bytes} {message : μ}
    (hfirst : decodeWith type start step first = .ok message) (second : Bytes) :
    decodeWith type start step (first ++ second) =
      merge message <$> decodeWith type start step second := by
  obtain ⟨hnone, hfold⟩ := decodeWith_eq_ok.mp hfirst
  have hseam : ((Field.scan type.context first).items ++
      (Field.scan type.context second).items).foldlM step start =
        merge message <$> (Field.scan type.context second).items.foldlM step start := by
    rw [List.foldlM_append, hfold]
    have hsecond := h.foldlM message start (Field.scan type.context second).items
    rw [h.merge_start] at hsecond
    exact hsecond
  rw [decodeWith, Field.scan_append hnone, decodeWith]
  dsimp only
  rw [hseam]
  cases (Field.scan type.context second).items.foldlM step start with
  | error error => rfl
  | ok taken =>
      cases (Field.scan type.context second).error with
      | some error => rfl
      | none => rfl

/-- A buffer that starts with no field is not read. -/
theorem decodeWith_of_unread {buffer : Bytes} {error : DecodeError} (hne : buffer ≠ [])
    (hread : Field.read type.context buffer = .error error) :
    decodeWith type start step buffer = .error (error.within type.context none) := by
  rw [decodeWith, Field.scan_of_read_error hne hread]
  rfl

/-- The first field of a buffer is taken, and then the rest is read into a merge. -/
theorem Merges.decodeWith_of_read (h : Merges start step merge) {buffer rest : Bytes}
    {field : Field} (hread : Field.read type.context buffer = .ok (field, rest)) :
    decodeWith type start step buffer =
      step start field >>= fun message => merge message <$> decodeWith type start step rest := by
  rw [decodeWith, Field.scan_of_read hread]
  dsimp only
  rw [List.foldlM_cons]
  cases step start field with
  | error error => rfl
  | ok message =>
      have hothers := h.foldlM message start (Field.scan type.context rest).items
      rw [h.merge_start] at hothers
      have hfirst : (Except.ok message >>= fun taken =>
          (Field.scan type.context rest).items.foldlM step taken) =
            (Field.scan type.context rest).items.foldlM step message := rfl
      change _ = merge message <$> decodeWith type start step rest
      rw [hfirst, hothers, decodeWith]
      cases (Field.scan type.context rest).items.foldlM step start with
      | error error => rfl
      | ok taken => cases (Field.scan type.context rest).error <;> rfl

end

/-! ### The message types -/

theorem Entry.merges : Merges {} step merge where
  merge_start first := by simp [merge]
  step_merge first second field := by
    unfold step
    split <;> simp [merge]

theorem Tensor.merges : Merges {} step merge where
  merge_start first := by simp [merge]
  step_merge first second field := by
    unfold step
    split <;> simp [merge]

theorem Dimension.merges : Merges {} step merge where
  merge_start first := by simp [merge]
  step_merge first second field := by
    unfold step
    split <;> simp [merge]

theorem TensorShape.merges : Merges {} step merge where
  merge_start first := by simp [merge]
  step_merge first second field := by
    unfold step
    split <;> simp [merge]

theorem TensorType.merges : Merges {} step merge where
  merge_start first := by simp [merge]
  step_merge first second field := by
    unfold step
    split <;> simp [merge]

theorem ValueType.merges : Merges {} step merge where
  merge_start first := by simp [merge]
  step_merge first second field := by
    unfold step
    split <;> simp [merge]

theorem ValueInfo.merges : Merges {} step merge where
  merge_start first := by simp [merge]
  step_merge first second field := by
    unfold step
    split <;> simp [merge]

theorem OpsetImport.merges : Merges {} step merge where
  merge_start first := by simp [merge]
  step_merge first second field := by
    unfold step
    split <;> simp [merge]

theorem Attribute.merges (subgraph : GraphDecoder) : Merges {} (step subgraph) merge where
  merge_start first := by
    cases first
    simp [merge]
  step_merge first second field := by
    unfold step
    split <;> simp [merge]

theorem Node.merges (subgraph : GraphDecoder) : Merges {} (step subgraph) merge where
  merge_start first := by
    cases first
    simp [merge]
  step_merge first second field := by
    unfold step
    split <;> simp [merge]

theorem Graph.merges (subgraph : GraphDecoder) : Merges {} (step subgraph) merge where
  merge_start first := by
    cases first
    simp [merge]
  step_merge first second field := by
    unfold step
    split <;> simp [merge]

theorem Model.merges : Merges {} step merge where
  merge_start first := by simp [merge]
  step_merge first second field := by
    unfold step
    split <;> simp [merge]

namespace MessageType

/-- The message of a type that no field was taken into. -/
def start : (type : MessageType) → type.Message
  | .attr => ({} : Attribute)
  | .node => ({} : Node)
  | .tensor => ({} : Tensor)
  | .entry => ({} : Entry)
  | .dimension => ({} : Dimension)
  | .tensorShape => ({} : TensorShape)
  | .tensorType => ({} : TensorType)
  | .valueType => ({} : ValueType)
  | .valueInfo => ({} : ValueInfo)
  | .graph => ({} : Graph)
  | .opsetImport => ({} : OpsetImport)
  | .model => ({} : Model)

/-- Takes one field of a message of a type. -/
def step : (type : MessageType) → type.Message → Field → Except DecodeError type.Message
  | .attr => Attribute.step Graph.decode
  | .node => Node.step Graph.decode
  | .tensor => Tensor.step
  | .entry => Entry.step
  | .dimension => Dimension.step
  | .tensorShape => TensorShape.step
  | .tensorType => TensorType.step
  | .valueType => ValueType.step
  | .valueInfo => ValueInfo.step
  | .graph => Graph.step Graph.decode
  | .opsetImport => OpsetImport.step
  | .model => Model.step

/-- A message of any type is read field by field. A graph is read as deep as its buffer is long, which
is deep enough. -/
theorem decode_eq (type : MessageType) (buffer : Bytes) :
    type.decode buffer = decodeWith type type.start type.step buffer := by
  cases type with
  | graph => exact Graph.decode_eq buffer
  | _ => rfl

theorem merges (type : MessageType) : Merges type.start type.step type.merge := by
  cases type with
  | attr => exact Attribute.merges Graph.decode
  | node => exact Node.merges Graph.decode
  | tensor => exact Tensor.merges
  | entry => exact Entry.merges
  | dimension => exact Dimension.merges
  | tensorShape => exact TensorShape.merges
  | tensorType => exact TensorType.merges
  | valueType => exact ValueType.merges
  | valueInfo => exact ValueInfo.merges
  | graph => exact Graph.merges Graph.decode
  | opsetImport => exact OpsetImport.merges
  | model => exact Model.merges

/-- Behind a message that was read, another one is read into a merge, and fails as it fails alone. -/
theorem decode_append {type : MessageType} {first : Bytes} {x : type.Message}
    (h : type.decode first = .ok x) (second : Bytes) :
    type.decode (first ++ second) = type.merge x <$> type.decode second := by
  rw [decode_eq] at h ⊢
  rw [decode_eq type second]
  exact type.merges.decodeWith_append h second

/-- Two buffers in a row, of which the first is read, are read as the merge of both messages. If the
second one is not read, they fail with its error, which names the same place. -/
theorem concatenation_merges (type : MessageType) {first : Bytes} {x : type.Message}
    (hfirst : type.decode first = .ok x) (second : Bytes) :
    (∀ y, type.decode second = .ok y → type.decode (first ++ second) = .ok (type.merge x y)) ∧
      ∀ error, type.decode second = .error error →
        type.decode (first ++ second) = .error error := by
  have happend := decode_append hfirst second
  refine ⟨fun y hsecond => ?_, fun error hsecond => ?_⟩
  · rw [happend, hsecond]
    rfl
  · rw [happend, hsecond]
    rfl

/-- A constant with two packed dimensions and a name, one with a third dimension, another name and a
field that is not modelled, and a name that is no text. -/
theorem concatenation_merges_constants :
    let first : Bytes := [0x0a, 0x02, 0x02, 0x03, 0x10, 0x07, 0x42, 0x01, 0x77]
    let second : Bytes := [0x08, 0x05, 0x42, 0x01, 0x76, 0x18, 0x01]
    let broken : Bytes := [0x08, 0x05, 0x42, 0x01, 0xff]
    let x : Tensor := { dims := [2, 3], dataType := some 7, name := some "w" }
    let y : Tensor :=
      { dims := [5], name := some "v", unknownFields := [{ number := 3, value := .varint 1 }] }
    let error : DecodeError :=
      { fault := .invalidUtf8, context := MessageType.tensor.context, field := some 8 }
    MessageType.tensor.decode first = .ok x ∧ MessageType.tensor.decode second = .ok y ∧
      MessageType.tensor.decode (first ++ second) =
        .ok { dims := [2, 3, 5], dataType := some 7, name := some "v"
              unknownFields := [{ number := 3, value := .varint 1 }] } ∧
      MessageType.tensor.decode broken = .error error ∧
      MessageType.tensor.decode (first ++ broken) = .error error := by
  intro first second broken x y error
  have hfirst : MessageType.tensor.decode first = .ok x := by decide +kernel
  have hsecond : MessageType.tensor.decode second = .ok y := by decide +kernel
  have hbroken : MessageType.tensor.decode broken = .error error := by decide +kernel
  exact ⟨hfirst, hsecond, (concatenation_merges .tensor hfirst second).1 y hsecond, hbroken,
    (concatenation_merges .tensor hfirst broken).2 error hbroken⟩

end MessageType

end FixedShape.Onnx
