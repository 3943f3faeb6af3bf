/-
Module: FixedShape.Proofs.Onnx.Failures
Purpose: What is reported when a message is not read. Of the fields in the order of the wire, the
  first that is malformed or refused decides. The error names the message that the field belongs to,
  or is the error of the message inside the field.
-/
import FixedShape.Proofs.Onnx.Merging
import FixedShape.Proofs.Wire.Refusals
import FixedShape.Proofs.Wire.Truncation

namespace FixedShape.Onnx

open FixedShape.Outcome
open FixedShape.Wire

/-! ### Schemas -/

/-- The schema type of a field. -/
inductive FieldKind where
  | value (kind : ValueKind)
  | message (inner : MessageType)
  deriving DecidableEq, Repr

namespace FieldKind

/-- The values in which a field of a kind stands: a message stands in its bytes. -/
def carrier : FieldKind → ValueKind
  | .value kind => kind
  | .message _ => .bytes

/-- Reads a field as a kind and forgets what it holds. -/
@[simp] def check : FieldKind → Field → Context → Except DecodeError Unit
  | .value kind, field, context => kind.check field context
  | .message inner, field, context => (fun _ => ()) <$> field.asMessage context inner.decode

end FieldKind

namespace MessageType

/-- The fields that a type models: their numbers and schema types. -/
@[simp] def fields : MessageType → List (UInt64 × FieldKind)
  | .attr =>
    [(1, .value .text), (2, .value .float), (3, .value .int64), (4, .value .bytes),
      (5, .message .tensor), (6, .message .graph), (7, .value (.numbers .float)),
      (8, .value (.numbers .int64)), (9, .value .bytes), (10, .message .tensor),
      (11, .message .graph), (20, .value .int32)]
  | .node =>
    [(1, .value .text), (2, .value .text), (3, .value .text), (4, .value .text),
      (5, .message .attr), (6, .value .text), (7, .value .text)]
  | .tensor =>
    [(1, .value (.numbers .int64)), (2, .value .int32), (4, .value (.numbers .float)),
      (5, .value (.numbers .int32)), (7, .value (.numbers .int64)), (8, .value .text),
      (9, .value .bytes), (10, .value (.numbers .double)), (11, .value (.numbers .uint64)),
      (13, .message .entry), (14, .value .int32)]
  | .entry => [(1, .value .text), (2, .value .text)]
  | .dimension => [(1, .value .int64), (2, .value .text)]
  | .tensorShape => [(1, .message .dimension)]
  | .tensorType => [(1, .value .int32), (2, .message .tensorShape)]
  | .valueType => [(1, .message .tensorType)]
  | .valueInfo => [(1, .value .text), (2, .message .valueType), (3, .value .text)]
  | .graph =>
    [(1, .message .node), (2, .value .text), (5, .message .tensor), (10, .value .text),
      (11, .message .valueInfo), (12, .message .valueInfo), (13, .message .valueInfo)]
  | .opsetImport => [(1, .value .text), (2, .value .int64)]
  | .model =>
    [(1, .value .int64), (2, .value .text), (3, .value .text), (4, .value .text),
      (5, .value .int64), (6, .value .text), (7, .message .graph), (8, .message .opsetImport),
      (14, .message .entry)]

/-- A step fails exactly if the field is not read as the schema of a type asks. -/
def Decides (type : MessageType) {μ : Type} (step : μ → Field → Except DecodeError μ) : Prop :=
  ∀ m field error, step m field = .error error ↔
    ∃ kind, (field.number, kind) ∈ type.fields ∧ kind.check field type.context = .error error

end MessageType

theorem Entry.decides : MessageType.entry.Decides step := by
  intro m field error
  unfold step
  split <;> simp_all

theorem Tensor.decides : MessageType.tensor.Decides step := by
  intro m field error
  unfold step
  split <;> simp_all [bind_eq_error, ScalarKind.read, MessageType.decode]

theorem Dimension.decides : MessageType.dimension.Decides step := by
  intro m field error
  unfold step
  split <;> simp_all

theorem TensorShape.decides : MessageType.tensorShape.Decides step := by
  intro m field error
  unfold step
  split <;> simp_all [MessageType.decode]

theorem TensorType.decides : MessageType.tensorType.Decides step := by
  intro m field error
  unfold step
  split <;> simp_all [MessageType.decode]

theorem ValueType.decides : MessageType.valueType.Decides step := by
  intro m field error
  unfold step
  split <;> simp_all [MessageType.decode]

theorem ValueInfo.decides : MessageType.valueInfo.Decides step := by
  intro m field error
  unfold step
  split <;> simp_all [MessageType.decode]

theorem OpsetImport.decides : MessageType.opsetImport.Decides step := by
  intro m field error
  unfold step
  split <;> simp_all

theorem Attribute.decides : MessageType.attr.Decides (step Graph.decode) := by
  intro m field error
  unfold step
  split <;> simp_all [bind_eq_error, ScalarKind.read, MessageType.decode]

theorem Attribute.decode_eq : decode = decodeIn Graph.decode := rfl

theorem Node.decides : MessageType.node.Decides (step Graph.decode) := by
  intro m field error
  unfold step
  split <;> simp_all [MessageType.decode, Attribute.decode_eq]

theorem Node.decode_eq : decode = decodeIn Graph.decode := rfl

theorem Graph.decides : MessageType.graph.Decides (step decode) := by
  intro m field error
  unfold step
  split <;> simp_all [MessageType.decode, Node.decode_eq]

theorem Model.decides : MessageType.model.Decides step := by
  intro m field error
  unfold step
  split <;> simp_all [MessageType.decode]

/-! ### Places -/

section

variable {cause error : DecodeError} {field : Field} {label : String}

theorem within_some_ne_none (cause : DecodeError) (label : String) (number : Option UInt64) :
    (cause.within (some label) number).context ≠ none := by
  unfold DecodeError.within
  split
  · nofun
  · next hplaced => exact fun hnone => nomatch hplaced.symm.trans hnone

/-- A place is kept. -/
theorem within_of_ne_none (h : cause.context ≠ none) (context : Context) (number : Option UInt64) :
    cause.within context number = cause := by
  unfold DecodeError.within
  split
  · next hnone => exact absurd hnone h
  · rfl

/-- An embedded message is not read if the field holds no bytes, or with the error of the
message. -/
theorem asMessage_eq_error {α : Type} {decode : Bytes → Except DecodeError α} {context : Context} :
    field.asMessage context decode = .error error ↔
      field.asBytes context = .error error ∨
        ∃ payload cause, field.value = .bytes payload ∧ decode payload = .error cause ∧
          error = cause.within context (some field.number) := by
  obtain ⟨number, value⟩ := field
  unfold Field.asMessage
  cases value with
  | bytes payload =>
      simp only [Field.asBytes, Value.bytes.injEq, reduceCtorEq, false_or]
      cases hdecode : decode payload <;> simp [hdecode, Except.mapError, eq_comm]
  | _ => simp [Field.asBytes]

/-- What is reported of a field has a place, if the label of its message is known. -/
theorem FieldKind.placed_of_check {kind : FieldKind}
    (h : kind.check field (some label) = .error error) : error.context ≠ none := by
  cases kind with
  | value kind =>
      obtain ⟨fault, -, rfl⟩ := ValueKind.check_eq_error.mp h
      nofun
  | message inner =>
      rcases asMessage_eq_error.mp (map_eq_error.mp h) with hbytes | ⟨_, cause, -, -, rfl⟩
      · obtain ⟨fault, -, rfl⟩ := ValueKind.asBytes_eq_error.mp hbytes
        nofun
      · exact within_some_ne_none cause label _

end

namespace MessageType

variable {type : MessageType} {buffer rest : Bytes} {field : Field} {error : DecodeError}

theorem decides (type : MessageType) : type.Decides type.step := by
  cases type with
  | attr => exact Attribute.decides
  | node => exact Node.decides
  | tensor => exact Tensor.decides
  | entry => exact Entry.decides
  | dimension => exact Dimension.decides
  | tensorShape => exact TensorShape.decides
  | tensorType => exact TensorType.decides
  | valueType => exact ValueType.decides
  | valueInfo => exact ValueInfo.decides
  | graph => exact Graph.decides
  | opsetImport => exact OpsetImport.decides
  | model => exact Model.decides

theorem decode_nil (type : MessageType) : type.decode [] = .ok type.start := by
  rw [decode_eq]
  rfl

theorem decode_of_unread (hne : buffer ≠ [])
    (hread : Field.read type.context buffer = .error error) :
    type.decode buffer = .error (error.within type.context none) := by
  rw [decode_eq, decodeWith_of_unread hne hread]

/-- The first field of a buffer is taken by itself, and the rest is read into a merge. -/
theorem decode_of_read (hread : Field.read type.context buffer = .ok (field, rest)) :
    type.decode buffer =
      type.step type.start field >>= fun m => type.merge m <$> type.decode rest := by
  rw [decode_eq, type.merges.decodeWith_of_read hread, ← decode_eq]

/-- The first field of a buffer decides, or else the rest of the buffer. -/
theorem decode_eq_error_of_read (hread : Field.read type.context buffer = .ok (field, rest)) :
    type.decode buffer = .error error ↔
      type.step type.start field = .error error ∨
        (∃ m, type.step type.start field = .ok m) ∧ type.decode rest = .error error := by
  rw [decode_of_read hread, bind_eq_error]
  simp only [map_eq_error, exists_and_right]

/-- A buffer of one field. -/
theorem decode_of_single (hread : Field.read type.context buffer = .ok (field, [])) :
    type.decode buffer = type.step type.start field := by
  rw [decode_of_read hread, decode_nil]
  cases type.step type.start field with
  | error error => rfl
  | ok m => exact congrArg Except.ok (type.merges.merge_start m)

/-- What is reported of a message has a place. -/
theorem placed_of_decode (h : type.decode buffer = .error error) : error.context ≠ none := by
  induction buffer using Field.read_induction type.context with
  | nil => cases (decode_nil type).symm.trans h
  | unread buffer cause hne hread =>
      rw [decode_of_unread hne hread] at h
      obtain rfl := Except.error.inj h
      exact within_some_ne_none cause type.label none
  | field buffer field rest hread ih =>
      rcases (decode_eq_error_of_read hread).mp h with hstep | ⟨-, hrest⟩
      · obtain ⟨kind, -, hcheck⟩ := (type.decides _ _ _).mp hstep
        exact FieldKind.placed_of_check hcheck
      · exact ih hrest

/-- A field is not read as a kind exactly if its value is refused, which is said of the field, or if
the message in it is not read, which is reported as it is. -/
theorem check_eq_error {kind : FieldKind} :
    kind.check field type.context = .error error ↔
      (∃ fault, kind.carrier.Refuses field.value fault ∧
          error = field.failure type.context fault) ∨
        ∃ inner payload, kind = .message inner ∧ field.value = .bytes payload ∧
          inner.decode payload = .error error := by
  cases kind with
  | value kind =>
      refine ValueKind.check_eq_error.trans (or_iff_left ?_).symm
      rintro ⟨_, _, ⟨⟩, -, -⟩
  | message inner =>
      rw [FieldKind.check, map_eq_error, asMessage_eq_error]
      refine or_congr ValueKind.asBytes_eq_error ⟨?_, ?_⟩
      · rintro ⟨payload, cause, hvalue, hdecode, rfl⟩
        rw [within_of_ne_none (placed_of_decode hdecode)]
        exact ⟨inner, payload, rfl, hvalue, hdecode⟩
      · rintro ⟨_, payload, ⟨⟩, hvalue, hdecode⟩
        exact ⟨payload, error, hvalue, hdecode,
          (within_of_ne_none (placed_of_decode hdecode) _ _).symm⟩

/-! ### The first field -/

/-- A buffer is not read as a message of a type for what its first field is. -/
inductive FailsAt (type : MessageType) (buffer : Bytes) : DecodeError → Prop where
  /-- The tag cannot be read, so that no field is known. -/
  | tag {fault : Fault} (nonempty : buffer ≠ [])
      (unread : Field.takeVarint buffer = .error fault) :
      FailsAt type buffer { fault, context := type.context, field := none }
  /-- The tag stands for no wire type, or the value behind it cannot be read. -/
  | value {tag : UInt64} {behind : Bytes} {fault : Fault}
      (taken : Field.takeVarint buffer = .ok (tag, behind))
      (unread : Field.readValue (tag.toNat % 8) behind = .error fault) :
      FailsAt type buffer { fault, context := type.context, field := some (tag >>> 3) }
  /-- The value is none of the schema type of the field. -/
  | refused {field : Field} {rest : Bytes} {kind : FieldKind} {fault : Fault}
      (taken : Field.read type.context buffer = .ok (field, rest))
      (modelled : (field.number, kind) ∈ type.fields)
      (refused : kind.carrier.Refuses field.value fault) :
      FailsAt type buffer { fault, context := type.context, field := some field.number }
  /-- The message in the field is not read. -/
  | inside {field : Field} {rest payload : Bytes} {inner : MessageType} {error : DecodeError}
      (taken : Field.read type.context buffer = .ok (field, rest))
      (modelled : (field.number, .message inner) ∈ type.fields)
      (holds : field.value = .bytes payload) (fails : inner.decode payload = .error error) :
      FailsAt type buffer error

theorem failsAt_of_unread (hne : buffer ≠ [])
    (hread : Field.read type.context buffer = .error error) :
    type.FailsAt buffer (error.within type.context none) := by
  unfold Field.read at hread
  split at hread
  · next fault htag =>
      cases hread
      exact .tag hne htag
  · next tag behind htag =>
      dsimp only at hread
      split at hread
      · next fault hvalue =>
          cases hread
          exact .value htag hvalue
      · cases hread

theorem failsAt_of_step (hread : Field.read type.context buffer = .ok (field, rest))
    (hstep : type.step type.start field = .error error) : type.FailsAt buffer error := by
  obtain ⟨kind, hkind, hcheck⟩ := (type.decides _ _ _).mp hstep
  rcases check_eq_error.mp hcheck with
    ⟨fault, hrefused, rfl⟩ | ⟨inner, payload, rfl, hvalue, hfails⟩
  · exact .refused hread hkind hrefused
  · exact .inside hread hkind hvalue hfails

/-- A buffer that fails at its first field is not read, and this is what is reported. -/
theorem FailsAt.decode_eq_error (h : type.FailsAt buffer error) :
    type.decode buffer = .error error := by
  have hstep {field : Field} {rest : Bytes} {kind : FieldKind}
      (hread : Field.read type.context buffer = .ok (field, rest))
      (hkind : (field.number, kind) ∈ type.fields)
      (hcheck : kind.check field type.context = .error error) :
      type.decode buffer = .error error :=
    (decode_eq_error_of_read hread).mpr (Or.inl ((type.decides _ _ _).mpr ⟨kind, hkind, hcheck⟩))
  cases h with
  | tag nonempty unread => exact decode_of_unread nonempty (by rw [Field.read, unread])
  | value taken unread =>
      refine decode_of_unread ?_ (by rw [Field.read, taken]; dsimp only; rw [unread])
      rintro rfl
      cases taken
  | refused taken modelled refused =>
      exact hstep taken modelled (check_eq_error.mpr (Or.inl ⟨_, refused, rfl⟩))
  | inside taken modelled holds fails =>
      exact hstep taken modelled (check_eq_error.mpr (Or.inr ⟨_, _, rfl, holds, fails⟩))

/-- A failure is that of the first field of some rest of the buffer, and what stands before the rest
is read. -/
def FailsFirst (type : MessageType) (buffer : Bytes) (error : DecodeError) : Prop :=
  ∃ before behind, buffer = before ++ behind ∧ (∃ m, type.decode before = .ok m) ∧
    type.FailsAt behind error

theorem decode_eq_error_iff :
    type.decode buffer = .error error ↔ type.FailsFirst buffer error := by
  constructor
  · intro h
    induction buffer using Field.read_induction type.context with
    | nil => cases (decode_nil type).symm.trans h
    | unread buffer cause hne hread =>
        rw [decode_of_unread hne hread] at h
        obtain rfl := Except.error.inj h
        exact ⟨[], buffer, rfl, ⟨type.start, decode_nil type⟩, failsAt_of_unread hne hread⟩
    | field buffer field rest hread ih =>
        rcases (decode_eq_error_of_read hread).mp h with hstep | ⟨⟨m, hstep⟩, hrest⟩
        · exact ⟨[], buffer, rfl, ⟨type.start, decode_nil type⟩, failsAt_of_step hread hstep⟩
        · -- the first field is a message by itself, to which the fields before the failure are added
          obtain ⟨before, behind, rfl, ⟨others, hothers⟩, hfails⟩ := ih hrest
          obtain ⟨part, rfl, htakes⟩ := Field.takes_read hread
          have hpart : type.decode part = .ok m := by
            have halone := htakes.whole []
            rw [List.append_nil] at halone
            rw [decode_of_single halone, hstep]
          refine ⟨part ++ before, behind, (List.append_assoc ..).symm, ?_, hfails⟩
          exact ⟨type.merge m others, by rw [decode_append hpart, hothers]; rfl⟩
  · rintro ⟨before, behind, rfl, ⟨m, hbefore⟩, hfails⟩
    rw [decode_append hbefore, map_eq_error]
    exact hfails.decode_eq_error

/-- What is reported names a type. The induction is on the length of the buffer, which bounds those
of the messages inside. -/
theorem named_of_decode (h : type.decode buffer = .error error) :
    ∃ named : MessageType, error.context = named.context := by
  induction hlength : buffer.length using Nat.strongRecOn generalizing type buffer with
  | ind length ih =>
      obtain ⟨before, behind, rfl, -, hfails⟩ := decode_eq_error_iff.mp h
      cases hfails with
      | tag _ _ | value _ _ | refused _ _ _ => exact ⟨type, rfl⟩
      | inside taken _ holds fails =>
          have hpayload := Field.length_payload_lt holds
          have htaken := (Field.of_read taken).2
          rw [List.length_append] at hlength
          exact ih _ (by omega) fails rfl

/-- A message of any type is not read exactly if a field is malformed or refused, or a message inside
is not read. Of these the first on the wire is reported, and the report names the type that it is
about. -/
theorem decode_fails_iff (type : MessageType) (buffer : Bytes) (error : DecodeError) :
    type.decode buffer = .error error ↔
      (∃ named : MessageType, error.context = named.context) ∧ type.FailsFirst buffer error :=
  ⟨fun h => ⟨named_of_decode h, decode_eq_error_iff.mp h⟩, fun h => decode_eq_error_iff.mpr h.2⟩

/-- Behind an input of a node, the name of a branch inside it is no text. -/
example :
    (match MessageType.node.decode
        [0x0a, 0x01, 0x78, 0x2a, 0x05, 0x32, 0x03, 0x12, 0x01, 0xff, 0x08] with
      | .error error =>
        decide (error =
          { fault := .invalidUtf8, context := MessageType.graph.context, field := some 2 })
      | .ok _ => false) = true := by
  decide +kernel

end MessageType

end FixedShape.Onnx
