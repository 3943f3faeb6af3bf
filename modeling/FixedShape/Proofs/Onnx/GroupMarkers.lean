/-
Module: FixedShape.Proofs.Onnx.GroupMarkers
Purpose: Groups in a buffer. A group is no more than its two markers: the fields between them are
  taken for fields of the message around it, so a group survives only if no field in it has a number
  that the message models.
-/
import FixedShape.Proofs.Onnx.Merging

namespace FixedShape.Onnx

open FixedShape.Outcome
open FixedShape.Wire

namespace MessageType

/-- The fields of a message that its type does not model. -/
def unknown : (type : MessageType) → type.Message → List Field
  | .attr => Attribute.unknownFields
  | .node => Node.unknownFields
  | .tensor => Tensor.unknownFields
  | .entry => Entry.unknownFields
  | .dimension => Dimension.unknownFields
  | .tensorShape => TensorShape.unknownFields
  | .tensorType => TensorType.unknownFields
  | .valueType => ValueType.unknownFields
  | .valueInfo => ValueInfo.unknownFields
  | .graph => Graph.unknownFields
  | .opsetImport => OpsetImport.unknownFields
  | .model => Model.unknownFields

/-- A message that keeps further fields, behind those that it keeps already. All else stays. -/
def keep : (type : MessageType) → type.Message → List Field → type.Message
  | .attr => fun m fields => { m with unknownFields := m.unknownFields ++ fields }
  | .node => fun m fields => { m with unknownFields := m.unknownFields ++ fields }
  | .tensor => fun m fields => { m with unknownFields := m.unknownFields ++ fields }
  | .entry => fun m fields => { m with unknownFields := m.unknownFields ++ fields }
  | .dimension => fun m fields => { m with unknownFields := m.unknownFields ++ fields }
  | .tensorShape => fun m fields => { m with unknownFields := m.unknownFields ++ fields }
  | .tensorType => fun m fields => { m with unknownFields := m.unknownFields ++ fields }
  | .valueType => fun m fields => { m with unknownFields := m.unknownFields ++ fields }
  | .valueInfo => fun m fields => { m with unknownFields := m.unknownFields ++ fields }
  | .graph => fun m fields => { m with unknownFields := m.unknownFields ++ fields }
  | .opsetImport => fun m fields => { m with unknownFields := m.unknownFields ++ fields }
  | .model => fun m fields => { m with unknownFields := m.unknownFields ++ fields }

variable {type : MessageType} {m after : type.Message} {field : Field} {fields : List Field}

@[simp] theorem unknown_keep (m : type.Message) (fields : List Field) :
    type.unknown (type.keep m fields) = type.unknown m ++ fields := by
  cases type <;> rfl

@[simp] theorem keep_nil (m : type.Message) : type.keep m [] = m := by
  cases type <;> cases m <;> simp [keep]

theorem keep_keep (m : type.Message) (first second : List Field) :
    type.keep (type.keep m first) second = type.keep m (first ++ second) := by
  cases type <;> simp [keep]

/-- A field that is not modelled is kept. -/
theorem step_of_unmodelled (m : type.Message) (h : field.number ∉ type.modelled) :
    type.step m field = .ok (type.keep m [field]) := by
  cases type <;> simp only [modelled, List.mem_cons, List.not_mem_nil, or_false, not_or] at h <;>
    simp [step, Attribute.step, Node.step, Tensor.step, Entry.step, Dimension.step,
      TensorShape.step, TensorType.step, ValueType.step, ValueInfo.step, Graph.step,
      OpsetImport.step, Model.step, h, keep, pure, Except.pure]

/-- A field that is modelled is not kept. -/
theorem unknown_of_step (h : field.number ∈ type.modelled)
    (hstep : type.step m field = .ok after) : type.unknown after = type.unknown m := by
  cases type <;>
    simp only [step, Attribute.step, Node.step, Tensor.step, Entry.step, Dimension.step,
      TensorShape.step, TensorType.step, ValueType.step, ValueInfo.step, Graph.step,
      OpsetImport.step, Model.step] at hstep <;>
    split at hstep <;>
    first
    | -- a value is read and put in its place
      obtain ⟨_, _, rfl⟩ := bind_pure_eq_ok.mp hstep
      rfl
    | -- a list of numbers is read first, and then each of them
      obtain ⟨_, _, hall⟩ := bind_eq_ok.mp hstep
      obtain ⟨_, _, rfl⟩ := bind_pure_eq_ok.mp hall
      rfl
    | simp_all [modelled]

theorem encode_keep (m : type.Message) (fields : List Field) :
    type.encode (type.keep m fields) = type.encode m ++ Emit.fields fields := by
  cases type <;> cases m <;>
    simp [encode, keep, Attribute.encode, Node.encode, Graph.encode, Tensor.encode, Entry.encode,
      Dimension.encode, TensorShape.encode, TensorType.encode, ValueType.encode, ValueInfo.encode,
      OpsetImport.encode, Model.encode, Emit.fields]

/-! ### Fields one after the other -/

theorem foldlM_of_unmodelled (m : type.Message)
    (h : ∀ field ∈ fields, field.number ∉ type.modelled) :
    fields.foldlM type.step m = .ok (type.keep m fields) := by
  induction fields generalizing m with
  | nil =>
      rw [keep_nil]
      rfl
  | cons field fields ih =>
      obtain ⟨hfield, hfields⟩ := List.forall_mem_cons.mp h
      rw [List.foldlM_cons, step_of_unmodelled m hfield]
      change fields.foldlM type.step (type.keep m [field]) = _
      rw [ih _ hfields, keep_keep]
      rfl

/-- Of the fields that are taken, the message keeps those that are not modelled. -/
theorem unknown_of_foldlM (h : fields.foldlM type.step m = .ok after) :
    type.unknown after = type.unknown m ++ fields.filter (·.number ∉ type.modelled) := by
  induction fields generalizing m with
  | nil =>
      cases h
      exact (List.append_nil _).symm
  | cons field fields ih =>
      obtain ⟨next, hstep, hrest⟩ := bind_eq_ok.mp (List.foldlM_cons.symm.trans h)
      rw [ih hrest]
      by_cases hfield : field.number ∈ type.modelled
      · rw [unknown_of_step hfield hstep, List.filter_cons_of_neg (by simpa using hfield)]
      · rw [step_of_unmodelled m hfield] at hstep
        obtain rfl := Except.ok.inj hstep
        rw [unknown_keep, List.filter_cons_of_pos (by simpa using hfield), List.append_assoc]
        rfl

/-- Fields are kept as they are exactly if none of them is modelled. -/
theorem foldlM_eq_keep_iff (m : type.Message) :
    fields.foldlM type.step m = .ok (type.keep m fields) ↔
      ∀ field ∈ fields, field.number ∉ type.modelled := by
  refine ⟨fun h field hfield => ?_, foldlM_of_unmodelled m⟩
  have hkept := unknown_of_foldlM h
  rw [unknown_keep, List.append_cancel_left_eq] at hkept
  rw [hkept] at hfield
  exact of_decide_eq_true (List.mem_filter.mp hfield).2

end MessageType

end FixedShape.Onnx

namespace FixedShape.Wire

/-! ### Groups -/

/-- Fields between the markers of a group. -/
def Field.group (number : UInt64) (inside : List Field) : List Field :=
  { number, value := .groupStart } :: (inside ++ [{ number, value := .groupEnd }])

/-- Bytes between the tags of a group. -/
def Emit.group (number : UInt64) (content : Bytes) : Bytes :=
  Emit.tag number 3 ++ (content ++ Emit.tag number 4)

/-- Around fields that can all be read, markers are read as two more fields. -/
theorem Field.scan_group {context : Context} {number : UInt64} {content : Bytes}
    (hnumber : number.toNat < 2 ^ 61) (hcontent : (scan context content).error = none) :
    scan context (Emit.group number content) =
      { items := group number (scan context content).items } := by
  have hstart : Field.Writable { number, value := .groupStart } := ⟨hnumber, nofun⟩
  have hend : ∀ field ∈ [{ number, value := .groupEnd }], Field.Writable field :=
    List.forall_mem_singleton.mpr ⟨hnumber, nofun⟩
  have hopened : read context (Emit.group number content) = .ok (_, content ++ Emit.tag number 4) :=
    read_field hstart context _
  have hclosed : scan context (Emit.tag number 4) =
      { items := [{ number, value := .groupEnd }] } := by
    rw [← scan_fields hend context, Emit.fields, List.flatMap_singleton]
    rfl
  rw [scan_of_read hopened, scan_append hcontent, hclosed]
  rfl

end FixedShape.Wire

namespace FixedShape.Onnx.MessageType

open FixedShape.Outcome
open FixedShape.Wire

variable {type : MessageType} {m : type.Message} {buffer rest content : Bytes} {number : UInt64}

/-- If all fields of a buffer can be read, taking them decides. -/
theorem decode_eq_foldlM (type : MessageType)
    (h : (Field.scan type.context buffer).error = none) :
    type.decode buffer = (Field.scan type.context buffer).items.foldlM type.step type.start := by
  rw [decode_eq, decodeWith, h]
  dsimp only
  cases (Field.scan type.context buffer).items.foldlM type.step type.start <;> rfl

/-- Behind a message that was read, further fields are taken into it one by one. -/
theorem decode_behind (hbuffer : type.decode buffer = .ok m)
    (hrest : (Field.scan type.context rest).error = none) :
    type.decode (buffer ++ rest) = (Field.scan type.context rest).items.foldlM type.step m := by
  rw [decode_eq] at hbuffer
  obtain ⟨hnone, hfold⟩ := decodeWith_eq_ok.mp hbuffer
  have hscan := Field.scan_append hnone rest
  rw [decode_eq_foldlM type (by rw [hscan, hrest]), hscan, List.foldlM_append, hfold]
  rfl

/-- Behind a message that was read, a group is read as three things: a marker, the content as if it
were a part of the message itself, and another marker. -/
theorem decode_group (hbuffer : type.decode buffer = .ok m) (hnumber : number.toNat < 2 ^ 61)
    (hfree : number ∉ type.modelled) (hcontent : (Field.scan type.context content).error = none) :
    type.decode (buffer ++ Emit.group number content) =
      (fun inner => type.keep
        (type.merge (type.keep m [{ number, value := .groupStart }]) inner)
        [{ number, value := .groupEnd }]) <$> type.decode content := by
  have hscan := Field.scan_group hnumber hcontent
  rw [decode_behind hbuffer (by rw [hscan]), hscan, decode_eq_foldlM type hcontent]
  have hmerge := type.merges.foldlM (type.keep m [{ number, value := .groupStart }]) type.start
    (Field.scan type.context content).items
  rw [type.merges.merge_start] at hmerge
  rw [Field.group, List.foldlM_cons, step_of_unmodelled m hfree]
  change ((Field.scan type.context content).items ++ [_]).foldlM type.step _ = _
  rw [List.foldlM_append, hmerge]
  cases (Field.scan type.context content).items.foldlM type.step type.start with
  | error error => rfl
  | ok inner =>
      change [_].foldlM type.step _ = _
      rw [foldlM_of_unmodelled _ (List.forall_mem_singleton.mpr hfree)]
      rfl

/-- A group that a type does not model is read as its two markers. What is between them is taken as
if it stood outside, so the group is kept as it is, and the modelled fields as they were, exactly if no
field in it has a number that the type models. A group that is kept is written back behind all else.
The content may be any fields, also with markers of groups inside. -/
theorem group_kept_iff (type : MessageType) {m : type.Message} {buffer content : Bytes}
    {number : UInt64} (hbuffer : type.decode buffer = .ok m) (hnumber : number.toNat < 2 ^ 61)
    (hfree : number ∉ type.modelled)
    (hcontent : (Field.scan type.context content).error = none) :
    let inside := (Field.scan type.context content).items
    let whole := buffer ++ Emit.group number content
    type.decode whole =
        (fun inner => type.keep
          (type.merge (type.keep m [{ number, value := .groupStart }]) inner)
          [{ number, value := .groupEnd }]) <$> type.decode content ∧
      (∀ after, type.decode whole = .ok after →
        type.unknown after =
          type.unknown m ++ (Field.group number inside).filter (·.number ∉ type.modelled)) ∧
      (type.decode whole = .ok (type.keep m (Field.group number inside)) ↔
        ∀ field ∈ inside, field.number ∉ type.modelled) ∧
      type.encode (type.keep m (Field.group number inside)) =
        type.encode m ++ Emit.group number (Emit.fields inside) := by
  intro inside whole
  have hscan := Field.scan_group hnumber hcontent
  have hwhole : type.decode whole = (Field.group number inside).foldlM type.step m := by
    have hbehind : type.decode whole = _ := decode_behind hbuffer (by rw [hscan])
    rwa [hscan] at hbehind
  refine ⟨decode_group hbuffer hnumber hfree hcontent, ?_, ?_, ?_⟩
  · intro after hafter
    exact unknown_of_foldlM (hwhole.symm.trans hafter)
  · rw [hwhole, foldlM_eq_keep_iff, Field.group, List.forall_mem_cons, List.forall_mem_append,
      List.forall_mem_singleton]
    exact ⟨fun h => h.2.1, fun h => ⟨hfree, h, hfree⟩⟩
  · rw [encode_keep]
    congr 1
    simp [Field.group, Emit.group, Emit.fields, Emit.field]

/-- Behind the name of a value there is a group that holds a number and another group, none of which
declarations model. -/
theorem group_kept_iff_nested :
    let buffer : Bytes := [0x0a, 0x01, 0x67]
    let content : Bytes := [0x20, 0x01, 0xab, 0x01, 0x28, 0x02, 0xac, 0x01]
    let inside : List Field :=
      { number := 4, value := .varint 1 } :: Field.group 21 [{ number := 5, value := .varint 2 }]
    let kept : ValueInfo := { name := some "g", unknownFields := Field.group 20 inside }
    valueInfo.decode (buffer ++ Emit.group 20 content) = .ok kept ∧
      valueInfo.encode kept = buffer ++ Emit.group 20 content := by
  intro buffer content inside kept
  have hbuffer : valueInfo.decode buffer = .ok ({ name := some "g" } : ValueInfo) := by
    decide +kernel
  have hscan : Field.scan valueInfo.context content = { items := inside } := rfl
  obtain ⟨-, -, hkept, hwritten⟩ :=
    @group_kept_iff valueInfo _ buffer content 20 hbuffer (by decide) (by decide)
      (congrArg Scan.error hscan)
  rw [hscan] at hkept hwritten
  exact ⟨hkept.mpr (by decide), hwritten⟩

/-- A group in the declaration of a value holds a field with the number of the value's name. The
value is read with another name, and the field is written back outside the group. -/
theorem value_renamed_by_group :
    let buffer : Bytes := [0x0a, 0x01, 0x67]
    let content : Bytes := [0x0a, 0x01, 0x68]
    let inside : List Field := [{ number := 1, value := .bytes [0x68] }]
    let before : ValueInfo := { name := some "g" }
    let after : ValueInfo := { name := some "h", unknownFields := Field.group 20 [] }
    valueInfo.decode buffer = .ok before ∧ 20 ∉ valueInfo.modelled ∧
      Field.scan valueInfo.context content = { items := inside } ∧
      valueInfo.decode (buffer ++ Emit.group 20 content) = .ok after ∧
      after ≠ valueInfo.keep before (Field.group 20 inside) ∧
      valueInfo.encode after = content ++ Emit.group 20 [] := by
  intro buffer content inside before after
  have hbuffer : valueInfo.decode buffer = .ok before := by decide +kernel
  have hwhole : valueInfo.decode (buffer ++ Emit.group 20 content) = .ok after := by decide +kernel
  refine ⟨hbuffer, by decide, rfl, hwhole, ?_, by decide +kernel⟩
  intro heq
  exact absurd (congrArg ValueInfo.name heq) (by decide)

end FixedShape.Onnx.MessageType
