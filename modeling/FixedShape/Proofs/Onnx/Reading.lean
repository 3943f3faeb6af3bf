/-
Module: FixedShape.Proofs.Onnx.Reading
Purpose: Messages in parts. The bytes of a message are those of its fields one after the other, and
  each part is read into the message that the parts before it have left.
-/
import FixedShape.Onnx.Decode
import FixedShape.Proofs.Wire.Lists

namespace FixedShape.Onnx

open FixedShape.Outcome
open FixedShape.Wire

variable {μ : Type} {type : MessageType} {start : μ} {step : μ → Field → Except DecodeError μ}

/-- A message is read if its fields are, and then each of them is taken. -/
theorem decodeWith_eq_ok {buffer : Bytes} {message : μ} :
    decodeWith type start step buffer = .ok message ↔
      (Field.scan type.context buffer).error = none ∧
        (Field.scan type.context buffer).items.foldlM step start = .ok message := by
  rw [decodeWith]
  cases htaken : (Field.scan type.context buffer).items.foldlM step start with
  | error error => simp
  | ok taken =>
      cases herror : (Field.scan type.context buffer).error with
      | some error => simp
      | none => simp

/-- Reading the bytes takes one message to another. The length of a buffer fits in 64 bits. -/
def Reads (step : μ → Field → Except DecodeError μ) (bytes : Bytes) (before after : μ) : Prop :=
  bytes.length < 2 ^ 64 → ∃ fields, bytes = Emit.fields fields ∧
    (∀ field ∈ fields, field.Writable) ∧ fields.foldlM step before = .ok after

namespace Reads

theorem nil (message : μ) : Reads step [] message message :=
  fun _ => ⟨[], rfl, List.forall_mem_nil _, rfl⟩

theorem append {first second : Bytes} {before middle after : μ}
    (hfirst : Reads step first before middle) (hsecond : Reads step second middle after) :
    Reads step (first ++ second) before after := by
  intro hlength
  rw [List.length_append] at hlength
  obtain ⟨fields, rfl, hwritable, hfold⟩ := hfirst (by omega)
  obtain ⟨fields', rfl, hwritable', hfold'⟩ := hsecond (by omega)
  refine ⟨fields ++ fields', ?_, ?_, ?_⟩
  · exact List.flatMap_append.symm
  · exact List.forall_mem_append.mpr ⟨hwritable, hwritable'⟩
  · rw [List.foldlM_append, hfold]
    exact hfold'

/-- A single field, whose own length fits in 64 bits. -/
theorem field {field : Field} {before after : μ} (hnumber : field.number.toNat < 2 ^ 61)
    (hstep : (Emit.field field).length < 2 ^ 64 → step before field = .ok after) :
    Reads step (Emit.field field) before after := by
  intro hlength
  refine ⟨[field], ?_, ?_, ?_⟩
  · exact (List.append_nil _).symm
  · intro other hother
    obtain rfl := List.mem_singleton.mp hother
    refine ⟨hnumber, ?_⟩
    intro payload hvalue
    exact Nat.lt_trans (Field.length_payload_lt hvalue) hlength
  · rw [List.foldlM_cons, hstep hlength]
    rfl

/-- A field that may be absent. -/
theorem optional {α : Type} {emit : α → Bytes} (set : Option α → μ) {value : Option α}
    (h : ∀ a, value = some a → Reads step (emit a) (set none) (set (some a))) :
    Reads step (Emit.optional emit value) (set none) (set value) := by
  cases value with
  | none => exact nil _
  | some a => exact h a rfl

/-- A field for each value. -/
theorem each {α : Type} {emit : α → Bytes} (set : List α → μ) {values : List α}
    (h : ∀ a ∈ values, ∀ done, Reads step (emit a) (set done) (set (done ++ [a]))) :
    Reads step (values.flatMap emit) (set []) (set values) := by
  have hfrom (done rest : List α) (hrest : ∀ a ∈ rest, a ∈ values) :
      Reads step (rest.flatMap emit) (set done) (set (done ++ rest)) := by
    induction rest generalizing done with
    | nil =>
        rw [List.append_nil]
        exact nil _
    | cons a rest ih =>
        have hfirst := h a (hrest a List.mem_cons_self) done
        have hothers := ih (done ++ [a]) fun b hb => hrest b (List.mem_cons_of_mem a hb)
        rw [List.append_assoc] at hothers
        exact hfirst.append hothers
  exact hfrom [] values fun _ ha => ha

/-- A message is read from its bytes. -/
theorem decodeWith_eq {bytes : Bytes} {message : μ} (h : Reads step bytes start message)
    (hlength : bytes.length < 2 ^ 64) : decodeWith type start step bytes = .ok message := by
  obtain ⟨fields, rfl, hwritable, hfold⟩ := h hlength
  apply decodeWith_eq_ok.mpr
  rw [Field.scan_fields hwritable]
  exact ⟨rfl, hfold⟩

end Reads

/-! ### Decoders that lose nothing -/

/-- A message that is read back from the bytes that it is written to. -/
def Readable (decode : Bytes → Except DecodeError μ) (encode : μ → Bytes) (message : μ) : Prop :=
  (encode message).length < 2 ^ 64 → decode (encode message) = .ok message

/-- What is read from a buffer is read back once it is written, in at most twice the bytes. -/
def Faithful (decode : Bytes → Except DecodeError μ) (encode : μ → Bytes) (buffer : Bytes) : Prop :=
  ∀ ⦃message⦄, decode buffer = .ok message →
    Readable decode encode message ∧ (encode message).length ≤ 2 * buffer.length

/-- A field as it may stand in a buffer. -/
structure StandsIn (buffer : Bytes) (field : Field) : Prop where
  writable : field.Writable
  length_lt : ∀ payload, field.value = .bytes payload → payload.length < buffer.length

theorem standsIn_of_mem_scan {context : Context} {buffer : Bytes} {field : Field}
    (h : field ∈ (Field.scan context buffer).items) : StandsIn buffer field where
  writable := (Field.of_scan context buffer).1 field h
  length_lt _ hvalue := Field.length_payload_lt_of_mem_scan h hvalue

/-- The bytes of a message, or of a part of it, before and after a field was taken. -/
def Grows (field : Field) (before after : Bytes) : Prop :=
  after.length ≤ before.length + 2 * (Emit.field field).length

/-- A property that every field keeps, and a size that every field adds at most twice its own to. -/
theorem foldlM_keeps {Kept : μ → Prop} {encode : μ → Bytes} {fields : List Field}
    (hstep : ∀ field ∈ fields, ∀ before after, Kept before → step before field = .ok after →
      Kept after ∧ Grows field (encode before) (encode after))
    {before after : μ} (hbefore : Kept before) (h : fields.foldlM step before = .ok after) :
    Kept after ∧ (encode after).length ≤
      (encode before).length + 2 * (Emit.fields fields).length := by
  induction fields generalizing before with
  | nil =>
      cases h
      exact ⟨hbefore, Nat.le_add_right _ _⟩
  | cons field fields ih =>
      obtain ⟨middle, hfirst, hrest⟩ := bind_eq_ok.mp (List.foldlM_cons.symm.trans h)
      obtain ⟨hmiddle, hgrowth⟩ := hstep field List.mem_cons_self _ _ hbefore hfirst
      obtain ⟨hafter, hothers⟩ := ih
        (fun other hother => hstep other (List.mem_cons_of_mem field hother)) hmiddle hrest
      have hcons : (Emit.fields (field :: fields)).length =
          (Emit.field field).length + (Emit.fields fields).length := List.length_append
      rw [Grows] at hgrowth
      exact ⟨hafter, by omega⟩

end FixedShape.Onnx
