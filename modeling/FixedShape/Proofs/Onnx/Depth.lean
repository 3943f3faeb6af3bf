/-
Module: FixedShape.Proofs.Onnx.Depth
Purpose: The depth to which graphs are read. A subgraph stands in a payload that is shorter than the
  buffer around it, so a graph is read as if its subgraphs were read in the same way.
-/
import FixedShape.Proofs.Onnx.Reading

namespace FixedShape.Onnx

open FixedShape.Wire

/-! ### Decoders that agree on shorter buffers -/

theorem foldlM_congr {μ : Type} {step other : μ → Field → Except DecodeError μ}
    {fields : List Field}
    (h : ∀ field ∈ fields, ∀ message, step message field = other message field) (message : μ) :
    fields.foldlM step message = fields.foldlM other message := by
  induction fields generalizing message with
  | nil => rfl
  | cons field fields ih =>
      rw [List.foldlM_cons, List.foldlM_cons, h field List.mem_cons_self]
      apply bind_congr
      intro next
      exact ih (fun behind hbehind => h behind (List.mem_cons_of_mem field hbehind)) next

theorem decodeWith_congr {μ : Type} {type : MessageType} {start : μ}
    {step other : μ → Field → Except DecodeError μ} {buffer : Bytes}
    (h : ∀ field, StandsIn buffer field → ∀ message, step message field = other message field) :
    decodeWith type start step buffer = decodeWith type start other buffer := by
  rw [decodeWith, decodeWith,
    foldlM_congr fun field hfield => h field (standsIn_of_mem_scan hfield)]

/-- The payload of a field is shorter than the buffer of the field. -/
theorem asMessage_congr {α : Type} {decode other : Bytes → Except DecodeError α} {buffer : Bytes}
    {field : Field} (hfield : StandsIn buffer field) (context : Context)
    (h : ∀ payload, payload.length < buffer.length → decode payload = other payload) :
    field.asMessage context decode = field.asMessage context other := by
  rw [Field.asMessage, Field.asMessage]
  split
  · rfl
  · next payload hpayload =>
      rw [h payload (hfield.length_lt payload (Field.value_of_asBytes hpayload))]

section

variable {subgraph other : GraphDecoder} {buffer : Bytes}

theorem Attribute.decodeIn_congr
    (h : ∀ payload, payload.length < buffer.length → subgraph payload = other payload) :
    decodeIn subgraph buffer = decodeIn other buffer := by
  apply decodeWith_congr
  intro field hfield message
  simp only [step, asMessage_congr hfield _ h]

theorem Node.decodeIn_congr
    (h : ∀ payload, payload.length < buffer.length → subgraph payload = other payload) :
    decodeIn subgraph buffer = decodeIn other buffer := by
  have hattributes : ∀ payload, payload.length < buffer.length →
      Attribute.decodeIn subgraph payload = Attribute.decodeIn other payload := by
    intro payload hpayload
    apply Attribute.decodeIn_congr
    intro inner hinner
    exact h inner (Nat.lt_trans hinner hpayload)
  apply decodeWith_congr
  intro field hfield message
  simp only [step, asMessage_congr hfield _ hattributes]

theorem Graph.decodeIn_congr
    (h : ∀ payload, payload.length < buffer.length → subgraph payload = other payload) :
    decodeIn subgraph buffer = decodeIn other buffer := by
  have hnodes : ∀ payload, payload.length < buffer.length →
      Node.decodeIn subgraph payload = Node.decodeIn other payload := by
    intro payload hpayload
    apply Node.decodeIn_congr
    intro inner hinner
    exact h inner (Nat.lt_trans hinner hpayload)
  apply decodeWith_congr
  intro field hfield message
  simp only [step, asMessage_congr hfield _ hnodes]

end

/-! ### Graphs to the full depth -/

namespace Graph

theorem decodeWithin_nil (depth : Nat) : decodeWithin depth [] = .ok {} := by
  cases depth with
  | zero => rfl
  | succ depth => rfl

/-- Any depth that the length of the buffer bounds gives the same graph. -/
theorem decodeWithin_eq {depth other : Nat} {buffer : Bytes} (h : buffer.length ≤ depth)
    (hother : buffer.length ≤ other) : decodeWithin depth buffer = decodeWithin other buffer := by
  induction depth generalizing other buffer with
  | zero =>
      obtain rfl := List.length_eq_zero_iff.mp (Nat.le_zero.mp h)
      rw [decodeWithin_nil, decodeWithin_nil]
  | succ depth ih =>
      cases other with
      | zero =>
          obtain rfl := List.length_eq_zero_iff.mp (Nat.le_zero.mp hother)
          rw [decodeWithin_nil, decodeWithin_nil]
      | succ other =>
          apply decodeIn_congr
          intro payload hpayload
          exact ih (by omega) (by omega)

/-- A graph is read with its subgraphs read in the same way. -/
theorem decode_eq (buffer : Bytes) : decode buffer = decodeIn decode buffer := by
  have hdepth : decode buffer = decodeWithin (buffer.length + 1) buffer :=
    decodeWithin_eq (Nat.le_refl _) (Nat.le_succ _)
  rw [hdepth]
  apply decodeIn_congr
  intro payload hpayload
  exact decodeWithin_eq (Nat.le_of_lt hpayload) (Nat.le_refl _)

end Graph

end FixedShape.Onnx
