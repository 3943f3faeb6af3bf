/-
Module: FixedShape.Proofs.Model.Lossless
Purpose: Loading and saving loses nothing. A loaded model has the message that was decoded, and its
  bytes load as the same model again.
-/
import FixedShape.Model.Summary
import FixedShape.Proofs.Model.Loading
import FixedShape.Proofs.Onnx.Nesting

namespace FixedShape

open FixedShape.Outcome
open FixedShape.Wire

/-! ### Telling a model by its message -/

namespace Onnx

/-- What shows in the message of a model. -/
def Model.signs (message : Onnx.Model) : Signs :=
  { irVersion := message.irVersion.isSome, graph := message.graph.isSome }

theorem Signs.step_of_ne {field : Field} (signs : Signs) (hversion : field.number ≠ 1)
    (hgraph : field.number ≠ 7) : signs.step field = some signs := by
  unfold Signs.step
  split
  · next hnumber _ => exact absurd hnumber hversion
  · next hnumber _ => exact absurd hnumber hversion
  · next hnumber _ => exact absurd hnumber hgraph
  · next hnumber _ => exact absurd hnumber hgraph
  · rfl

/-- A field that a model takes shows what it adds. -/
theorem Signs.step_of_step {message after : Onnx.Model} {field : Field}
    (h : Model.step message field = .ok after) :
    message.signs.step field = some after.signs := by
  by_cases hversion : field.number = 1
  · simp only [Model.step, hversion] at h
    obtain ⟨value, hread, rfl⟩ := bind_pure_eq_ok.mp h
    obtain ⟨word, hvalue⟩ := Field.value_of_asInt64 hread
    rw [Signs.step, hversion, hvalue]
    rfl
  by_cases hgraph : field.number = 7
  · simp only [Model.step, hgraph] at h
    obtain ⟨graph, hread, rfl⟩ := bind_pure_eq_ok.mp h
    obtain ⟨payload, hvalue, _⟩ := Field.of_asMessage hread
    rw [Signs.step, hgraph, hvalue]
    rfl
  · rw [Signs.step_of_ne message.signs hversion hgraph]
    unfold Model.step at h
    split at h
    case h_1 hnumber => exact absurd hnumber hversion
    case h_7 hnumber => exact absurd hnumber hgraph
    case h_10 =>
      cases h
      rfl
    -- The other fields are put in places that tell nothing.
    all_goals
      obtain ⟨value, hread, rfl⟩ := bind_pure_eq_ok.mp h
      rfl

theorem Signs.foldlM_of_foldlM {fields : List Field} {message after : Onnx.Model}
    (h : fields.foldlM Model.step message = .ok after) :
    fields.foldlM Signs.step message.signs = some after.signs := by
  induction fields generalizing message with
  | nil =>
      cases h
      rfl
  | cons field fields ih =>
      obtain ⟨next, hfirst, hrest⟩ := bind_eq_ok.mp (List.foldlM_cons.symm.trans h)
      rw [List.foldlM_cons, Signs.step_of_step hfirst]
      exact ih hrest

/-- What is decoded looks like a model if it has a version and a graph. -/
theorem isModel_of_decode {buffer : Bytes} {message : Onnx.Model}
    (h : Model.decode buffer = .ok message) :
    isModel buffer = (message.irVersion.isSome && message.graph.isSome) := by
  obtain ⟨hnone, hfold⟩ := decodeWith_eq_ok.mp h
  have hsigns : (Field.scan MessageType.model.context buffer).items.foldlM Signs.step {} =
      some message.signs := Signs.foldlM_of_foldlM hfold
  rw [isModel, Field.scan_context hnone none]
  simp only [hnone, hsigns]
  rfl

end Onnx

/-! ### Loading what was saved -/

namespace Model

/-- The bytes of a loaded model load as that model. No buffer in memory has `2 ^ 63` bytes, and
what is written is at most twice as long as what was read, so every length in it is below
`2 ^ 64`. -/
theorem load_toBytes {bytes : Bytes} {model : Model} (hbytes : bytes.length < 2 ^ 63)
    (h : load bytes = .ok model) : load model.toBytes = .ok model := by
  obtain ⟨message, hmodel⟩ := loadedFrom_of_load h
  obtain ⟨hreadable, hlength⟩ := Onnx.Model.faithful_decode bytes hmodel.decoded
  have hdecode : Onnx.Model.decode message.encode = .ok message := hreadable (by omega)
  have hisModel : Onnx.isModel message.encode = Onnx.isModel bytes := by
    rw [Onnx.isModel_of_decode hdecode, Onnx.isModel_of_decode hmodel.decoded]
  rw [toBytes, hmodel.toMessage_eq, load, hisModel, hdecode, ← hmodel.decoded]
  exact h

/-- Loading and saving loses nothing. A loaded model has the message that was decoded, fields that
no message type models included, and its bytes load as a model with the same message, summary and
bytes. The bound is that of every buffer in memory. -/
theorem load_then_save {bytes : Bytes} {model : Model} (hbytes : bytes.length < 2 ^ 63)
    (h : load bytes = .ok model) :
    Onnx.Model.decode bytes = .ok model.toMessage ∧
      ∃ again, load model.toBytes = .ok again ∧ again.toMessage = model.toMessage ∧
        again.summary = model.summary ∧ again.toBytes = model.toBytes := by
  obtain ⟨message, hmodel⟩ := loadedFrom_of_load h
  refine ⟨?_, model, load_toBytes hbytes h, rfl, rfl, rfl⟩
  rw [hmodel.toMessage_eq]
  exact hmodel.decoded

/-- A version in two bytes, a graph with a field that no type models, and a constant whose
dimensions are packed and whose value is not. Saving changes all of them but the meaning. -/
theorem load_then_save_loose :
    let bytes : Bytes :=
      [0x08, 0x88, 0x00, 0x3a, 0x17, 0x12, 0x01, 0x67, 0x2a, 0x0f, 0x0a, 0x02, 0x02, 0x03,
        0x10, 0x01, 0x42, 0x01, 0x77, 0x28, 0xff, 0xff, 0xff, 0xff, 0x0f, 0xa0, 0x06, 0x01]
    bytes.length < 2 ^ 63 ∧ ∃ model, load bytes = .ok model ∧ model.toBytes ≠ bytes ∧
      Onnx.Model.decode bytes = .ok model.toMessage ∧
        ∃ again, load model.toBytes = .ok again ∧ again.toMessage = model.toMessage ∧
          again.summary = model.summary ∧ again.toBytes = model.toBytes := by
  intro bytes
  have hlength : bytes.length < 2 ^ 63 := by decide
  have hchecked : (match load bytes with
      | .ok model => decide (model.toBytes ≠ bytes)
      | .error _ => false) = true := by
    decide +kernel
  cases hload : load bytes with
  | error error =>
      rw [hload] at hchecked
      cases hchecked
  | ok model =>
      rw [hload] at hchecked
      exact ⟨hlength, model, rfl, of_decide_eq_true hchecked, load_then_save hlength hload⟩

end Model

end FixedShape
