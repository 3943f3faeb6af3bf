/-
Module: FixedShape.Proofs.Model.Loading
Purpose: What loading a model gives. The data was decoded, its graph was loaded, and the rest of the
  message is kept beside it.
-/
import FixedShape.Model.Basic
import FixedShape.Proofs.Graph.Coherent

namespace FixedShape.Model

open FixedShape.Wire (Bytes)

/-- The parts of a loaded model. -/
structure LoadedFrom (bytes : Bytes) (message : Onnx.Model) (model : Model) : Prop where
  isModel : Onnx.isModel bytes = true
  decoded : Onnx.Model.decode bytes = .ok message
  graph : ∃ graphMessage, message.graph = some graphMessage ∧ model.graph.LoadedFrom graphMessage
  message_eq : model.message = { message with graph := none }

/-- The steps of loading a model. -/
theorem ofMessage_of_load {bytes : Bytes} {model : Model} (h : load bytes = .ok model) :
    ∃ message graphMessage, Onnx.isModel bytes = true ∧
      Onnx.Model.decode bytes = .ok message ∧ message.graph = some graphMessage ∧
      Graph.ofMessage graphMessage = .ok model.graph ∧
      model.message = { message with graph := none } := by
  unfold load at h
  split at h
  · next hisModel =>
      split at h
      · cases h
      · next message hdecoded =>
          split at h
          · cases h
          · next graphMessage hgraph =>
              split at h
              · cases h
              · next graph hloaded =>
                  cases h
                  exact ⟨message, graphMessage, hisModel, hdecoded, hgraph, hloaded, rfl⟩
  · cases h

theorem loadedFrom_of_load {bytes : Bytes} {model : Model} (h : load bytes = .ok model) :
    ∃ message, model.LoadedFrom bytes message := by
  obtain ⟨message, graphMessage, hisModel, hdecoded, hgraph, hloaded, hmessage⟩ :=
    ofMessage_of_load h
  exact ⟨message, hisModel, hdecoded,
    ⟨graphMessage, hgraph, Graph.loadedFrom_of_ofMessage hloaded⟩, hmessage⟩

/-- The message of a loaded model is the one that was decoded. -/
theorem LoadedFrom.toMessage_eq {bytes : Bytes} {message : Onnx.Model} {model : Model}
    (h : model.LoadedFrom bytes message) : model.toMessage = message := by
  obtain ⟨graphMessage, hgraph, hloaded⟩ := h.graph
  unfold toMessage
  rw [hloaded.toMessage_eq, h.message_eq]
  cases message
  cases hgraph
  rfl

theorem coherent_of_load {bytes : Bytes} {model : Model} (h : load bytes = .ok model) :
    model.graph.Coherent := by
  obtain ⟨message, hmodel⟩ := loadedFrom_of_load h
  obtain ⟨_, _, hloaded⟩ := hmodel.graph
  exact hloaded.coherent

end FixedShape.Model
