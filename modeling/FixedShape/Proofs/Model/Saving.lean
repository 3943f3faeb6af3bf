/-
Module: FixedShape.Proofs.Model.Saving
Purpose: Models that are read back from their bytes, changed models among them. What is read back is
  described in the same way and has a graph of the same parts.
-/
import FixedShape.Proofs.Graph.Saving
import FixedShape.Proofs.Model.Lossless
import FixedShape.Proofs.Validity.Exactness

namespace FixedShape.Model

open FixedShape.Wire (Bytes)

/-- A model that is read back from its bytes. -/
structure Savable (model : Model) : Prop where
  graph : model.graph.Savable
  version : model.message.irVersion.isSome = true
  separated : model.message.Separated
  detached : model.message.graph = none

theorem savable_of_load {bytes : Bytes} {model : Model} (h : load bytes = .ok model) :
    model.Savable := by
  obtain ⟨message, graphMessage, hisModel, hdecoded, hgraph, hloaded, hmessage⟩ :=
    ofMessage_of_load h
  have hseparated := Onnx.Model.separated_of_decode hdecoded
  rw [Onnx.isModel_of_decode hdecoded, Bool.and_eq_true_iff] at hisModel
  refine ⟨?_, ?_, ?_, ?_⟩
  · exact Graph.savable_of_ofMessage hloaded (hseparated.graph graphMessage hgraph)
  · rw [hmessage]
    exact hisModel.1
  · rw [hmessage]
    exact ⟨hseparated.unknown, nofun, hseparated.opsetImports, hseparated.metadataProps⟩
  · rw [hmessage]

/-- The bytes of a model are read as a model with the same description and a graph of the same
parts. The bound is that of the lengths in a message. -/
theorem Savable.load_toBytes {model : Model} (h : model.Savable)
    (hlength : model.toBytes.length < 2 ^ 64) :
    ∃ again, load model.toBytes = .ok again ∧ again.summary = model.summary ∧
      model.graph.Reloaded again.graph := by
  obtain ⟨graph, hgraph, hreloaded⟩ := h.graph.named.ofMessage_toMessage
  have hseparated : model.toMessage.Separated := by
    refine ⟨h.separated.unknown, ?_, h.separated.opsetImports, h.separated.metadataProps⟩
    rintro _ ⟨⟩
    exact h.graph.toMessage_separated
  have hdecode : Onnx.Model.decode model.toBytes = .ok model.toMessage :=
    hseparated.readable hlength
  have hisModel : Onnx.isModel model.toBytes = true := by
    rw [Onnx.isModel_of_decode hdecode, Bool.and_eq_true_iff]
    exact ⟨h.version, rfl⟩
  have hmessage : { model.toMessage with graph := none } = model.message := by
    rcases model with ⟨_, message⟩
    cases message
    cases h.detached
    rfl
  have hload : load model.toBytes = .ok { model with graph } := by
    rw [load, if_pos hisModel, hdecode]
    dsimp only [toMessage] at hmessage ⊢
    rw [hgraph, hmessage]
  refine ⟨_, hload, ?_, hreloaded⟩
  rw [summary, summary, hreloaded.inputs_eq, hreloaded.outputs_eq, hreloaded.nodes_eq,
    hreloaded.initializers_eq, List.length_map]
  rfl

/-- A model whose graph is accepted has a graph that is accepted when it is read back. -/
theorem Savable.validate_reloaded {model again : Model} {checks : ValidateOptions}
    (h : model.Savable) (hreloaded : model.graph.Reloaded again.graph)
    (indexed : model.graph.Indexed) (hvalid : model.graph.validate checks = .ok ()) :
    again.graph.validate checks = .ok () := by
  rw [Graph.validate_eq_ok_iff hreloaded.indexed]
  exact hreloaded.wellFormed h.graph ((Graph.validate_eq_ok_iff indexed).mp hvalid)

end FixedShape.Model
