/-
Module: FixedShape.Proofs.Graph.Coherent
Purpose: What a graph keeps beside its nodes agrees with the nodes: the index, the names in use and
  the captures. Loading makes a graph coherent, and changing it keeps it so.
-/
import FixedShape.Proofs.Graph.Loading
import FixedShape.Proofs.Tensor.Declarations

namespace FixedShape.Graph

/-- A graph whose index and names in use are those of its parts, and whose nodes list no capture
twice. -/
structure Coherent (graph : Graph) : Prop where
  indexed : graph.Indexed
  reserved : graph.Reserved
  captures_nodup : ∀ node ∈ graph.nodes, node.captures.Nodup

theorem LoadedFrom.coherent {message : Onnx.Graph} {graph : Graph}
    (h : graph.LoadedFrom message) : graph.Coherent := by
  refine ⟨h.indexed, h.reserved, fun node hnode => ?_⟩
  rw [h.nodes_eq, List.mem_map] at hnode
  obtain ⟨message, _, rfl⟩ := hnode
  exact Onnx.nodup_captures message

section

variable {graph : Graph}

/-- Putting a name into use keeps a graph coherent. -/
theorem Coherent.reserve (h : graph.Coherent) (name : String) :
    (graph.reserve name).Coherent := by
  have hreserved := h.reserved.reserve name
  rw [reserve_eq] at hreserved ⊢
  exact ⟨h.indexed, hreserved, h.captures_nodup⟩

theorem Coherent.addInitializer (h : graph.Coherent) (init : Initializer) :
    (graph.addInitializer init).Coherent := by
  have hreserved := h.reserved.addInitializer init
  rw [Graph.addInitializer, reserve_eq] at hreserved ⊢
  exact ⟨h.indexed, hreserved, h.captures_nodup⟩

theorem Coherent.addNode (h : graph.Coherent) {node : Node} (hnodup : node.captures.Nodup) :
    (graph.addNode node).Coherent := by
  refine ⟨h.indexed.addNode node, h.reserved.addNode node, fun other hother => ?_⟩
  rw [addNode_eq, List.mem_append, List.mem_singleton] at hother
  rcases hother with hold | rfl
  · exact h.captures_nodup other hold
  · exact hnodup

/-- A change of a declaration that keeps its name keeps a graph coherent. -/
theorem Coherent.modifyOutput (h : graph.Coherent) (name : String)
    {change : TensorInfo → TensorInfo} (hchange : ∀ info, (change info).name = info.name) :
    (graph.modifyOutput name change).Coherent := by
  refine ⟨h.indexed, ⟨h.reserved.inputs, ?_, h.reserved.valueInfo, h.reserved.initializers,
    h.reserved.nodes⟩, h.captures_nodup⟩
  refine forall_mem_modifyInfo h.reserved.outputs fun info hinfo => ?_
  rw [hchange]
  exact hinfo

theorem Coherent.modifyInput (h : graph.Coherent) (name : String)
    {change : TensorInfo → TensorInfo} (hchange : ∀ info, (change info).name = info.name) :
    (graph.modifyInput name change).Coherent := by
  refine ⟨h.indexed, ⟨?_, h.reserved.outputs, h.reserved.valueInfo, h.reserved.initializers,
    h.reserved.nodes⟩, h.captures_nodup⟩
  refine forall_mem_modifyInfo h.reserved.inputs fun info hinfo => ?_
  rw [hchange]
  exact hinfo

end

end FixedShape.Graph
