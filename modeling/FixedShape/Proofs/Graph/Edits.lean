/-
Module: FixedShape.Proofs.Graph.Edits
Purpose: Graphs that come about by changes. The changes are the calls that a graph offers; which of
  them are made may depend on the graph they are made to. What a change does to the nodes and to
  their index is said once here, and so is what is kept by every change of a kind.
-/
import FixedShape.Proofs.Graph.Loading

namespace FixedShape

/-- A change of a declaration that keeps its name. -/
inductive Redeclaration where
  | shape (dims : Shape)
  | elemType (type : ElementType)

/-- Changes a declaration. -/
def Redeclaration.apply : Redeclaration → TensorInfo → TensorInfo
  | .shape dims => TensorInfo.setShape dims
  | .elemType type => TensorInfo.setElemType type

namespace Graph

/-- A change of a graph. -/
inductive Edit where
  | addNode (node : Node)
  | addInput (info : TensorInfo)
  | addOutput (info : TensorInfo)
  | addValueInfo (info : TensorInfo)
  | addInitializer (init : Initializer)
  | renameOutput (id : NodeId) (source target : String)
  | replaceUses (source target : String) (exclude : List NodeId)
  | renameValueInfo (source target : String)
  | uniqueName (base : String)
  | changeInput (name : String) (change : Redeclaration)
  | changeOutput (name : String) (change : Redeclaration)

/-- Changes a graph. What a call tells besides is left out. -/
def Edit.apply (edit : Edit) (graph : Graph) : Graph :=
  match edit with
  | .addNode node => graph.addNode node
  | .addInput info => graph.addInput info
  | .addOutput info => graph.addOutput info
  | .addValueInfo info => graph.addValueInfo info
  | .addInitializer init => graph.addInitializer init
  | .renameOutput id source target => (graph.renameOutput id source target).1
  | .replaceUses source target exclude => (graph.replaceUses source target exclude).1
  | .renameValueInfo source target => (graph.renameValueInfo source target).1
  | .uniqueName base => (graph.uniqueName base).2
  | .changeInput name change => graph.modifyInput name change.apply
  | .changeOutput name change => graph.modifyOutput name change.apply

/-- The graphs that come from the empty graph or from a loaded one by changes of a kind, any number
of them in any order. -/
inductive Reached (Kind : Graph → Edit → Prop) : Graph → Prop where
  | empty : Reached Kind {}
  | loaded {message : Onnx.Graph} {graph : Graph} (h : ofMessage message = .ok graph) :
      Reached Kind graph
  | edited {graph : Graph} {edit : Edit} (before : Reached Kind graph) (kind : Kind graph edit) :
      Reached Kind (edit.apply graph)

/-! ### Nodes and their index -/

theorem wiring_reserve (name : String) (graph : Graph) :
    (graph.reserve name).nodes = graph.nodes ∧
      (graph.reserve name).producerIndex = graph.producerIndex := by
  rw [reserve_eq]
  exact ⟨rfl, rfl⟩

/-- Three changes touch nodes or their index, and all others leave both. -/
theorem Edit.wiring_cases (edit : Edit) (graph : Graph) :
    (∃ node, edit = .addNode node) ∨ (∃ id source target, edit = .renameOutput id source target) ∨
      (∃ source target exclude, edit = .replaceUses source target exclude) ∨
        (edit.apply graph).nodes = graph.nodes ∧
          (edit.apply graph).producerIndex = graph.producerIndex := by
  cases edit with
  | addNode node => exact Or.inl ⟨node, rfl⟩
  | renameOutput id source target => exact Or.inr (Or.inl ⟨id, source, target, rfl⟩)
  | replaceUses source target exclude =>
      exact Or.inr (Or.inr (Or.inl ⟨source, target, exclude, rfl⟩))
  | addInput info => exact Or.inr (Or.inr (Or.inr (wiring_reserve info.name graph)))
  | addOutput info => exact Or.inr (Or.inr (Or.inr (wiring_reserve info.name graph)))
  | addValueInfo info => exact Or.inr (Or.inr (Or.inr (wiring_reserve info.name graph)))
  | addInitializer init => exact Or.inr (Or.inr (Or.inr (wiring_reserve init.name graph)))
  | renameValueInfo source target =>
      refine Or.inr (Or.inr (Or.inr ?_))
      unfold apply Graph.renameValueInfo
      dsimp only
      split
      · exact ⟨rfl, rfl⟩
      · exact wiring_reserve target graph
  | uniqueName base =>
      exact Or.inr (Or.inr (Or.inr (wiring_reserve (graph.freshName base) graph)))
  | changeInput name change => exact Or.inr (Or.inr (Or.inr ⟨rfl, rfl⟩))
  | changeOutput name change => exact Or.inr (Or.inr (Or.inr ⟨rfl, rfl⟩))

section

variable {source target : String} {graph : Graph}

/-- An output is renamed at the node that has it, and nothing happens if there is none. -/
theorem renameOutput_cases (id : NodeId) (source target : String) (graph : Graph) :
    (graph.renameOutput id source target).1 = graph ∨
      ∃ node, graph.nodes[id]? = some node ∧ source ∈ node.outputs ∧
        (graph.renameOutput id source target).1 =
          { graph with
            nodes := graph.nodes.set id (node.renameOutput source target).1
            producerIndex := (graph.producerIndex.remove source id).push target id
            names := graph.names.insert target } := by
  unfold renameOutput
  split
  · exact Or.inl rfl
  · next node hnode =>
      by_cases hsource : source ∈ node.outputs
      · refine Or.inr ⟨node, hnode, hsource, ?_⟩
        simp only [Node.renameOutput, hsource, decide_true, if_true, reserve_eq]
      · refine Or.inl ?_
        simp only [Node.renameOutput, hsource, decide_false, Bool.false_eq_true, if_false]

/-- A read is replaced at every node that is not excluded. -/
theorem nodes_replaceUses (source target : String) (exclude : List NodeId) (graph : Graph) :
    (graph.replaceUses source target exclude).1.nodes =
      graph.indexedNodes.map fun entry =>
        if entry.1 ∈ exclude then entry.2 else (entry.2.replaceInput source target).1 := by
  unfold replaceUses
  dsimp only
  rw [List.map_map]
  refine List.map_congr_left fun entry _ => ?_
  simp only [Function.comp_apply]
  split <;> rfl

/-- The nodes that are told are those, outside the excluded ones, that have the read. -/
theorem ids_replaceUses (source target : String) (exclude : List NodeId) (graph : Graph) :
    (graph.replaceUses source target exclude).2 =
      (graph.indexedNodes.filter fun entry =>
        entry.1 ∉ exclude ∧ (source ∈ entry.2.inputs ∨ source ∈ entry.2.captures)).map (·.1) := by
  unfold replaceUses
  dsimp only
  rw [List.filter_map, List.map_map]
  have hreplaced : ∀ entry : NodeId × Node,
      (if entry.1 ∈ exclude then (entry.1, entry.2, false)
        else (entry.1, entry.2.replaceInput source target)).2.2 =
      decide (entry.1 ∉ exclude ∧ (source ∈ entry.2.inputs ∨ source ∈ entry.2.captures)) := by
    intro entry
    rw [Bool.eq_iff_iff, decide_eq_true_iff]
    split
    · next hid => simp [hid]
    · next hid => rw [Node.replaceInput_replaced, and_iff_right hid]
  simp only [Function.comp_def, hreplaced]
  refine List.map_congr_left fun entry _ => ?_
  split <;> rfl

theorem mem_names_replaceUses {exclude : List NodeId} {name : String} :
    name ∈ (graph.replaceUses source target exclude).1.names ↔
      name ∈ graph.names ∨ name = target ∧ (graph.replaceUses source target exclude).2 ≠ [] := by
  unfold replaceUses
  dsimp only
  split
  · next hnone => simp [List.isEmpty_iff.mp hnone]
  · next hsome =>
      rw [mem_names_reserve, and_iff_left (mt List.isEmpty_iff.mpr hsome), or_comm]

/-- Beside the nodes only the names in use change. -/
theorem replaceUses_parts (source target : String) (exclude : List NodeId) (graph : Graph) :
    (graph.replaceUses source target exclude).1 =
      { graph with
        nodes := (graph.replaceUses source target exclude).1.nodes
        names := (graph.replaceUses source target exclude).1.names } := by
  unfold replaceUses
  dsimp only
  split
  · rfl
  · rw [reserve_eq]

/-- A node after a read was replaced stands where the node stood. -/
theorem getElem?_replaceUses {exclude : List NodeId} {id : NodeId} :
    (graph.replaceUses source target exclude).1.nodes[id]? =
      graph.nodes[id]?.map fun node =>
        if id ∈ exclude then node else (node.replaceInput source target).1 := by
  rw [nodes_replaceUses]
  simp only [indexedNodes, List.getElem?_map, List.getElem?_zipIdx, Option.map_map, Nat.zero_add]
  rfl

end

/-- What holds of all nodes holds of them after a change, if it holds of a node that is added and is
kept where an output is renamed or a read is replaced. -/
theorem forall_mem_nodes_edit {P : Node → Prop} {edit : Edit} {graph : Graph}
    (h : ∀ node ∈ graph.nodes, P node) (added : ∀ node, edit = .addNode node → P node)
    (renamed : ∀ source target node, P node → P (node.renameOutput source target).1)
    (replaced : ∀ source target exclude, edit = .replaceUses source target exclude →
      ∀ (id : NodeId) (node : Node), graph.nodes[id]? = some node → id ∉ exclude → P node →
        P (node.replaceInput source target).1) :
    ∀ node ∈ (edit.apply graph).nodes, P node := by
  rcases edit.wiring_cases graph with
    ⟨node, rfl⟩ | ⟨id, source, target, rfl⟩ | ⟨source, target, exclude, rfl⟩ | ⟨hnodes, _⟩
  · rw [Edit.apply, addNode_eq]
    exact List.forall_mem_append.mpr ⟨h, List.forall_mem_singleton.mpr (added node rfl)⟩
  · rw [Edit.apply]
    rcases renameOutput_cases id source target graph with heq | ⟨old, hid, _, heq⟩
    · rw [heq]
      exact h
    · rw [heq]
      intro node hnode
      rcases List.mem_or_eq_of_mem_set hnode with hold | rfl
      · exact h node hold
      · exact renamed source target old (h old (List.mem_of_getElem? hid))
  · intro node hnode
    obtain ⟨id, hid⟩ := List.getElem?_of_mem hnode
    rw [Edit.apply, getElem?_replaceUses, Option.map_eq_some_iff] at hid
    obtain ⟨old, hold, rfl⟩ := hid
    have hkept := h old (List.mem_of_getElem? hold)
    split
    · exact hkept
    · next hid => exact replaced source target exclude rfl id old hold hid hkept
  · rw [hnodes]
    exact h

/-! ### Changes of a kind -/

/-- Changes of a kind are changes of a wider kind. -/
theorem Reached.mono {Kind Wider : Graph → Edit → Prop}
    (hwider : ∀ graph edit, Kind graph edit → Wider graph edit) {graph : Graph}
    (h : graph.Reached Kind) : graph.Reached Wider := by
  induction h with
  | empty => exact .empty
  | loaded hload => exact .loaded hload
  | edited _ kind ih => exact .edited ih (hwider _ _ kind)

end Graph

end FixedShape
