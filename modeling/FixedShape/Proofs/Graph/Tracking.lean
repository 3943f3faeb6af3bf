/-
Module: FixedShape.Proofs.Graph.Tracking
Purpose: The producer index of a graph that is changed step by step. A node is listed under a name
  exactly if it writes the name. It is listed once for each slot as long as no rename turns several
  slots of one node at once: such a rename lists the node once, although all the slots follow.
-/
import FixedShape.Proofs.Graph.Edits

namespace FixedShape

namespace Node

@[simp] theorem outputs_replaceInput (source target : String) (node : Node) :
    (node.replaceInput source target).1.outputs = node.outputs := by
  rw [outputs, replaceInput_message]
  rfl

/-- The slots of a node after its outputs were renamed. The empty name has none. -/
theorem slots_renameOutput {source target name : String} (node : Node)
    (h : name = "" → target ≠ "") :
    (node.renameOutput source target).1.slots name =
      (if name = source then 0 else node.slots name) +
        if name = target then node.outputs.count source else 0 := by
  by_cases hname : name = ""
  · subst hname
    rw [slots_empty, slots_empty, ite_self, if_neg (h rfl).symm]
  · rw [slots_of_ne hname, slots_of_ne hname]
    exact Onnx.count_map_rename source target name node.outputs

end Node

namespace Graph

/-! ### One change -/

section

variable {name : String} {graph : Graph}

theorem slotsAt_replaceUses (source target : String) (exclude : List NodeId) (id : NodeId)
    (name : String) :
    slotsAt (graph.replaceUses source target exclude).1.nodes id name =
      slotsAt graph.nodes id name := by
  unfold slotsAt
  rw [getElem?_replaceUses, Option.map_map]
  congr 1
  refine Option.map_congr fun node _ => ?_
  rw [Function.comp_apply]
  split
  · rfl
  · simp only [Node.slots, Node.outputs_replaceInput]

/-- The name of no slot is empty. -/
theorem slotsAt_empty (nodes : List Node) (id : NodeId) : slotsAt nodes id "" = 0 := by
  unfold slotsAt
  cases nodes[id]? with
  | none => rfl
  | some node => exact node.slots_empty

/-- A node that is added is listed under each name once for each slot. -/
theorem counts_addNode (node : Node) (graph : Graph) (name : String) (reader : NodeId) :
    ((graph.addNode node).producers name).count reader =
        (graph.producers name).count reader +
          (if reader = graph.nodes.length then node.slots name else 0) ∧
      slotsAt (graph.addNode node).nodes reader name =
        slotsAt graph.nodes reader name +
          if reader = graph.nodes.length then node.slots name else 0 := by
  constructor
  · rw [producers_addNode, List.count_append, List.count_replicate]
    by_cases hreader : reader = graph.nodes.length
    · simp [hreader]
    · simp [hreader, Ne.symm hreader]
  · rw [addNode_eq]
    exact slotsAt_append_singleton graph.nodes node reader name

/-- Where a change renames an output, the entries and the slots of the node that has it move to the
new name: the entries become one, and the slots stay as many as they were. -/
theorem counts_renameOutput (id : NodeId) (source target : String) (graph : Graph) :
    (graph.renameOutput id source target).1 = graph ∨
      ∃ node, graph.nodes[id]? = some node ∧ source ∈ node.outputs ∧
        ∀ name reader, (name = "" → target ≠ "") →
          ((graph.renameOutput id source target).1.producers name).count reader =
              ((if name = source ∧ reader = id then 0 else (graph.producers name).count reader) +
                if name = target ∧ reader = id then 1 else 0) ∧
            slotsAt (graph.renameOutput id source target).1.nodes reader name =
              (if name = source ∧ reader = id then 0 else slotsAt graph.nodes reader name) +
                if name = target ∧ reader = id then node.outputs.count source else 0 := by
  rcases renameOutput_cases id source target graph with hsame | ⟨node, hnode, hsource, heq⟩
  · exact Or.inl hsame
  · refine Or.inr ⟨node, hnode, hsource, fun name reader hempty => ?_⟩
    rw [heq]
    constructor
    · exact (ProducerIndex.count_get_push _ target name id reader).trans
        (congrArg (· + _) (ProducerIndex.count_get_remove _ source name id reader))
    · obtain ⟨hid, _⟩ := List.getElem?_eq_some_iff.mp hnode
      rw [slotsAt_set hid]
      by_cases hreader : reader = id
      · subst hreader
        rw [if_pos rfl, Node.slots_renameOutput node hempty, slotsAt_of_getElem? hnode]
        simp only [and_true]
      · simp only [hreader, and_false, if_false, Nat.add_zero]

/-- Two changes touch what nodes write or where they are listed, and all others leave both. -/
theorem Edit.writing_cases (edit : Edit) (graph : Graph) :
    (∃ node, edit = .addNode node) ∨ (∃ id source target, edit = .renameOutput id source target) ∨
      ∀ name, (edit.apply graph).producers name = graph.producers name ∧
        ∀ id, slotsAt (edit.apply graph).nodes id name = slotsAt graph.nodes id name := by
  rcases edit.wiring_cases graph with
    hadd | hrename | ⟨source, target, exclude, rfl⟩ | ⟨hnodes, hindex⟩
  · exact Or.inl hadd
  · exact Or.inr (Or.inl hrename)
  · refine Or.inr (Or.inr fun name => ⟨?_, fun id => ?_⟩)
    · rw [Edit.apply, replaceUses_parts]
      rfl
    · exact slotsAt_replaceUses source target exclude id name
  · refine Or.inr (Or.inr fun name => ⟨?_, fun id => ?_⟩)
    · exact congrArg (·.get name) hindex
    · rw [hnodes]

/-! ### Nodes that are listed -/

/-- The index lists no node under a name more often than the node has slots of the name, and lists
every node that has one. -/
def Tracks (graph : Graph) (name : String) : Prop :=
  ∀ id, (graph.producers name).count id ≤ slotsAt graph.nodes id name ∧
    (0 < slotsAt graph.nodes id name → 0 < (graph.producers name).count id)

theorem Indexed.tracks (h : graph.Indexed) (name : String) : graph.Tracks name := by
  intro id
  rw [indexed_iff_count.mp h]
  exact ⟨Nat.le_refl _, fun hpos => hpos⟩

theorem indexed_empty : ({} : Graph).Indexed := fun _ => .nil

/-- A change keeps the nodes of a name listed. Only a rename to the empty name, which no node writes,
is let out for that name. -/
theorem Tracks.edit (h : graph.Tracks name) (edit : Edit)
    (hempty : name = "" → ∀ id source, edit ≠ .renameOutput id source "") :
    (edit.apply graph).Tracks name := by
  intro reader
  obtain ⟨hle, hpos⟩ := h reader
  rcases edit.writing_cases graph with ⟨node, rfl⟩ | ⟨id, source, target, rfl⟩ | hsame
  · obtain ⟨hlisted, hslots⟩ := counts_addNode node graph name reader
    rw [Edit.apply, hlisted, hslots]
    omega
  · rw [Edit.apply]
    rcases counts_renameOutput id source target graph with heq | ⟨node, _, hsource, hcounts⟩
    · rw [heq]
      exact ⟨hle, hpos⟩
    · have hone : 0 < node.outputs.count source := List.count_pos_iff.mpr hsource
      obtain ⟨hlisted, hslots⟩ := hcounts name reader fun hname htarget =>
        hempty hname id source (htarget ▸ rfl)
      -- One entry comes in for all slots that follow, so the counts agree only as bounds.
      rw [hlisted, hslots]
      split <;> split <;> omega
  · rw [(hsame name).1, (hsame name).2 reader]
    exact ⟨hle, hpos⟩

/-- A change that renames no more than one slot of a node. -/
def Edit.Single (graph : Graph) : Edit → Prop
  | .renameOutput id source _ =>
    ∀ node, graph.nodes[id]? = some node → node.outputs.count source ≤ 1
  | _ => True

/-- A change that renames single slots keeps a graph indexed. -/
theorem Indexed.edit (h : graph.Indexed) {edit : Edit} (hsingle : edit.Single graph)
    (hempty : ∀ id source, edit ≠ .renameOutput id source "") : (edit.apply graph).Indexed := by
  rcases edit.writing_cases graph with ⟨node, rfl⟩ | ⟨id, source, target, rfl⟩ | hsame
  · exact h.addNode node
  · rw [Edit.apply]
    rcases counts_renameOutput id source target graph with heq | ⟨node, hnode, hsource, hcounts⟩
    · rw [heq]
      exact h
    · have hone : node.outputs.count source = 1 :=
        Nat.le_antisymm (hsingle node hnode) (List.count_pos_iff.mpr hsource)
      refine indexed_iff_count.mpr fun name reader => ?_
      obtain ⟨hlisted, hslots⟩ := hcounts name reader fun _ htarget =>
        hempty id source (htarget ▸ rfl)
      rw [hlisted, hslots, hone, indexed_iff_count.mp h]
  · refine indexed_iff_count.mpr fun name id => ?_
    rw [(hsame name).1, (hsame name).2 id]
    exact indexed_iff_count.mp h name id

/-- A graph that comes about by changes lists the nodes of a name, if it is not the empty name or
no output is renamed to that. -/
theorem Reached.tracks {Kind : Graph → Edit → Prop} (h : graph.Reached Kind)
    (hempty : name = "" → ∀ graph edit, Kind graph edit →
      ∀ id source, edit ≠ .renameOutput id source "") : graph.Tracks name := by
  induction h with
  | empty => exact indexed_empty.tracks name
  | loaded hload => exact (loadedFrom_of_ofMessage hload).indexed.tracks name
  | edited _ kind ih => exact ih.edit _ fun hname => hempty hname _ _ kind

/-- A graph lists under a name the nodes that write it. -/
theorem Tracks.mem_producers (h : graph.Tracks name) {id : NodeId} :
    id ∈ graph.producers name ↔ ∃ node, graph.nodes[id]? = some node ∧ node.Writes name := by
  obtain ⟨hle, hpos⟩ := h id
  rw [← List.count_pos_iff, ← slotsAt_pos_iff]
  exact ⟨fun hlisted => Nat.lt_of_lt_of_le hlisted hle, hpos⟩

/-- A name that is written is listed. -/
theorem Tracks.length_producers_pos (h : graph.Tracks name)
    (hwritten : ∃ node ∈ graph.nodes, node.Writes name) :
    0 < (graph.producers name).length := by
  obtain ⟨node, hnode, hwrites⟩ := hwritten
  obtain ⟨id, hid⟩ := List.getElem?_of_mem hnode
  exact List.length_pos_of_mem (h.mem_producers.mpr ⟨node, hid, hwrites⟩)

/-- A name is listed no more often than it fills slots. -/
theorem Tracks.length_producers_le (h : graph.Tracks name) (hname : name ≠ "") :
    (graph.producers name).length ≤ (graph.nodes.flatMap Node.outputs).count name := by
  rw [← length_writers hname]
  refine (List.subperm_ext_iff.mpr fun id _ => ?_).length_le
  rw [count_writers]
  exact (h id).1

/-- The index is complete if no name fills several slots. -/
theorem indexed_of_tracks (h : ∀ name, graph.Tracks name)
    (hone : ∀ name, name ≠ "" → (graph.nodes.flatMap Node.outputs).count name ≤ 1) :
    graph.Indexed := by
  refine indexed_iff_count.mpr fun name id => ?_
  obtain ⟨hle, hpos⟩ := h name id
  have hslots : slotsAt graph.nodes id name ≤ 1 := by
    by_cases hname : name = ""
    · subst hname
      rw [slotsAt_empty]
      exact Nat.zero_le 1
    · rw [← count_writers]
      exact Nat.le_trans List.count_le_length (length_writers hname ▸ hone name hname)
  omega

/-- However a graph was changed, a node is a producer of a name exactly if the name is among its
outputs. -/
theorem producers_track_nodes (h : graph.Reached fun _ _ => True) (hname : name ≠ "")
    (id : NodeId) :
    id ∈ graph.producers name ↔
      ∃ hid : id < graph.nodes.length, name ∈ graph.nodes[id].outputs := by
  have htracks : graph.Tracks name := h.tracks fun heq => absurd heq hname
  rw [htracks.mem_producers]
  constructor
  · rintro ⟨node, hnode, hwrites⟩
    obtain ⟨hid, rfl⟩ := List.getElem?_eq_some_iff.mp hnode
    exact ⟨hid, hwrites.2⟩
  · rintro ⟨hid, hmem⟩
    exact ⟨graph.nodes[id], List.getElem?_eq_getElem hid, hname, hmem⟩

/-- A node that writes one name in two slots. -/
def halves : Node := ((Node.new "Split").withInput "x").withOutput "a" |>.withOutput "a"

/-- Both slots of a node are renamed, once to the new name and once to that name again. -/
theorem producers_track_halves :
    let renamed := (Edit.renameOutput 0 "a" "b").apply ((Edit.addNode halves).apply {})
    let graph := (Edit.renameOutput 0 "b" "b").apply renamed
    graph.Reached (fun _ _ => True) ∧ graph.producers "a" = [] ∧ graph.producers "b" = [0] ∧
      ∀ id, id ∈ graph.producers "b" ↔
        ∃ hid : id < graph.nodes.length, "b" ∈ graph.nodes[id].outputs := by
  intro renamed graph
  have hreached : graph.Reached fun _ _ => True :=
    .edited (.edited (.edited .empty trivial) trivial) trivial
  exact ⟨hreached, by decide, by decide, producers_track_nodes hreached (by decide)⟩

end

end Graph

end FixedShape
