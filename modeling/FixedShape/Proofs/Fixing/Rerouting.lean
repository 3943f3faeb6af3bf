/-
Module: FixedShape.Proofs.Fixing.Rerouting
Purpose: A value gets another name. The node that writes it, every node that reads it and its
  declaration follow, so that in the graph after it one name stands where another stood.
-/
import FixedShape.Proofs.Graph.Captures
import FixedShape.Proofs.Graph.Coherent

namespace FixedShape

namespace Node

/-- Lets a node write and read `target` in place of `source`. -/
def redirect (source target : String) (node : Node) : Node :=
  ((node.renameOutput source target).1.replaceInput source target).1

section

variable {source target : String} {node : Node}

theorem renameOutput_of_not_mem (h : source ∉ node.outputs) :
    (node.renameOutput source target).1 = node := by
  rw [renameOutput, Onnx.map_rename_of_not_mem h]
  rcases node with ⟨message, captures⟩
  cases message
  rfl

/-- A redirected node, part by part. -/
theorem message_redirect :
    (node.redirect source target).message =
      { node.message with
        inputs := node.inputs.map (Onnx.rename source target)
        outputs := node.outputs.map (Onnx.rename source target)
        attributes :=
          if source ∈ node.captures then
            Onnx.renameAttributes source target node.message.attributes
          else node.message.attributes } := by
  unfold redirect
  rw [replaceInput_message]
  rfl

theorem outputs_redirect :
    (node.redirect source target).outputs = node.outputs.map (Onnx.rename source target) := by
  rw [outputs, message_redirect]

theorem inputs_redirect :
    (node.redirect source target).inputs = node.inputs.map (Onnx.rename source target) := by
  rw [inputs, message_redirect]

theorem opType_redirect : (node.redirect source target).opType = node.opType := by
  rw [opType, message_redirect]
  rfl

/-- Without captures there is nothing to rename in the settings. -/
theorem attributes_redirect (h : node.captures = []) :
    (node.redirect source target).message.attributes = node.message.attributes := by
  rw [message_redirect, h]
  dsimp only
  rw [if_neg List.not_mem_nil]

/-- The captures of a redirected node are the captures redirected. -/
theorem captures_redirect (hnodup : node.captures.Nodup) (htarget : target ∉ node.captures) :
    (node.redirect source target).captures = node.captures.map (Onnx.rename source target) := by
  rw [← Onnx.replace_eq_map_rename hnodup]
  unfold redirect replaceInput
  by_cases hsource : source ∈ node.captures
  · simp [renameOutput, hsource, htarget]
  · simp [renameOutput, hsource, List.replace_of_not_mem]

/-- Redirecting keeps captures free of repetitions, whether the new name is among them or not. -/
theorem nodup_captures_redirect (h : node.captures.Nodup) :
    (node.redirect source target).captures.Nodup :=
  @nodup_captures_replaceInput source target (node.renameOutput source target).1 h

/-- A redirected node depends on what the node depended on, redirected. -/
theorem dependencies_redirect (hnodup : node.captures.Nodup) (hcaptures : target ∉ node.captures)
    (hsource : source ≠ "") (htarget : target ≠ "") :
    (node.redirect source target).dependencies =
      node.dependencies.map (Onnx.rename source target) := by
  unfold dependencies
  rw [inputs_redirect, captures_redirect hnodup hcaptures, List.map_append, List.filter_map]
  simp [Function.comp_def, Onnx.rename_eq_empty hsource htarget]

/-- A redirected node depends on what the node depended on, redirected, also where its subgraphs
read the new name already. -/
theorem mem_dependencies_redirect {name : String} (hnodup : node.captures.Nodup)
    (hne : source ≠ target) (hsource : source ≠ "") (htarget : target ≠ "") :
    name ∈ (node.redirect source target).dependencies ↔
      ∃ old ∈ node.dependencies, Onnx.rename source target old = name :=
  -- Renaming outputs leaves what a node depends on.
  @mem_dependencies_replaceInput source target (node.renameOutput source target).1 name hnodup hne
    hsource htarget

theorem writes_redirect {name : String} (hsource : source ≠ "") (htarget : target ≠ "") :
    (node.redirect source target).Writes name ↔
      ∃ old, node.Writes old ∧ Onnx.rename source target old = name := by
  unfold Writes
  rw [outputs_redirect, List.mem_map]
  constructor
  · rintro ⟨hname, old, hold, rfl⟩
    refine ⟨old, ⟨?_, hold⟩, rfl⟩
    rintro rfl
    exact hname (Onnx.rename_of_ne hsource.symm)
  · rintro ⟨old, ⟨hne, hold⟩, rfl⟩
    exact ⟨fun hempty => hne ((Onnx.rename_eq_empty hsource htarget).mp hempty), old, hold, rfl⟩

end

end Node

namespace Graph

section

variable {source target : String} {graph : Graph}

/-- Replacing uses everywhere, if the new name is in use already. -/
theorem replaceUses_eq (hused : target ∈ graph.names) :
    (graph.replaceUses source target []).1 =
      { graph with nodes := graph.nodes.map fun node => (node.replaceInput source target).1 } := by
  unfold replaceUses
  simp only [List.not_mem_nil, if_false, List.map_map, reserve_eq, List.insert_of_mem hused,
    ite_self]
  rw [← map_indexedNodes]
  rfl

theorem renameValueInfo_eq (hused : target ∈ graph.names) :
    (graph.renameValueInfo source target).1 =
      { graph with
        valueInfo := modifyInfo source ({ · with name := target }) graph.valueInfo } := by
  unfold renameValueInfo
  split
  · next hnone =>
      rw [modifyInfo_eq_self hnone]
  · rw [reserve_eq, List.insert_of_mem hused]

/-- If one node writes a name, renaming the output of that node renames it at every node. -/
theorem renameOutput_eq {id : NodeId} (indexed : graph.Indexed)
    (hproducer : graph.producers source = [id]) (hused : target ∈ graph.names) :
    (graph.renameOutput id source target).1 =
      { graph with
        nodes := graph.nodes.map fun node => (node.renameOutput source target).1
        producerIndex := (graph.producerIndex.remove source id).push target id } := by
  have hid : id ∈ graph.producers source := by
    rw [hproducer]
    exact List.mem_singleton_self id
  obtain ⟨node, hnode, hwrites⟩ := indexed.mem_producers.mp hid
  have hnodes : graph.nodes.set id (node.renameOutput source target).1 =
      graph.nodes.map fun node => (node.renameOutput source target).1 := by
    refine List.ext_getElem? fun position => ?_
    rw [List.getElem?_set, List.getElem?_map]
    split
    · next heq =>
        subst heq
        rw [hnode, if_pos (List.getElem?_eq_some_iff.mp hnode).1, Option.map_some]
    · next hne =>
        cases hother : graph.nodes[position]? with
        | none => rfl
        | some other =>
            have hother' : source ∉ other.outputs := by
              intro hmem
              have hposition := indexed.mem_producers.mpr ⟨other, hother, hwrites.1, hmem⟩
              rw [hproducer, List.mem_singleton] at hposition
              exact hne hposition.symm
            rw [Option.map_some, Node.renameOutput_of_not_mem hother']
  unfold renameOutput node?
  rw [hnode]
  have hrenamed : (node.renameOutput source target).2 = true := decide_eq_true hwrites.2
  simp only [hrenamed, if_true, hnodes, reserve_eq, List.insert_of_mem hused]

/-- Changes a name at the node that writes it, where it is read and where it is declared. -/
def reroute (id : NodeId) (source target : String) (graph : Graph) : Graph :=
  (((graph.renameOutput id source target).1.replaceUses source target []).1.renameValueInfo
    source target).1

/-- A name that one node writes is redirected at every node. -/
theorem reroute_eq {id : NodeId} (indexed : graph.Indexed)
    (hproducer : graph.producers source = [id]) (hused : target ∈ graph.names) :
    graph.reroute id source target =
      { graph with
        nodes := graph.nodes.map (Node.redirect source target)
        producerIndex := (graph.producerIndex.remove source id).push target id
        valueInfo := modifyInfo source ({ · with name := target }) graph.valueInfo } := by
  have houtput := renameOutput_eq indexed hproducer hused
  have hreserved : target ∈ (graph.renameOutput id source target).1.names := by
    rw [houtput]
    exact hused
  have huses := @replaceUses_eq source _ _ hreserved
  have hreplaced : target ∈
      ((graph.renameOutput id source target).1.replaceUses source target []).1.names := by
    rw [huses]
    exact hreserved
  rw [reroute, renameValueInfo_eq hreplaced, huses, houtput, List.map_map]
  rfl

end

/-- A renaming at every node that brings no writer in moves the writers of one name to another. -/
theorem writers_map {nodes : List Node} {f : Node → Node} {name old : String}
    (h : ∀ node ∈ nodes, (f node).slots name = node.slots old) :
    writers (nodes.map f) name = writers nodes old := by
  induction nodes using List.reverseRecOn with
  | nil => rfl
  | append_singleton nodes node ih =>
      rw [List.map_append, List.map_singleton, writers_append_singleton,
        writers_append_singleton, List.length_map, h node (by simp), ih]
      intro other hother
      exact h other (List.mem_append_left _ hother)

/-- A graph stays indexed if a name that one node writes becomes one that no node writes. -/
theorem Indexed.reroute {graph : Graph} (indexed : graph.Indexed) {id : NodeId}
    {source target : String} (hproducer : graph.producers source = [id])
    (hused : target ∈ graph.names) (hnew : ∀ node ∈ graph.nodes, target ∉ node.outputs)
    (hsource : source ≠ "") (htarget : target ≠ "") (hne : source ≠ target) :
    (graph.reroute id source target).Indexed := by
  rw [reroute_eq indexed hproducer hused]
  intro name
  have hget : producers
      { graph with
        nodes := graph.nodes.map (Node.redirect source target)
        producerIndex := (graph.producerIndex.remove source id).push target id
        valueInfo := modifyInfo source ({ · with name := target }) graph.valueInfo } name =
      if name = target then [id] else if name = source then [] else graph.producers name := by
    have hunwritten : graph.producerIndex.get target = [] :=
      indexed.producers_eq_nil.mpr fun node hnode hwrites => hnew node hnode hwrites.2
    have hlast : graph.producerIndex.get source = [id] := hproducer
    unfold producers
    rw [ProducerIndex.get_push, ProducerIndex.get_remove, ProducerIndex.get_remove,
      if_neg hne.symm, hunwritten, hlast]
    simp
  rw [hget]
  by_cases hname : name = target
  · subst hname
    rw [if_pos rfl, ← hproducer]
    refine (indexed source).trans (.of_eq (writers_map fun node hnode => ?_).symm)
    rw [Node.slots_of_ne htarget, Node.slots_of_ne hsource, Node.outputs_redirect,
      Onnx.count_target_map_rename (hnew node hnode)]
  · rw [if_neg hname]
    by_cases hold : name = source
    · subst hold
      rw [if_pos rfl]
      refine .of_eq (List.eq_nil_iff_forall_not_mem.mpr fun position hposition => ?_).symm
      obtain ⟨node, hnode, hwrites⟩ := mem_writers.mp hposition
      rw [List.getElem?_map, Option.map_eq_some_iff] at hnode
      obtain ⟨old, _, rfl⟩ := hnode
      rw [Node.Writes, Node.outputs_redirect] at hwrites
      exact Onnx.not_mem_map_rename old.outputs hne hwrites.2
    · rw [if_neg hold]
      refine (indexed name).trans (.of_eq (writers_map fun node _ => ?_).symm)
      by_cases hempty : name = ""
      · subst hempty
        rw [Node.slots_empty, Node.slots_empty]
      · rw [Node.slots_of_ne hempty, Node.slots_of_ne hempty, Node.outputs_redirect,
          Onnx.count_map_rename_of_ne _ hold hname]

/-- Renaming a value that one node writes keeps a graph coherent, if the new name is in use but
no node writes it. -/
theorem Coherent.reroute {graph : Graph} (h : graph.Coherent) {id : NodeId}
    {source target : String} (hproducer : graph.producers source = [id])
    (hused : target ∈ graph.names) (hnew : ∀ node ∈ graph.nodes, target ∉ node.outputs)
    (hsource : source ≠ "") (htarget : target ≠ "") (hne : source ≠ target) :
    (graph.reroute id source target).Coherent := by
  have hindexed := h.indexed.reroute hproducer hused hnew hsource htarget hne
  rw [reroute_eq h.indexed hproducer hused] at hindexed ⊢
  refine ⟨hindexed, ⟨h.reserved.inputs, h.reserved.outputs, ?_, h.reserved.initializers, ?_⟩, ?_⟩
  · exact forall_mem_modifyInfo h.reserved.valueInfo fun _ _ => hused
  · intro node hnode name hmem hname
    obtain ⟨old, hold, rfl⟩ := List.mem_map.mp hnode
    rcases Node.mentions_replaceInput hmem with hrenamed | rfl
    · rcases Node.mentions_renameOutput hrenamed with hmention | rfl
      · exact h.reserved.nodes old hold name hmention hname
      · exact hused
    · exact hused
  · intro node hnode
    obtain ⟨old, hold, rfl⟩ := List.mem_map.mp hnode
    exact Node.nodup_captures_redirect (h.captures_nodup old hold)

end Graph

end FixedShape
