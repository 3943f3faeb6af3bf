/-
Module: FixedShape.Proofs.Graph.Rewiring
Purpose: A node is rewired from one name to another. What it reads follows, itself and in its
  subgraphs, and the list of captures, which tells whether the subgraphs are looked into, leaves none
  of them out.
-/
import FixedShape.Proofs.Graph.Captures
import FixedShape.Proofs.Onnx.Substitution

namespace FixedShape

namespace Node

section

variable {source target : String} {node : Node}

theorem message_replaceInput_of_captured (h : source ∈ node.captures) :
    (node.replaceInput source target).1.message = node.message.renameReads source target := by
  rw [replaceInput_message, if_pos h]
  rfl

theorem message_replaceInput_of_not_captured (h : source ∉ node.captures) :
    (node.replaceInput source target).1.message =
      { node.message with inputs := node.message.inputs.map (Onnx.rename source target) } := by
  rw [replaceInput_message, if_neg h]
  rfl

/-- Where the list of captures is accurate, what it does not list is free in no subgraph. -/
theorem Accurate.not_free (h : node.Accurate fun _ => False) (hsource : source ∉ node.captures) :
    ∀ graph ∈ node.message.subgraphs, ¬ graph.Free source := by
  intro graph hgraph hfree
  refine hsource ((h.mem_iff source).mpr ?_)
  exact Onnx.Node.mem_captures_iff.mpr ⟨graph, hgraph, hfree.reads⟩

/-- Replacing a read rewires a node whose list of captures is accurate. -/
theorem Accurate.rewired (h : node.Accurate fun _ => False) (hsource : source ≠ "")
    (htarget : target ≠ "") (hfree : ¬ node.message.Binds target) :
    node.message.Rewired source target (node.replaceInput source target).1.message := by
  by_cases hcaptured : source ∈ node.captures
  · rw [message_replaceInput_of_captured hcaptured]
    refine { inputs := rfl, subgraphs := ?_, kept := ?_, untouched := ?_ }
    · rw [Onnx.Node.subgraphs_renameReads]
      refine List.forall₂_map_right_iff.mpr (List.forall₂_same.mpr fun graph hgraph => ?_)
      exact Onnx.Graph.substituted_renameFree hsource htarget fun hbinds =>
        hfree ⟨graph, hgraph, hbinds⟩
    · rw [Onnx.Node.unread, Onnx.Node.renameReads, Onnx.unread_renameAttributes]
      rfl
    · intro _ hnone
      exact absurd ((h.mem_iff source).mp hcaptured) hnone
  · have hmessage := @message_replaceInput_of_not_captured source target node hcaptured
    refine { inputs := ?_, subgraphs := ?_, kept := ?_, untouched := fun hinputs _ => ?_ }
    · rw [hmessage]
    · rw [hmessage]
      exact List.forall₂_same.mpr fun graph hgraph =>
        Onnx.Graph.substituted_self hsource (h.not_free hcaptured graph hgraph)
    · rw [hmessage]
      rfl
    · rw [replaceInput_eq_self hinputs hcaptured]

theorem mem_dependencies_iff (hsource : source ≠ "") :
    source ∈ node.dependencies ↔ source ∈ node.inputs ∨ source ∈ node.captures := by
  unfold dependencies
  rw [List.mem_append, List.mem_filter, decide_eq_true hsource, and_iff_left rfl]

/-- Rewiring a node is a substitution that captures nothing, in its inputs and in its subgraphs at
any depth. Its dependencies follow, and it tells whether it depended on the old name. -/
theorem replaceInput_substitutes (made : node.Made fun _ => False) (source_ne : source ≠ "")
    (target_ne : target ≠ "") (apart : target ≠ source) (unbound : ¬ node.message.Binds target) :
    node.message.Rewired source target (node.replaceInput source target).1.message ∧
      (∀ name, name ∈ (node.replaceInput source target).1.dependencies ↔
        ∃ old ∈ node.dependencies, Onnx.rename source target old = name) ∧
      ((node.replaceInput source target).2 = true ↔ source ∈ node.dependencies) := by
  refine ⟨made.accurate.rewired source_ne target_ne unbound, fun name => ?_,
    replaceInput_replaced.trans (mem_dependencies_iff source_ne).symm⟩
  exact mem_dependencies_replaceInput made.accurate.nodup apart.symm source_ne target_ne

end

/-- A branch that reads a name itself, lets one subgraph read it and hides it from another. -/
def shadowing : Onnx.Graph :=
  let reader : Onnx.Graph :=
    { nodes := [{ opType := some "Add", inputs := ["v", "a"], outputs := ["b"] }]
      outputs := [{ name := some "b" }] }
  let shadow : Onnx.Graph :=
    { inputs := [{ name := some "v" }], outputs := [{ name := some "v" }] }
  { nodes :=
      [{ opType := some "Relu", inputs := ["v"], outputs := ["a"] },
        { opType := some "If", attributes := [{ g := some reader }, { g := some shadow }] }]
    outputs := [{ name := some "v" }] }

theorem replaceInput_substitutes_shadowing :
    let node := ((new "If").withInput "v").withAttr "then_branch" (.graph shadowing)
    let after := (node.replaceInput "v" "u").1
    (node.Made fun _ => False) ∧ ¬ node.message.Binds "u" ∧
      (after.message.subgraphs.map fun graph =>
        [.input 0 0, .inside 1 0 (.input 0 0), .inside 1 1 (.output 0), .output 0].map graph.readAt) =
          [[some "u", some "u", some "v", some "u"]] ∧
      node.message.Rewired "v" "u" after.message ∧
      (∀ name, name ∈ after.dependencies ↔
        ∃ old ∈ node.dependencies, Onnx.rename "v" "u" old = name) ∧
      ((node.replaceInput "v" "u").2 = true ↔ "v" ∈ node.dependencies) := by
  intro node after
  have hmade : node.Made fun _ => False := .withAttr _ _ (.withInput _ (.new _))
  have hunbound : ¬ node.message.Binds "u" := fun hbinds =>
    absurd hbinds.mem_scopedNames (by decide)
  exact ⟨hmade, hunbound, by decide,
    replaceInput_substitutes hmade (by decide) (by decide) (by decide) hunbound⟩

end Node

namespace Graph

theorem LoadedFrom.accurate {message : Onnx.Graph} {graph : Graph}
    (h : graph.LoadedFrom message) : ∀ node ∈ graph.nodes, node.Accurate fun _ => False := by
  rw [h.nodes_eq]
  exact List.forall_mem_map.mpr fun node _ => Node.accurate_ofMessage node

/-! ### Consumers -/

section

variable {graph : Graph} {name : String}

theorem mem_consumers {id : NodeId} :
    id ∈ graph.consumers name ↔
      ∃ node, graph.nodes[id]? = some node ∧ name ∈ node.dependencies := by
  unfold consumers
  simp only [List.mem_map, List.mem_filter, decide_eq_true_eq, Prod.exists, mem_indexedNodes,
    exists_and_right, exists_eq_right]

/-- The consumers of a name follow from what each node depends on. -/
theorem consumers_eq_of_dependencies {before after : Graph}
    (h : after.nodes.map Node.dependencies = before.nodes.map Node.dependencies) :
    after.consumers name = before.consumers name := by
  have hconsumers : ∀ graph : Graph, graph.consumers name =
      ((graph.nodes.map Node.dependencies).zipIdx.filter fun entry => name ∈ entry.1).map (·.2) := by
    intro graph
    unfold consumers indexedNodes
    rw [List.zipIdx_map, List.filter_map, List.filter_map, List.map_map, List.map_map]
    rfl
  rw [hconsumers, hconsumers, h]

/-- Renaming an output leaves the consumers of every name. -/
theorem consumers_renameOutput (id : NodeId) (source target : String) :
    (graph.renameOutput id source target).1.consumers name = graph.consumers name := by
  rcases renameOutput_cases id source target graph with heq | ⟨node, hid, _, heq⟩
  · rw [heq]
  · rw [heq]
    refine consumers_eq_of_dependencies ?_
    have hdependencies : (node.renameOutput source target).1.dependencies = node.dependencies := rfl
    rw [List.map_set, hdependencies]
    refine List.ext_getElem? fun position => ?_
    rw [List.getElem?_set]
    split
    · next hposition =>
        subst hposition
        obtain ⟨hlt, rfl⟩ := List.getElem?_eq_some_iff.mp hid
        rw [if_pos (by rwa [List.length_map]), List.getElem?_map, hid, Option.map_some]
    · rfl

/-- The nodes that are told are the consumers of the name outside the excluded ones. -/
theorem ids_replaceUses_eq_filter {source : String} (hsource : source ≠ "") (target : String)
    (exclude : List NodeId) :
    (graph.replaceUses source target exclude).2 =
      (graph.consumers source).filter (· ∉ exclude) := by
  rw [ids_replaceUses]
  unfold consumers
  rw [List.filter_map, List.filter_filter]
  simp only [Function.comp_def, Node.mem_dependencies_iff hsource, Bool.decide_and]

/-- Replacing a read everywhere tells the consumers of the name. -/
theorem ids_replaceUses_eq_consumers {source : String} (hsource : source ≠ "") (target : String) :
    (graph.replaceUses source target []).2 = graph.consumers source := by
  rw [ids_replaceUses_eq_filter hsource]
  simp

end

end Graph

end FixedShape
