/-
Module: FixedShape.Proofs.Graph.Consumers
Purpose: The consumers of a name when its uses are replaced. The nodes that are told leave the old
  name and come to the new one, and no other consumer changes. This rests on the lists of captures:
  one that named a value twice would keep a use that was replaced.
-/
import FixedShape.Proofs.Graph.Rewiring
import FixedShape.Proofs.Graph.Tracking
import Mathlib.Data.List.Sort

namespace FixedShape

namespace Node

/-- The nodes that can be given to a graph: built part by part, or read, and then changed as graphs
change theirs, by any names. -/
inductive Offered : Node → Prop where
  | new (opType : String) : Offered (.new opType)
  | ofMessage (message : Onnx.Node) : Offered (.ofMessage message)
  | withName {node : Node} (name : String) (offered : Offered node) : Offered (node.withName name)
  | withInput {node : Node} (name : String) (offered : Offered node) :
      Offered (node.withInput name)
  | withOutput {node : Node} (name : String) (offered : Offered node) :
      Offered (node.withOutput name)
  | withAttr {node : Node} (name : String) (value : AttrValue) (offered : Offered node) :
      Offered (node.withAttr name value)
  | renameOutput {node : Node} (source target : String) (offered : Offered node) :
      Offered (node.renameOutput source target).1
  | replaceInput {node : Node} (source target : String) (offered : Offered node) :
      Offered (node.replaceInput source target).1

/-- However a node came about, it lists no capture twice. -/
theorem Offered.captures_nodup {node : Node} (h : node.Offered) : node.captures.Nodup := by
  induction h with
  | new opType => exact List.nodup_nil
  | ofMessage message => exact Onnx.nodup_captures message
  | withName _ _ ih => exact ih
  | withInput _ _ ih => exact ih
  | withOutput _ _ ih => exact ih
  | withAttr name value _ ih =>
      cases value with
      | graph body => exact Onnx.nodup_addCaptures ih body
      | _ => exact ih
  | renameOutput source target _ ih => exact ih
  | replaceInput source target _ ih => exact nodup_captures_replaceInput ih

end Node

namespace Graph

/-- All changes that a graph offers, with nodes that can be given to it. -/
def Edit.Offered (_ : Graph) : Edit → Prop
  | .addNode node => node.Offered
  | _ => True

section

variable {graph : Graph}

theorem Reached.addNode (h : graph.Reached Edit.Offered) {node : Node} (offered : node.Offered) :
    (graph.addNode node).Reached Edit.Offered :=
  .edited h (show Edit.Offered graph (.addNode node) from offered)

/-- However a graph was changed, no node lists a capture twice. -/
theorem Reached.captures_nodup (h : graph.Reached Edit.Offered) :
    ∀ node ∈ graph.nodes, node.captures.Nodup := by
  induction h with
  | empty => exact List.forall_mem_nil _
  | loaded hload =>
      exact fun node hnode => ((loadedFrom_of_ofMessage hload).accurate node hnode).nodup
  | edited _ hedit ih =>
      refine forall_mem_nodes_edit ih ?_ (fun _ _ _ hnodup => hnodup) ?_
      · rintro node rfl
        exact hedit.captures_nodup
      · exact fun _ _ _ _ _ _ _ _ => Node.nodup_captures_replaceInput

/-! ### Consumers -/

/-- The consumers of a name are listed in ascending order, each once. -/
theorem pairwise_consumers (graph : Graph) (name : String) :
    (graph.consumers name).Pairwise (· < ·) := by
  have hids : graph.indexedNodes.map (·.1) = List.range' 0 graph.nodes.length := by
    unfold indexedNodes
    rw [List.map_map]
    exact List.zipIdx_map_snd 0 graph.nodes
  refine List.Pairwise.sublist (List.filter_sublist.map _) ?_
  rw [hids]
  exact List.pairwise_lt_range'

/-- The consumers of a name are a part of those of another, in their order, if their members are. -/
theorem consumers_eq_filter {before after : Graph} {name other : String} {p : NodeId → Prop}
    [DecidablePred p]
    (h : ∀ id, id ∈ after.consumers name ↔ id ∈ before.consumers other ∧ p id) :
    after.consumers name = (before.consumers other).filter p := by
  refine (after.pairwise_consumers name).eq_of_mem_iff
    ((before.pairwise_consumers other).filter _) fun id => ?_
  rw [h, List.mem_filter, decide_eq_true_eq]

section

variable {source target : String} {exclude : List NodeId}

/-- After a replacement, an excluded node consumes what it did before. Any other consumes the new name
if it consumed the old one, and all but the old one that it consumed before. -/
theorem mem_consumers_replaceUses {name : String} {id : NodeId}
    (nodup : ∀ node ∈ graph.nodes, node.captures.Nodup) (source_ne : source ≠ "")
    (target_ne : target ≠ "") (apart : source ≠ target) :
    id ∈ (graph.replaceUses source target exclude).1.consumers name ↔
      if id ∈ exclude then id ∈ graph.consumers name
      else (id ∈ graph.consumers source ∧ name = target) ∨
        (id ∈ graph.consumers name ∧ name ≠ source) := by
  rw [mem_consumers, getElem?_replaceUses]
  simp only [mem_consumers]
  cases hnode : graph.nodes[id]? with
  | none => simp
  | some node =>
      have hnodup := nodup node (List.mem_of_getElem? hnode)
      simp only [Option.map_some, Option.some.injEq, exists_eq_left']
      split
      · exact Iff.rfl
      · rw [Node.mem_dependencies_replaceInput hnodup apart source_ne target_ne,
          Onnx.exists_rename_eq]

/-- What replacing the uses of a name does to the consumers of all names, and what it leaves. -/
structure ConsumersMoved (source target : String) (exclude : List NodeId) (before after : Graph)
    (moved : List NodeId) : Prop where
  moved_eq : moved = (before.consumers source).filter (· ∉ exclude)
  moved_ascending : moved.Pairwise (· < ·)
  source_eq : after.consumers source = (before.consumers source).filter (· ∈ exclude)
  target_iff : ∀ id, id ∈ after.consumers target ↔ id ∈ before.consumers target ∨ id ∈ moved
  others_eq : ∀ name, name ≠ source → name ≠ target →
    after.consumers name = before.consumers name
  producers_eq : ∀ name, after.producers name = before.producers name
  outputs_eq : after.nodes.map Node.outputs = before.nodes.map Node.outputs

/-- However a graph was changed, replacing the uses of a name outside some nodes moves the other
consumers of the name to the new one, tells them, and moves nothing else. -/
theorem replaceUses_moves_consumers (reached : graph.Reached Edit.Offered) (source_ne : source ≠ "")
    (target_ne : target ≠ "") (apart : source ≠ target) (exclude : List NodeId) :
    ConsumersMoved source target exclude graph (graph.replaceUses source target exclude).1
      (graph.replaceUses source target exclude).2 := by
  have hmoved := @ids_replaceUses_eq_filter graph source source_ne target exclude
  have hmem : ∀ {name id}, id ∈ (graph.replaceUses source target exclude).1.consumers name ↔ _ :=
    mem_consumers_replaceUses reached.captures_nodup source_ne target_ne apart
  refine
    { moved_eq := hmoved
      moved_ascending := hmoved ▸ (graph.pairwise_consumers source).filter _
      source_eq := consumers_eq_filter fun id => ?source
      target_iff := fun id => ?target
      others_eq := fun name hsource htarget => ?others
      producers_eq := fun name => by rw [replaceUses_parts]; rfl
      outputs_eq := ?outputs }
  case source =>
    rw [hmem]
    by_cases hid : id ∈ exclude
    · simp [hid]
    · simp [hid, apart]
  case target =>
    rw [hmem, hmoved, List.mem_filter, decide_eq_true_eq]
    by_cases hid : id ∈ exclude
    · simp [hid]
    · simp [hid, apart.symm, or_comm]
  case others =>
    refine (pairwise_consumers _ name).eq_of_mem_iff (pairwise_consumers _ name) fun id => ?_
    rw [hmem]
    simp [hsource, htarget]
  case outputs =>
    rw [nodes_replaceUses, List.map_map, ← map_indexedNodes]
    refine List.map_congr_left fun entry _ => ?_
    rw [Function.comp_apply]
    split
    · rfl
    · exact Node.outputs_replaceInput source target entry.2

/-- Of four readers of a name one is excluded, one reads it and the new name, one reads it in a branch
beside the new name, and one in a branch alone. -/
theorem replaceUses_moves_consumers_branch :
    let branch (reads : List String) : AttrValue :=
      .graph { nodes := [{ opType := some "Add", inputs := reads, outputs := ["r"] }] }
    let nodes : List Node :=
      [(Node.new "Relu").withInput "v", ((Node.new "Add").withInput "v").withInput "u",
        (Node.new "If").withAttr "then_branch" (branch ["u", "v"]),
        ((Node.new "If").withInput "w").withAttr "then_branch" (branch ["v", "v"]),
        (Node.new "Neg").withInput "u"]
    let graph := nodes.foldl (fun graph node => graph.addNode node) {}
    let after := graph.replaceUses "v" "u" [0, 9]
    graph.Reached Edit.Offered ∧ graph.consumers "v" = [0, 1, 2, 3] ∧ after.2 = [1, 2, 3] ∧
      after.1.consumers "u" = [1, 2, 3, 4] ∧
      ConsumersMoved "v" "u" [0, 9] graph after.1 after.2 := by
  intro branch nodes graph after
  have hreached : graph.Reached Edit.Offered :=
    Reached.empty
      |>.addNode (.withInput _ (.new _))
      |>.addNode (.withInput _ (.withInput _ (.new _)))
      |>.addNode (.withAttr _ _ (.new _))
      |>.addNode (.withAttr _ _ (.withInput _ (.new _)))
      |>.addNode (.withInput _ (.new _))
  exact ⟨hreached, by decide, by decide, by decide,
    replaceUses_moves_consumers hreached (by decide) (by decide) (by decide) [0, 9]⟩

end

end

end Graph

end FixedShape
