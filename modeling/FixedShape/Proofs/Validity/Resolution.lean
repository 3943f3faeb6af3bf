/-
Module: FixedShape.Proofs.Validity.Resolution
Purpose: What the names that nodes read stand for. A read that no earlier definition resolves is
  reported, each one once; in an accepted graph a read has one definition, but for constants, which
  may be repeated.
-/
import FixedShape.Proofs.Validity.Exactness

namespace FixedShape

namespace Graph

/-! ### Unresolved reads -/

/-- The node at a position or one behind it writes a name. -/
def WrittenFrom (graph : Graph) (position : NodeId) (name : String) : Prop :=
  ∃ writer ∈ graph.nodes.drop position, writer.Writes name

instance (graph : Graph) (position : NodeId) (name : String) :
    Decidable (graph.WrittenFrom position name) :=
  inferInstanceAs (Decidable (∃ _ ∈ _, _))

/-- A node writes an undefined name only from the position on at which it is undefined. -/
theorem Undefined.writtenFrom_iff {graph : Graph} {position : NodeId} {name : String}
    (h : graph.Undefined position name) :
    graph.WrittenFrom position name ↔ ∃ writer ∈ graph.nodes, writer.Writes name := by
  constructor
  · rintro ⟨writer, hwriter, hwrites⟩
    exact ⟨writer, List.mem_of_mem_drop hwriter, hwrites⟩
  · rintro ⟨writer, hwriter, hwrites⟩
    rw [← List.take_append_drop position graph.nodes, List.mem_append] at hwriter
    rcases hwriter with hbefore | hfrom
    · exact absurd hwrites (h.2 writer hbefore)
    · exact ⟨writer, hfrom, hwrites⟩

/-- The kind of an unresolved read tells whether the name is written too late or never. -/
theorem Undefined.unresolvedRead_eq {graph : Graph} {position : NodeId} {name : String}
    (indexed : graph.Indexed) (h : graph.Undefined position name) :
    graph.unresolvedRead position name =
      if graph.WrittenFrom position name then
        .usedBeforeProduced (graph.nodeLabel position) name
      else .danglingInput (graph.nodeLabel position) name := by
  have hnone : (graph.producers name).isEmpty = true ↔ ¬ graph.WrittenFrom position name := by
    rw [List.isEmpty_iff, indexed.producers_eq_nil, h.writtenFrom_iff]
    push Not
    rfl
  unfold unresolvedRead
  by_cases hwritten : graph.WrittenFrom position name
  · rw [if_pos hwritten, if_neg (fun hempty => hnone.mp hempty hwritten)]
  · rw [if_neg hwritten, if_pos (hnone.mpr hwritten)]

/-- Among the violations of a loaded graph are, node after node and for each node in the order in
which it depends on names, one for each read of an undefined name. It tells whether the node or one
behind it writes the name, and if not, then no node does. -/
theorem unresolved_reads_reported {message : Onnx.Graph} {graph : Graph}
    (loaded : ofMessage message = .ok graph) (options : ValidateOptions) :
    (graph.reported options).filter (·.check = .reads) =
        (graph.nodes.zipIdx.flatMap fun (node, id) =>
          (node.dependencies.filter (graph.Undefined id ·)).map fun name =>
            if graph.WrittenFrom id name then .usedBeforeProduced (graph.nodeLabel id) name
            else .danglingInput (graph.nodeLabel id) name) ∧
      ∀ id name, graph.Undefined id name →
        (graph.WrittenFrom id name ↔ ∃ node ∈ graph.nodes, node.Writes name) := by
  have indexed := (loadedFrom_of_ofMessage loaded).indexed
  refine ⟨?_, fun id name hundefined => hundefined.writtenFrom_iff⟩
  rw [filter_reported_eq_found, found, readViolations_eq]
  refine List.flatMap_congr ?_
  rintro ⟨node, id⟩ _
  refine List.map_congr_left fun name hname => ?_
  exact Undefined.unresolvedRead_eq indexed (of_decide_eq_true (List.mem_filter.mp hname).2)

/-- A node that reads its own output twice, the output of the next node and, in a branch, a name
that nothing defines; an input that is left out is no read. -/
theorem unresolved_reads_reported_branch :
    let branch : Onnx.Graph :=
      { nodes := [{ opType := some "Add", inputs := ["w", "x"], outputs := ["r"] }]
        outputs := [{ name := some "r" }] }
    let message : Onnx.Graph :=
      { nodes :=
          [{ opType := some "If", name := some "choice", inputs := ["y", "", "x", "y", "z"]
             outputs := ["y"], attributes := [{ name := some "then_branch", g := some branch }] },
            { opType := some "Neg", inputs := ["y"], outputs := ["z"] }]
        inputs := [{ name := some "x" }], outputs := [{ name := some "z" }] }
    ∃ graph, ofMessage message = .ok graph ∧
      (graph.reported {}).filter (·.check = .reads) =
        [.usedBeforeProduced "choice" "y", .usedBeforeProduced "choice" "y",
          .usedBeforeProduced "choice" "z", .danglingInput "choice" "w"] ∧
      graph.Undefined 0 "w" ∧ ∀ node ∈ graph.nodes, ¬ node.Writes "w" := by
  intro branch message
  obtain ⟨hreported, hwritten⟩ := @unresolved_reads_reported message _ rfl {}
  refine ⟨_, rfl, ?_, by decide, fun node hnode hwrites => ?_⟩
  · rw [hreported]
    decide
  · exact absurd ((hwritten 0 "w" (by decide)).mpr ⟨node, hnode, hwrites⟩) (by decide)

/-! ### Single definitions -/

/-- The names that output slots are filled with, once for each slot. -/
def writtenNames (graph : Graph) : List String :=
  graph.nodes.flatMap fun node => node.outputs.filter (· ≠ "")

/-- The number of definitions of a name. An input is one definition with a constant of its name,
which is its default. -/
def definitionCount (graph : Graph) (name : String) : Nat :=
  graph.writtenNames.count name +
    max ((graph.inputs.map (·.name)).count name) ((graph.initializers.map (·.name)).count name)

/-- A graph in which no name is defined twice. -/
structure SingleAssignment (graph : Graph) : Prop where
  inputs_nodup : (graph.inputs.map (·.name)).Nodup
  initializers_nodup : (graph.initializers.map (·.name)).Nodup
  written_nodup : graph.writtenNames.Nodup
  written_not_given : ∀ name ∈ graph.writtenNames, ¬ graph.Given name

section

variable {graph : Graph} {options : ValidateOptions} {name : String}

theorem count_writtenNames (h : name ≠ "") :
    graph.writtenNames.count name = (graph.nodes.flatMap Node.outputs).count name := by
  rw [writtenNames, ← List.filter_flatMap, List.count_filter]
  simpa using h

/-- A given name is that of an input or that of a constant. -/
theorem given_iff_mem :
    graph.Given name ↔
      name ∈ graph.inputs.map (·.name) ∨ name ∈ graph.initializers.map (·.name) := by
  simp [Given]

/-- In a well-formed graph no two slots are filled with one name. -/
theorem WellFormed.written_nodup (h : graph.WellFormed options) : graph.writtenNames.Nodup := by
  rw [List.nodup_iff_count_le_one]
  intro name
  by_cases hname : name ∈ graph.writtenNames
  · obtain ⟨node, hnode, hwrites⟩ := mem_writtenNames.mp hname
    rw [count_writtenNames hwrites.1, (h.single_source node hnode name hwrites).1]
  · rw [List.count_eq_zero_of_not_mem hname]
    exact Nat.zero_le 1

theorem WellFormed.written_not_given (h : graph.WellFormed options)
    (hname : name ∈ graph.writtenNames) : ¬ graph.Given name := by
  obtain ⟨node, hnode, hwrites⟩ := mem_writtenNames.mp hname
  exact (h.single_source node hnode name hwrites).2

/-- What a node of a well-formed graph reads is defined once, or as often as there are constants of
the name. -/
theorem WellFormed.definitionCount_of_read (h : graph.WellFormed options) {node : Node}
    (hnode : node ∈ graph.nodes) (hread : name ∈ node.dependencies) :
    graph.definitionCount name = max 1 ((graph.initializers.map (·.name)).count name) := by
  unfold definitionCount
  by_cases hwritten : name ∈ graph.writtenNames
  · have hnot := h.written_not_given hwritten
    rw [given_iff_mem, not_or] at hnot
    rw [List.count_eq_one_of_mem h.written_nodup hwritten, List.count_eq_zero_of_not_mem hnot.1,
      List.count_eq_zero_of_not_mem hnot.2]
    rfl
  · have hgiven : graph.Given name := by
      obtain ⟨position, hposition⟩ := List.getElem?_of_mem hnode
      rcases h.ordered position node hposition name hread with
        hgiven | ⟨_, _, writer, hwriter, hwrites⟩
      · exact hgiven
      · exact absurd (mem_writtenNames.mpr ⟨writer, List.mem_of_getElem? hwriter, hwrites⟩)
          hwritten
    rw [List.count_eq_zero_of_not_mem hwritten, Nat.zero_add]
    by_cases hinput : name ∈ graph.inputs.map (·.name)
    · rw [List.count_eq_one_of_mem h.inputs_nodup hinput]
    · have hconstant := (given_iff_mem.mp hgiven).resolve_left hinput
      rw [List.count_eq_zero_of_not_mem hinput, Nat.zero_max,
        Nat.max_eq_right (List.count_pos_iff.mpr hconstant)]

end

/-- An accepted graph is single-assignment exactly if no constant is repeated. Its inputs and its
output slots have names of their own, and what a node reads is defined once, or as often as there
are constants of the name. -/
theorem validated_single_assignment {message : Onnx.Graph} {graph : Graph}
    {options : ValidateOptions} (loaded : ofMessage message = .ok graph)
    (haccepted : graph.validate options = .ok ()) :
    (graph.SingleAssignment ↔ (graph.initializers.map (·.name)).Nodup) ∧
      (graph.inputs.map (·.name)).Nodup ∧ graph.writtenNames.Nodup ∧
      (∀ name ∈ graph.writtenNames, ¬ graph.Given name) ∧
      ∀ node ∈ graph.nodes, ∀ name ∈ node.dependencies,
        graph.definitionCount name = max 1 ((graph.initializers.map (·.name)).count name) := by
  have h := (validate_eq_ok_iff (loadedFrom_of_ofMessage loaded).indexed).mp haccepted
  refine ⟨⟨fun single => single.initializers_nodup, fun hnodup => ?_⟩, h.inputs_nodup,
    h.written_nodup, fun name => h.written_not_given, ?_⟩
  · exact ⟨h.inputs_nodup, hnodup, h.written_nodup, fun name => h.written_not_given⟩
  · intro node hnode name hread
    exact h.definitionCount_of_read hnode hread

/-- An input with a default, and a constant that a branch reads. -/
theorem validated_single_assignment_default :
    let branch : Onnx.Graph :=
      { nodes := [{ opType := some "Add", inputs := ["c", "x"], outputs := ["r"] }]
        outputs := [{ name := some "r" }] }
    let message : Onnx.Graph :=
      { nodes :=
          [{ opType := some "If", inputs := ["x"], outputs := ["y", ""]
             attributes := [{ name := some "then_branch", g := some branch }] }]
        inputs := [{ name := some "x" }], outputs := [{ name := some "y" }]
        initializers := [{ name := some "x" }, { name := some "c" }] }
    ∃ graph, ofMessage message = .ok graph ∧ graph.validate {} = .ok () ∧
      graph.SingleAssignment ∧ graph.definitionCount "x" = 1 ∧ graph.definitionCount "c" = 1 := by
  intro branch message
  refine ⟨_, rfl, by decide, ?_⟩
  obtain ⟨hsingle, _, _, _, hreads⟩ := @validated_single_assignment message _ {} rfl (by decide)
  refine ⟨hsingle.mpr (by decide), ?_, ?_⟩
  · rw [hreads _ List.mem_cons_self "x" (by decide)]
    decide
  · rw [hreads _ List.mem_cons_self "c" (by decide)]
    decide

/-- Two constants of one name are accepted, so a node can read a name with two definitions. -/
theorem repeated_constants_accepted :
    let message : Onnx.Graph :=
      { nodes := [{ opType := some "Add", inputs := ["x", "w"], outputs := ["y"] }]
        inputs := [{ name := some "x" }], outputs := [{ name := some "y" }]
        initializers := [{ name := some "w" }, { name := some "w" }] }
    ∃ graph, ofMessage message = .ok graph ∧ graph.validate {} = .ok () ∧
      ¬ (graph.initializers.map (·.name)).Nodup ∧ ¬ graph.SingleAssignment ∧
      ∃ node ∈ graph.nodes, "w" ∈ node.dependencies ∧ graph.definitionCount "w" = 2 := by
  intro message
  refine ⟨_, rfl, by decide, by decide, ?_, _, List.mem_cons_self, by decide, by decide⟩
  intro single
  exact absurd single.initializers_nodup (by decide)

end Graph

end FixedShape
