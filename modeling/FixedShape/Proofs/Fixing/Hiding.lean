/-
Module: FixedShape.Proofs.Fixing.Hiding
Purpose: What fixing can hide of a graph that was not valid. Every violation of the graph shows in
  the fixed graph, but for a name that only subgraphs read: it is not in use as names are made.
-/
import FixedShape.Proofs.Fixing.StaysValid

namespace FixedShape

namespace Graph

/-! ### Graphs with open reads -/

section

variable {graph : Graph}

/-- A graph with which nothing is wrong but that it may read names that no node writes, and of these
only those that are open. -/
structure WellFormedBut (openRead : Node → String → Prop) (graph : Graph) : Prop where
  inputs_nodup : (graph.inputs.map (·.name)).Nodup
  outputs_nodup : (graph.outputs.map (·.name)).Nodup
  reads : ∀ (position : Nat) (node : Node), graph.nodes[position]? = some node →
    ∀ name ∈ node.dependencies, graph.Given name ∨
      (∃ before < position, ∃ writer : Node,
        graph.nodes[before]? = some writer ∧ writer.Writes name) ∨
      openRead node name ∧ ∀ writer ∈ graph.nodes, ¬ writer.Writes name
  single_source : ∀ node ∈ graph.nodes, ∀ name, node.Writes name →
    (graph.nodes.flatMap Node.outputs).count name = 1 ∧ ¬ graph.Given name
  outputs_defined : ∀ info ∈ graph.outputs,
    (∃ node ∈ graph.nodes, node.Writes info.name) ∨ graph.Given info.name

/-- The violations of such a graph are its open reads. -/
theorem WellFormedBut.of_mem_violations {openRead : Node → String → Prop} {violation : Violation}
    (h : graph.WellFormedBut openRead) (indexed : graph.Indexed)
    (hmem : violation ∈ graph.violations { allowUnusedInputs := true }) :
    ∃ (id : NodeId) (node : Node) (name : String), graph.nodes[id]? = some node ∧
      name ∈ node.dependencies ∧ openRead node name ∧
      violation = .danglingInput (graph.nodeLabel id) name := by
  have hcycle : graph.cycleViolations = [] := by
    apply cycleViolations_eq_nil_of_awaits_lt
    intro reader awaited hawaits
    apply awaits_lt_of_reads indexed h.single_source hawaits
    intro node hnode name hname
    exact (h.reads reader node hnode name hname).imp_right (Or.imp_right And.right)
  have hreads : violation ∈ graph.readViolations := by
    simpa [violations, hcycle, declarationViolations_eq_nil.mpr ⟨h.inputs_nodup, h.outputs_nodup⟩,
      (sourceViolations_eq_nil indexed).mpr h.single_source,
      (outputViolations_eq_nil indexed).mpr h.outputs_defined] using hmem
  obtain ⟨position, node, name, hnode, hread, hundefined, rfl⟩ := mem_readViolations.mp hreads
  obtain ⟨hgiven, hbefore⟩ := undefined_iff.mp hundefined
  rcases h.reads position node hnode name hread with
    hname | ⟨before, hlt, writer, hwriter, hwrites⟩ | ⟨hopen, hunwritten⟩
  · exact absurd hname hgiven
  · exact absurd hwrites (hbefore before hlt writer hwriter)
  · refine ⟨position, node, name, hnode, hread, hopen, ?_⟩
    rw [unresolvedRead, indexed.producers_eq_nil.mpr hunwritten]
    rfl

/-- What a node of a well-formed graph reads is defined. -/
theorem WellFormed.mem_definitions_of_read {checks : ValidateOptions} (h : graph.WellFormed checks)
    {position : Nat} {node : Node} {name : String} (hnode : graph.nodes[position]? = some node)
    (hname : name ∈ node.dependencies) : name ∈ graph.definitions := by
  apply mem_definitions.mpr
  rcases h.ordered position node hnode name hname with hgiven | ⟨_, _, writer, hwriter, hwrites⟩
  · exact Or.inl hgiven
  · exact Or.inr (List.mem_flatMap.mpr ⟨writer, List.mem_of_getElem? hwriter, hwrites.2⟩)

theorem WellFormed.wellFormedBut {checks : ValidateOptions} (h : graph.WellFormed checks)
    (openRead : Node → String → Prop) : graph.WellFormedBut openRead where
  inputs_nodup := h.inputs_nodup
  outputs_nodup := h.outputs_nodup
  reads position node hnode name hname :=
    (h.ordered position node hnode name hname).imp_right Or.inl
  single_source := h.single_source
  outputs_defined := h.outputs_defined

/-- What is asked looks at names and nodes alone. -/
theorem Redeclared.wellFormedBut {openRead : Node → String → Prop} {old new : Graph}
    (h : Redeclared old new) (wf : new.WellFormedBut openRead) : old.WellFormedBut openRead := by
  obtain ⟨hinputs, houtputs, hreads, hsingle, hdefined⟩ := wf
  rw [h.nodes_eq] at hreads hsingle hdefined
  simp only [h.given_iff] at hreads hsingle hdefined
  refine ⟨h.inputs_eq ▸ hinputs, h.outputs_eq ▸ houtputs, hreads, hsingle, ?_⟩
  intro info hinfo
  have hmem : info.name ∈ new.outputs.map (·.name) := by
    rw [h.outputs_eq]
    exact List.mem_map_of_mem hinfo
  obtain ⟨other, hother, hname⟩ := List.mem_map.mp hmem
  rw [← hname]
  exact hdefined other hother

end

end Graph

namespace Fixing

namespace CoherentPadding

variable {output : String} {basis : PaddingBasis} {zeros : Initializer} {options : OutputOptions}
  {names : PaddingNames} {old new : Graph} {checks : ValidateOptions}
  (padding : CoherentPadding output basis zeros options names old new)

include padding

/-! ### Back from a padded graph -/

/-- A name that was in use is given after padding only if it was given before. -/
theorem given_of_rename {name : String} (hname : name ∈ old.names)
    (h : new.Given (Onnx.rename output names.intermediate name)) :
    old.Given name ∧ name ≠ output := by
  by_cases houtput : name = output
  · rw [houtput, Onnx.rename_self] at h
    rcases padding.given_iff.mp h with hgiven | hconstant
    · exact absurd (padding.old_coherent.reserved.mem_names_of_given hgiven)
        padding.intermediate_fresh
    · exact absurd hconstant padding.intermediate_not_mem_constants
  · rw [Onnx.rename_of_ne houtput] at h
    rcases padding.given_iff.mp h with hgiven | hconstant
    · exact ⟨hgiven, houtput⟩
    · exact absurd hname (padding.fresh name (PaddingNames.mem_all_of_constant hconstant))

/-- A node that writes a redirected name wrote the name before. -/
theorem writes_of_redirect {node : Node} {name : String} (hnode : node ∈ old.nodes)
    (hname : name ∈ old.names)
    (h : (node.redirect output names.intermediate).Writes
      (Onnx.rename output names.intermediate name)) : node.Writes name := by
  obtain ⟨other, hother, hrename⟩ := padding.writes_redirect.mp h
  have hused := padding.old_coherent.reserved.mem_names_of_writes hnode hother
  have hmade : names.intermediate ∈ names.all := by simp [PaddingNames.all]
  have heq := (Onnx.rename_inj (padding.ne_of_mem_names hused hmade)
    (padding.ne_of_mem_names hname hmade)).mp hrename
  rwa [← heq]

/-- A read that is resolved after padding was resolved before, or it is a read inside subgraphs of
a name that was not in use and that padding defines. -/
theorem read_of_wellFormed (wf : new.WellFormed checks) {position : Nat} {node : Node}
    (hnode : old.nodes[position]? = some node) {name : String}
    (hname : name ∈ node.dependencies) :
    old.Given name ∨
      (∃ before < position, ∃ writer : Node,
        old.nodes[before]? = some writer ∧ writer.Writes name) ∨
      (name ∈ node.captures ∧ name ∉ old.names ∧ name ∈ new.definitions) ∧
        ∀ writer ∈ old.nodes, ¬ writer.Writes name := by
  have hmem := List.mem_of_getElem? hnode
  have hredirected := padding.getElem?_redirect hnode
  obtain ⟨_, _, houtput⟩ := padding.written
  have hread : Onnx.rename output names.intermediate name ∈
      (node.redirect output names.intermediate).dependencies :=
    (Node.mem_dependencies_redirect (padding.old_coherent.captures_nodup node hmem)
      padding.output_ne_intermediate houtput.1 padding.intermediate_ne_empty).mpr
        ⟨name, hname, rfl⟩
  by_cases hused : name ∈ old.names
  · rcases wf.ordered position _ hredirected _ hread with
      hgiven | ⟨before, hbefore, writer, hwriter, hwrites⟩
    · exact Or.inl (padding.given_of_rename hused hgiven).1
    · have hlt := Nat.lt_trans hbefore (List.getElem?_eq_some_iff.mp hnode).1
      have hother := List.getElem?_eq_getElem hlt
      rw [padding.getElem?_redirect hother, Option.some.injEq] at hwriter
      subst hwriter
      exact Or.inr (Or.inl ⟨before, hbefore, _, hother,
        padding.writes_of_redirect (List.getElem_mem hlt) hused hwrites⟩)
  · have hcapture : name ∈ node.captures :=
      (padding.old_coherent.reserved.mem_names_or_captures hmem hname).resolve_left hused
    have hne : name ≠ output := by
      rintro rfl
      exact hused padding.output_mem_names
    rw [Onnx.rename_of_ne hne] at hread
    refine Or.inr (Or.inr ⟨⟨hcapture, hused, ?_⟩, ?_⟩)
    · exact wf.mem_definitions_of_read hredirected hread
    · intro writer hwriter hwrites
      exact hused (padding.old_coherent.reserved.mem_names_of_writes hwriter hwrites)

theorem single_source_of_wellFormed (wf : new.WellFormed checks) {node : Node}
    (hnode : node ∈ old.nodes) {name : String} (hwrites : node.Writes name) :
    (old.nodes.flatMap Node.outputs).count name = 1 ∧ ¬ old.Given name := by
  have hused := padding.old_coherent.reserved.mem_names_of_writes hnode hwrites
  by_cases houtput : name = output
  · subst houtput
    have hslice : (paddingNodes name names options.axis).2.Writes name :=
      ⟨hwrites.1, List.mem_singleton_self name⟩
    have hnot := (wf.single_source _ (padding.mem_nodes.mpr (Or.inr (Or.inr rfl))) name hslice).2
    exact ⟨padding.count_before, fun hgiven => hnot (padding.given_iff.mpr (Or.inl hgiven))⟩
  · have hredirected : (node.redirect output names.intermediate).Writes name :=
      padding.writes_redirect.mpr ⟨name, hwrites, Onnx.rename_of_ne houtput⟩
    obtain ⟨hcount, hnot⟩ := wf.single_source _
      (padding.mem_nodes.mpr (Or.inl ⟨node, hnode, rfl⟩)) name hredirected
    rw [padding.count_outputs houtput
      (padding.ne_of_mem_names hused (by simp [PaddingNames.all]))
      (padding.ne_of_mem_names hused (by simp [PaddingNames.all]))] at hcount
    exact ⟨hcount, fun hgiven => hnot (padding.given_iff.mpr (Or.inl hgiven))⟩

theorem output_defined_of_wellFormed (wf : new.WellFormed checks) {info : TensorInfo}
    (hinfo : info ∈ old.outputs) :
    (∃ node ∈ old.nodes, node.Writes info.name) ∨ old.Given info.name := by
  have hused := padding.old_coherent.reserved.outputs info hinfo
  by_cases hname : info.name = output
  · rw [hname]
    exact Or.inl padding.written
  · have hmem : info.name ∈ new.outputs.map (·.name) := by
      rw [padding.map_name_outputs]
      exact List.mem_map_of_mem hinfo
    obtain ⟨other, hother, heq⟩ := List.mem_map.mp hmem
    have hdefined := wf.outputs_defined other hother
    rw [heq, ← Onnx.rename_of_ne hname] at hdefined
    rcases hdefined with ⟨node, hnode, hwrites⟩ | hgiven
    · rcases padding.mem_nodes.mp hnode with ⟨writer, hwriter, rfl⟩ | rfl | rfl
      · exact Or.inl ⟨writer, hwriter, padding.writes_of_redirect hwriter hused hwrites⟩
      · rw [padding.concat_writes, Onnx.rename_of_ne hname] at hwrites
        exact absurd hwrites (padding.ne_of_mem_names hused (by simp [PaddingNames.all]))
      · rw [Onnx.rename_of_ne hname] at hwrites
        exact absurd (List.mem_singleton.mp hwrites.2) hname
    · exact Or.inr (padding.given_of_rename hused hgiven).1

/-- If a padded graph is well formed, the graph before it is so, but for reads inside subgraphs of
names that padding has made. -/
theorem old_wellFormedBut (wf : new.WellFormed checks) :
    old.WellFormedBut fun node name =>
      name ∈ node.captures ∧ name ∉ old.names ∧ name ∈ new.definitions where
  inputs_nodup := padding.inputs_eq ▸ wf.inputs_nodup
  outputs_nodup := padding.map_name_outputs ▸ wf.outputs_nodup
  reads _ _ hnode _ hname := padding.read_of_wellFormed wf hnode hname
  single_source _ hnode _ hwrites := padding.single_source_of_wellFormed wf hnode hwrites
  outputs_defined _ hinfo := padding.output_defined_of_wellFormed wf hinfo

end CoherentPadding

variable {before after : Workspace}

/-- What can be open in a graph that was fixed well. -/
theorem wellFormedBut_of_fixOutput {selector : TensorSelector} {options : OutputOptions}
    {report : OutputReport} {checks : ValidateOptions} (coherent : before.model.graph.Coherent)
    (h : Runs (fixOutput selector options) before report after)
    (hvalid : after.model.graph.validate checks = .ok ()) :
    before.model.graph.WellFormedBut fun node name => options.mode = .structural ∧
      name ∈ node.captures ∧ name ∉ before.model.graph.names ∧
      name ∈ after.model.graph.definitions := by
  obtain ⟨output, _, _, _, _, _, hmodel⟩ := h.of_fixOutput
  cases hmode : options.mode with
  | declarative =>
      rw [hmode] at hmodel
      rw [hmodel] at hvalid
      have hname := TensorInfo.name_setShape [.fixed options.length]
      have hcoherent := coherent.modifyOutput output hname
      have wf := (Graph.validate_eq_ok_iff hcoherent.indexed).mp hvalid
      exact (Graph.redeclared_modifyOutput _ output hname).wellFormedBut (wf.wellFormedBut _)
  | structural =>
      rw [hmode] at hmodel
      obtain ⟨run⟩ := hmodel
      have padding := run.coherentPadding coherent
      have wf := (Graph.validate_eq_ok_iff padding.coherent.indexed).mp hvalid
      obtain ⟨hinputs, houtputs, hreads, hsingle, hdefined⟩ := padding.old_wellFormedBut wf
      refine ⟨hinputs, houtputs, ?_, hsingle, hdefined⟩
      intro position node hnode name hname
      exact (hreads position node hnode name hname).imp_right
        (Or.imp_right (And.imp_left (And.intro rfl)))

/-- A node whose branch reads a bound of a slice that nothing defines. -/
def openBranch : Onnx.Model :=
  let branch : Onnx.Graph :=
    { nodes := [{ opType := some "Identity", inputs := ["slice_starts"], outputs := ["r"] }]
      outputs := [{ name := some "r" }] }
  let choice : Onnx.Node :=
    { opType := some "If", inputs := ["x"], outputs := ["y"], name := some "branch"
      attributes := [{ name := some "then_branch", g := some branch, type := some 5 }] }
  { irVersion := some 8
    opsetImports := [{ version := some 17 }]
    graph := some
      { nodes := [choice], name := some "g", inputs := [{ name := some "x" }]
        outputs := [{ name := some "y" }] } }

/-- How the branch is fixed. -/
def openBranchOptions : FixOptions :=
  { seqLength := 4, outputLength := 4, mode := .structural, inputs := .exactly ["x"]
    output := .exactly ["y"], allowUnusedInputs := true }

theorem openBranch_runs : ∃ loaded report after,
    Model.load openBranch.encode = .ok loaded ∧
      Runs (fixModel openBranchOptions) { model := loaded } report after ∧
      loaded.graph.violations { allowUnusedInputs := true } =
        [.danglingInput "branch" "slice_starts"] := by
  have hsucceeds : succeeds (fixModel openBranchOptions) (fun loaded =>
      decide (loaded.graph.violations { allowUnusedInputs := true } =
        [.danglingInput "branch" "slice_starts"])) openBranch.encode = true := by
    decide +kernel
  obtain ⟨loaded, report, after, hload, hviolations, hrun⟩ := exists_of_succeeds hsucceeds
  exact ⟨loaded, report, after, hload, hrun, of_decide_eq_true hviolations⟩

end Fixing

end FixedShape
