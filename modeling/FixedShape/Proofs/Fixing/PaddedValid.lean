/-
Module: FixedShape.Proofs.Fixing.PaddedValid
Purpose: Padding keeps a graph well formed. A name is read in the padded graph where its old name
  was read, so what was defined before a node still is, and what was needed still is.
-/
import FixedShape.Proofs.Fixing.PaddedGraph
import FixedShape.Proofs.Validity.WellFormed

namespace FixedShape

/-- A node without captures that leaves no input out depends on its inputs. -/
theorem Node.dependencies_eq_inputs {node : Node} (hcaptures : node.captures = [])
    (hinputs : ∀ name ∈ node.inputs, name ≠ "") : node.dependencies = node.inputs := by
  rw [dependencies, hcaptures, List.append_nil, List.filter_eq_self]
  exact fun name hname => decide_eq_true (hinputs name hname)

namespace Graph

/-! ### Names of a coherent graph -/

section

variable {graph : Graph} {node : Node} {name : String}

theorem Reserved.mem_names_of_given (h : graph.Reserved) (hgiven : graph.Given name) :
    name ∈ graph.names := by
  rcases hgiven with ⟨info, hinfo, rfl⟩ | ⟨init, hinit, rfl⟩
  · exact h.inputs info hinfo
  · exact h.initializers init hinit

theorem Reserved.mem_names_of_writes (h : graph.Reserved) (hnode : node ∈ graph.nodes)
    (hwrites : node.Writes name) : name ∈ graph.names :=
  h.nodes node hnode name (List.mem_append_right _ (List.mem_append_left _ hwrites.2)) hwrites.1

/-- In an ordered graph also captured names are in use, as they are defined somewhere. -/
theorem Reserved.mem_names_of_dependency (h : graph.Reserved) (ordered : graph.Ordered)
    (hnode : node ∈ graph.nodes) (hname : name ∈ node.dependencies) : name ∈ graph.names := by
  obtain ⟨position, hposition⟩ := List.getElem?_of_mem hnode
  rcases ordered position node hposition name hname with
    hgiven | ⟨before, _, writer, hwriter, hwrites⟩
  · exact h.mem_names_of_given hgiven
  · exact h.mem_names_of_writes (List.mem_of_getElem? hwriter) hwrites

/-- A name that a node depends on is in use, or it is one that only its subgraphs read. -/
theorem Reserved.mem_names_or_captures (h : graph.Reserved) (hnode : node ∈ graph.nodes)
    (hname : name ∈ node.dependencies) : name ∈ graph.names ∨ name ∈ node.captures := by
  rcases List.mem_append.mp hname with hinput | hcapture
  · obtain ⟨hinput, hempty⟩ := List.mem_filter.mp hinput
    exact Or.inl (h.nodes node hnode name (List.mem_append_left _ hinput)
      (of_decide_eq_true hempty))
  · exact Or.inr hcapture

end

end Graph

namespace Fixing

theorem PaddingNames.mem_all_of_constant {names : PaddingNames} {name : String}
    (h : name ∈ [names.zeros, names.starts, names.ends, names.axes]) : name ∈ names.all := by
  simp only [List.mem_cons, List.not_mem_nil, or_false] at h
  rcases h with rfl | rfl | rfl | rfl
  all_goals simp [PaddingNames.all]

namespace Padded

variable {output : String} {basis : PaddingBasis} {zeros : Initializer} {options : OutputOptions}
  {names : PaddingNames} {old new : Graph} {checks : ValidateOptions}

/-! ### What is defined -/

section

variable (padded : Padded output basis zeros options names old new)

include padded

theorem intermediate_fresh : names.intermediate ∉ old.names :=
  padded.fresh names.intermediate (by simp [PaddingNames.all])

theorem intermediate_ne_empty : names.intermediate ≠ "" :=
  padded.nonempty names.intermediate (by simp [PaddingNames.all])

/-- The names of the values that padding makes, the first made first. -/
theorem values_nodup : [names.zeros, names.intermediate, names.concatenated, names.starts,
    names.ends, names.axes].Nodup :=
  List.nodup_reverse.mpr padded.nodup.of_cons.of_cons

theorem constants_nodup : [names.zeros, names.starts, names.ends, names.axes].Nodup := by
  apply List.Nodup.sublist _ padded.values_nodup
  exact .cons_cons _ (.cons _ (.cons _ (List.Sublist.refl _)))

theorem intermediate_not_mem : names.intermediate ∉
    [names.zeros, names.concatenated, names.starts, names.ends, names.axes] := by
  obtain ⟨hzeros, hrest⟩ := List.nodup_cons.mp padded.values_nodup
  intro hmem
  cases List.mem_cons.mp hmem with
  | inl heq =>
      rw [heq] at hzeros
      exact hzeros List.mem_cons_self
  | inr hmem => exact (List.nodup_cons.mp hrest).1 hmem

theorem concatenated_not_mem :
    names.concatenated ∉ [names.zeros, names.starts, names.ends, names.axes] := by
  obtain ⟨hzeros, hrest⟩ := List.nodup_cons.mp padded.values_nodup
  intro hmem
  cases List.mem_cons.mp hmem with
  | inl heq =>
      rw [heq] at hzeros
      exact hzeros (List.mem_cons_of_mem _ List.mem_cons_self)
  | inr hmem => exact (List.nodup_cons.mp (List.nodup_cons.mp hrest).2).1 hmem

theorem concatenated_ne_intermediate : names.concatenated ≠ names.intermediate := by
  intro heq
  apply padded.intermediate_not_mem
  rw [← heq]
  exact List.mem_cons_of_mem _ List.mem_cons_self

theorem intermediate_not_mem_constants :
    names.intermediate ∉ [names.zeros, names.starts, names.ends, names.axes] := by
  intro hmem
  apply padded.intermediate_not_mem
  exact List.Sublist.mem hmem (.cons_cons _ (.cons _ (List.Sublist.refl _)))

theorem map_name_constants :
    (paddingConstants zeros names options).map (·.name) =
      [names.zeros, names.starts, names.ends, names.axes] := by
  rw [padded.zeros_name]
  rfl

/-- The names with a value before any node runs are those from before and the new constants. -/
theorem givenNames_eq :
    new.givenNames =
      old.givenNames ++ [names.zeros, names.starts, names.ends, names.axes] := by
  unfold Graph.givenNames
  rw [padded.inputs_eq, padded.initializers_eq, List.map_append, List.append_assoc,
    padded.map_name_constants]

theorem given_iff {name : String} :
    new.Given name ↔ old.Given name ∨
      name ∈ [names.zeros, names.starts, names.ends, names.axes] := by
  rw [← Graph.mem_givenNames, padded.givenNames_eq, List.mem_append, Graph.mem_givenNames]

/-- The nodes are those from before, redirected, and the two of padding. -/
theorem mem_nodes {node : Node} :
    node ∈ new.nodes ↔
      (∃ other ∈ old.nodes, node = other.redirect output names.intermediate) ∨
        node = (paddingNodes output names options.axis).1 ∨
        node = (paddingNodes output names options.axis).2 := by
  rw [padded.nodes_eq, List.mem_append, List.mem_map]
  simp only [List.mem_cons, List.not_mem_nil, or_false, eq_comm]

theorem concat_writes {name : String} :
    (paddingNodes output names options.axis).1.Writes name ↔ name = names.concatenated := by
  have hne : names.concatenated ≠ "" :=
    padded.nonempty names.concatenated (by simp [PaddingNames.all])
  have houtputs : (paddingNodes output names options.axis).1.outputs = [names.concatenated] := rfl
  rw [Node.Writes, houtputs, List.mem_singleton]
  exact and_iff_right_of_imp fun heq => heq ▸ hne

/-- Appending the zeros needs the value that is padded. -/
theorem concat_dependencies :
    (paddingNodes output names options.axis).1.dependencies =
      [names.intermediate, names.zeros] := by
  refine Node.dependencies_eq_inputs rfl fun name hname => padded.nonempty name ?_
  rcases List.mem_pair.mp hname with rfl | rfl
  · simp [PaddingNames.all]
  · simp [PaddingNames.all]

/-- Taking the slice needs the value with the zeros. -/
theorem slice_dependencies :
    (paddingNodes output names options.axis).2.dependencies =
      [names.concatenated, names.starts, names.ends, names.axes] := by
  refine Node.dependencies_eq_inputs rfl fun name hname => padded.nonempty name ?_
  have hinputs : (paddingNodes output names options.axis).2.inputs =
      [names.concatenated, names.starts, names.ends, names.axes] := rfl
  rw [hinputs] at hname
  simp only [List.mem_cons, List.not_mem_nil, or_false] at hname
  rcases hname with rfl | rfl | rfl | rfl
  all_goals simp [PaddingNames.all]

end

end Padded

/-- The padding of an output that one node of a coherent graph writes. -/
structure CoherentPadding (output : String) (basis : PaddingBasis) (zeros : Initializer)
    (options : OutputOptions) (names : PaddingNames) (old new : Graph) : Prop
    extends Padded output basis zeros options names old new where
  old_coherent : old.Coherent
  producers_eq : old.producers output = [basis.producer]

namespace CoherentPadding

variable {output : String} {basis : PaddingBasis} {zeros : Initializer} {options : OutputOptions}
  {names : PaddingNames} {old new : Graph}
  (padding : CoherentPadding output basis zeros options names old new)

include padding

/-! ### Redirected nodes -/

theorem written : ∃ node ∈ old.nodes, node.Writes output := by
  obtain ⟨node, hnode, hwrites⟩ := padding.old_coherent.indexed.mem_producers.mp
    (padding.producers_eq ▸ List.mem_singleton_self basis.producer)
  exact ⟨node, List.mem_of_getElem? hnode, hwrites⟩

theorem output_mem_names : output ∈ old.names := by
  obtain ⟨node, hnode, hwrites⟩ := padding.written
  exact padding.old_coherent.reserved.mem_names_of_writes hnode hwrites

/-- A name that was in use is none of those that padding makes. -/
theorem ne_of_mem_names {name made : String} (hname : name ∈ old.names)
    (hmade : made ∈ names.all) : name ≠ made := by
  rintro rfl
  exact padding.fresh name hmade hname

theorem output_ne_intermediate : output ≠ names.intermediate :=
  padding.ne_of_mem_names padding.output_mem_names (by simp [PaddingNames.all])

/-- No subgraph uses a name that padding makes for a value of its own. -/
theorem not_mem_scopedNames_of_old {name : String} (hmade : name ∈ names.all) {node : Node}
    (hnode : node ∈ old.nodes) : name ∉ node.message.scopedNames := by
  intro hscoped
  refine padding.fresh name hmade (padding.old_coherent.reserved.nodes node hnode name ?_
    (padding.nonempty name hmade))
  simp only [Node.mentions, List.mem_append]
  exact Or.inr (Or.inr (Or.inr hscoped))

theorem writes_redirect {node : Node} {name : String} :
    (node.redirect output names.intermediate).Writes name ↔
      ∃ other, node.Writes other ∧ Onnx.rename output names.intermediate other = name := by
  obtain ⟨writer, _, hwrites⟩ := padding.written
  exact Node.writes_redirect hwrites.1 padding.intermediate_ne_empty

theorem intermediate_not_mem_outputs :
    names.intermediate ∉ old.nodes.flatMap Node.outputs := by
  intro hmem
  obtain ⟨node, hnode, hname⟩ := List.mem_flatMap.mp hmem
  exact padding.intermediate_fresh (padding.old_coherent.reserved.mem_names_of_writes hnode
    ⟨padding.intermediate_ne_empty, hname⟩)

/-- A node keeps its position. -/
theorem getElem?_redirect {position : Nat} {node : Node} (h : old.nodes[position]? = some node) :
    new.nodes[position]? = some (node.redirect output names.intermediate) := by
  have hlt := (List.getElem?_eq_some_iff.mp h).1
  rw [padding.nodes_eq, List.getElem?_append_left (by rwa [List.length_map]), List.getElem?_map, h,
    Option.map_some]

theorem getElem?_concat :
    new.nodes[old.nodes.length]? = some (paddingNodes output names options.axis).1 := by
  rw [padding.nodes_eq, List.getElem?_append_right (Nat.le_of_eq (List.length_map _)),
    List.length_map, Nat.sub_self]
  rfl

/-- The value that is padded is written by a node from before. -/
theorem intermediate_written : ∃ position < old.nodes.length, ∃ writer,
    new.nodes[position]? = some writer ∧ writer.Writes names.intermediate := by
  obtain ⟨node, hnode, hwrites⟩ := padding.written
  obtain ⟨position, hposition⟩ := List.getElem?_of_mem hnode
  refine ⟨position, (List.getElem?_eq_some_iff.mp hposition).1, _,
    padding.getElem?_redirect hposition, ?_⟩
  exact padding.writes_redirect.mpr ⟨output, hwrites, Onnx.rename_self _ _⟩

/-! ### Slots -/

/-- The slots that the nodes fill: the old ones, redirected, and two more. -/
theorem flatMap_outputs : new.nodes.flatMap Node.outputs =
    (old.nodes.flatMap Node.outputs).map (Onnx.rename output names.intermediate) ++
      [names.concatenated, output] := by
  rw [padding.nodes_eq, List.flatMap_append, List.flatMap_map, List.map_flatMap]
  simp only [Node.outputs_redirect]
  rfl

/-- The output fills one slot. -/
theorem count_before : (old.nodes.flatMap Node.outputs).count output = 1 := by
  obtain ⟨_, _, hwrites⟩ := padding.written
  rw [← padding.old_coherent.indexed.length_producers hwrites.1, padding.producers_eq]
  rfl

theorem count_outputs {name : String} (hne : name ≠ output)
    (hintermediate : name ≠ names.intermediate) (hconcatenated : name ≠ names.concatenated) :
    (new.nodes.flatMap Node.outputs).count name = (old.nodes.flatMap Node.outputs).count name := by
  rw [padding.flatMap_outputs, List.count_append, Onnx.count_map_rename_of_ne _ hne hintermediate]
  simp [hne.symm, hconcatenated.symm]

/-- The slot of the output is now that of the slice. -/
theorem count_output : (new.nodes.flatMap Node.outputs).count output = 1 := by
  have hne : output ≠ names.concatenated :=
    padding.ne_of_mem_names padding.output_mem_names (by simp [PaddingNames.all])
  rw [padding.flatMap_outputs, List.count_append, List.count_eq_zero.mpr
    (Onnx.not_mem_map_rename _ padding.output_ne_intermediate)]
  simp [hne.symm]

theorem count_concatenated : (new.nodes.flatMap Node.outputs).count names.concatenated = 1 := by
  have hne : output ≠ names.concatenated :=
    padding.ne_of_mem_names padding.output_mem_names (by simp [PaddingNames.all])
  have hunwritten : names.concatenated ∉ old.nodes.flatMap Node.outputs := by
    intro hmem
    obtain ⟨node, hnode, hname⟩ := List.mem_flatMap.mp hmem
    have hnonempty : names.concatenated ≠ "" :=
      padding.nonempty names.concatenated (by simp [PaddingNames.all])
    exact padding.fresh names.concatenated (by simp [PaddingNames.all])
      (padding.old_coherent.reserved.mem_names_of_writes hnode ⟨hnonempty, hname⟩)
  rw [padding.flatMap_outputs, List.count_append,
    Onnx.count_map_rename_of_ne _ hne.symm padding.concatenated_ne_intermediate,
    List.count_eq_zero.mpr hunwritten]
  simp [hne]

/-- The value that is padded keeps its slot under its new name. -/
theorem count_intermediate : (new.nodes.flatMap Node.outputs).count names.intermediate = 1 := by
  have hne := padding.concatenated_ne_intermediate
  rw [padding.flatMap_outputs, List.count_append,
    Onnx.count_target_map_rename padding.intermediate_not_mem_outputs, padding.count_before]
  simp [hne, padding.output_ne_intermediate]

theorem map_name_outputs : new.outputs.map (·.name) = old.outputs.map (·.name) := by
  rw [padding.outputs_eq]
  exact @map_name_modifyInfo output (declarePadded basis options.length) (fun _ => rfl) old.outputs

end CoherentPadding

/-- The padding of a declared output of a well-formed graph. -/
structure ValidPadding (checks : ValidateOptions) (output : String) (basis : PaddingBasis)
    (zeros : Initializer) (options : OutputOptions) (names : PaddingNames) (old new : Graph) : Prop
    extends CoherentPadding output basis zeros options names old new where
  wellFormed : old.WellFormed checks
  declared : ∃ info ∈ old.outputs, info.name = output

namespace ValidPadding

variable {checks : ValidateOptions} {output : String} {basis : PaddingBasis} {zeros : Initializer}
  {options : OutputOptions} {names : PaddingNames} {old new : Graph}
  (padding : ValidPadding checks output basis zeros options names old new)

include padding

/-! ### Redirected nodes -/

theorem output_not_given : ¬ old.Given output := by
  obtain ⟨node, hnode, hwrites⟩ := padding.written
  exact (padding.wellFormed.single_source node hnode output hwrites).2

/-- What is given is not padded, so its name stays. -/
theorem rename_of_given {name : String} (hgiven : old.Given name) :
    Onnx.rename output names.intermediate name = name := by
  refine Onnx.rename_of_ne ?_
  rintro rfl
  exact padding.output_not_given hgiven

theorem dependencies_redirect {node : Node} (hnode : node ∈ old.nodes) :
    (node.redirect output names.intermediate).dependencies =
      node.dependencies.map (Onnx.rename output names.intermediate) := by
  obtain ⟨writer, _, hwrites⟩ := padding.written
  refine Node.dependencies_redirect (padding.old_coherent.captures_nodup node hnode) ?_ hwrites.1
    padding.intermediate_ne_empty
  intro hcapture
  exact padding.intermediate_fresh (padding.old_coherent.reserved.mem_names_of_dependency
    padding.wellFormed.ordered hnode (List.mem_append_right _ hcapture))

/-! ### Order -/

/-- The nodes still stand behind what they read, and the nodes of padding behind all others. -/
theorem ordered : new.Ordered := by
  intro position node hnode name hname
  have hnode' := hnode
  rw [padding.nodes_eq, List.getElem?_append] at hnode'
  split at hnode'
  · rw [List.getElem?_map, Option.map_eq_some_iff] at hnode'
    obtain ⟨other, hother, rfl⟩ := hnode'
    rw [padding.dependencies_redirect (List.mem_of_getElem? hother), List.mem_map] at hname
    obtain ⟨read, hread, rfl⟩ := hname
    rcases padding.wellFormed.ordered position other hother read hread with
      hgiven | ⟨before, hbefore, writer, hwriter, hwrites⟩
    · rw [padding.rename_of_given hgiven]
      exact Or.inl (padding.given_iff.mpr (Or.inl hgiven))
    · refine Or.inr ⟨before, hbefore, _, padding.getElem?_redirect hwriter, ?_⟩
      exact padding.writes_redirect.mpr ⟨read, hwrites, rfl⟩
  · next hlater =>
      rw [List.length_map] at hnode' hlater
      obtain ⟨offset, rfl⟩ := Nat.exists_eq_add_of_le (Nat.le_of_not_lt hlater)
      rw [Nat.add_sub_cancel_left] at hnode'
      match offset, hnode' with
      | 0, hnode' =>
          cases hnode'
          rw [padding.concat_dependencies] at hname
          rcases List.mem_pair.mp hname with rfl | rfl
          · obtain ⟨before, hbefore, writer, hwriter, hwrites⟩ := padding.intermediate_written
            exact Or.inr ⟨before, hbefore, writer, hwriter, hwrites⟩
          · exact Or.inl (padding.given_iff.mpr (Or.inr (by simp)))
      | 1, hnode' =>
          cases hnode'
          rw [padding.slice_dependencies] at hname
          rcases List.mem_cons.mp hname with rfl | hbound
          · refine Or.inr ⟨old.nodes.length, Nat.lt_succ_self _, _, padding.getElem?_concat, ?_⟩
            exact padding.concat_writes.mpr rfl
          · exact Or.inl (padding.given_iff.mpr (Or.inr (List.mem_cons_of_mem _ hbound)))

/-! ### Sources -/

theorem single_source : ∀ node ∈ new.nodes, ∀ name, node.Writes name →
    (new.nodes.flatMap Node.outputs).count name = 1 ∧ ¬ new.Given name := by
  -- a name in use before is given after padding only if it was given before
  have hused : ∀ {name : String}, name ∈ old.names → ¬ old.Given name → ¬ new.Given name := by
    intro name hname hold hgiven
    rcases padding.given_iff.mp hgiven with hgiven | hconstant
    · exact hold hgiven
    · exact padding.fresh name (PaddingNames.mem_all_of_constant hconstant) hname
  -- a name that padding makes is given only if it is that of a constant
  have hmade : ∀ {name : String}, name ∉ old.names →
      name ∉ [names.zeros, names.starts, names.ends, names.axes] → ¬ new.Given name := by
    intro name hname hconstant hgiven
    rcases padding.given_iff.mp hgiven with hgiven | hmem
    · exact hname (padding.old_coherent.reserved.mem_names_of_given hgiven)
    · exact hconstant hmem
  intro node hnode name hwrites
  rcases padding.mem_nodes.mp hnode with ⟨other, hother, rfl⟩ | rfl | rfl
  · obtain ⟨written, hwritten, rfl⟩ := padding.writes_redirect.mp hwrites
    obtain ⟨hcount, hgiven⟩ := padding.wellFormed.single_source other hother written hwritten
    have hname := padding.old_coherent.reserved.mem_names_of_writes hother hwritten
    by_cases houtput : written = output
    · subst houtput
      rw [Onnx.rename_self]
      exact ⟨padding.count_intermediate,
        hmade padding.intermediate_fresh padding.intermediate_not_mem_constants⟩
    · rw [Onnx.rename_of_ne houtput]
      refine ⟨?_, hused hname hgiven⟩
      rw [padding.count_outputs houtput
        (padding.ne_of_mem_names hname (by simp [PaddingNames.all]))
        (padding.ne_of_mem_names hname (by simp [PaddingNames.all])), hcount]
  · rw [padding.concat_writes] at hwrites
    subst hwrites
    exact ⟨padding.count_concatenated, hmade
      (padding.fresh names.concatenated (by simp [PaddingNames.all]))
      padding.concatenated_not_mem⟩
  · have houtput : name = output := List.mem_singleton.mp hwrites.2
    subst houtput
    exact ⟨padding.count_output, hused padding.output_mem_names padding.output_not_given⟩

/-! ### Boundary -/

theorem needed_of_output {info : TensorInfo} (hinfo : info ∈ old.outputs) :
    new.Needed info.name := by
  have hmem : info.name ∈ new.outputs.map (·.name) := by
    rw [padding.map_name_outputs]
    exact List.mem_map_of_mem hinfo
  obtain ⟨other, hother, hname⟩ := List.mem_map.mp hmem
  rw [← hname]
  exact .output hother

/-- The output is computed from the value that is padded. -/
theorem needed_intermediate : new.Needed names.intermediate := by
  obtain ⟨info, hinfo, hname⟩ := padding.declared
  obtain ⟨node, _, hwrites⟩ := padding.written
  have houtput : new.Needed output := by
    rw [← hname]
    exact padding.needed_of_output hinfo
  have hconcatenated : new.Needed names.concatenated := by
    refine houtput.read (padding.mem_nodes.mpr (Or.inr (Or.inr rfl))) ?_ ?_
    · exact ⟨hwrites.1, List.mem_singleton_self output⟩
    · rw [padding.slice_dependencies]
      exact List.mem_cons_self
  refine hconcatenated.read (padding.mem_nodes.mpr (Or.inr (Or.inl rfl)))
    (padding.concat_writes.mpr rfl) ?_
  rw [padding.concat_dependencies]
  exact List.mem_cons_self

/-- What was needed still is, the value that is padded under its new name. -/
theorem needed_rename {name : String} (h : old.Needed name) :
    new.Needed (Onnx.rename output names.intermediate name) := by
  induction h with
  | @output info hinfo =>
      by_cases hname : info.name = output
      · rw [hname, Onnx.rename_self]
        exact padding.needed_intermediate
      · rw [Onnx.rename_of_ne hname]
        exact padding.needed_of_output hinfo
  | @read name other node _ hnode hwrites hreads ih =>
      refine ih.read (padding.mem_nodes.mpr (Or.inl ⟨node, hnode, rfl⟩)) ?_ ?_
      · exact padding.writes_redirect.mpr ⟨name, hwrites, rfl⟩
      · rw [padding.dependencies_redirect hnode]
        exact List.mem_map_of_mem hreads

/-- No input becomes unused. -/
theorem input_needed {info : TensorInfo} (hinfo : info ∈ old.inputs)
    (h : old.Needed info.name) : new.Needed info.name := by
  have hrenamed := padding.needed_rename h
  rwa [padding.rename_of_given (Or.inl ⟨info, hinfo, rfl⟩)] at hrenamed

theorem output_defined {info : TensorInfo} (hinfo : info ∈ old.outputs) :
    (∃ node ∈ new.nodes, node.Writes info.name) ∨ new.Given info.name := by
  by_cases hname : info.name = output
  · obtain ⟨node, _, hwrites⟩ := padding.written
    refine Or.inl ⟨_, padding.mem_nodes.mpr (Or.inr (Or.inr rfl)), ?_⟩
    rw [hname]
    exact ⟨hwrites.1, List.mem_singleton_self output⟩
  · rcases padding.wellFormed.outputs_defined info hinfo with ⟨node, hnode, hwrites⟩ | hgiven
    · refine Or.inl ⟨_, padding.mem_nodes.mpr (Or.inl ⟨node, hnode, rfl⟩), ?_⟩
      exact padding.writes_redirect.mpr ⟨info.name, hwrites, Onnx.rename_of_ne hname⟩
    · exact Or.inr (padding.given_iff.mpr (Or.inl hgiven))

/-- A padded graph is well formed, shapes that must be static apart. -/
theorem new_wellFormed (hstatic : checks.requireStatic = []) : new.WellFormed checks := by
  refine ⟨?_, ?_, padding.ordered, padding.single_source, ?_, ?_, ?_⟩
  · rw [padding.inputs_eq]
    exact padding.wellFormed.inputs_nodup
  · rw [padding.map_name_outputs]
    exact padding.wellFormed.outputs_nodup
  · intro info hinfo
    have hmem : info.name ∈ new.outputs.map (·.name) := List.mem_map_of_mem hinfo
    rw [padding.map_name_outputs] at hmem
    obtain ⟨other, hother, hname⟩ := List.mem_map.mp hmem
    rw [← hname]
    exact padding.output_defined hother
  · intro hasked info hinfo hconstant
    rw [padding.inputs_eq] at hinfo
    refine padding.input_needed hinfo (padding.wellFormed.inputs_needed hasked info hinfo ?_)
    intro init hinit
    refine hconstant init ?_
    rw [padding.initializers_eq]
    exact List.mem_append_left _ hinit
  · rw [hstatic]
    intro name hname
    cases hname

end ValidPadding

end Fixing

end FixedShape
