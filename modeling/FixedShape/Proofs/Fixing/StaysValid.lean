/-
Module: FixedShape.Proofs.Fixing.StaysValid
Purpose: Fixing a valid model keeps it valid. Declaring shapes touches nothing that is checked, and
  padding keeps the order, the single definitions and the uses, however often steps are repeated.
-/
import FixedShape.Proofs.Fixing.PaddedValid
import FixedShape.Proofs.Fixing.Running
import FixedShape.Proofs.Model.Loading
import FixedShape.Proofs.Tensor.Constants
import FixedShape.Proofs.Validity.Redeclaration

namespace FixedShape

namespace Graph

/-- Every name that the graph defines, once for each definition. -/
def definitions (graph : Graph) : List String :=
  graph.givenNames ++ graph.nodes.flatMap Node.outputs

theorem mem_definitions {graph : Graph} {name : String} :
    name ∈ graph.definitions ↔
      graph.Given name ∨ name ∈ graph.nodes.flatMap Node.outputs := by
  rw [definitions, List.mem_append, mem_givenNames]

/-- A coherent and well-formed graph: what fixing starts from and what it keeps. -/
structure Valid (checks : ValidateOptions) (graph : Graph) : Prop where
  coherent : graph.Coherent
  wellFormed : graph.WellFormed checks

theorem Valid.validate_eq_ok {checks : ValidateOptions} {graph : Graph} (h : graph.Valid checks) :
    graph.validate checks = .ok () :=
  (validate_eq_ok_iff h.coherent.indexed).mpr h.wellFormed

end Graph

namespace Fixing

variable {before after : Workspace} {checks : ValidateOptions}

/-! ### Steps -/

/-- Fixing inputs changes their declarations alone. -/
theorem redeclared_of_fixInputs {selector : TensorSelector} {length : Nat} {names : List String}
    (h : Runs (fixInputs selector length) before names after) :
    Graph.Redeclared before.model.graph after.model.graph ∧
      after.model.graph.names = before.model.graph.names ∧
      (before.model.graph.Coherent → after.model.graph.Coherent) := by
  rw [h.of_fixInputs.2.2.2]
  clear h
  generalize before.model = model
  induction names generalizing model with
  | nil => exact ⟨⟨rfl, rfl, rfl, rfl⟩, rfl, id⟩
  | cons name rest ih =>
      have hname := TensorInfo.name_setShape (sequenceShape length)
      have hfirst := Graph.redeclared_modifyInput model.graph name hname
      obtain ⟨hrest, hnames, hcoherent⟩ := ih (declareSequence length model name)
      refine ⟨⟨?_, ?_, ?_, ?_⟩, hnames, fun h => hcoherent (h.modifyInput name hname)⟩
      · exact hrest.inputs_eq.trans hfirst.inputs_eq
      · exact hrest.outputs_eq.trans hfirst.outputs_eq
      · exact hrest.nodes_eq.trans hfirst.nodes_eq
      · exact hrest.initializers_eq.trans hfirst.initializers_eq

theorem valid_of_fixInputs {selector : TensorSelector} {length : Nat} {names : List String}
    (hstatic : checks.requireStatic = []) (valid : before.model.graph.Valid checks)
    (h : Runs (fixInputs selector length) before names after) :
    after.model.graph.Valid checks := by
  obtain ⟨hredeclared, _, hcoherent⟩ := redeclared_of_fixInputs h
  exact ⟨hcoherent valid.coherent, hredeclared.wellFormed hstatic valid.wellFormed⟩

/-- The padding that a run has made of a model with a coherent graph. -/
theorem PaddingRun.coherentPadding {output : String} {options : OutputOptions} {old new : Model}
    {report : OutputReport} (run : PaddingRun output options old report new)
    (coherent : old.graph.Coherent) :
    CoherentPadding output run.basis run.zeros options run.names old.graph new.graph := by
  have hproducer := (paddingBasis_sound run.basis_eq).1
  have hname : run.zeros.name = (old.graph.uniqueName "padding_zeros").1 := by
    obtain ⟨_, _, _, hzeros⟩ := Initializer.zeros?_eq_some run.zeros_eq
    rw [hzeros]
  exact
    { padded_of_padGraph coherent hproducer hname run.pad_eq with
      old_coherent := coherent
      producers_eq := hproducer }

/-- The padding that a run has made of a valid model. -/
theorem PaddingRun.validPadding {output : String} {options : OutputOptions} {old new : Model}
    {report : OutputReport} (run : PaddingRun output options old report new)
    (valid : old.graph.Valid checks) :
    ValidPadding checks output run.basis run.zeros options run.names old.graph new.graph := by
  obtain ⟨_, _, info, hinfo, _⟩ := paddingBasis_sound run.basis_eq
  exact
    { run.coherentPadding valid.coherent with
      wellFormed := valid.wellFormed
      declared := Graph.isSome_findInfo?.mp (Option.isSome_of_eq_some hinfo) }

theorem valid_of_fixOutput {selector : TensorSelector} {options : OutputOptions}
    {report : OutputReport} (hstatic : checks.requireStatic = [])
    (valid : before.model.graph.Valid checks)
    (h : Runs (fixOutput selector options) before report after) :
    after.model.graph.Valid checks := by
  obtain ⟨output, _, _, _, _, _, hmodel⟩ := h.of_fixOutput
  cases hmode : options.mode with
  | declarative =>
      rw [hmode] at hmodel
      rw [hmodel]
      have hname := TensorInfo.name_setShape [.fixed options.length]
      refine ⟨valid.coherent.modifyOutput output hname, ?_⟩
      exact (Graph.redeclared_modifyOutput _ output hname).wellFormed hstatic valid.wellFormed
  | structural =>
      rw [hmode] at hmodel
      obtain ⟨run⟩ := hmodel
      exact ⟨(run.validPadding valid).coherent, (run.validPadding valid).new_wellFormed hstatic⟩

/-- A successful step of fixing. -/
inductive Step : Workspace → Workspace → Prop where
  | inputs {before after : Workspace} {selector : TensorSelector} {length : Nat}
      {names : List String} (run : Runs (fixInputs selector length) before names after) :
      Step before after
  | output {before after : Workspace} {selector : TensorSelector} {options : OutputOptions}
      {report : OutputReport} (run : Runs (fixOutput selector options) before report after) :
      Step before after

/-- Any number of steps keeps a model valid. -/
theorem valid_of_steps (hstatic : checks.requireStatic = [])
    (valid : before.model.graph.Valid checks) (h : Relation.ReflTransGen Step before after) :
    after.model.graph.Valid checks := by
  induction h with
  | refl => exact valid
  | tail _ hstep ih =>
      cases hstep with
      | inputs run => exact valid_of_fixInputs hstatic ih run
      | output run => exact valid_of_fixOutput hstatic ih run

/-! ### What padding keeps -/

/-- What padding keeps of the structure of a graph. A made name has one definition, and no
subgraph uses it for a value of its own. -/
structure Structured (report : OutputReport) (old new : Graph) : Prop where
  ordered : new.Ordered
  defined_once : ∀ name ∈ new.definitions, name ≠ "" → name ∉ old.definitions →
    new.definitions.count name = 1 ∧ ∀ node ∈ new.nodes, name ∉ node.message.scopedNames
  reported : ∀ name ∈ report.intermediate.toList ++ report.addedInitializers,
    name ∈ new.definitions ∧ name ≠ "" ∧ name ∉ old.definitions
  inputs_eq : new.inputs = old.inputs
  inputs_needed : ∀ info ∈ old.inputs, old.Needed info.name → new.Needed info.name

namespace ValidPadding

variable {output : String} {basis : PaddingBasis} {zeros : Initializer} {options : OutputOptions}
  {names : PaddingNames} {old new : Graph}
  (padding : ValidPadding checks output basis zeros options names old new)

include padding

/-- A name that is newly defined is one of those that padding makes. -/
theorem mem_all_of_defined {name : String} (hnew : name ∈ new.definitions)
    (hold : name ∉ old.definitions) : name ∈ names.all := by
  rw [Graph.mem_definitions] at hnew hold
  rcases hnew with hgiven | houtput
  · rcases padding.given_iff.mp hgiven with hbefore | hconstant
    · exact absurd (Or.inl hbefore) hold
    · exact PaddingNames.mem_all_of_constant hconstant
  · rw [padding.flatMap_outputs, List.mem_append] at houtput
    rcases houtput with hrenamed | hpadding
    · rcases Node.mem_map_rename hrenamed with hbefore | rfl
      · exact absurd (Or.inr hbefore) hold
      · simp [PaddingNames.all]
    · rcases List.mem_pair.mp hpadding with rfl | rfl
      · simp [PaddingNames.all]
      · obtain ⟨node, hnode, hwrites⟩ := padding.written
        exact absurd (Or.inr (List.mem_flatMap.mpr ⟨node, hnode, hwrites.2⟩)) hold

/-- A name that is newly defined is defined once. -/
theorem count_definitions {name : String} (hnew : name ∈ new.definitions) (hname : name ≠ "")
    (hold : name ∉ old.definitions) : new.definitions.count name = 1 := by
  unfold Graph.definitions
  rw [List.count_append]
  by_cases hgiven : new.Given name
  · have hwritten : name ∉ new.nodes.flatMap Node.outputs := by
      intro hmem
      obtain ⟨node, hnode, houtput⟩ := List.mem_flatMap.mp hmem
      exact (padding.single_source node hnode name ⟨hname, houtput⟩).2 hgiven
    have hbefore : name ∉ old.givenNames :=
      fun hmem => hold (Graph.mem_definitions.mpr (Or.inl (Graph.mem_givenNames.mp hmem)))
    have hconstant := (padding.given_iff.mp hgiven).resolve_left
      fun h => hbefore (Graph.mem_givenNames.mpr h)
    rw [List.count_eq_zero.mpr hwritten, padding.givenNames_eq, List.count_append,
      List.count_eq_zero.mpr hbefore, List.count_eq_one_of_mem padding.constants_nodup hconstant]
  · have houtput := (Graph.mem_definitions.mp hnew).resolve_left hgiven
    obtain ⟨node, hnode, hmem⟩ := List.mem_flatMap.mp houtput
    rw [(padding.single_source node hnode name ⟨hname, hmem⟩).1,
      List.count_eq_zero.mpr fun hmem => hgiven (Graph.mem_givenNames.mp hmem)]

theorem not_mem_definitions {name : String} (hmade : name ∈ names.all) :
    name ∉ old.definitions := by
  rw [Graph.mem_definitions]
  rintro (hgiven | houtput)
  · exact padding.fresh name hmade (padding.old_coherent.reserved.mem_names_of_given hgiven)
  · obtain ⟨node, hnode, hmem⟩ := List.mem_flatMap.mp houtput
    exact padding.fresh name hmade (padding.old_coherent.reserved.mem_names_of_writes hnode
      ⟨padding.nonempty name hmade, hmem⟩)

/-- No subgraph uses a name that padding makes for a value of its own. -/
theorem not_mem_scopedNames {name : String} (hmade : name ∈ names.all) {node : Node}
    (hnode : node ∈ new.nodes) : name ∉ node.message.scopedNames := by
  rcases padding.mem_nodes.mp hnode with ⟨other, hother, rfl⟩ | rfl | rfl
  · have hscoped := padding.not_mem_scopedNames_of_old hmade hother
    rw [Node.redirect, Node.scopedNames_replaceInput]
    exact hscoped
  · exact List.not_mem_nil
  · exact List.not_mem_nil

theorem structured {report : OutputReport}
    (hintermediate : report.intermediate = some names.intermediate)
    (hinitializers : report.addedInitializers =
      [names.zeros, names.starts, names.ends, names.axes]) :
    Structured report old new := by
  refine ⟨padding.ordered, ?_, ?_, padding.inputs_eq, fun _ => padding.input_needed⟩
  · intro name hnew hname hold
    refine ⟨padding.count_definitions hnew hname hold, fun node hnode => ?_⟩
    exact padding.not_mem_scopedNames (padding.mem_all_of_defined hnew hold) hnode
  · intro name hname
    rw [hintermediate, hinitializers] at hname
    rcases List.mem_cons.mp hname with rfl | hconstant
    · have hmade : names.intermediate ∈ names.all := by simp [PaddingNames.all]
      refine ⟨Graph.mem_definitions.mpr (Or.inr ?_), padding.nonempty _ hmade,
        padding.not_mem_definitions hmade⟩
      exact List.count_pos_iff.mp (Nat.lt_of_lt_of_eq Nat.one_pos padding.count_intermediate.symm)
    · have hmade := PaddingNames.mem_all_of_constant hconstant
      refine ⟨Graph.mem_definitions.mpr (Or.inl ?_), padding.nonempty _ hmade,
        padding.not_mem_definitions hmade⟩
      exact padding.given_iff.mpr (Or.inr hconstant)

end ValidPadding

end Fixing

end FixedShape
