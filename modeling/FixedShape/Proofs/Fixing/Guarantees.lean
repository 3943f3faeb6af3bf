/-
Module: FixedShape.Proofs.Fixing.Guarantees
Purpose: What a successful fixing guarantees. The chosen inputs and the chosen output have the
  lengths that were asked for, all other declarations are as they were, and the graph is accepted.
-/
import FixedShape.Proofs.Fixing.StaysValid

namespace FixedShape

/-! ### Choices -/

namespace TensorSelector

/-- The names that a choice is about. -/
def names : TensorSelector → List String
  | .exactly names => names
  | .anyOf names => names

/-- A choice succeeds with the available names that it is about, if all that must exist are
available, and if it finds one where not all must exist. -/
theorem select_eq_ok {selector : TensorSelector} {available chosen : List String} :
    selector.select available = .ok chosen ↔
      available.filter (· ∈ selector.names) = chosen ∧
        match selector with
        | .exactly names => ∀ name ∈ names, name ∈ available
        | .anyOf _ => chosen ≠ [] := by
  cases selector with
  | exactly names =>
      have hmissing : (names.filter (· ∉ available)).isEmpty = true ↔
          ∀ name ∈ names, name ∈ available := by
        simp [List.filter_eq_nil_iff]
      simp only [select]
      split
      · next h =>
          have hall := hmissing.mp h
          exact ⟨fun heq => ⟨Except.ok.inj heq, hall⟩, fun hparts => congrArg Except.ok hparts.1⟩
      · next h =>
          exact ⟨nofun, fun hparts => absurd (hmissing.mpr hparts.2) h⟩
  | anyOf names =>
      simp only [select]
      split
      · next h =>
          refine ⟨nofun, fun hparts => absurd ?_ hparts.2⟩
          rw [← hparts.1]
          exact List.isEmpty_iff.mp h
      · next h =>
          refine ⟨fun heq => ?_, fun hparts => congrArg Except.ok hparts.1⟩
          have hchosen := Except.ok.inj heq
          refine ⟨hchosen, fun hnil => h (List.isEmpty_iff.mpr ?_)⟩
          rw [hchosen, hnil]

/-- What is chosen of the available names are those that the choice is about. -/
theorem eq_filter_of_select {selector : TensorSelector} {available chosen : List String}
    (h : selector.select available = .ok chosen) :
    chosen = available.filter (· ∈ selector.names) :=
  (select_eq_ok.mp h).1.symm

theorem mem_of_select {selector : TensorSelector} {available chosen : List String}
    (h : selector.select available = .ok chosen) {name : String} :
    name ∈ chosen ↔ name ∈ available ∧ name ∈ selector.names := by
  rw [eq_filter_of_select h, List.mem_filter, decide_eq_true_eq]

end TensorSelector

namespace Fixing

variable {before after : Workspace}

/-! ### Inputs -/

/-- Declares the names in a list to hold one sequence. -/
def declareInputs (length : Nat) (names : List String) (info : TensorInfo) : TensorInfo :=
  if info.name ∈ names then info.setShape (sequenceShape length) else info

/-- A length that can be declared is read back. -/
theorem shape?_setShape_sequence {length : Nat} (h : length ≤ maxInt64) (info : TensorInfo) :
    (info.setShape (sequenceShape length)).shape? = some [.fixed 1, .fixed length] := by
  have hsizes : ∀ size ∈ [1, length], size ≤ maxInt64 :=
    List.forall_mem_cons.mpr ⟨by decide, List.forall_mem_singleton.mpr h⟩
  exact TensorInfo.shape?_setShape hsizes info

theorem name_declareInputs (length : Nat) (names : List String) (info : TensorInfo) :
    (declareInputs length names info).name = info.name := by
  unfold declareInputs
  split
  · rfl
  · rfl

/-- Declaring names one after the other declares each once, if no input and no name is repeated. -/
theorem inputs_foldl_declareSequence {length : Nat} {names : List String} {model : Model}
    (hinputs : (model.graph.inputs.map (·.name)).Nodup) (hnames : names.Nodup) :
    (names.foldl (declareSequence length) model).graph.inputs =
      model.graph.inputs.map (declareInputs length names) := by
  induction names generalizing model with
  | nil =>
      have hkeep : declareInputs length [] = id := by
        funext info
        exact if_neg List.not_mem_nil
      rw [hkeep, List.map_id]
      rfl
  | cons name rest ih =>
      obtain ⟨hname, hrest⟩ := List.nodup_cons.mp hnames
      have hkeep := TensorInfo.name_setShape (sequenceShape length)
      have hnext : ((declareSequence length model name).graph.inputs.map (·.name)).Nodup := by
        rw [declareSequence, Graph.modifyInput, map_name_modifyInfo name hkeep]
        exact hinputs
      rw [List.foldl_cons, ih hnext hrest, declareSequence, Graph.modifyInput,
        modifyInfo_eq_map hinputs, List.map_map]
      refine List.map_congr_left fun info _ => ?_
      simp only [Function.comp_apply, declareInputs]
      by_cases hfirst : info.name = name
      · simp [hfirst, hname]
      · simp [hfirst]

/-- Declaring names one after the other changes inputs and nothing else. -/
theorem foldl_declareSequence_eq (length : Nat) (names : List String) (model : Model) :
    names.foldl (declareSequence length) model =
      { model with
        graph :=
          { model.graph with
            inputs := (names.foldl (declareSequence length) model).graph.inputs } } := by
  induction names generalizing model with
  | nil => rfl
  | cons name rest ih => exact ih (declareSequence length model name)

/-- A model with names declared to hold one sequence. -/
def declareNames (length : Nat) (names : List String) (model : Model) : Model :=
  { model with
    graph :=
      { model.graph with inputs := model.graph.inputs.map (declareInputs length names) } }

/-- Fixing inputs declares the chosen ones, if no input is declared twice. -/
theorem Runs.model_eq_declareNames {selector : TensorSelector} {length : Nat} {names : List String}
    (hnodup : (before.model.graph.inputs.map (·.name)).Nodup)
    (h : Runs (fixInputs selector length) before names after) :
    after.model = declareNames length names before.model := by
  obtain ⟨_, _, hselect, hmodel⟩ := h.of_fixInputs
  have hnames : names.Nodup := TensorSelector.eq_filter_of_select hselect ▸ hnodup.filter _
  rw [hmodel, foldl_declareSequence_eq, inputs_foldl_declareSequence hnodup hnames, declareNames]

/-- Fixing inputs fixes those that are chosen, if no input is declared twice. -/
theorem Runs.declarations_of_fixInputs {selector : TensorSelector} {length : Nat}
    {names : List String} (hnodup : (before.model.graph.inputs.map (·.name)).Nodup)
    (h : Runs (fixInputs selector length) before names after) :
    (∀ name, name ∈ names ↔
        name ∈ before.model.graph.inputs.map (·.name) ∧ name ∈ selector.names) ∧
      after.model.graph.inputs = before.model.graph.inputs.map (declareInputs length names) ∧
      after.model.graph.outputs = before.model.graph.outputs := by
  obtain ⟨_, _, hselect, _⟩ := h.of_fixInputs
  rw [h.model_eq_declareNames hnodup]
  exact ⟨fun name => TensorSelector.mem_of_select hselect, rfl, rfl⟩

/-! ### Outputs -/

/-- Fixing an output keeps the graph coherent and its inputs, and declares the chosen output
anew. -/
theorem Runs.declarations_of_fixOutput {selector : TensorSelector} {options : OutputOptions}
    {report : OutputReport} (coherent : before.model.graph.Coherent)
    (h : Runs (fixOutput selector options) before report after) :
    (report.output ∈ before.model.graph.outputs.map (·.name) ∧ report.output ∈ selector.names) ∧
      after.model.graph.Coherent ∧ after.model.graph.inputs = before.model.graph.inputs ∧
      ∃ change : TensorInfo → TensorInfo,
        (∀ info, (change info).name = info.name ∧
          (change info).shape? = some [.fixed options.length]) ∧
        after.model.graph.outputs =
          modifyInfo report.output change before.model.graph.outputs := by
  obtain ⟨output, hselect, hreport, _, _, hlength, hmodel⟩ := h.of_fixOutput
  have hchosen := (TensorSelector.mem_of_select hselect).mp (List.mem_singleton_self output)
  have hshape : ∀ info : TensorInfo,
      (info.setShape [.fixed options.length]).shape? = some [.fixed options.length] :=
    TensorInfo.shape?_setShape (List.forall_mem_singleton.mpr hlength)
  have hname := TensorInfo.name_setShape [.fixed options.length]
  rw [hreport]
  cases hmode : options.mode with
  | declarative =>
      rw [hmode] at hmodel
      rw [hmodel]
      exact ⟨hchosen, coherent.modifyOutput output hname, rfl, _,
        fun info => ⟨hname info, hshape info⟩, rfl⟩
  | structural =>
      rw [hmode] at hmodel
      obtain ⟨run⟩ := hmodel
      have padding := run.coherentPadding coherent
      refine ⟨hchosen, padding.coherent, padding.inputs_eq,
        declarePadded run.basis options.length, ?_, padding.outputs_eq⟩
      exact fun info => ⟨rfl, hshape (info.setElemType run.basis.elemType)⟩

/-! ### What is guaranteed -/

/-- An input before and after fixing. Its sizes are those that are read from the numbers stored in
the declaration. -/
structure InputFixed (options : FixOptions) (report : FixReport) (old new : TensorInfo) : Prop where
  name_eq : new.name = old.name
  fixed : new.name ∈ report.fixedInputs →
    new.shape? = some [.fixed 1, .fixed options.seqLength] ∧ new.elemType? = old.elemType?
  kept : new.name ∉ report.fixedInputs → new = old

/-- An output before and after fixing. -/
structure OutputFixed (options : FixOptions) (report : FixReport) (old new : TensorInfo) :
    Prop where
  name_eq : new.name = old.name
  fixed : new.name = report.output.output → new.shape? = some [.fixed options.outputLength]
  kept : new.name ≠ report.output.output → new = old

/-- What fixing guarantees of the graph that it makes of another. -/
structure Guaranteed (options : FixOptions) (report : FixReport) (old new : Graph) : Prop where
  seqLength : 0 < options.seqLength ∧ options.seqLength ≤ maxInt64
  inputs_chosen : ∀ info ∈ new.inputs,
    info.name ∈ report.fixedInputs ↔ info.name ∈ options.inputs.names
  inputs_once : ∀ name ∈ report.fixedInputs, (new.inputs.map (·.name)).count name = 1
  inputs : List.Forall₂ (InputFixed options report) old.inputs new.inputs
  outputLength : 0 < options.outputLength ∧ options.outputLength ≤ maxInt64
  output_chosen : report.output.output ∈ options.output.names
  output_once : (new.outputs.map (·.name)).count report.output.output = 1
  outputs : List.Forall₂ (OutputFixed options report) old.outputs new.outputs
  accepted : new.validate
    { allowUnusedInputs := options.allowUnusedInputs
      requireStatic := report.fixedInputs ++ [report.output.output] } = .ok ()

/-- Inputs that are declared once are fixed where they are chosen, and kept elsewhere. -/
theorem inputs_fixed {options : FixOptions} {report : FixReport} {old : List TensorInfo}
    (hlength : options.seqLength ≤ maxInt64) :
    List.Forall₂ (InputFixed options report) old
      (old.map (declareInputs options.seqLength report.fixedInputs)) := by
  rw [List.forall₂_map_right_iff, List.forall₂_same]
  intro info _
  have hname := name_declareInputs options.seqLength report.fixedInputs info
  refine ⟨hname, ?_, ?_⟩
  · intro hmem
    rw [hname] at hmem
    rw [declareInputs, if_pos hmem]
    exact ⟨shape?_setShape_sequence hlength info, TensorInfo.elemType?_setShape _ info⟩
  · intro hmem
    rw [hname] at hmem
    rw [declareInputs, if_neg hmem]

/-- An output that is declared once is fixed where it is chosen, and kept elsewhere. -/
theorem outputs_fixed {options : FixOptions} {report : FixReport} {old : List TensorInfo}
    {change : TensorInfo → TensorInfo} (hnodup : (old.map (·.name)).Nodup)
    (hchange : ∀ info, (change info).name = info.name ∧
      (change info).shape? = some [.fixed options.outputLength]) :
    List.Forall₂ (OutputFixed options report) old
      (modifyInfo report.output.output change old) := by
  rw [modifyInfo_eq_map hnodup, List.forall₂_map_right_iff, List.forall₂_same]
  intro info _
  by_cases hname : info.name = report.output.output
  · rw [if_pos hname]
    refine ⟨(hchange info).1, fun _ => (hchange info).2, fun hne => ?_⟩
    exact absurd ((hchange info).1.trans hname) hne
  · rw [if_neg hname]
    exact ⟨rfl, fun heq => absurd heq hname, fun _ => rfl⟩

/-- What fixing a model makes of its declarations. Nothing is declared twice, as the graph was
accepted and no name has changed. -/
structure Declared (options : FixOptions) (report : FixReport) (old new : Graph) : Prop where
  coherent : new.Coherent
  inputs_nodup : (old.inputs.map (·.name)).Nodup
  outputs_nodup : (old.outputs.map (·.name)).Nodup
  inputs_chosen : ∀ name, name ∈ report.fixedInputs ↔
    name ∈ old.inputs.map (·.name) ∧ name ∈ options.inputs.names
  output_chosen : report.output.output ∈ old.outputs.map (·.name) ∧
    report.output.output ∈ options.output.names
  inputs_eq : new.inputs = old.inputs.map (declareInputs options.seqLength report.fixedInputs)
  outputs_eq : ∃ change : TensorInfo → TensorInfo,
    (∀ info, (change info).name = info.name ∧
      (change info).shape? = some [.fixed options.outputLength]) ∧
    new.outputs = modifyInfo report.output.output change old.outputs

namespace Declared

variable {options : FixOptions} {report : FixReport} {old new : Graph}
  (declared : Declared options report old new)

include declared

theorem map_name_inputs : new.inputs.map (·.name) = old.inputs.map (·.name) := by
  rw [declared.inputs_eq, List.map_map]
  exact List.map_congr_left fun info _ => name_declareInputs _ _ info

theorem map_name_outputs : new.outputs.map (·.name) = old.outputs.map (·.name) := by
  obtain ⟨change, hchange, houtputs⟩ := declared.outputs_eq
  rw [houtputs, map_name_modifyInfo _ fun info => (hchange info).1]

end Declared

theorem Runs.declared_of_fixModel {options : FixOptions} {report : FixReport}
    (coherent : before.model.graph.Coherent) (h : Runs (fixModel options) before report after) :
    Declared options report before.model.graph after.model.graph := by
  obtain ⟨declared, fixed, hinputs, houtput, haccepted, hafter⟩ := h.of_fixModel
  obtain ⟨hredeclared, _, hcoherent⟩ := redeclared_of_fixInputs hinputs
  obtain ⟨houtputChosen, hfixed, hkept, change, hchange, houtputs⟩ :=
    houtput.declarations_of_fixOutput (hcoherent coherent)
  have wf := (Graph.validate_eq_ok_iff hfixed.indexed).mp haccepted
  have hinputsOnce : (before.model.graph.inputs.map (·.name)).Nodup := by
    rw [← hredeclared.inputs_eq, ← hkept]
    exact wf.inputs_nodup
  obtain ⟨hchosen, hdeclared, hkeptOutputs⟩ := hinputs.declarations_of_fixInputs hinputsOnce
  rw [hkeptOutputs] at houtputChosen houtputs
  have houtputsOnce : (before.model.graph.outputs.map (·.name)).Nodup := by
    rw [← map_name_modifyInfo report.output.output fun info => (hchange info).1, ← houtputs]
    exact wf.outputs_nodup
  rw [hafter]
  exact
    { coherent := hfixed
      inputs_nodup := hinputsOnce
      outputs_nodup := houtputsOnce
      inputs_chosen := hchosen
      output_chosen := houtputChosen
      inputs_eq := hkept.trans hdeclared
      outputs_eq := ⟨change, hchange, houtputs⟩ }

end Fixing

end FixedShape
