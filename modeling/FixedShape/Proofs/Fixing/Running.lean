/-
Module: FixedShape.Proofs.Fixing.Running
Purpose: What a step of fixing has done when it succeeds. The log is left out: no step reads it.
-/
import FixedShape.Fixing.FixModel
import FixedShape.Proofs.Outcome
import FixedShape.Proofs.Tensor.Declarations
import Mathlib.Data.List.Basic

namespace FixedShape.Fixing

variable {α β : Type} {before after : Workspace}

/-- A step succeeds: from the workspace before it, it gives a result and the workspace after it. -/
def Runs (step : Fixing α) (before : Workspace) (result : α) (after : Workspace) : Prop :=
  (ExceptT.run step).run before = (.ok result, after)

theorem runs_pure {a result : α} :
    Runs (pure a) before result after ↔ result = a ∧ after = before := by
  constructor
  · intro h
    cases h
    exact ⟨rfl, rfl⟩
  · rintro ⟨rfl, rfl⟩
    rfl

theorem not_runs_throw {error : FixError} {result : α} :
    ¬ Runs (throw error) before result after := by
  intro h
  cases h

theorem run_bind (step : Fixing α) (next : α → Fixing β) (before : Workspace) :
    (ExceptT.run (step >>= next)).run before =
      match (ExceptT.run step).run before with
      | (.ok a, between) => (ExceptT.run (next a)).run between
      | (.error error, between) => (.error error, between) := by
  unfold ExceptT.run StateT.run
  simp only [bind, ExceptT.bind, ExceptT.mk, StateT.bind, ExceptT.bindCont]
  rcases step before with ⟨outcome, between⟩
  cases outcome with
  | ok a => rfl
  | error error => rfl

/-- A sequence of steps succeeds if the first does, and then the rest from where it ended. -/
theorem runs_bind {step : Fixing α} {next : α → Fixing β} {result : β} :
    Runs (step >>= next) before result after ↔
      ∃ a between, Runs step before a between ∧ Runs (next a) between result after := by
  unfold Runs
  rw [run_bind]
  rcases (ExceptT.run step).run before with ⟨outcome, between⟩
  cases outcome with
  | error error =>
      constructor
      · intro h
        cases h
      · rintro ⟨_, _, ⟨⟩, _⟩
  | ok a =>
      constructor
      · intro h
        exact ⟨a, between, rfl, h⟩
      · rintro ⟨_, _, ⟨⟩, h⟩
        exact h

/-- A step behind a refusal runs if the reason of the refusal is absent. -/
theorem runs_ite_throw {refused : Prop} [Decidable refused] {error : FixError} {β : Type}
    {skipped : β → Fixing α} {step : Fixing α} {result : α} :
    Runs (if refused then throw error >>= skipped else step) before result after ↔
      ¬ refused ∧ Runs step before result after := by
  split
  · next h =>
      refine iff_of_false ?_ (fun hrefused => hrefused.1 h)
      intro hrun
      obtain ⟨_, _, hthrow, _⟩ := runs_bind.mp hrun
      exact not_runs_throw hthrow
  · next h => exact (and_iff_right h).symm

theorem runs_graph {result : Graph} :
    Runs graph before result after ↔ result = before.model.graph ∧ after = before := by
  constructor
  · intro h
    cases h
    exact ⟨rfl, rfl⟩
  · rintro ⟨rfl, rfl⟩
    rfl

theorem runs_get {result : Workspace} :
    Runs get before result after ↔ result = before ∧ after = before := by
  constructor
  · intro h
    cases h
    exact ⟨rfl, rfl⟩
  · rintro ⟨rfl, rfl⟩
    rfl

theorem runs_setGraph {graph : Graph} {result : Unit} :
    Runs (setGraph graph) before result after ↔
      after = { before with model := { before.model with graph } } := by
  constructor
  · intro h
    cases h
    rfl
  · rintro rfl
    rfl

/-- A step that leaves the model, whatever comes of it. -/
def KeepsModel (step : Fixing α) : Prop :=
  ∀ before, ((ExceptT.run step).run before).2.model = before.model

theorem KeepsModel.model_eq {step : Fixing α} (h : KeepsModel step) {outcome : Except FixError α}
    (hrun : (ExceptT.run step).run before = (outcome, after)) : after.model = before.model := by
  have hkept := h before
  rw [hrun] at hkept
  exact hkept

theorem KeepsModel.ite {asked : Prop} [Decidable asked] {step other : Fixing α}
    (hstep : KeepsModel step) (hother : KeepsModel other) :
    KeepsModel (if asked then step else other) := by
  split
  · exact hstep
  · exact hother

theorem keepsModel_pure (a : α) : KeepsModel (pure a) := fun _ => rfl

theorem keepsModel_throw (error : FixError) : KeepsModel (throw error : Fixing α) := fun _ => rfl

theorem keepsModel_tell (level : LogLevel) (message : String) : KeepsModel (tell level message) :=
  fun _ => rfl

/-- Telling something leaves the model. -/
theorem Runs.model_eq_of_tell {level : LogLevel} {message : String} {result : Unit}
    (h : Runs (tell level message) before result after) : after.model = before.model :=
  (keepsModel_tell level message).model_eq h

/-- If a step does the same to every model, a list of such steps does it once for each item. -/
theorem Runs.model_eq_of_forM {step : α → Fixing Unit} {change : Model → α → Model}
    (hstep : ∀ {item before result after}, Runs (step item) before result after →
      after.model = change before.model item)
    {items : List α} {result : Unit} (h : Runs (items.forM step) before result after) :
    after.model = items.foldl change before.model := by
  induction items generalizing before with
  | nil =>
      cases h
      rfl
  | cons item rest ih =>
      obtain ⟨_, between, hfirst, hrest⟩ := runs_bind.mp h
      rw [ih hrest, hstep hfirst, List.foldl_cons]

/-! ### Inputs -/

/-- Declares the first input of a name to hold one sequence. -/
def declareSequence (length : Nat) (model : Model) (name : String) : Model :=
  { model with graph := model.graph.modifyInput name (·.setShape (sequenceShape length)) }

/-- Fixing a name changes the shape of the first input of the name, if there is one. -/
theorem Runs.model_eq_of_fixInput {length : Nat} {name : String} {result : Unit}
    (h : Runs (fixInput length name) before result after) :
    after.model = declareSequence length before.model name := by
  obtain ⟨found, between, hgraph, h⟩ := runs_bind.mp h
  obtain ⟨rfl, rfl⟩ := runs_graph.mp hgraph
  cases hinput : between.model.graph.input? name with
  | none =>
      rw [hinput] at h
      obtain ⟨_, rfl⟩ := runs_pure.mp h
      rw [declareSequence, Graph.modifyInput, modifyInfo_eq_self hinput]
  | some info =>
      rw [hinput] at h
      simp only [runs_bind] at h
      obtain ⟨_, _, hset, _, told, htell, h⟩ := h
      have hmodel : told.model = declareSequence length between.model name := by
        rw [htell.model_eq_of_tell, runs_setGraph.mp hset, declareSequence]
      rw [← hmodel]
      split at h
      · exact h.model_eq_of_tell
      · rw [(runs_pure.mp h).2]

/-- Fixing inputs fixes the chosen names one after the other, to a length that can be declared. -/
theorem Runs.of_fixInputs {selector : TensorSelector} {length : Nat} {names : List String}
    (h : Runs (fixInputs selector length) before names after) :
    0 < length ∧ length ≤ maxInt64 ∧
      selector.select (before.model.graph.inputs.map (·.name)) = .ok names ∧
      after.model = names.foldl (declareSequence length) before.model := by
  unfold fixInputs at h
  simp only [runs_ite_throw] at h
  obtain ⟨hpos, hsmall, h⟩ := h
  obtain ⟨_, between, hgraph, h⟩ := runs_bind.mp h
  obtain ⟨rfl, rfl⟩ := runs_graph.mp hgraph
  split at h
  · exact absurd h not_runs_throw
  · next hselect =>
      obtain ⟨_, fixed, hloop, h⟩ := runs_bind.mp h
      obtain ⟨rfl, rfl⟩ := runs_pure.mp h
      exact ⟨Nat.pos_of_ne_zero hpos, Nat.le_of_not_lt hsmall, hselect,
        Runs.model_eq_of_forM Runs.model_eq_of_fixInput hloop⟩

/-! ### Outputs -/

/-- The overflow policy changes no model, whether it refuses the output or not. -/
theorem keepsModel_checkOverflow (output : String) (shape? : Option Shape)
    (options : OutputOptions) : KeepsModel (checkOverflow output shape? options) := by
  unfold checkOverflow
  split
  · exact .ite (keepsModel_throw _) (keepsModel_pure _)
  · exact .ite (keepsModel_tell _ _) (keepsModel_pure _)
  · exact .ite (keepsModel_tell _ _) (keepsModel_pure _)
  · exact keepsModel_pure _

/-- What declaring the length of an output makes of a model. -/
theorem Runs.of_declareOutput {output : String} {length : Nat} {report : OutputReport}
    (h : Runs (declareOutput output length) before report after) :
    report = { output, mode := .declarative } ∧
      after.model = { before.model with
        graph := before.model.graph.modifyOutput output (·.setShape [.fixed length]) } := by
  unfold declareOutput at h
  simp only [runs_bind, runs_pure] at h
  obtain ⟨_, between, hgraph, _, _, hset, _, told, htell, rfl, rfl⟩ := h
  obtain ⟨rfl, rfl⟩ := runs_graph.mp hgraph
  refine ⟨rfl, ?_⟩
  rw [htell.model_eq_of_tell, runs_setGraph.mp hset]

/-- What the checks before padding ask of a model, its output and the options, and what they find:
the declaration of the output and the basis. -/
structure PaddingBasis.Carries (basis : PaddingBasis) (model : Model) (output : String)
    (options : OutputOptions) (info : TensorInfo) : Prop where
  supported : ∃ version, model.opsetVersion? "" = some version ∧ minPaddingOpset ≤ version
  declared : model.graph.output? output = some info
  rank : ∀ shape, info.shape? = some shape → shape.length = 1
  axis : options.axis = 0 ∨ options.axis = -1
  fits : ∀ size, (info.elemType?.getD .float32).byteSize? = some size →
    size * options.length ≤ maxConstantBytes
  elemType_eq : basis.elemType = info.elemType?.getD .float32
  producers_eq : model.graph.producers output = [basis.producer]

theorem one_producer_eq_ok {elemType : ElementType} {producers : List NodeId}
    {error : List NodeId → FixError} {basis : PaddingBasis} :
    (match producers with
      | [producer] => .ok { elemType, producer }
      | producers => .error (error producers)) = Except.ok basis ↔
      basis.elemType = elemType ∧ producers = [basis.producer] := by
  split
  · rw [Except.ok.injEq, List.singleton_inj]
    constructor
    · rintro rfl
      exact ⟨rfl, rfl⟩
    · rintro ⟨rfl, rfl⟩
      rfl
  · next hmany => exact iff_of_false nofun fun h => hmany _ h.2

/-- The last two checks, as they stand in either branch of the check of the rank. -/
theorem sized_producer_eq_ok {size? : Option Nat} {length : Nat} {tooLarge : FixError}
    {skipped : PUnit → Except FixError PaddingBasis} {elemType : ElementType}
    {producers : List NodeId} {error : List NodeId → FixError} {basis : PaddingBasis} :
    (match size? with
      | some size =>
        if maxConstantBytes < size * length then throw tooLarge >>= skipped
        else
          match producers with
          | [producer] => .ok { elemType, producer }
          | producers => .error (error producers)
      | _ =>
        match producers with
        | [producer] => .ok { elemType, producer }
        | producers => .error (error producers)) = Except.ok basis ↔
      (∀ size, size? = some size → size * length ≤ maxConstantBytes) ∧
        basis.elemType = elemType ∧ producers = [basis.producer] := by
  cases size? with
  | none => simp [one_producer_eq_ok]
  | some size => simp [Outcome.ite_throw_eq_ok, one_producer_eq_ok]

/-- The checks pass and give a basis exactly if all that they ask is so. -/
theorem paddingBasis_eq_ok {model : Model} {output : String} {options : OutputOptions}
    {basis : PaddingBasis} :
    paddingBasis model output options = .ok basis ↔
      ∃ info, basis.Carries model output options info := by
  have hfields : (∃ info, basis.Carries model output options info) ↔
      (∃ version, model.opsetVersion? "" = some version ∧ minPaddingOpset ≤ version) ∧
      ∃ info, model.graph.output? output = some info ∧
        (∀ shape, info.shape? = some shape → shape.length = 1) ∧
        (options.axis = 0 ∨ options.axis = -1) ∧
        (∀ size, (info.elemType?.getD .float32).byteSize? = some size →
          size * options.length ≤ maxConstantBytes) ∧
        basis.elemType = info.elemType?.getD .float32 ∧
        model.graph.producers output = [basis.producer] := by
    constructor
    · rintro ⟨info, h⟩
      exact ⟨h.supported, info, h.declared, h.rank, h.axis, h.fits, h.elemType_eq, h.producers_eq⟩
    · rintro ⟨supported, info, declared, rank, axis, fits, elemType_eq, producers_eq⟩
      exact ⟨info, supported, declared, rank, axis, fits, elemType_eq, producers_eq⟩
  rw [hfields]
  unfold paddingBasis
  rw [Outcome.ite_throw_eq_ok]
  refine and_congr ?supported ?declared
  case supported => cases model.opsetVersion? "" <;> simp
  case declared =>
    cases model.graph.output? output with
    | none => exact iff_of_false nofun nofun
    | some info =>
        simp only [pure_bind, Option.some.injEq, exists_eq_left']
        cases info.shape? with
        | none =>
            simp only [Outcome.ite_throw_eq_ok, not_and_or, not_not, reduceCtorEq, false_implies,
              implies_true, true_and]
            exact and_congr_right fun _ => sized_producer_eq_ok
        | some shape =>
            simp only [Outcome.ite_throw_eq_ok, not_and_or, not_not, Option.some.injEq, forall_eq']
            exact and_congr_right fun _ => and_congr_right fun _ => sized_producer_eq_ok

/-- What padding rests on when it is possible. -/
theorem paddingBasis_sound {model : Model} {output : String} {options : OutputOptions}
    {basis : PaddingBasis} (h : paddingBasis model output options = .ok basis) :
    model.graph.producers output = [basis.producer] ∧ (options.axis = 0 ∨ options.axis = -1) ∧
      ∃ info, model.graph.output? output = some info ∧
        basis.elemType = info.elemType?.getD .float32 := by
  obtain ⟨info, hcarries⟩ := paddingBasis_eq_ok.mp h
  exact ⟨hcarries.producers_eq, hcarries.axis, info, hcarries.declared, hcarries.elemType_eq⟩

/-- What padding has found and made when it succeeds. -/
structure PaddingRun (output : String) (options : OutputOptions) (before : Model)
    (report : OutputReport) (after : Model) where
  basis : PaddingBasis
  zeros : Initializer
  names : PaddingNames
  rewired : List NodeId
  basis_eq : paddingBasis before output options = .ok basis
  zeros_eq : Initializer.zeros? (before.graph.uniqueName "padding_zeros").1 basis.elemType
    options.length = some zeros
  pad_eq : padGraph output basis zeros options (before.graph.uniqueName "padding_zeros").2 =
    (after.graph, names, rewired)
  message_eq : after.message = before.message
  report_eq : report =
    { output
      mode := .structural
      intermediate := some names.intermediate
      addedNodes := [names.concatNode, names.sliceNode]
      addedInitializers := [names.zeros, names.starts, names.ends, names.axes]
      rewired := rewired.map after.graph.nodeLabel }

theorem Runs.of_padOutput {output : String} {options : OutputOptions} {report : OutputReport}
    (h : Runs (padOutput output options) before report after) :
    Nonempty (PaddingRun output options before.model report after.model) := by
  unfold padOutput at h
  rw [runs_bind] at h
  obtain ⟨_, between, hget, h⟩ := h
  obtain ⟨rfl, rfl⟩ := runs_get.mp hget
  dsimp only at h
  split at h
  · exact absurd h not_runs_throw
  · next basis hbasis =>
      rw [runs_bind] at h
      obtain ⟨_, told, htell, h⟩ := h
      rw [runs_bind] at h
      obtain ⟨_, reserved, hreserved, h⟩ := h
      split at h
      · exact absurd h not_runs_throw
      · next zeros hzeros =>
          rcases hpad : padGraph output basis zeros options
            (between.model.graph.uniqueName "padding_zeros").2 with ⟨graph, names, rewired⟩
          rw [hpad] at h
          simp only [runs_bind, runs_pure] at h
          obtain ⟨_, padded, hpadded, _, logged, hlogged, _, done, hdone, hreport, rfl⟩ := h
          have hmodel : after.model = { between.model with graph } := by
            have hsame := @Runs.model_eq_of_forM _ _ _ _ (fun model _ => model)
              Runs.model_eq_of_tell _ _ hlogged
            rw [List.foldl_fixed] at hsame
            rw [hdone.model_eq_of_tell, hsame, runs_setGraph.mp hpadded,
              runs_setGraph.mp hreserved, ← htell.model_eq_of_tell]
          constructor
          refine
            { basis, zeros, names, rewired
              basis_eq := hbasis
              zeros_eq := hzeros
              pad_eq := ?_
              message_eq := ?_
              report_eq := ?_ }
          · rw [hmodel, hpad]
          · rw [hmodel]
          · rw [hreport, hmodel]

/-- Fixing an output either declares its length or pads it. -/
theorem Runs.of_fixOutput {selector : TensorSelector} {options : OutputOptions}
    {report : OutputReport} (h : Runs (fixOutput selector options) before report after) :
    ∃ output, selector.select (before.model.graph.outputs.map (·.name)) = .ok [output] ∧
      report.output = output ∧ report.mode = options.mode ∧
      0 < options.length ∧ options.length ≤ maxInt64 ∧
      match options.mode with
      | .declarative => after.model = { before.model with
          graph := before.model.graph.modifyOutput output (·.setShape [.fixed options.length]) }
      | .structural => Nonempty (PaddingRun output options before.model report after.model) := by
  unfold fixOutput at h
  simp only [runs_ite_throw] at h
  obtain ⟨hpos, hsmall, h⟩ := h
  rw [runs_bind] at h
  obtain ⟨_, between, hgraph, h⟩ := h
  obtain ⟨rfl, rfl⟩ := runs_graph.mp hgraph
  split at h
  · exact absurd h not_runs_throw
  · next output hselect =>
      refine ⟨output, hselect, ?_⟩
      split at h
      · exact absurd h not_runs_throw
      · next info hinfo =>
          rw [runs_bind] at h
          obtain ⟨_, checked, hcheck, h⟩ := h
          have hmodel := (keepsModel_checkOverflow _ _ _).model_eq hcheck
          have hlength : 0 < options.length ∧ options.length ≤ maxInt64 :=
            ⟨Nat.pos_of_ne_zero hpos, Nat.le_of_not_lt hsmall⟩
          cases hmode : options.mode with
          | declarative =>
              rw [hmode] at h
              obtain ⟨rfl, hafter⟩ := h.of_declareOutput
              rw [hmodel] at hafter
              exact ⟨rfl, rfl, hlength.1, hlength.2, hafter⟩
          | structural =>
              rw [hmode] at h
              obtain ⟨run⟩ := h.of_padOutput
              rw [hmodel] at run
              refine ⟨?_, ?_, hlength.1, hlength.2, ⟨run⟩⟩
              · rw [run.report_eq]
              · rw [run.report_eq]
  · exact absurd h not_runs_throw

/-! ### Models -/

/-- Fixing a model fixes the inputs and then the output, and accepts the result. -/
theorem Runs.of_fixModel {options : FixOptions} {report : FixReport}
    (h : Runs (fixModel options) before report after) :
    ∃ declared fixed, Runs (fixInputs options.inputs options.seqLength) before report.fixedInputs
        declared ∧
      Runs (fixOutput options.output options.outputOptions) declared report.output fixed ∧
      fixed.model.graph.validate
        { allowUnusedInputs := options.allowUnusedInputs
          requireStatic := report.fixedInputs ++ [report.output.output] } = .ok () ∧
      after.model = fixed.model := by
  obtain ⟨names, declared, hinputs, h⟩ := runs_bind.mp h
  obtain ⟨output, fixed, houtput, h⟩ := runs_bind.mp h
  obtain ⟨_, checked, hgraph, h⟩ := runs_bind.mp h
  obtain ⟨rfl, rfl⟩ := runs_graph.mp hgraph
  dsimp only at h
  split at h
  · exact absurd h not_runs_throw
  · next hvalid =>
      obtain ⟨_, told, htell, h⟩ := runs_bind.mp h
      obtain ⟨rfl, rfl⟩ := runs_pure.mp h
      exact ⟨declared, checked, hinputs, houtput, hvalid, htell.model_eq_of_tell⟩

/-! ### Successful runs -/

/-- Tells whether data is that of a model that passes a test and on which a step succeeds. -/
def succeeds (step : Fixing α) (test : Model → Bool) (bytes : Wire.Bytes) : Bool :=
  match Model.load bytes with
  | .error _ => false
  | .ok loaded => test loaded && (runOn step loaded).1.isOk

theorem exists_of_succeeds {step : Fixing α} {test : Model → Bool} {bytes : Wire.Bytes}
    (h : succeeds step test bytes = true) :
    ∃ loaded result after, Model.load bytes = .ok loaded ∧ test loaded = true ∧
      Runs step { model := loaded } result after := by
  unfold succeeds at h
  split at h
  · cases h
  · next loaded hload =>
      obtain ⟨htest, hok⟩ := Bool.and_eq_true_iff.mp h
      rcases hrun : runOn step loaded with ⟨outcome, after⟩
      rw [hrun] at hok
      cases outcome with
      | error error => cases hok
      | ok result => exact ⟨loaded, result, after, hload, htest, hrun⟩

end FixedShape.Fixing
