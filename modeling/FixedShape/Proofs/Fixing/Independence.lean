/-
Module: FixedShape.Proofs.Fixing.Independence
Purpose: Fixing inputs and fixing an output in either order. Fixing an output neither reads nor
  writes the declarations of inputs, and fixing inputs touches nothing else, so both orders come to
  the same.
-/
import FixedShape.Proofs.Fixing.InputLaws

namespace FixedShape

/-! ### Other declarations of inputs -/

namespace Graph

/-- A graph with other declarations of its inputs. -/
def withInputs (inputs : List TensorInfo) (graph : Graph) : Graph := { graph with inputs }

section

variable (inputs : List TensorInfo) (graph : Graph)

@[simp] theorem reserve_withInputs (name : String) :
    (graph.withInputs inputs).reserve name = (graph.reserve name).withInputs inputs := by
  rw [reserve_eq, reserve_eq]
  rfl

@[simp] theorem uniqueName_withInputs (base : String) :
    (graph.withInputs inputs).uniqueName base =
      ((graph.uniqueName base).1, (graph.uniqueName base).2.withInputs inputs) := by
  unfold uniqueName
  dsimp only
  rw [reserve_withInputs]
  rfl

@[simp] theorem renameOutput_withInputs (id : NodeId) (source target : String) :
    (graph.withInputs inputs).renameOutput id source target =
      ((graph.renameOutput id source target).1.withInputs inputs,
        (graph.renameOutput id source target).2) := by
  have hnode : (graph.withInputs inputs).node? id = graph.node? id := rfl
  unfold renameOutput
  rw [hnode, reserve_withInputs]
  cases graph.node? id with
  | none => rfl
  | some node =>
      dsimp only
      cases (node.renameOutput source target).2 with
      | true => rfl
      | false => rfl

@[simp] theorem replaceUses_withInputs (source target : String) (exclude : List NodeId) :
    (graph.withInputs inputs).replaceUses source target exclude =
      ((graph.replaceUses source target exclude).1.withInputs inputs,
        (graph.replaceUses source target exclude).2) := by
  have hnodes : (graph.withInputs inputs).indexedNodes = graph.indexedNodes := rfl
  unfold replaceUses
  rw [hnodes, reserve_withInputs]
  dsimp only
  split
  · rfl
  · rfl

@[simp] theorem renameValueInfo_withInputs (source target : String) :
    (graph.withInputs inputs).renameValueInfo source target =
      ((graph.renameValueInfo source target).1.withInputs inputs,
        (graph.renameValueInfo source target).2) := by
  have hinfo : (graph.withInputs inputs).valueInfo? source = graph.valueInfo? source := rfl
  unfold renameValueInfo
  rw [hinfo, reserve_withInputs]
  cases graph.valueInfo? source with
  | none => rfl
  | some info => rfl

@[simp] theorem addInitializer_withInputs (init : Initializer) :
    (graph.withInputs inputs).addInitializer init =
      (graph.addInitializer init).withInputs inputs := by
  unfold addInitializer
  rw [reserve_withInputs]
  rfl

@[simp] theorem reserveAll_withInputs (names : List String) :
    (graph.withInputs inputs).reserveAll names = (graph.reserveAll names).withInputs inputs := by
  unfold reserveAll
  induction names generalizing graph with
  | nil => rfl
  | cons name rest ih =>
      rw [List.foldl_cons, List.foldl_cons, reserve_withInputs, ← ih]
      split
      · rfl
      · rfl

@[simp] theorem addNode_withInputs (node : Node) :
    (graph.withInputs inputs).addNode node = (graph.addNode node).withInputs inputs := by
  unfold addNode
  rw [reserveAll_withInputs]
  rfl

@[simp] theorem modifyOutput_withInputs (name : String) (change : TensorInfo → TensorInfo) :
    (graph.withInputs inputs).modifyOutput name change =
      (graph.modifyOutput name change).withInputs inputs := rfl

end

end Graph

/-- A model with other declarations of its inputs. -/
def Model.withInputs (inputs : List TensorInfo) (model : Model) : Model :=
  { model with graph := model.graph.withInputs inputs }

theorem Fixing.padGraph_withInputs (inputs : List TensorInfo) (graph : Graph) (output : String)
    (basis : PaddingBasis) (zeros : Initializer) (options : OutputOptions) :
    padGraph output basis zeros options (graph.withInputs inputs) =
      ((padGraph output basis zeros options graph).1.withInputs inputs,
        (padGraph output basis zeros options graph).2) := by
  unfold padGraph
  simp only [Graph.uniqueName_withInputs, Graph.renameOutput_withInputs,
    Graph.replaceUses_withInputs, Graph.renameValueInfo_withInputs, Graph.addInitializer_withInputs,
    Graph.addNode_withInputs, Graph.modifyOutput_withInputs]

namespace Fixing

variable {α β : Type} {inputs : List TensorInfo}

/-! ### Steps that do not read them -/

/-- Two steps go together: on models that differ in the declarations of inputs only, they have the
same outcome and leave models that differ in the same way. What was told is left out. -/
def Follows (inputs : List TensorInfo) (step other : Fixing α) : Prop :=
  ∀ before changed : Workspace, changed.model = before.model.withInputs inputs →
    ((ExceptT.run other).run changed).1 = ((ExceptT.run step).run before).1 ∧
      ((ExceptT.run other).run changed).2.model =
        ((ExceptT.run step).run before).2.model.withInputs inputs

theorem follows_pure (a : α) : Follows inputs (pure a) (pure a) := fun _ _ h => ⟨rfl, h⟩

theorem follows_throw (error : FixError) :
    Follows inputs (throw error : Fixing α) (throw error) := fun _ _ h => ⟨rfl, h⟩

theorem follows_tell (level : LogLevel) (message : String) :
    Follows inputs (tell level message) (tell level message) := fun _ _ h => ⟨rfl, h⟩

theorem follows_setGraph (graph : Graph) :
    Follows inputs (setGraph graph) (setGraph (graph.withInputs inputs)) := by
  intro before changed h
  refine ⟨rfl, ?_⟩
  change { changed.model with graph := graph.withInputs inputs } = _
  rw [h]
  rfl

theorem Follows.ite {condition : Prop} [Decidable condition] {step other next last : Fixing α}
    (h : Follows inputs step other) (hnext : Follows inputs next last) :
    Follows inputs (if condition then step else next) (if condition then other else last) := by
  split
  · exact h
  · exact hnext

theorem follows_ite_throw {refused : Prop} [Decidable refused] {error : FixError}
    {skipped skipped' : β → Fixing α} {step other : Fixing α} (h : Follows inputs step other) :
    Follows inputs (if refused then throw error >>= skipped else step)
      (if refused then throw error >>= skipped' else other) := by
  split
  · exact fun _ _ hchanged => ⟨rfl, hchanged⟩
  · exact h

theorem Follows.bind {step other : Fixing α} {next last : α → Fixing β}
    (h : Follows inputs step other) (hnext : ∀ a, Follows inputs (next a) (last a)) :
    Follows inputs (step >>= next) (other >>= last) := by
  intro before changed hchanged
  obtain ⟨houtcome, hmodel⟩ := h before changed hchanged
  rw [run_bind, run_bind]
  rcases hstep : (ExceptT.run step).run before with ⟨outcome, between⟩
  rcases hother : (ExceptT.run other).run changed with ⟨outcome', between'⟩
  rw [hstep, hother] at houtcome hmodel
  cases houtcome
  cases outcome with
  | error error => exact ⟨rfl, hmodel⟩
  | ok a => exact hnext a between between' hmodel

/-- What follows a look at the workspace may use it in so far as it is the same for other inputs. -/
theorem follows_get {next last : Workspace → Fixing α}
    (h : ∀ before changed : Workspace, changed.model = before.model.withInputs inputs →
      Follows inputs (next before) (last changed)) :
    Follows inputs (get >>= next) (get >>= last) :=
  fun before changed hchanged => h before changed hchanged before changed hchanged

/-- What follows a look at the graph, likewise. -/
theorem follows_graph {next last : Graph → Fixing α}
    (h : ∀ graph : Graph, Follows inputs (next graph) (last (graph.withInputs inputs))) :
    Follows inputs (graph >>= next) (graph >>= last) := by
  refine follows_get fun before changed hchanged => ?_
  have hgraph : changed.model.graph = before.model.graph.withInputs inputs := by rw [hchanged]; rfl
  change Follows inputs (next before.model.graph) (last changed.model.graph)
  rw [hgraph]
  exact h before.model.graph

theorem follows_forM {step : β → Fixing Unit} (h : ∀ item, Follows inputs (step item) (step item))
    (items : List β) : Follows inputs (items.forM step) (items.forM step) := by
  induction items with
  | nil => exact follows_pure ()
  | cons item rest ih => exact (h item).bind fun _ => ih

theorem follows_checkOverflow (output : String) (shape? : Option Shape) (options : OutputOptions) :
    Follows inputs (checkOverflow output shape? options) (checkOverflow output shape? options) := by
  unfold checkOverflow
  split
  · exact .ite (follows_throw _) (follows_pure _)
  · exact .ite (follows_tell _ _) (follows_pure _)
  · exact .ite (follows_tell _ _) (follows_pure _)
  · exact follows_pure _

theorem follows_declareOutput (output : String) (length : Nat) :
    Follows inputs (declareOutput output length) (declareOutput output length) :=
  follows_graph fun _ => (follows_setGraph _).bind fun _ =>
    (follows_tell _ _).bind fun _ => follows_pure _

theorem follows_padOutput (output : String) (options : OutputOptions) :
    Follows inputs (padOutput output options) (padOutput output options) := by
  unfold padOutput
  refine follows_get fun before changed hchanged => ?_
  have hbasis : paddingBasis changed.model output options =
      paddingBasis before.model output options := by rw [hchanged]; rfl
  have hgraph : changed.model.graph = before.model.graph.withInputs inputs := by rw [hchanged]; rfl
  dsimp only
  rw [hbasis, hgraph]
  split
  · exact follows_throw _
  · next basis _ =>
      rw [Graph.uniqueName_withInputs]
      refine (follows_tell _ _).bind fun _ => (follows_setGraph _).bind fun _ => ?_
      dsimp only
      split
      · exact follows_throw _
      · next zeros _ =>
          rw [padGraph_withInputs]
          rcases padGraph output basis zeros options
            (before.model.graph.uniqueName "padding_zeros").2 with ⟨graph, names, rewired⟩
          have hlabel : (graph.withInputs inputs).nodeLabel = graph.nodeLabel := rfl
          dsimp only
          rw [hlabel]
          refine (follows_setGraph _).bind fun _ => ?_
          refine (follows_forM (fun _ => follows_tell _ _) _).bind fun _ => ?_
          exact (follows_tell _ _).bind fun _ => follows_pure _

/-- Fixing an output neither reads nor writes the declarations of inputs. -/
theorem follows_fixOutput (inputs : List TensorInfo) (selector : TensorSelector)
    (options : OutputOptions) :
    Follows inputs (fixOutput selector options) (fixOutput selector options) := by
  unfold fixOutput
  refine follows_ite_throw (follows_ite_throw (follows_graph fun graph => ?_))
  have houtputs : (graph.withInputs inputs).outputs = graph.outputs := rfl
  have houtput : (graph.withInputs inputs).output? = graph.output? := rfl
  rw [houtputs, houtput]
  split
  · exact follows_throw _
  · split
    · exact follows_throw _
    · refine (follows_checkOverflow _ _ _).bind fun _ => ?_
      split
      · exact follows_declareOutput _ _
      · exact follows_padOutput _ _
  · exact follows_throw _

/-! ### Logs -/

/-- What a step makes of a model does not depend on what was told before. -/
def IgnoresLog (step : Fixing α) : Prop :=
  ∀ before result after, (∃ log, Runs step before result { model := after, log }) ↔
    Makes step before.model result after

theorem ignoresLog_pure (a : α) : IgnoresLog (pure a) := by
  intro before result after
  constructor
  · rintro ⟨log, hrun⟩
    obtain ⟨rfl, rfl⟩ := runs_pure.mp hrun
    exact ⟨[], rfl⟩
  · rintro ⟨log, hrun⟩
    obtain ⟨rfl, hafter⟩ := runs_pure.mp hrun
    cases hafter
    exact ⟨before.log, rfl⟩

/-- A sequence makes what its rest makes of what its first step makes. -/
theorem IgnoresLog.runs_bind {step : Fixing α} {next : α → Fixing β} (h : IgnoresLog step)
    (hnext : ∀ a, IgnoresLog (next a)) {before : Workspace} {result : β} {after : Model} :
    (∃ log, Runs (step >>= next) before result { model := after, log }) ↔
      ∃ a between, Makes step before.model a between ∧ Makes (next a) between result after := by
  simp only [Fixing.runs_bind]
  constructor
  · rintro ⟨log, a, between, hstep, hrest⟩
    exact ⟨a, between.model, (h ..).mp ⟨between.log, hstep⟩, (hnext a ..).mp ⟨log, hrest⟩⟩
  · rintro ⟨a, between, hstep, hrest⟩
    obtain ⟨told, hrun⟩ := (h before a between).mpr hstep
    obtain ⟨log, hlast⟩ := (hnext a { model := between, log := told } result after).mpr hrest
    exact ⟨log, a, _, hrun, hlast⟩

theorem IgnoresLog.bind {step : Fixing α} {next : α → Fixing β} (h : IgnoresLog step)
    (hnext : ∀ a, IgnoresLog (next a)) : IgnoresLog (step >>= next) := by
  intro before result after
  rw [Makes, h.runs_bind hnext, h.runs_bind hnext]

theorem makes_pure {a result : α} {model after : Model} :
    Makes (pure a) model result after ↔ result = a ∧ after = model := by
  simp only [Makes, runs_pure, Workspace.mk.injEq, exists_and_left, exists_eq, and_true]

theorem makes_bind {step : Fixing α} {next : α → Fixing β} (h : IgnoresLog step)
    (hnext : ∀ a, IgnoresLog (next a)) {model after : Model} {result : β} :
    Makes (step >>= next) model result after ↔
      ∃ a between, Makes step model a between ∧ Makes (next a) between result after :=
  h.runs_bind hnext

/-- Of two steps whose results are put together, the second starts with what the first makes. -/
theorem makes_both {γ : Type} {step : Fixing α} {other : Fixing β} (h : IgnoresLog step)
    (hother : IgnoresLog other) {together : α → β → γ} {model after : Model} {result : γ} :
    Makes (do let a ← step; let b ← other; return together a b) model result after ↔
      ∃ a b between, Makes step model a between ∧ Makes other between b after ∧
        result = together a b := by
  have hlast := fun a => hother.bind fun b => ignoresLog_pure (together a b)
  rw [makes_bind h hlast]
  simp only [makes_bind hother fun _ => ignoresLog_pure _, makes_pure]
  constructor
  · rintro ⟨a, between, hstep, b, _, hlater, rfl, rfl⟩
    exact ⟨a, b, between, hstep, hlater, rfl⟩
  · rintro ⟨a, b, between, hstep, hlater, rfl⟩
    exact ⟨a, between, hstep, b, after, hlater, rfl, rfl⟩

/-! ### Outputs -/

section

variable {model after : Model} {report : OutputReport} {selector : TensorSelector}
  {options : OutputOptions}

theorem Follows.runs {step : Fixing α} (h : Follows inputs step step) {before : Workspace}
    {result : α} {log : Log} (hrun : Runs step before result { model := after, log })
    (changed : Workspace) (hchanged : changed.model = before.model.withInputs inputs) :
    ∃ told, Runs step changed result { model := after.withInputs inputs, log := told } := by
  obtain ⟨houtcome, hmodel⟩ := h before changed hchanged
  rw [hrun] at houtcome hmodel
  exact ⟨_, Prod.ext houtcome (by rw [← hmodel])⟩

theorem Follows.makes {step : Fixing α} (h : Follows inputs step step) {result : α}
    (hmakes : Makes step model result after) :
    Makes step (model.withInputs inputs) result (after.withInputs inputs) := by
  obtain ⟨log, hrun⟩ := hmakes
  exact h.runs hrun _ rfl

/-- Fixing an output leaves the declarations of inputs. -/
theorem withInputs_of_fixOutput {before : Workspace} {log : Log}
    (h : Runs (fixOutput selector options) before report { model := after, log }) :
    after.withInputs before.model.graph.inputs = after := by
  have hfollows := follows_fixOutput before.model.graph.inputs selector options
  obtain ⟨told, hsame⟩ := hfollows.runs h before rfl
  exact congrArg (·.2.model) (hsame.symm.trans h)

theorem inputs_of_fixOutput (h : Makes (fixOutput selector options) model report after) :
    after.graph.inputs = model.graph.inputs := by
  obtain ⟨log, hrun⟩ := h
  exact (congrArg (·.graph.inputs) (withInputs_of_fixOutput hrun)).symm

theorem ignoresLog_fixOutput (selector : TensorSelector) (options : OutputOptions) :
    IgnoresLog (fixOutput selector options) := by
  intro before report after
  have hfollows := follows_fixOutput before.model.graph.inputs selector options
  constructor
  · rintro ⟨log, hrun⟩
    have hother := hfollows.runs hrun { model := before.model } rfl
    rwa [withInputs_of_fixOutput hrun] at hother
  · rintro ⟨log, hrun⟩
    have hother := hfollows.runs hrun before rfl
    rwa [withInputs_of_fixOutput hrun] at hother

/-- Fixing an output of a model with other inputs makes the same of it, with the other inputs. -/
theorem makes_fixOutput_withInputs :
    Makes (fixOutput selector options) (model.withInputs inputs) report after ↔
      ∃ between, Makes (fixOutput selector options) model report between ∧
        after = between.withInputs inputs := by
  constructor
  · intro h
    -- the old inputs are put back, and then the other ones once more
    have hold := (follows_fixOutput model.graph.inputs selector options).makes h
    have hagain := (follows_fixOutput inputs selector options).makes hold
    exact ⟨after.withInputs model.graph.inputs, hold, (hagain.unique h).2⟩
  · rintro ⟨between, h, rfl⟩
    exact (follows_fixOutput inputs selector options).makes h

/-! ### Inputs -/

/-- The declarations of inputs after those of the names were fixed, one after the other. -/
def declaredSequences (length : Nat) (names : List String) (infos : List TensorInfo) :
    List TensorInfo :=
  names.foldl (fun infos name => modifyInfo name (·.setShape (sequenceShape length)) infos) infos

theorem foldl_declareSequence_eq_withInputs (length : Nat) (names : List String) (model : Model) :
    names.foldl (declareSequence length) model =
      model.withInputs (declaredSequences length names model.graph.inputs) := by
  induction names generalizing model with
  | nil => rfl
  | cons name rest ih => exact ih (declareSequence length model name)

/-- What fixing inputs reads and writes are the declarations of inputs. -/
theorem runs_fixInputs {length : Nat} {names : List String} {before : Workspace} :
    (∃ log, Runs (fixInputs selector length) before names { model := after, log }) ↔
      0 < length ∧ length ≤ maxInt64 ∧
        selector.select (before.model.graph.inputs.map (·.name)) = .ok names ∧
        after = before.model.withInputs
          (declaredSequences length names before.model.graph.inputs) := by
  constructor
  · rintro ⟨log, hrun⟩
    obtain ⟨hpos, hsmall, hselect, hmodel⟩ := hrun.of_fixInputs
    exact ⟨hpos, hsmall, hselect, hmodel.trans (foldl_declareSequence_eq_withInputs ..)⟩
  · rintro ⟨hpos, hsmall, hselect, rfl⟩
    obtain ⟨chosen, done, hrun⟩ := passes_fixInputs.mpr ⟨hpos, hsmall, names, hselect⟩
    obtain ⟨_, _, hchosen, hmodel⟩ := hrun.of_fixInputs
    obtain rfl := Except.ok.inj (hchosen.symm.trans hselect)
    refine ⟨done.log, ?_⟩
    rw [← foldl_declareSequence_eq_withInputs, ← hmodel]
    exact hrun

theorem makes_fixInputs_withInputs {length : Nat} {names : List String} :
    Makes (fixInputs selector length) model names after ↔
      0 < length ∧ length ≤ maxInt64 ∧
        selector.select (model.graph.inputs.map (·.name)) = .ok names ∧
        after = model.withInputs (declaredSequences length names model.graph.inputs) :=
  runs_fixInputs

theorem ignoresLog_fixInputs (selector : TensorSelector) (length : Nat) :
    IgnoresLog (fixInputs selector length) := by
  intro before names after
  rw [Makes, runs_fixInputs, runs_fixInputs]

end

/-! ### Orders -/

/-- Fixes inputs and then an output. -/
def inputsThenOutput (inputs : TensorSelector) (length : Nat) (output : TensorSelector)
    (options : OutputOptions) : Fixing FixReport := do
  let fixedInputs ← fixInputs inputs length
  let report ← fixOutput output options
  return { fixedInputs, output := report }

/-- Fixes an output and then inputs. -/
def outputThenInputs (inputs : TensorSelector) (length : Nat) (output : TensorSelector)
    (options : OutputOptions) : Fixing FixReport := do
  let report ← fixOutput output options
  let fixedInputs ← fixInputs inputs length
  return { fixedInputs, output := report }

section

variable {selector output : TensorSelector} {length : Nat} {options : OutputOptions}
  {model after : Model} {report : FixReport}

theorem makes_inputsThenOutput :
    Makes (inputsThenOutput selector length output options) model report after ↔
      ∃ between, Makes (fixInputs selector length) model report.fixedInputs between ∧
        Makes (fixOutput output options) between report.output after := by
  unfold inputsThenOutput
  rw [makes_both (ignoresLog_fixInputs selector length) (ignoresLog_fixOutput output options)]
  constructor
  · rintro ⟨names, fixed, between, hinputs, houtput, rfl⟩
    exact ⟨between, hinputs, houtput⟩
  · rintro ⟨between, hinputs, houtput⟩
    exact ⟨_, _, between, hinputs, houtput, rfl⟩

theorem makes_outputThenInputs :
    Makes (outputThenInputs selector length output options) model report after ↔
      ∃ between, Makes (fixOutput output options) model report.output between ∧
        Makes (fixInputs selector length) between report.fixedInputs after := by
  unfold outputThenInputs
  rw [makes_both (ignoresLog_fixOutput output options) (ignoresLog_fixInputs selector length)]
  constructor
  · rintro ⟨fixed, names, between, houtput, hinputs, rfl⟩
    exact ⟨between, houtput, hinputs⟩
  · rintro ⟨between, houtput, hinputs⟩
    exact ⟨_, _, between, houtput, hinputs, rfl⟩

/-- The same is made in either order. -/
theorem makes_either_order :
    Makes (inputsThenOutput selector length output options) model report after ↔
      Makes (outputThenInputs selector length output options) model report after := by
  rw [makes_inputsThenOutput, makes_outputThenInputs]
  simp only [makes_fixInputs_withInputs]
  constructor
  · rintro ⟨_, ⟨hpos, hsmall, hselect, rfl⟩, houtput⟩
    obtain ⟨between, hfixed, rfl⟩ := makes_fixOutput_withInputs.mp houtput
    have hinputs := inputs_of_fixOutput hfixed
    rw [← hinputs] at hselect ⊢
    exact ⟨between, hfixed, hpos, hsmall, hselect, rfl⟩
  · rintro ⟨between, hfixed, hpos, hsmall, hselect, rfl⟩
    have hinputs := inputs_of_fixOutput hfixed
    rw [hinputs] at hselect ⊢
    exact ⟨_, ⟨hpos, hsmall, hselect, rfl⟩, makes_fixOutput_withInputs.mpr ⟨between, hfixed, rfl⟩⟩

end

theorem passes_iff_makes {step : Fixing α} {model : Model} :
    Passes step { model } ↔ ∃ result after, Makes step model result after := by
  constructor
  · rintro ⟨result, after, hrun⟩
    exact ⟨result, after.model, after.log, hrun⟩
  · rintro ⟨result, after, log, hrun⟩
    exact ⟨result, { model := after, log }, hrun⟩

end Fixing

end FixedShape
