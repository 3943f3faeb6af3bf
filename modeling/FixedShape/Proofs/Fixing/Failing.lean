/-
Module: FixedShape.Proofs.Fixing.Failing
Purpose: What a step of fixing has done when it fails. It fails before it changes anything that is
  saved: at most a name was put into use for a constant that could not be made.
-/
import FixedShape.Proofs.Fixing.Running
import FixedShape.Proofs.Graph.Names

namespace FixedShape.Fixing

variable {α β : Type} {before after : Workspace} {error : FixError}

/-- A step fails: from the workspace before it, it gives an error and the workspace that it
leaves. -/
def Fails (step : Fixing α) (before : Workspace) (error : FixError) (after : Workspace) : Prop :=
  (ExceptT.run step).run before = (.error error, after)

/-- A step succeeds, whatever its result. -/
def Passes (step : Fixing α) (before : Workspace) : Prop :=
  ∃ result after, Runs step before result after

/-- A step either succeeds or fails. -/
theorem passes_or_fails (step : Fixing α) (before : Workspace) :
    Passes step before ∨ ∃ error after, Fails step before error after := by
  rcases hrun : (ExceptT.run step).run before with ⟨outcome, after⟩
  cases outcome with
  | ok result => exact Or.inl ⟨result, after, hrun⟩
  | error error => exact Or.inr ⟨error, after, hrun⟩

theorem Fails.not_passes {step : Fixing α} (h : Fails step before error after) :
    ¬ Passes step before := by
  rintro ⟨result, final, hrun⟩
  cases h.symm.trans hrun

/-- A sequence succeeds if its first step does, and then the rest from where it ended. -/
theorem passes_bind {step : Fixing α} {next : α → Fixing β} :
    Passes (step >>= next) before ↔
      ∃ a between, Runs step before a between ∧ Passes (next a) between := by
  constructor
  · rintro ⟨result, after, hrun⟩
    obtain ⟨a, between, hfirst, hrest⟩ := runs_bind.mp hrun
    exact ⟨a, between, hfirst, result, after, hrest⟩
  · rintro ⟨a, between, hfirst, result, after, hrest⟩
    exact ⟨result, after, runs_bind.mpr ⟨a, between, hfirst, hrest⟩⟩

/-- A step behind a refusal succeeds if the reason of the refusal is absent. -/
theorem passes_ite_throw {refused : Prop} [Decidable refused] {thrown : FixError}
    {skipped : β → Fixing α} {step : Fixing α} :
    Passes (if refused then throw thrown >>= skipped else step) before ↔
      ¬ refused ∧ Passes step before := by
  unfold Passes
  simp only [runs_ite_throw, exists_and_left]

theorem not_passes_throw {thrown : FixError} : ¬ Passes (throw thrown : Fixing α) before :=
  fun ⟨_, _, hrun⟩ => not_runs_throw hrun

/-! ### Failing -/

theorem fails_throw {thrown : FixError} :
    Fails (throw thrown : Fixing α) before error after ↔ error = thrown ∧ after = before := by
  constructor
  · intro h
    cases h
    exact ⟨rfl, rfl⟩
  · rintro ⟨rfl, rfl⟩
    rfl

/-- A sequence of steps fails with the first, or else with the rest from where the first ended. -/
theorem fails_bind {step : Fixing α} {next : α → Fixing β} :
    Fails (step >>= next) before error after ↔
      Fails step before error after ∨
        ∃ a between, Runs step before a between ∧ Fails (next a) between error after := by
  unfold Fails Runs
  rw [run_bind]
  rcases (ExceptT.run step).run before with ⟨outcome, between⟩
  cases outcome with
  | error thrown =>
      constructor
      · intro h
        cases h
        exact Or.inl rfl
      · rintro (hfirst | ⟨_, _, hrun, _⟩)
        · cases hfirst
          rfl
        · cases hrun
  | ok a =>
      constructor
      · intro h
        exact Or.inr ⟨a, between, rfl, h⟩
      · rintro (hfirst | ⟨_, _, hrun, hrest⟩)
        · cases hfirst
        · cases hrun
          exact hrest

/-- A step behind a refusal fails with the refusal, or without its reason on its own. -/
theorem fails_ite_throw {refused : Prop} [Decidable refused] {thrown : FixError}
    {skipped : β → Fixing α} {step : Fixing α} :
    Fails (if refused then throw thrown >>= skipped else step) before error after ↔
      (refused ∧ error = thrown ∧ after = before) ∨
        ¬ refused ∧ Fails step before error after := by
  by_cases h : refused
  · rw [if_pos h, fails_bind, fails_throw]
    simp [h, not_runs_throw]
  · simp [h]

/-! ### Steps that cannot fail -/

/-- A step that succeeds on every workspace. -/
def Unfailing (step : Fixing α) : Prop := ∀ before, Passes step before

theorem unfailing_pure (a : α) : Unfailing (pure a) := fun before => ⟨a, before, rfl⟩

theorem unfailing_get : Unfailing (get : Fixing Workspace) := fun before => ⟨before, before, rfl⟩

theorem unfailing_graph : Unfailing graph := fun before => ⟨before.model.graph, before, rfl⟩

theorem unfailing_setGraph (graph : Graph) : Unfailing (setGraph graph) :=
  fun _ => ⟨(), _, rfl⟩

theorem unfailing_tell (level : LogLevel) (message : String) : Unfailing (tell level message) :=
  fun _ => ⟨(), _, rfl⟩

theorem Unfailing.bind {step : Fixing α} {next : α → Fixing β} (h : Unfailing step)
    (hnext : ∀ a, Unfailing (next a)) : Unfailing (step >>= next) := by
  intro before
  obtain ⟨a, between, hrun⟩ := h before
  exact passes_bind.mpr ⟨a, between, hrun, hnext a between⟩

theorem unfailing_forM {step : α → Fixing Unit} (h : ∀ item, Unfailing (step item))
    (items : List α) : Unfailing (items.forM step) := by
  induction items with
  | nil => exact unfailing_pure ()
  | cons item rest ih => exact (h item).bind fun _ => ih

theorem Unfailing.not_fails {step : Fixing α} (h : Unfailing step) :
    ¬ Fails step before error after :=
  fun hfails => hfails.not_passes (h before)

/-- A sequence that begins with a step that cannot fail fails with the rest. -/
theorem Unfailing.fails_bind {step : Fixing α} {next : α → Fixing β} (h : Unfailing step) :
    Fails (step >>= next) before error after ↔
      ∃ a between, Runs step before a between ∧ Fails (next a) between error after := by
  rw [Fixing.fails_bind]
  exact or_iff_right h.not_fails

/-- Fixing one input cannot fail: without an input of the name there is nothing to do. -/
theorem unfailing_fixInput (length : Nat) (name : String) : Unfailing (fixInput length name) := by
  refine unfailing_graph.bind fun graph => ?_
  split
  · exact unfailing_pure ()
  · refine (unfailing_setGraph _).bind fun _ => (unfailing_tell _ _).bind fun _ => ?_
    split
    · exact unfailing_tell _ _
    · exact unfailing_pure ()

theorem unfailing_declareOutput (output : String) (length : Nat) :
    Unfailing (declareOutput output length) :=
  unfailing_graph.bind fun _ => (unfailing_setGraph _).bind fun _ =>
    (unfailing_tell _ _).bind fun _ => unfailing_pure _

/-! ### What a failure has changed -/

/-- A failure to fix inputs comes before any change. -/
theorem Fails.model_eq_of_fixInputs {selector : TensorSelector} {length : Nat}
    (h : Fails (fixInputs selector length) before error after) : after.model = before.model := by
  unfold fixInputs at h
  simp only [fails_ite_throw] at h
  rcases h with ⟨_, _, rfl⟩ | ⟨_, ⟨_, _, rfl⟩ | ⟨_, h⟩⟩
  · rfl
  · rfl
  · rw [unfailing_graph.fails_bind] at h
    obtain ⟨_, between, hgraph, h⟩ := h
    obtain ⟨rfl, rfl⟩ := runs_graph.mp hgraph
    split at h
    · rw [(fails_throw.mp h).2]
    · next names _ =>
        have hloop := unfailing_forM (unfailing_fixInput length) names
        exact absurd h (hloop.bind fun _ => unfailing_pure names).not_fails

/-- Padding fails only where a check does, and then with the error of the check, or where there are
no zeros, and has then at most put the name of its zeros into use. -/
theorem Fails.cases_padOutput {output : String} {options : OutputOptions}
    (h : Fails (padOutput output options) before error after) :
    (paddingBasis before.model output options = .error error ∧ after = before) ∨
      ∃ basis, paddingBasis before.model output options = .ok basis ∧
        Initializer.zeros? (before.model.graph.uniqueName "padding_zeros").1 basis.elemType
          options.length = none ∧
        error = .unsupportedElementType output basis.elemType ∧
        ∃ names, after.model =
          { before.model with graph := { before.model.graph with names } } := by
  unfold padOutput at h
  rw [unfailing_get.fails_bind] at h
  obtain ⟨_, between, hrun, h⟩ := h
  obtain ⟨rfl, rfl⟩ := runs_get.mp hrun
  dsimp only at h
  split at h
  · next hrefused =>
      obtain ⟨rfl, rfl⟩ := fails_throw.mp h
      exact Or.inl ⟨hrefused, rfl⟩
  · next basis hbasis =>
      obtain ⟨_, told, htell, h⟩ := (unfailing_tell _ _).fails_bind.mp h
      obtain ⟨_, reserved, hset, h⟩ := (unfailing_setGraph _).fails_bind.mp h
      split at h
      · next hzeros =>
          obtain ⟨rfl, rfl⟩ := fails_throw.mp h
          refine Or.inr ⟨basis, hbasis, hzeros, rfl, ?_⟩
          rw [runs_setGraph.mp hset, htell.model_eq_of_tell, Graph.uniqueName, Graph.reserve_eq]
          exact ⟨_, rfl⟩
      · -- once the zeros are there, nothing that follows can fail
        refine absurd h (Unfailing.not_fails ?_)
        refine (unfailing_setGraph _).bind fun _ => ?_
        refine (unfailing_forM (fun _ => unfailing_tell _ _) _).bind fun _ => ?_
        exact (unfailing_tell _ _).bind fun _ => unfailing_pure _

/-- A failure to pad has at most put a name into use, and where the checks pass there are no
zeros. -/
theorem Fails.of_padOutput {output : String} {options : OutputOptions}
    (h : Fails (padOutput output options) before error after) :
    (∃ names, after.model =
        { before.model with graph := { before.model.graph with names } }) ∧
      ∀ basis, paddingBasis before.model output options = .ok basis →
        Initializer.zeros? (before.model.graph.uniqueName "padding_zeros").1 basis.elemType
          options.length = none := by
  rcases h.cases_padOutput with ⟨hrefused, rfl⟩ | ⟨basis, hbasis, hzeros, _, hnames⟩
  · rw [hrefused]
    exact ⟨⟨after.model.graph.names, rfl⟩, nofun⟩
  · refine ⟨hnames, fun found hfound => ?_⟩
    rw [hbasis] at hfound
    obtain rfl := Except.ok.inj hfound
    exact hzeros

/-- Padding succeeds exactly if the checks pass and there are zeros. -/
theorem passes_padOutput {output : String} {options : OutputOptions} :
    Passes (padOutput output options) before ↔
      ∃ basis zeros, paddingBasis before.model output options = .ok basis ∧
        Initializer.zeros? (before.model.graph.uniqueName "padding_zeros").1 basis.elemType
          options.length = some zeros := by
  constructor
  · rintro ⟨report, after, hrun⟩
    obtain ⟨run⟩ := hrun.of_padOutput
    exact ⟨run.basis, run.zeros, run.basis_eq, run.zeros_eq⟩
  · rintro ⟨basis, zeros, hbasis, hzeros⟩
    refine (passes_or_fails _ before).resolve_right ?_
    rintro ⟨error, after, hfails⟩
    cases hzeros.symm.trans (hfails.of_padOutput.2 basis hbasis)

/-- A failure to fix an output has at most put a name into use. -/
theorem Fails.model_eq_of_fixOutput {selector : TensorSelector} {options : OutputOptions}
    (h : Fails (fixOutput selector options) before error after) :
    ∃ names, after.model =
      { before.model with graph := { before.model.graph with names } } := by
  have hsame : after.model = before.model → ∃ names, after.model =
      { before.model with graph := { before.model.graph with names } } :=
    fun heq => ⟨before.model.graph.names, heq⟩
  unfold fixOutput at h
  simp only [fails_ite_throw] at h
  rcases h with ⟨_, _, rfl⟩ | ⟨_, ⟨_, _, rfl⟩ | ⟨_, h⟩⟩
  · exact hsame rfl
  · exact hsame rfl
  · rw [unfailing_graph.fails_bind] at h
    obtain ⟨_, between, hgraph, h⟩ := h
    obtain ⟨rfl, rfl⟩ := runs_graph.mp hgraph
    split at h
    · exact hsame (by rw [(fails_throw.mp h).2])
    · split at h
      · exact hsame (by rw [(fails_throw.mp h).2])
      · rcases fails_bind.mp h with hcheck | ⟨_, checked, hcheck, h⟩
        · exact hsame ((keepsModel_checkOverflow _ _ _).model_eq hcheck)
        · split at h
          · exact absurd h (unfailing_declareOutput _ _).not_fails
          · rw [← (keepsModel_checkOverflow _ _ _).model_eq hcheck]
            exact h.of_padOutput.1
    · exact hsame (by rw [(fails_throw.mp h).2])

/-! ### What is saved -/

/-- Two models of one message, whose graphs list the same producers of every name and the same
captures of every node. -/
structure SavedAlike (old new : Model) : Prop where
  message_eq : new.toMessage = old.toMessage
  producers_eq : ∀ name, new.graph.producers name = old.graph.producers name
  captures_eq : ∀ id, (new.graph.node? id).map (·.captures) = (old.graph.node? id).map (·.captures)

/-- Whatever the model, a failure to fix an output leaves all that is saved of it, its producers and
its captures, and a failure to fix inputs leaves the whole model. -/
theorem failure_changes_nothing_saved (before : Workspace) (selector : TensorSelector) :
    (∀ options error after, Fails (fixOutput selector options) before error after →
        SavedAlike before.model after.model) ∧
      ∀ length error after, Fails (fixInputs selector length) before error after →
        after.model = before.model := by
  refine ⟨fun options error after h => ?_, fun length error after h => h.model_eq_of_fixInputs⟩
  obtain ⟨names, hmodel⟩ := h.model_eq_of_fixOutput
  rw [hmodel]
  exact ⟨rfl, fun _ => rfl, fun _ => rfl⟩

/-- There are no zeros among texts, which is noticed when the name of the zeros is in use already. -/
theorem failure_changes_nothing_saved_texts :
    let node := ((Node.new "Identity").withInput "x").withOutput "x"
    let texts : Graph := (({} : Graph).addOutput (.new "x" (some (.other 8)) none)).addNode node
    let before : Workspace := { model := .new texts 17 }
    ∃ padded declared,
      Fails (fixOutput (.exactly ["x"]) { mode := .structural, length := 4 }) before
        (.unsupportedElementType "x" (.other 8)) padded ∧
      padded.model.graph.names = ["padding_zeros", "x"] ∧ SavedAlike before.model padded.model ∧
      Fails (fixInputs (.exactly ["x"]) 4) before
        (.noTargetInput { missing := ["x"], candidates := [] }) declared ∧
      declared.model = before.model := by
  intro node texts before
  have hpadded := (failure_changes_nothing_saved before (.exactly ["x"])).1
    { mode := .structural, length := 4 }
  have hdeclared := (failure_changes_nothing_saved before (.exactly ["x"])).2 4
  refine ⟨_, _, rfl, rfl, hpadded _ _ rfl, rfl, hdeclared _ _ rfl⟩

end FixedShape.Fixing
