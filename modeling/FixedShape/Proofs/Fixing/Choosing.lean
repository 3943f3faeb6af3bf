/-
Module: FixedShape.Proofs.Fixing.Choosing
Purpose: Which error says that no single output was chosen. Exact names that are none at all make an
  exception: they choose nothing, and are reported as if they chose several.
-/
import FixedShape.Proofs.Fixing.Feasibility

namespace FixedShape

/-! ### Choices that find nothing -/

namespace TensorSelector

/-- The names that must be available. -/
def required : TensorSelector → List String
  | .exactly names => names
  | .anyOf _ => []

/-- The names that are reported when a choice fails: the required ones that are absent, or else all
that would have done. -/
def missing (selector : TensorSelector) (available : List String) : List String :=
  match selector with
  | .exactly names => names.filter (· ∉ available)
  | .anyOf names => names

/-- A choice misses if a required name is absent or if nothing that is available is chosen. A choice
that names nothing at all, exactly, does not miss. -/
def Misses (selector : TensorSelector) (available : List String) : Prop :=
  (∃ name ∈ selector.required, name ∉ available) ∨
    (selector ≠ .exactly [] ∧ ∀ name ∈ available, name ∉ selector.names)

instance (selector : TensorSelector) (available : List String) :
    Decidable (selector.Misses available) := inferInstanceAs (Decidable (_ ∨ _))

theorem misses_exactly {names available : List String} :
    (exactly names).Misses available ↔ ∃ name ∈ names, name ∉ available := by
  refine ⟨?_, Or.inl⟩
  rintro (habsent | ⟨hsome, hnone⟩)
  · exact habsent
  · obtain ⟨name, hname⟩ := List.exists_mem_of_ne_nil names fun hnil => hsome (by rw [hnil])
    exact ⟨name, hname, fun havailable => hnone name havailable hname⟩

theorem misses_anyOf {names available : List String} :
    (anyOf names).Misses available ↔ ∀ name ∈ available, name ∉ names := by
  refine ⟨?_, fun hnone => Or.inr ⟨nofun, hnone⟩⟩
  rintro (⟨_, habsent, _⟩ | ⟨_, hnone⟩)
  · cases habsent
  · exact hnone

/-- A choice fails exactly if it misses. -/
theorem select_eq_error {selector : TensorSelector} {available : List String}
    {error : SelectError} :
    selector.select available = .error error ↔
      selector.Misses available ∧
        error = { missing := selector.missing available, candidates := available } := by
  cases selector with
  | exactly names =>
      have hmissing : (names.filter (· ∉ available)).isEmpty = true ↔
          ¬ ∃ name ∈ names, name ∉ available := by
        simp [List.filter_eq_nil_iff]
      simp only [misses_exactly, select, hmissing]
      split
      · next h => exact iff_of_false (by rintro ⟨⟩) fun hparts => h hparts.1
      · next h =>
          rw [and_iff_right (not_not.mp h), Except.error.injEq]
          exact eq_comm
  | anyOf names =>
      have hmatched : (available.filter (· ∈ names)).isEmpty = true ↔
          ∀ name ∈ available, name ∉ names := by
        simp [List.filter_eq_nil_iff]
      simp only [misses_anyOf, select, hmatched]
      split
      · next h =>
          rw [and_iff_right h, Except.error.injEq]
          exact eq_comm
      · next h => exact iff_of_false (by rintro ⟨⟩) fun hparts => h hparts.1

/-- A choice that does not miss chooses the available names that it is about. -/
theorem select_of_not_misses {selector : TensorSelector} {available : List String}
    (h : ¬ selector.Misses available) :
    selector.select available = .ok (available.filter (· ∈ selector.names)) := by
  cases hselect : selector.select available with
  | error error => exact absurd (select_eq_error.mp hselect).1 h
  | ok chosen => rw [eq_filter_of_select hselect]

/-- A choice that does not miss chooses one name or several, if it names anything. -/
theorem several_of_not_misses {selector : TensorSelector} {available : List String}
    (h : ¬ selector.Misses available)
    (hmany : (available.filter (· ∈ selector.names)).length ≠ 1) :
    2 ≤ (available.filter (· ∈ selector.names)).length ∨ selector = .exactly [] := by
  by_contra hfew
  obtain ⟨hlt, hselector⟩ := not_or.mp hfew
  have hnone : available.filter (· ∈ selector.names) = [] := List.length_eq_zero_iff.mp (by omega)
  refine h (Or.inr ⟨hselector, fun name hname hchosen => ?_⟩)
  exact List.filter_eq_nil_iff.mp hnone name hname (decide_eq_true hchosen)

end TensorSelector

/-- The errors that say that no single output was chosen. -/
def FixError.OfChoice : FixError → Prop
  | .noTargetOutput _ | .ambiguousOutput _ => True
  | _ => False

namespace Fixing

variable {α : Type} {before after : Workspace} {error : FixError}

/-! ### After the choice -/

/-- Fixes the output that was chosen. -/
def fixChosen (info : TensorInfo) (options : OutputOptions) : Fixing OutputReport := do
  checkOverflow info.name info.shape? options
  match options.mode with
  | .declarative => declareOutput info.name options.length
  | .structural => padOutput info.name options

theorem Fails.of_checkOverflow {output : String} {shape? : Option Shape} {options : OutputOptions}
    (h : Fails (checkOverflow output shape? options) before error after) : ¬ error.OfChoice := by
  unfold checkOverflow at h
  split at h
  · split at h
    · obtain ⟨rfl, -⟩ := fails_throw.mp h
      exact id
    · exact absurd h (unfailing_pure ()).not_fails
  · split at h
    · exact absurd h (unfailing_tell _ _).not_fails
    · exact absurd h (unfailing_pure ()).not_fails
  · split at h
    · exact absurd h (unfailing_tell _ _).not_fails
    · exact absurd h (unfailing_pure ()).not_fails
  · exact absurd h (unfailing_pure ()).not_fails

/-- A check whose refusals are not about the choice. -/
def Unrelated {α : Type} (check : Except FixError α) : Prop :=
  ∀ error, check = .error error → ¬ error.OfChoice

theorem unrelated_pure {α : Type} (a : α) : Unrelated (pure a) := by
  rintro error ⟨⟩

theorem unrelated_throw {α : Type} {thrown : FixError} (h : ¬ thrown.OfChoice) :
    Unrelated (throw thrown : Except FixError α) := by
  rintro error ⟨⟩
  exact h

theorem unrelated_ite_throw {α β : Type} {refused : Prop} [Decidable refused] {thrown : FixError}
    {skipped : β → Except FixError α} {next : Except FixError α} (hthrown : ¬ thrown.OfChoice)
    (hnext : Unrelated next) : Unrelated (if refused then throw thrown >>= skipped else next) := by
  intro error herror
  rcases Outcome.ite_throw_eq_error.mp herror with ⟨_, rfl⟩ | ⟨_, herror⟩
  · exact hthrown
  · exact hnext error herror

/-- The checks before padding take the output that was chosen as given. -/
theorem unrelated_paddingBasis {model : Model} {output : String} {options : OutputOptions}
    {info : TensorInfo} (hinfo : model.graph.output? output = some info) :
    Unrelated (paddingBasis model output options) := by
  unfold paddingBasis
  refine unrelated_ite_throw id ?_
  simp only [hinfo, pure_bind]
  -- what follows are refusals one behind the other, none of which is about the choice
  repeat' first
    | exact unrelated_pure _
    | exact unrelated_throw id
    | refine unrelated_ite_throw id ?_
    | split

theorem Fails.of_fixChosen {info : TensorInfo} {options : OutputOptions}
    (hinfo : before.model.graph.output? info.name = some info)
    (h : Fails (fixChosen info options) before error after) : ¬ error.OfChoice := by
  rcases fails_bind.mp h with hcheck | ⟨_, checked, hcheck, h⟩
  · exact hcheck.of_checkOverflow
  · split at h
    · exact absurd h (unfailing_declareOutput _ _).not_fails
    · rw [← (keepsModel_checkOverflow _ _ _).model_eq hcheck] at hinfo
      rcases h.cases_padOutput with ⟨hrefused, -⟩ | ⟨basis, -, -, rfl, -⟩
      · exact unrelated_paddingBasis hinfo error hrefused
      · exact id

/-! ### The choice -/

/-- The one declaration that matches is the only choice, unless a required name is absent. -/
theorem exists_onlyChoice {selector : TensorSelector} {graph : Graph}
    (h : ¬ selector.Misses (graph.outputs.map (·.name)))
    (hone : ((graph.outputs.map (·.name)).filter (· ∈ selector.names)).length = 1) :
    ∃ info, OnlyChoice selector graph info := by
  rw [List.filter_map, List.length_map] at hone
  obtain ⟨info, matched⟩ := List.length_eq_one_iff.mp hone
  refine ⟨info, matched, ?_⟩
  rintro names rfl name hname
  by_contra habsent
  exact h (Or.inl ⟨name, hname, habsent⟩)

/-- A step that fails does so with one error and in one workspace. -/
theorem fails_iff_of_run {step : Fixing α} {thrown : FixError} {between : Workspace}
    (h : (ExceptT.run step).run before = (.error thrown, between)) :
    Fails step before error after ↔ error = thrown ∧ after = between := by
  constructor
  · intro hfails
    cases h.symm.trans hfails
    exact ⟨rfl, rfl⟩
  · rintro ⟨rfl, rfl⟩
    exact h

theorem run_graph : (ExceptT.run graph).run before = (.ok before.model.graph, before) := rfl

section

variable {selector : TensorSelector} {options : OutputOptions} (hpos : 1 ≤ options.length)
  (hle : options.length ≤ maxInt64)

include hpos hle

/-- A length that can be declared leaves it to the choice how the fixing of an output goes on. -/
theorem run_of_select_eq_error {missed : SelectError}
    (h : selector.select (before.model.graph.outputs.map (·.name)) = .error missed) :
    (ExceptT.run (fixOutput selector options)).run before =
      (.error (.noTargetOutput missed), before) := by
  unfold fixOutput
  rw [if_neg (by omega), if_neg (by omega), run_bind, run_graph]
  dsimp only
  rw [h]
  rfl

theorem run_of_onlyChoice {info : TensorInfo}
    (h : OnlyChoice selector before.model.graph info) :
    (ExceptT.run (fixOutput selector options)).run before =
      (ExceptT.run (fixChosen info options)).run before := by
  obtain ⟨hselect, hinfo⟩ := onlyChoice_iff.mp h
  unfold fixOutput
  rw [if_neg (by omega), if_neg (by omega), run_bind, run_graph]
  dsimp only
  rw [hselect]
  dsimp only
  rw [hinfo]
  rfl

theorem run_of_select_eq_ok {found : List String}
    (h : selector.select (before.model.graph.outputs.map (·.name)) = .ok found)
    (hmany : found.length ≠ 1) :
    (ExceptT.run (fixOutput selector options)).run before =
      (.error (.ambiguousOutput found), before) := by
  unfold fixOutput
  rw [if_neg (by omega), if_neg (by omega), run_bind, run_graph]
  dsimp only
  rw [h]
  match found with
  | [] => rfl
  | [_] => exact absurd rfl hmany
  | _ :: _ :: _ => rfl

/-- The errors of the choice say what happened. An output is missed if a required name is absent or
if no declaration matches; several match if at least two declarations do, which are then listed in
their order; and in all other cases the one that matches is fixed, with no more error of this kind.
The exception are no names at all, chosen exactly, which are reported as several. -/
theorem choice_errors (before : Workspace) :
    let available := before.model.graph.outputs.map (·.name)
    let matched := available.filter (· ∈ selector.names)
    (∀ error after, Fails (fixOutput selector options) before (.noTargetOutput error) after ↔
      selector.Misses available ∧
        error = { missing := selector.missing available, candidates := available } ∧
        after = before) ∧
    (∀ found after, Fails (fixOutput selector options) before (.ambiguousOutput found) after ↔
      ¬ selector.Misses available ∧ (2 ≤ matched.length ∨ selector = .exactly []) ∧
        found = matched ∧ after = before) ∧
    (¬ selector.Misses available → matched.length < 2 → selector ≠ .exactly [] →
      ∃ info, OnlyChoice selector before.model.graph info ∧
        (ExceptT.run (fixOutput selector options)).run before =
          (ExceptT.run (fixChosen info options)).run before) := by
  intro available matched
  by_cases hmisses : selector.Misses available
  · have hrun := run_of_select_eq_error hpos hle (TensorSelector.select_eq_error.mpr ⟨hmisses, rfl⟩)
    refine ⟨fun error after => ?_, fun found after => ?_, fun h => absurd hmisses h⟩
    · rw [fails_iff_of_run hrun, FixError.noTargetOutput.injEq, and_iff_right hmisses]
    · rw [fails_iff_of_run hrun]
      exact iff_of_false nofun fun h => h.1 hmisses
  · have hselect := TensorSelector.select_of_not_misses hmisses
    rcases eq_or_ne matched.length 1 with hone | hmany
    · obtain ⟨info, hinfo⟩ := exists_onlyChoice hmisses hone
      have hrun := run_of_onlyChoice hpos hle hinfo
      have hrelated : ∀ {error after}, Fails (fixOutput selector options) before error after →
          ¬ error.OfChoice := by
        intro error after h
        exact Fails.of_fixChosen (onlyChoice_iff.mp hinfo).2 (hrun.symm.trans h)
      have hexact : selector ≠ .exactly [] := by
        rintro rfl
        simp [matched, TensorSelector.names] at hone
      refine ⟨fun error after => ?_, fun found after => ?_, fun _ _ _ => ⟨info, hinfo, hrun⟩⟩
      · exact iff_of_false (fun h => hrelated h trivial) fun h => hmisses h.1
      · refine iff_of_false (fun h => hrelated h trivial) ?_
        rintro ⟨-, htwo | hnothing, -⟩
        · omega
        · exact hexact hnothing
    · have hrun := run_of_select_eq_ok hpos hle hselect hmany
      have hseveral : 2 ≤ matched.length ∨ selector = .exactly [] :=
        TensorSelector.several_of_not_misses hmisses hmany
      refine ⟨fun error after => ?_, fun found after => ?_, fun _ hlt hexact => ?_⟩
      · rw [fails_iff_of_run hrun]
        exact iff_of_false nofun fun h => hmisses h.1
      · rw [fails_iff_of_run hrun, FixError.ambiguousOutput.injEq, and_iff_right hmisses,
          and_iff_right hseveral]
      · exact absurd (hseveral.resolve_right hexact) (by omega)

end

/-- Two waveforms match, a text is missed, and one waveform is fixed. -/
theorem choice_errors_waveforms :
    let graph : Graph :=
      (({} : Graph).addOutput (.new "audio" none none)).addOutput (.new "waveform" none none)
    let before : Workspace := { model := .new graph 17 }
    let options : OutputOptions := { length := 4 }
    Fails (fixOutput .defaultOutputs options) before
        (.ambiguousOutput ["audio", "waveform"]) before ∧
      Fails (fixOutput (.exactly ["text", "audio"]) options) before
        (.noTargetOutput { missing := ["text"], candidates := ["audio", "waveform"] }) before ∧
      ∃ info, OnlyChoice (.anyOf ["speech", "audio"]) graph info ∧
        (ExceptT.run (fixOutput (.anyOf ["speech", "audio"]) options)).run before =
          (ExceptT.run (fixChosen info options)).run before := by
  intro graph before options
  have hpos : 1 ≤ options.length := by decide
  have hle : options.length ≤ maxInt64 := by decide
  have hseveral := (@choice_errors .defaultOutputs options hpos hle before).2.1
  have habsent := (@choice_errors (.exactly ["text", "audio"]) options hpos hle before).1
  have hone := (@choice_errors (.anyOf ["speech", "audio"]) options hpos hle before).2.2
  refine ⟨(hseveral _ _).mpr ?_, (habsent _ _).mpr ?_, hone ?_ ?_ nofun⟩
  · exact ⟨by decide, Or.inl (by decide), by decide, rfl⟩
  · exact ⟨by decide, by decide, rfl⟩
  · decide
  · decide

/-- No names are chosen exactly. No output matches, and the error says that several do. -/
theorem no_names_reported_as_several :
    let graph : Graph := ({} : Graph).addOutput (.new "y" none none)
    let before : Workspace := { model := .new graph 17 }
    Fails (fixOutput (.exactly []) { length := 4 }) before (.ambiguousOutput []) before ∧
      graph.outputs.filter (·.name ∈ (TensorSelector.exactly []).names) = [] ∧
      ∀ error after,
        ¬ Fails (fixOutput (.exactly []) { length := 4 }) before (.noTargetOutput error) after := by
  intro graph before
  refine ⟨rfl, by decide, ?_⟩
  rintro error after ⟨⟩

end Fixing

end FixedShape
