/-
Module: FixedShape.Proofs.CommandLine.AnyOrder
Purpose: Items of different options may change places. When a command line can be followed and what
  it tells the program to do depends on the items of each option alone.
-/
import FixedShape.Proofs.CommandLine.Items
import Mathlib.Data.List.Perm.Basic

namespace FixedShape.CommandLine

/-! ### Another order -/

/-- The same items, perhaps in another order. The items of one option keep theirs, and so do the
paths. -/
def Reordered (items items' : List Item) : Prop :=
  ∀ switch? : Option Switch,
    items'.filter (·.switch? = switch?) = items.filter (·.switch? = switch?)

namespace Reordered

variable {items items' : List Item}

theorem perm (h : Reordered items items') : items'.Perm items := by
  rw [List.perm_iff_count]
  intro item
  have hcount := congrArg (List.count item) (h item.switch?)
  rwa [List.count_filter (by simp), List.count_filter (by simp)] at hcount

/-- What is gathered from the items of one option stays the same. -/
theorem filterMap_eq (h : Reordered items items') {α : Type} {f : Item → Option α}
    (switch? : Option Switch) (hf : ∀ item : Item, item.switch? ≠ switch? → f item = none) :
    items'.filterMap f = items.filterMap f := by
  have hfilter : ∀ list : List Item,
      (list.filter (·.switch? = switch?)).filterMap f = list.filterMap f := by
    intro list
    rw [List.filterMap_filter]
    congr 1
    funext item
    by_cases hswitch : item.switch? = switch?
    · simp [hswitch]
    · simp [hswitch, hf item hswitch]
  rw [← hfilter, h switch?, hfilter]

theorem paths_eq (h : Reordered items items') : Item.paths items' = Item.paths items := by
  refine h.filterMap_eq none fun item hitem => ?_
  cases item with
  | path text => exact absurd rfl hitem
  | flag raised => rfl
  | setting assigned value => rfl

theorem values_eq (h : Reordered items items') (setting : Setting) :
    Item.values setting items' = Item.values setting items := by
  refine h.filterMap_eq (some (.setting setting)) fun item hitem => ?_
  cases item with
  | path text => rfl
  | flag raised => rfl
  | setting assigned value =>
      refine Item.value?_other setting ?_ value
      rintro rfl
      exact hitem rfl

theorem settings_eq (h : Reordered items items') : Item.settings items' = Item.settings items := by
  simp only [Item.settings, Item.last?, h.paths_eq, h.values_eq, h.perm.mem_iff,
    h.perm.count_eq]

end Reordered

/-! ### What the program is told to do -/

/-- Items that can be followed. They name a model and at most one output, which only an analysis
does without. -/
structure Followable (items : List Item) : Prop where
  paths : (Item.paths items).length = 1 ∨ (Item.paths items).length = 2
  not_twice : (Item.paths items).length = 2 → Item.values .output items = []
  output : Item.flag .analyzeOnly ∉ items →
    (Item.paths items).length = 2 ∨ Item.values .output items ≠ []

/-- What the program is told to do by items. Of an option with one value the last item counts, and
without any the default. -/
structure Tells (items : List Item) (work : Args) : Prop where
  model : (Item.paths items)[0]? = some work.model
  output : work.output = (Item.paths items)[1]?.or (Item.last? .output items)
  analyzeOnly : work.analyzeOnly = true ↔ Item.flag .analyzeOnly ∈ items
  verbosity : work.verbosity = items.count (.flag .verbose)
  seqLength : work.options.seqLength = (Item.last? .seqLength items).getD 512
  outputLength : work.options.outputLength = (Item.last? .outputLength items).getD 192000
  axis : work.options.axis = (Item.last? .axis items).getD 0
  mode : work.options.mode =
    if Item.flag .structural ∈ items then .structural else .declarative
  overflow : work.options.overflow =
    if Item.flag .rejectTruncation ∈ items then .reject else .truncate
  allowUnusedInputs :
    work.options.allowUnusedInputs = true ↔ Item.flag .allowUnusedInputs ∈ items
  inputs : work.options.inputs =
    if Item.values .input items = [] then .anyOf ["input_ids", "tokens"]
    else .exactly (Item.values .input items)
  outputName : work.options.output =
    match Item.last? .outputName items with
    | none => .anyOf ["audio", "waveform"]
    | some name => .exactly [name]

theorem Settings.resolvePaths_eq_ok {settings : Settings} {model : String}
    {output : Option String} :
    settings.resolvePaths = .ok (model, output) ↔
      (settings.paths.length = 1 ∨ settings.paths.length = 2) ∧
        (settings.paths.length = 2 → settings.output = none) ∧
        (settings.analyzeOnly = false → settings.paths.length = 2 ∨ settings.output ≠ none) ∧
        settings.paths[0]? = some model ∧ settings.paths[1]?.or settings.output = output := by
  rcases hpaths : settings.paths with _ | ⟨first, _ | ⟨second, _ | ⟨third, rest⟩⟩⟩
  · simp [resolvePaths, hpaths]
  · cases houtput : settings.output with
    | none =>
        cases hanalyze : settings.analyzeOnly with
        | false => simp [resolvePaths, hpaths, houtput, hanalyze]
        | true => simp [resolvePaths, hpaths, houtput, hanalyze]
    | some path => simp [resolvePaths, hpaths, houtput]
  · cases houtput : settings.output with
    | none => simp [resolvePaths, hpaths, houtput]
    | some path => simp [resolvePaths, hpaths, houtput]
  · cases houtput : settings.output with
    | none => simp [resolvePaths, hpaths, houtput]
    | some path => simp [resolvePaths, hpaths, houtput]

theorem Item.resolvePaths_eq_ok {items : List Item} {model : String} {output : Option String} :
    (Item.settings items).resolvePaths = .ok (model, output) ↔
      Followable items ∧ (Item.paths items)[0]? = some model ∧
        (Item.paths items)[1]?.or (Item.last? .output items) = output := by
  have hnone : Item.last? .output items = none ↔ Item.values .output items = [] :=
    List.getLast?_eq_none_iff
  have hanalyze : (Item.settings items).analyzeOnly = false ↔ Item.flag .analyzeOnly ∉ items :=
    decide_eq_false_iff_not
  rw [Settings.resolvePaths_eq_ok, hanalyze]
  constructor
  · rintro ⟨hpaths, htwice, houtput, hmodel, hor⟩
    have houtput' := fun h => (houtput h).imp_right (hnone.not.mp ·)
    exact ⟨⟨hpaths, fun h => hnone.mp (htwice h), houtput'⟩, hmodel, hor⟩
  · rintro ⟨⟨hpaths, htwice, houtput⟩, hmodel, hor⟩
    have houtput' := fun h => (houtput h).imp_right (hnone.not.mpr ·)
    exact ⟨hpaths, fun h => hnone.mpr (htwice h), houtput', hmodel, hor⟩

theorem Item.finish_of_resolvePaths {items : List Item} {model : String} {output : Option String}
    (h : (Item.settings items).resolvePaths = .ok (model, output)) :
    ∃ work, (Item.settings items).finish = .ok (.work work) ∧ Tells items work := by
  obtain ⟨-, hmodel, houtput⟩ := Item.resolvePaths_eq_ok.mp h
  rw [Settings.finish, h]
  refine ⟨_, rfl, ?_⟩
  exact
    { model := hmodel
      output := houtput.symm
      analyzeOnly := decide_eq_true_iff
      verbosity := rfl
      seqLength := rfl
      outputLength := rfl
      axis := rfl
      mode := rfl
      overflow := rfl
      allowUnusedInputs := decide_eq_true_iff
      inputs := by
        simp only [Item.settings, List.isEmpty_iff]
        rfl
      outputName := by
        simp only [Item.settings]
        rfl }

theorem Item.finish_of_followable {items : List Item} (h : Followable items) :
    ∃ command, (Item.settings items).finish = .ok command := by
  have hpos : 0 < (Item.paths items).length := by
    have := h.paths
    omega
  obtain ⟨work, hfinish, -⟩ := Item.finish_of_resolvePaths
    (Item.resolvePaths_eq_ok.mpr ⟨h, List.getElem?_eq_getElem hpos, rfl⟩)
  exact ⟨_, hfinish⟩

theorem Item.tells_of_finish {items : List Item} {command : Command}
    (h : (Item.settings items).finish = .ok command) :
    Followable items ∧ ∃ work, command = .work work ∧ Tells items work := by
  cases hresolve : (Item.settings items).resolvePaths with
  | error error =>
      rw [Settings.finish, hresolve] at h
      cases h
  | ok paths =>
      obtain ⟨work, hfinish, htells⟩ := Item.finish_of_resolvePaths hresolve
      rw [hfinish] at h
      cases h
      exact ⟨(Item.resolvePaths_eq_ok.mp hresolve).1, work, rfl, htells⟩

end FixedShape.CommandLine
