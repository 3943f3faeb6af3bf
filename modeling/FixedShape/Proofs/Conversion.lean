/-
Module: FixedShape.Proofs.Conversion
Purpose: A conversion does everything or nothing. Either it fails and leaves all files as they are,
  or the output holds the fixed model, and what is read back from there is that model.
-/
import FixedShape.Conversion
import FixedShape.Proofs.Fixing.Saving
import FixedShape.Proofs.Storage.FileStore

namespace FixedShape

open FixedShape.Wire (Bytes)

/-! ### Actions on files -/

section

variable {σ : Type}

/-- What follows an action goes on from its result and from the files that it leaves. -/
theorem run_bind_of_eq {α β : Type} {action : StateM σ α} {next : α → StateM σ β} {result : α}
    {files between : σ} (h : StateT.run (m := Id) action files = (result, between)) :
    StateT.run (m := Id) (action >>= next) files =
      StateT.run (m := Id) (next result) between := by
  rw [StateT.run_bind, h]
  rfl

variable [FileStore (StateM σ)]

/-- The model in a file. -/
def loadedFrom (files : σ) (path : String) : Except LoadError Model :=
  match (StateT.run (m := Id) (FileStore.read path) files).1 with
  | .error error => .error { fault := .unreadable error }
  | .ok bytes => Model.load bytes

theorem load_of_loadedFrom {files : σ} {path : String} {model : Model}
    (h : loadedFrom files path = .ok model) : ∃ bytes, Model.load bytes = .ok model := by
  unfold loadedFrom at h
  split at h
  · cases h
  · exact ⟨_, h⟩

variable [LawfulFileStore σ] {files after : σ} {path : String}

/-- Loading a file changes nothing. -/
theorem run_loadFile :
    StateT.run (m := Id) (loadFile path) files = (loadedFrom files path, files) := by
  rcases hread : StateT.run (m := Id) (FileStore.read path) files with ⟨result, unchanged⟩
  cases LawfulFileStore.read_unchanged hread
  rw [loadFile, run_bind_of_eq hread, loadedFrom, hread]
  cases result with
  | error error => rfl
  | ok bytes => rfl

/-- Describing a file changes nothing. -/
theorem run_analyze :
    StateT.run (m := Id) (analyze path) files =
      match loadedFrom files path with
      | .error error => (.error (.load error), files)
      | .ok model => (.ok model.summary, files) := by
  rw [analyze, run_bind_of_eq run_loadFile]
  cases loadedFrom files path with
  | error error => rfl
  | ok model => rfl

/-- What was written is what is loaded. -/
theorem loadedFrom_of_write {bytes : Bytes}
    (h : StateT.run (m := Id) (FileStore.write path bytes) files = (.ok (), after)) :
    loadedFrom after path = Model.load bytes := by
  rw [loadedFrom, LawfulFileStore.read_written h]

/-! ### Conversions -/

/-- A conversion of files ends with an outcome and leaves files behind, whatever it tells. -/
def Converts (files : σ) (input output : String) (options : FixOptions)
    (outcome : Except FixError ConversionReport) (after : σ) : Prop :=
  ∃ log, StateT.run (m := Id) (convert input output options) files = ((outcome, log), after)

variable {input output : String} {options : FixOptions}

theorem converts_of_load_error {error : LoadError} (h : loadedFrom files input = .error error) :
    Converts files input output options (.error (.load error)) files := by
  unfold Converts convert
  rw [run_bind_of_eq run_loadFile, h]
  exact ⟨_, rfl⟩

section

variable {loaded : Model} {workspace : Workspace} (hload : loadedFrom files input = .ok loaded)

include hload

theorem converts_of_fix_error {error : FixError}
    (hfix : (Fixing.fixModel options).runOn loaded = (.error error, workspace)) :
    Converts files input output options (.error error) files := by
  unfold Converts convert
  rw [run_bind_of_eq run_loadFile, hload]
  dsimp only
  rw [hfix]
  exact ⟨_, rfl⟩

/-- After a successful fixing a conversion ends as the saving does. -/
theorem converts_of_saveFixed {report : FixReport} {saved : Except FixError ModelSummary}
    (hfix : (Fixing.fixModel options).runOn loaded = (.ok report, workspace))
    (hsave : ∀ log, ∃ told,
      StateT.run (m := Id) (saveFixed output workspace.model log) files = ((saved, told), after)) :
    Converts files input output options
      (saved.map fun summary =>
        { before := loaded.summary
          after := summary
          fixedInputs := report.fixedInputs
          output := report.output }) after := by
  unfold Converts convert
  rw [run_bind_of_eq run_loadFile, hload]
  dsimp only
  rw [hfix]
  dsimp only
  obtain ⟨told, hsaved⟩ :=
    hsave ([{ level := .info, message := "Loading " ++ input }] ++ workspace.log)
  rw [run_bind_of_eq hsaved]
  cases saved with
  | error error => exact ⟨_, rfl⟩
  | ok summary => exact ⟨_, rfl⟩

theorem converts_of_refused {report : FixReport} {error : IoError}
    (hfix : (Fixing.fixModel options).runOn loaded = (.ok report, workspace))
    (hwrite : StateT.run (m := Id) (FileStore.write output workspace.model.toBytes) files =
      (.error error, after)) :
    Converts files input output options (.error (.save output error)) files := by
  have hsave : ∀ log, ∃ told, StateT.run (m := Id) (saveFixed output workspace.model log) files =
      ((.error (.save output error), told), files) := by
    intro log
    rw [saveFixed, run_bind_of_eq hwrite, LawfulFileStore.write_refused hwrite]
    exact ⟨_, rfl⟩
  exact converts_of_saveFixed hload hfix hsave

/-- What is reported of a written model is what was made. -/
theorem converts_of_written {report : FixReport}
    (hfix : (Fixing.fixModel options).runOn loaded = (.ok report, workspace))
    (hlength : workspace.model.toBytes.length < 2 ^ 64)
    (hwrite : StateT.run (m := Id) (FileStore.write output workspace.model.toBytes) files =
      (.ok (), after)) :
    Converts files input output options
      (.ok
        { before := loaded.summary
          after := workspace.model.summary
          fixedInputs := report.fixedInputs
          output := report.output }) after := by
  obtain ⟨bytes, hbytes⟩ := load_of_loadedFrom hload
  obtain ⟨_, again, hagain, hsummary, _⟩ := Fixing.reloaded_of_fixModel hbytes hfix hlength
  have hanalyze : StateT.run (m := Id) (analyze output) after =
      (.ok workspace.model.summary, after) := by
    rw [run_analyze, loadedFrom_of_write hwrite, hagain, ← hsummary]
  have hsave : ∀ log, ∃ told, StateT.run (m := Id) (saveFixed output workspace.model log) files =
      ((.ok workspace.model.summary, told), after) := by
    intro log
    rw [saveFixed, run_bind_of_eq hwrite]
    dsimp only
    rw [run_bind_of_eq hanalyze]
    exact ⟨_, rfl⟩
  exact converts_of_saveFixed hload hfix hsave

end

omit [LawfulFileStore σ] in
theorem Converts.unique {first second : Except FixError ConversionReport} {one other : σ}
    (h : Converts files input output options first one)
    (h' : Converts files input output options second other) : first = second ∧ one = other := by
  obtain ⟨_, h⟩ := h
  obtain ⟨_, h'⟩ := h'
  cases h.symm.trans h'
  exact ⟨rfl, rfl⟩

/-- A conversion that fails leaves all files as they were, also if the output cannot be written. -/
theorem Converts.files_eq_of_error {error : FixError}
    (h : Converts files input output options (.error error) after)
    (hlength : ∀ loaded report fixed, loadedFrom files input = .ok loaded →
      (Fixing.fixModel options).runOn loaded = (.ok report, fixed) →
      fixed.model.toBytes.length < 2 ^ 64) :
    after = files := by
  cases hload : loadedFrom files input with
  | error error => exact (h.unique (converts_of_load_error hload)).2
  | ok loaded =>
      rcases hfix : (Fixing.fixModel options).runOn loaded with ⟨outcome, fixed⟩
      cases outcome with
      | error error => exact (h.unique (converts_of_fix_error hload hfix)).2
      | ok report =>
          rcases hwrite : StateT.run (m := Id) (FileStore.write output fixed.model.toBytes) files
            with ⟨written, last⟩
          cases written with
          | error error => exact (h.unique (converts_of_refused hload hfix hwrite)).2
          | ok _ =>
              have hsaved := converts_of_written hload hfix
                (hlength loaded report fixed hload hfix) hwrite
              cases (h.unique hsaved).1

end

end FixedShape
