/-
Module: FixedShape.Conversion
Purpose: Fixing a model file. Nothing is written unless the fixed model is well formed, and
  what is reported about the result is read back from the file.
-/
import FixedShape.Model.Summary
import FixedShape.Fixing.FixModel
import FixedShape.Storage.FileTree

namespace FixedShape

/-- What a conversion has done, with the model before it and after it. -/
structure ConversionReport where
  before : ModelSummary
  after : ModelSummary
  fixedInputs : List String
  output : OutputReport
  deriving DecidableEq, Repr

section

variable {m : Type → Type} [Monad m] [FileStore m]

/-- Reads a model from a file. -/
def loadFile (path : String) : m (Except LoadError Model) := do
  match ← FileStore.read path with
  | .error error => return .error { fault := .unreadable error }
  | .ok bytes => return Model.load bytes

/-- Describes the model in a file. -/
def analyze (path : String) : m (Except FixError ModelSummary) := do
  match ← loadFile path with
  | .error error => return .error (.load error)
  | .ok model => return .ok model.summary

/-- Writes a fixed model, and describes it as it stands in the file. -/
def saveFixed (output : String) (model : Model) (log : Log) :
    m (Except FixError ModelSummary × Log) := do
  let bytes := model.toBytes
  match ← FileStore.write output bytes with
  | .error error => return (.error (.save output error), log)
  | .ok () =>
    let message := "Wrote " ++ output ++ " (" ++ toString bytes.length ++ " bytes)"
    return (← analyze output, log ++ [{ level := .info, message }])

/-- Fixes the model in a file and writes the result to a file. -/
def convert (input output : String) (options : FixOptions) :
    m (Except FixError ConversionReport × Log) := do
  let loading : Log := [{ level := .info, message := "Loading " ++ input }]
  match ← loadFile input with
  | .error error => return (.error (.load error), loading)
  | .ok model =>
    let (result, workspace) := (Fixing.fixModel options).runOn model
    let log := loading ++ workspace.log
    match result with
    | .error error => return (.error error, log)
    | .ok report =>
      let (after, log) ← saveFixed output workspace.model log
      match after with
      | .error error => return (.error error, log)
      | .ok after =>
        let report : ConversionReport :=
          { before := model.summary
            after
            fixedInputs := report.fixedInputs
            output := report.output }
        return (.ok report, log)

end

end FixedShape
