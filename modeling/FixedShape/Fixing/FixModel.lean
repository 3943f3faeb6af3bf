/-
Module: FixedShape.Fixing.FixModel
Purpose: The whole fixing of a model: inputs first, then the output, then a check that the result
  is well formed and has static shapes where they were fixed.
-/
import FixedShape.Fixing.FixInputs
import FixedShape.Fixing.FixOutput
import FixedShape.Validity.Check

namespace FixedShape

/-- How a model is to be fixed. -/
structure FixOptions where
  seqLength : Nat := 512
  outputLength : Nat := 192000
  mode : OutputMode := .declarative
  inputs : TensorSelector := .defaultInputs
  output : TensorSelector := .defaultOutputs
  overflow : OverflowPolicy := .truncate
  axis : Int64 := 0
  allowUnusedInputs : Bool := false
  deriving DecidableEq, Repr

/-- The part of the options that fixing the output follows. -/
def FixOptions.outputOptions (options : FixOptions) : OutputOptions :=
  { mode := options.mode
    length := options.outputLength
    axis := options.axis
    overflow := options.overflow }

/-- What fixing a model has changed. -/
structure FixReport where
  fixedInputs : List String
  output : OutputReport
  deriving DecidableEq, Repr

/-- Fixes the model under work. -/
def Fixing.fixModel (options : FixOptions) : Fixing FixReport := do
  let fixedInputs ← fixInputs options.inputs options.seqLength
  let output ← fixOutput options.output options.outputOptions
  let graph ← graph
  let check : ValidateOptions :=
    { allowUnusedInputs := options.allowUnusedInputs
      requireStatic := fixedInputs ++ [output.output] }
  match graph.validate check with
  | .error violations => throw (.validation violations)
  | .ok () =>
    tell .debug "Rewritten graph passed validation"
    return { fixedInputs, output }

end FixedShape
