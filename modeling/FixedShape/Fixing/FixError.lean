/-
Module: FixedShape.Fixing.FixError
Purpose: Why a model cannot be fixed.
-/
import FixedShape.Model.LoadError
import FixedShape.Tensor.ElementType
import FixedShape.TensorSelector
import FixedShape.Validity.Violation

namespace FixedShape

/-- An option that cannot be followed. -/
inductive OptionFault where
  | zeroSequenceLength
  | sequenceLengthTooLarge (length : Nat)
  | zeroOutputLength
  | outputLengthTooLarge (length : Nat)
  | axisOutOfRange (axis : Int64)
  | paddingTooLarge (length : Nat) (elemType : ElementType)
  deriving DecidableEq, Repr

/-- The wording of a bad option. -/
def OptionFault.message : OptionFault → String
  | .zeroSequenceLength => "sequence length must be greater than zero"
  | .sequenceLengthTooLarge length => "sequence length " ++ toString length ++ " is too large"
  | .zeroOutputLength => "output length must be greater than zero"
  | .outputLengthTooLarge length => "output length " ++ toString length ++ " is too large"
  | .axisOutOfRange axis => "axis " ++ toString axis.toInt ++ " is out of range for a 1D output"
  | .paddingTooLarge length elemType =>
    "output length " ++ toString length ++ " is too large for a " ++ elemType.text ++
      " padding constant"

/-- Why the fixing of a model stopped. -/
inductive FixError where
  /-- The model cannot be loaded. -/
  | load (error : LoadError)
  /-- The choice of inputs failed. -/
  | noTargetInput (error : SelectError)
  /-- The choice of an output failed. -/
  | noTargetOutput (error : SelectError)
  /-- The choice of an output found several. -/
  | ambiguousOutput (found : List String)
  /-- The output to be padded is not written by exactly one node. -/
  | producerNotFound (tensor : String) (producers : List String)
  /-- The default operator set is too old for padding. -/
  | unsupportedOpset (required : Int64) (found : Option Int64)
  /-- The output to be padded is no vector. -/
  | unsupportedRank (tensor : String) (rank : Nat)
  /-- There are no zeros of the type of the output. -/
  | unsupportedElementType (tensor : String) (elemType : ElementType)
  /-- The output is longer than it may become. -/
  | wouldTruncate (tensor : String) (length limit : Nat)
  /-- An option cannot be followed. -/
  | invalidOption (fault : OptionFault)
  /-- The fixed graph is ill formed. -/
  | validation (violations : List Violation)
  /-- The fixed model cannot be written. -/
  | save (path : String) (error : IoError)
  deriving DecidableEq, Repr

namespace FixError

/-- Names as they are listed. -/
def listed (names : List String) : String :=
  if names.isEmpty then "(none)" else ", ".intercalate names

/-- The wording of an error. -/
def message : FixError → String
  | .load error => "failed to load model: " ++ error.message
  | .noTargetInput error =>
    "no graph input named " ++ listed error.missing ++ ". Graph inputs are: " ++
      listed error.candidates
  | .noTargetOutput error =>
    "no graph output named " ++ listed error.missing ++ ". Graph outputs are: " ++
      listed error.candidates
  | .ambiguousOutput found =>
    "several graph outputs match: " ++ listed found ++
      ". Choose one with an explicit output name"
  | .producerNotFound tensor [] => "no node produces output \"" ++ tensor ++ "\""
  | .producerNotFound tensor producers =>
    "output \"" ++ tensor ++ "\" has several producers: " ++ listed producers
  | .unsupportedOpset required (some found) =>
    "output padding requires opset " ++ toString required.toInt ++
      " or later, but the model uses opset " ++ toString found.toInt
  | .unsupportedOpset required none =>
    "output padding requires opset " ++ toString required.toInt ++
      " or later, but the model does not import the default opset"
  | .unsupportedRank tensor rank =>
    "output padding requires a 1D output, but \"" ++ tensor ++ "\" has rank " ++ toString rank
  | .unsupportedElementType tensor elemType =>
    "cannot create padding for output \"" ++ tensor ++ "\" with element type " ++ elemType.text
  | .wouldTruncate tensor length limit =>
    "output \"" ++ tensor ++ "\" has length " ++ toString length ++
      " which would be truncated to " ++ toString limit
  | .invalidOption fault => "invalid option: " ++ fault.message
  | .validation violations => Violation.report violations
  | .save path error => "failed to write " ++ path ++ ": " ++ error.message

end FixError

end FixedShape
