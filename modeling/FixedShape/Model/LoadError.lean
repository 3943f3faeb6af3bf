/-
Module: FixedShape.Model.LoadError
Purpose: Why a model cannot be loaded.
-/
import FixedShape.Storage.IoError
import FixedShape.Wire.DecodeError

namespace FixedShape

/-- What a graph lacks that no graph can be worked with without. -/
inductive GraphFault where
  | unnamedInput
  | unnamedOutput
  | unnamedValueInfo
  | unnamedInitializer
  | missingOperator
  | missingGraph
  deriving DecidableEq, Repr

/-- The wording of a missing part. -/
def GraphFault.message : GraphFault → String
  | .unnamedInput => "graph input has no name"
  | .unnamedOutput => "graph output has no name"
  | .unnamedValueInfo => "value_info entry has no name"
  | .unnamedInitializer => "initializer has no name"
  | .missingOperator => "node has no operator type"
  | .missingGraph => "model has no graph"

/-- The stage at which loading failed. -/
inductive LoadFault where
  /-- The file cannot be read. -/
  | unreadable (error : IoError)
  /-- The data lacks the fields that every model has. -/
  | notModel
  /-- The data is not well formed. -/
  | malformed (error : Wire.DecodeError)
  /-- The graph lacks a name or an operator. -/
  | badGraph (fault : GraphFault)
  deriving DecidableEq, Repr

/-- The broad category of a failure to load. -/
inductive LoadErrorKind where
  /-- The file cannot be read. -/
  | io
  /-- The data is not a well-formed model. -/
  | parse
  /-- The model is decoded, but its graph cannot be worked with. -/
  | graph
  deriving DecidableEq, Repr

/-- The category of a failed stage. -/
def LoadFault.kind : LoadFault → LoadErrorKind
  | .unreadable _ => .io
  | .notModel | .malformed _ => .parse
  | .badGraph _ => .graph

/-- The wording of a failed stage. -/
def LoadFault.message : LoadFault → String
  | .unreadable error => "read error: " ++ error.message
  | .notModel => "parse error: data is not an ONNX model"
  | .malformed error => "parse error: " ++ error.message
  | .badGraph fault => "graph error: " ++ fault.message

/-- Why a model cannot be loaded, with the name of the graph or node where that was found, if it
has one. -/
structure LoadError where
  fault : LoadFault
  location : Option String := none
  deriving DecidableEq, Repr

/-- The category of a load error. -/
def LoadError.kind (error : LoadError) : LoadErrorKind := error.fault.kind

/-- The wording of a load error. -/
def LoadError.message (error : LoadError) : String :=
  match error.location with
  | none => error.fault.message
  | some location => "in \"" ++ location ++ "\": " ++ error.fault.message

end FixedShape
