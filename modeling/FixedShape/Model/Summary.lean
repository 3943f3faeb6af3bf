/-
Module: FixedShape.Model.Summary
Purpose: What a user sees of a model: versions, counts, and the types and shapes at its boundary.
-/
import FixedShape.Model.Basic

namespace FixedShape

/-- The declared type and shape of an input or output. -/
structure TensorSummary where
  name : String
  elemType : Option ElementType
  shape : Option Shape
  deriving DecidableEq, Repr

namespace TensorSummary

def ofInfo (info : TensorInfo) : TensorSummary :=
  { name := info.name, elemType := info.elemType?, shape := info.shape? }

/-- Tells whether the shape is known and static. -/
def isStatic (summary : TensorSummary) : Bool :=
  match summary.shape with
  | some shape => shape.isStatic
  | none => false

/-- A line for one input or output. -/
def text (summary : TensorSummary) : String :=
  let elemType := match summary.elemType with
    | some elemType => elemType.text
    | none => "?"
  summary.name ++ ": " ++ elemType ++ " " ++ Shape.text? summary.shape

end TensorSummary

/-- The interface of a model. -/
structure ModelSummary where
  irVersion : Option Int64
  opsets : List (String × Int64)
  inputs : List TensorSummary
  outputs : List TensorSummary
  nodeCount : Nat
  initializerCount : Nat
  deriving DecidableEq, Repr

namespace ModelSummary

/-- The first input of a name. -/
def input? (summary : ModelSummary) (name : String) : Option TensorSummary :=
  summary.inputs.find? (·.name == name)

/-- The first output of a name. -/
def output? (summary : ModelSummary) (name : String) : Option TensorSummary :=
  summary.outputs.find? (·.name == name)

/-- The lines of a summary. Versions that are not given have no line. -/
def lines (summary : ModelSummary) : List String :=
  let version := match summary.irVersion with
    | some version => ["IR version: " ++ toString version.toInt]
    | none => []
  let opsets :=
    if summary.opsets.isEmpty then []
    else
      let texts := summary.opsets.map fun (domain, version) =>
        domain ++ " v" ++ toString version.toInt
      ["Opsets: " ++ ", ".intercalate texts]
  let counts :=
    "Nodes: " ++ toString summary.nodeCount ++ ", initializers: " ++
      toString summary.initializerCount
  version ++ opsets ++ [counts, "Inputs:"] ++ summary.inputs.map (fun t => "  " ++ t.text) ++
    ["Outputs:"] ++ summary.outputs.map (fun t => "  " ++ t.text)

def text (summary : ModelSummary) : String := "\n".intercalate summary.lines

end ModelSummary

/-- Describes the interface of a model. -/
def Model.summary (model : Model) : ModelSummary :=
  { irVersion := model.irVersion?
    opsets := model.opsets
    inputs := model.graph.inputs.map .ofInfo
    outputs := model.graph.outputs.map .ofInfo
    nodeCount := model.graph.nodes.length
    initializerCount := model.graph.initializers.length }

end FixedShape
