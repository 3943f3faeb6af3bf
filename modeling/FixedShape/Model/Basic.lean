/-
Module: FixedShape.Model.Basic
Purpose: Models: a graph with the metadata of its file, read from bytes and written to bytes.
-/
import FixedShape.Graph.Load
import FixedShape.Onnx.Decode
import FixedShape.Onnx.Encode
import FixedShape.Onnx.Detect

namespace FixedShape

open FixedShape.Wire (Bytes)

/-- A model. The message holds the metadata; it has no graph of its own. -/
structure Model where
  graph : Graph
  message : Onnx.Model := {}

namespace Model

/-- A model around a graph that imports a version of the default operator set. -/
def new (graph : Graph) (opsetVersion : Int64) : Model :=
  { graph
    message :=
      { irVersion := some 8
        opsetImports := [{ domain := some "", version := some opsetVersion }] } }

/-- Reads a model. Data that does not look like a model is turned away before it is decoded. -/
def load (bytes : Bytes) : Except LoadError Model :=
  if Onnx.isModel bytes then
    match Onnx.Model.decode bytes with
    | .error error => .error { fault := .malformed error }
    | .ok message =>
      match message.graph with
      | none => .error { fault := .badGraph .missingGraph }
      | some graphMessage =>
        match Graph.ofMessage graphMessage with
        | .error error => .error error
        | .ok graph => .ok { graph, message := { message with graph := none } }
  else .error { fault := .notModel }

/-- The message of a model. -/
def toMessage (model : Model) : Onnx.Model :=
  { model.message with graph := some model.graph.toMessage }

/-- The bytes of a model. -/
def toBytes (model : Model) : Bytes := model.toMessage.encode

def irVersion? (model : Model) : Option Int64 := model.message.irVersion

def producerName? (model : Model) : Option String := model.message.producerName

/-- The default operator set goes by an empty name as well as by this one. -/
def defaultDomain : String := "ai.onnx"

/-- The full name of an operator set. -/
def domainName (domain : String) : String := if domain = "" then defaultDomain else domain

/-- The imported operator sets, by their full names. A version that is not given counts as zero. -/
def opsets (model : Model) : List (String × Int64) :=
  model.message.opsetImports.map fun entry =>
    (domainName (entry.domain.getD ""), entry.version.getD 0)

/-- The imported version of an operator set; the first import of it counts. -/
def opsetVersion? (model : Model) (domain : String) : Option Int64 :=
  model.opsets.lookup (domainName domain)

end Model

end FixedShape
