/-
Module: FixedShape.Graph.Load
Purpose: Graphs from messages. Every declaration and constant needs a name and every node an
  operator; the first that lacks it decides, in the order inputs, outputs, value declarations,
  constants, nodes.
-/
import FixedShape.Graph.Basic
import FixedShape.Model.LoadError

namespace FixedShape.Graph

/-- Reads every message of a list, or stops with `fault` at the first that cannot be read. -/
def readAll {α β : Type} (read? : α → Option β) (fault : LoadError) (messages : List α) :
    Except LoadError (List β) :=
  messages.mapM fun message =>
    match read? message with
    | none => .error fault
    | some value => .ok value

/-- Adds the node of a message, which must have an operator. -/
def addMessage (graph : Graph) (message : Onnx.Node) : Except LoadError Graph :=
  if message.opType.getD "" = "" then
    .error { fault := .badGraph .missingOperator, location := message.name }
  else .ok (graph.addNode (.ofMessage message))

/-- Reads a graph. -/
def ofMessage (message : Onnx.Graph) : Except LoadError Graph := do
  let fault (fault : GraphFault) : LoadError :=
    { fault := .badGraph fault, location := message.name }
  let inputs ← readAll TensorInfo.ofMessage? (fault .unnamedInput) message.inputs
  let outputs ← readAll TensorInfo.ofMessage? (fault .unnamedOutput) message.outputs
  let valueInfo ← readAll TensorInfo.ofMessage? (fault .unnamedValueInfo) message.valueInfo
  let initializers ← readAll Initializer.ofMessage? (fault .unnamedInitializer) message.initializers
  let empty : Graph := { inputs, outputs, valueInfo, initializers }
  let graph ← message.nodes.foldlM addMessage <|
    empty.reserveAll
      (initializers.map (·.name) ++ (inputs ++ (outputs ++ valueInfo)).map (·.name))
  return { graph with
    rest :=
      { message with
        nodes := [], inputs := [], outputs := [], valueInfo := [], initializers := [] } }

end FixedShape.Graph
