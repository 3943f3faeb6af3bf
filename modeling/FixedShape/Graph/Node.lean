/-
Module: FixedShape.Graph.Node
Purpose: Nodes of a graph in memory. A node reads its inputs and whatever its subgraphs capture;
  the captures are kept beside the message, so that a graph need not walk its subgraphs to know
  what a node depends on.
-/
import FixedShape.Onnx.Scope

namespace FixedShape

/-- The value of a setting with which a node can be built. Floats are bits. -/
inductive AttrValue where
  | float (bits : UInt32)
  | graph (body : Onnx.Graph)
  | int (value : Int64)
  | ints (values : List Int64)
  | text (value : String)
  | tensor (value : Onnx.Tensor)

/-- The setting `name` with a value. -/
def AttrValue.toMessage (name : String) : AttrValue → Onnx.Attribute
  | .float bits => { name := some name, f := some bits, type := some Onnx.AttributeType.float }
  | .graph body => { name := some name, g := some body, type := some Onnx.AttributeType.graph }
  | .int value => { name := some name, i := some value, type := some Onnx.AttributeType.int }
  | .ints values => { name := some name, ints := values, type := some Onnx.AttributeType.ints }
  | .text value =>
    { name := some name
      s := some (Wire.Bytes.ofText value)
      type := some Onnx.AttributeType.string }
  | .tensor value => { name := some name, t := some value, type := some Onnx.AttributeType.tensor }

/-- A node with the names that its subgraphs read from the graph around it. -/
structure Node where
  message : Onnx.Node
  captures : List String

namespace Node

/-- Reads a node. -/
def ofMessage (message : Onnx.Node) : Node := { message, captures := message.captures }

/-- A node that applies an operator. -/
def new (opType : String) : Node := { message := { opType := some opType }, captures := [] }

def withName (name : String) (node : Node) : Node :=
  { node with message := { node.message with name := some name } }

def withInput (name : String) (node : Node) : Node :=
  { node with message := { node.message with inputs := node.message.inputs ++ [name] } }

def withOutput (name : String) (node : Node) : Node :=
  { node with message := { node.message with outputs := node.message.outputs ++ [name] } }

/-- Adds a setting. A subgraph brings its captures. -/
def withAttr (name : String) (value : AttrValue) (node : Node) : Node :=
  { message :=
      { node.message with attributes := node.message.attributes ++ [value.toMessage name] }
    captures :=
      match value with
      | .graph body => body.addCaptures node.captures
      | _ => node.captures }

/-- The name of a node, if it is not empty. -/
def name? (node : Node) : Option String := node.message.name.filter (· ≠ "")

/-- The operator, which is empty if none is given. -/
def opType (node : Node) : String := node.message.opType.getD ""

/-- The names a node reads itself. An empty one stands for a value left out. -/
def inputs (node : Node) : List String := node.message.inputs

/-- The names a node writes. An empty one stands for a value left out. -/
def outputs (node : Node) : List String := node.message.outputs

/-- All values that must be there before the node can run. -/
def dependencies (node : Node) : List String := node.inputs.filter (· ≠ "") ++ node.captures

/-- The first setting of a name. -/
def attr? (name : String) (node : Node) : Option Onnx.Attribute :=
  node.message.attributes.find? (·.name == some name)

/-- The integer of the first setting of a name. -/
def attrInt? (name : String) (node : Node) : Option Int64 := (node.attr? name).bind (·.i)

/-- Gives the outputs `source` the name `target`, and tells whether there is one. -/
def renameOutput (source target : String) (node : Node) : Node × Bool :=
  ({ node with
      message := { node.message with outputs := node.outputs.map (Onnx.rename source target) } },
    source ∈ node.outputs)

/-- Lets a node and its subgraphs read `target` in place of `source`, and tells whether anything
read `source`. A subgraph is only looked into if `source` is captured; the captures follow
without a walk, and a name that is there already is not added again. -/
def replaceInput (source target : String) (node : Node) : Node × Bool :=
  let inputs := node.inputs.map (Onnx.rename source target)
  if source ∈ node.captures then
    ({ message :=
        { node.message with
          inputs
          attributes := Onnx.renameAttributes source target node.message.attributes }
       captures :=
        if target ∈ node.captures then node.captures.erase source
        else node.captures.replace source target },
      true)
  else ({ node with message := { node.message with inputs } }, source ∈ node.inputs)

end Node

end FixedShape
