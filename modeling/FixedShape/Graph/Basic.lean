/-
Module: FixedShape.Graph.Basic
Purpose: A graph in memory: nodes in the order of the file, declarations, constants, an index of
  producers, and the set of names in use, from which new names keep away.
-/
import FixedShape.Graph.Node
import FixedShape.Graph.ProducerIndex
import FixedShape.Tensor.TensorInfo
import FixedShape.Tensor.Initializer

namespace FixedShape

/-- A graph. `names` holds every name in use, and maybe names that were in use before a change;
`rest` holds the fields of the message that no other part holds. -/
structure Graph where
  nodes : List Node := []
  producerIndex : ProducerIndex := []
  inputs : List TensorInfo := []
  outputs : List TensorInfo := []
  valueInfo : List TensorInfo := []
  initializers : List Initializer := []
  names : List String := []
  rest : Onnx.Graph := {}

namespace Graph

/-- The message of a graph. -/
def toMessage (graph : Graph) : Onnx.Graph :=
  { graph.rest with
    nodes := graph.nodes.map (·.message)
    initializers := graph.initializers.map Initializer.toMessage
    inputs := graph.inputs.map TensorInfo.toMessage
    outputs := graph.outputs.map TensorInfo.toMessage
    valueInfo := graph.valueInfo.map TensorInfo.toMessage }

/-! ### Looking up -/

/-- The nodes with their positions. -/
def indexedNodes (graph : Graph) : List (NodeId × Node) :=
  graph.nodes.zipIdx.map fun (node, id) => (id, node)

def node? (graph : Graph) (id : NodeId) : Option Node := graph.nodes[id]?

/-- How messages call a node: by its name, or else by its operator and position. -/
def nodeLabel (graph : Graph) (id : NodeId) : String :=
  match graph.node? id with
  | none => "#" ++ toString id
  | some node =>
    match node.name? with
    | some name => name
    | none => node.opType ++ " #" ++ toString id

def input? (graph : Graph) (name : String) : Option TensorInfo := findInfo? name graph.inputs

def output? (graph : Graph) (name : String) : Option TensorInfo := findInfo? name graph.outputs

def valueInfo? (graph : Graph) (name : String) : Option TensorInfo := findInfo? name graph.valueInfo

def initializer? (graph : Graph) (name : String) : Option Initializer :=
  graph.initializers.find? (·.name == name)

/-- The nodes that write a name. -/
def producers (graph : Graph) (name : String) : List NodeId := graph.producerIndex.get name

/-- The nodes that read a name, themselves or in a subgraph, in ascending order. -/
def consumers (graph : Graph) (name : String) : List NodeId :=
  (graph.indexedNodes.filter fun (_, node) => name ∈ node.dependencies).map (·.1)

/-- Tells whether a name is in use. -/
def containsName (graph : Graph) (name : String) : Bool := name ∈ graph.names

/-! ### Names -/

/-- Puts a name into use. -/
def reserve (name : String) (graph : Graph) : Graph :=
  if name ∈ graph.names then graph else { graph with names := name :: graph.names }

/-- Puts names into use, except the empty one, which names nothing. -/
def reserveAll (names : List String) (graph : Graph) : Graph :=
  names.foldl (fun graph name => if name = "" then graph else graph.reserve name) graph

/-- The `k`-th name made from a base: the base itself, then `base_1`, `base_2` and so on. -/
def candidateName (base : String) : Nat → String
  | 0 => base
  | k + 1 => base ++ "_" ++ toString (k + 1)

/-- The first name made from a base that is not in use. Of one candidate more than there are names
in use, one is free. -/
def freshName (graph : Graph) (base : String) : String :=
  let free := (List.range (graph.names.length + 1)).find? fun k =>
    candidateName base k ∉ graph.names
  candidateName base (free.getD (graph.names.length + 1))

/-- A name that is not in use, put into use. -/
def uniqueName (base : String) (graph : Graph) : String × Graph :=
  let name := graph.freshName base
  (name, graph.reserve name)

/-! ### Adding -/

/-- Appends a node. All names it mentions are put into use, also those inside its subgraphs, as a
new name must not be shadowed there. -/
def addNode (node : Node) (graph : Graph) : Graph :=
  let id := graph.nodes.length
  let graph := graph.reserveAll
    (node.inputs ++ (node.outputs ++ (node.name?.toList ++ node.message.scopedNames)))
  { graph with
    nodes := graph.nodes ++ [node]
    producerIndex := (node.outputs.filter (· ≠ "")).foldl (·.push · id) graph.producerIndex }

def addInitializer (init : Initializer) (graph : Graph) : Graph :=
  { graph.reserve init.name with initializers := graph.initializers ++ [init] }

def addInput (info : TensorInfo) (graph : Graph) : Graph :=
  { graph.reserve info.name with inputs := graph.inputs ++ [info] }

def addOutput (info : TensorInfo) (graph : Graph) : Graph :=
  { graph.reserve info.name with outputs := graph.outputs ++ [info] }

def addValueInfo (info : TensorInfo) (graph : Graph) : Graph :=
  { graph.reserve info.name with valueInfo := graph.valueInfo ++ [info] }

/-! ### Changing -/

/-- Changes the first input of a name. -/
def modifyInput (name : String) (change : TensorInfo → TensorInfo) (graph : Graph) : Graph :=
  { graph with inputs := modifyInfo name change graph.inputs }

/-- Changes the first output of a name. -/
def modifyOutput (name : String) (change : TensorInfo → TensorInfo) (graph : Graph) : Graph :=
  { graph with outputs := modifyInfo name change graph.outputs }

/-- Gives an output of a node another name, and tells whether the node has the output. The index
follows: the node no longer writes the old name and is the last to write the new one. -/
def renameOutput (id : NodeId) (source target : String) (graph : Graph) : Graph × Bool :=
  match graph.node? id with
  | none => (graph, false)
  | some node =>
    let (node, renamed) := node.renameOutput source target
    if renamed then
      ({ graph.reserve target with
          nodes := graph.nodes.set id node
          producerIndex := (graph.producerIndex.remove source id).push target id },
        true)
    else (graph, false)

/-- Lets every node outside `exclude` that reads `source` read `target`, and tells which did. -/
def replaceUses (source target : String) (exclude : List NodeId) (graph : Graph) :
    Graph × List NodeId :=
  let replaced := graph.indexedNodes.map fun (id, node) =>
    if id ∈ exclude then (id, node, false) else (id, node.replaceInput source target)
  let updated := (replaced.filter fun (_, _, changed) => changed).map (·.1)
  let graph := if updated.isEmpty then graph else graph.reserve target
  ({ graph with nodes := replaced.map fun (_, node, _) => node }, updated)

/-- Gives the first entry `source` of the value declarations another name, and tells whether there
is one. -/
def renameValueInfo (source target : String) (graph : Graph) : Graph × Bool :=
  match graph.valueInfo? source with
  | none => (graph, false)
  | some _ =>
    ({ graph.reserve target with
        valueInfo := modifyInfo source ({ · with name := target }) graph.valueInfo },
      true)

end Graph

end FixedShape
