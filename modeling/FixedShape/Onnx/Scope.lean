/-
Module: FixedShape.Onnx.Scope
Purpose: Names and scopes. A graph reads values by name; a subgraph held by a node may also read
  values of the graphs around it. Here are the names a graph defines itself, the names it reads
  from outside, the names used anywhere inside it, and the renaming of what it reads from outside.
-/
import FixedShape.Onnx.Message

namespace FixedShape.Onnx

/-- The subgraphs that a node holds in its attributes. -/
def Node.subgraphs (node : Node) : List Graph :=
  node.attributes.flatMap fun setting => setting.g.toList ++ setting.graphs

/-- The names that a graph defines: its inputs, its constants and the outputs of its nodes. -/
def Graph.definedNames (graph : Graph) : List String :=
  graph.inputs.filterMap (·.name) ++ (graph.initializers.filterMap (·.name) ++
    graph.nodes.flatMap (·.outputs))

/-- Adds a name that is read to those captured so far, unless it is empty (a value left out),
defined where it is read, or there already. -/
def capture (defined : List String) (captures : List String) (name : String) : List String :=
  if name = "" ∨ name ∈ defined ∨ name ∈ captures then captures else captures ++ [name]

mutual

/-- Adds the names that a graph reads from outside to those captured so far: by its nodes, by
the subgraphs of its nodes, and as its outputs. -/
def Graph.addCaptures : Graph → List String → List String
  | { nodes, name, initializers, docString, inputs, outputs, valueInfo, unknownFields }, captures =>
    let defined := Graph.definedNames
      { nodes, name, initializers, docString, inputs, outputs, valueInfo, unknownFields }
    (outputs.filterMap (·.name)).foldl (capture defined) (captureNodes defined nodes captures)

/-- Adds what nodes read. What their subgraphs capture is gathered first and then read where
the node stands. -/
def captureNodes (defined : List String) : List Node → List String → List String
  | [], captures => captures
  | { inputs, attributes, .. } :: rest, captures =>
    captureNodes defined rest <|
      (captureAttributes attributes []).foldl (capture defined) <|
        inputs.foldl (capture defined) captures

/-- Adds the captures of the subgraphs that attributes hold. -/
def captureAttributes : List Attribute → List String → List String
  | [], captures => captures
  | { g, graphs, .. } :: rest, captures =>
    captureAttributes rest (captureGraphs graphs (captureGraph? g captures))

/-- Adds the captures of a list of graphs. -/
def captureGraphs : List Graph → List String → List String
  | [], captures => captures
  | first :: rest, captures => captureGraphs rest (first.addCaptures captures)

/-- Adds the captures of a graph that may be absent. -/
def captureGraph? : Option Graph → List String → List String
  | none, captures => captures
  | some graph, captures => graph.addCaptures captures

end

/-- The names that the subgraphs of a node read from outside. -/
def Node.captures (node : Node) : List String := captureAttributes node.attributes []

mutual

/-- The value and node names used inside a graph, at any depth. -/
def Graph.scopedNames : Graph → List String
  | { nodes, name, initializers, docString, inputs, outputs, valueInfo, unknownFields } =>
    Graph.definedNames
      { nodes, name, initializers, docString, inputs, outputs, valueInfo, unknownFields } ++
      scopedNodeNames nodes

/-- The names of nodes, and the names used inside their subgraphs. -/
def scopedNodeNames : List Node → List String
  | [] => []
  | { name, attributes, .. } :: rest =>
    name.toList ++ (scopedAttributeNames attributes ++ scopedNodeNames rest)

/-- The names used inside the subgraphs that attributes hold. -/
def scopedAttributeNames : List Attribute → List String
  | [] => []
  | { g, graphs, .. } :: rest =>
    scopedGraphNames? g ++ (scopedGraphNames graphs ++ scopedAttributeNames rest)

/-- The names used inside a list of graphs. -/
def scopedGraphNames : List Graph → List String
  | [] => []
  | first :: rest => first.scopedNames ++ scopedGraphNames rest

/-- The names used inside a graph that may be absent. -/
def scopedGraphNames? : Option Graph → List String
  | none => []
  | some graph => graph.scopedNames

end

/-- The value and node names used inside the subgraphs of a node, at any depth. -/
def Node.scopedNames (node : Node) : List String := scopedAttributeNames node.attributes

/-- A name with `source` changed to `target`. -/
def rename (source target name : String) : String := if name = source then target else name

/-- A declaration with the name `source` changed to `target`. -/
def ValueInfo.rename (source target : String) (value : ValueInfo) : ValueInfo :=
  if value.name = some source then { value with name := some target } else value

mutual

/-- Lets a graph read `target` where it reads `source` from outside. A graph that defines
`source` reads its own value and stays as it is, with all it holds. -/
def Graph.renameFree (source target : String) : Graph → Graph
  | { nodes, name, initializers, docString, inputs, outputs, valueInfo, unknownFields } =>
    let graph : Graph :=
      { nodes, name, initializers, docString, inputs, outputs, valueInfo, unknownFields }
    if source ∈ graph.definedNames then graph
    else
      { graph with
        nodes := renameNodes source target nodes
        outputs := outputs.map (ValueInfo.rename source target) }

/-- Renames what nodes and their subgraphs read. -/
def renameNodes (source target : String) : List Node → List Node
  | [] => []
  | { inputs, outputs, name, opType, attributes, docString, domain, unknownFields } :: rest =>
    { inputs := inputs.map (rename source target)
      outputs, name, opType
      attributes := renameAttributes source target attributes
      docString, domain, unknownFields } :: renameNodes source target rest

/-- Renames what the subgraphs of attributes read from outside. -/
def renameAttributes (source target : String) : List Attribute → List Attribute
  | [] => []
  | { name, f, i, s, t, g, floats, ints, strings, tensors, graphs, type, unknownFields } :: rest =>
    { name, f, i, s, t
      g := renameGraph? source target g
      floats, ints, strings, tensors
      graphs := renameGraphs source target graphs
      type, unknownFields } :: renameAttributes source target rest

/-- Renames what a list of graphs reads from outside. -/
def renameGraphs (source target : String) : List Graph → List Graph
  | [] => []
  | first :: rest => first.renameFree source target :: renameGraphs source target rest

/-- Renames what a graph that may be absent reads from outside. -/
def renameGraph? (source target : String) : Option Graph → Option Graph
  | none => none
  | some graph => some (graph.renameFree source target)

end

end FixedShape.Onnx
