/-
Module: FixedShape.Validity.Check
Purpose: Whether a graph is well formed. Every value a node reads is defined before the node, each
  name has one source, nodes do not wait for each other, every output is produced, every input is
  needed, and what must be static is. All violations are found, check after check.
-/
import FixedShape.Graph.Basic
import FixedShape.Validity.Violation

namespace FixedShape

/-- What a graph is checked for beside its structure. -/
structure ValidateOptions where
  /-- Accepts inputs on which no output depends. -/
  allowUnusedInputs : Bool := false
  /-- Names of declared values whose shapes must be static. -/
  requireStatic : List String := []
  deriving DecidableEq, Repr

namespace Graph

/-! ### Declarations -/

/-- The names that occur more than once, each at its second occurrence. `seen` and `reported` hold
the names met before, once and more than once. -/
def repeatedNames (seen reported : List String) : List String → List String
  | [] => []
  | name :: rest =>
    if name ∈ seen then
      if name ∈ reported then repeatedNames seen reported rest
      else name :: repeatedNames seen (name :: reported) rest
    else repeatedNames (name :: seen) reported rest

/-- The names declared twice among the inputs or among the outputs. -/
def declarationViolations (graph : Graph) : List Violation :=
  (repeatedNames [] [] (graph.inputs.map (·.name)) ++
    repeatedNames [] [] (graph.outputs.map (·.name))).map .duplicateName

/-! ### Reads -/

/-- The names that are there before any node runs. -/
def givenNames (graph : Graph) : List String :=
  graph.inputs.map (·.name) ++ graph.initializers.map (·.name)

/-- The violation of a node that reads a name before anything defines it. -/
def unresolvedRead (graph : Graph) (id : NodeId) (name : String) : Violation :=
  if (graph.producers name).isEmpty then .danglingInput (graph.nodeLabel id) name
  else .usedBeforeProduced (graph.nodeLabel id) name

/-- The unresolved reads of nodes, given the names that are defined before them. -/
def readViolationsFrom (graph : Graph) (available : List String) :
    List (NodeId × Node) → List Violation
  | [] => []
  | (id, node) :: rest =>
    (node.dependencies.filter (· ∉ available)).map (graph.unresolvedRead id) ++
      readViolationsFrom graph (node.outputs.filter (· ≠ "") ++ available) rest

/-- The reads of names that no input, constant or earlier node defines. -/
def readViolations (graph : Graph) : List Violation :=
  graph.readViolationsFrom graph.givenNames graph.indexedNodes

/-! ### Sources -/

/-- The words for a source of a name that is not a node. An input with a constant of its name is
one value with a default. -/
def givenSource? (graph : Graph) (name : String) : Option String :=
  if (graph.input? name).isSome then some "graph input"
  else if (graph.initializer? name).isSome then some "initializer"
  else none

/-- All sources of a name that a node writes. -/
def sources (graph : Graph) (name : String) : List String :=
  (graph.givenSource? name).toList ++ (graph.producers name).map graph.nodeLabel

/-- The names with several sources, each once. `reported` holds the names found before. -/
def sourceViolationsFrom (graph : Graph) (reported : List String) : List String → List Violation
  | [] => []
  | name :: rest =>
    let sources := graph.sources name
    if 1 < sources.length ∧ name ∉ reported then
      .duplicateProducer name sources :: sourceViolationsFrom graph (name :: reported) rest
    else sourceViolationsFrom graph reported rest

/-- The names that nodes write and that have several sources. -/
def sourceViolations (graph : Graph) : List Violation :=
  graph.sourceViolationsFrom [] (graph.nodes.flatMap fun node => node.outputs.filter (· ≠ ""))

/-! ### Cycles -/

/-- The node that a read waits for: the first to write the name, unless the name is given. -/
def awaited? (graph : Graph) (name : String) : Option NodeId :=
  if (graph.input? name).isSome ∨ (graph.initializer? name).isSome then none
  else (graph.producers name).head?

/-- The nodes that a node waits for, once for each read. -/
def awaitedBy (graph : Graph) (node : Node) : List NodeId := node.dependencies.filterMap graph.awaited?

/-- The state of a topological sort: how many reads each node still waits for, and the nodes that
wait for none and are still to be sorted. -/
structure SortState where
  pending : List Nat
  ready : List NodeId
  sorted : Nat := 0
  deriving DecidableEq, Repr

/-- Answers one read of a node. The last one makes the node ready. -/
def SortState.answer (state : SortState) (id : NodeId) : SortState :=
  match state.pending[id]? with
  | none => state
  | some count =>
    { state with
      pending := state.pending.set id (count - 1)
      ready := if count = 1 then id :: state.ready else state.ready }

/-- The waits of all nodes seen from the nodes waited for: `dependents[j]` lists a node once for
each of its reads that waits for node `j`. -/
def dependents (waits : List (List NodeId)) (id : NodeId) : List NodeId :=
  waits.zipIdx.flatMap fun (awaited, reader) => List.replicate (awaited.count id) reader

/-- Sorts nodes while any is ready. A node is sorted once, so the number of nodes is fuel enough. -/
def sortLoop (waits : List (List NodeId)) : (fuel : Nat) → SortState → SortState
  | 0, state => state
  | fuel + 1, state =>
    match state.ready with
    | [] => state
    | id :: ready =>
      sortLoop waits fuel
        ((dependents waits id).foldl SortState.answer { state with ready, sorted := state.sorted + 1 })

/-- The outcome of sorting the nodes of a graph. -/
def topologicalSort (graph : Graph) : SortState :=
  let waits := graph.nodes.map graph.awaitedBy
  let pending := waits.map List.length
  let ready := (List.range waits.length).filter fun id => pending[id]? = some 0
  sortLoop waits waits.length { pending, ready }

/-- The nodes that wait for each other, or for nodes that do: those that a sort leaves over. -/
def cycleViolations (graph : Graph) : List Violation :=
  let state := graph.topologicalSort
  if state.sorted < graph.nodes.length then
    let left := (List.range graph.nodes.length).filter fun id => 0 < state.pending.getD id 0
    [.cycle (left.map graph.nodeLabel)]
  else []

/-! ### Boundary -/

/-- The outputs that nothing defines. -/
def outputViolations (graph : Graph) : List Violation :=
  let missing := graph.outputs.filter fun info =>
    (graph.producers info.name).isEmpty && (graph.input? info.name).isNone &&
      (graph.initializer? info.name).isNone
  missing.map fun info => .outputNotProduced info.name

/-- The state of a walk backwards from the outputs: the names and nodes met, and the names that
are still to be looked at. -/
structure WalkState where
  used : List String := []
  visited : List NodeId := []
  stack : List String
  deriving DecidableEq, Repr

/-- Visits a node that writes a name in use: what it depends on is in use as well. -/
def WalkState.visit (graph : Graph) (state : WalkState) (id : NodeId) : WalkState :=
  if id ∈ state.visited then state
  else
    { state with
      visited := id :: state.visited
      stack :=
        match graph.node? id with
        | none => state.stack
        | some node => node.dependencies ++ state.stack }

/-- Walks while there are names to be looked at. -/
def walkLoop (graph : Graph) : (fuel : Nat) → WalkState → WalkState
  | 0, state => state
  | fuel + 1, state =>
    match state.stack with
    | [] => state
    | name :: stack =>
      if name ∈ state.used then walkLoop graph fuel { state with stack }
      else
        walkLoop graph fuel
          ((graph.producers name).foldl (WalkState.visit graph)
            { state with used := name :: state.used, stack })

/-- The names that the outputs depend on, themselves among them. Each node adds its dependencies
once, which bounds the number of names ever looked at. -/
def usedNames (graph : Graph) : List String :=
  let stack := graph.outputs.map (·.name)
  let reads := graph.nodes.flatMap Node.dependencies
  (walkLoop graph (stack.length + reads.length) { stack }).used

/-- The inputs that no output depends on. An input with a default may be left unused. -/
def unusedInputViolations (graph : Graph) : List Violation :=
  let used := graph.usedNames
  let unused := graph.inputs.filter fun info =>
    info.name ∉ used && (graph.initializer? info.name).isNone
  unused.map fun info => .unusedInput info.name

/-! ### Shapes -/

/-- The first declaration of a name, among inputs, outputs and value declarations in this order. -/
def declaration? (graph : Graph) (name : String) : Option TensorInfo :=
  (graph.input? name).or ((graph.output? name).or (graph.valueInfo? name))

/-- The violation of a name whose declared shape is not static. -/
def shapeViolation? (graph : Graph) (name : String) : Option Violation :=
  match graph.declaration? name with
  | none => none
  | some info => if info.isStatic then none else some (.notStatic name info.shapeText)

/-! ### All checks -/

/-- Everything that is wrong with a graph. -/
def violations (options : ValidateOptions) (graph : Graph) : List Violation :=
  graph.declarationViolations ++ (graph.readViolations ++ (graph.sourceViolations ++
    (graph.cycleViolations ++ (graph.outputViolations ++
      ((if options.allowUnusedInputs then [] else graph.unusedInputViolations) ++
        options.requireStatic.filterMap graph.shapeViolation?)))))

/-- Accepts a graph with which nothing is wrong. -/
def validate (options : ValidateOptions) (graph : Graph) : Except (List Violation) Unit :=
  let violations := graph.violations options
  if violations.isEmpty then .ok () else .error violations

end Graph

end FixedShape
