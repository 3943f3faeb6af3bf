/-
Module: FixedShape.Fixing.FixOutput
Purpose: Fixing the length of an output, either by declaring it or by padding. Padding puts two
  nodes behind the producer of the output: one appends zeros, the other keeps as many values as
  the output is to have. The output then holds its first values, and zeros if it has too few.
-/
import FixedShape.Fixing.Workspace

namespace FixedShape

/-- How the length of an output is fixed. -/
inductive OutputMode where
  /-- Its declared shape is changed and nothing else. -/
  | declarative
  /-- Nodes are added that pad or cut it. -/
  | structural
  deriving DecidableEq, Repr

/-- What happens to an output that may be too long. -/
inductive OverflowPolicy where
  /-- Its first values are kept. -/
  | truncate
  /-- The step fails if the declared length is too large. -/
  | reject
  deriving DecidableEq, Repr

/-- How an output is to be fixed. -/
structure OutputOptions where
  mode : OutputMode := .declarative
  length : Nat := 192000
  axis : Int64 := 0
  overflow : OverflowPolicy := .truncate
  deriving DecidableEq, Repr

/-- What fixing an output has changed. -/
structure OutputReport where
  output : String
  mode : OutputMode
  /-- The new name of the value that is padded. -/
  intermediate : Option String := none
  addedNodes : List String := []
  /-- The new constants, the zeros first. -/
  addedInitializers : List String := []
  /-- The labels of the nodes that read the value that is padded. -/
  rewired : List String := []
  deriving DecidableEq, Repr

/-- The first version of the default operator set in which bounds of a slice are inputs. -/
def minPaddingOpset : Int64 := 10

/-- A file holds at most two gigabytes, and so does a constant in it. -/
def maxConstantBytes : Nat := 0x7fffffff

namespace Fixing

/-- The error for an output that was chosen and is not there. -/
def missingOutput (name : String) : FixError :=
  .noTargetOutput { missing := [name], candidates := [] }

/-- The number of elements that an output is declared to have. -/
def declaredLength? (shape? : Option Shape) : Option Nat := shape?.bind Shape.elementCount?

/-- Applies the overflow policy to the declared shape of an output. -/
def checkOverflow (output : String) (shape? : Option Shape) (options : OutputOptions) :
    Fixing Unit :=
  match declaredLength? shape?, options.overflow with
  | some length, .reject =>
    if options.length < length then throw (.wouldTruncate output length options.length)
    else pure ()
  | some length, .truncate =>
    if options.length < length then
      tell .warn <|
        "Output \"" ++ output ++ "\" has length " ++ toString length ++
          ". Values after the first " ++ toString options.length ++ " will be dropped"
    else pure ()
  | none, .truncate =>
    if options.mode = .structural then
      tell .warn <|
        "Output \"" ++ output ++ "\" has a dynamic length. Values after the first " ++
          toString options.length ++ " will be dropped"
    else pure ()
  | none, .reject => pure ()

/-- What padding an output rests on: the type of its elements and the one node that writes it. -/
structure PaddingBasis where
  elemType : ElementType
  producer : NodeId
  deriving DecidableEq, Repr

/-- Tells whether padding is possible. The first obstacle, in this order, is the answer: the
operator set, the rank, the axis, the size of the constant, the producer. -/
def paddingBasis (model : Model) (output : String) (options : OutputOptions) :
    Except FixError PaddingBasis := do
  let graph := model.graph
  let opset := model.opsetVersion? ""
  let supported := match opset with
    | some version => decide (minPaddingOpset ≤ version)
    | none => false
  if !supported then throw (.unsupportedOpset minPaddingOpset opset)
  let info ← match graph.output? output with
    | some info => pure info
    | none => throw (missingOutput output)
  if let some shape := info.shape? then
    if shape.length ≠ 1 then throw (.unsupportedRank output shape.length)
  if options.axis ≠ 0 ∧ options.axis ≠ -1 then throw (.invalidOption (.axisOutOfRange options.axis))
  let elemType := info.elemType?.getD .float32
  if let some size := elemType.byteSize? then
    if maxConstantBytes < size * options.length then
      throw (.invalidOption (.paddingTooLarge options.length elemType))
  match graph.producers output with
  | [producer] => return { elemType, producer }
  | producers => throw (.producerNotFound output (producers.map graph.nodeLabel))

/-- The names that padding makes. -/
structure PaddingNames where
  zeros : String
  intermediate : String
  concatenated : String
  starts : String
  ends : String
  axes : String
  concatNode : String
  sliceNode : String
  deriving DecidableEq, Repr

/-- The two nodes of padding. The first appends the zeros to the value, the second takes the
elements from the start to the fixed length. -/
def paddingNodes (output : String) (names : PaddingNames) (axis : Int64) : Node × Node :=
  (((((Node.new "Concat").withName names.concatNode).withInput names.intermediate).withInput
      names.zeros).withOutput names.concatenated).withAttr "axis" (.int axis) |> fun concat =>
  (concat,
    ((((((Node.new "Slice").withName names.sliceNode).withInput names.concatenated).withInput
      names.starts).withInput names.ends).withInput names.axes).withOutput output)

/-- Pads an output, given its zeros: the value behind it gets another name, which all its readers
follow, so that they read the value as it was. Gives the names made and the nodes that were
rewired. -/
def padGraph (output : String) (basis : PaddingBasis) (zeros : Initializer)
    (options : OutputOptions) (graph : Graph) : Graph × PaddingNames × List NodeId :=
  let (intermediate, graph) := graph.uniqueName (output ++ "_unpadded")
  let (graph, _) := graph.renameOutput basis.producer output intermediate
  let (graph, rewired) := graph.replaceUses output intermediate []
  let (graph, _) := graph.renameValueInfo output intermediate
  let (concatenated, graph) := graph.uniqueName (output ++ "_concat")
  let (starts, graph) := graph.uniqueName "slice_starts"
  let (ends, graph) := graph.uniqueName "slice_ends"
  let (axes, graph) := graph.uniqueName "slice_axes"
  let (concatNode, graph) := graph.uniqueName (output ++ "_pad_concat")
  let (sliceNode, graph) := graph.uniqueName (output ++ "_pad_slice")
  let names : PaddingNames :=
    { zeros := zeros.name, intermediate, concatenated, starts, ends, axes, concatNode, sliceNode }
  let graph := graph.addInitializer zeros
  let graph := graph.addInitializer (.ofInt64s starts [0])
  let graph := graph.addInitializer (.ofInt64s ends [Int64.ofNat options.length])
  let graph := graph.addInitializer (.ofInt64s axes [options.axis])
  let (concat, slice) := paddingNodes output names options.axis
  let graph := (graph.addNode concat).addNode slice
  let graph := graph.modifyOutput output fun info =>
    (info.setElemType basis.elemType).setShape [.fixed options.length]
  (graph, names, rewired)

/-- Pads an output. -/
def padOutput (output : String) (options : OutputOptions) : Fixing OutputReport := do
  let model := (← get).model
  match paddingBasis model output options with
  | .error error => throw error
  | .ok basis =>
    tell .debug <|
      "Output \"" ++ output ++ "\" is produced by " ++ model.graph.nodeLabel basis.producer
    let (zerosName, graph) := model.graph.uniqueName "padding_zeros"
    setGraph graph
    match Initializer.zeros? zerosName basis.elemType options.length with
    | none => throw (.unsupportedElementType output basis.elemType)
    | some zeros =>
      let (graph, names, rewired) := padGraph output basis zeros options graph
      setGraph graph
      let rewired := rewired.map graph.nodeLabel
      rewired.forM fun label =>
        tell .debug ("Rewired " ++ label ++ " to read \"" ++ names.intermediate ++ "\"")
      tell .info <|
        "Padded \"" ++ output ++ "\" to " ++ toString options.length ++ " elements: " ++
          names.intermediate ++ " -> " ++ names.concatNode ++ " -> " ++ names.sliceNode ++
          " -> " ++ output
      return {
        output
        mode := .structural
        intermediate := some names.intermediate
        addedNodes := [names.concatNode, names.sliceNode]
        addedInitializers := [names.zeros, names.starts, names.ends, names.axes]
        rewired }

/-- Declares the length of an output. -/
def declareOutput (output : String) (length : Nat) : Fixing OutputReport := do
  let graph ← graph
  setGraph (graph.modifyOutput output (·.setShape [.fixed length]))
  tell .warn <|
    "Declared shape of \"" ++ output ++ "\" set to [" ++ toString length ++
      "]. The length computed at runtime may differ"
  return { output, mode := .declarative }

/-- Fixes the length of the one output that is chosen. A length must be positive, and such that
it can be declared. -/
def fixOutput (selector : TensorSelector) (options : OutputOptions) : Fixing OutputReport := do
  if options.length = 0 then throw (.invalidOption .zeroOutputLength)
  if maxInt64 < options.length then throw (.invalidOption (.outputLengthTooLarge options.length))
  let graph ← graph
  match selector.select (graph.outputs.map (·.name)) with
  | .error error => throw (.noTargetOutput error)
  | .ok [output] =>
    match graph.output? output with
    | none => throw (missingOutput output)
    | some info =>
      checkOverflow output info.shape? options
      match options.mode with
      | .declarative => declareOutput output options.length
      | .structural => padOutput output options
  | .ok found => throw (.ambiguousOutput found)

end Fixing

end FixedShape
