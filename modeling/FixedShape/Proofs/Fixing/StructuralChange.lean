/-
Module: FixedShape.Proofs.Fixing.StructuralChange
Purpose: All that padding an output changes in the message of a model. The value behind the output
  moves to a new name with everything that reads it, two nodes and four constants are appended, two
  declarations change, and the rest of the message stays. What is reported is what was made.
-/
import FixedShape.Proofs.Fixing.Guarantees
import FixedShape.Proofs.Graph.Rewiring
import Mathlib.Data.List.Count

namespace FixedShape

/-- A name that is the only one chosen is available once. -/
theorem TensorSelector.count_eq_one_of_select {selector : TensorSelector} {available : List String}
    {name : String} (h : selector.select available = .ok [name]) : available.count name = 1 := by
  have hname := (mem_of_select h).mp (List.mem_singleton_self name)
  have hchosen := eq_filter_of_select h
  calc
    available.count name = (available.filter (· ∈ selector.names)).count name :=
      (List.count_filter (by simpa using hname.2)).symm
    _ = 1 := by
      rw [← hchosen]
      exact List.count_singleton_self

/-! ### Declarations in a message -/

namespace Onnx

/-- Of the declarations of a name the first is changed, if there is one. -/
inductive FirstChanged (name : String) (change : ValueInfo → ValueInfo) :
    List ValueInfo → List ValueInfo → Prop where
  | absent {infos : List ValueInfo} (others : ∀ info ∈ infos, info.name ≠ some name) :
      FirstChanged name change infos infos
  | found (before behind : List ValueInfo) {info : ValueInfo}
      (others : ∀ other ∈ before, other.name ≠ some name) (named : info.name = some name) :
      FirstChanged name change (before ++ info :: behind) (before ++ change info :: behind)

theorem FirstChanged.cons {name : String} {change : ValueInfo → ValueInfo}
    {old new : List ValueInfo} {info : ValueInfo} (h : FirstChanged name change old new)
    (hinfo : info.name ≠ some name) : FirstChanged name change (info :: old) (info :: new) := by
  cases h with
  | absent others => exact .absent (List.forall_mem_cons.mpr ⟨hinfo, others⟩)
  | found before behind others named =>
      exact .found (info :: before) behind (List.forall_mem_cons.mpr ⟨hinfo, others⟩) named

/-- A declaration as that of a vector. Of the message only the element type and the list of
dimensions are replaced. -/
def ValueInfo.redeclare (elemType : Int32) (length : Int64) (value : ValueInfo) : ValueInfo :=
  let type := value.type.getD {}
  let tensorType := type.tensorType.getD {}
  let shape := { tensorType.shape.getD {} with dims := [{ value := some length }] }
  { value with
    type := some
      { type with
        tensorType := some { tensorType with elemType := some elemType, shape := some shape } } }

/-- A node that writes and reads `target` in place of `source`, itself and in its subgraphs, and is
otherwise the same. -/
def Node.Moved (source target : String) (before after : Node) : Prop :=
  Node.Rewired source target
    { before with outputs := before.outputs.map (rename source target) } after

end Onnx

/-- Changing the first declaration of a name changes its message. -/
theorem firstChanged_modifyInfo {name : String} {change : TensorInfo → TensorInfo}
    {onMessage : Onnx.ValueInfo → Onnx.ValueInfo}
    (hchange : ∀ info : TensorInfo, (change info).toMessage = onMessage info.toMessage)
    (infos : List TensorInfo) :
    Onnx.FirstChanged name onMessage (infos.map TensorInfo.toMessage)
      ((modifyInfo name change infos).map TensorInfo.toMessage) := by
  induction infos with
  | nil => exact .absent (List.forall_mem_nil _)
  | cons info rest ih =>
      rw [modifyInfo]
      split
      · next hname =>
          rw [List.map_cons, List.map_cons, hchange]
          exact .found [] _ (List.forall_mem_nil _) (congrArg some hname)
      · next hname => exact ih.cons fun heq => hname (Option.some.inj heq)

namespace Fixing

/-! ### What changes -/

/-- What padding an output makes of the message of a graph, and all that it makes of it. -/
structure PaddedMessage (output : String) (options : OutputOptions) (names : PaddingNames)
    (elemType : ElementType) (size : Nat) (old new : Onnx.Graph) : Prop where
  kept : new =
    { old with
      nodes := new.nodes
      initializers := new.initializers
      outputs := new.outputs
      valueInfo := new.valueInfo }
  produced_once : (old.nodes.flatMap (·.outputs)).count output = 1
  nodes : ∃ moved, List.Forall₂ (Onnx.Node.Moved output names.intermediate) old.nodes moved ∧
    new.nodes = moved ++
      [{ inputs := [names.intermediate, names.zeros]
         outputs := [names.concatenated]
         name := some names.concatNode
         opType := some "Concat"
         attributes := [
           { name := some "axis"
             i := some options.axis
             type := some Onnx.AttributeType.int }] },
        { inputs := [names.concatenated, names.starts, names.ends, names.axes]
          outputs := [output]
          name := some names.sliceNode
          opType := some "Slice" }]
  initializers : new.initializers = old.initializers ++
    [{ name := some names.zeros
       dims := [Int64.ofNat options.length]
       dataType := some elemType.code
       rawData := some (List.replicate (size * options.length) 0) },
      { name := some names.starts
        dims := [1]
        dataType := some Onnx.DataType.int64
        int64Data := [0] },
      { name := some names.ends
        dims := [1]
        dataType := some Onnx.DataType.int64
        int64Data := [Int64.ofNat options.length] },
      { name := some names.axes
        dims := [1]
        dataType := some Onnx.DataType.int64
        int64Data := [options.axis] }]
  valueInfo : Onnx.FirstChanged output ({ · with name := some names.intermediate })
    old.valueInfo new.valueInfo
  declared_once : (old.outputs.map (·.name)).count (some output) = 1
  outputs : Onnx.FirstChanged output
    (Onnx.ValueInfo.redeclare elemType.code (Int64.ofNat options.length)) old.outputs new.outputs

/-- What padding an output changes in a model, and what is reported of it. -/
structure StructuralChange (output : String) (options : OutputOptions) (names : PaddingNames)
    (elemType : ElementType) (size : Nat) (old : Model) (report : OutputReport) (new : Model) :
    Prop where
  elemType_eq : ∃ info, old.graph.output? output = some info ∧
    elemType = info.elemType?.getD .float32
  size_eq : elemType.byteSize? = some size
  length_bounds : 0 < options.length ∧ options.length ≤ maxInt64
  message_eq : new.toMessage = { old.toMessage with graph := some new.graph.toMessage }
  graph : PaddedMessage output options names elemType size old.graph.toMessage new.graph.toMessage
  declared : ∃ info, new.graph.output? output = some info ∧ info.elemType? = some elemType ∧
    info.shape? = some [.fixed options.length]
  names_nodup : names.all.Nodup
  report_eq : report =
    { output
      mode := .structural
      intermediate := some names.intermediate
      addedNodes := [names.concatNode, names.sliceNode]
      addedInitializers := [names.zeros, names.starts, names.ends, names.axes]
      rewired := (old.graph.consumers output).map old.graph.nodeLabel }

namespace CoherentPadding

variable {output : String} {basis : PaddingBasis} {zeros : Initializer} {options : OutputOptions}
  {names : PaddingNames} {old new : Graph}
  (padding : CoherentPadding output basis zeros options names old new)

include padding

/-- A redirected node has moved, as no subgraph of it defines the new name. -/
theorem moved (accurate : ∀ node ∈ old.nodes, node.Accurate fun _ => False) {node : Node}
    (hnode : node ∈ old.nodes) :
    node.message.Moved output names.intermediate
      (node.redirect output names.intermediate).message := by
  obtain ⟨_, _, hwrites⟩ := padding.written
  have hrenamed := (accurate node hnode).renameOutput output names.intermediate
  refine hrenamed.rewired hwrites.1 padding.intermediate_ne_empty fun hbinds => ?_
  exact padding.not_mem_scopedNames_of_old (by simp [PaddingNames.all]) hnode
    hbinds.mem_scopedNames

/-- The message of a padded graph. -/
theorem paddedMessage {size : Nat} (accurate : ∀ node ∈ old.nodes, node.Accurate fun _ => False)
    (hlength : options.length ≤ maxInt64)
    (hzeros : zeros.tensor =
      { dims := [Int64.ofNat options.length]
        dataType := some basis.elemType.code
        rawData := some (List.replicate (size * options.length) 0) })
    (hdeclared : (old.outputs.map (·.name)).count output = 1) :
    PaddedMessage output options names basis.elemType size old.toMessage new.toMessage where
  kept := by
    unfold Graph.toMessage
    rw [padding.rest_eq, padding.inputs_eq]
  produced_once := by
    unfold Graph.toMessage
    rw [List.flatMap_map]
    exact padding.count_before
  nodes := by
    refine ⟨old.nodes.map fun node => (node.redirect output names.intermediate).message, ?_, ?_⟩
    · refine List.forall₂_map_left_iff.mpr (List.forall₂_map_right_iff.mpr ?_)
      exact List.forall₂_same.mpr fun node hnode => padding.moved accurate hnode
    · unfold Graph.toMessage
      rw [padding.nodes_eq, List.map_append, List.map_map]
      rfl
  initializers := by
    unfold Graph.toMessage
    rw [padding.initializers_eq, List.map_append, padding.zeros_name]
    unfold paddingConstants
    rw [List.map_cons, Initializer.toMessage, hzeros]
    rfl
  valueInfo := by
    unfold Graph.toMessage
    rw [padding.valueInfo_eq]
    exact firstChanged_modifyInfo (fun _ => rfl) old.valueInfo
  declared_once := by
    have hnames : old.toMessage.outputs.map (·.name) = (old.outputs.map (·.name)).map some := by
      unfold Graph.toMessage
      rw [List.map_map, List.map_map]
      rfl
    rw [hnames, List.count_map_of_injective _ some fun _ _ => Option.some.inj, hdeclared]
  outputs := by
    unfold Graph.toMessage
    rw [padding.outputs_eq]
    refine firstChanged_modifyInfo (fun info => ?_) old.outputs
    have hsize : Dimension.toMessage (.fixed options.length) =
        { value := some (Int64.ofNat options.length) } := by
      rw [Dimension.toMessage, Nat.min_eq_left hlength]
    unfold declarePadded TensorInfo.setShape
    rw [List.map_singleton, hsize]
    rfl

/-- A padded output is declared to be a vector of the length that was asked for. -/
theorem output?_eq {info : TensorInfo} {size : Nat} (hinfo : old.output? output = some info)
    (hsize : basis.elemType.byteSize? = some size) (hlength : options.length ≤ maxInt64) :
    ∃ declared, new.output? output = some declared ∧ declared.elemType? = some basis.elemType ∧
      declared.shape? = some [.fixed options.length] := by
  have hshape := TensorInfo.shape?_setShape (List.forall_mem_singleton.mpr hlength)
    (info.setElemType basis.elemType)
  refine ⟨declarePadded basis options.length info, ?_, ?_, hshape⟩
  · unfold Graph.output?
    rw [padding.outputs_eq,
      @findInfo?_modifyInfo output (declarePadded basis options.length) fun _ => rfl]
    exact congrArg (Option.map _) hinfo
  · rw [declarePadded, TensorInfo.elemType?_setShape,
      TensorInfo.elemType?_setElemType (ElementType.code_ne_undefined hsize),
      ElementType.ofCode_code hsize]

/-- A node from before keeps its label. -/
theorem nodeLabel_eq {id : NodeId} {node : Node} (hnode : old.nodes[id]? = some node) :
    new.nodeLabel id = old.nodeLabel id := by
  have hname : (node.redirect output names.intermediate).name? = node.name? := by
    rw [Node.name?, Node.message_redirect]
    rfl
  unfold Graph.nodeLabel Graph.node?
  rw [hnode, padding.getElem?_redirect hnode]
  simp only [hname, Node.opType_redirect]

/-- The labels of the consumers of the output are those from before. -/
theorem map_nodeLabel_consumers :
    (old.consumers output).map new.nodeLabel = (old.consumers output).map old.nodeLabel := by
  refine List.map_congr_left fun id hid => ?_
  obtain ⟨node, hnode, _⟩ := Graph.mem_consumers.mp hid
  exact padding.nodeLabel_eq hnode

end CoherentPadding

/-- The nodes that are rewired are the consumers of the output. -/
theorem rewired_of_padGraph {output : String} {basis : PaddingBasis} {zeros : Initializer}
    {options : OutputOptions} {old new : Graph} {names : PaddingNames} {rewired : List NodeId}
    (houtput : output ≠ "")
    (h : padGraph output basis zeros options (old.uniqueName "padding_zeros").2 =
      (new, names, rewired)) :
    rewired = old.consumers output := by
  obtain ⟨first, _, hfirst, _, _, _, hrewired⟩ := padGraph_steps h
  obtain ⟨_, hfirst⟩ := Graph.eq_of_uniqueName hfirst
  have hnodes : first.nodes = old.nodes := by
    rw [hfirst]
    exact (Graph.wiring_reserve _ old).1
  rw [hrewired, Graph.ids_replaceUses_eq_consumers houtput, Graph.consumers_renameOutput]
  exact Graph.consumers_eq_of_dependencies (congrArg (List.map Node.dependencies) hnodes)

/-- Padding an output of a loaded model changes what is written there and nothing else, and reports
the names it made and the nodes that it rewired. -/
theorem structural_changes {bytes : Wire.Bytes} {loaded : Model} {log : Log}
    {selector : TensorSelector} {options : OutputOptions} {report : OutputReport}
    {after : Workspace} (load : Model.load bytes = .ok loaded) (mode : options.mode = .structural)
    (runs : Runs (fixOutput selector options) { model := loaded, log } report after) :
    ∃ output names elemType size,
      selector.select (loaded.graph.outputs.map (·.name)) = .ok [output] ∧
      StructuralChange output options names elemType size loaded report after.model := by
  obtain ⟨output, hselect, _, _, hpos, hlength, hmodel⟩ := runs.of_fixOutput
  rw [mode] at hmodel
  obtain ⟨run⟩ := hmodel
  obtain ⟨message, hloaded⟩ := Model.loadedFrom_of_load load
  obtain ⟨_, _, hgraph⟩ := hloaded.graph
  have padding := run.coherentPadding hgraph.coherent
  obtain ⟨_, _, info, hinfo, helemType⟩ := paddingBasis_sound run.basis_eq
  obtain ⟨size, hsize, _, hzeros⟩ := Initializer.zeros?_eq_some run.zeros_eq
  obtain ⟨_, _, hwrites⟩ := padding.written
  have hdeclared := TensorSelector.count_eq_one_of_select hselect
  refine ⟨output, run.names, run.basis.elemType, size, hselect, ?_⟩
  exact
    { elemType_eq := ⟨info, hinfo, helemType⟩
      size_eq := hsize
      length_bounds := ⟨hpos, hlength⟩
      message_eq := by
        unfold Model.toMessage
        rw [run.message_eq]
      graph := padding.paddedMessage hgraph.accurate hlength (by rw [hzeros]) hdeclared
      declared := padding.output?_eq hinfo hsize hlength
      names_nodup := padding.nodup
      report_eq := run.report_eq.trans <| by
        rw [rewired_of_padGraph hwrites.1 run.pad_eq, padding.map_nodeLabel_consumers] }

/-- An output that is read by a node and in a branch, beside one that is not padded. -/
theorem structural_changes_branch :
    let branch : Onnx.Graph :=
      { nodes := [{ opType := some "Relu", inputs := ["y"], outputs := ["r"] }]
        outputs := [{ name := some "r" }] }
    let message : Onnx.Model :=
      { irVersion := some 8
        opsetImports := [{ domain := some "", version := some 13 }]
        graph := some
          { nodes :=
              [{ opType := some "Identity", inputs := ["x"], outputs := ["y"] },
                { opType := some "If"
                  inputs := ["c"]
                  outputs := ["z"]
                  attributes := [{ name := some "then_branch", g := some branch }] },
                { opType := some "Neg", inputs := ["y"], outputs := ["w"] }]
            inputs := [{ name := some "x" }, { name := some "c" }]
            outputs := [{ name := some "y" }, { name := some "z" }]
            valueInfo := [{ name := some "w" }, { name := some "y" }] } }
    let options : OutputOptions := { mode := .structural, length := 4 }
    ∃ loaded report after, Model.load message.encode = .ok loaded ∧
      Runs (fixOutput (.exactly ["y"]) options) { model := loaded } report after ∧
      report.rewired = ["If #1", "Neg #2"] ∧ ∃ output names elemType size,
        TensorSelector.select (.exactly ["y"]) (loaded.graph.outputs.map (·.name)) =
          .ok [output] ∧
        StructuralChange output options names elemType size loaded report after.model := by
  intro branch message options
  have hsucceeds : succeeds (fixOutput (.exactly ["y"]) options)
      (fun model =>
        decide ((model.graph.consumers "y").map model.graph.nodeLabel = ["If #1", "Neg #2"]))
      message.encode = true := by
    decide +kernel
  obtain ⟨loaded, report, after, hload, hlabels, hrun⟩ := exists_of_succeeds hsucceeds
  obtain ⟨output, names, elemType, size, hselect, hchange⟩ := structural_changes hload rfl hrun
  have hmem := (TensorSelector.mem_of_select hselect).mp (List.mem_singleton_self output)
  obtain rfl : output = "y" := List.mem_singleton.mp hmem.2
  refine ⟨loaded, report, after, hload, hrun, ?_, _, names, elemType, size, hselect, hchange⟩
  rw [hchange.report_eq]
  exact of_decide_eq_true hlabels

end Fixing

end FixedShape
