/-
Module: FixedShape.Proofs.Graph.Saving
Purpose: Graphs that are read back from their messages. The graph that is read back has the parts of
  the graph, its captures are the same names gathered anew, and it is well formed if the graph is.
  For reading back it is enough that all parts are named; that the message can be decoded from its
  bytes asks for more.
-/
import FixedShape.Proofs.Graph.Coherent
import FixedShape.Proofs.Onnx.Renaming
import FixedShape.Proofs.Validity.WellFormed

namespace FixedShape

/-! ### Parts that are read back -/

/-- A declaration whose name is not empty and stands beside its message only. -/
structure TensorInfo.Named (info : TensorInfo) : Prop where
  name_ne : info.name ≠ ""
  unnamed : info.message.name = none

/-- A constant whose name is not empty and stands beside its tensor only. -/
structure Initializer.Named (init : Initializer) : Prop where
  name_ne : init.name ≠ ""
  unnamed : init.tensor.name = none

/-- A graph of named parts, all of whose nodes apply operators. -/
structure Graph.Named (graph : Graph) : Prop where
  inputs : ∀ info ∈ graph.inputs, info.Named
  outputs : ∀ info ∈ graph.outputs, info.Named
  valueInfo : ∀ info ∈ graph.valueInfo, info.Named
  initializers : ∀ init ∈ graph.initializers, init.Named
  operators : ∀ node ∈ graph.nodes, node.opType ≠ ""

/-- A declaration that is read back from its message. -/
structure TensorInfo.Savable (info : TensorInfo) : Prop where
  name_ne : info.name ≠ ""
  unnamed : info.message.name = none
  separated : info.message.Separated

/-- A constant that is read back from its message. -/
structure Initializer.Savable (init : Initializer) : Prop where
  name_ne : init.name ≠ ""
  unnamed : init.tensor.name = none
  separated : init.tensor.Separated

/-- A node that is read back from its message, with its captures in any order. -/
structure Node.Savable (node : Node) : Prop where
  operator : node.opType ≠ ""
  separated : node.message.Separated
  captures : ∀ name, name ∈ node.captures ↔ name ∈ node.message.captures

/-- A graph that is read back from its message. -/
structure Graph.Savable (graph : Graph) : Prop where
  inputs : ∀ info ∈ graph.inputs, info.Savable
  outputs : ∀ info ∈ graph.outputs, info.Savable
  valueInfo : ∀ info ∈ graph.valueInfo, info.Savable
  initializers : ∀ init ∈ graph.initializers, init.Savable
  nodes : ∀ node ∈ graph.nodes, node.Savable
  unknown : Onnx.MessageType.graph.Foreign graph.rest.unknownFields

theorem Graph.Savable.named {graph : Graph} (h : graph.Savable) : graph.Named where
  inputs info hinfo := ⟨(h.inputs info hinfo).name_ne, (h.inputs info hinfo).unnamed⟩
  outputs info hinfo := ⟨(h.outputs info hinfo).name_ne, (h.outputs info hinfo).unnamed⟩
  valueInfo info hinfo := ⟨(h.valueInfo info hinfo).name_ne, (h.valueInfo info hinfo).unnamed⟩
  initializers init hinit :=
    ⟨(h.initializers init hinit).name_ne, (h.initializers init hinit).unnamed⟩
  operators node hnode := (h.nodes node hnode).operator

namespace TensorInfo

/-- A declaration that is read is named. -/
theorem named_of_ofMessage? {message : Onnx.ValueInfo} {info : TensorInfo}
    (h : ofMessage? message = some info) : info.Named := by
  refine ⟨name_ne_of_ofMessage? h, ?_⟩
  unfold ofMessage? at h
  split at h
  · cases h
  · split at h
    · cases h
    · cases h
      rfl

theorem Named.ofMessage?_toMessage {info : TensorInfo} (h : info.Named) :
    ofMessage? info.toMessage = some info := by
  rcases info with ⟨name, message⟩
  have hname : message.name = none := h.unnamed
  cases message
  cases hname
  exact if_neg h.name_ne

theorem savable_of_ofMessage? {message : Onnx.ValueInfo} {info : TensorInfo}
    (h : ofMessage? message = some info) (hseparated : message.Separated) : info.Savable := by
  obtain ⟨hname, hunnamed⟩ := named_of_ofMessage? h
  rw [← toMessage_of_ofMessage? h] at hseparated
  exact ⟨hname, hunnamed, ⟨hseparated.unknown, hseparated.type⟩⟩

theorem Savable.toMessage {info : TensorInfo} (h : info.Savable) : info.toMessage.Separated :=
  ⟨h.separated.unknown, h.separated.type⟩

/-- A change of the tensor type is saved with the declaration. -/
theorem Savable.modifyTensorType {info : TensorInfo} (h : info.Savable)
    {change : Onnx.TensorType → Onnx.TensorType}
    (hchange : ∀ type, type.Separated → (change type).Separated) :
    (info.modifyTensorType change).Savable := by
  have htype : (info.message.type.getD {}).Separated := by
    cases htype : info.message.type with
    | none => exact ⟨Onnx.MessageType.foreign_nil _, nofun⟩
    | some type => exact h.separated.type type htype
  have htensor : ((info.message.type.getD {}).tensorType.getD {}).Separated := by
    cases htensor : (info.message.type.getD {}).tensorType with
    | none => exact ⟨Onnx.MessageType.foreign_nil _, nofun⟩
    | some type => exact htype.tensorType type htensor
  refine ⟨h.name_ne, h.unnamed, h.separated.unknown, ?_⟩
  rintro _ ⟨⟩
  refine ⟨htype.unknown, ?_⟩
  rintro _ ⟨⟩
  exact hchange _ htensor

theorem Savable.setElemType {info : TensorInfo} (h : info.Savable) (elemType : ElementType) :
    (info.setElemType elemType).Savable :=
  h.modifyTensorType fun _ htype => ⟨htype.unknown, htype.shape⟩

theorem Savable.setShape {info : TensorInfo} (h : info.Savable) (shape : Shape) :
    (info.setShape shape).Savable := by
  refine h.modifyTensorType fun type htype => ⟨htype.unknown, ?_⟩
  have hshape : (type.shape.getD {}).Separated := by
    cases hshape : type.shape with
    | none => exact ⟨Onnx.MessageType.foreign_nil _, List.forall_mem_nil _⟩
    | some old => exact htype.shape old hshape
  rintro _ ⟨⟩
  refine ⟨hshape.unknown, ?_⟩
  intro dimension hdimension
  obtain ⟨size, _, rfl⟩ := List.mem_map.mp hdimension
  have hunknown : size.toMessage.unknownFields = [] := by
    cases size with
    | fixed size => rfl
    | symbolic name => rfl
    | unknown => rfl
  exact ⟨hunknown ▸ Onnx.MessageType.foreign_nil _⟩

end TensorInfo

namespace Initializer

/-- A constant that is read is named. -/
theorem named_of_ofMessage? {message : Onnx.Tensor} {init : Initializer}
    (h : ofMessage? message = some init) : init.Named := by
  refine ⟨name_ne_of_ofMessage? h, ?_⟩
  unfold ofMessage? at h
  split at h
  · cases h
  · split at h
    · cases h
    · cases h
      rfl

theorem Named.ofMessage?_toMessage {init : Initializer} (h : init.Named) :
    ofMessage? init.toMessage = some init := by
  rcases init with ⟨name, tensor⟩
  have hname : tensor.name = none := h.unnamed
  cases tensor
  cases hname
  exact if_neg h.name_ne

theorem savable_of_ofMessage? {message : Onnx.Tensor} {init : Initializer}
    (h : ofMessage? message = some init) (hseparated : message.Separated) : init.Savable := by
  obtain ⟨hname, hunnamed⟩ := named_of_ofMessage? h
  rw [← toMessage_of_ofMessage? h] at hseparated
  exact ⟨hname, hunnamed, ⟨hseparated.unknown, hseparated.externalData⟩⟩

theorem Savable.toMessage {init : Initializer} (h : init.Savable) : init.toMessage.Separated :=
  ⟨h.separated.unknown, h.separated.externalData⟩

end Initializer

namespace Graph

/-! ### Reading a graph back -/

/-- A graph that was read back from the message of another. -/
structure Reloaded (graph again : Graph) : Prop where
  inputs_eq : again.inputs = graph.inputs
  outputs_eq : again.outputs = graph.outputs
  valueInfo_eq : again.valueInfo = graph.valueInfo
  initializers_eq : again.initializers = graph.initializers
  nodes_eq : again.nodes = graph.nodes.map fun node => Node.ofMessage node.message
  indexed : again.Indexed

theorem readAll_map {α β : Type} {read? : α → Option β} {write : β → α} {fault : LoadError}
    {values : List β} (h : ∀ value ∈ values, read? (write value) = some value) :
    readAll read? fault (values.map write) = .ok values := by
  induction values with
  | nil => rfl
  | cons value rest ih =>
      obtain ⟨hvalue, hrest⟩ := List.forall_mem_cons.mp h
      have hlater := ih hrest
      unfold readAll at hlater ⊢
      rw [List.map_cons, List.mapM_cons, hvalue, hlater]
      rfl

theorem foldlM_addMessage_eq_ok {messages : List Onnx.Node} {graph : Graph}
    (h : ∀ message ∈ messages, message.opType.getD "" ≠ "") :
    messages.foldlM addMessage graph = .ok (graph.addMessages messages) := by
  induction messages generalizing graph with
  | nil => rfl
  | cons message rest ih =>
      obtain ⟨hfirst, hrest⟩ := List.forall_mem_cons.mp h
      rw [List.foldlM_cons, addMessage, if_neg hfirst]
      exact ih hrest

/-- The message of a graph of named parts is read as a graph with the same parts. -/
theorem Named.ofMessage_toMessage {graph : Graph} (h : graph.Named) :
    ∃ again, ofMessage graph.toMessage = .ok again ∧ graph.Reloaded again := by
  have hread : ∃ again, ofMessage graph.toMessage = .ok again ∧
      again.inputs = graph.inputs ∧ again.outputs = graph.outputs ∧
        again.valueInfo = graph.valueInfo ∧ again.initializers = graph.initializers := by
    unfold ofMessage toMessage
    dsimp only
    rw [readAll_map fun info hinfo => (h.inputs info hinfo).ofMessage?_toMessage,
      readAll_map fun info hinfo => (h.outputs info hinfo).ofMessage?_toMessage,
      readAll_map fun info hinfo => (h.valueInfo info hinfo).ofMessage?_toMessage,
      readAll_map fun init hinit => (h.initializers init hinit).ofMessage?_toMessage]
    simp only [bind, Except.bind]
    have hnodes : ∀ message ∈ graph.nodes.map (·.message), message.opType.getD "" ≠ "" := by
      intro message hmessage
      obtain ⟨node, hnode, rfl⟩ := List.mem_map.mp hmessage
      exact h.operators node hnode
    rw [foldlM_addMessage_eq_ok hnodes]
    refine ⟨_, rfl, ?_⟩
    rw [← declared, addMessages_declared]
    exact ⟨rfl, rfl, rfl, rfl⟩
  obtain ⟨again, hagain, hinputs, houtputs, hvalueInfo, hinitializers⟩ := hread
  have hloaded := loadedFrom_of_ofMessage hagain
  refine ⟨again, hagain, hinputs, houtputs, hvalueInfo, hinitializers, ?_, hloaded.indexed⟩
  rw [hloaded.nodes_eq, toMessage, List.map_map]
  rfl

theorem Savable.toMessage_separated {graph : Graph} (h : graph.Savable) :
    graph.toMessage.Separated := by
  have hinfos : ∀ {infos : List TensorInfo}, (∀ info ∈ infos, info.Savable) →
      ∀ message ∈ infos.map TensorInfo.toMessage, message.Separated := by
    intro infos hinfos message hmessage
    obtain ⟨info, hinfo, rfl⟩ := List.mem_map.mp hmessage
    exact (hinfos info hinfo).toMessage
  refine .intro h.unknown ?_ ?_ (hinfos h.inputs) (hinfos h.outputs) (hinfos h.valueInfo)
  · intro message hmessage
    obtain ⟨node, hnode, rfl⟩ := List.mem_map.mp hmessage
    exact (h.nodes node hnode).separated
  · intro message hmessage
    obtain ⟨init, hinit, rfl⟩ := List.mem_map.mp hmessage
    exact (h.initializers init hinit).toMessage

/-! ### Loaded graphs -/

/-- Every node of a loaded graph applies an operator. -/
theorem operator_of_foldlM_addMessage {messages : List Onnx.Node} {graph loaded : Graph}
    (h : messages.foldlM addMessage graph = .ok loaded) :
    ∀ message ∈ messages, message.opType.getD "" ≠ "" := by
  induction messages generalizing graph with
  | nil => exact List.forall_mem_nil _
  | cons message rest ih =>
      obtain ⟨next, hfirst, hrest⟩ := Outcome.bind_eq_ok.mp (List.foldlM_cons.symm.trans h)
      refine List.forall_mem_cons.mpr ⟨?_, ih hrest⟩
      intro hempty
      rw [addMessage, if_pos hempty] at hfirst
      cases hfirst

theorem operators_of_ofMessage {message : Onnx.Graph} {graph : Graph}
    (h : ofMessage message = .ok graph) : ∀ node ∈ message.nodes, node.opType.getD "" ≠ "" := by
  unfold ofMessage at h
  simp only [Outcome.bind_eq_ok] at h
  obtain ⟨_, _, _, _, _, _, _, _, _, hnodes, _⟩ := h
  exact operator_of_foldlM_addMessage hnodes

theorem forall_mem_of_forall₂ {α β : Type} {r : α → β → Prop} {p : α → Prop} {q : β → Prop}
    {as : List α} {bs : List β} (has : ∀ a ∈ as, p a) (h : List.Forall₂ r as bs)
    (hstep : ∀ a b, r a b → p a → q b) : ∀ b ∈ bs, q b := by
  induction h with
  | nil => exact List.forall_mem_nil _
  | cons hfirst _ ih =>
      obtain ⟨ha, hrest⟩ := List.forall_mem_cons.mp has
      exact List.forall_mem_cons.mpr ⟨hstep _ _ hfirst ha, ih hrest⟩

/-- A graph that is read from a message that keeps its unknown fields apart can be saved. -/
theorem savable_of_ofMessage {message : Onnx.Graph} {graph : Graph}
    (h : ofMessage message = .ok graph) (hseparated : message.Separated) : graph.Savable := by
  have hloaded := loadedFrom_of_ofMessage h
  have hoperators := operators_of_ofMessage h
  obtain ⟨hunknown, hnodes, hinitializers, hinputs, houtputs, hvalueInfo⟩ := hseparated
  refine ⟨?_, ?_, ?_, ?_, ?_, ?_⟩
  · exact forall_mem_of_forall₂ hinputs hloaded.inputs fun _ _ => TensorInfo.savable_of_ofMessage?
  · exact forall_mem_of_forall₂ houtputs hloaded.outputs fun _ _ => TensorInfo.savable_of_ofMessage?
  · exact forall_mem_of_forall₂ hvalueInfo hloaded.valueInfo
      fun _ _ => TensorInfo.savable_of_ofMessage?
  · exact forall_mem_of_forall₂ hinitializers hloaded.initializers
      fun _ _ => Initializer.savable_of_ofMessage?
  · rw [hloaded.nodes_eq]
    intro node hnode
    obtain ⟨old, hold, rfl⟩ := List.mem_map.mp hnode
    exact ⟨hoperators old hold, hnodes old hold, fun _ => Iff.rfl⟩
  · rw [hloaded.graph_eq]
    exact hunknown

/-- A graph that is read is of named parts. -/
theorem named_of_ofMessage {message : Onnx.Graph} {graph : Graph}
    (h : ofMessage message = .ok graph) : graph.Named := by
  have hloaded := loadedFrom_of_ofMessage h
  refine ⟨?_, ?_, ?_, ?_, ?_⟩
  · exact forall_mem_of_readAll TensorInfo.named_of_ofMessage? hloaded.inputs
  · exact forall_mem_of_readAll TensorInfo.named_of_ofMessage? hloaded.outputs
  · exact forall_mem_of_readAll TensorInfo.named_of_ofMessage? hloaded.valueInfo
  · exact forall_mem_of_readAll Initializer.named_of_ofMessage? hloaded.initializers
  · rw [hloaded.nodes_eq]
    intro node hnode
    obtain ⟨old, hold, rfl⟩ := List.mem_map.mp hnode
    exact operators_of_ofMessage h old hold

/-! ### Graphs that differ in captures alone -/

end Graph

/-- Nodes that write the same names and depend on the same ones. -/
structure Node.Alike (node other : Node) : Prop where
  outputs_eq : other.outputs = node.outputs
  reads : ∀ name, name ∈ other.dependencies ↔ name ∈ node.dependencies

namespace Graph

/-- Graphs with the same declarations and constants, whose nodes write and depend on the same
names. -/
structure Alike (graph other : Graph) : Prop where
  inputs_eq : other.inputs = graph.inputs
  outputs_eq : other.outputs = graph.outputs
  valueInfo_eq : other.valueInfo = graph.valueInfo
  initializers_eq : other.initializers = graph.initializers
  nodes : List.Forall₂ Node.Alike graph.nodes other.nodes

/-- A graph that was read back depends on the same names, if the captures were up to date. -/
theorem Reloaded.alike {graph again : Graph} (h : graph.Reloaded again)
    (captures : ∀ node ∈ graph.nodes, ∀ name,
      name ∈ node.captures ↔ name ∈ node.message.captures) : graph.Alike again := by
  refine ⟨h.inputs_eq, h.outputs_eq, h.valueInfo_eq, h.initializers_eq, ?_⟩
  rw [h.nodes_eq, List.forall₂_map_right_iff, List.forall₂_same]
  refine fun node hnode => ⟨rfl, fun name => ?_⟩
  unfold Node.dependencies
  rw [List.mem_append, List.mem_append, captures node hnode name]
  rfl

theorem exists_writes_iff {nodes : List Node} {name : String} :
    (∃ node ∈ nodes, node.Writes name) ↔ name ≠ "" ∧ name ∈ nodes.flatMap Node.outputs := by
  rw [List.mem_flatMap]
  constructor
  · rintro ⟨node, hnode, hname, hmem⟩
    exact ⟨hname, node, hnode, hmem⟩
  · rintro ⟨hname, node, hnode, hmem⟩
    exact ⟨node, hnode, hname, hmem⟩

theorem exists_getElem?_of_forall₂ {α β : Type} {r : α → β → Prop} {as : List α} {bs : List β}
    (h : List.Forall₂ r as bs) {position : Nat} {a : α} (ha : as[position]? = some a) :
    ∃ b, bs[position]? = some b ∧ r a b := by
  induction h generalizing position with
  | nil => cases ha
  | cons hfirst _ ih =>
      cases position with
      | zero =>
          cases ha
          exact ⟨_, rfl, hfirst⟩
      | succ position => exact ih ha

namespace Alike

variable {graph other : Graph} (h : graph.Alike other)

include h

theorem symm : other.Alike graph where
  inputs_eq := h.inputs_eq.symm
  outputs_eq := h.outputs_eq.symm
  valueInfo_eq := h.valueInfo_eq.symm
  initializers_eq := h.initializers_eq.symm
  nodes := (h.nodes.imp fun _ _ hnode =>
    (⟨hnode.outputs_eq.symm, fun name => (hnode.reads name).symm⟩ : Node.Alike _ _)).flip

theorem given_iff {name : String} : other.Given name ↔ graph.Given name := by
  rw [Given, h.inputs_eq, h.initializers_eq]
  rfl

theorem getElem?_eq_some {position : Nat} {node : Node}
    (hnode : graph.nodes[position]? = some node) :
    ∃ image, other.nodes[position]? = some image ∧ node.Alike image :=
  exists_getElem?_of_forall₂ h.nodes hnode

theorem flatMap_outputs : other.nodes.flatMap Node.outputs = graph.nodes.flatMap Node.outputs := by
  have houtputs : other.nodes.map Node.outputs = graph.nodes.map Node.outputs := by
    rw [← List.forall₂_eq_eq_eq, List.forall₂_map_left_iff, List.forall₂_map_right_iff]
    exact h.symm.nodes.imp fun _ _ hnode => hnode.outputs_eq.symm
  rw [List.flatMap, List.flatMap, houtputs]

theorem exists_writes_iff {name : String} :
    (∃ node ∈ other.nodes, node.Writes name) ↔ ∃ node ∈ graph.nodes, node.Writes name := by
  rw [Graph.exists_writes_iff, Graph.exists_writes_iff, h.flatMap_outputs]

theorem needed {name : String} (hneeded : graph.Needed name) : other.Needed name := by
  induction hneeded with
  | @output info hinfo =>
      rw [← h.outputs_eq] at hinfo
      exact .output hinfo
  | @read name read node _ hnode hwrites hreads ih =>
      obtain ⟨position, hposition⟩ := List.getElem?_of_mem hnode
      obtain ⟨image, himage, halike⟩ := h.getElem?_eq_some hposition
      have hwritten : image.Writes name := by
        rw [Node.Writes, halike.outputs_eq]
        exact hwrites
      exact ih.read (List.mem_of_getElem? himage) hwritten ((halike.reads read).mpr hreads)

/-- Of two such graphs one is well formed if the other is. -/
theorem wellFormed {checks : ValidateOptions} (wf : graph.WellFormed checks) :
    other.WellFormed checks := by
  refine ⟨?_, ?_, ?_, ?_, ?_, ?_, ?_⟩
  · rw [h.inputs_eq]
    exact wf.inputs_nodup
  · rw [h.outputs_eq]
    exact wf.outputs_nodup
  · intro position image himage name hname
    obtain ⟨node, hnode, halike⟩ := h.symm.getElem?_eq_some himage
    rw [← halike.reads] at hname
    rcases wf.ordered position node hnode name hname with
      hgiven | ⟨before, hbefore, writer, hwriter, hwrites⟩
    · exact Or.inl (h.given_iff.mpr hgiven)
    · obtain ⟨writing, hwriting, halike⟩ := h.getElem?_eq_some hwriter
      refine Or.inr ⟨before, hbefore, writing, hwriting, ?_⟩
      rw [Node.Writes, halike.outputs_eq]
      exact hwrites
  · intro image himage name hwrites
    obtain ⟨node, hnode, hwritten⟩ := h.exists_writes_iff.mp ⟨image, himage, hwrites⟩
    rw [h.flatMap_outputs, h.given_iff]
    exact wf.single_source node hnode name hwritten
  · intro info hinfo
    rw [h.outputs_eq] at hinfo
    rw [h.exists_writes_iff, h.given_iff]
    exact wf.outputs_defined info hinfo
  · intro hasked info hinfo hconstant
    rw [h.inputs_eq] at hinfo
    rw [h.initializers_eq] at hconstant
    exact h.needed (wf.inputs_needed hasked info hinfo hconstant)
  · rw [h.inputs_eq, h.outputs_eq, h.valueInfo_eq]
    exact wf.declared_static

end Alike

/-- The graph that is read back is well formed if the graph is. -/
theorem Reloaded.wellFormed {graph again : Graph} (h : graph.Reloaded again)
    (savable : graph.Savable) {checks : ValidateOptions} (wf : graph.WellFormed checks) :
    again.WellFormed checks :=
  (h.alike fun node hnode => (savable.nodes node hnode).captures).wellFormed wf

end Graph

end FixedShape
