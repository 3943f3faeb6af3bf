/-
Module: FixedShape.Proofs.Graph.Loading
Purpose: What loading a graph gives. The message can be read off the loaded graph, the producer
  index is that of its nodes, and every name that it mentions is in use.
-/
import FixedShape.Graph.Load
import FixedShape.Proofs.Graph.Names
import FixedShape.Proofs.Graph.Writers
import FixedShape.Proofs.Outcome

namespace FixedShape

theorem TensorInfo.name_ne_of_ofMessage? {message : Onnx.ValueInfo} {info : TensorInfo}
    (h : ofMessage? message = some info) : info.name ≠ "" := by
  unfold ofMessage? at h
  split at h
  · cases h
  · split at h
    · cases h
    · next hname =>
        cases h
        exact hname

/-- A declaration keeps its message. -/
theorem TensorInfo.toMessage_of_ofMessage? {message : Onnx.ValueInfo} {info : TensorInfo}
    (h : ofMessage? message = some info) : info.toMessage = message := by
  unfold ofMessage? at h
  split at h
  · cases h
  · next name hname =>
      split at h
      · cases h
      · cases h
        cases message
        cases hname
        rfl

theorem Initializer.name_ne_of_ofMessage? {message : Onnx.Tensor} {init : Initializer}
    (h : ofMessage? message = some init) : init.name ≠ "" := by
  unfold ofMessage? at h
  split at h
  · cases h
  · split at h
    · cases h
    · next hname =>
        cases h
        exact hname

/-- A constant keeps its message. -/
theorem Initializer.toMessage_of_ofMessage? {message : Onnx.Tensor} {init : Initializer}
    (h : ofMessage? message = some init) : init.toMessage = message := by
  unfold ofMessage? at h
  split at h
  · cases h
  · next name hname =>
      split at h
      · cases h
      · cases h
        cases message
        cases hname
        rfl

namespace Graph

/-! ### Adding nodes -/

/-- The parts of a graph after a node was added. -/
theorem addNode_eq (node : Node) (graph : Graph) :
    graph.addNode node =
      { graph with
        nodes := graph.nodes ++ [node]
        producerIndex :=
          (node.outputs.filter (· ≠ "")).foldl (·.push · graph.nodes.length) graph.producerIndex
        names := (graph.reserveAll node.mentions).names } := by
  unfold addNode
  dsimp only
  rw [reserveAll_eq]
  rfl

theorem producers_addNode (node : Node) (graph : Graph) (name : String) :
    (graph.addNode node).producers name =
      graph.producers name ++ List.replicate (node.slots name) graph.nodes.length := by
  rw [addNode_eq]
  exact ProducerIndex.get_foldl_push _ _ _ _

/-- Adding a node keeps a graph indexed. -/
theorem Indexed.addNode {graph : Graph} (indexed : graph.Indexed) (node : Node) :
    (graph.addNode node).Indexed := by
  intro name
  rw [producers_addNode, addNode_eq, writers_append_singleton]
  exact (indexed name).append_right _

/-- Adding a node keeps all names in use. -/
theorem mem_names_addNode {node : Node} {graph : Graph} {name : String} :
    name ∈ (graph.addNode node).names ↔
      name ∈ graph.names ∨ (name ≠ "" ∧ name ∈ node.mentions) := by
  rw [addNode_eq]
  exact mem_names_reserveAll

theorem Reserved.addNode {graph : Graph} (h : graph.Reserved) (node : Node) :
    (graph.addNode node).Reserved := by
  have hkeep : ∀ name ∈ graph.names, name ∈ (graph.addNode node).names :=
    fun _ hname => mem_names_addNode.mpr (Or.inl hname)
  have hnew : ∀ name ∈ node.mentions, name ≠ "" → name ∈ (graph.addNode node).names :=
    fun _ hmem hname => mem_names_addNode.mpr (Or.inr ⟨hname, hmem⟩)
  rw [addNode_eq] at hkeep hnew ⊢
  refine h.of_parts hkeep (fun _ => Or.inl) (fun _ => Or.inl) (fun _ => Or.inl)
    (fun _ => Or.inl) fun other hother => ?_
  rcases List.mem_append.mp hother with hold | hlast
  · exact Or.inl hold
  · exact Or.inr (List.mem_singleton.mp hlast ▸ hnew)

/-- Adding the nodes of messages, one after the other. -/
def addMessages (messages : List Onnx.Node) (graph : Graph) : Graph :=
  messages.foldl (fun graph message => graph.addNode (.ofMessage message)) graph

theorem foldlM_addMessage {messages : List Onnx.Node} {graph loaded : Graph}
    (h : messages.foldlM addMessage graph = .ok loaded) :
    loaded = graph.addMessages messages := by
  induction messages generalizing graph with
  | nil =>
      cases h
      rfl
  | cons message rest ih =>
      rw [List.foldlM_cons, Outcome.bind_eq_ok] at h
      rcases h with ⟨next, hnext, hrest⟩
      unfold addMessage at hnext
      split at hnext
      · cases hnext
      · cases hnext
        exact ih hrest

/-- Adding nodes changes the nodes, their index and the names in use, and nothing else. -/
theorem addMessages_eq (messages : List Onnx.Node) (graph : Graph) :
    graph.addMessages messages =
      { graph with
        nodes := graph.nodes ++ messages.map Node.ofMessage
        producerIndex := (graph.addMessages messages).producerIndex
        names := (graph.addMessages messages).names } := by
  induction messages generalizing graph with
  | nil => simp [addMessages]
  | cons message rest ih =>
      have hfirst : graph.addMessages (message :: rest) =
          (graph.addNode (.ofMessage message)).addMessages rest := rfl
      rw [hfirst, ih, addNode_eq]
      simp

theorem producers_addMessages (messages : List Onnx.Node) {graph : Graph}
    (h : ∀ name, graph.producers name = writers graph.nodes name) (name : String) :
    (graph.addMessages messages).producers name =
      writers (graph.addMessages messages).nodes name := by
  induction messages generalizing graph with
  | nil => exact h name
  | cons message rest ih =>
      have hnext : ∀ name, (graph.addNode (.ofMessage message)).producers name =
          writers (graph.addNode (.ofMessage message)).nodes name := by
        intro name
        rw [producers_addNode, h name, addNode_eq, writers_append_singleton]
      exact ih hnext

theorem Reserved.addMessages {graph : Graph} (h : graph.Reserved) (messages : List Onnx.Node) :
    (graph.addMessages messages).Reserved := by
  induction messages generalizing graph with
  | nil => exact h
  | cons message rest ih => exact ih (h.addNode (.ofMessage message))

/-! ### Loading -/

theorem readAll_eq_ok {α β : Type} {read? : α → Option β} {fault : LoadError} {messages : List α}
    {values : List β} (h : readAll read? fault messages = .ok values) :
    List.Forall₂ (fun message value => read? message = some value) messages values := by
  unfold readAll at h
  rw [Outcome.mapM_eq_ok] at h
  refine h.imp fun message value hvalue => ?_
  split at hvalue
  · cases hvalue
  · next hread =>
      cases hvalue
      exact hread

/-- Values that keep their messages can be written back as the messages they were read from. -/
theorem map_eq_of_readAll {α β : Type} {read? : α → Option β} {write : β → α}
    (hkeep : ∀ {message value}, read? message = some value → write value = message)
    {messages : List α} {values : List β}
    (h : List.Forall₂ (fun message value => read? message = some value) messages values) :
    values.map write = messages := by
  induction h with
  | nil => rfl
  | cons hread _ ih => rw [List.map_cons, hkeep hread, ih]

/-- What every reading gives holds of all values read. -/
theorem forall_mem_of_readAll {α β : Type} {read? : α → Option β} {p : β → Prop}
    (hread : ∀ {message value}, read? message = some value → p value)
    {messages : List α} {values : List β}
    (h : List.Forall₂ (fun message value => read? message = some value) messages values) :
    ∀ value ∈ values, p value := by
  induction h with
  | nil =>
      intro value hvalue
      cases hvalue
  | cons hfirst _ ih =>
      intro value hvalue
      rcases List.mem_cons.mp hvalue with rfl | hrest
      · exact hread hfirst
      · exact ih value hrest

/-- The graph before its nodes are added. -/
def declared (inputs outputs valueInfo : List TensorInfo) (initializers : List Initializer) :
    Graph :=
  ({ inputs, outputs, valueInfo, initializers } : Graph).reserveAll
    (initializers.map (·.name) ++ (inputs ++ (outputs ++ valueInfo)).map (·.name))

/-- The parts of a graph with its declarations and its nodes. -/
theorem addMessages_declared (inputs outputs valueInfo : List TensorInfo)
    (initializers : List Initializer) (messages : List Onnx.Node) :
    (declared inputs outputs valueInfo initializers).addMessages messages =
      { inputs, outputs, valueInfo, initializers
        nodes := messages.map Node.ofMessage
        producerIndex :=
          ((declared inputs outputs valueInfo initializers).addMessages messages).producerIndex
        names :=
          ((declared inputs outputs valueInfo initializers).addMessages messages).names } := by
  rw [addMessages_eq]
  unfold declared
  rw [reserveAll_eq]
  rfl

/-- What a graph is made of after loading. -/
structure LoadedFrom (message : Onnx.Graph) (graph : Graph) : Prop where
  inputs : List.Forall₂ (fun m info => TensorInfo.ofMessage? m = some info)
    message.inputs graph.inputs
  outputs : List.Forall₂ (fun m info => TensorInfo.ofMessage? m = some info)
    message.outputs graph.outputs
  valueInfo : List.Forall₂ (fun m info => TensorInfo.ofMessage? m = some info)
    message.valueInfo graph.valueInfo
  initializers : List.Forall₂ (fun m init => Initializer.ofMessage? m = some init)
    message.initializers graph.initializers
  graph_eq : graph =
    { (declared graph.inputs graph.outputs graph.valueInfo graph.initializers).addMessages
        message.nodes with
      rest :=
        { message with
          nodes := [], inputs := [], outputs := [], valueInfo := [], initializers := [] } }

theorem loadedFrom_of_ofMessage {message : Onnx.Graph} {graph : Graph}
    (h : ofMessage message = .ok graph) : graph.LoadedFrom message := by
  unfold ofMessage at h
  simp only [Outcome.bind_eq_ok] at h
  rcases h with ⟨inputs, hinputs, outputs, houtputs, valueInfo, hvalueInfo, initializers,
    hinitializers, loaded, hnodes, heq⟩
  cases heq
  have hloaded := foldlM_addMessage hnodes
  have hin : loaded.inputs = inputs := by rw [hloaded, ← declared, addMessages_declared]
  have hout : loaded.outputs = outputs := by rw [hloaded, ← declared, addMessages_declared]
  have hvalue : loaded.valueInfo = valueInfo := by rw [hloaded, ← declared, addMessages_declared]
  have hinit : loaded.initializers = initializers := by
    rw [hloaded, ← declared, addMessages_declared]
  refine ⟨?_, ?_, ?_, ?_, ?_⟩
  · exact hin ▸ readAll_eq_ok hinputs
  · exact hout ▸ readAll_eq_ok houtputs
  · exact hvalue ▸ readAll_eq_ok hvalueInfo
  · exact hinit ▸ readAll_eq_ok hinitializers
  · simp only [hin, hout, hvalue, hinit, declared, ← hloaded]

namespace LoadedFrom

variable {message : Onnx.Graph} {graph : Graph}

/-- The nodes of a loaded graph are those of its message. -/
theorem nodes_eq (h : graph.LoadedFrom message) :
    graph.nodes = message.nodes.map Node.ofMessage := by
  rw [h.graph_eq, addMessages_declared]

/-- The index of a loaded graph lists the writers of every name in the order of the nodes. -/
theorem producers_eq (h : graph.LoadedFrom message) (name : String) :
    graph.producers name = writers graph.nodes name := by
  rw [h.graph_eq]
  refine producers_addMessages message.nodes (fun name => ?_) name
  unfold declared
  rw [reserveAll_eq]
  rfl

theorem indexed (h : graph.LoadedFrom message) : graph.Indexed :=
  fun name => .of_eq (h.producers_eq name)

theorem input_name_ne (h : graph.LoadedFrom message) {info : TensorInfo}
    (hinfo : info ∈ graph.inputs) : info.name ≠ "" :=
  forall_mem_of_readAll TensorInfo.name_ne_of_ofMessage? h.inputs info hinfo

theorem output_name_ne (h : graph.LoadedFrom message) {info : TensorInfo}
    (hinfo : info ∈ graph.outputs) : info.name ≠ "" :=
  forall_mem_of_readAll TensorInfo.name_ne_of_ofMessage? h.outputs info hinfo

/-- A loaded graph has every name that it mentions in use. -/
theorem reserved (h : graph.LoadedFrom message) : graph.Reserved := by
  have hvalue : ∀ info ∈ graph.valueInfo, info.name ≠ "" :=
    forall_mem_of_readAll TensorInfo.name_ne_of_ofMessage? h.valueInfo
  have hinit : ∀ init ∈ graph.initializers, init.name ≠ "" :=
    forall_mem_of_readAll Initializer.name_ne_of_ofMessage? h.initializers
  have hdeclared :
      (declared graph.inputs graph.outputs graph.valueInfo graph.initializers).Reserved := by
    unfold declared
    rw [reserveAll_eq]
    refine ⟨?_, ?_, ?_, ?_, ?_⟩
    · intro info hinfo
      refine mem_names_reserveAll.mpr (Or.inr ⟨h.input_name_ne hinfo, ?_⟩)
      simp only [List.mem_append, List.mem_map]
      exact Or.inr ⟨info, Or.inl hinfo, rfl⟩
    · intro info hinfo
      refine mem_names_reserveAll.mpr (Or.inr ⟨h.output_name_ne hinfo, ?_⟩)
      simp only [List.mem_append, List.mem_map]
      exact Or.inr ⟨info, Or.inr (Or.inl hinfo), rfl⟩
    · intro info hinfo
      refine mem_names_reserveAll.mpr (Or.inr ⟨hvalue info hinfo, ?_⟩)
      simp only [List.mem_append, List.mem_map]
      exact Or.inr ⟨info, Or.inr (Or.inr hinfo), rfl⟩
    · intro init hmem
      refine mem_names_reserveAll.mpr (Or.inr ⟨hinit init hmem, ?_⟩)
      simp only [List.mem_append, List.mem_map]
      exact Or.inl ⟨init, hmem, rfl⟩
    · intro node hnode
      cases hnode
  have hall := hdeclared.addMessages message.nodes
  rw [h.graph_eq]
  exact ⟨hall.inputs, hall.outputs, hall.valueInfo, hall.initializers, hall.nodes⟩

/-- The message of a loaded graph is the one it was loaded from. -/
theorem toMessage_eq (h : graph.LoadedFrom message) : graph.toMessage = message := by
  have hinputs := map_eq_of_readAll TensorInfo.toMessage_of_ofMessage? h.inputs
  have houtputs := map_eq_of_readAll TensorInfo.toMessage_of_ofMessage? h.outputs
  have hvalue := map_eq_of_readAll TensorInfo.toMessage_of_ofMessage? h.valueInfo
  have hinit := map_eq_of_readAll Initializer.toMessage_of_ofMessage? h.initializers
  have hnodes : graph.nodes.map (·.message) = message.nodes := by
    rw [h.nodes_eq, List.map_map]
    exact List.map_id _
  have hrest : graph.rest =
      { message with
        nodes := [], inputs := [], outputs := [], valueInfo := [], initializers := [] } := by
    rw [h.graph_eq]
  unfold toMessage
  rw [hinputs, houtputs, hvalue, hinit, hnodes, hrest]
  cases message
  rfl

end LoadedFrom

end Graph

end FixedShape
