/-
Module: FixedShape.Proofs.Model.Acceptance
Purpose: Which data is a model. Loading accepts what decodes with a version and a graph in which
  everything that needs a name or an operator has one, and the category of an error tells which of
  the two is missing.
-/
import FixedShape.Proofs.Graph.Saving
import FixedShape.Proofs.Model.Lossless

namespace FixedShape

open FixedShape.Outcome
open FixedShape.Wire (Bytes)

/-- A name that names something. -/
def Onnx.Names (name? : Option String) : Prop := ∃ name, name? = some name ∧ name ≠ ""

/-- A graph in which every declaration and constant has a name and every node an operator. -/
structure Onnx.Graph.WellNamed (graph : Onnx.Graph) : Prop where
  inputs : ∀ info ∈ graph.inputs, Names info.name
  outputs : ∀ info ∈ graph.outputs, Names info.name
  valueInfo : ∀ info ∈ graph.valueInfo, Names info.name
  initializers : ∀ tensor ∈ graph.initializers, Names tensor.name
  operators : ∀ node ∈ graph.nodes, Names node.opType

/-! ### Names -/

theorem Onnx.names_iff {name? : Option String} : Names name? ↔ name?.getD "" ≠ "" := by
  cases name? with
  | none => simp [Names]
  | some name => simp [Names]

theorem TensorInfo.ofMessage?_eq_none {message : Onnx.ValueInfo} :
    ofMessage? message = none ↔ ¬ Onnx.Names message.name := by
  rw [Onnx.names_iff, ofMessage?]
  cases message.name with
  | none => simp
  | some name => by_cases h : name = "" <;> simp [h]

theorem Initializer.ofMessage?_eq_none {tensor : Onnx.Tensor} :
    ofMessage? tensor = none ↔ ¬ Onnx.Names tensor.name := by
  rw [Onnx.names_iff, ofMessage?]
  cases tensor.name with
  | none => simp
  | some name => by_cases h : name = "" <;> simp [h]

namespace Graph

/-! ### Graphs -/

/-- A list is not read if one of its messages cannot be read. -/
theorem readAll_eq_error {α β : Type} {read? : α → Option β} {fault error : LoadError}
    {messages : List α} (h : readAll read? fault messages = .error error) :
    error = fault ∧ ∃ message ∈ messages, read? message = none := by
  induction messages with
  | nil => cases h
  | cons message rest ih =>
      rw [readAll, List.mapM_cons, bind_eq_error] at h
      rcases h with hfirst | ⟨value, _, hrest⟩
      · split at hfirst
        · next hread =>
            cases hfirst
            exact ⟨rfl, message, List.mem_cons_self, hread⟩
        · cases hfirst
      · rcases bind_eq_error.mp hrest with hlater | ⟨values, _, hpure⟩
        · obtain ⟨herror, other, hother, hread⟩ := ih hlater
          exact ⟨herror, other, List.mem_cons_of_mem _ hother, hread⟩
        · cases hpure

/-- Every message of a list that was read could be read. -/
theorem ne_none_of_readAll {α β : Type} {read? : α → Option β} {messages : List α}
    {values : List β}
    (h : List.Forall₂ (fun message value => read? message = some value) messages values) :
    ∀ message ∈ messages, read? message ≠ none := by
  induction h with
  | nil => exact List.forall_mem_nil _
  | cons hread _ ih =>
      refine List.forall_mem_cons.mpr ⟨?_, ih⟩
      rw [hread]
      exact Option.some_ne_none _

theorem foldlM_addMessage_eq_error {messages : List Onnx.Node} {graph : Graph} {error : LoadError}
    (h : messages.foldlM addMessage graph = .error error) :
    error.fault = .badGraph .missingOperator ∧
      ∃ message ∈ messages, ¬ Onnx.Names message.opType := by
  induction messages generalizing graph with
  | nil => cases h
  | cons message rest ih =>
      rw [List.foldlM_cons, bind_eq_error] at h
      rcases h with hfirst | ⟨next, _, hrest⟩
      · unfold addMessage at hfirst
        split at hfirst
        · next hoperator =>
            cases hfirst
            refine ⟨rfl, message, List.mem_cons_self, ?_⟩
            rw [Onnx.names_iff, not_not]
            exact hoperator
        · cases hfirst
      · obtain ⟨hfault, other, hother, hoperator⟩ := ih hrest
        exact ⟨hfault, other, List.mem_cons_of_mem _ hother, hoperator⟩

/-- A graph that was read has all its names and operators. -/
theorem wellNamed_of_ofMessage {message : Onnx.Graph} {graph : Graph}
    (h : ofMessage message = .ok graph) : message.WellNamed := by
  have hloaded := loadedFrom_of_ofMessage h
  have hinfos : ∀ {messages : List Onnx.ValueInfo} {infos : List TensorInfo},
      List.Forall₂ (fun m info => TensorInfo.ofMessage? m = some info) messages infos →
        ∀ m ∈ messages, Onnx.Names m.name := by
    intro messages infos hread m hm
    exact not_not.mp fun hname =>
      ne_none_of_readAll hread m hm (TensorInfo.ofMessage?_eq_none.mpr hname)
  refine ⟨hinfos hloaded.inputs, hinfos hloaded.outputs, hinfos hloaded.valueInfo, ?_, ?_⟩
  · intro tensor htensor
    exact not_not.mp fun hname =>
      ne_none_of_readAll hloaded.initializers tensor htensor
        (Initializer.ofMessage?_eq_none.mpr hname)
  · intro node hnode
    rw [Onnx.names_iff]
    exact operators_of_ofMessage h node hnode

/-- A graph that is refused lacks a name or an operator, and the error says which. -/
theorem not_wellNamed_of_ofMessage {message : Onnx.Graph} {error : LoadError}
    (h : ofMessage message = .error error) :
    ¬ message.WellNamed ∧ ∃ fault, error.fault = .badGraph fault ∧ fault ≠ .missingGraph := by
  unfold ofMessage at h
  simp only [bind_eq_error] at h
  rcases h with hinputs | ⟨_, _, houtputs | ⟨_, _, hvalueInfo | ⟨_, _, hinitializers |
    ⟨_, _, hnodes | ⟨_, _, hpure⟩⟩⟩⟩⟩
  · obtain ⟨rfl, info, hinfo, hread⟩ := readAll_eq_error hinputs
    refine ⟨fun hnamed => ?_, _, rfl, nofun⟩
    exact TensorInfo.ofMessage?_eq_none.mp hread (hnamed.inputs info hinfo)
  · obtain ⟨rfl, info, hinfo, hread⟩ := readAll_eq_error houtputs
    refine ⟨fun hnamed => ?_, _, rfl, nofun⟩
    exact TensorInfo.ofMessage?_eq_none.mp hread (hnamed.outputs info hinfo)
  · obtain ⟨rfl, info, hinfo, hread⟩ := readAll_eq_error hvalueInfo
    refine ⟨fun hnamed => ?_, _, rfl, nofun⟩
    exact TensorInfo.ofMessage?_eq_none.mp hread (hnamed.valueInfo info hinfo)
  · obtain ⟨rfl, tensor, htensor, hread⟩ := readAll_eq_error hinitializers
    refine ⟨fun hnamed => ?_, _, rfl, nofun⟩
    exact Initializer.ofMessage?_eq_none.mp hread (hnamed.initializers tensor htensor)
  · obtain ⟨hfault, node, hnode, hoperator⟩ := foldlM_addMessage_eq_error hnodes
    exact ⟨fun hnamed => hoperator (hnamed.operators node hnode), _, hfault, nofun⟩
  · cases hpure

end Graph

namespace Model

/-! ### Models -/

/-- A buffer decodes as a model that has a version, and this graph. -/
def Holds (bytes : Bytes) (graph : Onnx.Graph) : Prop :=
  ∃ message, Onnx.Model.decode bytes = .ok message ∧ message.irVersion.isSome = true ∧
    message.graph = some graph

/-- What looks like a model and decodes holds a graph. -/
theorem holds_of_isModel {bytes : Bytes} {message : Onnx.Model}
    (hisModel : Onnx.isModel bytes = true) (hdecoded : Onnx.Model.decode bytes = .ok message) :
    ∃ graph, message.graph = some graph ∧ Holds bytes graph := by
  rw [Onnx.isModel_of_decode hdecoded, Bool.and_eq_true_iff] at hisModel
  obtain ⟨hversion, hsome⟩ := hisModel
  obtain ⟨graph, hgraph⟩ := Option.isSome_iff_exists.mp hsome
  exact ⟨graph, hgraph, message, hdecoded, hversion, hgraph⟩

theorem Holds.unique {bytes : Bytes} {graph other : Onnx.Graph} (h : Holds bytes graph)
    (hother : Holds bytes other) : graph = other := by
  obtain ⟨message, hdecoded, _, hgraph⟩ := h
  obtain ⟨again, hagain, _, hsecond⟩ := hother
  rw [hdecoded] at hagain
  cases hagain
  rw [hgraph] at hsecond
  exact Option.some.inj hsecond

/-- A buffer that holds a graph is loaded if the graph is. -/
theorem Holds.load_eq {bytes : Bytes} {graph : Onnx.Graph} (h : Holds bytes graph) :
    ∃ message : Onnx.Model, load bytes =
      (Graph.ofMessage graph).map fun graph => { graph, message } := by
  obtain ⟨message, hdecoded, hversion, hgraph⟩ := h
  have hisModel : Onnx.isModel bytes = true := by
    rw [Onnx.isModel_of_decode hdecoded, hversion, hgraph]
    rfl
  refine ⟨{ message with graph := none }, ?_⟩
  simp only [load, hisModel, if_true, hdecoded, hgraph]
  cases Graph.ofMessage graph <;> rfl

/-- A buffer that holds no graph is no model, whatever else it is. -/
theorem kind_of_not_holds {bytes : Bytes} (h : ¬ ∃ graph, Holds bytes graph) :
    ∃ error, load bytes = .error error ∧ error.kind = .parse := by
  unfold load
  split
  · next hisModel =>
      split
      · exact ⟨_, rfl, rfl⟩
      · next message hdecoded =>
          obtain ⟨graph, _, hholds⟩ := holds_of_isModel hisModel hdecoded
          exact absurd ⟨graph, hholds⟩ h
  · exact ⟨_, rfl, rfl⟩

/-- A graph that lacks a name or an operator is what is told of a buffer that holds it. -/
theorem Holds.kind_of_error {bytes : Bytes} {graph : Onnx.Graph} {error : LoadError}
    (h : Holds bytes graph) (herror : load bytes = .error error) :
    ¬ graph.WellNamed ∧ error.kind = .graph ∧ error.fault ≠ .badGraph .missingGraph := by
  obtain ⟨message, hload⟩ := h.load_eq
  rw [hload] at herror
  cases hgraph : Graph.ofMessage graph with
  | ok loaded =>
      rw [hgraph] at herror
      cases herror
  | error refused =>
      rw [hgraph] at herror
      cases herror
      obtain ⟨hnamed, fault, hfault, hmissing⟩ := Graph.not_wellNamed_of_ofMessage hgraph
      rw [LoadError.kind, hfault]
      exact ⟨hnamed, rfl, fun heq => hmissing (LoadFault.badGraph.inj heq)⟩

/-- A graph with all its names and operators is not refused. -/
theorem Holds.exists_load {bytes : Bytes} {graph : Onnx.Graph} (h : Holds bytes graph)
    (hnamed : graph.WellNamed) : ∃ model, load bytes = .ok model := by
  cases hload : load bytes with
  | ok model => exact ⟨model, rfl⟩
  | error error => exact absurd hnamed (h.kind_of_error hload).1

/-- What is loaded is held, with all its names and operators. -/
theorem exists_holds_of_load {bytes : Bytes} {model : Model} (h : load bytes = .ok model) :
    ∃ graph, Holds bytes graph ∧ graph.WellNamed := by
  obtain ⟨message, graph, hisModel, hdecoded, hgraph, hloaded, _⟩ := ofMessage_of_load h
  obtain ⟨other, hother, hholds⟩ := holds_of_isModel hisModel hdecoded
  rw [hgraph] at hother
  cases hother
  exact ⟨graph, hholds, Graph.wellNamed_of_ofMessage hloaded⟩

/-! ### Refusals -/

/-- The graph is at fault exactly in a buffer that holds one without a name or an operator. -/
theorem exists_graph_error_iff {bytes : Bytes} :
    (∃ error, load bytes = .error error ∧ error.kind = .graph) ↔
      ∃ graph, Holds bytes graph ∧ ¬ graph.WellNamed := by
  constructor
  · rintro ⟨error, herror, hkind⟩
    by_cases hholds : ∃ graph, Holds bytes graph
    · obtain ⟨graph, h⟩ := hholds
      exact ⟨graph, h, (h.kind_of_error herror).1⟩
    · obtain ⟨other, hother, hparse⟩ := kind_of_not_holds hholds
      rw [herror] at hother
      cases hother
      rw [hkind] at hparse
      cases hparse
  · rintro ⟨graph, h, hunnamed⟩
    cases hload : load bytes with
    | ok model =>
        obtain ⟨other, hother, hnamed⟩ := exists_holds_of_load hload
        exact absurd (hother.unique h ▸ hnamed) hunnamed
    | error error => exact ⟨error, rfl, (h.kind_of_error hload).2.1⟩

/-- The data is at fault exactly if it holds no graph. -/
theorem exists_parse_error_iff {bytes : Bytes} :
    (∃ error, load bytes = .error error ∧ error.kind = .parse) ↔ ¬ ∃ graph, Holds bytes graph := by
  constructor
  · rintro ⟨error, herror, hparse⟩ ⟨graph, h⟩
    rw [(h.kind_of_error herror).2.1] at hparse
    cases hparse
  · exact kind_of_not_holds

/-- No file is read, and a missing graph is found before the graph is looked for. -/
theorem fault_of_load_error {bytes : Bytes} {error : LoadError} (h : load bytes = .error error) :
    error.kind ≠ .io ∧ error.fault ≠ .badGraph .missingGraph := by
  by_cases hholds : ∃ graph, Holds bytes graph
  · obtain ⟨graph, hgraph⟩ := hholds
    obtain ⟨_, hkind, hmissing⟩ := hgraph.kind_of_error h
    rw [hkind]
    exact ⟨nofun, hmissing⟩
  · obtain ⟨other, hother, hkind⟩ := kind_of_not_holds hholds
    rw [h] at hother
    cases hother
    refine ⟨by rw [hkind]; exact nofun, fun hfault => ?_⟩
    rw [LoadError.kind, hfault] at hkind
    cases hkind

/-- Loading accepts exactly the buffers that hold a graph with all its names and operators. A buffer
that holds another graph is refused for the graph, and a buffer that holds none is refused as it
stands, so a missing graph is never what is told. Of data that decodes, the test for models tells
whether it holds a graph. -/
theorem load_accepts_wellNamed (bytes : Bytes) :
    (∀ message, Onnx.Model.decode bytes = .ok message →
      (Onnx.isModel bytes = true ↔
        message.irVersion.isSome = true ∧ message.graph.isSome = true)) ∧
    ((∃ model, load bytes = .ok model) ↔ ∃ graph, Holds bytes graph ∧ graph.WellNamed) ∧
    ((∃ error, load bytes = .error error ∧ error.kind = .graph) ↔
      ∃ graph, Holds bytes graph ∧ ¬ graph.WellNamed) ∧
    ((∃ error, load bytes = .error error ∧ error.kind = .parse) ↔ ¬ ∃ graph, Holds bytes graph) ∧
    ∀ error, load bytes = .error error →
      error.kind ≠ .io ∧ error.fault ≠ .badGraph .missingGraph := by
  refine ⟨fun message hdecoded => ?_, ⟨?_, ?_⟩, exists_graph_error_iff, exists_parse_error_iff,
    fun error => fault_of_load_error⟩
  · rw [Onnx.isModel_of_decode hdecoded, Bool.and_eq_true_iff]
  · rintro ⟨model, hload⟩
    exact exists_holds_of_load hload
  · rintro ⟨graph, hholds, hnamed⟩
    exact hholds.exists_load hnamed

end Model

end FixedShape
