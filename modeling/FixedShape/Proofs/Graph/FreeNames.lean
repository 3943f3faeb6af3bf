/-
Module: FixedShape.Proofs.Graph.FreeNames
Purpose: The captures of a node are its free names. A name is free in a node if some chain of
  subgraphs leads from the node inward to a graph that reads the name, and none of them defines it.
  The chains are said of the graphs alone, without the lists in which captures are gathered.
-/
import FixedShape.Graph.Node
import FixedShape.Proofs.Onnx.Substitution

namespace FixedShape

namespace Onnx

/-- A node holds a graph, as the value of a setting or in the list of one. -/
def Node.Holds (node : Node) (graph : Graph) : Prop :=
  ∃ setting ∈ node.attributes, setting.g = some graph ∨ graph ∈ setting.graphs

/-- A node of a graph holds another. -/
def Graph.Contains (outer inner : Graph) : Prop := ∃ holder ∈ outer.nodes, holder.Holds inner

/-- A graph defines a name: as an input, as a constant or as what a node writes. -/
def Graph.Defines (graph : Graph) (name : String) : Prop :=
  (∃ info ∈ graph.inputs, info.name = some name) ∨
    (∃ constant ∈ graph.initializers, constant.name = some name) ∨
      ∃ node ∈ graph.nodes, name ∈ node.outputs

/-- A graph reads a name itself: into a node or as an output. -/
def Graph.ReadsItself (graph : Graph) (name : String) : Prop :=
  (∃ node ∈ graph.nodes, name ∈ node.inputs) ∨ ∃ info ∈ graph.outputs, info.name = some name

/-- A chain of graphs inward, from `first` on, whose last one reads a name that none defines. -/
structure Graph.ReadsAlong (name : String) (first : Graph) (rest : List Graph) : Prop where
  nested : (first :: rest).IsChain Graph.Contains
  read : ((first :: rest).getLast (List.cons_ne_nil first rest)).ReadsItself name
  undefined : ∀ graph ∈ first :: rest, ¬ graph.Defines name

/-- A name is free in a node: along some chain from a subgraph of the node it is read and not
defined. -/
def Node.FreeName (node : Node) (name : String) : Prop :=
  ∃ first rest, node.Holds first ∧ first.ReadsAlong name rest

section

variable {name : String}

theorem Node.mem_subgraphs_iff {node : Node} {graph : Graph} :
    graph ∈ node.subgraphs ↔ node.Holds graph := by
  simp only [Node.subgraphs, Node.Holds, List.mem_flatMap, List.mem_append, Option.mem_toList]

theorem Graph.mem_definedNames_iff {graph : Graph} :
    name ∈ graph.definedNames ↔ graph.Defines name := by
  simp only [Graph.definedNames, Graph.Defines, List.mem_append, List.mem_filterMap,
    List.mem_flatMap]

/-! ### Chains -/

/-- A graph that reads a name itself is a chain. -/
theorem Graph.ReadsItself.along {graph : Graph} (h : graph.ReadsItself name)
    (undefined : ¬ graph.Defines name) : graph.ReadsAlong name [] where
  nested := .singleton graph
  read := h
  undefined := List.forall_mem_singleton.mpr undefined

theorem Graph.readsAlong_nil {graph : Graph} :
    graph.ReadsAlong name [] ↔ graph.ReadsItself name ∧ ¬ graph.Defines name :=
  ⟨fun h => ⟨h.read, h.undefined graph (List.mem_singleton_self graph)⟩, fun h => h.1.along h.2⟩

/-- A chain goes on inside a graph that the first one contains. -/
theorem Graph.readsAlong_cons {outer inner : Graph} {rest : List Graph} :
    outer.ReadsAlong name (inner :: rest) ↔
      ¬ outer.Defines name ∧ outer.Contains inner ∧ inner.ReadsAlong name rest := by
  constructor
  · rintro ⟨nested, read, undefined⟩
    obtain ⟨hheld, hnested⟩ := List.isChain_cons_cons.mp nested
    obtain ⟨houter, hundefined⟩ := List.forall_mem_cons.mp undefined
    rw [List.getLast_cons (List.cons_ne_nil inner rest)] at read
    exact ⟨houter, hheld, hnested, read, hundefined⟩
  · rintro ⟨houter, hheld, hnested, read, hundefined⟩
    refine ⟨List.isChain_cons_cons.mpr ⟨hheld, hnested⟩, ?_,
      List.forall_mem_cons.mpr ⟨houter, hundefined⟩⟩
    rwa [List.getLast_cons (List.cons_ne_nil inner rest)]

/-- What is read along a chain is gathered from its first graph: each graph hands it to the node that
holds it, since it does not define the name. -/
theorem Graph.ReadsAlong.reads {first : Graph} {rest : List Graph} (h : first.ReadsAlong name rest)
    (hname : name ≠ "") : first.Reads name := by
  induction rest generalizing first with
  | nil =>
      obtain ⟨hread, hundefined⟩ := Graph.readsAlong_nil.mp h
      refine ⟨hread.imp_left ?_, hname, mt Graph.mem_definedNames_iff.mp hundefined⟩
      rintro ⟨node, hnode, hinput⟩
      exact ⟨node, hnode, Or.inl hinput⟩
  | cons inner rest ih =>
      obtain ⟨hundefined, ⟨holder, hholder, hheld⟩, hinner⟩ := Graph.readsAlong_cons.mp h
      have hcaptured : name ∈ holder.captures :=
        Node.mem_captures_iff.mpr ⟨inner, Node.mem_subgraphs_iff.mpr hheld, ih hinner⟩
      exact ⟨Or.inl ⟨holder, hholder, Or.inr hcaptured⟩, hname,
        mt Graph.mem_definedNames_iff.mp hundefined⟩

/-- What is free at a place is read along the chain of graphs around the place. -/
theorem Graph.exists_readsAlong {graph : Graph} {place : Place}
    (hread : graph.readAt place = some name) (hfree : ¬ graph.BoundAt name place) :
    ∃ rest, graph.ReadsAlong name rest := by
  induction place generalizing graph with
  | input node slot =>
      obtain ⟨reader, hreader, hinput⟩ := Option.bind_eq_some_iff.mp hread
      have hreads : graph.ReadsItself name :=
        Or.inl ⟨reader, List.mem_of_getElem? hreader, List.mem_of_getElem? hinput⟩
      exact ⟨[], hreads.along (mt Graph.mem_definedNames_iff.mpr hfree)⟩
  | output slot =>
      obtain ⟨info, hinfo, houtput⟩ := Option.bind_eq_some_iff.mp hread
      have hreads : graph.ReadsItself name := Or.inr ⟨info, List.mem_of_getElem? hinfo, houtput⟩
      exact ⟨[], hreads.along (mt Graph.mem_definedNames_iff.mpr hfree)⟩
  | inside node held place ih =>
      obtain ⟨inner, hinner, hplace⟩ := Option.bind_eq_some_iff.mp hread
      obtain ⟨holder, hholder, hheld⟩ := Graph.mem_of_heldAt hinner
      obtain ⟨hown, hfree⟩ := not_or.mp hfree
      obtain ⟨rest, hrest⟩ := ih hplace fun hbound => hfree ⟨inner, hinner, hbound⟩
      exact ⟨inner :: rest, Graph.readsAlong_cons.mpr ⟨mt Graph.mem_definedNames_iff.mpr hown,
        ⟨holder, hholder, Node.mem_subgraphs_iff.mp hheld⟩, hrest⟩⟩

/-- What is gathered from a graph is what it reads along some chain. -/
theorem Graph.reads_iff_along {graph : Graph} :
    graph.Reads name ↔ name ≠ "" ∧ ∃ rest, graph.ReadsAlong name rest := by
  constructor
  · intro hreads
    obtain ⟨hname, place, hread, hfree⟩ := hreads.free
    exact ⟨hname, Graph.exists_readsAlong hread hfree⟩
  · rintro ⟨hname, rest, halong⟩
    exact halong.reads hname

theorem Node.mem_captures_iff_free {node : Node} :
    name ∈ node.captures ↔ name ≠ "" ∧ node.FreeName name := by
  simp only [Node.mem_captures_iff, Node.mem_subgraphs_iff, Graph.reads_iff_along, Node.FreeName]
  constructor
  · rintro ⟨first, hheld, hname, rest, halong⟩
    exact ⟨hname, first, rest, hheld, halong⟩
  · rintro ⟨hname, first, rest, hheld, halong⟩
    exact ⟨first, hheld, hname, rest, halong⟩

end

end Onnx

namespace Node

/-- A node that is read captures the names that are free in it and not empty, each once. -/
theorem captures_ofMessage_eq_free (message : Onnx.Node) :
    (ofMessage message).captures.Nodup ∧ "" ∉ (ofMessage message).captures ∧
      ∀ name, name ∈ (ofMessage message).captures ↔ name ≠ "" ∧ message.FreeName name := by
  refine ⟨Onnx.nodup_captures message, ?_, fun name => Onnx.Node.mem_captures_iff_free⟩
  intro hempty
  exact (Onnx.Node.mem_captures_iff_free.mp hempty).1 rfl

/-- Of a branch and a branch inside it, the inner one reads `u`, `v` and `w`. The outer one defines
`v`, and so does the list beside it, where `w` is an input. -/
example :
    let inner : Onnx.Graph := { nodes := [{ inputs := ["u", "v", "", "w", "u"] }] }
    let holder : Onnx.Node := { attributes := [{ g := some inner }] }
    let outer : Onnx.Graph :=
      { nodes := [holder, { outputs := ["v"] }], outputs := [{ name := some "t" }] }
    let beside : Onnx.Graph := { nodes := [holder], inputs := [{ name := some "w" }] }
    (ofMessage { attributes := [{ g := some outer, graphs := [beside] }] }).captures =
      ["u", "w", "t", "v"] := by
  decide

end Node

end FixedShape
