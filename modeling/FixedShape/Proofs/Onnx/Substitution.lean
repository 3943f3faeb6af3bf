/-
Module: FixedShape.Proofs.Onnx.Substitution
Purpose: Renaming what a graph reads from outside is a substitution that captures nothing. It is said
  place by place: a read of the old name becomes one of the new name if no graph around the place
  defines the old name, and stays if one does. All but the reads stays as it was, so that there is
  only one such substitution.
-/
import FixedShape.Proofs.Onnx.Renaming

namespace FixedShape.Onnx

/-! ### Places -/

/-- Where a graph reads a value: as an input of one of its nodes, as one of its outputs, or inside a
subgraph that one of its nodes holds. -/
inductive Place where
  | input (node slot : Nat)
  | output (slot : Nat)
  | inside (node held : Nat) (place : Place)
  deriving DecidableEq, Repr

/-- A subgraph that a node of the graph holds. -/
def Graph.heldAt (graph : Graph) (node held : Nat) : Option Graph :=
  (graph.nodes[node]?).bind (·.subgraphs[held]?)

/-- The name that is read at a place. -/
def Graph.readAt : Graph → Place → Option String
  | graph, .input node slot => (graph.nodes[node]?).bind (·.inputs[slot]?)
  | graph, .output slot => (graph.outputs[slot]?).bind (·.name)
  | graph, .inside node held place => (graph.heldAt node held).bind (·.readAt place)

/-- A name is defined by the graph that a place belongs to, or by one around it. -/
def Graph.BoundAt (name : String) : Graph → Place → Prop
  | graph, .input _ _ => name ∈ graph.definedNames
  | graph, .output _ => name ∈ graph.definedNames
  | graph, .inside node held place =>
    name ∈ graph.definedNames ∨ ∃ inner ∈ graph.heldAt node held, inner.BoundAt name place

/-- A graph reads a name at a place where nothing binds the name. -/
def Graph.Free (graph : Graph) (name : String) : Prop :=
  name ≠ "" ∧ ∃ place, graph.readAt place = some name ∧ ¬ graph.BoundAt name place

theorem Graph.mem_of_heldAt {graph inner : Graph} {node held : Nat}
    (h : graph.heldAt node held = some inner) :
    ∃ holder ∈ graph.nodes, inner ∈ holder.subgraphs := by
  obtain ⟨holder, hholder, hinner⟩ := Option.bind_eq_some_iff.mp h
  exact ⟨holder, List.mem_of_getElem? hholder, List.mem_of_getElem? hinner⟩

/-- What is bound at a place is bound somewhere in the graph. -/
theorem Graph.BoundAt.binds {graph : Graph} {name : String} {place : Place}
    (h : graph.BoundAt name place) : graph.Binds name := by
  induction place generalizing graph with
  | input _ _ => exact .own h
  | output _ => exact .own h
  | inside node held place ih =>
      rcases h with hown | ⟨inner, hinner, hbound⟩
      · exact .own hown
      · obtain ⟨holder, hholder, hheld⟩ := Graph.mem_of_heldAt hinner
        exact .inner hholder hheld (ih hbound)

/-- A node captures what its subgraphs read from outside. -/
theorem Node.mem_captures_iff {node : Node} {name : String} :
    name ∈ node.captures ↔ ∃ graph ∈ node.subgraphs, graph.Reads name := by
  simp only [Node.captures, Node.subgraphs, mem_captureAttributes, List.not_mem_nil, false_or,
    List.mem_flatMap, List.mem_append, Option.mem_toList, Option.mem_def]
  constructor
  · rintro ⟨setting, hsetting, ⟨graph, hgraph, hreads⟩ | ⟨graph, hgraph, hreads⟩⟩
    · exact ⟨graph, ⟨setting, hsetting, Or.inl hgraph⟩, hreads⟩
    · exact ⟨graph, ⟨setting, hsetting, Or.inr hgraph⟩, hreads⟩
  · rintro ⟨graph, ⟨setting, hsetting, hgraph | hgraph⟩, hreads⟩
    · exact ⟨setting, hsetting, Or.inl ⟨graph, hgraph, hreads⟩⟩
    · exact ⟨setting, hsetting, Or.inr ⟨graph, hgraph, hreads⟩⟩

/-- A name that is free at a place is gathered among what the graph reads from outside. -/
theorem Graph.Free.reads {graph : Graph} {name : String} (h : graph.Free name) :
    graph.Reads name := by
  obtain ⟨hname, place, hread, hfree⟩ := h
  induction place generalizing graph with
  | input node slot =>
      obtain ⟨reader, hreader, hinput⟩ := Option.bind_eq_some_iff.mp hread
      exact ⟨Or.inl ⟨reader, List.mem_of_getElem? hreader, Or.inl (List.mem_of_getElem? hinput)⟩,
        hname, hfree⟩
  | output slot =>
      obtain ⟨info, hinfo, houtput⟩ := Option.bind_eq_some_iff.mp hread
      exact ⟨Or.inr ⟨info, List.mem_of_getElem? hinfo, houtput⟩, hname, hfree⟩
  | inside node held place ih =>
      obtain ⟨inner, hinner, hplace⟩ := Option.bind_eq_some_iff.mp hread
      obtain ⟨holder, hholder, hheld⟩ := Graph.mem_of_heldAt hinner
      obtain ⟨hown, hfree⟩ := not_or.mp hfree
      have hreads := ih hplace fun hbound => hfree ⟨inner, hinner, hbound⟩
      exact ⟨Or.inl ⟨holder, hholder, Or.inr (Node.mem_captures_iff.mpr ⟨inner, hheld, hreads⟩)⟩,
        hname, hown⟩

theorem Node.sizeOf_subgraph_lt {node : Node} {graph : Graph} (h : graph ∈ node.subgraphs) :
    sizeOf graph < sizeOf node := by
  obtain ⟨setting, hsetting, hgraph⟩ := List.mem_flatMap.mp h
  have hlist := List.sizeOf_lt_of_mem hsetting
  have hheld : sizeOf graph < sizeOf setting := by
    rcases setting with ⟨_, _, _, _, _, g, _, _, _, _, graphs, _, _⟩
    rcases List.mem_append.mp hgraph with hg | hgraphs
    · obtain rfl : g = some graph := Option.mem_toList.mp hg
      simp +arith
    · have hgraphs := List.sizeOf_lt_of_mem hgraphs
      simp only [Attribute.mk.sizeOf_spec] at hgraphs ⊢
      omega
  cases node
  simp only [Node.mk.sizeOf_spec] at hlist ⊢
  omega

theorem Graph.sizeOf_node_lt {graph : Graph} {node : Node} (h : node ∈ graph.nodes) :
    sizeOf node < sizeOf graph := by
  have hlist := List.sizeOf_lt_of_mem h
  cases graph
  simp only [Graph.mk.sizeOf_spec] at hlist ⊢
  omega

/-- What a graph reads from outside, it reads at some place where the name is free. -/
theorem Graph.Reads.free {graph : Graph} {name : String} (h : graph.Reads name) :
    graph.Free name := by
  obtain ⟨⟨reader, hreader, hread⟩ | ⟨info, hinfo, hread⟩, hname, hown⟩ := h
  · obtain ⟨node, hnode⟩ := List.getElem?_of_mem hreader
    rcases hread with hinput | hcaptured
    · obtain ⟨slot, hslot⟩ := List.getElem?_of_mem hinput
      exact ⟨hname, .input node slot, by rw [Graph.readAt, hnode, Option.bind_some, hslot], hown⟩
    · obtain ⟨inner, hheld, hreads⟩ := Node.mem_captures_iff.mp hcaptured
      have hsubgraph := Node.sizeOf_subgraph_lt hheld
      have hholder := Graph.sizeOf_node_lt hreader
      obtain ⟨_, place, hplace, hfree⟩ := hreads.free
      obtain ⟨held, hheld⟩ := List.getElem?_of_mem hheld
      have hinner : graph.heldAt node held = some inner := by
        rw [Graph.heldAt, hnode, Option.bind_some, hheld]
      refine ⟨hname, .inside node held place, by rw [Graph.readAt, hinner, Option.bind_some, hplace],
        ?_⟩
      rintro (hbound | ⟨other, hother, hbound⟩)
      · exact hown hbound
      · rw [hinner, Option.mem_some_iff] at hother
        exact hfree (hother ▸ hbound)
  · obtain ⟨slot, hslot⟩ := List.getElem?_of_mem hinfo
    exact ⟨hname, .output slot, by rw [Graph.readAt, hslot, Option.bind_some, hread], hown⟩
termination_by sizeOf graph

/-- What is gathered from a graph is what it reads at its free places. -/
theorem Graph.free_iff_reads {graph : Graph} {name : String} :
    graph.Free name ↔ graph.Reads name :=
  ⟨Graph.Free.reads, Graph.Reads.free⟩

/-! ### All but the reads -/

mutual

/-- A graph with all its reads left out, at any depth. -/
def Graph.unread : Graph → Graph
  | { nodes, name, initializers, docString, inputs, outputs, valueInfo, unknownFields } =>
    { nodes := unreadNodes nodes
      name, initializers, docString, inputs
      outputs := outputs.map fun info => { info with name := none }
      valueInfo, unknownFields }

def unreadNodes : List Node → List Node
  | [] => []
  | { outputs, name, opType, attributes, docString, domain, unknownFields, .. } :: rest =>
    { inputs := []
      outputs, name, opType
      attributes := unreadAttributes attributes
      docString, domain, unknownFields } :: unreadNodes rest

def unreadAttributes : List Attribute → List Attribute
  | [] => []
  | { name, f, i, s, t, g, floats, ints, strings, tensors, graphs, type, unknownFields } :: rest =>
    { name, f, i, s, t
      g := unreadGraph? g
      floats, ints, strings, tensors
      graphs := unreadGraphs graphs
      type, unknownFields } :: unreadAttributes rest

def unreadGraphs : List Graph → List Graph
  | [] => []
  | first :: rest => first.unread :: unreadGraphs rest

def unreadGraph? : Option Graph → Option Graph
  | none => none
  | some graph => some graph.unread

end

/-- A node with all its reads left out, its own and those of its subgraphs. -/
def Node.unread (node : Node) : Node :=
  { node with inputs := [], attributes := unreadAttributes node.attributes }

/-! ### Settings with changed subgraphs -/

/-- A setting with each of its subgraphs changed. -/
def Attribute.mapGraphs (change : Graph → Graph) (setting : Attribute) : Attribute :=
  { setting with g := setting.g.map change, graphs := setting.graphs.map change }

theorem flatMap_mapGraphs (change : Graph → Graph) (attributes : List Attribute) :
    ((attributes.map (Attribute.mapGraphs change)).flatMap fun setting =>
        setting.g.toList ++ setting.graphs) =
      (attributes.flatMap fun setting => setting.g.toList ++ setting.graphs).map change := by
  induction attributes with
  | nil => rfl
  | cons setting rest ih =>
      rcases setting with ⟨_, _, _, _, _, g, _, _, _, _, graphs, _, _⟩
      rw [List.map_cons, List.flatMap_cons, List.flatMap_cons, List.map_append, ih, List.map_append]
      cases g <;> rfl

theorem unreadNodes_eq_map (nodes : List Node) : unreadNodes nodes = nodes.map Node.unread := by
  induction nodes with
  | nil => rw [unreadNodes, List.map_nil]
  | cons node rest ih =>
      cases node
      rw [unreadNodes, ih, List.map_cons]
      rfl

theorem unreadGraphs_eq_map (graphs : List Graph) :
    unreadGraphs graphs = graphs.map Graph.unread := by
  induction graphs with
  | nil => rw [unreadGraphs, List.map_nil]
  | cons first rest ih => rw [unreadGraphs, ih, List.map_cons]

theorem unreadAttributes_eq_map (attributes : List Attribute) :
    unreadAttributes attributes = attributes.map (Attribute.mapGraphs Graph.unread) := by
  induction attributes with
  | nil => rw [unreadAttributes, List.map_nil]
  | cons setting rest ih =>
      rcases setting with ⟨_, _, _, _, _, g, _, _, _, _, graphs, _, _⟩
      rw [unreadAttributes, ih, List.map_cons, unreadGraphs_eq_map]
      cases g <;> rw [unreadGraph?] <;> rfl

theorem Graph.nodes_unread (graph : Graph) : graph.unread.nodes = graph.nodes.map Node.unread := by
  cases graph
  rw [Graph.unread, unreadNodes_eq_map]

theorem Graph.outputs_unread (graph : Graph) :
    graph.unread.outputs = graph.outputs.map fun info => { info with name := none } := by
  cases graph
  rw [Graph.unread]

theorem Node.subgraphs_unread (node : Node) :
    node.unread.subgraphs = node.subgraphs.map Graph.unread := by
  unfold Node.subgraphs Node.unread
  rw [unreadAttributes_eq_map]
  exact flatMap_mapGraphs Graph.unread node.attributes

/-! ### What determines a graph -/

/-- Settings that differ in their subgraphs alone are those of their subgraphs. -/
theorem attributes_eq_of_subgraphs {change : Graph → Graph} {first second : List Attribute}
    (h : first.map (Attribute.mapGraphs change) = second.map (Attribute.mapGraphs change))
    (hgraphs : (first.flatMap fun setting => setting.g.toList ++ setting.graphs) =
      second.flatMap fun setting => setting.g.toList ++ setting.graphs) : first = second := by
  induction first generalizing second with
  | nil =>
      cases second with
      | nil => rfl
      | cons _ _ => cases h
  | cons setting rest ih =>
      cases second with
      | nil => cases h
      | cons other others =>
          rw [List.map_cons, List.map_cons, List.cons_eq_cons] at h
          obtain ⟨hfirst, hrest⟩ := h
          rcases setting with ⟨_, _, _, _, _, g, _, _, _, _, graphs, _, _⟩
          rcases other with ⟨_, _, _, _, _, g', _, _, _, _, graphs', _, _⟩
          simp only [Attribute.mapGraphs, Attribute.mk.injEq] at hfirst
          obtain ⟨rfl, rfl, rfl, rfl, rfl, hg, rfl, rfl, rfl, rfl, hlist, rfl, rfl⟩ := hfirst
          have hsame : g.toList.length = g'.toList.length := by
            cases g <;> cases g' <;> first | rfl | cases hg
          have hlength : graphs.length = graphs'.length := by
            simpa using congrArg List.length hlist
          rw [List.flatMap_cons, List.flatMap_cons] at hgraphs
          obtain ⟨hheld, hothers⟩ := List.append_inj hgraphs (by simp [hsame, hlength])
          obtain ⟨hg', rfl⟩ := List.append_inj hheld hsame
          have hheld : g = g' := by
            cases g <;> cases g' <;> simp_all
          rw [hheld, ih hrest hothers]

/-- A node is what is left of it without its reads, its own reads and its subgraphs. -/
theorem Node.eq_of_unread {first second : Node} (h : first.unread = second.unread)
    (hinputs : first.inputs = second.inputs) (hgraphs : first.subgraphs = second.subgraphs) :
    first = second := by
  have hattributes : first.attributes = second.attributes := by
    refine @attributes_eq_of_subgraphs Graph.unread _ _ ?_ hgraphs
    rw [← unreadAttributes_eq_map, ← unreadAttributes_eq_map]
    exact congrArg Node.attributes h
  cases first
  cases second
  simp only [Node.unread, Node.mk.injEq] at h
  simp_all

/-- Lists are equal if they are so under a map, and their items are that are equal under it. -/
theorem eq_of_map_eq {α β : Type} {f : α → β} {first second : List α}
    (h : first.map f = second.map f)
    (hitems : ∀ (position : Nat) (item other : α), first[position]? = some item →
      second[position]? = some other → f item = f other → item = other) : first = second := by
  refine List.ext_getElem? fun position => ?_
  have hposition : first[position]?.map f = second[position]?.map f := by
    rw [← List.getElem?_map, h, List.getElem?_map]
  cases hfirst : first[position]? with
  | none =>
      rw [hfirst, Option.map_none, eq_comm, Option.map_eq_none_iff] at hposition
      exact hposition.symm
  | some item =>
      rw [hfirst, Option.map_some, eq_comm, Option.map_eq_some_iff] at hposition
      obtain ⟨other, hother, heq⟩ := hposition
      rw [hother, hitems position item other hfirst hother heq.symm]

/-- A graph is what is left of it without its reads, and what it reads at each place. -/
theorem Graph.eq_of_unread {first second : Graph} (h : first.unread = second.unread)
    (hreads : ∀ place, first.readAt place = second.readAt place) : first = second := by
  have hnodes : first.nodes = second.nodes := by
    refine @eq_of_map_eq _ _ Node.unread _ _ ?_ fun position node other hnode hother hunread => ?_
    · rw [← Graph.nodes_unread, h, Graph.nodes_unread]
    · have hinputs : node.inputs = other.inputs := by
        refine List.ext_getElem? fun slot => ?_
        simpa only [Graph.readAt, hnode, hother, Option.bind_some] using hreads (.input position slot)
      refine Node.eq_of_unread hunread hinputs ?_
      refine @eq_of_map_eq _ _ Graph.unread _ _ ?_ fun held inner twin hinner htwin hsame => ?_
      · rw [← Node.subgraphs_unread, hunread, Node.subgraphs_unread]
      · have hsubgraph := Node.sizeOf_subgraph_lt (List.mem_of_getElem? hinner)
        have hholder := Graph.sizeOf_node_lt (List.mem_of_getElem? hnode)
        refine Graph.eq_of_unread hsame fun place => ?_
        simpa only [Graph.readAt, Graph.heldAt, hnode, hother, hinner, htwin, Option.bind_some]
          using hreads (.inside position held place)
  have houtputs : first.outputs = second.outputs := by
    refine @eq_of_map_eq _ _ (fun info => { info with name := none }) _ _ ?_
      fun slot info other hinfo hother hsame => ?_
    · rw [← Graph.outputs_unread, h, Graph.outputs_unread]
    · have hname : info.name = other.name := by
        simpa only [Graph.readAt, hinfo, hother, Option.bind_some] using hreads (.output slot)
      cases info
      cases other
      simp_all
  cases first
  cases second
  simp only [Graph.unread, Graph.mk.injEq] at h
  simp_all
termination_by sizeOf first

/-! ### Renaming leaves all but the reads -/

section

variable (source target : String)

theorem ValueInfo.unnamed_rename (value : ValueInfo) :
    { value.rename source target with name := none } = { value with name := none } := by
  unfold ValueInfo.rename
  split <;> rfl

mutual

/-- Renaming changes nothing but reads. -/
theorem unread_renameFree : ∀ graph : Graph, (graph.renameFree source target).unread = graph.unread
  | { nodes, name, initializers, docString, inputs, outputs, valueInfo, unknownFields } => by
      rw [Graph.renameFree]
      split
      · rfl
      · simp only [Graph.unread, unread_renameNodes nodes, List.map_map, Function.comp_def,
          ValueInfo.unnamed_rename]

theorem unread_renameNodes :
    ∀ nodes : List Node, unreadNodes (renameNodes source target nodes) = unreadNodes nodes
  | [] => by rw [renameNodes]
  | { attributes, .. } :: rest => by
      rw [renameNodes, unreadNodes, unreadNodes, unread_renameAttributes attributes,
        unread_renameNodes rest]

theorem unread_renameAttributes : ∀ attributes : List Attribute,
    unreadAttributes (renameAttributes source target attributes) = unreadAttributes attributes
  | [] => by rw [renameAttributes]
  | { g, graphs, .. } :: rest => by
      rw [renameAttributes, unreadAttributes, unreadAttributes, unread_renameGraph? g,
        unread_renameGraphs graphs, unread_renameAttributes rest]

theorem unread_renameGraphs :
    ∀ graphs : List Graph, unreadGraphs (renameGraphs source target graphs) = unreadGraphs graphs
  | [] => by rw [renameGraphs]
  | first :: rest => by
      rw [renameGraphs, unreadGraphs, unreadGraphs, unread_renameFree first,
        unread_renameGraphs rest]

theorem unread_renameGraph? : ∀ graph? : Option Graph,
    unreadGraph? (renameGraph? source target graph?) = unreadGraph? graph?
  | none => by rw [renameGraph?]
  | some graph => by rw [renameGraph?, unreadGraph?, unreadGraph?, unread_renameFree graph]

end

end

/-! ### A renamed graph, place by place -/

section

variable (source target : String)

/-- Lets a node and its subgraphs read `target` in place of `source`. -/
def Node.renameReads (node : Node) : Node :=
  { node with
    inputs := node.inputs.map (rename source target)
    attributes := renameAttributes source target node.attributes }

theorem renameNodes_eq_map (nodes : List Node) :
    renameNodes source target nodes = nodes.map (Node.renameReads source target) := by
  induction nodes with
  | nil => rw [renameNodes, List.map_nil]
  | cons node rest ih =>
      cases node
      rw [renameNodes, ih, List.map_cons]
      rfl

theorem renameGraphs_eq_map (graphs : List Graph) :
    renameGraphs source target graphs = graphs.map (Graph.renameFree source target) := by
  induction graphs with
  | nil => rw [renameGraphs, List.map_nil]
  | cons first rest ih => rw [renameGraphs, ih, List.map_cons]

theorem renameGraph?_eq_map (graph? : Option Graph) :
    renameGraph? source target graph? = graph?.map (Graph.renameFree source target) := by
  cases graph? <;> rw [renameGraph?] <;> rfl

theorem renameAttributes_eq_map (attributes : List Attribute) :
    renameAttributes source target attributes =
      attributes.map (Attribute.mapGraphs (Graph.renameFree source target)) := by
  induction attributes with
  | nil => rw [renameAttributes, List.map_nil]
  | cons setting rest ih =>
      cases setting
      rw [renameAttributes, ih, List.map_cons, renameGraphs_eq_map, renameGraph?_eq_map]
      rfl

/-- The subgraphs of a renamed node are renamed one by one. -/
theorem Node.subgraphs_renameReads (node : Node) :
    (node.renameReads source target).subgraphs =
      node.subgraphs.map (Graph.renameFree source target) := by
  unfold Node.subgraphs Node.renameReads
  rw [renameAttributes_eq_map]
  exact flatMap_mapGraphs (Graph.renameFree source target) node.attributes

variable {source target}

theorem Graph.renameFree_of_defined {graph : Graph} (h : source ∈ graph.definedNames) :
    graph.renameFree source target = graph := by
  cases graph
  rw [Graph.renameFree, if_pos h]

theorem Graph.renameFree_of_not_defined {graph : Graph} (h : source ∉ graph.definedNames) :
    graph.renameFree source target =
      { graph with
        nodes := graph.nodes.map (Node.renameReads source target)
        outputs := graph.outputs.map (ValueInfo.rename source target) } := by
  cases graph
  rw [Graph.renameFree, if_neg h, renameNodes_eq_map]

theorem Graph.definedNames_renameFree (graph : Graph) :
    (graph.renameFree source target).definedNames = graph.definedNames := by
  by_cases h : source ∈ graph.definedNames
  · rw [Graph.renameFree_of_defined h]
  · rw [Graph.renameFree_of_not_defined h, ← renameNodes_eq_map, definedNames_rename]

theorem Graph.heldAt_renameFree {graph : Graph} (h : source ∉ graph.definedNames)
    (node held : Nat) :
    (graph.renameFree source target).heldAt node held =
      (graph.heldAt node held).map (Graph.renameFree source target) := by
  rw [Graph.renameFree_of_not_defined h]
  unfold Graph.heldAt
  rw [List.getElem?_map]
  cases graph.nodes[node]? with
  | none => rfl
  | some holder =>
      rw [Option.map_some, Option.bind_some, Option.bind_some, Node.subgraphs_renameReads,
        List.getElem?_map]

/-- A renaming leaves what is bound at each place. -/
theorem Graph.boundAt_renameFree {graph : Graph} {name : String} {place : Place} :
    (graph.renameFree source target).BoundAt name place ↔ graph.BoundAt name place := by
  induction place generalizing graph with
  | input _ _ => simp only [Graph.BoundAt, Graph.definedNames_renameFree]
  | output _ => simp only [Graph.BoundAt, Graph.definedNames_renameFree]
  | inside node held place ih =>
      by_cases h : source ∈ graph.definedNames
      · rw [Graph.renameFree_of_defined h]
      · simp only [Graph.BoundAt, Graph.definedNames_renameFree, Graph.heldAt_renameFree h,
          Option.mem_def, Option.map_eq_some_iff, exists_exists_and_eq_and, ih]

theorem Graph.readAt_renameFree_of_boundAt {graph : Graph} {place : Place}
    (h : graph.BoundAt source place) :
    (graph.renameFree source target).readAt place = graph.readAt place := by
  induction place generalizing graph with
  | input _ _ => rw [Graph.renameFree_of_defined h]
  | output _ => rw [Graph.renameFree_of_defined h]
  | inside node held place ih =>
      by_cases hdefined : source ∈ graph.definedNames
      · rw [Graph.renameFree_of_defined hdefined]
      · obtain ⟨inner, hinner, hbound⟩ := h.resolve_left hdefined
        simp only [Graph.readAt, Graph.heldAt_renameFree hdefined]
        rw [Option.mem_def.mp hinner, Option.map_some, Option.bind_some, Option.bind_some,
          ih hbound]

theorem Graph.readAt_renameFree_of_not_boundAt {graph : Graph} {place : Place}
    (h : ¬ graph.BoundAt source place) :
    (graph.renameFree source target).readAt place =
      (graph.readAt place).map (rename source target) := by
  induction place generalizing graph with
  | input node slot =>
      rw [Graph.renameFree_of_not_defined h]
      simp only [Graph.readAt, List.getElem?_map]
      cases graph.nodes[node]? with
      | none => rfl
      | some reader =>
          exact List.getElem?_map
  | output slot =>
      rw [Graph.renameFree_of_not_defined h]
      simp only [Graph.readAt, List.getElem?_map]
      cases graph.outputs[slot]? with
      | none => rfl
      | some info => exact name_rename source target info
  | inside node held place ih =>
      obtain ⟨hdefined, hinner⟩ := not_or.mp h
      simp only [Graph.readAt, Graph.heldAt_renameFree hdefined]
      cases hheld : graph.heldAt node held with
      | none => rfl
      | some inner => exact ih fun hbound => hinner ⟨inner, hheld, hbound⟩

/-- What a renamed graph reads at its free places is what the graph read there, renamed, if it does
not bind the new name: no read of the new name gets under a definition of it. -/
theorem Graph.renames_free {graph : Graph} (hsource : source ≠ "") (htarget : target ≠ "")
    (hnew : ¬ graph.Binds target) :
    Renames source target graph.Free (graph.renameFree source target).Free := by
  intro name
  unfold Graph.Free
  simp only [Graph.boundAt_renameFree]
  constructor
  · rintro ⟨hname, place, hread, hfree⟩
    by_cases hbound : graph.BoundAt source place
    · rw [Graph.readAt_renameFree_of_boundAt hbound] at hread
      refine ⟨name, ⟨hname, place, hread, hfree⟩, rename_of_ne ?_⟩
      rintro rfl
      exact hfree hbound
    · rw [Graph.readAt_renameFree_of_not_boundAt hbound, Option.map_eq_some_iff] at hread
      obtain ⟨old, hread, rfl⟩ := hread
      refine ⟨old, ⟨mt (rename_eq_empty hsource htarget).mpr hname, place, hread, ?_⟩, rfl⟩
      by_cases hold : old = source
      · rwa [hold]
      · rwa [rename_of_ne hold] at hfree
  · rintro ⟨old, ⟨hold, place, hread, hfree⟩, rfl⟩
    refine ⟨mt (rename_eq_empty hsource htarget).mp hold, place, ?_⟩
    by_cases heq : old = source
    · subst heq
      rw [Graph.readAt_renameFree_of_not_boundAt hfree, hread, Option.map_some, rename_self]
      exact ⟨rfl, fun hbound => hnew hbound.binds⟩
    · rw [rename_of_ne heq]
      refine ⟨?_, hfree⟩
      by_cases hbound : graph.BoundAt source place
      · rw [Graph.readAt_renameFree_of_boundAt hbound, hread]
      · rw [Graph.readAt_renameFree_of_not_boundAt hbound, hread, Option.map_some, rename_of_ne heq]

/-! ### Substitutions -/

/-- A graph with its free reads of one name replaced by reads of another: a read stays where the old
name is bound, and is renamed where it is not. -/
structure Graph.Substituted (source target : String) (before after : Graph) : Prop where
  bound : ∀ place, before.BoundAt source place → after.readAt place = before.readAt place
  free : ∀ place, ¬ before.BoundAt source place →
    after.readAt place = (before.readAt place).map (rename source target)
  names : Renames source target before.Free after.Free
  kept : after.unread = before.unread

theorem Graph.substituted_renameFree {graph : Graph} (hsource : source ≠ "") (htarget : target ≠ "")
    (hnew : ¬ graph.Binds target) :
    graph.Substituted source target (graph.renameFree source target) where
  bound _ := Graph.readAt_renameFree_of_boundAt
  free _ := Graph.readAt_renameFree_of_not_boundAt
  names := Graph.renames_free hsource htarget hnew
  kept := unread_renameFree source target graph

/-- A graph without free reads of the old name is its own substitution. -/
theorem Graph.substituted_self {graph : Graph} (hsource : source ≠ "") (h : ¬ graph.Free source) :
    graph.Substituted source target graph where
  bound _ _ := rfl
  free place hfree := by
    cases hread : graph.readAt place with
    | none => rfl
    | some name =>
        rw [Option.map_some, rename_of_ne]
        rintro rfl
        exact h ⟨hsource, place, hread, hfree⟩
  names := renames_self h
  kept := rfl

/-- There is one substitution of a graph. -/
theorem Graph.Substituted.unique {before after other : Graph}
    (h : before.Substituted source target after) (hother : before.Substituted source target other) :
    after = other := by
  refine Graph.eq_of_unread (h.kept.trans hother.kept.symm) fun place => ?_
  by_cases hbound : before.BoundAt source place
  · rw [h.bound place hbound, hother.bound place hbound]
  · rw [h.free place hbound, hother.free place hbound]

/-- A node that reads `target` in place of `source`, itself and in its subgraphs, and is otherwise
the same. -/
structure Node.Rewired (source target : String) (before after : Node) : Prop where
  inputs : after.inputs = before.inputs.map (rename source target)
  subgraphs : List.Forall₂ (Graph.Substituted source target) before.subgraphs after.subgraphs
  kept : after.unread = before.unread
  untouched : source ∉ before.inputs → source ∉ before.captures → after = before

/-- There is one way to rewire a node. -/
theorem Node.Rewired.unique {before after other : Node} (h : before.Rewired source target after)
    (hother : before.Rewired source target other) : after = other := by
  refine Node.eq_of_unread (h.kept.trans hother.kept.symm) (h.inputs.trans hother.inputs.symm) ?_
  have hunique : Relator.RightUnique (Graph.Substituted source target) :=
    fun _ _ _ hfirst hsecond => hfirst.unique hsecond
  exact hunique.forall₂ h.subgraphs hother.subgraphs

end

end FixedShape.Onnx
