/-
Module: FixedShape.Proofs.Onnx.Renaming
Purpose: What a graph reads from outside, and how it changes under a renaming. The captures gathered
  from a renamed subgraph are the renamed captures, at any depth, if no subgraph defines the new
  name. What messages keep beside their modelled fields stays.
-/
import FixedShape.Proofs.Onnx.Scope
import FixedShape.Proofs.Onnx.Separation

namespace FixedShape.Onnx

/-! ### What is captured -/

/-- A graph reads a name from outside: one of its nodes reads it, a subgraph of a node does, or the
graph passes it on as an output, and the graph does not define it. -/
def Graph.Reads (graph : Graph) (name : String) : Prop :=
  ((∃ node ∈ graph.nodes, name ∈ node.inputs ∨ name ∈ node.captures) ∨
    ∃ info ∈ graph.outputs, info.name = some name) ∧ name ≠ "" ∧ name ∉ graph.definedNames

theorem mem_capture {defined captures : List String} {name other : String} :
    other ∈ capture defined captures name ↔
      other ∈ captures ∨ other = name ∧ other ≠ "" ∧ other ∉ defined := by
  unfold capture
  split
  · next hkept =>
      refine (or_iff_left_of_imp ?_).symm
      rintro ⟨rfl, hname, hdefined⟩
      exact (hkept.resolve_left hname).resolve_left hdefined
  · next hadded =>
      simp only [not_or] at hadded
      rw [List.mem_append, List.mem_singleton]
      refine or_congr_right (and_iff_left_of_imp ?_).symm
      rintro rfl
      exact ⟨hadded.1, hadded.2.1⟩

theorem mem_foldl_capture {defined captures names : List String} {name : String} :
    name ∈ names.foldl (capture defined) captures ↔
      name ∈ captures ∨ name ∈ names ∧ name ≠ "" ∧ name ∉ defined := by
  induction names generalizing captures with
  | nil => simp
  | cons first rest ih =>
      rw [List.foldl_cons, ih, mem_capture, List.mem_cons, or_and_right, or_assoc]

theorem mem_captureNodes {defined captures : List String} {nodes : List Node} {name : String} :
    name ∈ captureNodes defined nodes captures ↔
      name ∈ captures ∨ (∃ node ∈ nodes, name ∈ node.inputs ∨ name ∈ node.captures) ∧
        name ≠ "" ∧ name ∉ defined := by
  induction nodes generalizing captures with
  | nil =>
      rw [captureNodes]
      simp
  | cons node rest ih =>
      rcases node with ⟨inputs, _, _, _, attributes, _, _, _⟩
      rw [captureNodes, ih, mem_foldl_capture, mem_foldl_capture, List.exists_mem_cons_iff]
      simp only [Node.captures, or_and_right, or_assoc]

theorem mem_addCaptures {graph : Graph} {captures : List String} {name : String} :
    name ∈ graph.addCaptures captures ↔ name ∈ captures ∨ graph.Reads name := by
  rcases graph with ⟨nodes, graphName, initializers, docString, inputs, outputs, valueInfo, unknown⟩
  rw [Graph.addCaptures, mem_foldl_capture, mem_captureNodes, List.mem_filterMap, or_assoc,
    ← or_and_right]
  rfl

theorem mem_captureGraphs {graphs : List Graph} {captures : List String} {name : String} :
    name ∈ captureGraphs graphs captures ↔
      name ∈ captures ∨ ∃ graph ∈ graphs, graph.Reads name := by
  induction graphs generalizing captures with
  | nil =>
      rw [captureGraphs]
      simp
  | cons first rest ih =>
      rw [captureGraphs, ih, mem_addCaptures]
      rw [List.exists_mem_cons_iff, or_assoc]

theorem mem_captureGraph? {graph? : Option Graph} {captures : List String} {name : String} :
    name ∈ captureGraph? graph? captures ↔
      name ∈ captures ∨ ∃ graph ∈ graph?, graph.Reads name := by
  cases graph? with
  | none =>
      rw [captureGraph?]
      simp
  | some graph =>
      rw [captureGraph?, mem_addCaptures]
      simp

/-- What the subgraphs in attributes read. -/
theorem mem_captureAttributes {attributes : List Attribute} {captures : List String}
    {name : String} :
    name ∈ captureAttributes attributes captures ↔
      name ∈ captures ∨ ∃ setting ∈ attributes, (∃ graph ∈ setting.g, graph.Reads name) ∨
        ∃ graph ∈ setting.graphs, graph.Reads name := by
  induction attributes generalizing captures with
  | nil =>
      rw [captureAttributes]
      simp
  | cons setting rest ih =>
      rcases setting with ⟨_, _, _, _, _, g, _, _, _, _, graphs, _, _⟩
      rw [captureAttributes, ih, mem_captureGraphs, mem_captureGraph?, List.exists_mem_cons_iff,
        or_assoc, or_assoc, or_assoc]

theorem mem_captureAttributes_cons {setting : Attribute} {rest : List Attribute} {name : String} :
    name ∈ captureAttributes (setting :: rest) [] ↔
      (∃ graph ∈ setting.g, graph.Reads name) ∨ (∃ graph ∈ setting.graphs, graph.Reads name) ∨
        name ∈ captureAttributes rest [] := by
  rw [mem_captureAttributes, mem_captureAttributes, List.exists_mem_cons_iff, or_assoc,
    or_iff_right List.not_mem_nil, or_iff_right List.not_mem_nil]

/-! ### Names under a renaming -/

/-- What holds of names after a renaming is what held of the names renamed. -/
def Renames (source target : String) (before after : String → Prop) : Prop :=
  ∀ name, after name ↔ ∃ old, before old ∧ rename source target old = name

section

variable {source target : String} {before after other next : String → Prop}

theorem Renames.or (hleft : Renames source target before after)
    (hright : Renames source target other next) :
    Renames source target (fun name => before name ∨ other name)
      (fun name => after name ∨ next name) := by
  intro name
  simp only [hleft name, hright name, or_and_right, exists_or]

theorem renames_map (names : List String) :
    Renames source target (· ∈ names) (· ∈ names.map (rename source target)) :=
  fun _ => List.mem_map

/-- Where the old name does not hold, nothing is renamed. -/
theorem renames_self (h : ¬ before source) : Renames source target before before := by
  intro name
  constructor
  · intro hname
    refine ⟨name, hname, rename_of_ne ?_⟩
    rintro rfl
    exact h hname
  · rintro ⟨old, hold, rfl⟩
    have hne : old ≠ source := by
      rintro rfl
      exact h hold
    rwa [rename_of_ne hne]

/-- A renaming keeps apart from the empty name and from names that have neither name, if they are
kept apart from before. -/
theorem Renames.guard (h : Renames source target before after) (hsource : source ≠ "")
    (htarget : target ≠ "") {defined : List String} (hold : source ∉ defined)
    (hnew : target ∉ defined) :
    Renames source target (fun name => before name ∧ name ≠ "" ∧ name ∉ defined)
      (fun name => after name ∧ name ≠ "" ∧ name ∉ defined) := by
  have hkeep : ∀ name, rename source target name ≠ "" ∧ rename source target name ∉ defined ↔
      name ≠ "" ∧ name ∉ defined := by
    intro name
    by_cases hname : name = source
    · rw [hname, rename_self]
      exact iff_of_true ⟨htarget, hnew⟩ ⟨hsource, hold⟩
    · rw [rename_of_ne hname]
  intro name
  simp only [h name]
  constructor
  · rintro ⟨⟨old, hbefore, rfl⟩, hname⟩
    exact ⟨old, ⟨hbefore, (hkeep old).mp hname⟩, rfl⟩
  · rintro ⟨old, ⟨hbefore, hname⟩, rfl⟩
    exact ⟨⟨old, hbefore, rfl⟩, (hkeep old).mpr hname⟩

end

/-! ### What is defined inside -/

/-- A graph binds a name: it defines the name itself, or a graph that one of its nodes holds binds
it. -/
inductive Graph.Binds : Graph → String → Prop where
  | own {graph : Graph} {name : String} (defined : name ∈ graph.definedNames) :
      Graph.Binds graph name
  | inner {graph held : Graph} {node : Node} {name : String} (mem : node ∈ graph.nodes)
      (holds : held ∈ node.subgraphs) (binds : Graph.Binds held name) : Graph.Binds graph name

/-- A subgraph of a node binds a name. -/
def Node.Binds (node : Node) (name : String) : Prop := ∃ held ∈ node.subgraphs, held.Binds name

theorem mem_scopedGraphNames {graphs : List Graph} {graph : Graph} {name : String}
    (hgraph : graph ∈ graphs) (hname : name ∈ graph.scopedNames) :
    name ∈ scopedGraphNames graphs := by
  induction graphs with
  | nil => cases hgraph
  | cons first rest ih =>
      rw [scopedGraphNames, List.mem_append]
      rcases List.mem_cons.mp hgraph with rfl | hrest
      · exact Or.inl hname
      · exact Or.inr (ih hrest)

theorem mem_scopedAttributeNames {attributes : List Attribute} {setting : Attribute}
    {graph : Graph} {name : String} (hsetting : setting ∈ attributes)
    (hgraph : graph ∈ setting.g.toList ++ setting.graphs) (hname : name ∈ graph.scopedNames) :
    name ∈ scopedAttributeNames attributes := by
  induction attributes with
  | nil => cases hsetting
  | cons first rest ih =>
      rcases first with ⟨_, _, _, _, _, g, _, _, _, _, graphs, _, _⟩
      rw [scopedAttributeNames, List.mem_append, List.mem_append]
      rcases List.mem_cons.mp hsetting with rfl | hrest
      · rcases List.mem_append.mp hgraph with hg | hgraphs
        · refine Or.inl ?_
          cases g with
          | none => cases hg
          | some other =>
              rw [List.mem_singleton.mp hg] at hname
              rw [scopedGraphNames?]
              exact hname
        · exact Or.inr (Or.inl (mem_scopedGraphNames hgraphs hname))
      · exact Or.inr (Or.inr (ih hrest))

/-- The names of nodes and of what their subgraphs use. -/
theorem mem_scopedNodeNames {nodes : List Node} {name : String} :
    name ∈ scopedNodeNames nodes ↔
      ∃ node ∈ nodes, node.name = some name ∨ name ∈ node.scopedNames := by
  induction nodes with
  | nil =>
      rw [scopedNodeNames]
      simp
  | cons first rest ih =>
      rcases first with ⟨_, _, _, _, attributes, _, _, _⟩
      rw [scopedNodeNames, List.mem_append, List.mem_append, ih, List.exists_mem_cons_iff,
        Option.mem_toList, or_assoc]
      rfl

/-- What is used inside a subgraph is used inside the node that holds it. -/
theorem Node.mem_scopedNames {node : Node} {graph : Graph} {name : String}
    (hgraph : graph ∈ node.subgraphs) (hname : name ∈ graph.scopedNames) :
    name ∈ node.scopedNames := by
  obtain ⟨setting, hsetting, hheld⟩ := List.mem_flatMap.mp hgraph
  exact mem_scopedAttributeNames hsetting hheld hname

/-- The names used inside a graph. -/
theorem Graph.mem_scopedNames {graph : Graph} {name : String} :
    name ∈ graph.scopedNames ↔ name ∈ graph.definedNames ∨
      ∃ node ∈ graph.nodes, node.name = some name ∨ name ∈ node.scopedNames := by
  cases graph
  rw [Graph.scopedNames, List.mem_append, mem_scopedNodeNames]

/-- A name that a graph binds is used inside it. -/
theorem Graph.Binds.mem_scopedNames {graph : Graph} {name : String} (h : graph.Binds name) :
    name ∈ graph.scopedNames := by
  induction h with
  | own hdefined => exact Graph.mem_scopedNames.mpr (Or.inl hdefined)
  | @inner _ _ node name hnode hheld _ ih =>
      have hinside : name ∈ node.scopedNames := Node.mem_scopedNames hheld ih
      exact Graph.mem_scopedNames.mpr (Or.inr ⟨node, hnode, Or.inr hinside⟩)

theorem Node.Binds.mem_scopedNames {node : Node} {name : String} (h : node.Binds name) :
    name ∈ node.scopedNames := by
  obtain ⟨held, hheld, hbinds⟩ := h
  exact Node.mem_scopedNames hheld hbinds.mem_scopedNames

/-- A node binds no name that none of its subgraphs binds. -/
theorem Node.not_binds_iff {node : Node} {name : String} :
    ¬ node.Binds name ↔ ∀ setting ∈ node.attributes,
      ∀ graph ∈ setting.g.toList ++ setting.graphs, ¬ graph.Binds name := by
  simp only [Node.Binds, Node.subgraphs, List.mem_flatMap, not_exists, not_and]
  exact ⟨fun h setting hsetting graph hgraph => h graph ⟨setting, hsetting, hgraph⟩,
    fun h graph ⟨setting, hsetting, hgraph⟩ => h setting hsetting graph hgraph⟩

/-! ### Captures under a renaming -/

theorem definedNames_rename (source target : String) (graph : Graph) :
    Graph.definedNames
      { graph with
        nodes := renameNodes source target graph.nodes
        outputs := graph.outputs.map (ValueInfo.rename source target) } = graph.definedNames := by
  simp only [Graph.definedNames, outputs_renameNodes]

theorem name_rename (source target : String) (value : ValueInfo) :
    (value.rename source target).name = value.name.map (rename source target) := by
  unfold ValueInfo.rename
  split
  · next hname => rw [hname, Option.map_some, rename_self]
  · next hname =>
      cases hvalue : value.name with
      | none => rfl
      | some name =>
          have hne : name ≠ source := fun heq => hname (hvalue.trans (congrArg some heq))
          rw [Option.map_some, rename_of_ne hne]

theorem renames_outputs (source target : String) (outputs : List ValueInfo) :
    Renames source target (fun name => ∃ info ∈ outputs, info.name = some name)
      (fun name => ∃ info ∈ outputs.map (ValueInfo.rename source target),
        info.name = some name) := by
  intro name
  constructor
  · rintro ⟨_, hmem, hname⟩
    obtain ⟨info, hinfo, rfl⟩ := List.mem_map.mp hmem
    rw [name_rename, Option.map_eq_some_iff] at hname
    obtain ⟨old, hold, hrename⟩ := hname
    exact ⟨old, ⟨info, hinfo, hold⟩, hrename⟩
  · rintro ⟨old, ⟨info, hinfo, hold⟩, rfl⟩
    refine ⟨_, List.mem_map_of_mem hinfo, ?_⟩
    rw [name_rename, hold, Option.map_some]

section

variable {source target : String}

mutual

/-- A renamed graph reads what it read before, renamed, if it does not bind the new name. -/
theorem renames_renameFree (hsource : source ≠ "") (htarget : target ≠ "") :
    ∀ graph : Graph, ¬ graph.Binds target →
      Renames source target graph.Reads (graph.renameFree source target).Reads
  | { nodes, name, initializers, docString, inputs, outputs, valueInfo, unknownFields }, hfree => by
      have hown : target ∉ Graph.definedNames
          { nodes, name, initializers, docString, inputs, outputs, valueInfo, unknownFields } :=
        fun hdefined => hfree (.own hdefined)
      have hinner : ∀ node ∈ nodes, ¬ node.Binds target :=
        fun node hnode ⟨_, hheld, hbinds⟩ => hfree (.inner hnode hheld hbinds)
      rw [Graph.renameFree]
      split
      · next hdefined =>
          -- the graph has a value of the old name, so it does not read the name from outside
          exact renames_self fun hreads => hreads.2.2 hdefined
      · next hdefined =>
          have hnodes := renames_renameNodes hsource htarget nodes hinner
          have hreads := (hnodes.or (renames_outputs source target outputs)).guard hsource htarget
            hdefined hown
          intro other
          unfold Graph.Reads
          rw [definedNames_rename source target
            { nodes, name, initializers, docString, inputs, outputs, valueInfo, unknownFields }]
          exact hreads other

theorem renames_renameNodes (hsource : source ≠ "") (htarget : target ≠ "") :
    ∀ nodes : List Node, (∀ node ∈ nodes, ¬ node.Binds target) →
      Renames source target (fun name => ∃ node ∈ nodes, name ∈ node.inputs ∨ name ∈ node.captures)
        (fun name => ∃ node ∈ renameNodes source target nodes,
          name ∈ node.inputs ∨ name ∈ node.captures)
  | [], _ => by
      rw [renameNodes]
      simp [Renames]
  | { inputs, outputs, name, opType, attributes, docString, domain, unknownFields } :: rest,
      hfree => by
      obtain ⟨hfirst, hrest⟩ := List.forall_mem_cons.mp hfree
      rw [renameNodes]
      simp only [List.exists_mem_cons_iff]
      refine Renames.or (Renames.or (renames_map inputs) ?_)
        (renames_renameNodes hsource htarget rest hrest)
      exact renames_renameAttributes hsource htarget attributes (Node.not_binds_iff.mp hfirst)

/-- What subgraphs read, renamed, is what the renamed subgraphs read. -/
theorem renames_renameAttributes (hsource : source ≠ "") (htarget : target ≠ "") :
    ∀ attributes : List Attribute, (∀ setting ∈ attributes,
        ∀ graph ∈ setting.g.toList ++ setting.graphs, ¬ graph.Binds target) →
      Renames source target (· ∈ captureAttributes attributes [])
        (· ∈ captureAttributes (renameAttributes source target attributes) [])
  | [], _ => by
      rw [renameAttributes]
      simp [captureAttributes, Renames]
  | { g, graphs, .. } :: rest, hfree => by
      obtain ⟨hfirst, hrest⟩ := List.forall_mem_cons.mp hfree
      obtain ⟨hg, hgraphs⟩ := List.forall_mem_append.mp hfirst
      rw [renameAttributes]
      simp only [mem_captureAttributes_cons]
      exact (renames_renameGraph? hsource htarget g fun graph hgraph =>
          hg graph (Option.mem_toList.mpr hgraph)).or
        ((renames_renameGraphs hsource htarget graphs hgraphs).or
          (renames_renameAttributes hsource htarget rest hrest))

theorem renames_renameGraphs (hsource : source ≠ "") (htarget : target ≠ "") :
    ∀ graphs : List Graph, (∀ graph ∈ graphs, ¬ graph.Binds target) →
      Renames source target (fun name => ∃ graph ∈ graphs, graph.Reads name)
        (fun name => ∃ graph ∈ renameGraphs source target graphs, graph.Reads name)
  | [], _ => by
      rw [renameGraphs]
      simp [Renames]
  | first :: rest, hfree => by
      obtain ⟨hfirst, hrest⟩ := List.forall_mem_cons.mp hfree
      rw [renameGraphs]
      simp only [List.exists_mem_cons_iff]
      exact Renames.or (renames_renameFree hsource htarget first hfirst)
        (renames_renameGraphs hsource htarget rest hrest)

theorem renames_renameGraph? (hsource : source ≠ "") (htarget : target ≠ "") :
    ∀ graph? : Option Graph, (∀ graph ∈ graph?, ¬ graph.Binds target) →
      Renames source target (fun name => ∃ graph ∈ graph?, graph.Reads name)
        (fun name => ∃ graph ∈ renameGraph? source target graph?, graph.Reads name)
  | none, _ => by
      rw [renameGraph?]
      simp [Renames]
  | some graph, hfree => by
      rw [renameGraph?]
      simpa [Renames] using renames_renameFree hsource htarget graph (hfree graph rfl)

end

end

/-! ### Unknown fields under a renaming -/

theorem ValueInfo.Separated.rename {value : ValueInfo} (h : value.Separated)
    (source target : String) : (value.rename source target).Separated := by
  unfold ValueInfo.rename
  split
  · exact ⟨h.unknown, h.type⟩
  · exact h

section

variable (source target : String)

mutual

theorem separated_renameFree :
    ∀ graph : Graph, graph.Separated → (graph.renameFree source target).Separated
  | { nodes, name, initializers, docString, inputs, outputs, valueInfo, unknownFields }, h => by
      rw [Graph.renameFree]
      split
      · exact h
      · obtain ⟨hunknown, hnodes, hinitializers, hinputs, houtputs, hvalueInfo⟩ := h
        refine .intro hunknown (separated_renameNodes nodes hnodes) hinitializers hinputs ?_
          hvalueInfo
        intro info hinfo
        obtain ⟨old, hold, rfl⟩ := List.mem_map.mp hinfo
        exact (houtputs old hold).rename source target

theorem separated_renameNodes : ∀ nodes : List Node, (∀ node ∈ nodes, node.Separated) →
    ∀ node ∈ renameNodes source target nodes, node.Separated
  | [], _ => by
      rw [renameNodes]
      exact List.forall_mem_nil _
  | { inputs, outputs, name, opType, attributes, docString, domain, unknownFields } :: rest, h => by
      obtain ⟨⟨hunknown, hattributes⟩, hrest⟩ := List.forall_mem_cons.mp h
      rw [renameNodes, List.forall_mem_cons]
      exact ⟨.intro hunknown (separated_renameAttributes attributes hattributes),
        separated_renameNodes rest hrest⟩

theorem separated_renameAttributes : ∀ attributes : List Attribute,
    (∀ setting ∈ attributes, setting.Separated) →
      ∀ setting ∈ renameAttributes source target attributes, setting.Separated
  | [], _ => by
      rw [renameAttributes]
      exact List.forall_mem_nil _
  | { g, graphs, .. } :: rest, h => by
      obtain ⟨⟨hunknown, ht, hg, htensors, hgraphs⟩, hrest⟩ := List.forall_mem_cons.mp h
      rw [renameAttributes, List.forall_mem_cons]
      exact ⟨.intro hunknown ht (separated_renameGraph? g hg) htensors
        (separated_renameGraphs graphs hgraphs), separated_renameAttributes rest hrest⟩

theorem separated_renameGraphs : ∀ graphs : List Graph, (∀ graph ∈ graphs, graph.Separated) →
    ∀ graph ∈ renameGraphs source target graphs, graph.Separated
  | [], _ => by
      rw [renameGraphs]
      exact List.forall_mem_nil _
  | first :: rest, h => by
      obtain ⟨hfirst, hrest⟩ := List.forall_mem_cons.mp h
      rw [renameGraphs, List.forall_mem_cons]
      exact ⟨separated_renameFree first hfirst, separated_renameGraphs rest hrest⟩

theorem separated_renameGraph? : ∀ graph? : Option Graph, (∀ graph ∈ graph?, graph.Separated) →
    ∀ graph ∈ renameGraph? source target graph?, graph.Separated
  | none, _ => by
      rw [renameGraph?]
      exact nofun
  | some graph, h => by
      rw [renameGraph?]
      rintro _ ⟨⟩
      exact separated_renameFree graph (h graph rfl)

end

end

end FixedShape.Onnx
