/-
Module: FixedShape.Proofs.Graph.Freshness
Purpose: New names are new. Whatever changes a graph went through, all names that it mentions are in
  use, at any depth of its subgraphs, and so are the names it has given; a name that is made keeps
  away from all of them and is the first of its kind that does.
-/
import FixedShape.Proofs.Graph.Edits
import FixedShape.Proofs.Onnx.Renaming
import FixedShape.Proofs.Tensor.Declarations

namespace FixedShape

/-! ### Graphs inside a node -/

/-- A graph that a node holds, itself or in a node of a graph that it holds. -/
inductive Onnx.Graph.Within : Onnx.Graph → Onnx.Node → Prop where
  | held {graph : Onnx.Graph} {node : Onnx.Node} (holds : graph ∈ node.subgraphs) :
      Within graph node
  | deeper {graph outer : Onnx.Graph} {node inner : Onnx.Node} (holds : outer ∈ node.subgraphs)
      (mem : inner ∈ outer.nodes) (within : Within graph inner) : Within graph node

/-- What is used in a graph inside a node is used inside the node. -/
theorem Onnx.Graph.Within.mem_scopedNames {graph : Onnx.Graph} {node : Onnx.Node} {name : String}
    (h : graph.Within node) (hname : name ∈ graph.scopedNames) : name ∈ node.scopedNames := by
  induction h with
  | held holds => exact Onnx.Node.mem_scopedNames holds hname
  | @deeper outer _ inner holds mem _ ih =>
      have houter : name ∈ outer.scopedNames :=
        Onnx.Graph.mem_scopedNames.mpr (Or.inr ⟨inner, mem, Or.inr ih⟩)
      exact Onnx.Node.mem_scopedNames holds houter

namespace Graph

/-! ### Names through changes -/

/-- No change takes a name out of use. -/
theorem mem_names_edit (edit : Edit) {graph : Graph} {name : String} (h : name ∈ graph.names) :
    name ∈ (edit.apply graph).names := by
  have hreserve : ∀ other, name ∈ (graph.reserve other).names :=
    fun _ => mem_names_reserve.mpr (Or.inr h)
  cases edit with
  | addNode node => exact mem_names_addNode.mpr (Or.inl h)
  | addInput info => exact hreserve info.name
  | addOutput info => exact hreserve info.name
  | addValueInfo info => exact hreserve info.name
  | addInitializer init => exact hreserve init.name
  | renameOutput id source target =>
      rw [Edit.apply]
      rcases renameOutput_cases id source target graph with heq | ⟨_, _, _, heq⟩
      · rwa [heq]
      · rw [heq]
        exact List.mem_insert_of_mem h
  | replaceUses source target exclude => exact mem_names_replaceUses.mpr (Or.inl h)
  | renameValueInfo source target =>
      rw [Edit.apply, renameValueInfo]
      split
      · exact h
      · exact hreserve target
  | uniqueName base => exact hreserve (graph.freshName base)
  | changeInput name change => exact h
  | changeOutput name change => exact h

section

variable {graph : Graph}

theorem Reserved.renameOutput (h : graph.Reserved) (id : NodeId) (source target : String) :
    (graph.renameOutput id source target).1.Reserved := by
  rcases renameOutput_cases id source target graph with heq | ⟨node, hid, _, heq⟩
  · rwa [heq]
  · have hold : ∀ name ∈ graph.names, name ∈ graph.names.insert target :=
      fun _ => List.mem_insert_of_mem
    rw [heq]
    refine h.of_parts hold (fun _ => Or.inl) (fun _ => Or.inl) (fun _ => Or.inl)
      (fun _ => Or.inl) fun other hother => ?_
    rcases List.mem_or_eq_of_mem_set hother with hkept | rfl
    · exact Or.inl hkept
    · refine Or.inr fun name hmem hname => ?_
      rcases Node.mentions_renameOutput hmem with hmem | rfl
      · exact hold name (h.nodes node (List.mem_of_getElem? hid) name hmem hname)
      · exact List.mem_insert_self

theorem Reserved.replaceUses (h : graph.Reserved) (source target : String)
    (exclude : List NodeId) : (graph.replaceUses source target exclude).1.Reserved := by
  have hold : ∀ name ∈ graph.names, name ∈ (graph.replaceUses source target exclude).1.names :=
    fun _ hname => mem_names_replaceUses.mpr (Or.inl hname)
  have hnodes : ∀ node ∈ (graph.replaceUses source target exclude).1.nodes,
      node ∈ graph.nodes ∨ ∀ name ∈ node.mentions, name ≠ "" →
        name ∈ (graph.replaceUses source target exclude).1.names := by
    intro node hnode
    rw [nodes_replaceUses] at hnode
    obtain ⟨⟨position, before⟩, hentry, rfl⟩ := List.mem_map.mp hnode
    have hmem : before ∈ graph.nodes := List.mem_of_getElem? (mem_indexedNodes.mp hentry)
    dsimp only
    split
    · exact Or.inl hmem
    · next hkept =>
        by_cases hread : source ∈ before.inputs ∨ source ∈ before.captures
        · -- The node is told, so the new name is put into use.
          have hids : (graph.replaceUses source target exclude).2 ≠ [] := by
            rw [ids_replaceUses]
            refine List.ne_nil_of_mem (List.mem_map_of_mem (List.mem_filter.mpr ⟨hentry, ?_⟩))
            exact decide_eq_true ⟨hkept, hread⟩
          refine Or.inr fun name hname hne => ?_
          rcases Node.mentions_replaceInput hname with hname | rfl
          · exact hold name (h.nodes before hmem name hname hne)
          · exact mem_names_replaceUses.mpr (Or.inr ⟨rfl, hids⟩)
        · obtain ⟨hinputs, hcaptures⟩ := not_or.mp hread
          rw [Node.replaceInput_eq_self hinputs hcaptures]
          exact Or.inl hmem
  rw [replaceUses_parts] at hold hnodes ⊢
  exact h.of_parts hold (fun _ => Or.inl) (fun _ => Or.inl) (fun _ => Or.inl) (fun _ => Or.inl)
    hnodes

theorem Reserved.renameValueInfo (h : graph.Reserved) (source target : String) :
    (graph.renameValueInfo source target).1.Reserved := by
  unfold Graph.renameValueInfo
  split
  · exact h
  · have htarget : target ∈ (graph.reserve target).names := mem_names_reserve.mpr (Or.inl rfl)
    have hreserve := h.reserve target
    refine hreserve.of_parts (fun _ => id) (fun _ => Or.inl) (fun _ => Or.inl) ?_
      (fun _ => Or.inl) fun _ => Or.inl
    intro info hinfo
    rw [reserve_eq] at hreserve
    refine Or.inr (forall_mem_modifyInfo (p := fun info => info.name ∈ (graph.reserve target).names)
      ?_ (fun _ _ => htarget) info hinfo)
    rw [reserve_eq]
    exact hreserve.valueInfo

theorem Reserved.modify (h : graph.Reserved) (name : String) (change : Redeclaration) :
    (graph.modifyInput name change.apply).Reserved ∧
      (graph.modifyOutput name change.apply).Reserved := by
  have hname : ∀ info : TensorInfo, info.name ∈ graph.names →
      (change.apply info).name ∈ graph.names := by
    intro info hinfo
    cases change with
    | shape dims => rwa [Redeclaration.apply, TensorInfo.name_setShape]
    | elemType type => rwa [Redeclaration.apply, TensorInfo.name_setElemType]
  constructor
  · exact ⟨forall_mem_modifyInfo h.inputs hname, h.outputs, h.valueInfo, h.initializers, h.nodes⟩
  · exact ⟨h.inputs, forall_mem_modifyInfo h.outputs hname, h.valueInfo, h.initializers, h.nodes⟩

/-- A change keeps every mentioned name in use. -/
theorem Reserved.edit (h : graph.Reserved) (edit : Edit) : (edit.apply graph).Reserved := by
  cases edit with
  | addNode node => exact h.addNode node
  | addInput info => exact h.addInput info
  | addOutput info => exact h.addOutput info
  | addValueInfo info => exact h.addValueInfo info
  | addInitializer init => exact h.addInitializer init
  | renameOutput id source target => exact h.renameOutput id source target
  | replaceUses source target exclude => exact h.replaceUses source target exclude
  | renameValueInfo source target => exact h.renameValueInfo source target
  | uniqueName base => exact h.reserve (graph.freshName base)
  | changeInput name change => exact (h.modify name change).1
  | changeOutput name change => exact (h.modify name change).2

end

/-! ### Histories -/

/-- The names that a call gives. -/
def Edit.given (edit : Edit) (graph : Graph) : List String :=
  match edit with
  | .uniqueName base => [(graph.uniqueName base).1]
  | _ => []

/-- The graphs that come from the empty graph or from a loaded one by any changes, with the names
that were given on the way. -/
inductive History : Graph → List String → Prop where
  | empty : History {} []
  | loaded {message : Onnx.Graph} {graph : Graph} (h : ofMessage message = .ok graph) :
      History graph []
  | edited {graph : Graph} {given : List String} (edit : Edit) (before : History graph given) :
      History (edit.apply graph) (edit.given graph ++ given)

section

variable {graph : Graph} {given : List String}

theorem mem_names_of_given {edit : Edit} {name : String} (h : name ∈ edit.given graph) :
    name ∈ (edit.apply graph).names := by
  cases edit with
  | uniqueName base =>
      rw [List.mem_singleton.mp h]
      exact mem_names_reserve.mpr (Or.inl rfl)
  | _ => cases h

theorem History.reserved (h : graph.History given) : graph.Reserved := by
  induction h with
  | empty => exact ⟨nofun, nofun, nofun, nofun, nofun⟩
  | loaded hload => exact (loadedFrom_of_ofMessage hload).reserved
  | edited edit _ ih => exact ih.edit edit

/-- Names that were given stay in use. -/
theorem History.mem_names (h : graph.History given) : ∀ name ∈ given, name ∈ graph.names := by
  induction h with
  | empty => exact List.forall_mem_nil _
  | loaded _ => exact List.forall_mem_nil _
  | edited edit _ ih =>
      intro name hname
      rcases List.mem_append.mp hname with hnew | hold
      · exact mem_names_of_given hnew
      · exact mem_names_edit edit (ih name hold)

end

/-! ### Names that are not used -/

/-- A name that differs from all names that a graph uses: those of its declarations and constants,
those that its nodes read, write and have, and those that are defined or given to nodes in graphs
inside its nodes. -/
structure Unused (graph : Graph) (name : String) : Prop where
  inputs : ∀ info ∈ graph.inputs, info.name ≠ name
  outputs : ∀ info ∈ graph.outputs, info.name ≠ name
  valueInfo : ∀ info ∈ graph.valueInfo, info.name ≠ name
  initializers : ∀ init ∈ graph.initializers, init.name ≠ name
  nodes : ∀ node ∈ graph.nodes, ∀ used,
    used ∈ node.inputs ∨ used ∈ node.outputs ∨ node.message.name = some used →
      used ≠ "" → used ≠ name
  inside : ∀ node ∈ graph.nodes, ∀ inner : Onnx.Graph, inner.Within node.message → ∀ used,
    used ∈ inner.definedNames ∨ (∃ held ∈ inner.nodes, held.name = some used) →
      used ≠ "" → used ≠ name

section

variable {graph : Graph} {given : List String}

theorem mem_mentions_of_node {node : Node} {used : String}
    (h : used ∈ node.inputs ∨ used ∈ node.outputs ∨ node.message.name = some used)
    (hused : used ≠ "") : used ∈ node.mentions := by
  simp only [Node.mentions, List.mem_append]
  rcases h with hinput | houtput | hname
  · exact Or.inl hinput
  · exact Or.inr (Or.inl houtput)
  · refine Or.inr (Or.inr (Or.inl (Option.mem_toList.mpr ?_)))
    rw [Node.name?, hname]
    exact Option.mem_filter_iff.mpr ⟨rfl, decide_eq_true hused⟩

theorem mem_mentions_of_within {node : Node} {inner : Onnx.Graph} {used : String}
    (hinner : inner.Within node.message)
    (h : used ∈ inner.definedNames ∨ ∃ held ∈ inner.nodes, held.name = some used) :
    used ∈ node.mentions := by
  simp only [Node.mentions, List.mem_append]
  refine Or.inr (Or.inr (Or.inr (hinner.mem_scopedNames (Onnx.Graph.mem_scopedNames.mpr ?_))))
  refine h.imp_right ?_
  rintro ⟨held, hheld, hname⟩
  exact ⟨held, hheld, Or.inl hname⟩

/-- What is not in use is used nowhere. -/
theorem Reserved.unused (h : graph.Reserved) {name : String} (hname : name ∉ graph.names) :
    graph.Unused name := by
  have hne : ∀ used ∈ graph.names, used ≠ name := by
    rintro used hused rfl
    exact hname hused
  exact {
    inputs := fun info hinfo => hne _ (h.inputs info hinfo)
    outputs := fun info hinfo => hne _ (h.outputs info hinfo)
    valueInfo := fun info hinfo => hne _ (h.valueInfo info hinfo)
    initializers := fun init hinit => hne _ (h.initializers init hinit)
    nodes := fun node hnode used hmem hused =>
      hne used (h.nodes node hnode used (mem_mentions_of_node hmem hused) hused)
    inside := fun node hnode inner hinner used hmem hused =>
      hne used (h.nodes node hnode used (mem_mentions_of_within hinner hmem) hused) }

/-- A new name is the base itself if it is free, and else the first numbered one that is, found among
as many as there are names in use. It is used nowhere in the graph and was not given before. -/
theorem uniqueName_fresh (history : graph.History given) (base : String) :
    let name := (graph.uniqueName base).1
    (base ∉ graph.names → name = base) ∧
      (base ∈ graph.names → ∃ k, 1 ≤ k ∧ k ≤ graph.names.dedup.length ∧
        name = base ++ "_" ++ toString k ∧
        ∀ j, 1 ≤ j → j < k → base ++ "_" ++ toString j ∈ graph.names) ∧
      name ∉ graph.names ∧ graph.Unused name ∧ name ∉ given := by
  intro name
  have hfree : name ∉ graph.names := graph.freshName_not_mem base
  obtain ⟨k, hname, hk, hleast⟩ := graph.freshName_least base
  refine ⟨fun hbase => ?_, fun hbase => ?_, hfree, history.reserved.unused hfree,
    fun hgiven => hfree (history.mem_names name hgiven)⟩
  · cases k with
    | zero => exact hname
    | succ k => exact absurd (hleast 0 (Nat.succ_pos k)) hbase
  · cases k with
    | zero => exact absurd hbase hk
    | succ k =>
        refine ⟨k + 1, Nat.succ_pos k, le_length_of_candidates hleast, hname, fun j hpos hj => ?_⟩
        obtain ⟨j, rfl⟩ := Nat.exists_eq_succ_of_ne_zero (Nat.ne_zero_of_lt hpos)
        exact hleast (j + 1) hj

end

/-- A node with a branch in which a value and a node have names. -/
def branching : Node :=
  let body : Onnx.Graph :=
    { nodes := [{ opType := some "Relu", name := some "t_1", inputs := ["v"], outputs := ["t"] }]
      outputs := [{ name := some "t" }] }
  .ofMessage
    { opType := some "If", inputs := ["c"], outputs := ["r"], attributes := [{ g := some body }] }

theorem uniqueName_fresh_branching :
    let graph := (Edit.uniqueName "t").apply ((Edit.addNode branching).apply {})
    let name := (graph.uniqueName "t").1
    graph.History ["t_2"] ∧ name = "t_3" ∧
      (("t" ∉ graph.names → name = "t") ∧
        ("t" ∈ graph.names → ∃ k, 1 ≤ k ∧ k ≤ graph.names.dedup.length ∧
          name = "t" ++ "_" ++ toString k ∧
          ∀ j, 1 ≤ j → j < k → "t" ++ "_" ++ toString j ∈ graph.names) ∧
        name ∉ graph.names ∧ graph.Unused name ∧ name ∉ ["t_2"]) := by
  intro graph name
  have hgiven : (Edit.uniqueName "t").given ((Edit.addNode branching).apply {}) = ["t_2"] := by
    decide
  have hhistory : graph.History ["t_2"] :=
    hgiven ▸ .edited (.uniqueName "t") (.edited (.addNode branching) .empty)
  exact ⟨hhistory, by decide, uniqueName_fresh hhistory "t"⟩

end Graph

end FixedShape
