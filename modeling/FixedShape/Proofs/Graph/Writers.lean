/-
Module: FixedShape.Proofs.Graph.Writers
Purpose: The producer index against the nodes. A node writes a name once for each of its output
  slots of that name, and an indexed graph lists for each name exactly these slots.
-/
import FixedShape.Graph.Basic
import Mathlib.Data.List.Induction
import Mathlib.Data.List.Perm.Basic

namespace FixedShape

namespace ProducerIndex

@[simp] theorem get_nil (name : String) : get [] name = [] := rfl

/-- The first entry of a name decides. -/
theorem get_cons (key : String) (ids : List NodeId) (rest : ProducerIndex) (name : String) :
    get ((key, ids) :: rest) name = if name = key then ids else get rest name := by
  by_cases h : name = key
  · simp [get, h]
  · simp [get, List.lookup_cons, beq_false_of_ne h, h]

/-- A node pushed under a name is listed last under that name, and nowhere else. -/
@[simp] theorem get_push (index : ProducerIndex) (name other : String) (id : NodeId) :
    (index.push name id).get other =
      if other = name then index.get name ++ [id] else index.get other := by
  induction index with
  | nil => simp [push, get_cons]
  | cons entry rest ih =>
      rcases entry with ⟨key, ids⟩
      by_cases hkey : key = name
      · subst hkey
        by_cases h : other = key <;> simp [push, get_cons, h]
      · by_cases h : other = key
        · simp [push, get_cons, hkey, h]
        · simp [push, get_cons, hkey, Ne.symm hkey, h, ih]

/-- A node taken away from a name is no longer listed under it; other names keep their nodes. -/
@[simp] theorem get_remove (index : ProducerIndex) (name other : String) (id : NodeId) :
    (index.remove name id).get other =
      if other = name then (index.get name).filter (· ≠ id) else index.get other := by
  induction index with
  | nil => simp [remove]
  | cons entry rest ih =>
      rcases entry with ⟨key, ids⟩
      have hremove : remove ((key, ids) :: rest) name id =
          (key, if key = name then ids.filter (· ≠ id) else ids) :: remove rest name id := by
        by_cases hkey : key = name <;> simp [remove, hkey]
      rw [hremove, get_cons, get_cons, get_cons, ih]
      by_cases h : other = key
      · subst h
        by_cases hname : other = name <;> simp [hname]
      · by_cases hname : other = name
        · subst hname
          simp [h]
        · simp [h, hname]

/-- A node pushed under several names is listed under each as often as the name occurs. -/
theorem get_foldl_push (names : List String) (index : ProducerIndex) (name : String)
    (id : NodeId) :
    (names.foldl (·.push · id) index).get name =
      index.get name ++ List.replicate (names.count name) id := by
  induction names generalizing index with
  | nil => simp
  | cons first rest ih =>
      rw [List.foldl_cons, ih, get_push]
      by_cases h : name = first
      · subst h
        simp [List.replicate_succ, List.append_assoc]
      · simp [h, Ne.symm h]

/-- Pushing a node adds one entry. -/
theorem count_get_push (index : ProducerIndex) (name other : String) (id reader : NodeId) :
    ((index.push name id).get other).count reader =
      (index.get other).count reader + if other = name ∧ reader = id then 1 else 0 := by
  rw [get_push]
  by_cases hname : other = name
  · subst hname
    by_cases hid : reader = id
    · simp [hid]
    · simp [hid, Ne.symm hid]
  · simp [hname]

/-- Taking a node away takes all its entries under a name. -/
theorem count_get_remove (index : ProducerIndex) (name other : String) (id reader : NodeId) :
    ((index.remove name id).get other).count reader =
      if other = name ∧ reader = id then 0 else (index.get other).count reader := by
  rw [get_remove]
  by_cases hname : other = name
  · subst hname
    by_cases hid : reader = id
    · simp [hid, List.count_eq_zero]
    · simp [hid, List.count_filter]
  · simp [hname]

end ProducerIndex

namespace Node

/-- A node writes the names of its outputs. An empty one stands for a value left out. -/
def Writes (node : Node) (name : String) : Prop := name ≠ "" ∧ name ∈ node.outputs

instance (node : Node) (name : String) : Decidable (node.Writes name) :=
  inferInstanceAs (Decidable (_ ∧ _))

/-- The number of output slots in which a node writes a name. -/
def slots (node : Node) (name : String) : Nat := (node.outputs.filter (· ≠ "")).count name

theorem slots_pos_iff {node : Node} {name : String} : 0 < node.slots name ↔ node.Writes name := by
  simp [slots, Writes, List.count_pos_iff, and_comm]

theorem slots_of_ne {node : Node} {name : String} (h : name ≠ "") :
    node.slots name = node.outputs.count name := by
  rw [slots, List.count_filter]
  simpa using h

/-- The empty name is never written. -/
theorem slots_empty (node : Node) : node.slots "" = 0 := by
  simp [slots, List.count_eq_zero]

end Node

/-- The nodes that write a name, with their positions, once for each slot. -/
def writers (nodes : List Node) (name : String) : List NodeId :=
  nodes.zipIdx.flatMap fun (node, id) => List.replicate (node.slots name) id

theorem writers_append_singleton (nodes : List Node) (node : Node) (name : String) :
    writers (nodes ++ [node]) name =
      writers nodes name ++ List.replicate (node.slots name) nodes.length := by
  simp [writers, List.zipIdx_append]

/-- The number of output slots in which the node at a position writes a name. -/
def slotsAt (nodes : List Node) (id : NodeId) (name : String) : Nat :=
  (nodes[id]?.map (·.slots name)).getD 0

theorem slotsAt_of_getElem? {nodes : List Node} {id : NodeId} {node : Node}
    (h : nodes[id]? = some node) (name : String) : slotsAt nodes id name = node.slots name := by
  rw [slotsAt, h]
  rfl

theorem slotsAt_append_singleton (nodes : List Node) (node : Node) (id : NodeId) (name : String) :
    slotsAt (nodes ++ [node]) id name =
      slotsAt nodes id name + if id = nodes.length then node.slots name else 0 := by
  unfold slotsAt
  rcases Nat.lt_trichotomy id nodes.length with hlt | rfl | hgt
  · rw [List.getElem?_append_left hlt, if_neg (Nat.ne_of_lt hlt), Nat.add_zero]
  · simp
  · rw [List.getElem?_eq_none (by simp; omega), List.getElem?_eq_none (Nat.le_of_lt hgt),
      if_neg (Nat.ne_of_gt hgt)]
    rfl

theorem slotsAt_set {nodes : List Node} {id : NodeId} (h : id < nodes.length) (node : Node)
    (other : NodeId) (name : String) :
    slotsAt (nodes.set id node) other name =
      if other = id then node.slots name else slotsAt nodes other name := by
  unfold slotsAt
  by_cases hid : other = id
  · subst hid
    rw [List.getElem?_set_self h, if_pos rfl]
    rfl
  · rw [List.getElem?_set_ne (Ne.symm hid), if_neg hid]

/-- A node is listed among the writers of a name once for each slot. -/
theorem count_writers (nodes : List Node) (name : String) (id : NodeId) :
    (writers nodes name).count id = slotsAt nodes id name := by
  induction nodes using List.reverseRecOn with
  | nil => rfl
  | append_singleton nodes node ih =>
      rw [writers_append_singleton, List.count_append, ih, slotsAt_append_singleton,
        List.count_replicate]
      by_cases hid : id = nodes.length
      · simp [hid]
      · simp [hid, Ne.symm hid]

/-- A position has a slot of a name exactly if the node there writes the name. -/
theorem slotsAt_pos_iff {nodes : List Node} {id : NodeId} {name : String} :
    0 < slotsAt nodes id name ↔ ∃ node, nodes[id]? = some node ∧ node.Writes name := by
  unfold slotsAt
  cases nodes[id]? with
  | none => simp
  | some node => simp [Node.slots_pos_iff]

/-- The writers of a name are the positions of the nodes that write it. -/
theorem mem_writers {nodes : List Node} {name : String} {id : NodeId} :
    id ∈ writers nodes name ↔ ∃ node, nodes[id]? = some node ∧ node.Writes name := by
  rw [← List.count_pos_iff, count_writers, slotsAt_pos_iff]

/-- Writers are listed in the order of the nodes. -/
theorem pairwise_writers (nodes : List Node) (name : String) :
    (writers nodes name).Pairwise (· ≤ ·) := by
  induction nodes using List.reverseRecOn with
  | nil => exact .nil
  | append_singleton nodes node ih =>
      rw [writers_append_singleton, List.pairwise_append]
      refine ⟨ih, List.pairwise_replicate.mpr (Or.inr (Nat.le_refl _)), ?_⟩
      intro id hid last hlast
      obtain ⟨_, hnode, _⟩ := mem_writers.mp hid
      rw [List.eq_of_mem_replicate hlast]
      exact Nat.le_of_lt (List.getElem?_eq_some_iff.mp hnode).1

/-- The first node to write a name. -/
structure FirstWrites (nodes : List Node) (name : String) (id : NodeId) : Prop where
  writes : ∃ node, nodes[id]? = some node ∧ node.Writes name
  first : ∀ before < id, ∀ node, nodes[before]? = some node → ¬ node.Writes name

/-- The list of writers begins with the first. -/
theorem head?_writers {nodes : List Node} {name : String} {id : NodeId} :
    (writers nodes name).head? = some id ↔ FirstWrites nodes name id := by
  have hmem : ∀ {other}, other ∈ writers nodes name ↔
      ∃ node, nodes[other]? = some node ∧ node.Writes name := mem_writers
  have hsorted := pairwise_writers nodes name
  cases hwriters : writers nodes name with
  | nil =>
      rw [hwriters] at hmem
      constructor
      · intro hhead
        cases hhead
      · exact fun hfirst => absurd (hmem.mpr hfirst.writes) List.not_mem_nil
  | cons least rest =>
      rw [hwriters] at hmem hsorted
      have hleast : ∀ other ∈ least :: rest, least ≤ other := by
        intro other hother
        rcases List.mem_cons.mp hother with rfl | hrest
        · exact Nat.le_refl other
        · exact (List.pairwise_cons.mp hsorted).1 other hrest
      rw [List.head?_cons, Option.some.injEq]
      constructor
      · rintro rfl
        refine ⟨hmem.mp List.mem_cons_self, fun before hbefore node hnode hwrites => ?_⟩
        exact Nat.not_le_of_lt hbefore (hleast before (hmem.mpr ⟨node, hnode, hwrites⟩))
      · intro hfirst
        have hle := hleast id (hmem.mpr hfirst.writes)
        rcases Nat.eq_or_lt_of_le hle with heq | hlt
        · exact heq
        · obtain ⟨node, hnode, hwrites⟩ := hmem.mp List.mem_cons_self
          exact absurd hwrites (hfirst.first least hlt node hnode)

/-- A name has a writer for each output slot that it fills in the graph. -/
theorem length_writers {nodes : List Node} {name : String} (h : name ≠ "") :
    (writers nodes name).length = (nodes.flatMap Node.outputs).count name := by
  induction nodes using List.reverseRecOn with
  | nil => rfl
  | append_singleton nodes node ih =>
      simp [writers_append_singleton, ih, Node.slots_of_ne h]

namespace Graph

/-! ### Nodes with their positions -/

theorem map_indexedNodes {α : Type} (f : Node → α) (graph : Graph) :
    (graph.indexedNodes.map fun (_, node) => f node) = graph.nodes.map f := by
  unfold indexedNodes
  rw [List.map_map]
  conv_rhs => rw [← List.zipIdx_map_fst 0 graph.nodes, List.map_map]
  rfl

theorem getElem?_indexedNodes {graph : Graph} {position : Nat} {entry : NodeId × Node} :
    graph.indexedNodes[position]? = some entry ↔
      entry.1 = position ∧ graph.nodes[position]? = some entry.2 := by
  rcases entry with ⟨id, node⟩
  simp only [indexedNodes, List.getElem?_map, List.getElem?_zipIdx, Option.map_map,
    Option.map_eq_some_iff, Function.comp_apply, Prod.mk.injEq, Nat.zero_add]
  constructor
  · rintro ⟨other, hother, hid, rfl⟩
    exact ⟨hid.symm, hother⟩
  · rintro ⟨hid, hnode⟩
    exact ⟨node, hnode, hid.symm, rfl⟩

theorem mem_indexedNodes {graph : Graph} {id : NodeId} {node : Node} :
    (id, node) ∈ graph.indexedNodes ↔ graph.nodes[id]? = some node := by
  rw [List.mem_iff_getElem?]
  simp only [getElem?_indexedNodes, exists_eq_left']

/-! ### The index -/

/-- The index of a graph lists for every name the nodes that write it, once for each slot. -/
def Indexed (graph : Graph) : Prop :=
  ∀ name, (graph.producers name).Perm (writers graph.nodes name)

section

variable {graph : Graph}

theorem indexed_iff_count :
    graph.Indexed ↔ ∀ name id, (graph.producers name).count id = slotsAt graph.nodes id name := by
  unfold Indexed
  simp only [List.perm_iff_count, count_writers]

theorem Indexed.mem_producers (h : graph.Indexed) {name : String} {id : NodeId} :
    id ∈ graph.producers name ↔ ∃ node, graph.nodes[id]? = some node ∧ node.Writes name := by
  rw [(h name).mem_iff, mem_writers]

/-- A name has no producer exactly if no node writes it. -/
theorem Indexed.producers_eq_nil (h : graph.Indexed) {name : String} :
    graph.producers name = [] ↔ ∀ node ∈ graph.nodes, ¬ node.Writes name := by
  rw [List.eq_nil_iff_forall_not_mem]
  constructor
  · intro hnone node hnode hwrites
    rcases List.getElem?_of_mem hnode with ⟨id, hid⟩
    exact hnone id (h.mem_producers.mpr ⟨node, hid, hwrites⟩)
  · intro hnone id hid
    rcases h.mem_producers.mp hid with ⟨node, hnode, hwrites⟩
    exact hnone node (List.mem_of_getElem? hnode) hwrites

theorem Indexed.length_producers (h : graph.Indexed) {name : String} (hname : name ≠ "") :
    (graph.producers name).length = (graph.nodes.flatMap Node.outputs).count name := by
  rw [(h name).length_eq, length_writers hname]

end

end Graph

end FixedShape
