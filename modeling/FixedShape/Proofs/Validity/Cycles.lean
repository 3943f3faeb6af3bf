/-
Module: FixedShape.Proofs.Validity.Cycles
Purpose: The search for cycles. The sort leaves over exactly the nodes from which a cycle can be
  reached, and the report names them in the order of the nodes.
-/
import FixedShape.Proofs.Graph.Loading
import FixedShape.Proofs.Validity.Reports
import FixedShape.Proofs.Validity.Sorting
import Mathlib.Data.Fintype.Pigeonhole
import Mathlib.Logic.Relation
import Mathlib.Order.Monotone.Basic

namespace FixedShape

namespace Graph

open Relation

/-! ### Cycles of a relation -/

/-- A way along a relation leads into a cycle. -/
def ReachesCycle (r : NodeId → NodeId → Prop) (id : NodeId) : Prop :=
  ∃ other, ReflTransGen r id other ∧ TransGen r other other

section

variable {r : NodeId → NodeId → Prop} {id : NodeId}

/-- A way into a cycle never ends. -/
theorem ReachesCycle.step (h : ReachesCycle r id) : ∃ next, r id next ∧ ReachesCycle r next := by
  obtain ⟨other, hpath, hcycle⟩ := h
  rcases ReflTransGen.cases_head hpath with rfl | ⟨next, hnext, hrest⟩
  · obtain ⟨next, hnext, hback⟩ := TransGen.head'_iff.mp hcycle
    exact ⟨next, hnext, id, hback, hcycle⟩
  · exact ⟨next, hnext, other, hrest, hcycle⟩

/-- Among finitely many nodes, each of which leads to one of them, every way comes round to a node
that it has passed. -/
theorem reachesCycle_of_leads {left : List NodeId} (leads : ∀ id ∈ left, ∃ next ∈ left, r id next)
    (hid : id ∈ left) : ReachesCycle r id := by
  choose! next hnext hleads using leads
  have hwalk : ∀ count, next^[count] id ∈ left := by
    intro count
    induction count with
    | zero => exact hid
    | succ count ih =>
        rw [Function.iterate_succ_apply']
        exact hnext _ ih
  have hstep : ∀ count, r (next^[count] id) (next^[count + 1] id) := by
    intro count
    rw [Function.iterate_succ_apply']
    exact hleads _ (hwalk count)
  have hpath : ∀ count, ReflTransGen r id (next^[count] id) := by
    intro count
    induction count with
    | zero => exact .refl
    | succ count ih => exact ih.tail (hstep count)
  have hround : ∀ {first second}, first < second →
      next^[first] id = next^[second] id → ReachesCycle r id := by
    intro first second hlt heq
    have hcycle : TransGen r (next^[first] id) (next^[second] id) :=
      Nat.rel_of_forall_rel_succ_of_lt (TransGen r) (fun count => .single (hstep count)) hlt
    rw [← heq] at hcycle
    exact ⟨_, hpath first, hcycle⟩
  obtain ⟨first, second, hne, heq⟩ := Finite.exists_ne_map_eq_of_infinite
    fun count => (⟨next^[count] id, hwalk count⟩ : { other // other ∈ left })
  have heq := congrArg Subtype.val heq
  rcases Nat.lt_or_gt_of_ne hne with hlt | hgt
  · exact hround hlt heq
  · exact hround hgt heq.symm

/-- A relation that leads only downwards has no cycle. -/
theorem not_reachesCycle_of_lt (hlt : ∀ reader awaited, r reader awaited → awaited < reader) :
    ¬ ReachesCycle r id := by
  induction id using Nat.strongRecOn with
  | _ id ih =>
      intro h
      obtain ⟨next, hnext, hcycle⟩ := h.step
      exact ih next (hlt id next hnext) hcycle

end

/-! ### Nodes left over -/

/-- One of the waits of a node is for another. -/
def WaitsFor (waits : List (List NodeId)) (reader awaited : NodeId) : Prop :=
  awaited ∈ waits.getD reader []

section

variable {waits : List (List NodeId)} {done : List NodeId} {state : SortState} {id : NodeId}

/-- No way from a node that was taken leads into a cycle. -/
theorem Grounded.not_reachesCycle (h : Grounded waits done) (hid : id ∈ done) :
    ¬ ReachesCycle (WaitsFor waits) id := by
  induction h generalizing id with
  | nil => cases hid
  | cons awaited _ ih =>
      rcases List.mem_cons.mp hid with rfl | hrest
      · intro hreaches
        obtain ⟨next, hnext, hcycle⟩ := hreaches.step
        exact ih (awaited next hnext) hcycle
      · exact ih hrest

/-- When no node is ready, the nodes taken are those with nothing left to wait for. -/
theorem SortState.Sound.mem_done_iff (h : state.Sound waits done []) (idle : state.ready = []) :
    id ∈ done ↔ id < waits.length ∧ remaining waits done id = 0 := by
  have hready := h.ready id
  rwa [idle, List.append_nil, List.count_nil, Nat.add_zero] at hready

/-- When no node is ready, the counters above zero are those of the nodes that were not taken. -/
theorem SortState.Sound.pending_pos_iff (h : state.Sound waits done []) (idle : state.ready = []) :
    0 < state.pending.getD id 0 ↔ id < waits.length ∧ id ∉ done := by
  by_cases hid : id < waits.length
  · have hpending := h.pending id hid
    rw [List.count_nil, Nat.add_zero] at hpending
    rw [List.getD_eq_getElem?_getD, hpending, Option.getD_some, h.mem_done_iff idle,
      Nat.pos_iff_ne_zero]
    tauto
  · have hnone : state.pending[id]? = none :=
      List.getElem?_eq_none (h.length_pending ▸ Nat.le_of_not_lt hid)
    simp [hnone, hid]

/-- When no node is ready, a node that was not taken waits for one that was not taken either. -/
theorem SortState.Sound.exists_waitsFor (h : state.Sound waits done []) (idle : state.ready = [])
    (hid : id < waits.length) (hleft : id ∉ done) :
    ∃ awaited, awaited ∉ done ∧ WaitsFor waits id awaited := by
  have hwaits : remaining waits done id ≠ 0 :=
    fun hzero => hleft ((h.mem_done_iff idle).mpr ⟨hid, hzero⟩)
  obtain ⟨awaited, hawaited⟩ := List.exists_mem_of_length_pos (Nat.pos_of_ne_zero hwaits)
  obtain ⟨hmem, hundone⟩ := List.mem_filter.mp hawaited
  exact ⟨awaited, of_decide_eq_true hundone, hmem⟩

/-- When no node is ready, a node was not taken exactly if a way leads from it into a cycle. -/
theorem SortState.Sound.left_iff_reachesCycle (h : state.Sound waits done [])
    (idle : state.ready = []) (grounded : Grounded waits done)
    (inside : ∀ reader awaited, WaitsFor waits reader awaited → awaited < waits.length) :
    id < waits.length ∧ id ∉ done ↔ ReachesCycle (WaitsFor waits) id := by
  constructor
  · rintro ⟨hid, hleft⟩
    have hmem : ∀ other, other ∈ (List.range waits.length).filter (· ∉ done) ↔
        other < waits.length ∧ other ∉ done := by simp
    apply reachesCycle_of_leads _ ((hmem id).mpr ⟨hid, hleft⟩)
    intro reader hreader
    obtain ⟨hlt, hundone⟩ := (hmem reader).mp hreader
    obtain ⟨awaited, hawaited, hwaits⟩ := h.exists_waitsFor idle hlt hundone
    exact ⟨awaited, (hmem awaited).mpr ⟨inside reader awaited hwaits, hawaited⟩, hwaits⟩
  · intro hreaches
    obtain ⟨next, hnext, _⟩ := hreaches.step
    refine ⟨?_, fun hdone => grounded.not_reachesCycle hdone hreaches⟩
    by_contra hid
    have hnone : waits[id]? = none := List.getElem?_eq_none (Nat.le_of_not_lt hid)
    simp [WaitsFor, hnone] at hnext

/-- Fewer nodes than there are were taken exactly if one is left over. -/
theorem SortState.Sound.sorted_lt_iff (h : state.Sound waits done []) (idle : state.ready = []) :
    state.sorted < waits.length ↔ ∃ id < waits.length, id ∉ done := by
  have hnodup := h.nodup
  rw [idle, List.append_nil] at hnodup
  have hinside : ∀ id ∈ done, id < waits.length :=
    fun id hid => ((h.ready id).mp (List.mem_append_left _ hid)).1
  rw [h.sorted]
  constructor
  · intro hlt
    by_contra hall
    push Not at hall
    have hsubset : List.range waits.length ⊆ done := fun id hid => hall id (List.mem_range.mp hid)
    have hle := (List.nodup_range.subperm hsubset).length_le
    rw [List.length_range] at hle
    exact Nat.not_le_of_lt hlt hle
  · rintro ⟨id, hid, hleft⟩
    have hsubset : id :: done ⊆ List.range waits.length := by
      intro other hother
      rcases List.mem_cons.mp hother with rfl | hdone
      · exact List.mem_range.mpr hid
      · exact List.mem_range.mpr (hinside other hdone)
    have hle := ((List.nodup_cons.mpr ⟨hleft, hnodup⟩).subperm hsubset).length_le
    rwa [List.length_range] at hle

end

/-! ### Nodes that wait for each other -/

/-- One node waits for another: for the first to write a name that it reads and that is not
given. -/
def Awaits (graph : Graph) (reader awaited : NodeId) : Prop :=
  ∃ node, graph.nodes[reader]? = some node ∧ awaited ∈ graph.awaitedBy node

theorem Awaits.lt_length {graph : Graph} {reader awaited : NodeId}
    (h : graph.Awaits reader awaited) : reader < graph.nodes.length := by
  obtain ⟨_, hnode, _⟩ := h
  exact (List.getElem?_eq_some_iff.mp hnode).1

/-- The sort is given the nodes that each node waits for. -/
theorem waitsFor_eq_awaits (graph : Graph) :
    WaitsFor (graph.nodes.map graph.awaitedBy) = graph.Awaits := by
  funext reader awaited
  unfold WaitsFor Awaits
  rw [List.getD_eq_getElem?_getD, List.getElem?_map]
  cases graph.nodes[reader]? with
  | none => simp
  | some node => simp

/-- The nodes that still wait when the sort ends. -/
def leftOver (graph : Graph) : List NodeId :=
  (List.range graph.nodes.length).filter fun id => 0 < graph.topologicalSort.pending.getD id 0

theorem pairwise_leftOver (graph : Graph) : graph.leftOver.Pairwise (· < ·) :=
  List.pairwise_lt_range.filter _

/-- If all nodes waited for are there, the nodes left over are those from which a cycle can be
reached, and they are reported together. -/
theorem leftOver_spec {graph : Graph}
    (inside : ∀ reader awaited, graph.Awaits reader awaited → awaited < graph.nodes.length) :
    (∀ id, id ∈ graph.leftOver ↔ ReachesCycle graph.Awaits id) ∧
      graph.cycleViolations =
        if graph.leftOver = [] then [] else [.cycle (graph.leftOver.map graph.nodeLabel)] := by
  obtain ⟨visited, hvisits, hsound, hgrounded⟩ := topologicalSort_visits graph
  have hidle := hvisits.ready_eq_nil
  have hlength : (graph.nodes.map graph.awaitedBy).length = graph.nodes.length := List.length_map _
  have hleft : ∀ id, id ∈ graph.leftOver ↔ id < graph.nodes.length ∧ id ∉ visited.reverse := by
    intro id
    rw [leftOver, List.mem_filter, List.mem_range, decide_eq_true_eq, hsound.pending_pos_iff hidle,
      hlength, and_self_left]
  have hsorted := hsound.sorted_lt_iff hidle
  rw [hlength] at hsorted
  constructor
  · intro id
    rw [← waitsFor_eq_awaits, ← hlength] at inside
    rw [hleft, ← waitsFor_eq_awaits, ← hlength]
    exact hsound.left_iff_reachesCycle hidle hgrounded inside
  · unfold cycleViolations
    by_cases hlt : graph.topologicalSort.sorted < graph.nodes.length
    · obtain ⟨id, hid, hundone⟩ := hsorted.mp hlt
      rw [if_pos hlt, if_neg (List.ne_nil_of_mem ((hleft id).mpr ⟨hid, hundone⟩))]
      rfl
    · have hnone : graph.leftOver = [] := List.eq_nil_iff_forall_not_mem.mpr
        fun id hid => hlt (hsorted.mpr ⟨id, (hleft id).mp hid⟩)
      rw [if_neg hlt, if_pos hnone]

/-- If every node waits only for nodes before it, the sort leaves no node over. -/
theorem cycleViolations_eq_nil_of_awaits_lt {graph : Graph}
    (earlier : ∀ reader awaited, graph.Awaits reader awaited → awaited < reader) :
    graph.cycleViolations = [] := by
  have hinside : ∀ reader awaited, graph.Awaits reader awaited → awaited < graph.nodes.length :=
    fun reader awaited hawaits => Nat.lt_trans (earlier reader awaited hawaits) hawaits.lt_length
  obtain ⟨hleft, heq⟩ := leftOver_spec hinside
  have hnone : graph.leftOver = [] := List.eq_nil_iff_forall_not_mem.mpr
    fun id hid => not_reachesCycle_of_lt earlier ((hleft id).mp hid)
  rw [heq, if_pos hnone]

/-- If names have single sources, a node waits only for nodes before it, as far as what it reads is
given, written before it or not written at all. -/
theorem awaits_lt_of_reads {graph : Graph} (indexed : graph.Indexed)
    (single : ∀ node ∈ graph.nodes, ∀ name, node.Writes name →
      (graph.nodes.flatMap Node.outputs).count name = 1 ∧ ¬ graph.Given name)
    {reader awaited : NodeId} (h : graph.Awaits reader awaited)
    (reads : ∀ node, graph.nodes[reader]? = some node → ∀ name ∈ node.dependencies,
      graph.Given name ∨ (∃ before < reader, ∃ writer : Node,
        graph.nodes[before]? = some writer ∧ writer.Writes name) ∨
      ∀ node ∈ graph.nodes, ¬ node.Writes name) : awaited < reader := by
  rcases h with ⟨node, hnode, hawaited⟩
  rcases List.mem_filterMap.mp hawaited with ⟨name, hname, hfirst⟩
  unfold awaited? at hfirst
  split at hfirst
  · cases hfirst
  · next hgiven =>
      rw [← given_iff_isSome] at hgiven
      rcases reads node hnode name hname with
        hnameGiven | ⟨before, hbefore, writer, hwriter, hwrites⟩ | hunwritten
      · exact absurd hnameGiven hgiven
      · have hlength : (graph.producers name).length = 1 := by
          rw [indexed.length_producers hwrites.1]
          exact (single writer (List.mem_of_getElem? hwriter) name hwrites).1
        have hmem : before ∈ graph.producers name :=
          indexed.mem_producers.mpr ⟨writer, hwriter, hwrites⟩
        rcases List.length_eq_one_iff.mp hlength with ⟨only, honly⟩
        rw [honly] at hmem hfirst
        cases List.mem_singleton.mp hmem
        cases hfirst
        exact hbefore
      · rw [indexed.producers_eq_nil.mpr hunwritten] at hfirst
        cases hfirst

/-- In an ordered graph whose names have single sources every node waits only for nodes before
it. -/
theorem awaits_lt {graph : Graph} (indexed : graph.Indexed) (ordered : graph.Ordered)
    (single : ∀ node ∈ graph.nodes, ∀ name, node.Writes name →
      (graph.nodes.flatMap Node.outputs).count name = 1 ∧ ¬ graph.Given name)
    {reader awaited : NodeId} (h : graph.Awaits reader awaited) : awaited < reader := by
  apply awaits_lt_of_reads indexed single h
  intro node hnode name hname
  exact (ordered reader node hnode name hname).imp_right Or.inl

/-! ### Dependencies of loaded nodes -/

/-- One node depends on another: it reads a name, itself or in a subgraph, which is not given and
which the other is the first to write. -/
def DependsOn (graph : Graph) (reader writer : NodeId) : Prop :=
  ∃ node name, graph.nodes[reader]? = some node ∧ (name ∈ node.inputs ∨ name ∈ node.captures) ∧
    ¬ graph.Given name ∧ FirstWrites graph.nodes name writer

section

variable {message : Onnx.Graph} {graph : Graph}

theorem LoadedFrom.awaited?_eq_some (h : graph.LoadedFrom message) {name : String}
    {writer : NodeId} :
    graph.awaited? name = some writer ↔
      ¬ graph.Given name ∧ FirstWrites graph.nodes name writer := by
  rw [given_iff_isSome, ← head?_writers, ← h.producers_eq]
  unfold awaited?
  split
  · next hgiven => simp [hgiven]
  · next hgiven => simp [hgiven]

/-- A node of a loaded graph waits for those that it depends on. -/
theorem LoadedFrom.awaits_eq_dependsOn (h : graph.LoadedFrom message) :
    graph.Awaits = graph.DependsOn := by
  funext reader writer
  refine propext ⟨?_, ?_⟩
  · rintro ⟨node, hnode, hawaited⟩
    obtain ⟨name, hname, hfirst⟩ := List.mem_filterMap.mp hawaited
    refine ⟨node, name, hnode, ?_, h.awaited?_eq_some.mp hfirst⟩
    exact (List.mem_append.mp hname).imp_left fun hinput => (List.mem_filter.mp hinput).1
  · rintro ⟨node, name, hnode, hread, hfirst⟩
    refine ⟨node, hnode, List.mem_filterMap.mpr ⟨name, ?_, h.awaited?_eq_some.mpr hfirst⟩⟩
    obtain ⟨_, _, hne, _⟩ := hfirst.2.writes
    refine List.mem_append.mpr (hread.imp_left fun hinput => ?_)
    exact List.mem_filter.mpr ⟨hinput, decide_eq_true hne⟩

theorem DependsOn.lt_length {reader writer : NodeId} (h : graph.DependsOn reader writer) :
    writer < graph.nodes.length := by
  obtain ⟨_, _, _, _, _, hfirst⟩ := h
  obtain ⟨_, hwriter, _⟩ := hfirst.writes
  exact (List.getElem?_eq_some_iff.mp hwriter).1

/-- The report on a loaded graph has a cycle exactly if nodes depend on each other. It has one then,
with the labels of the nodes from which a cycle can be reached, in the order of the nodes. The
sort behind it takes no node twice and counts no read down that was not waiting. -/
theorem cycles_reported (loaded : ofMessage message = .ok graph) (options : ValidateOptions) :
    ((∃ labels, .cycle labels ∈ graph.reported options) ↔
        ∃ id, TransGen graph.DependsOn id id) ∧
      (∃ left : List NodeId, left.Pairwise (· < ·) ∧
        (∀ id, id ∈ left ↔ ReachesCycle graph.DependsOn id) ∧
        (graph.reported options).filter (·.check = .cycles) =
          if left = [] then [] else [.cycle (left.map graph.nodeLabel)]) ∧
      let waits := graph.nodes.map graph.awaitedBy
      ∃ visited, visited.Nodup ∧ Visits waits (.start waits) visited graph.topologicalSort := by
  have hloaded := loadedFrom_of_ofMessage loaded
  have hinside : ∀ reader awaited, graph.Awaits reader awaited →
      awaited < graph.nodes.length := by
    rw [hloaded.awaits_eq_dependsOn]
    exact fun _ _ => DependsOn.lt_length
  obtain ⟨hleft, hfound⟩ := leftOver_spec hinside
  rw [hloaded.awaits_eq_dependsOn] at hleft
  obtain ⟨visited, hvisits, hsound, _⟩ := topologicalSort_visits graph
  refine ⟨?_, ⟨graph.leftOver, graph.pairwise_leftOver, hleft, ?_⟩, visited, ?_, hvisits⟩
  · have hreported : ∀ labels, .cycle labels ∈ graph.reported options ↔
        .cycle labels ∈ graph.cycleViolations := fun labels => mem_reported
    simp only [hreported, hfound]
    constructor
    · rintro ⟨labels, hlabels⟩
      split at hlabels
      · cases hlabels
      · next hsome =>
          obtain ⟨id, hid⟩ := List.exists_mem_of_ne_nil _ hsome
          obtain ⟨other, _, hcycle⟩ := (hleft id).mp hid
          exact ⟨other, hcycle⟩
    · rintro ⟨id, hcycle⟩
      have hid : id ∈ graph.leftOver := (hleft id).mpr ⟨id, .refl, hcycle⟩
      rw [if_neg (List.ne_nil_of_mem hid)]
      exact ⟨_, List.mem_singleton_self _⟩
  · exact (filter_reported_eq_found options graph .cycles).trans hfound
  · have hnodup := hsound.nodup
    rw [hvisits.ready_eq_nil, List.append_nil, List.nodup_reverse] at hnodup
    exact hnodup

end

/-- Two nodes read each other's values, one of them twice, and a third captures one of these. The
fourth is left out: it reads a constant, although it writes the name itself. -/
theorem cycles_reported_captured :
    let body : Onnx.Graph :=
      { nodes := [{ opType := some "Neg", inputs := ["b"], outputs := ["z"] }]
        outputs := [{ name := some "z" }] }
    let branch : Onnx.Node :=
      { opType := some "If", inputs := ["x"], outputs := ["c"]
        attributes := [{ name := some "then_branch", g := some body }] }
    let message : Onnx.Graph :=
      { nodes :=
          [{ opType := some "Add", inputs := ["b", "x"], outputs := ["a"] },
            { opType := some "Mul", inputs := ["a", "a"], outputs := ["b"] }, branch,
            { opType := some "Abs", inputs := ["w"], outputs := ["w"] }]
        inputs := [{ name := some "x" }], initializers := [{ name := some "w" }] }
    ∃ graph, ofMessage message = .ok graph ∧
      (graph.reported {}).filter (·.check = .cycles) = [.cycle ["Add #0", "Mul #1", "If #2"]] ∧
      ∃ id, TransGen graph.DependsOn id id := by
  intro body branch message
  have h := (@cycles_reported message _ rfl {}).1
  exact ⟨_, rfl, by decide, h.mp ⟨["Add #0", "Mul #1", "If #2"], by decide⟩⟩

end Graph

end FixedShape
