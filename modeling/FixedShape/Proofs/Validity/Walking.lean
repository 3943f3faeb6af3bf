/-
Module: FixedShape.Proofs.Validity.Walking
Purpose: The walk backwards from the outputs. It meets exactly the names that the outputs need, and
  each node's reads are pushed once, so that its fuel always suffices. The inputs reported as unused
  are those that it does not meet.
-/
import FixedShape.Proofs.Graph.Loading
import FixedShape.Proofs.Validity.Reports

namespace FixedShape

namespace Graph

/-- The reads of all nodes that are not visited. -/
def unread (graph : Graph) (visited : List NodeId) : List String :=
  (graph.nodes.zipIdx.filter (·.2 ∉ visited)).flatMap (·.1.dependencies)

/-- Of the nodes from a position on, a visited one takes its reads off the unread ones. -/
theorem length_unread_zipIdx {visited : List NodeId} {id : NodeId} {node : Node}
    (hid : id ∉ visited) {nodes : List Node} {start : Nat} (hstart : start ≤ id)
    (hnode : nodes[id - start]? = some node) :
    (((nodes.zipIdx start).filter (·.2 ∉ visited)).flatMap (·.1.dependencies)).length =
      node.dependencies.length +
        (((nodes.zipIdx start).filter (·.2 ∉ id :: visited)).flatMap
          (·.1.dependencies)).length := by
  induction nodes generalizing start with
  | nil => cases hnode
  | cons first rest ih =>
      rw [List.zipIdx_cons]
      rcases Nat.eq_or_lt_of_le hstart with heq | hlt
      · subst heq
        rw [Nat.sub_self] at hnode
        cases hnode
        have hrest : (rest.zipIdx (start + 1)).filter (·.2 ∉ start :: visited) =
            (rest.zipIdx (start + 1)).filter (·.2 ∉ visited) := by
          apply List.filter_congr
          intro entry hentry
          have hne : entry.2 ≠ start := Nat.ne_of_gt (List.le_snd_of_mem_zipIdx hentry)
          simp [hne]
        rw [List.filter_cons_of_pos (by simpa using hid), List.filter_cons_of_neg (by simp), hrest]
        simp
      · have hne : start ≠ id := Nat.ne_of_lt hlt
        have hstep : id - start = id - (start + 1) + 1 :=
          (Nat.sub_add_cancel (Nat.sub_pos_of_lt hlt)).symm
        rw [hstep, List.getElem?_cons_succ] at hnode
        have hrest := @ih (start + 1) hlt hnode
        by_cases hvisited : start ∈ visited
        · rw [List.filter_cons_of_neg (by simpa using hvisited),
            List.filter_cons_of_neg (by simp [hvisited]), hrest]
        · rw [List.filter_cons_of_pos (by simpa using hvisited),
            List.filter_cons_of_pos (by simp [hvisited, hne])]
          simp only [List.flatMap_cons, List.length_append, hrest]
          omega

/-- Visiting a node takes its reads off the unread ones. -/
theorem length_unread {graph : Graph} {visited : List NodeId} {id : NodeId} {node : Node}
    (hnode : graph.nodes[id]? = some node) (hid : id ∉ visited) :
    (graph.unread visited).length =
      node.dependencies.length + (graph.unread (id :: visited)).length :=
  length_unread_zipIdx hid (Nat.zero_le id) hnode

namespace WalkState

/-- What a walk has met so far is needed, and what its visited nodes read is met. -/
structure Covered (graph : Graph) (state : WalkState) : Prop where
  needed : ∀ name ∈ state.used ++ state.stack, graph.Needed name
  outputs : ∀ info ∈ graph.outputs, info.name ∈ state.used ++ state.stack
  visited : ∀ id ∈ state.visited, ∀ node, graph.nodes[id]? = some node →
    ∀ name ∈ node.dependencies, name ∈ state.used ++ state.stack

/-- Between two names the writers of all names in use are visited. -/
structure Sound (graph : Graph) (state : WalkState) : Prop extends state.Covered graph where
  producers : ∀ name ∈ state.used, ∀ id ∈ graph.producers name, id ∈ state.visited

variable {graph : Graph} {state : WalkState}

/-- The number of names that a walk may still look at. -/
def load (graph : Graph) (state : WalkState) : Nat :=
  state.stack.length + (graph.unread state.visited).length

/-- What visiting a node does: nothing to one visited before, and to another all at once. -/
theorem visit_cases (graph : Graph) (state : WalkState) (id : NodeId) :
    (id ∈ state.visited ∧ state.visit graph id = state) ∨
      (id ∉ state.visited ∧ graph.nodes[id]? = none ∧
        state.visit graph id = { state with visited := id :: state.visited }) ∨
      (id ∉ state.visited ∧ ∃ node, graph.nodes[id]? = some node ∧
        state.visit graph id =
          { state with
            visited := id :: state.visited
            stack := node.dependencies ++ state.stack }) := by
  by_cases hid : id ∈ state.visited
  · exact Or.inl ⟨hid, by simp [visit, hid]⟩
  · cases hnode : graph.nodes[id]? with
    | none => exact Or.inr (Or.inl ⟨hid, rfl, by simp [visit, hid, node?, hnode]⟩)
    | some node => exact Or.inr (Or.inr ⟨hid, node, rfl, by simp [visit, hid, node?, hnode]⟩)

theorem covered_visit (h : state.Covered graph) {id : NodeId}
    (hneeded : ∀ node, graph.nodes[id]? = some node → ∀ name ∈ node.dependencies,
      graph.Needed name) : (state.visit graph id).Covered graph := by
  rcases visit_cases graph state id with ⟨_, heq⟩ | ⟨_, hnone, heq⟩ | ⟨_, node, hnode, heq⟩
  · rw [heq]
    exact h
  · rw [heq]
    refine ⟨h.needed, h.outputs, fun other hother reader hreader => ?_⟩
    rcases List.mem_cons.mp hother with rfl | hold
    · rw [hnone] at hreader
      cases hreader
    · exact h.visited other hold reader hreader
  · rw [heq]
    have hmore : ∀ name, name ∈ state.used ++ state.stack →
        name ∈ state.used ++ (node.dependencies ++ state.stack) := by
      intro name hname
      simp only [List.mem_append] at hname ⊢
      tauto
    refine ⟨fun name hname => ?_, fun info hinfo => hmore _ (h.outputs info hinfo), ?_⟩
    · simp only [List.mem_append] at hname
      rcases hname with hused | hread | hstack
      · exact h.needed name (List.mem_append_left _ hused)
      · exact hneeded node hnode name hread
      · exact h.needed name (List.mem_append_right _ hstack)
    · intro other hother reader hreader name hname
      rcases List.mem_cons.mp hother with rfl | hold
      · rw [hnode] at hreader
        cases hreader
        exact List.mem_append_right _ (List.mem_append_left _ hname)
      · exact hmore name (h.visited other hold reader hreader name hname)

/-- Visiting moves reads from the unread ones to the stack. -/
theorem load_visit (graph : Graph) (state : WalkState) (id : NodeId) :
    load graph (state.visit graph id) = load graph state := by
  rcases visit_cases graph state id with ⟨_, heq⟩ | ⟨_, hnone, heq⟩ | ⟨hid, node, hnode, heq⟩
  · rw [heq]
  · have hsame : graph.unread (id :: state.visited) = graph.unread state.visited := by
      unfold unread
      refine congrArg (List.flatMap _) (List.filter_congr fun entry hentry => ?_)
      have hne : entry.2 ≠ id := by
        rintro rfl
        rw [List.mem_zipIdx_iff_getElem?.mp hentry] at hnone
        cases hnone
      simp [hne]
    rw [heq]
    simp only [load, hsame]
  · rw [heq]
    simp only [load, length_unread hnode hid, List.length_append]
    omega

theorem used_visit (graph : Graph) (state : WalkState) (id : NodeId) :
    (state.visit graph id).used = state.used := by
  rcases visit_cases graph state id with ⟨_, heq⟩ | ⟨_, _, heq⟩ | ⟨_, _, _, heq⟩ <;> rw [heq]

theorem mem_visited_visit (graph : Graph) (state : WalkState) (id : NodeId) {other : NodeId}
    (h : other = id ∨ other ∈ state.visited) : other ∈ (state.visit graph id).visited := by
  rcases visit_cases graph state id with ⟨hid, heq⟩ | ⟨_, _, heq⟩ | ⟨_, _, _, heq⟩
  · rw [heq]
    rcases h with rfl | hold
    · exact hid
    · exact hold
  · rw [heq]
    exact List.mem_cons.mpr h
  · rw [heq]
    exact List.mem_cons.mpr h

/-! ### All writers of a name -/

theorem covered_foldl_visit {ids : List NodeId} (h : state.Covered graph)
    (hneeded : ∀ id ∈ ids, ∀ node, graph.nodes[id]? = some node → ∀ name ∈ node.dependencies,
      graph.Needed name) : (ids.foldl (visit graph) state).Covered graph := by
  induction ids generalizing state with
  | nil => exact h
  | cons first rest ih =>
      apply ih (covered_visit h (hneeded first List.mem_cons_self))
      intro id hid
      exact hneeded id (List.mem_cons_of_mem first hid)

theorem load_foldl_visit (graph : Graph) (ids : List NodeId) (state : WalkState) :
    load graph (ids.foldl (visit graph) state) = load graph state := by
  induction ids generalizing state with
  | nil => rfl
  | cons first rest ih => rw [List.foldl_cons, ih, load_visit]

theorem used_foldl_visit (graph : Graph) (ids : List NodeId) (state : WalkState) :
    (ids.foldl (visit graph) state).used = state.used := by
  induction ids generalizing state with
  | nil => rfl
  | cons first rest ih => rw [List.foldl_cons, ih, used_visit]

theorem mem_visited_foldl_visit {ids : List NodeId} {id : NodeId}
    (h : id ∈ ids ∨ id ∈ state.visited) : id ∈ (ids.foldl (visit graph) state).visited := by
  induction ids generalizing state with
  | nil => exact h.resolve_left List.not_mem_nil
  | cons first rest ih =>
      rw [List.mem_cons, or_assoc] at h
      apply ih
      rcases h with hfirst | hrest | hold
      · exact Or.inr (mem_visited_visit graph state first (Or.inl hfirst))
      · exact Or.inl hrest
      · exact Or.inr (mem_visited_visit graph state first (Or.inr hold))

/-! ### The next name -/

/-- Names may move from the stack to the used ones. -/
theorem Covered.congr (h : state.Covered graph) {used stack : List String}
    (hnames : ∀ name, name ∈ used ++ stack ↔ name ∈ state.used ++ state.stack) :
    Covered graph { state with used, stack } where
  needed name hname := h.needed name ((hnames name).mp hname)
  outputs info hinfo := (hnames info.name).mpr (h.outputs info hinfo)
  visited id hid node hnode name hname := (hnames name).mpr (h.visited id hid node hnode name hname)

variable {name : String} {stack : List String}

/-- A name that was used before is dropped. -/
theorem Sound.skip (h : state.Sound graph) (hstack : state.stack = name :: stack)
    (hused : name ∈ state.used) : Sound graph { state with stack } where
  toCovered := by
    apply h.toCovered.congr
    intro other
    rw [hstack, List.mem_append, List.mem_append, List.mem_cons]
    constructor
    · tauto
    · rintro (hmem | rfl | hmem)
      · exact Or.inl hmem
      · exact Or.inl hused
      · exact Or.inr hmem
  producers := h.producers

/-- The writers of a new name are visited. -/
theorem Sound.use (indexed : graph.Indexed) (h : state.Sound graph)
    (hstack : state.stack = name :: stack) :
    Sound graph ((graph.producers name).foldl (visit graph)
      { state with used := name :: state.used, stack }) where
  toCovered := by
    have hneeded : graph.Needed name := by
      apply h.needed name
      rw [hstack]
      exact List.mem_append_right _ List.mem_cons_self
    apply covered_foldl_visit
    · apply h.toCovered.congr
      intro other
      rw [hstack, List.mem_append, List.mem_append, List.mem_cons, List.mem_cons]
      tauto
    · intro id hid node hnode other hother
      obtain ⟨writer, hwriter, hwrites⟩ := indexed.mem_producers.mp hid
      rw [hnode] at hwriter
      cases hwriter
      exact .read hneeded (List.mem_of_getElem? hnode) hwrites hother
  producers other hother id hid := by
    rw [used_foldl_visit] at hother
    apply mem_visited_foldl_visit
    rcases List.mem_cons.mp hother with rfl | hold
    · exact Or.inl hid
    · exact Or.inr (h.producers other hold id hid)

/-- A name is looked at once. -/
theorem load_of_cons (graph : Graph) (hstack : state.stack = name :: stack) :
    state.load graph = load graph { state with stack } + 1 := by
  simp only [load, hstack, List.length_cons]
  omega

end WalkState

open WalkState

/-- A walk with fuel for its load keeps its state sound and ends with nothing to look at. -/
theorem walkLoop_sound {graph : Graph} (indexed : graph.Indexed) {fuel : Nat} {state : WalkState}
    (h : state.Sound graph) (hfuel : state.load graph ≤ fuel) :
    (walkLoop graph fuel state).Sound graph ∧ (walkLoop graph fuel state).stack = [] := by
  induction fuel generalizing state with
  | zero =>
      have hstack : state.stack = [] := by
        unfold load at hfuel
        exact List.eq_nil_of_length_eq_zero (by omega)
      exact ⟨h, hstack⟩
  | succ fuel ih =>
      cases hstack : state.stack with
      | nil =>
          have hend : walkLoop graph (fuel + 1) state = state := by simp [walkLoop, hstack]
          rw [hend]
          exact ⟨h, hstack⟩
      | cons name stack =>
          rw [load_of_cons graph hstack] at hfuel
          by_cases hused : name ∈ state.used
          · have hnext : walkLoop graph (fuel + 1) state =
                walkLoop graph fuel { state with stack } := by
              simp [walkLoop, hstack, hused]
            rw [hnext]
            exact ih (h.skip hstack hused) (Nat.le_of_succ_le_succ hfuel)
          · have hnext : walkLoop graph (fuel + 1) state =
                walkLoop graph fuel ((graph.producers name).foldl (visit graph)
                  { state with used := name :: state.used, stack }) := by
              simp [walkLoop, hstack, hused]
            rw [hnext]
            apply ih (h.use indexed hstack)
            rw [load_foldl_visit]
            exact Nat.le_of_succ_le_succ hfuel

/-- The walk finds exactly the names that the outputs need. -/
theorem mem_usedNames {graph : Graph} (indexed : graph.Indexed) {name : String} :
    name ∈ graph.usedNames ↔ graph.Needed name := by
  have hstart : Sound graph { stack := graph.outputs.map (·.name) } := by
    refine ⟨⟨?_, ?_, ?_⟩, ?_⟩
    · intro other hother
      rw [List.nil_append] at hother
      rcases List.mem_map.mp hother with ⟨info, hinfo, rfl⟩
      exact .output hinfo
    · exact fun info hinfo => List.mem_map.mpr ⟨info, hinfo, rfl⟩
    · intro id hid
      cases hid
    · intro other hother
      cases hother
  have hload : load graph { stack := graph.outputs.map (·.name) } ≤
      (graph.outputs.map (·.name)).length + (graph.nodes.flatMap Node.dependencies).length := by
    have hall : graph.unread [] = graph.nodes.flatMap Node.dependencies := by
      unfold unread
      rw [List.filter_eq_self.mpr (by simp)]
      conv_rhs => rw [← List.zipIdx_map_fst 0 graph.nodes, List.flatMap_map]
    simp [load, hall]
  have hrun := walkLoop_sound indexed hstart hload
  unfold usedNames
  dsimp only
  generalize walkLoop graph _ { stack := graph.outputs.map (·.name) } = final at hrun ⊢
  rcases hrun with ⟨hsound, hend⟩
  have hmet : ∀ {other : String}, other ∈ final.used ++ final.stack → other ∈ final.used := by
    intro other hother
    rwa [hend, List.append_nil] at hother
  constructor
  · exact fun hname => hsound.needed name (List.mem_append_left _ hname)
  · intro hneeded
    induction hneeded with
    | output declared => exact hmet (hsound.outputs _ declared)
    | read _ mem writes reads ih =>
        rcases List.getElem?_of_mem mem with ⟨id, hid⟩
        have hproducer := indexed.mem_producers.mpr ⟨_, hid, writes⟩
        have hvisited := hsound.producers _ ih id hproducer
        exact hmet (hsound.visited id hvisited _ hid _ reads)

/-! ### Unused inputs -/

/-- A name of no constant on which no output depends. -/
def Unneeded (graph : Graph) (name : String) : Prop :=
  (∀ init ∈ graph.initializers, init.name ≠ name) ∧ ¬ graph.Needed name

open Classical in
/-- The search for unused inputs finds every entry of an unused name, in the order of declaration. -/
theorem unusedInputViolations_eq {graph : Graph} (indexed : graph.Indexed) :
    graph.unusedInputViolations =
      (graph.inputs.filter fun info => graph.Unneeded info.name).map
        fun info => .unusedInput info.name := by
  unfold unusedInputViolations
  refine congrArg (List.map _) (List.filter_congr fun info _ => ?_)
  rw [Bool.eq_iff_iff]
  simp [Unneeded, mem_usedNames indexed, initializer?, and_comm]

open Classical in
/-- Among the violations of a loaded graph are, in the order of declaration, all inputs without a
constant of their name on which no output depends. If such inputs are allowed they are missing, and
nothing else is. -/
theorem unused_inputs_reported {message : Onnx.Graph} {graph : Graph}
    (loaded : ofMessage message = .ok graph) (options : ValidateOptions) :
    (graph.reported { options with allowUnusedInputs := false }).filter (·.check = .inputs) =
        (graph.inputs.filter fun info => graph.Unneeded info.name).map
          (fun info => .unusedInput info.name) ∧
      (∀ name, .unusedInput name ∉ graph.reported { options with allowUnusedInputs := true }) ∧
      graph.reported { options with allowUnusedInputs := true } =
        (graph.reported { options with allowUnusedInputs := false }).filter
          (·.check ≠ .inputs) := by
  have hothers : ∀ check ∈ Check.all.filter (· ≠ .inputs),
      graph.found { options with allowUnusedInputs := true } check =
        graph.found { options with allowUnusedInputs := false } check := by
    intro check hcheck
    cases check with
    | inputs => cases of_decide_eq_true (List.mem_filter.mp hcheck).2 rfl
    | _ => rfl
  refine ⟨?_, fun name hname => ?_, ?_⟩
  · rw [filter_reported_eq_found]
    exact unusedInputViolations_eq (loadedFrom_of_ofMessage loaded).indexed
  · rw [mem_reported] at hname
    cases hname
  · rw [filter_reported _ _ fun check => check ≠ .inputs, ← List.flatMap_congr hothers]
    rw [reported_eq, violations_eq_flatMap]
    rfl

/-- Two nodes that read each other's values keep one input in use; the input that only a third node
reads is unused. -/
theorem unused_inputs_reported_cyclic :
    let message : Onnx.Graph :=
      { nodes :=
          [{ opType := some "Add", inputs := ["b", "x"], outputs := ["a"] },
            { opType := some "Neg", inputs := ["a"], outputs := ["b"] },
            { opType := some "Abs", inputs := ["y"], outputs := ["c"] }]
        inputs := [{ name := some "x" }, { name := some "y" }, { name := some "w" }]
        initializers := [{ name := some "w" }], outputs := [{ name := some "a" }] }
    ∃ graph, ofMessage message = .ok graph ∧
      (graph.reported {}).filter (·.check = .inputs) = [.unusedInput "y"] ∧
      graph.Unneeded "y" := by
  intro message
  obtain ⟨graph, loaded, hreport⟩ : ∃ graph, ofMessage message = .ok graph ∧
      (graph.reported {}).filter (·.check = .inputs) = [.unusedInput "y"] := ⟨_, rfl, by decide⟩
  have hentries := (unused_inputs_reported loaded {}).1.symm.trans hreport
  have hmem := List.mem_singleton_self (Violation.unusedInput "y")
  rw [← hentries] at hmem
  obtain ⟨info, hinfo, hname⟩ := List.mem_map.mp hmem
  have hunneeded : graph.Unneeded info.name := by simpa using (List.mem_filter.mp hinfo).2
  exact ⟨graph, loaded, hreport, Violation.unusedInput.inj hname ▸ hunneeded⟩

end Graph

end FixedShape
