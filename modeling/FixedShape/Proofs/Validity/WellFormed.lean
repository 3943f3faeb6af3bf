/-
Module: FixedShape.Proofs.Validity.WellFormed
Purpose: What it means that a graph is well formed, said without the checks, and for each check
  that looks at one place at a time what it means that it finds nothing. The sort and the walk have
  modules of their own.
-/
import FixedShape.Proofs.Graph.Writers
import FixedShape.Validity.Check

namespace FixedShape

namespace Graph

/-- A name that has a value before any node runs: that of an input or of a constant. -/
def Given (graph : Graph) (name : String) : Prop :=
  (∃ info ∈ graph.inputs, info.name = name) ∨ ∃ init ∈ graph.initializers, init.name = name

instance (graph : Graph) (name : String) : Decidable (graph.Given name) :=
  inferInstanceAs (Decidable (_ ∨ _))

/-- A name that nothing has given a value when the node at a position is to run. -/
def Undefined (graph : Graph) (position : NodeId) (name : String) : Prop :=
  ¬ graph.Given name ∧ ∀ writer ∈ graph.nodes.take position, ¬ writer.Writes name

instance (graph : Graph) (position : NodeId) (name : String) :
    Decidable (graph.Undefined position name) :=
  inferInstanceAs (Decidable (_ ∧ _))

/-- The names that the outputs depend on, themselves among them: each name leads to all that the
nodes writing it read. -/
inductive Needed (graph : Graph) : String → Prop where
  | output {info : TensorInfo} (declared : info ∈ graph.outputs) : Needed graph info.name
  | read {name other : String} {node : Node} (needed : Needed graph name)
      (mem : node ∈ graph.nodes) (writes : node.Writes name)
      (reads : other ∈ node.dependencies) : Needed graph other

/-- Every node reads only what is given or written by a node before it. -/
def Ordered (graph : Graph) : Prop :=
  ∀ (position : Nat) (node : Node), graph.nodes[position]? = some node →
    ∀ name ∈ node.dependencies, graph.Given name ∨
      ∃ before < position, ∃ writer : Node,
        graph.nodes[before]? = some writer ∧ writer.Writes name

/-- A well-formed graph. -/
structure WellFormed (options : ValidateOptions) (graph : Graph) : Prop where
  inputs_nodup : (graph.inputs.map (·.name)).Nodup
  outputs_nodup : (graph.outputs.map (·.name)).Nodup
  ordered : graph.Ordered
  /-- A name that a node writes fills one output slot of the whole graph and is not given. -/
  single_source : ∀ node ∈ graph.nodes, ∀ name, node.Writes name →
    (graph.nodes.flatMap Node.outputs).count name = 1 ∧ ¬ graph.Given name
  outputs_defined : ∀ info ∈ graph.outputs,
    (∃ node ∈ graph.nodes, node.Writes info.name) ∨ graph.Given info.name
  /-- An input without a default is needed, unless that is not asked for. -/
  inputs_needed : options.allowUnusedInputs = false → ∀ info ∈ graph.inputs,
    (∀ init ∈ graph.initializers, init.name ≠ info.name) → graph.Needed info.name
  /-- The first declaration of a name, if there is one, has a known shape of fixed sizes. -/
  declared_static : ∀ name ∈ options.requireStatic, ∀ info,
    (graph.inputs ++ (graph.outputs ++ graph.valueInfo)).find? (·.name = name) = some info →
      ∃ shape, info.shape? = some shape ∧ ∀ dimension ∈ shape, ∃ size, dimension = .fixed size

/-! ### Looking up -/

theorem isSome_findInfo? {name : String} {infos : List TensorInfo} :
    (findInfo? name infos).isSome = true ↔ ∃ info ∈ infos, info.name = name := by
  simp [findInfo?, List.find?_isSome]

theorem isSome_initializer? {graph : Graph} {name : String} :
    (graph.initializer? name).isSome = true ↔ ∃ init ∈ graph.initializers, init.name = name := by
  simp [initializer?, List.find?_isSome]

theorem given_iff_isSome {graph : Graph} {name : String} :
    graph.Given name ↔
      (graph.input? name).isSome = true ∨ (graph.initializer? name).isSome = true := by
  rw [input?, isSome_findInfo?, isSome_initializer?]
  rfl

theorem mem_givenNames {graph : Graph} {name : String} :
    name ∈ graph.givenNames ↔ graph.Given name := by
  simp [givenNames, Given]

/-! ### Declarations -/

/-- The search for repeated names finds none exactly if none is repeated. -/
theorem repeatedNames_eq_nil {seen names : List String} :
    repeatedNames seen [] names = [] ↔ names.Nodup ∧ ∀ name ∈ names, name ∉ seen := by
  induction names generalizing seen with
  | nil => simp [repeatedNames]
  | cons first rest ih =>
      by_cases hseen : first ∈ seen
      · simp [repeatedNames, hseen]
      · simp only [repeatedNames, hseen, if_false, ih, List.nodup_cons, List.mem_cons]
        constructor
        · rintro ⟨hnodup, hrest⟩
          refine ⟨⟨fun hmem => hrest first hmem (Or.inl rfl), hnodup⟩, ?_⟩
          rintro name (rfl | hname)
          · exact hseen
          · exact fun hmem => hrest name hname (Or.inr hmem)
        · rintro ⟨⟨hfirst, hnodup⟩, hrest⟩
          refine ⟨hnodup, ?_⟩
          rintro name hname (rfl | hmem)
          · exact hfirst hname
          · exact hrest name (Or.inr hname) hmem

theorem declarationViolations_eq_nil {graph : Graph} :
    graph.declarationViolations = [] ↔
      (graph.inputs.map (·.name)).Nodup ∧ (graph.outputs.map (·.name)).Nodup := by
  simp [declarationViolations, repeatedNames_eq_nil]

/-! ### Reads -/

/-- A name is undefined if it is not given and no node at an earlier position writes it. -/
theorem undefined_iff {graph : Graph} {position : NodeId} {name : String} :
    graph.Undefined position name ↔ ¬ graph.Given name ∧ ∀ before < position, ∀ writer,
      graph.nodes[before]? = some writer → ¬ writer.Writes name := by
  refine and_congr_right fun _ => ⟨fun hnone before hbefore writer hwriter => ?_, ?_⟩
  · have htake : (graph.nodes.take position)[before]? = some writer := by
      rw [List.getElem?_take, if_pos hbefore, hwriter]
    exact hnone writer (List.mem_of_getElem? htake)
  · intro hnone writer hmem
    obtain ⟨before, hwriter⟩ := List.getElem?_of_mem hmem
    rw [List.getElem?_take] at hwriter
    split at hwriter
    · next hbefore => exact hnone before hbefore writer hwriter
    · cases hwriter

/-- The unresolved reads of the nodes behind some others are their reads of undefined names, if
what is available to them is what is given or written by those others. -/
theorem readViolationsFrom_eq {graph : Graph} {before rest : List Node} {available : List String}
    (hnodes : graph.nodes = before ++ rest)
    (havailable : ∀ name, name ∈ available ↔
      graph.Given name ∨ ∃ writer ∈ before, writer.Writes name) :
    graph.readViolationsFrom available
        ((rest.zipIdx before.length).map fun (node, id) => (id, node)) =
      (rest.zipIdx before.length).flatMap fun (node, id) =>
        (node.dependencies.filter (graph.Undefined id ·)).map (graph.unresolvedRead id) := by
  induction rest generalizing before available with
  | nil => rfl
  | cons node rest ih =>
      have hfirst : node.dependencies.filter (· ∉ available) =
          node.dependencies.filter (graph.Undefined before.length ·) := by
        refine List.filter_congr fun name _ => decide_eq_decide.mpr ?_
        rw [havailable, Undefined, hnodes, List.take_left, not_or]
        push Not
        rfl
      have hrest : graph.nodes = (before ++ [node]) ++ rest := by
        rw [hnodes, List.append_assoc, List.singleton_append]
      have hnext : ∀ name, name ∈ node.outputs.filter (· ≠ "") ++ available ↔
          graph.Given name ∨ ∃ writer ∈ before ++ [node], writer.Writes name := by
        intro name
        have hwrites : name ∈ node.outputs.filter (· ≠ "") ↔ node.Writes name := by
          simp [Node.Writes, and_comm]
        rw [List.mem_append, havailable, hwrites]
        simp only [List.mem_append, List.mem_singleton, or_and_right, exists_or, exists_eq_left]
        exact or_left_comm.trans (or_congr_right or_comm)
      have htail := ih hrest hnext
      rw [List.length_append, List.length_singleton] at htail
      rw [List.zipIdx_cons, List.map_cons, List.flatMap_cons, readViolationsFrom, hfirst, htail]

/-- The unresolved reads of a graph are, node after node, the reads of undefined names. -/
theorem readViolations_eq (graph : Graph) :
    graph.readViolations = graph.nodes.zipIdx.flatMap fun (node, id) =>
      (node.dependencies.filter (graph.Undefined id ·)).map (graph.unresolvedRead id) := by
  refine readViolationsFrom_eq (List.nil_append _).symm fun name => ?_
  rw [mem_givenNames]
  simp

theorem mem_readViolations {graph : Graph} {violation : Violation} :
    violation ∈ graph.readViolations ↔
      ∃ (position : Nat) (node : Node) (name : String), graph.nodes[position]? = some node ∧
        name ∈ node.dependencies ∧ graph.Undefined position name ∧
        violation = graph.unresolvedRead position name := by
  rw [readViolations_eq, List.mem_flatMap]
  constructor
  · rintro ⟨⟨node, position⟩, hnode, hmem⟩
    obtain ⟨name, hname, rfl⟩ := List.mem_map.mp hmem
    obtain ⟨hread, hundefined⟩ := List.mem_filter.mp hname
    exact ⟨position, node, name, List.mem_zipIdx_iff_getElem?.mp hnode, hread,
      of_decide_eq_true hundefined, rfl⟩
  · rintro ⟨position, node, name, hnode, hread, hundefined, rfl⟩
    refine ⟨(node, position), List.mem_zipIdx_iff_getElem?.mpr hnode, List.mem_map.mpr ?_⟩
    exact ⟨name, List.mem_filter.mpr ⟨hread, decide_eq_true hundefined⟩, rfl⟩

theorem readViolations_eq_nil {graph : Graph} :
    graph.readViolations = [] ↔ graph.Ordered := by
  rw [List.eq_nil_iff_forall_not_mem]
  constructor
  · intro hnone position node hnode name hname
    by_contra hunresolved
    rw [not_or] at hunresolved
    refine hnone _ (mem_readViolations.mpr ⟨position, node, name, hnode, hname, ?_, rfl⟩)
    refine undefined_iff.mpr ⟨hunresolved.1, fun before hbefore writer hwriter hwrites => ?_⟩
    exact hunresolved.2 ⟨before, hbefore, writer, hwriter, hwrites⟩
  · intro hordered violation hmem
    obtain ⟨position, node, name, hnode, hname, hundefined, -⟩ := mem_readViolations.mp hmem
    obtain ⟨hgiven, hbefore⟩ := undefined_iff.mp hundefined
    rcases hordered position node hnode name hname with
      hname | ⟨before, hlt, writer, hwriter, hwrites⟩
    · exact hgiven hname
    · exact hbefore before hlt writer hwriter hwrites

/-! ### Sources -/

/-- The search for names of several sources finds each that was not reported before, with its
sources. -/
theorem mem_sourceViolationsFrom {graph : Graph} {names reported : List String}
    {violation : Violation} :
    violation ∈ graph.sourceViolationsFrom reported names ↔
      ∃ name ∈ names, name ∉ reported ∧ 1 < (graph.sources name).length ∧
        violation = .duplicateProducer name (graph.sources name) := by
  induction names generalizing reported with
  | nil => simp [sourceViolationsFrom]
  | cons first rest ih =>
      by_cases hfirst : 1 < (graph.sources first).length ∧ first ∉ reported
      · simp only [sourceViolationsFrom, if_pos hfirst, List.mem_cons, ih]
        constructor
        · rintro (rfl | ⟨name, hname, hreported, hsources, rfl⟩)
          · exact ⟨first, Or.inl rfl, hfirst.2, hfirst.1, rfl⟩
          · exact ⟨name, Or.inr hname, fun hmem => hreported (Or.inr hmem), hsources, rfl⟩
        · rintro ⟨name, rfl | hname, hreported, hsources, rfl⟩
          · exact Or.inl rfl
          · by_cases heq : name = first
            · exact Or.inl (heq ▸ rfl)
            · exact Or.inr ⟨name, hname, not_or.mpr ⟨heq, hreported⟩, hsources, rfl⟩
      · simp only [sourceViolationsFrom, if_neg hfirst, List.mem_cons, ih]
        constructor
        · rintro ⟨name, hname, hfound⟩
          exact ⟨name, Or.inr hname, hfound⟩
        · rintro ⟨name, rfl | hname, hreported, hsources, rfl⟩
          · exact absurd ⟨hsources, hreported⟩ hfirst
          · exact ⟨name, hname, hreported, hsources, rfl⟩

theorem sourceViolationsFrom_eq_nil {graph : Graph} {names : List String} :
    graph.sourceViolationsFrom [] names = [] ↔ ∀ name ∈ names, (graph.sources name).length ≤ 1 := by
  rw [List.eq_nil_iff_forall_not_mem]
  constructor
  · intro hnone name hname
    by_contra hmany
    exact hnone _ (mem_sourceViolationsFrom.mpr
      ⟨name, hname, List.not_mem_nil, Nat.lt_of_not_le hmany, rfl⟩)
  · intro hone violation hmem
    obtain ⟨name, hname, _, hmany, _⟩ := mem_sourceViolationsFrom.mp hmem
    exact Nat.not_le_of_lt hmany (hone name hname)

/-- The names that are searched for several sources are those that nodes write. -/
theorem mem_writtenNames {nodes : List Node} {name : String} :
    name ∈ nodes.flatMap (fun node => node.outputs.filter (· ≠ "")) ↔
      ∃ node ∈ nodes, node.Writes name := by
  simp [Node.Writes, and_comm]

theorem length_sources {graph : Graph} {name : String} :
    (graph.sources name).length =
      (graph.givenSource? name).toList.length + (graph.producers name).length := by
  simp [sources]

theorem givenSource?_eq_none {graph : Graph} {name : String} :
    graph.givenSource? name = none ↔ ¬ graph.Given name := by
  rw [given_iff_isSome]
  unfold givenSource?
  split
  · next h => simp [h]
  · next hinput =>
      split
      · next h => simp [h]
      · next h => simp [hinput, h]

/-- A graph has no name of several sources exactly if every name that a node writes fills one slot
and is not given. -/
theorem sourceViolations_eq_nil {graph : Graph} (indexed : graph.Indexed) :
    graph.sourceViolations = [] ↔
      ∀ node ∈ graph.nodes, ∀ name, node.Writes name →
        (graph.nodes.flatMap Node.outputs).count name = 1 ∧ ¬ graph.Given name := by
  have hone : ∀ node ∈ graph.nodes, ∀ name, node.Writes name →
      ((graph.sources name).length ≤ 1 ↔
        (graph.nodes.flatMap Node.outputs).count name = 1 ∧ ¬ graph.Given name) := by
    intro node hnode name hwrites
    have hpos : 0 < (graph.nodes.flatMap Node.outputs).count name :=
      List.count_pos_iff.mpr (List.mem_flatMap.mpr ⟨node, hnode, hwrites.2⟩)
    rw [length_sources, indexed.length_producers hwrites.1, ← givenSource?_eq_none]
    cases graph.givenSource? name with
    | none =>
        simp only [Option.toList_none, List.length_nil, and_true]
        omega
    | some source =>
        simp only [Option.toList_some, List.length_singleton, reduceCtorEq, and_false, iff_false]
        omega
  unfold sourceViolations
  rw [sourceViolationsFrom_eq_nil]
  constructor
  · intro hall node hnode name hwrites
    exact (hone node hnode name hwrites).mp (hall name (mem_writtenNames.mpr ⟨node, hnode, hwrites⟩))
  · intro hall name hname
    obtain ⟨node, hnode, hwrites⟩ := mem_writtenNames.mp hname
    exact (hone node hnode name hwrites).mpr (hall node hnode name hwrites)

/-! ### Boundary -/

theorem outputViolations_eq_nil {graph : Graph} (indexed : graph.Indexed) :
    graph.outputViolations = [] ↔
      ∀ info ∈ graph.outputs,
        (∃ node ∈ graph.nodes, node.Writes info.name) ∨ graph.Given info.name := by
  have hone : ∀ info : TensorInfo,
      ((graph.producers info.name).isEmpty && (graph.input? info.name).isNone &&
        (graph.initializer? info.name).isNone) = true ↔
      ¬ ((∃ node ∈ graph.nodes, node.Writes info.name) ∨ graph.Given info.name) := by
    intro info
    rw [given_iff_isSome]
    simp only [Bool.and_eq_true, List.isEmpty_iff, indexed.producers_eq_nil, not_or, not_exists,
      not_and, Bool.not_eq_true, Option.isSome_eq_false_iff]
    tauto
  unfold outputViolations
  simp only [List.map_eq_nil_iff, List.filter_eq_nil_iff, hone, not_not]

/-! ### Shapes -/

theorem isStatic_iff {info : TensorInfo} :
    info.isStatic = true ↔
      ∃ shape, info.shape? = some shape ∧ ∀ dimension ∈ shape, ∃ size, dimension = .fixed size := by
  have hfixed : ∀ dimension : Dimension,
      dimension.isFixed = true ↔ ∃ size, dimension = .fixed size := by
    intro dimension
    cases dimension <;> simp [Dimension.isFixed]
  unfold TensorInfo.isStatic
  cases info.shape? with
  | none => simp
  | some shape => simp [Shape.isStatic, hfixed]

theorem declaration?_eq {graph : Graph} {name : String} :
    graph.declaration? name =
      (graph.inputs ++ (graph.outputs ++ graph.valueInfo)).find? (·.name = name) := by
  simp only [declaration?, input?, output?, valueInfo?, findInfo?, List.find?_append]
  rfl

theorem shapeViolations_eq_nil {graph : Graph} {names : List String} :
    names.filterMap graph.shapeViolation? = [] ↔
      ∀ name ∈ names, ∀ info,
        (graph.inputs ++ (graph.outputs ++ graph.valueInfo)).find? (·.name = name) = some info →
          ∃ shape, info.shape? = some shape ∧
            ∀ dimension ∈ shape, ∃ size, dimension = .fixed size := by
  simp only [List.filterMap_eq_nil_iff, ← declaration?_eq, ← isStatic_iff]
  refine forall₂_congr fun name _ => ?_
  unfold shapeViolation?
  cases graph.declaration? name with
  | none => simp
  | some info => simp

end Graph

end FixedShape
