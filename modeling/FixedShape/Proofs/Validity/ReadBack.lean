/-
Module: FixedShape.Proofs.Validity.ReadBack
Purpose: Whether a graph that was changed in memory is valid, against whether it is valid once it is
  read back from its message. Both agree on everything but the names that the index of the changed
  graph folds: those of several slots for which it lists a single node.
-/
import FixedShape.Proofs.Graph.Captures
import FixedShape.Proofs.Graph.Saving
import FixedShape.Proofs.Graph.Tracking
import FixedShape.Proofs.Validity.Exactness
import FixedShape.Proofs.Validity.Reports

namespace FixedShape

theorem Node.opType_replaceInput (source target : String) (node : Node) :
    (node.replaceInput source target).1.opType = node.opType := by
  rw [opType, replaceInput_message]
  rfl

namespace Graph

/-! ### Changes that bring in names -/

/-- A change that brings in no empty name, and no node without an operator. -/
def Edit.Named : Edit → Prop
  | .addNode node => node.opType ≠ ""
  | .addInput info | .addOutput info | .addValueInfo info => info.Named
  | .addInitializer init => init.Named
  | .renameOutput _ _ target | .renameValueInfo _ target => target ≠ ""
  | _ => True

/-- A change after which a graph can still be read back, with the same dependencies. -/
structure Edit.Proper (graph : Graph) (edit : Edit) : Prop where
  names : edit.Named
  scopes : edit.Scoped (fun _ => False) graph

section

variable {graph : Graph}

theorem named_redeclared {info : TensorInfo} (h : info.Named) (change : Redeclaration) :
    (change.apply info).Named := by
  cases change <;> exact ⟨h.name_ne, h.unnamed⟩

theorem forall_mem_concat {α : Type} {p : α → Prop} {values : List α} {last : α}
    (h : ∀ value ∈ values, p value) (hlast : p last) : ∀ value ∈ values ++ [last], p value :=
  List.forall_mem_append.mpr ⟨h, List.forall_mem_singleton.mpr hlast⟩

theorem Named.reserve (h : graph.Named) (name : String) : (graph.reserve name).Named := by
  rw [reserve_eq]
  exact ⟨h.inputs, h.outputs, h.valueInfo, h.initializers, h.operators⟩

/-- A change that brings in no empty name keeps the parts of a graph named. -/
theorem Named.edit (h : graph.Named) {edit : Edit} (hedit : edit.Named) :
    (edit.apply graph).Named := by
  cases edit with
  | addNode node =>
      rw [Edit.apply, addNode_eq]
      exact ⟨h.inputs, h.outputs, h.valueInfo, h.initializers,
        forall_mem_concat h.operators hedit⟩
  | addInput info =>
      have hkept := h.reserve info.name
      exact ⟨forall_mem_concat h.inputs hedit, hkept.outputs, hkept.valueInfo,
        hkept.initializers, hkept.operators⟩
  | addOutput info =>
      have hkept := h.reserve info.name
      exact ⟨hkept.inputs, forall_mem_concat h.outputs hedit, hkept.valueInfo,
        hkept.initializers, hkept.operators⟩
  | addValueInfo info =>
      have hkept := h.reserve info.name
      exact ⟨hkept.inputs, hkept.outputs, forall_mem_concat h.valueInfo hedit,
        hkept.initializers, hkept.operators⟩
  | addInitializer init =>
      have hkept := h.reserve init.name
      exact ⟨hkept.inputs, hkept.outputs, hkept.valueInfo,
        forall_mem_concat h.initializers hedit, hkept.operators⟩
  | renameOutput id source target =>
      rw [Edit.apply]
      rcases renameOutput_cases id source target graph with heq | ⟨renamed, hid, _, heq⟩
      · rw [heq]
        exact h
      · rw [heq]
        refine ⟨h.inputs, h.outputs, h.valueInfo, h.initializers, fun node hnode => ?_⟩
        rcases List.mem_or_eq_of_mem_set hnode with hold | rfl
        · exact h.operators node hold
        · exact h.operators renamed (List.mem_of_getElem? hid)
  | replaceUses source target exclude =>
      have hoperators : ∀ node ∈ (graph.replaceUses source target exclude).1.nodes,
          node.opType ≠ "" := by
        intro node hnode
        obtain ⟨id, hid⟩ := List.getElem?_of_mem hnode
        rw [getElem?_replaceUses, Option.map_eq_some_iff] at hid
        obtain ⟨old, hold, rfl⟩ := hid
        have hold := h.operators old (List.mem_of_getElem? hold)
        split
        · exact hold
        · rwa [Node.opType_replaceInput]
      rw [Edit.apply]
      rw [replaceUses_parts] at hoperators ⊢
      exact ⟨h.inputs, h.outputs, h.valueInfo, h.initializers, hoperators⟩
  | renameValueInfo source target =>
      rw [Edit.apply, Graph.renameValueInfo]
      split
      · exact h
      · have hkept := h.reserve target
        refine ⟨hkept.inputs, hkept.outputs, ?_, hkept.initializers, hkept.operators⟩
        exact forall_mem_modifyInfo h.valueInfo fun info hinfo => ⟨hedit, hinfo.unnamed⟩
  | uniqueName base => exact h.reserve (graph.freshName base)
  | changeInput name change =>
      exact ⟨forall_mem_modifyInfo h.inputs fun _ hinfo => named_redeclared hinfo change, h.outputs,
        h.valueInfo, h.initializers, h.operators⟩
  | changeOutput name change =>
      exact ⟨h.inputs, forall_mem_modifyInfo h.outputs fun _ hinfo => named_redeclared hinfo change,
        h.valueInfo, h.initializers, h.operators⟩

/-- The parts of a graph that comes about by proper changes are named. -/
theorem Reached.named (h : graph.Reached Edit.Proper) : graph.Named := by
  induction h with
  | empty =>
      exact ⟨List.forall_mem_nil _, List.forall_mem_nil _, List.forall_mem_nil _,
        List.forall_mem_nil _, List.forall_mem_nil _⟩
  | loaded hload => exact named_of_ofMessage hload
  | edited _ proper ih => exact ih.edit proper.names

theorem Edit.Proper.ne_renameOutput {edit : Edit} (h : edit.Proper graph) (id : NodeId)
    (source : String) : edit ≠ .renameOutput id source "" := by
  rintro rfl
  exact h.names rfl

/-- The index of such a graph tracks all names. -/
theorem Reached.tracks_all (h : graph.Reached Edit.Proper) (name : String) : graph.Tracks name :=
  h.tracks fun _ _ _ proper => proper.ne_renameOutput

/-- If every rename is of a single slot, the index stays complete. -/
theorem Reached.indexed
    (h : graph.Reached fun graph edit => edit.Proper graph ∧ edit.Single graph) :
    graph.Indexed := by
  induction h with
  | empty => exact indexed_empty
  | loaded hload => exact (loadedFrom_of_ofMessage hload).indexed
  | edited _ kind ih => exact ih.edit kind.2 kind.1.ne_renameOutput

/-- Such a graph is read back from its message, and depends on the same names then. -/
theorem Reached.read_back (h : graph.Reached Edit.Proper) :
    ∃ again, ofMessage graph.toMessage = .ok again ∧ graph.Alike again ∧ again.Indexed := by
  obtain ⟨again, hagain, hreloaded⟩ := h.named.ofMessage_toMessage
  refine ⟨again, hagain, hreloaded.alike fun node hnode => ?_, hreloaded.indexed⟩
  have hmade : ∀ node ∈ graph.nodes, node.Made fun _ => False :=
    (h.mono fun _ _ proper => proper.scopes).made
  exact (hmade node hnode).accurate.mem_iff

/-! ### Names of several sources -/

/-- A graph is refused because a name has several sources. -/
def ReportsDuplicate (options : ValidateOptions) (graph : Graph) (tensor : String) : Prop :=
  ∃ violations, graph.validate options = .error violations ∧
    ∃ sources, Violation.duplicateProducer tensor sources ∈ violations

/-- A name that the index lists once although it fills several slots. -/
structure Folded (graph : Graph) (tensor : String) : Prop where
  nonempty : tensor ≠ ""
  listed : (graph.producers tensor).length = 1
  slots : 1 < (graph.nodes.flatMap Node.outputs).count tensor

/-- A name is reported with its sources if nodes write it and it has several. -/
theorem duplicateProducer_mem_sourceViolations {tensor : String} {sources : List String} :
    .duplicateProducer tensor sources ∈ graph.sourceViolations ↔
      (∃ node ∈ graph.nodes, node.Writes tensor) ∧ 1 < (graph.sources tensor).length ∧
        sources = graph.sources tensor := by
  simp only [sourceViolations, mem_sourceViolationsFrom, mem_writtenNames, List.not_mem_nil,
    not_false_eq_true, true_and, Violation.duplicateProducer.injEq]
  constructor
  · rintro ⟨name, hwritten, hmany, rfl, rfl⟩
    exact ⟨hwritten, hmany, rfl⟩
  · rintro ⟨hwritten, hmany, rfl⟩
    exact ⟨tensor, hwritten, hmany, rfl, rfl⟩

/-- A graph is refused because of a name if nodes write it and it has several sources. -/
theorem reportsDuplicate_iff {options : ValidateOptions} {tensor : String} :
    graph.ReportsDuplicate options tensor ↔
      (∃ node ∈ graph.nodes, node.Writes tensor) ∧ 1 < (graph.sources tensor).length := by
  have hfound : graph.ReportsDuplicate options tensor ↔
      ∃ sources, .duplicateProducer tensor sources ∈ graph.sourceViolations := by
    constructor
    · rintro ⟨violations, hrefused, sources, hmem⟩
      exact ⟨sources, mem_reported.mp (mem_reported_iff_refused.mpr ⟨violations, hrefused, hmem⟩)⟩
    · rintro ⟨sources, hmem⟩
      have hreported : .duplicateProducer tensor sources ∈ graph.reported options :=
        mem_reported.mpr hmem
      obtain ⟨violations, hrefused, hmem⟩ := mem_reported_iff_refused.mp hreported
      exact ⟨violations, hrefused, sources, hmem⟩
  rw [hfound]
  simp [duplicateProducer_mem_sourceViolations]

/-! ### Reading back -/

theorem Alike.givenSource?_eq {again : Graph} (h : graph.Alike again) (name : String) :
    again.givenSource? name = graph.givenSource? name := by
  unfold givenSource? input? initializer?
  rw [h.inputs_eq, h.initializers_eq]

/-- A name that fills a slot is written. -/
theorem exists_writes_of_count {name : String} (hname : name ≠ "")
    (hslots : 0 < (graph.nodes.flatMap Node.outputs).count name) :
    ∃ node ∈ graph.nodes, node.Writes name :=
  exists_writes_iff.mpr ⟨hname, List.count_pos_iff.mp hslots⟩

/-- The graph that is read back reports the names that the graph reports and those that it folds. -/
theorem reportsDuplicate_read_back {again : Graph} (tracks : ∀ name, graph.Tracks name)
    (alike : graph.Alike again) (indexed : again.Indexed) {options : ValidateOptions}
    {tensor : String} :
    again.ReportsDuplicate options tensor ↔
      graph.ReportsDuplicate options tensor ∨ graph.Folded tensor := by
  -- Both count the given sources alike; the entries of one are set against the slots of the other.
  rw [reportsDuplicate_iff, reportsDuplicate_iff, length_sources, length_sources,
    alike.givenSource?_eq, alike.exists_writes_iff]
  by_cases hwritten : ∃ node ∈ graph.nodes, node.Writes tensor
  · obtain ⟨hname, _⟩ := exists_writes_iff.mp hwritten
    have hle := (tracks tensor).length_producers_le hname
    have hpos := (tracks tensor).length_producers_pos hwritten
    rw [indexed.length_producers hname, alike.flatMap_outputs]
    constructor
    · rintro ⟨_, hmany⟩
      by_cases hlisted : (graph.producers tensor).length = 1 ∧
          1 < (graph.nodes.flatMap Node.outputs).count tensor
      · exact Or.inr ⟨hname, hlisted.1, hlisted.2⟩
      · exact Or.inl ⟨hwritten, by omega⟩
    · rintro (⟨_, hmany⟩ | ⟨_, _, hslots⟩)
      · exact ⟨hwritten, by omega⟩
      · exact ⟨hwritten, by omega⟩
  · constructor
    · exact fun h => absurd h.1 hwritten
    · rintro (h | ⟨hname, _, hslots⟩)
      · exact absurd h.1 hwritten
      · exact absurd (exists_writes_of_count hname (Nat.zero_lt_of_lt hslots)) hwritten

/-- The index of a valid graph is complete if it folds no name. -/
theorem indexed_of_valid (tracks : ∀ name, graph.Tracks name) {options : ValidateOptions}
    (hvalid : graph.validate options = .ok ()) (hfolded : ∀ tensor, ¬ graph.Folded tensor) :
    graph.Indexed := by
  refine indexed_of_tracks tracks fun name hname => ?_
  by_contra hslots
  have hwritten := exists_writes_of_count hname (Nat.zero_lt_of_lt (Nat.lt_of_not_le hslots))
  have hpos := (tracks name).length_producers_pos hwritten
  have hlisted : (graph.producers name).length ≠ 1 := fun hone =>
    hfolded name ⟨hname, hone, Nat.lt_of_not_le hslots⟩
  have hmany : 1 < (graph.sources name).length := by
    rw [length_sources]
    omega
  obtain ⟨violations, hrefused, _⟩ :=
    (@reportsDuplicate_iff graph options name).mpr ⟨hwritten, hmany⟩
  rw [hvalid] at hrefused
  cases hrefused

/-- The graph that is read back is valid if the graph is and folds no name. -/
theorem validate_eq_ok_read_back {again : Graph} (tracks : ∀ name, graph.Tracks name)
    (alike : graph.Alike again) (indexed : again.Indexed) {options : ValidateOptions} :
    again.validate options = .ok () ↔
      graph.validate options = .ok () ∧ ∀ tensor, ¬ graph.Folded tensor := by
  rw [validate_eq_ok_iff indexed]
  constructor
  · intro hagain
    -- Well-formedness counts slots, so it carries over before the index is known to be complete.
    have hwell := alike.symm.wellFormed hagain
    have hone : ∀ name, name ≠ "" → (graph.nodes.flatMap Node.outputs).count name ≤ 1 := by
      intro name hname
      by_contra hslots
      obtain ⟨node, hnode, hwrites⟩ :=
        exists_writes_of_count hname (Nat.zero_lt_of_lt (Nat.lt_of_not_le hslots))
      exact hslots (Nat.le_of_eq (hwell.single_source node hnode name hwrites).1)
    refine ⟨(validate_eq_ok_iff (indexed_of_tracks tracks hone)).mpr hwell, ?_⟩
    rintro tensor ⟨hname, _, hslots⟩
    exact Nat.not_le_of_lt hslots (hone tensor hname)
  · rintro ⟨hvalid, hfolded⟩
    exact alike.wellFormed ((validate_eq_ok_iff (indexed_of_valid tracks hvalid hfolded)).mp hvalid)

/-- The index of a graph that is complete folds no name. -/
theorem Indexed.not_folded (h : graph.Indexed) (tensor : String) : ¬ graph.Folded tensor := by
  rintro ⟨hname, hlisted, hslots⟩
  rw [← h.length_producers hname, hlisted] at hslots
  exact Nat.lt_irrefl 1 hslots

/-- However a graph was changed, it can be read back, and what is read back differs for the checks
only in names that the index folds: these it reports besides, and it is valid only if there are none.
There are none if every rename was of a single slot. -/
theorem validate_read_back (h : graph.Reached Edit.Proper) (options : ValidateOptions) :
    ∃ again, ofMessage graph.toMessage = .ok again ∧
      (∀ tensor, again.ReportsDuplicate options tensor ↔
        graph.ReportsDuplicate options tensor ∨ graph.Folded tensor) ∧
      (again.validate options = .ok () ↔
        graph.validate options = .ok () ∧ ∀ tensor, ¬ graph.Folded tensor) ∧
      ((graph.Reached fun graph edit => edit.Proper graph ∧ edit.Single graph) →
        ∀ tensor, ¬ graph.Folded tensor) := by
  obtain ⟨again, hagain, alike, indexed⟩ := h.read_back
  exact ⟨again, hagain, fun _ => reportsDuplicate_read_back h.tracks_all alike indexed,
    validate_eq_ok_read_back h.tracks_all alike indexed, fun hsingle => hsingle.indexed.not_folded⟩

/-- A graph with an input and an output. -/
def boundary : Graph :=
  (Edit.addOutput (.new "b" none none)).apply ((Edit.addInput (.new "x" none none)).apply {})

/-- A graph whose only node writes its output in both slots, after a rename. -/
def doubled : Graph :=
  (Edit.renameOutput 0 "a" "b").apply ((Edit.addNode halves).apply boundary)

theorem reached_boundary : boundary.Reached Edit.Proper :=
  .edited (.edited .empty ⟨⟨by decide, rfl⟩, trivial⟩) ⟨⟨by decide, rfl⟩, trivial⟩

theorem reached_doubled : doubled.Reached Edit.Proper := by
  have hmade : halves.Made fun _ => False :=
    .withOutput "a" (.withOutput "a" (.withInput "x" (.new "Split")))
  have hoperator : halves.opType ≠ "" := by decide
  have htarget : "b" ≠ "" := by decide
  exact .edited (.edited reached_boundary ⟨hoperator, hmade⟩) ⟨htarget, trivial⟩

theorem folded_doubled : doubled.Folded "b" := ⟨by decide, by decide, by decide⟩

/-- The output that was renamed is reported only after the graph is read back, and only then is the
graph refused. -/
theorem validate_read_back_doubled :
    doubled.Reached Edit.Proper ∧ doubled.Folded "b" ∧ doubled.validate {} = .ok () ∧
      ¬ doubled.ReportsDuplicate {} "b" ∧
      ∃ again, ofMessage doubled.toMessage = .ok again ∧ again.ReportsDuplicate {} "b" ∧
        again.validate {} ≠ .ok () := by
  have hunreported : ¬ doubled.ReportsDuplicate {} "b" := by
    rw [reportsDuplicate_iff]
    exact fun h => absurd h.2 (by decide)
  obtain ⟨again, hagain, hreports, hvalid, _⟩ := validate_read_back reached_doubled {}
  refine ⟨reached_doubled, folded_doubled, by decide, hunreported, again, hagain, ?_, ?_⟩
  · exact (hreports "b").mpr (Or.inr folded_doubled)
  · exact fun hagain => (hvalid.mp hagain).2 "b" folded_doubled

/-- A graph can be valid although it is not once it is read back. -/
theorem validate_differs_after_rename :
    ¬ ∀ graph : Graph, graph.Reached Edit.Proper → ∀ options again,
      ofMessage graph.toMessage = .ok again →
        ((again.validate options = .ok () ↔ graph.validate options = .ok ()) ∧
          ∀ tensor, again.ReportsDuplicate options tensor ↔
            graph.ReportsDuplicate options tensor) := by
  intro h
  obtain ⟨again, hagain, alike, indexed⟩ := reached_doubled.read_back
  have hvalid : doubled.validate {} = .ok () := by decide
  have hboth := (validate_eq_ok_read_back reached_doubled.tracks_all alike indexed).mp
    ((h doubled reached_doubled {} again hagain).1.mpr hvalid)
  exact hboth.2 "b" folded_doubled

end

end Graph

end FixedShape
