/-
Module: FixedShape.Proofs.Validity.Exactness
Purpose: The checks together accept exactly the well-formed graphs. That nodes do not wait for each
  other follows from the rest, so well-formedness does not ask for it.
-/
import FixedShape.Proofs.Graph.Loading
import FixedShape.Proofs.Validity.Cycles
import FixedShape.Proofs.Validity.Walking
import Mathlib.Logic.Relation

namespace FixedShape

namespace Graph

theorem unusedInputViolations_eq_nil {graph : Graph} (indexed : graph.Indexed) :
    graph.unusedInputViolations = [] ↔
      ∀ info ∈ graph.inputs, (∀ init ∈ graph.initializers, init.name ≠ info.name) →
        graph.Needed info.name := by
  rw [unusedInputViolations_eq indexed, List.map_eq_nil_iff, List.filter_eq_nil_iff]
  simp only [decide_eq_true_eq]
  simp only [Unneeded, not_and, not_not]

/-- A well-formed graph has no cycle. -/
theorem WellFormed.cycleViolations_eq_nil {options : ValidateOptions} {graph : Graph}
    (indexed : graph.Indexed) (h : graph.WellFormed options) : graph.cycleViolations = [] := by
  apply cycleViolations_eq_nil_of_awaits_lt
  intro reader awaited hawaits
  exact awaits_lt indexed h.ordered h.single_source hawaits

/-- In a well-formed graph no node waits for itself, directly or through other nodes. -/
theorem WellFormed.acyclic {options : ValidateOptions} {graph : Graph}
    (indexed : graph.Indexed) (h : graph.WellFormed options) (id : NodeId) :
    ¬ Relation.TransGen graph.Awaits id id := by
  intro hcycle
  have hearlier : ∀ reader awaited, graph.Awaits reader awaited → awaited < reader :=
    fun _ _ hawaits => awaits_lt indexed h.ordered h.single_source hawaits
  exact not_reachesCycle_of_lt hearlier ⟨id, .refl, hcycle⟩

/-- Nothing is wrong with an indexed graph exactly if it is well formed. -/
theorem violations_eq_nil {options : ValidateOptions} {graph : Graph} (indexed : graph.Indexed) :
    graph.violations options = [] ↔ graph.WellFormed options := by
  simp only [violations, List.append_eq_nil_iff, declarationViolations_eq_nil,
    readViolations_eq_nil, sourceViolations_eq_nil indexed, outputViolations_eq_nil indexed,
    shapeViolations_eq_nil]
  constructor
  · rintro ⟨⟨hinputs, houtputs⟩, hordered, hsingle, _, hdefined, hunused, hstatic⟩
    refine ⟨hinputs, houtputs, hordered, hsingle, hdefined, fun hasked => ?_, hstatic⟩
    rw [hasked] at hunused
    exact (unusedInputViolations_eq_nil indexed).mp hunused
  · intro h
    refine ⟨⟨h.inputs_nodup, h.outputs_nodup⟩, h.ordered, h.single_source,
      h.cycleViolations_eq_nil indexed, h.outputs_defined, ?_, h.declared_static⟩
    cases hallow : options.allowUnusedInputs with
    | true => rfl
    | false => exact (unusedInputViolations_eq_nil indexed).mpr (h.inputs_needed hallow)

theorem validate_eq_ok_iff {options : ValidateOptions} {graph : Graph}
    (indexed : graph.Indexed) : graph.validate options = .ok () ↔ graph.WellFormed options := by
  rw [← violations_eq_nil indexed]
  unfold validate
  cases graph.violations options with
  | nil => simp
  | cons first rest => simp

/-- A loaded graph is accepted exactly if it is well formed, and then it has no cycle, neither as
the sort sees it nor as a chain of nodes that wait for each other. -/
theorem validate_accepts_wellFormed {message : Onnx.Graph} {graph : Graph}
    (loaded : ofMessage message = .ok graph) (options : ValidateOptions) :
    (graph.validate options = .ok () ↔ graph.WellFormed options) ∧
      (graph.WellFormed options → graph.cycleViolations = [] ∧
        ∀ id, ¬ Relation.TransGen graph.Awaits id id) := by
  have hindexed := (loadedFrom_of_ofMessage loaded).indexed
  refine ⟨validate_eq_ok_iff hindexed, fun h => ⟨?_, ?_⟩⟩
  · exact h.cycleViolations_eq_nil hindexed
  · exact h.acyclic hindexed

/-- A loop reads its count and, in its body, a weight; both are inputs. -/
theorem validate_accepts_loop :
    let body : Onnx.Graph :=
      { inputs := [{ name := some "i" }], outputs := [{ name := some "sum" }]
        nodes := [{ opType := some "Add", inputs := ["i", "w"], outputs := ["sum"] }] }
    let loop : Onnx.Node :=
      { opType := some "Loop", inputs := ["n"], outputs := ["y"]
        attributes := [{ name := some "body", g := some body }] }
    let message : Onnx.Graph :=
      { nodes := [loop], inputs := [{ name := some "n" }, { name := some "w" }]
        outputs := [{ name := some "y" }] }
    ∃ graph, ofMessage message = .ok graph ∧ graph.WellFormed {} := by
  intro body loop message
  refine ⟨_, rfl, ?_⟩
  have h := (@validate_accepts_wellFormed message _ rfl {}).1
  exact h.mp (by decide)

end Graph

end FixedShape
