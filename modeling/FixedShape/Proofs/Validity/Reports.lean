/-
Module: FixedShape.Proofs.Validity.Reports
Purpose: What a graph is refused for, check by check. Every violation is found by one check only, so
  the report on a graph falls apart into what the checks find.
-/
import FixedShape.Proofs.Validity.WellFormed

namespace FixedShape

/-- The checks of a graph. -/
inductive Check where
  | declarations
  | reads
  | sources
  | cycles
  | outputs
  | inputs
  | shapes
  deriving DecidableEq, Repr

/-- The check that finds a violation. -/
def Violation.check : Violation → Check
  | .duplicateName _ => .declarations
  | .danglingInput _ _ | .usedBeforeProduced _ _ => .reads
  | .duplicateProducer _ _ => .sources
  | .cycle _ => .cycles
  | .outputNotProduced _ => .outputs
  | .unusedInput _ => .inputs
  | .notStatic _ _ => .shapes

/-- The checks in the order in which they are made. -/
def Check.all : List Check := [.declarations, .reads, .sources, .cycles, .outputs, .inputs, .shapes]

namespace Graph

/-- The violations for which a graph is refused. -/
def reported (options : ValidateOptions) (graph : Graph) : List Violation :=
  match graph.validate options with
  | .ok () => []
  | .error violations => violations

/-- What a check finds. -/
def found (options : ValidateOptions) (graph : Graph) : Check → List Violation
  | .declarations => graph.declarationViolations
  | .reads => graph.readViolations
  | .sources => graph.sourceViolations
  | .cycles => graph.cycleViolations
  | .outputs => graph.outputViolations
  | .inputs => if options.allowUnusedInputs then [] else graph.unusedInputViolations
  | .shapes => options.requireStatic.filterMap graph.shapeViolation?

section

variable {options : ValidateOptions} {graph : Graph} {violation : Violation} {check : Check}

theorem reported_eq (options : ValidateOptions) (graph : Graph) :
    graph.reported options = graph.violations options := by
  unfold reported validate
  cases graph.violations options with
  | nil => rfl
  | cons first rest => rfl

/-- A violation is reported if it is among those for which the graph is refused. -/
theorem mem_reported_iff_refused :
    violation ∈ graph.reported options ↔
      ∃ violations, graph.validate options = .error violations ∧ violation ∈ violations := by
  unfold reported
  cases graph.validate options with
  | ok _ => simp
  | error violations => simp

/-- All violations are those that the checks find, check after check. -/
theorem violations_eq_flatMap (options : ValidateOptions) (graph : Graph) :
    graph.violations options = Check.all.flatMap (graph.found options) := by
  simp [violations, Check.all, found]

/-- A check finds only violations of its own. -/
theorem check_of_mem_found (h : violation ∈ graph.found options check) :
    violation.check = check := by
  cases check with
  | declarations =>
      obtain ⟨_, _, rfl⟩ := List.mem_map.mp h
      rfl
  | reads =>
      obtain ⟨_, _, name, _, _, _, rfl⟩ := mem_readViolations.mp h
      unfold unresolvedRead
      split <;> rfl
  | sources =>
      obtain ⟨_, _, _, _, rfl⟩ := mem_sourceViolationsFrom.mp h
      rfl
  | cycles =>
      unfold found cycleViolations at h
      dsimp only at h
      split at h
      · cases List.mem_singleton.mp h
        rfl
      · cases h
  | outputs =>
      obtain ⟨_, _, rfl⟩ := List.mem_map.mp h
      rfl
  | inputs =>
      unfold found at h
      dsimp only at h
      split at h
      · cases h
      · obtain ⟨_, _, rfl⟩ := List.mem_map.mp h
        rfl
  | shapes =>
      obtain ⟨name, _, hname⟩ := List.mem_filterMap.mp h
      unfold shapeViolation? at hname
      split at hname
      · cases hname
      · split at hname
        · cases hname
        · cases hname
          rfl

/-- Violations are selected by their checks either together with all else that the check finds or
not at all. -/
theorem filter_flatMap_found (options : ValidateOptions) (graph : Graph) (p : Check → Bool)
    (checks : List Check) :
    (checks.flatMap (graph.found options)).filter (p ·.check) =
      (checks.filter p).flatMap (graph.found options) := by
  induction checks with
  | nil => rfl
  | cons first rest ih =>
      rw [List.flatMap_cons, List.filter_append, ih, List.filter_cons]
      cases hp : p first with
      | true =>
          have hall : (graph.found options first).filter (p ·.check) =
              graph.found options first := by
            rw [List.filter_eq_self]
            intro violation hviolation
            rw [check_of_mem_found hviolation, hp]
          rw [hall, if_pos rfl, List.flatMap_cons]
      | false =>
          have hnone : (graph.found options first).filter (p ·.check) = [] := by
            rw [List.filter_eq_nil_iff]
            intro violation hviolation
            rw [check_of_mem_found hviolation, hp]
            exact Bool.false_ne_true
          rw [hnone, List.nil_append, if_neg Bool.false_ne_true]

/-- The part of a report that belongs to some checks is what these checks find. -/
theorem filter_reported (options : ValidateOptions) (graph : Graph) (p : Check → Bool) :
    (graph.reported options).filter (p ·.check) =
      (Check.all.filter p).flatMap (graph.found options) := by
  rw [reported_eq, violations_eq_flatMap, filter_flatMap_found]

/-- The part of a report that belongs to one check is what this check finds. -/
theorem filter_reported_eq_found (options : ValidateOptions) (graph : Graph) (check : Check) :
    (graph.reported options).filter (·.check = check) = graph.found options check := by
  have hone : Check.all.filter (· = check) = [check] := by cases check <;> rfl
  rw [filter_reported options graph fun other => other = check, hone, List.flatMap_singleton]

/-- A violation is reported exactly if its check finds it. -/
theorem mem_reported :
    violation ∈ graph.reported options ↔ violation ∈ graph.found options violation.check := by
  rw [← filter_reported_eq_found, List.mem_filter]
  simp

end

end Graph

end FixedShape
