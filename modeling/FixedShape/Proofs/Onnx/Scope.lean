/-
Module: FixedShape.Proofs.Onnx.Scope
Purpose: Renaming one name, and what renaming inside subgraphs leaves alone. Only reads change, so
  the names that subgraphs define and the names of their nodes stay as they were. The names that a
  node captures are gathered without repetition.
-/
import FixedShape.Onnx.Scope
import Mathlib.Data.List.Nodup

namespace FixedShape.Onnx

/-! ### One name -/

theorem rename_self (source target : String) : rename source target source = target := by
  simp [rename]

theorem rename_of_ne {source target name : String} (h : name ≠ source) :
    rename source target name = name := by
  simp [rename, h]

theorem rename_same (source name : String) : rename source source name = name := by
  unfold rename
  split
  · next heq => exact heq.symm
  · rfl

theorem rename_eq_empty {source target name : String} (hsource : source ≠ "")
    (htarget : target ≠ "") : rename source target name = "" ↔ name = "" := by
  unfold rename
  split
  · next heq => simp [heq, hsource, htarget]
  · rfl

/-- A name whose renaming is the new name is the old one, if the new one was not there. -/
theorem rename_eq_target {source target name : String} (h : name ≠ target) :
    rename source target name = target ↔ name = source := by
  unfold rename
  split
  · next hsource => exact iff_of_true rfl hsource
  · next hsource => exact iff_of_false h hsource

theorem rename_ne_source {source target name : String} (h : source ≠ target) :
    rename source target name ≠ source := by
  unfold rename
  split
  · exact h.symm
  · next hsource => exact hsource

/-- The names that are renamed to a name: the old one if the name is the new one, and the name itself
unless it is the old one. -/
theorem exists_rename_eq {P : String → Prop} {source target name : String} :
    (∃ old, P old ∧ rename source target old = name) ↔
      (P source ∧ name = target) ∨ (P name ∧ name ≠ source) := by
  constructor
  · rintro ⟨old, hold, rfl⟩
    by_cases heq : old = source
    · rw [heq, rename_self]
      exact Or.inl ⟨heq ▸ hold, rfl⟩
    · rw [rename_of_ne heq]
      exact Or.inr ⟨hold, heq⟩
  · rintro (⟨hold, rfl⟩ | ⟨hold, hne⟩)
    · exact ⟨source, hold, rename_self source name⟩
    · exact ⟨name, hold, rename_of_ne hne⟩

/-- A list without the old name is not renamed. -/
theorem map_rename_of_not_mem {source target : String} {names : List String}
    (h : source ∉ names) : names.map (rename source target) = names := by
  conv_rhs => rw [← List.map_id names]
  refine List.map_congr_left fun name hname => ?_
  exact rename_of_ne fun heq => h (heq ▸ hname)

/-- Under a renaming the new name takes over all places of the old one. -/
theorem count_map_rename (source target name : String) (names : List String) :
    (names.map (rename source target)).count name =
      (if name = source then 0 else names.count name) +
        if name = target then names.count source else 0 := by
  induction names with
  | nil => simp
  | cons first rest ih =>
      simp only [List.map_cons, List.count_cons, beq_iff_eq, ih]
      by_cases hfirst : first = source
      · subst hfirst
        rw [rename_self]
        grind
      · rw [rename_of_ne hfirst]
        grind

/-- Under a renaming to a new name, the new name takes the place of the old one. -/
theorem count_target_map_rename {source target : String} {names : List String}
    (h : target ∉ names) :
    (names.map (rename source target)).count target = names.count source := by
  rw [count_map_rename, List.count_eq_zero.mpr h, ite_self, if_pos rfl, Nat.zero_add]

/-- A renaming leaves every name but its two as often as it was. -/
theorem count_map_rename_of_ne {source target name : String} (names : List String)
    (hsource : name ≠ source) (htarget : name ≠ target) :
    (names.map (rename source target)).count name = names.count name := by
  rw [count_map_rename, if_neg hsource, if_neg htarget, Nat.add_zero]

theorem not_mem_map_rename {source target : String} (names : List String) (h : source ≠ target) :
    source ∉ names.map (rename source target) := by
  intro hmem
  obtain ⟨name, _, hname⟩ := List.mem_map.mp hmem
  exact rename_ne_source h hname

/-- Names other than the new one stay apart. -/
theorem rename_inj {source target first second : String} (hfirst : first ≠ target)
    (hsecond : second ≠ target) :
    rename source target first = rename source target second ↔ first = second := by
  constructor
  · intro heq
    by_cases hsource : first = source
    · rw [hsource, rename_self] at heq
      rw [hsource, (rename_eq_target hsecond).mp heq.symm]
    · rw [rename_of_ne hsource] at heq
      by_cases hother : second = source
      · rw [hother, rename_self] at heq
        exact absurd heq hfirst
      · rwa [rename_of_ne hother] at heq
  · intro heq
    rw [heq]

theorem nodup_map_rename {source target : String} {names : List String} (h : names.Nodup)
    (htarget : target ∉ names) : (names.map (rename source target)).Nodup := by
  have hne : ∀ name ∈ names, name ≠ target := by
    rintro name hname rfl
    exact htarget hname
  apply h.map_on
  intro first hfirst second hsecond heq
  exact (rename_inj (hne first hfirst) (hne second hsecond)).mp heq

/-- In a list without repetitions, replacing the first occurrence of a name renames it. -/
theorem replace_eq_map_rename {source target : String} {names : List String} (h : names.Nodup) :
    names.replace source target = names.map (rename source target) := by
  induction names with
  | nil => rfl
  | cons first rest ih =>
      obtain ⟨hfirst, hrest⟩ := List.nodup_cons.mp h
      rw [List.replace_cons]
      by_cases hsource : source = first
      · subst hsource
        simp [rename_self, map_rename_of_not_mem hfirst]
      · rw [beq_false_of_ne hsource, List.map_cons, rename_of_ne (Ne.symm hsource), ih hrest]

/-! ### Captures -/

theorem nodup_capture {defined captures : List String} (h : captures.Nodup) (name : String) :
    (capture defined captures name).Nodup := by
  unfold capture
  split
  · exact h
  · next hname =>
      simp only [not_or] at hname
      refine List.nodup_append_comm.mpr ?_
      exact List.nodup_cons.mpr ⟨hname.2.2, h⟩

theorem nodup_foldl_capture {defined captures : List String} (h : captures.Nodup)
    (names : List String) : (names.foldl (capture defined) captures).Nodup := by
  induction names generalizing captures with
  | nil => exact h
  | cons name rest ih => exact ih (nodup_capture h name)

theorem nodup_captureNodes {defined captures : List String} (h : captures.Nodup)
    (nodes : List Node) : (captureNodes defined nodes captures).Nodup := by
  induction nodes generalizing captures with
  | nil =>
      rw [captureNodes]
      exact h
  | cons node rest ih =>
      cases node
      rw [captureNodes]
      exact ih (nodup_foldl_capture (nodup_foldl_capture h _) _)

theorem nodup_addCaptures {captures : List String} (h : captures.Nodup) (graph : Graph) :
    (graph.addCaptures captures).Nodup := by
  cases graph
  rw [Graph.addCaptures]
  exact nodup_foldl_capture (nodup_captureNodes h _) _

theorem nodup_captureGraphs {captures : List String} (h : captures.Nodup) (graphs : List Graph) :
    (captureGraphs graphs captures).Nodup := by
  induction graphs generalizing captures with
  | nil =>
      rw [captureGraphs]
      exact h
  | cons graph rest ih =>
      rw [captureGraphs]
      exact ih (nodup_addCaptures h graph)

theorem nodup_captureAttributes {captures : List String} (h : captures.Nodup)
    (attributes : List Attribute) : (captureAttributes attributes captures).Nodup := by
  induction attributes generalizing captures with
  | nil =>
      rw [captureAttributes]
      exact h
  | cons setting rest ih =>
      rcases setting with ⟨_, _, _, _, _, g, _, _, _, _, graphs, _, _⟩
      rw [captureAttributes]
      refine ih (nodup_captureGraphs ?_ graphs)
      cases g with
      | none =>
          rw [captureGraph?]
          exact h
      | some graph =>
          rw [captureGraph?]
          exact nodup_addCaptures h graph

/-- The captures of a node are gathered without repetition. -/
theorem nodup_captures (node : Node) : node.captures.Nodup :=
  nodup_captureAttributes List.nodup_nil node.attributes

/-- A node without subgraphs captures nothing. -/
theorem captures_eq_nil {node : Node} (h : node.subgraphs = []) : node.captures = [] := by
  have hall : ∀ attributes : List Attribute,
      (attributes.flatMap fun setting => setting.g.toList ++ setting.graphs) = [] →
        captureAttributes attributes [] = [] := by
    intro attributes hattributes
    induction attributes with
    | nil => rw [captureAttributes]
    | cons setting rest ih =>
        rw [List.flatMap_cons, List.append_eq_nil_iff, List.append_eq_nil_iff] at hattributes
        obtain ⟨⟨hg, hgraphs⟩, hrest⟩ := hattributes
        rcases setting with ⟨_, _, _, _, _, g, _, _, _, _, graphs, _, _⟩
        cases g with
        | some graph => cases hg
        | none =>
            cases hgraphs
            rw [captureAttributes, captureGraph?, captureGraphs]
            exact ih hrest
  exact hall node.attributes h

/-! ### Renaming inside subgraphs -/

/-- Renaming what nodes read leaves what they write. -/
theorem outputs_renameNodes (source target : String) (nodes : List Node) :
    (renameNodes source target nodes).flatMap (·.outputs) = nodes.flatMap (·.outputs) := by
  induction nodes with
  | nil => rw [renameNodes]
  | cons node rest ih =>
      cases node
      rw [renameNodes, List.flatMap_cons, List.flatMap_cons, ih]

mutual

/-- Renaming what a graph reads from outside leaves the names used inside it. -/
theorem scopedNames_renameFree (source target : String) :
    ∀ graph : Graph, (graph.renameFree source target).scopedNames = graph.scopedNames
  | { nodes, name, initializers, docString, inputs, outputs, valueInfo, unknownFields } => by
      rw [Graph.renameFree]
      split
      · rfl
      · have hnodes := scopedNames_renameNodes source target nodes
        simp only [Graph.scopedNames, Graph.definedNames, outputs_renameNodes, hnodes]

theorem scopedNames_renameNodes (source target : String) :
    ∀ nodes : List Node, scopedNodeNames (renameNodes source target nodes) = scopedNodeNames nodes
  | [] => by rw [renameNodes]
  | { attributes, .. } :: rest => by
      rw [renameNodes, scopedNodeNames, scopedNodeNames,
        scopedNames_renameAttributes source target attributes,
        scopedNames_renameNodes source target rest]

/-- Renaming what subgraphs read leaves the names used inside them. -/
theorem scopedNames_renameAttributes (source target : String) :
    ∀ attributes : List Attribute,
      scopedAttributeNames (renameAttributes source target attributes) =
        scopedAttributeNames attributes
  | [] => by rw [renameAttributes]
  | { g, graphs, .. } :: rest => by
      rw [renameAttributes, scopedAttributeNames, scopedAttributeNames,
        scopedNames_renameGraph? source target g, scopedNames_renameGraphs source target graphs,
        scopedNames_renameAttributes source target rest]

theorem scopedNames_renameGraphs (source target : String) :
    ∀ graphs : List Graph,
      scopedGraphNames (renameGraphs source target graphs) = scopedGraphNames graphs
  | [] => by rw [renameGraphs]
  | first :: rest => by
      rw [renameGraphs, scopedGraphNames, scopedGraphNames,
        scopedNames_renameFree source target first, scopedNames_renameGraphs source target rest]

theorem scopedNames_renameGraph? (source target : String) :
    ∀ graph? : Option Graph,
      scopedGraphNames? (renameGraph? source target graph?) = scopedGraphNames? graph?
  | none => by rw [renameGraph?]
  | some graph => by
      rw [renameGraph?, scopedGraphNames?, scopedGraphNames?,
        scopedNames_renameFree source target graph]

end

end FixedShape.Onnx
