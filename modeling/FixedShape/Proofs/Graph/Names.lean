/-
Module: FixedShape.Proofs.Graph.Names
Purpose: Names in use. A fresh name is never in use, and a graph that has reserved its names has
  every name that it mentions in use, so that a fresh name collides with none of them.
-/
import FixedShape.Proofs.Onnx.Scope
import FixedShape.Graph.Basic
import Mathlib.Data.List.Dedup
import Mathlib.Data.List.Perm.Subperm

namespace FixedShape

namespace Graph

/-! ### Fresh names -/

/-- The names made from one base differ from each other. -/
theorem candidateName_injective (base : String) : Function.Injective (candidateName base) := by
  have hrepr : ∀ {m n : Nat}, toString m = toString n → m = n := by
    intro m n h
    have hdigits : Nat.toDigits 10 m = Nat.toDigits 10 n := by
      rw [← Nat.toList_repr, ← Nat.toList_repr]
      exact congrArg String.toList h
    rw [← Nat.ofDigitChars_ten_toDigits (n := m), hdigits, Nat.ofDigitChars_ten_toDigits]
  have hlonger : ∀ k : Nat, base ≠ base ++ "_" ++ toString (k + 1) := by
    intro k h
    have hlength := congrArg String.length h
    simp only [String.length_append] at hlength
    have hone : "_".length = 1 := rfl
    omega
  intro i j h
  cases i with
  | zero =>
      cases j with
      | zero => rfl
      | succ j => exact absurd h (hlonger j)
  | succ i =>
      cases j with
      | zero => exact absurd h.symm (hlonger i)
      | succ j => exact hrepr ((String.append_right_inj _).mp h)

/-- There are not more candidates in use, one after the other, than names. -/
theorem le_length_of_candidates {names : List String} {base : String} {k : Nat}
    (h : ∀ j < k, candidateName base j ∈ names) : k ≤ names.dedup.length := by
  have hused : (List.range k).map (candidateName base) ⊆ names.dedup := by
    intro name hname
    obtain ⟨j, hj, rfl⟩ := List.mem_map.mp hname
    exact List.mem_dedup.mpr (h j (List.mem_range.mp hj))
  have hnodup : ((List.range k).map (candidateName base)).Nodup :=
    List.nodup_range.map (candidateName_injective base)
  have hlength := (hnodup.subperm hused).length_le
  rwa [List.length_map, List.length_range] at hlength

/-- A fresh name is the first candidate that is not in use: of one candidate more than there are
names in use, one is free. -/
theorem freshName_least (graph : Graph) (base : String) :
    ∃ k, graph.freshName base = candidateName base k ∧ candidateName base k ∉ graph.names ∧
      ∀ j < k, candidateName base j ∈ graph.names := by
  unfold freshName
  cases hfree : (List.range (graph.names.length + 1)).find? fun k =>
      candidateName base k ∉ graph.names with
  | some k =>
      obtain ⟨hk, _, hleast⟩ := List.find?_range_eq_some.mp hfree
      exact ⟨k, rfl, of_decide_eq_true hk, fun j hj => by simpa using hleast j hj⟩
  | none =>
      have hused : ∀ j < graph.names.length + 1, candidateName base j ∈ graph.names := by
        intro j hj
        simpa using List.find?_eq_none.mp hfree j (List.mem_range.mpr hj)
      have hdedup := (List.dedup_sublist graph.names).length_le
      exact absurd (Nat.le_trans (le_length_of_candidates hused) hdedup) (Nat.not_succ_le_self _)

/-- A fresh name is not in use. -/
theorem freshName_not_mem (graph : Graph) (base : String) :
    graph.freshName base ∉ graph.names := by
  obtain ⟨k, hname, hfree, _⟩ := graph.freshName_least base
  rwa [hname]

/-! ### Reserving -/

/-- Reserving a name changes the names in use and nothing else. -/
theorem reserve_eq (name : String) (graph : Graph) :
    graph.reserve name = { graph with names := graph.names.insert name } := by
  unfold reserve
  split
  · next h => rw [List.insert_of_mem h]
  · next h => rw [List.insert_of_not_mem h]

theorem mem_names_reserve {graph : Graph} {name other : String} :
    other ∈ (graph.reserve name).names ↔ other = name ∨ other ∈ graph.names := by
  rw [reserve_eq, List.mem_insert_iff]

/-- Reserving names changes the names in use and nothing else. -/
theorem reserveAll_eq (names : List String) (graph : Graph) :
    graph.reserveAll names = { graph with names := (graph.reserveAll names).names } := by
  induction names generalizing graph with
  | nil => rfl
  | cons first rest ih =>
      by_cases h : first = ""
      · subst h
        exact ih graph
      · have hfirst : graph.reserveAll (first :: rest) = (graph.reserve first).reserveAll rest := by
          simp [reserveAll, h]
        rw [hfirst, ih, reserve_eq]

theorem mem_names_reserveAll {names : List String} {graph : Graph} {name : String} :
    name ∈ (graph.reserveAll names).names ↔
      name ∈ graph.names ∨ (name ≠ "" ∧ name ∈ names) := by
  induction names generalizing graph with
  | nil => simp [reserveAll]
  | cons first rest ih =>
      by_cases h : first = ""
      · subst h
        have hfirst : graph.reserveAll ("" :: rest) = graph.reserveAll rest := rfl
        rw [hfirst, ih]
        constructor
        · rintro (hused | ⟨hname, hmem⟩)
          · exact Or.inl hused
          · exact Or.inr ⟨hname, List.mem_cons_of_mem _ hmem⟩
        · rintro (hused | ⟨hname, hmem⟩)
          · exact Or.inl hused
          · exact Or.inr ⟨hname, (List.mem_cons.mp hmem).resolve_left hname⟩
      · have hfirst : graph.reserveAll (first :: rest) = (graph.reserve first).reserveAll rest := by
          simp [reserveAll, h]
        rw [hfirst, ih, reserve_eq]
        simp only [List.mem_insert_iff, List.mem_cons]
        constructor
        · rintro ((rfl | hused) | ⟨hname, hmem⟩)
          · exact Or.inr ⟨h, Or.inl rfl⟩
          · exact Or.inl hused
          · exact Or.inr ⟨hname, Or.inr hmem⟩
        · rintro (hused | ⟨hname, rfl | hmem⟩)
          · exact Or.inl (Or.inr hused)
          · exact Or.inl (Or.inl rfl)
          · exact Or.inr ⟨hname, hmem⟩

end Graph

namespace Node

/-- The names that a node mentions: of what it reads and writes itself, its own, and those used
inside its subgraphs. -/
def mentions (node : Node) : List String :=
  node.inputs ++ (node.outputs ++ (node.name?.toList ++ node.message.scopedNames))

theorem mem_map_rename {source target name : String} {names : List String}
    (h : name ∈ names.map (Onnx.rename source target)) : name ∈ names ∨ name = target := by
  rcases List.mem_map.mp h with ⟨old, hold, rfl⟩
  unfold Onnx.rename
  split
  · exact Or.inr rfl
  · exact Or.inl hold

/-- Renaming an output brings no name in but the new one. -/
theorem mentions_renameOutput {source target name : String} {node : Node}
    (h : name ∈ (node.renameOutput source target).1.mentions) :
    name ∈ node.mentions ∨ name = target := by
  simp only [mentions, List.mem_append] at h ⊢
  rcases h with hinput | houtput | hrest
  · exact Or.inl (Or.inl hinput)
  · rcases mem_map_rename houtput with hold | hnew
    · exact Or.inl (Or.inr (Or.inl hold))
    · exact Or.inr hnew
  · exact Or.inl (Or.inr (Or.inr hrest))

/-- The parts of a node after a read was replaced. -/
theorem replaceInput_message (source target : String) (node : Node) :
    (node.replaceInput source target).1.message =
      { node.message with
        inputs := node.inputs.map (Onnx.rename source target)
        attributes :=
          if source ∈ node.captures then
            Onnx.renameAttributes source target node.message.attributes
          else node.message.attributes } := by
  unfold replaceInput
  split <;> rfl

/-- A read is replaced if the node or a subgraph that it lists has it. -/
theorem replaceInput_replaced {source target : String} {node : Node} :
    (node.replaceInput source target).2 = true ↔
      source ∈ node.inputs ∨ source ∈ node.captures := by
  unfold replaceInput
  split
  · next hcaptured => exact iff_of_true rfl (Or.inr hcaptured)
  · next hcaptured => rw [decide_eq_true_iff, or_iff_left hcaptured]

/-- A node without the read stays as it is. -/
theorem replaceInput_eq_self {source target : String} {node : Node}
    (hinputs : source ∉ node.inputs) (hcaptures : source ∉ node.captures) :
    (node.replaceInput source target).1 = node := by
  unfold replaceInput
  rw [if_neg hcaptures, Onnx.map_rename_of_not_mem hinputs]
  rcases node with ⟨message, captures⟩
  cases message
  rfl

/-- Replacing a read leaves the names used inside subgraphs. -/
theorem scopedNames_replaceInput (source target : String) (node : Node) :
    (node.replaceInput source target).1.message.scopedNames = node.message.scopedNames := by
  rw [replaceInput_message]
  unfold Onnx.Node.scopedNames
  dsimp only
  split
  · exact Onnx.scopedNames_renameAttributes source target _
  · rfl

/-- Replacing a read brings no name in but the new one. -/
theorem mentions_replaceInput {source target name : String} {node : Node}
    (h : name ∈ (node.replaceInput source target).1.mentions) :
    name ∈ node.mentions ∨ name = target := by
  simp only [mentions, List.mem_append, scopedNames_replaceInput] at h ⊢
  simp only [inputs, outputs, name?, replaceInput_message] at h
  rcases h with hinput | hrest
  · rcases mem_map_rename hinput with hold | hnew
    · exact Or.inl (Or.inl hold)
    · exact Or.inr hnew
  · exact Or.inl (Or.inr hrest)

end Node

namespace Graph

/-- Every name that a graph mentions is in use. -/
structure Reserved (graph : Graph) : Prop where
  inputs : ∀ info ∈ graph.inputs, info.name ∈ graph.names
  outputs : ∀ info ∈ graph.outputs, info.name ∈ graph.names
  valueInfo : ∀ info ∈ graph.valueInfo, info.name ∈ graph.names
  initializers : ∀ init ∈ graph.initializers, init.name ∈ graph.names
  nodes : ∀ node ∈ graph.nodes, ∀ name ∈ node.mentions, name ≠ "" → name ∈ graph.names

/-- A change keeps all names in use if what it brings in mentions only names that are in use
after it. -/
theorem Reserved.of_parts {before after : Graph} (h : before.Reserved)
    (names : ∀ name ∈ before.names, name ∈ after.names)
    (inputs : ∀ info ∈ after.inputs, info ∈ before.inputs ∨ info.name ∈ after.names)
    (outputs : ∀ info ∈ after.outputs, info ∈ before.outputs ∨ info.name ∈ after.names)
    (valueInfo : ∀ info ∈ after.valueInfo, info ∈ before.valueInfo ∨ info.name ∈ after.names)
    (initializers : ∀ init ∈ after.initializers,
      init ∈ before.initializers ∨ init.name ∈ after.names)
    (nodes : ∀ node ∈ after.nodes, node ∈ before.nodes ∨
      ∀ name ∈ node.mentions, name ≠ "" → name ∈ after.names) : after.Reserved where
  inputs info hinfo := (inputs info hinfo).elim (fun hold => names _ (h.inputs info hold)) id
  outputs info hinfo := (outputs info hinfo).elim (fun hold => names _ (h.outputs info hold)) id
  valueInfo info hinfo :=
    (valueInfo info hinfo).elim (fun hold => names _ (h.valueInfo info hold)) id
  initializers init hinit :=
    (initializers init hinit).elim (fun hold => names _ (h.initializers init hold)) id
  nodes node hnode := (nodes node hnode).elim
    (fun hold name hmem hname => names name (h.nodes node hold name hmem hname)) id

section

variable {graph : Graph}

theorem Reserved.reserve (h : graph.Reserved) (name : String) : (graph.reserve name).Reserved := by
  have hkeep : ∀ other ∈ graph.names, other ∈ (graph.reserve name).names :=
    fun _ hother => mem_names_reserve.mpr (Or.inr hother)
  rw [reserve_eq] at hkeep ⊢
  exact h.of_parts hkeep (fun _ => Or.inl) (fun _ => Or.inl) (fun _ => Or.inl) (fun _ => Or.inl)
    fun _ => Or.inl

/-- What is appended is new, and its name is put into use. -/
theorem named_of_mem_append {α : Type} {name : α → String} {values : List α} {value : α}
    (names : List String) :
    ∀ other ∈ values ++ [value], other ∈ values ∨ name other ∈ names.insert (name value) := by
  intro other hother
  rcases List.mem_append.mp hother with hold | hlast
  · exact Or.inl hold
  · exact Or.inr (List.mem_singleton.mp hlast ▸ List.mem_insert_self)

theorem Reserved.addInput (h : graph.Reserved) (info : TensorInfo) :
    (graph.addInput info).Reserved := by
  rw [Graph.addInput, reserve_eq]
  exact h.of_parts (fun _ => List.mem_insert_of_mem) (named_of_mem_append graph.names)
    (fun _ => Or.inl) (fun _ => Or.inl) (fun _ => Or.inl) fun _ => Or.inl

theorem Reserved.addOutput (h : graph.Reserved) (info : TensorInfo) :
    (graph.addOutput info).Reserved := by
  rw [Graph.addOutput, reserve_eq]
  exact h.of_parts (fun _ => List.mem_insert_of_mem) (fun _ => Or.inl)
    (named_of_mem_append graph.names) (fun _ => Or.inl) (fun _ => Or.inl) fun _ => Or.inl

theorem Reserved.addValueInfo (h : graph.Reserved) (info : TensorInfo) :
    (graph.addValueInfo info).Reserved := by
  rw [Graph.addValueInfo, reserve_eq]
  exact h.of_parts (fun _ => List.mem_insert_of_mem) (fun _ => Or.inl) (fun _ => Or.inl)
    (named_of_mem_append graph.names) (fun _ => Or.inl) fun _ => Or.inl

theorem Reserved.addInitializer (h : graph.Reserved) (init : Initializer) :
    (graph.addInitializer init).Reserved := by
  rw [Graph.addInitializer, reserve_eq]
  exact h.of_parts (fun _ => List.mem_insert_of_mem) (fun _ => Or.inl) (fun _ => Or.inl)
    (fun _ => Or.inl) (named_of_mem_append graph.names) fun _ => Or.inl

end

end Graph

end FixedShape
