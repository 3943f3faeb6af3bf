/-
Module: FixedShape.Proofs.Graph.Captures
Purpose: What a node remembers of its subgraphs. The names that a node lists as captured are those
  that its subgraphs read, however the node was made and changed, but for names that were replaced by
  themselves: these are taken off the list although the subgraphs go on reading them.
-/
import FixedShape.Proofs.Graph.Edits
import FixedShape.Proofs.Graph.Loading
import FixedShape.Proofs.Onnx.Renaming

namespace FixedShape

namespace Node

/-! ### The list of captures -/

section

variable {source target : String} {node : Node}

/-- The captures of a node after a read was replaced. -/
theorem captures_replaceInput (source target : String) (node : Node) :
    (node.replaceInput source target).1.captures =
      if source ∈ node.captures then
        if target ∈ node.captures then node.captures.erase source
        else node.captures.replace source target
      else node.captures := by
  unfold replaceInput
  split <;> rfl

theorem nodup_captures_replaceInput (h : node.captures.Nodup) :
    (node.replaceInput source target).1.captures.Nodup := by
  rw [captures_replaceInput]
  split
  · split
    · exact h.erase source
    · next htarget =>
        rw [Onnx.replace_eq_map_rename h]
        exact Onnx.nodup_map_rename h htarget
  · exact h

/-- The captures of a node are renamed, also where the new name was captured already. -/
theorem mem_captures_replaceInput {name : String} (hnodup : node.captures.Nodup)
    (hne : source ≠ target) :
    name ∈ (node.replaceInput source target).1.captures ↔
      ∃ old ∈ node.captures, Onnx.rename source target old = name := by
  rw [captures_replaceInput]
  split
  · split
    · next htarget =>
        rw [hnodup.mem_erase_iff]
        constructor
        · rintro ⟨hname, hmem⟩
          exact ⟨name, hmem, Onnx.rename_of_ne hname⟩
        · rintro ⟨old, hold, rfl⟩
          refine ⟨Onnx.rename_ne_source hne, ?_⟩
          by_cases heq : old = source
          · rw [heq, Onnx.rename_self]
            exact htarget
          · rwa [Onnx.rename_of_ne heq]
    · rw [Onnx.replace_eq_map_rename hnodup, List.mem_map]
  · next hsource => exact @Onnx.renames_self source target (· ∈ node.captures) hsource name

/-- A node depends on what it depended on, renamed. -/
theorem mem_dependencies_replaceInput {name : String} (hnodup : node.captures.Nodup)
    (hne : source ≠ target) (hsource : source ≠ "") (htarget : target ≠ "") :
    name ∈ (node.replaceInput source target).1.dependencies ↔
      ∃ old ∈ node.dependencies, Onnx.rename source target old = name := by
  have hinputs : (node.replaceInput source target).1.inputs.filter (· ≠ "") =
      (node.inputs.filter (· ≠ "")).map (Onnx.rename source target) := by
    rw [inputs, replaceInput_message, List.filter_map]
    simp [Function.comp_def, Onnx.rename_eq_empty hsource htarget]
  unfold dependencies
  rw [List.mem_append, hinputs, List.mem_map, mem_captures_replaceInput hnodup hne]
  simp only [List.mem_append, or_and_right, exists_or]

/-- A captured name that is replaced by itself is no longer listed. -/
theorem mem_captures_replaceInput_self {name : String} (hnodup : node.captures.Nodup) :
    name ∈ (node.replaceInput source source).1.captures ↔ name ≠ source ∧ name ∈ node.captures := by
  rw [captures_replaceInput]
  split
  · exact hnodup.mem_erase_iff
  · next hsource =>
      refine (and_iff_right_of_imp ?_).symm
      rintro hmem rfl
      exact hsource hmem

/-- What the subgraphs of a node read is renamed if the name is captured and they do not define the
new one. -/
theorem message_captures_replaceInput (hcaptured : source ∈ node.captures) (hsource : source ≠ "")
    (htarget : target ≠ "") (hfree : ¬ node.message.Binds target) :
    Onnx.Renames source target (· ∈ node.message.captures)
      (· ∈ (node.replaceInput source target).1.message.captures) := by
  rw [replaceInput_message, if_pos hcaptured]
  exact Onnx.renames_renameAttributes hsource htarget node.message.attributes
    (Onnx.Node.not_binds_iff.mp hfree)

/-- A node whose list lacks a name does not look for it in its subgraphs. -/
theorem message_captures_replaceInput_of_not_mem (h : source ∉ node.captures) :
    (node.replaceInput source target).1.message.captures = node.message.captures := by
  rw [replaceInput_message, if_neg h]
  rfl

end

/-! ### Nodes -/

/-- A node that lists each name once, only names that its subgraphs read, and all of these that are
not lost. -/
structure Accurate (lost : String → Prop) (node : Node) : Prop where
  nodup : node.captures.Nodup
  sound : ∀ name ∈ node.captures, name ∈ node.message.captures
  complete : ∀ name ∈ node.message.captures, name ∈ node.captures ∨ lost name

/-- The nodes that can be made: built part by part, or read, and then changed as graphs change their
nodes. A name that is captured may be replaced by itself if it may be lost. -/
inductive Made (lost : String → Prop) : Node → Prop where
  | new (opType : String) : Made lost (.new opType)
  | ofMessage (message : Onnx.Node) : Made lost (.ofMessage message)
  | withName {node : Node} (name : String) (made : Made lost node) : Made lost (node.withName name)
  | withInput {node : Node} (name : String) (made : Made lost node) :
      Made lost (node.withInput name)
  | withOutput {node : Node} (name : String) (made : Made lost node) :
      Made lost (node.withOutput name)
  | withAttr {node : Node} (name : String) (value : AttrValue) (made : Made lost node) :
      Made lost (node.withAttr name value)
  | renameOutput {node : Node} (source target : String) (made : Made lost node) :
      Made lost (node.renameOutput source target).1
  | replaceInput {node : Node} {source target : String} (made : Made lost node)
      (source_ne : source ≠ "") (target_ne : target ≠ "") (free : ¬ node.message.Binds target)
      (self : source = target → source ∈ node.captures → lost source) :
      Made lost (node.replaceInput source target).1

section

variable {lost : String → Prop} {node : Node}

/-- If nothing is lost, the list holds just what the subgraphs read. -/
theorem Accurate.mem_iff (h : node.Accurate fun _ => False) (name : String) :
    name ∈ node.captures ↔ name ∈ node.message.captures :=
  ⟨h.sound name, fun hname => (h.complete name hname).resolve_right id⟩

theorem accurate_of_mem_iff (hnodup : node.captures.Nodup)
    (h : ∀ name, name ∈ node.captures ↔ name ∈ node.message.captures) : node.Accurate lost :=
  ⟨hnodup, fun name => (h name).mp, fun name hname => Or.inl ((h name).mpr hname)⟩

/-- What is read anew is accurate. -/
theorem accurate_ofMessage (message : Onnx.Node) : (Node.ofMessage message).Accurate lost :=
  ⟨Onnx.nodup_captures message, fun _ h => h, fun _ h => Or.inl h⟩

/-- A setting adds what its subgraph captures to the list, if it holds one. -/
theorem Accurate.withAttr (h : node.Accurate lost) (name : String) (value : AttrValue) :
    (node.withAttr name value).Accurate lost := by
  have hmessage : ∀ read, read ∈ (node.withAttr name value).message.captures ↔
      read ∈ node.message.captures ∨ ∃ body, value = .graph body ∧ body.Reads read := by
    intro read
    unfold Onnx.Node.captures
    simp only [Node.withAttr, Onnx.mem_captureAttributes, List.mem_append, List.mem_singleton,
      or_and_right, exists_or, exists_eq_left, List.not_mem_nil, false_or]
    refine or_congr_right ?_
    cases value <;> simp [AttrValue.toMessage]
  have hcaptures : ∀ read, read ∈ (node.withAttr name value).captures ↔
      read ∈ node.captures ∨ ∃ body, value = .graph body ∧ body.Reads read := by
    intro read
    cases value <;> simp [Node.withAttr, Onnx.mem_addCaptures]
  refine ⟨?_, fun read hread => ?_, fun read hread => ?_⟩
  · cases value with
    | graph body => exact Onnx.nodup_addCaptures h.nodup body
    | _ => exact h.nodup
  · rw [hcaptures] at hread
    rw [hmessage]
    exact hread.imp_left (h.sound read)
  · rw [hmessage] at hread
    rw [hcaptures]
    rcases hread with hold | hnew
    · exact (h.complete read hold).imp_left Or.inl
    · exact Or.inl (Or.inr hnew)

/-- Renaming an output leaves the list and what the subgraphs read. -/
theorem Accurate.renameOutput (h : node.Accurate lost) (source target : String) :
    (node.renameOutput source target).1.Accurate lost :=
  ⟨h.nodup, h.sound, h.complete⟩

/-- A node whose list lacks a name stays as it is. -/
theorem Accurate.replaceInput_of_not_mem (h : node.Accurate lost) {source : String}
    (hsource : source ∉ node.captures) (target : String) :
    (node.replaceInput source target).1.Accurate lost := by
  have hcaptures : (node.replaceInput source target).1.captures = node.captures := by
    rw [captures_replaceInput, if_neg hsource]
  have hmessage := @message_captures_replaceInput_of_not_mem source target node hsource
  exact ⟨hcaptures ▸ h.nodup, hcaptures ▸ hmessage ▸ h.sound, hcaptures ▸ hmessage ▸ h.complete⟩

/-- A captured name that is replaced by itself is lost. -/
theorem Accurate.replaceInput_self (h : node.Accurate lost) {source : String}
    (hcaptured : source ∈ node.captures) (hsource : source ≠ "")
    (hfree : ¬ node.message.Binds source) (hlost : lost source) :
    (node.replaceInput source source).1.Accurate lost := by
  have hreads : ∀ name, name ∈ (node.replaceInput source source).1.message.captures ↔
      name ∈ node.message.captures := by
    intro name
    refine (message_captures_replaceInput hcaptured hsource hsource hfree name).trans ?_
    simp only [Onnx.rename_same, exists_eq_right]
  -- The new name is found in the list because it is the old one, so its only entry is erased.
  refine ⟨nodup_captures_replaceInput h.nodup, fun name hname => ?_, fun name hname => ?_⟩
  · rw [mem_captures_replaceInput_self h.nodup] at hname
    rw [hreads]
    exact h.sound name hname.2
  · rw [hreads] at hname
    rw [mem_captures_replaceInput_self h.nodup]
    by_cases heq : name = source
    · exact Or.inr (heq ▸ hlost)
    · exact (h.complete name hname).imp_left (And.intro heq)

/-- A captured name that is replaced by another is replaced in the list as in the subgraphs. -/
theorem Accurate.replaceInput_of_ne (h : node.Accurate lost) {source target : String}
    (hcaptured : source ∈ node.captures) (hsource : source ≠ "") (htarget : target ≠ "")
    (hfree : ¬ node.message.Binds target) (hne : source ≠ target) :
    (node.replaceInput source target).1.Accurate lost := by
  have hreads := message_captures_replaceInput hcaptured hsource htarget hfree
  refine ⟨nodup_captures_replaceInput h.nodup, fun name hname => ?_, fun name hname => ?_⟩
  · obtain ⟨old, hold, hrename⟩ := (mem_captures_replaceInput h.nodup hne).mp hname
    exact (hreads name).mpr ⟨old, h.sound old hold, hrename⟩
  · obtain ⟨old, hold, rfl⟩ := (hreads name).mp hname
    rw [mem_captures_replaceInput h.nodup hne]
    by_cases heq : old = source
    · exact Or.inl ⟨source, hcaptured, heq ▸ rfl⟩
    · rcases h.complete old hold with hmem | hlost
      · exact Or.inl ⟨old, hmem, rfl⟩
      · rw [Onnx.rename_of_ne heq]
        exact Or.inr hlost

/-- Replacing a read keeps a node accurate, but for a name that is replaced by itself. -/
theorem Accurate.replaceInput (h : node.Accurate lost) {source target : String}
    (hsource : source ≠ "") (htarget : target ≠ "") (hfree : ¬ node.message.Binds target)
    (hself : source = target → source ∈ node.captures → lost source) :
    (node.replaceInput source target).1.Accurate lost := by
  by_cases hcaptured : source ∈ node.captures
  · by_cases heq : source = target
    · subst heq
      exact h.replaceInput_self hcaptured hsource hfree (hself rfl hcaptured)
    · exact h.replaceInput_of_ne hcaptured hsource htarget hfree heq
  · exact h.replaceInput_of_not_mem hcaptured target

/-- However a node was made, it lists what its subgraphs read and is not lost. -/
theorem Made.accurate (h : node.Made lost) : node.Accurate lost := by
  induction h with
  | new opType => exact ⟨List.nodup_nil, nofun, nofun⟩
  | ofMessage message => exact accurate_ofMessage message
  | withName _ _ ih => exact ⟨ih.nodup, ih.sound, ih.complete⟩
  | withInput _ _ ih => exact ⟨ih.nodup, ih.sound, ih.complete⟩
  | withOutput _ _ ih => exact ⟨ih.nodup, ih.sound, ih.complete⟩
  | withAttr name value _ ih => exact ih.withAttr name value
  | renameOutput source target _ ih => exact ih.renameOutput source target
  | replaceInput _ hsource htarget hfree hself ih =>
      exact ih.replaceInput hsource htarget hfree hself

end

end Node

namespace Graph

/-! ### Graphs -/

/-- A change that keeps to the scopes of names: nodes come from where nodes can be made, and a read
is replaced by a name that no subgraph defines. A name that a subgraph captures is replaced by itself
only if it may be lost. -/
def Edit.Scoped (lost : String → Prop) (graph : Graph) : Edit → Prop
  | .addNode node => node.Made lost
  | .replaceUses source target exclude =>
    source ≠ "" ∧ target ≠ "" ∧ (∀ node ∈ graph.nodes, ¬ node.message.Binds target) ∧
      (source = target → ∀ (id : NodeId) (node : Node), graph.nodes[id]? = some node →
        id ∉ exclude → source ∈ node.captures → lost source)
  | _ => True

variable {lost : String → Prop} {graph : Graph}

/-- A change that keeps to the scopes brings only nodes in that can be made. -/
theorem made_edit {edit : Edit} (hmade : ∀ node ∈ graph.nodes, node.Made lost)
    (hedit : edit.Scoped lost graph) : ∀ node ∈ (edit.apply graph).nodes, node.Made lost := by
  refine forall_mem_nodes_edit hmade ?_ (fun source target _ h => h.renameOutput source target) ?_
  · rintro node rfl
    exact hedit
  · rintro source target exclude rfl id node hnode hid h
    obtain ⟨hsource, htarget, hfree, hself⟩ := hedit
    exact h.replaceInput hsource htarget (hfree node (List.mem_of_getElem? hnode))
      fun heq hcaptured => hself heq id node hnode hid hcaptured

/-- The nodes of a graph that keeps to the scopes can all be made. -/
theorem Reached.made (h : graph.Reached (Edit.Scoped lost)) :
    ∀ node ∈ graph.nodes, node.Made lost := by
  induction h with
  | empty => exact List.forall_mem_nil _
  | loaded hload =>
      rw [(loadedFrom_of_ofMessage hload).nodes_eq]
      intro node hnode
      obtain ⟨message, _, rfl⟩ := List.mem_map.mp hnode
      exact .ofMessage message
  | edited _ hedit ih => exact made_edit ih hedit

/-- However a graph was changed, every node lists only captures that its subgraphs read when they are
gathered anew, and it lists all of them but for names that were captured and replaced by
themselves. -/
theorem captures_of_reached (h : graph.Reached (Edit.Scoped lost)) :
    ∀ node ∈ graph.nodes, ∀ name,
      (name ∈ node.captures → name ∈ (Node.ofMessage node.message).captures) ∧
      (name ∈ (Node.ofMessage node.message).captures → name ∈ node.captures ∨ lost name) := by
  intro node hnode name
  have haccurate := (h.made node hnode).accurate
  exact ⟨haccurate.sound name, haccurate.complete name⟩

/-- A node whose branch reads two names from outside. -/
def choice : Node :=
  (Node.new "If").withAttr "then_branch" <| .graph
    { nodes := [{ opType := some "Add", inputs := ["v", "w"], outputs := ["r"] }]
      outputs := [{ name := some "r" }] }

/-- A replacement keeps to the scopes if no subgraph uses the new name. -/
theorem scoped_replaceUses {source target : String} {exclude : List NodeId}
    (hsource : source ≠ "") (htarget : target ≠ "")
    (hfree : ∀ node ∈ graph.nodes, target ∉ node.message.scopedNames)
    (hself : source = target → lost source) :
    (Edit.replaceUses source target exclude).Scoped lost graph :=
  ⟨hsource, htarget, fun node hnode hbinds => hfree node hnode hbinds.mem_scopedNames,
    fun heq _ _ _ _ _ => hself heq⟩

theorem reached_choice : ((Edit.addNode choice).apply {}).Reached (Edit.Scoped lost) :=
  .edited .empty (.withAttr "then_branch" _ (.new "If"))

/-- A name that is replaced is followed, and one that is replaced by itself is lost. -/
theorem captures_of_reached_choice :
    let renamed := (Edit.replaceUses "v" "u" []).apply ((Edit.addNode choice).apply {})
    let graph := (Edit.replaceUses "w" "w" []).apply renamed
    graph.Reached (Edit.Scoped (· = "w")) ∧
      (graph.nodes.map fun node => (node.captures, (Node.ofMessage node.message).captures)) =
        [(["u"], ["u", "w"])] ∧
      ∀ node ∈ graph.nodes, ∀ name,
        (name ∈ node.captures → name ∈ (Node.ofMessage node.message).captures) ∧
        (name ∈ (Node.ofMessage node.message).captures → name ∈ node.captures ∨ name = "w") := by
  intro renamed graph
  have hrenamed : renamed.Reached (Edit.Scoped (· = "w")) :=
    .edited reached_choice (scoped_replaceUses (by decide) (by decide) (by decide) nofun)
  have hreached : graph.Reached (Edit.Scoped (· = "w")) :=
    .edited hrenamed (scoped_replaceUses (by decide) (by decide) (by decide) fun _ => rfl)
  exact ⟨hreached, by decide, captures_of_reached hreached⟩

/-- Replacing a name by itself takes it off the captures of a node that goes on reading it. -/
theorem captures_lost_by_self_replacement :
    ¬ ∀ graph : Graph, graph.Reached (Edit.Scoped fun _ => True) → ∀ node ∈ graph.nodes, ∀ name,
      name ∈ node.captures ↔ name ∈ (Node.ofMessage node.message).captures := by
  intro h
  have hreached :
      ((Edit.replaceUses "w" "w" []).apply ((Edit.addNode choice).apply {})).Reached
        (Edit.Scoped fun _ => True) :=
    .edited reached_choice
      (scoped_replaceUses (by decide) (by decide) (by decide) fun _ => trivial)
  have hkept := h _ hreached (choice.replaceInput "w" "w").1 List.mem_cons_self "w"
  exact absurd (hkept.mpr (by decide)) (by decide)

end Graph

end FixedShape
