/-
Module: FixedShape.Proofs.Fixing.Saving
Purpose: Fixing keeps a model one that is read back from its bytes. What a renamed node captures is
  what its renamed subgraphs read, and the parts that padding makes can be saved.
-/
import FixedShape.Proofs.Fixing.Guarantees
import FixedShape.Proofs.Model.Saving

namespace FixedShape

/-! ### Redirected nodes -/

namespace Node

variable {source target : String} {node : Node}

theorem Savable.redirect (h : node.Savable) (hnodup : node.captures.Nodup)
    (hscoped : target ∉ node.message.scopedNames) (hne : source ≠ target) (hsource : source ≠ "")
    (htarget : target ≠ "") : (node.redirect source target).Savable := by
  refine ⟨?_, ?_, ?_⟩
  · rw [opType_redirect]
    exact h.operator
  · obtain ⟨hunknown, hattributes⟩ := h.separated
    rw [message_redirect]
    refine .intro hunknown ?_
    dsimp only
    split
    · exact Onnx.separated_renameAttributes source target _ hattributes
    · exact hattributes
  · have haccurate : (node.renameOutput source target).1.Accurate fun _ => False :=
      accurate_of_mem_iff hnodup h.captures
    have hfree : ¬ node.message.Binds target := fun hbinds => hscoped hbinds.mem_scopedNames
    exact (haccurate.replaceInput hsource htarget hfree fun heq _ => hne heq).mem_iff

end Node

/-! ### Changed graphs -/

namespace Graph

variable {graph : Graph} {name : String} {change : TensorInfo → TensorInfo}

theorem Savable.modifyInput (h : graph.Savable)
    (hchange : ∀ info, info.Savable → (change info).Savable) :
    (graph.modifyInput name change).Savable :=
  { h with inputs := forall_mem_modifyInfo h.inputs hchange }

theorem Savable.modifyOutput (h : graph.Savable)
    (hchange : ∀ info, info.Savable → (change info).Savable) :
    (graph.modifyOutput name change).Savable :=
  { h with outputs := forall_mem_modifyInfo h.outputs hchange }

end Graph

/-- What a graph is checked for after fixing. -/
def FixReport.checks (report : FixReport) (options : FixOptions) : ValidateOptions :=
  { allowUnusedInputs := options.allowUnusedInputs
    requireStatic := report.fixedInputs ++ [report.output.output] }

namespace Fixing

theorem savable_paddingNodes (output : String) (names : PaddingNames) (axis : Int64) :
    (paddingNodes output names axis).1.Savable ∧ (paddingNodes output names axis).2.Savable := by
  have hconcat : (paddingNodes output names axis).1.message.captures = [] :=
    Onnx.captures_eq_nil rfl
  have hslice : (paddingNodes output names axis).2.message.captures = [] :=
    Onnx.captures_eq_nil rfl
  have hoperators : "Concat" ≠ "" ∧ "Slice" ≠ "" := by decide
  refine ⟨⟨hoperators.1, ?_, fun name => ?_⟩, ⟨hoperators.2, ?_, fun name => ?_⟩⟩
  · refine .intro (Onnx.MessageType.foreign_nil _) (List.forall_mem_singleton.mpr ?_)
    exact .intro (Onnx.MessageType.foreign_nil _) nofun nofun (List.forall_mem_nil _)
      (List.forall_mem_nil _)
  · rw [hconcat]
    rfl
  · exact .intro (Onnx.MessageType.foreign_nil _) (List.forall_mem_nil _)
  · rw [hslice]
    rfl

theorem savable_ofInt64s {name : String} (hname : name ≠ "") (values : List Int64) :
    (Initializer.ofInt64s name values).Savable :=
  ⟨hname, rfl, Onnx.MessageType.foreign_nil _, List.forall_mem_nil _⟩

theorem savable_zeros {name : String} {elemType : ElementType} {length : Nat} {zeros : Initializer}
    (h : Initializer.zeros? name elemType length = some zeros) (hname : zeros.name ≠ "") :
    zeros.Savable := by
  obtain ⟨_, _, _, rfl⟩ := Initializer.zeros?_eq_some h
  exact ⟨hname, rfl, Onnx.MessageType.foreign_nil _, List.forall_mem_nil _⟩

/-! ### Padded graphs -/

namespace CoherentPadding

variable {output : String} {basis : PaddingBasis} {zeros : Initializer} {options : OutputOptions}
  {names : PaddingNames} {old new : Graph}
  (padding : CoherentPadding output basis zeros options names old new) (h : old.Savable)

include padding

theorem output_ne_empty : output ≠ "" := by
  obtain ⟨_, _, hwrites⟩ := padding.written
  exact hwrites.1

theorem savable_constants (hzeros : zeros.Savable) :
    ∀ init ∈ paddingConstants zeros names options, init.Savable := by
  have hmade : ∀ name ∈ [names.zeros, names.starts, names.ends, names.axes], name ≠ "" :=
    fun name hname => padding.nonempty name (PaddingNames.mem_all_of_constant hname)
  simp only [List.forall_mem_cons] at hmade
  obtain ⟨_, hstarts, hends, haxes, _⟩ := hmade
  unfold paddingConstants
  simp only [List.forall_mem_cons]
  exact ⟨hzeros, savable_ofInt64s hstarts _, savable_ofInt64s hends _, savable_ofInt64s haxes _,
    List.forall_mem_nil _⟩

include h

theorem savable_redirect {node : Node} (hnode : node ∈ old.nodes) :
    (node.redirect output names.intermediate).Savable := by
  have hmade : names.intermediate ∈ names.all := by simp [PaddingNames.all]
  have hscoped := padding.not_mem_scopedNames_of_old hmade hnode
  exact (h.nodes node hnode).redirect (padding.old_coherent.captures_nodup node hnode) hscoped
    padding.output_ne_intermediate padding.output_ne_empty padding.intermediate_ne_empty

/-- A padded graph is read back if the graph is. -/
theorem savable (hzeros : zeros.Savable) : new.Savable := by
  refine ⟨?_, ?_, ?_, ?_, ?_, ?_⟩
  · rw [padding.inputs_eq]
    exact h.inputs
  · rw [padding.outputs_eq]
    exact forall_mem_modifyInfo h.outputs fun info hinfo => (hinfo.setElemType _).setShape _
  · rw [padding.valueInfo_eq]
    exact forall_mem_modifyInfo h.valueInfo fun info hinfo =>
      ⟨padding.intermediate_ne_empty, hinfo.unnamed, hinfo.separated⟩
  · rw [padding.initializers_eq]
    exact List.forall_mem_append.mpr ⟨h.initializers, padding.savable_constants hzeros⟩
  · intro node hnode
    have hpadding := savable_paddingNodes output names options.axis
    rcases padding.mem_nodes.mp hnode with ⟨other, hother, rfl⟩ | rfl | rfl
    · exact padding.savable_redirect h hother
    · exact hpadding.1
    · exact hpadding.2
  · rw [padding.rest_eq]
    exact h.unknown

end CoherentPadding

/-! ### Fixed models -/

variable {before after : Workspace}

theorem Runs.savable_of_fixInputs {selector : TensorSelector} {length : Nat}
    {names : List String} (h : Runs (fixInputs selector length) before names after)
    (savable : before.model.Savable) : after.model.Savable := by
  rw [h.of_fixInputs.2.2.2]
  clear h
  revert savable
  generalize before.model = model
  induction names generalizing model with
  | nil => exact id
  | cons name rest ih =>
      intro savable
      have hgraph := @Graph.Savable.modifyInput _ name _ savable.graph fun info hinfo =>
        hinfo.setShape (sequenceShape length)
      exact ih (declareSequence length model name) { savable with graph := hgraph }

theorem Runs.savable_of_fixOutput {selector : TensorSelector} {options : OutputOptions}
    {report : OutputReport} (h : Runs (fixOutput selector options) before report after)
    (coherent : before.model.graph.Coherent) (savable : before.model.Savable) :
    after.model.Savable := by
  obtain ⟨output, _, _, _, _, _, hmodel⟩ := h.of_fixOutput
  cases hmode : options.mode with
  | declarative =>
      rw [hmode] at hmodel
      rw [hmodel]
      have hgraph := @Graph.Savable.modifyOutput _ output _ savable.graph fun info hinfo =>
        hinfo.setShape [.fixed options.length]
      exact { savable with graph := hgraph }
  | structural =>
      rw [hmode] at hmodel
      obtain ⟨run⟩ := hmodel
      have padding := run.coherentPadding coherent
      have hzeros : run.zeros.Savable := by
        refine savable_zeros run.zeros_eq ?_
        rw [← padding.zeros_name]
        exact padding.nonempty _ (by simp [PaddingNames.all])
      have hmessage := run.message_eq
      refine ⟨padding.savable savable.graph hzeros, ?_, ?_, ?_⟩
      · rw [hmessage]
        exact savable.version
      · rw [hmessage]
        exact savable.separated
      · rw [hmessage]
        exact savable.detached

/-- A fixed model is coherent and is read back from its bytes if the model was. -/
theorem Runs.savable_of_fixModel {options : FixOptions} {report : FixReport}
    (h : Runs (fixModel options) before report after) (coherent : before.model.graph.Coherent)
    (savable : before.model.Savable) : after.model.graph.Coherent ∧ after.model.Savable := by
  obtain ⟨declared, fixed, hinputs, houtput, _, hmodel⟩ := h.of_fixModel
  have hdeclared := (redeclared_of_fixInputs hinputs).2.2 coherent
  refine ⟨(h.declared_of_fixModel coherent).coherent, ?_⟩
  rw [hmodel]
  exact houtput.savable_of_fixOutput hdeclared (hinputs.savable_of_fixInputs savable)

/-- The bytes of a fixed model are read as a model with the same description, which passes the check
that the fixed model has passed. -/
theorem reloaded_of_fixModel {bytes : Wire.Bytes} {loaded : Model} {options : FixOptions}
    {report : FixReport} {fixed : Workspace} (hload : Model.load bytes = .ok loaded)
    (hfix : (fixModel options).runOn loaded = (.ok report, fixed))
    (hlength : fixed.model.toBytes.length < 2 ^ 64) :
    fixed.model.graph.validate (report.checks options) = .ok () ∧
      ∃ again, Model.load fixed.model.toBytes = .ok again ∧
        again.summary = fixed.model.summary ∧
        again.graph.validate (report.checks options) = .ok () := by
  have hruns : Runs (fixModel options) { model := loaded } report fixed := hfix
  obtain ⟨_, _, _, _, haccepted, hmodel⟩ := hruns.of_fixModel
  rw [← hmodel] at haccepted
  obtain ⟨hcoherent, hsavable⟩ := hruns.savable_of_fixModel (Model.coherent_of_load hload)
    (Model.savable_of_load hload)
  obtain ⟨again, hagain, hsummary, hreloaded⟩ := hsavable.load_toBytes hlength
  exact ⟨haccepted, again, hagain, hsummary,
    hsavable.validate_reloaded hreloaded hcoherent.indexed haccepted⟩

end Fixing

end FixedShape
