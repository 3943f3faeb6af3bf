/-
Module: FixedShape.Proofs.Fixing.Meaning
Purpose: Padding keeps what a graph computes. The padded graph runs in step with the old one, each
  name read under its new name, and behind that the two nodes of padding make the output.
-/
import FixedShape.Proofs.Evaluation
import FixedShape.Proofs.Fixing.StaysValid
import FixedShape.Proofs.Wire.Bytes

namespace FixedShape

namespace Interpretation

variable {Element Value : Type} {env env' : Environment Value} {source target : String}

/-! ### Renamed names -/

/-- Names read the same values under their new names. -/
theorem read_map_rename (hsource : source ≠ "") (htarget : target ≠ "") {names : List String}
    (h : ∀ name ∈ names, name ≠ "" → env' (Onnx.rename source target name) = env name) :
    read env' (names.map (Onnx.rename source target)) = read env names := by
  induction names with
  | nil => rfl
  | cons name rest ih =>
      have hrest := ih fun other hother => h other (List.mem_cons_of_mem _ hother)
      rw [List.map_cons, read, read, hrest]
      by_cases hname : name = ""
      · rw [hname, Onnx.rename_of_ne hsource.symm, if_pos rfl, if_pos rfl]
      · have hrenamed := mt (Onnx.rename_eq_empty hsource htarget).mp hname
        rw [if_neg hrenamed, if_neg hname, h name List.mem_cons_self hname]

theorem read_cons {name : String} {names : List String} {value : Value}
    {values : List (Option Value)} (hname : name ≠ "") (hvalue : env name = some value)
    (hnames : read env names = some values) :
    read env (name :: names) = some (some value :: values) := by
  rw [read, if_neg hname, hvalue, hnames]

/-- One environment holds what another holds, outside some names, under their new names. -/
def Agrees (source target : String) (made : List String) (env env' : Environment Value) : Prop :=
  ∀ name ∉ made, env' (Onnx.rename source target name) = env name

theorem Agrees.set {made : List String} (h : Agrees source target made env env')
    (hsource : source ≠ "") (htarget : target ≠ "") (hmade : target ∈ made) {name : String}
    (hname : name ∉ made) (value : Value) :
    Agrees source target made (env.set name value)
      (env'.set (Onnx.rename source target name) value) := by
  have hne : ∀ name ∉ made, name ≠ target := by
    rintro name hname rfl
    exact hname hmade
  intro other hother
  have hinj := @Onnx.rename_inj source target other name (hne other hother) (hne name hname)
  simp only [Environment.set, ne_eq, Onnx.rename_eq_empty hsource htarget, hinj, h other hother]

/-- Results written under new names are read under new names. -/
theorem Agrees.write {made : List String} (h : Agrees source target made env env')
    (hsource : source ≠ "") (htarget : target ≠ "") (hmade : target ∈ made) {names : List String}
    (hnames : ∀ name ∈ names, name ∉ made) {values : List Value} {next : Environment Value}
    (hwrite : Interpretation.write env names values = some next) :
    ∃ next', Interpretation.write env' (names.map (Onnx.rename source target)) values = some next' ∧
      Agrees source target made next next' := by
  induction names generalizing env env' values with
  | nil =>
      cases hwrite
      exact ⟨env', rfl, h⟩
  | cons name rest ih =>
      cases values with
      | nil => cases hwrite
      | cons value values =>
          have hset := h.set hsource htarget hmade (hnames name List.mem_cons_self) value
          exact ih hset (fun other hother => hnames other (List.mem_cons_of_mem _ hother)) hwrite

/-- A name that a node does not write keeps its value. -/
theorem eq_of_write {names : List String} {values : List Value} {next : Environment Value}
    (hwrite : Interpretation.write env names values = some next) {name : String}
    (hname : name ∉ names) : next name = env name := by
  induction names generalizing env values with
  | nil =>
      cases hwrite
      rfl
  | cons first rest ih =>
      cases values with
      | nil => cases hwrite
      | cons value values =>
          rw [List.mem_cons, not_or] at hname
          rw [ih hwrite hname.2, Environment.set_of_ne hname.1]

/-! ### Redirected nodes -/

section

variable {I : Interpretation Element Value} {made : List String} {node : Node}

/-- A node without captures runs as before when redirected. -/
theorem Agrees.evalNode (h : Agrees source target made env env') (hsource : source ≠ "")
    (htarget : target ≠ "") (hmade : target ∈ made) (hcaptures : node.captures = [])
    (hnames : ∀ name ∈ node.inputs ++ node.outputs, name ∉ made) {next : Environment Value}
    (hnode : I.evalNode env node = some next) :
    ∃ next', I.evalNode env' (node.redirect source target) = some next' ∧
      Agrees source target made next next' := by
  obtain ⟨values, results, hread, hresults, hwrite⟩ := evalNode_eq_some.mp hnode
  have hread' : read env' (node.redirect source target).inputs = some values := by
    rw [Node.inputs_redirect, read_map_rename hsource htarget, hread]
    intro name hname _
    exact h name (hnames name (List.mem_append_left _ hname))
  have hresults' : I.operator (node.redirect source target).opType
      (node.redirect source target).message.attributes values = some results := by
    rw [Node.opType_redirect, Node.attributes_redirect hcaptures, hresults]
  obtain ⟨next', hwrite', hagrees⟩ := h.write hsource htarget hmade
    (fun name hname => hnames name (List.mem_append_right _ hname)) hwrite
  rw [← Node.outputs_redirect] at hwrite'
  exact ⟨next', evalNode_eq_some.mpr ⟨values, results, hread', hresults', hwrite'⟩, hagrees⟩

/-- Nodes that run one after the other do so when redirected. -/
theorem Agrees.foldlM_evalNode (h : Agrees source target made env env') (hsource : source ≠ "")
    (htarget : target ≠ "") (hmade : target ∈ made) {nodes : List Node}
    (hcaptures : ∀ node ∈ nodes, node.captures = [])
    (hnames : ∀ node ∈ nodes, ∀ name ∈ node.inputs ++ node.outputs, name ∉ made)
    {last : Environment Value} (hnodes : nodes.foldlM I.evalNode env = some last) :
    ∃ last', (nodes.map (Node.redirect source target)).foldlM I.evalNode env' = some last' ∧
      Agrees source target made last last' := by
  induction nodes generalizing env env' with
  | nil =>
      cases hnodes
      exact ⟨env', rfl, h⟩
  | cons node rest ih =>
      rw [List.foldlM_cons, Option.bind_eq_bind, Option.bind_eq_some_iff] at hnodes
      obtain ⟨next, hnode, hrest⟩ := hnodes
      obtain ⟨next', hnode', hnext⟩ := h.evalNode hsource htarget hmade
        (hcaptures node List.mem_cons_self) (hnames node List.mem_cons_self) hnode
      obtain ⟨last', hrest', hlast⟩ := ih hnext
        (fun other hother => hcaptures other (List.mem_cons_of_mem _ hother))
        (fun other hother => hnames other (List.mem_cons_of_mem _ hother)) hrest
      refine ⟨last', ?_, hlast⟩
      rw [List.map_cons, List.foldlM_cons, hnode', Option.bind_eq_bind, Option.bind_some]
      exact hrest'

/-- Nodes that run one after the other, and more nodes behind them. -/
theorem foldlM_evalNode_append {before after : List Node} {middle last : Environment Value}
    (hbefore : before.foldlM I.evalNode env = some middle)
    (hafter : after.foldlM I.evalNode middle = some last) :
    (before ++ after).foldlM I.evalNode env = some last := by
  rw [List.foldlM_append, hbefore, Option.bind_eq_bind, Option.bind_some, hafter]

/-- Nodes that do not write a name leave its value. -/
theorem eq_of_foldlM_evalNode {nodes : List Node} {last : Environment Value} {name : String}
    (hname : ∀ node ∈ nodes, name ∉ node.outputs)
    (hnodes : nodes.foldlM I.evalNode env = some last) : last name = env name := by
  induction nodes generalizing env with
  | nil =>
      cases hnodes
      rfl
  | cons node rest ih =>
      rw [List.foldlM_cons, Option.bind_eq_bind, Option.bind_eq_some_iff] at hnodes
      obtain ⟨next, hnode, hrest⟩ := hnodes
      obtain ⟨_, _, _, _, hwrite⟩ := evalNode_eq_some.mp hnode
      rw [ih (fun other hother => hname other (List.mem_cons_of_mem _ hother)) hrest,
        eq_of_write hwrite (hname node List.mem_cons_self)]

end

/-! ### Starting values -/

section

variable {I : Interpretation Element Value} {graph : Graph} {assigned : Environment Value}

/-- What is neither an input nor a constant has no value at the start. -/
theorem start_eq_none {name : String} (h : ¬ graph.Given name) :
    I.start graph assigned name = none := by
  rw [Graph.given_iff_isSome, not_or] at h
  obtain ⟨hinput, hconstant⟩ := h
  rw [Bool.not_eq_true, Option.isSome_eq_false_iff, Option.isNone_iff_eq_none] at hconstant
  unfold start
  rw [if_neg hinput, hconstant]
  rfl

theorem start_eq_constant {init : Initializer}
    (hinput : ∀ info ∈ graph.inputs, info.name ≠ init.name)
    (hinit : graph.initializer? init.name = some init) :
    I.start graph assigned init.name = I.constant init.tensor := by
  have hnone : ¬ (graph.input? init.name).isSome = true := by
    rw [Graph.input?, Graph.isSome_findInfo?]
    rintro ⟨info, hinfo, hname⟩
    exact hinput info hinfo hname
  unfold start
  rw [if_neg hnone, hinit]
  rfl

end

end Interpretation

/-- In a list without repeated names a constant is found by its name. -/
theorem find?_eq_some_of_nodup {inits : List Initializer} (h : (inits.map (·.name)).Nodup)
    {init : Initializer} (hinit : init ∈ inits) :
    inits.find? (·.name == init.name) = some init := by
  induction inits with
  | nil => cases hinit
  | cons first rest ih =>
      rw [List.map_cons, List.nodup_cons] at h
      rcases List.mem_cons.mp hinit with rfl | hrest
      · simp
      · have hne : first.name ≠ init.name := by
          intro heq
          exact h.1 (heq ▸ List.mem_map_of_mem hrest)
        rw [List.find?_cons, beq_false_of_ne hne]
        exact ih h.2 hrest

namespace Fixing.ValidPadding

variable {checks : ValidateOptions} {output : String} {basis : PaddingBasis} {zeros : Initializer}
  {options : OutputOptions} {names : PaddingNames} {old new : Graph}
  (padding : ValidPadding checks output basis zeros options names old new)

include padding

theorem name_mem_all {init : Initializer} (hinit : init ∈ paddingConstants zeros names options) :
    init.name ∈ names.all := by
  apply PaddingNames.mem_all_of_constant
  rw [← padding.map_name_constants]
  exact List.mem_map_of_mem hinit

/-- The constants of padding are found under their names. -/
theorem initializer?_constant {init : Initializer}
    (hinit : init ∈ paddingConstants zeros names options) :
    new.initializer? init.name = some init := by
  have hmade := padding.name_mem_all hinit
  have hold : old.initializers.find? (·.name == init.name) = none := by
    rw [List.find?_eq_none]
    intro other hother heq
    rw [beq_iff_eq] at heq
    exact padding.fresh init.name hmade
      (heq ▸ padding.old_coherent.reserved.initializers other hother)
  have hnodup : ((paddingConstants zeros names options).map (·.name)).Nodup := by
    rw [padding.map_name_constants]
    exact padding.constants_nodup
  rw [Graph.initializer?, padding.initializers_eq, List.find?_append, hold, Option.none_or]
  exact find?_eq_some_of_nodup hnodup hinit

/-- Other names keep their constants. -/
theorem initializer?_old {name : String} (hname : name ∉ names.all) :
    new.initializer? name = old.initializer? name := by
  have hnone : (paddingConstants zeros names options).find? (·.name == name) = none := by
    rw [List.find?_eq_none]
    intro init hinit heq
    rw [beq_iff_eq] at heq
    exact hname (heq ▸ padding.name_mem_all hinit)
  rw [Graph.initializer?, padding.initializers_eq, List.find?_append, hnone, Option.or_none]
  rfl

section

variable {Element Value : Type} {I : Interpretation Element Value} {assigned : Environment Value}

theorem start_constant {init : Initializer} (hinit : init ∈ paddingConstants zeros names options) :
    I.start new assigned init.name = I.constant init.tensor := by
  apply Interpretation.start_eq_constant _ (padding.initializer?_constant hinit)
  intro info hinfo heq
  have hmade := padding.name_mem_all hinit
  rw [padding.inputs_eq] at hinfo
  exact padding.fresh init.name hmade (heq ▸ padding.old_coherent.reserved.inputs info hinfo)

/-- Both graphs start from the same values; the output and what is padded have none yet. -/
theorem start_agrees :
    Interpretation.Agrees output names.intermediate names.all (I.start old assigned)
      (I.start new assigned) := by
  intro name hname
  by_cases houtput : name = output
  · subst houtput
    have hintermediate : ¬ new.Given names.intermediate := by
      obtain ⟨position, _, writer, hwriter, hwrites⟩ := padding.intermediate_written
      exact (padding.single_source writer (List.mem_of_getElem? hwriter) _ hwrites).2
    rw [Onnx.rename_self, Interpretation.start_eq_none hintermediate,
      Interpretation.start_eq_none padding.output_not_given]
  · rw [Onnx.rename_of_ne houtput]
    unfold Interpretation.start
    rw [padding.initializer?_old hname, Graph.input?, padding.inputs_eq]
    rfl

/-- The first node of padding puts the zeros behind the output's old value. -/
theorem evalNode_concat (lawful : I.Lawful) (haxis : options.axis = 0 ∨ options.axis = -1)
    {env : Environment Value} {value behind : List Element}
    (hvalue : env names.intermediate = some (I.vector value))
    (hzeros : env names.zeros = some (I.vector behind)) :
    I.evalNode env (paddingNodes output names options.axis).1 =
      some (env.set names.concatenated (I.vector (value ++ behind))) := by
  have hne : ∀ name ∈ names.all, name ≠ "" := padding.nonempty
  simp only [PaddingNames.all, List.mem_cons] at hne
  apply Interpretation.evalNode_eq_some.mpr
  refine ⟨[some (I.vector value), some (I.vector behind)], [I.vector (value ++ behind)], ?_,
    lawful.concat options.axis haxis value behind, rfl⟩
  apply Interpretation.read_cons (hne _ (by simp)) hvalue
  exact Interpretation.read_cons (hne _ (by simp)) hzeros rfl

/-- The second node of padding keeps the first elements. -/
theorem evalNode_slice (lawful : I.Lawful) (haxis : options.axis = 0 ∨ options.axis = -1)
    (hlength : options.length ≤ maxInt64) {env : Environment Value} {elements : List Element}
    (hconcatenated : env names.concatenated = some (I.vector elements))
    (hstarts : env names.starts = some (I.vector [I.integer 0]))
    (hends : env names.ends = some (I.vector [I.integer (Int64.ofNat options.length)]))
    (haxes : env names.axes = some (I.vector [I.integer options.axis])) :
    I.evalNode env (paddingNodes output names options.axis).2 =
      some (env.set output (I.vector (elements.take options.length))) := by
  have hne : ∀ name ∈ names.all, name ≠ "" := padding.nonempty
  simp only [PaddingNames.all, List.mem_cons] at hne
  have hbounds := zero_le_ofNat hlength
  have hcut := lawful.slice options.axis haxis 0 (Int64.ofNat options.length) (by decide)
    hbounds.1 elements
  rw [hbounds.2] at hcut
  apply Interpretation.evalNode_eq_some.mpr
  refine ⟨_, _, ?_, hcut, rfl⟩
  apply Interpretation.read_cons (hne _ (by simp)) hconcatenated
  apply Interpretation.read_cons (hne _ (by simp)) hstarts
  apply Interpretation.read_cons (hne _ (by simp)) hends
  exact Interpretation.read_cons (hne _ (by simp)) haxes rfl

/-- The nodes of padding make of a vector its first elements, with elements behind if it has too
few. -/
theorem foldlM_paddingNodes (lawful : I.Lawful) (haxis : options.axis = 0 ∨ options.axis = -1)
    (hlength : options.length ≤ maxInt64) {env : Environment Value} {value behind : List Element}
    (hvalue : env names.intermediate = some (I.vector value))
    (hzeros : env names.zeros = some (I.vector behind))
    (hstarts : env names.starts = some (I.vector [I.integer 0]))
    (hends : env names.ends = some (I.vector [I.integer (Int64.ofNat options.length)]))
    (haxes : env names.axes = some (I.vector [I.integer options.axis])) :
    [(paddingNodes output names options.axis).1,
        (paddingNodes output names options.axis).2].foldlM I.evalNode env =
      some ((env.set names.concatenated (I.vector (value ++ behind))).set output
        (I.vector ((value ++ behind).take options.length))) := by
  have hconstant : ∀ name ∈ [names.zeros, names.starts, names.ends, names.axes],
      name ≠ names.concatenated := by
    rintro name hname rfl
    exact padding.concatenated_not_mem hname
  simp only [List.mem_cons] at hconstant
  have hconcatenated : names.concatenated ≠ "" :=
    padding.nonempty names.concatenated (by simp [PaddingNames.all])
  rw [List.foldlM_cons, padding.evalNode_concat lawful haxis hvalue hzeros, Option.bind_eq_bind,
    Option.bind_some, List.foldlM_cons,
    padding.evalNode_slice lawful haxis hlength (Environment.set_self hconcatenated)]
  · rfl
  · rw [Environment.set_of_ne (hconstant _ (by simp)), hstarts]
  · rw [Environment.set_of_ne (hconstant _ (by simp)), hends]
  · rw [Environment.set_of_ne (hconstant _ (by simp)), haxes]

/-- The redirected nodes leave the constants of padding. -/
theorem eq_of_constant {first last : Environment Value}
    (hrun : (old.nodes.map (Node.redirect output names.intermediate)).foldlM I.evalNode first =
      some last)
    {name : String} (hname : name ∈ [names.zeros, names.starts, names.ends, names.axes]) :
    last name = first name := by
  apply Interpretation.eq_of_foldlM_evalNode _ hrun
  intro node hnode houtput
  obtain ⟨other, hother, rfl⟩ := List.mem_map.mp hnode
  have hmade := PaddingNames.mem_all_of_constant hname
  rw [Node.outputs_redirect] at houtput
  rcases Node.mem_map_rename houtput with hold | heq
  · exact padding.fresh name hmade (padding.old_coherent.reserved.mem_names_of_writes
      hother ⟨padding.nonempty name hmade, hold⟩)
  · rw [heq] at hname
    exact padding.intermediate_not_mem_constants hname

/-- No old node reads or writes a name made for padding. -/
theorem not_mem_all_of_mem_node {node : Node} (hnode : node ∈ old.nodes) {name : String}
    (hname : name ∈ node.inputs ++ node.outputs) : name ∉ names.all := by
  intro hmade
  have hmention : name ∈ node.mentions := by
    rw [Node.mentions, ← List.append_assoc]
    exact List.mem_append_left _ hname
  exact padding.fresh name hmade (padding.old_coherent.reserved.nodes node hnode name hmention
    (padding.nonempty name hmade))

/-- The old nodes run in step with the redirected ones. -/
theorem redirected_run (flat : ∀ node ∈ old.nodes, node.captures = []) {env : Environment Value}
    (hold : I.evaluate old assigned = some env) :
    ∃ env', (old.nodes.map (Node.redirect output names.intermediate)).foldlM I.evalNode
        (I.start new assigned) = some env' ∧
      Interpretation.Agrees output names.intermediate names.all env env' := by
  obtain ⟨writer, hwriter, hwrites⟩ := padding.written
  apply padding.start_agrees.foldlM_evalNode hwrites.1 padding.intermediate_ne_empty
    (by simp [PaddingNames.all]) flat _ hold
  intro node hnode name hname
  exact padding.not_mem_all_of_mem_node hnode hname

/-- Behind the redirected nodes the constants of padding are what they were at the start. -/
theorem constant_of_run (lawful : I.Lawful) {env : Environment Value}
    (hrun : (old.nodes.map (Node.redirect output names.intermediate)).foldlM I.evalNode
      (I.start new assigned) = some env)
    {init : Initializer} (hinit : init ∈ paddingConstants zeros names options)
    {elements : List Element} (helements : I.elements? init.tensor = some elements) :
    env init.name = some (I.vector elements) := by
  have hname : init.name ∈ [names.zeros, names.starts, names.ends, names.axes] := by
    rw [← padding.map_name_constants]
    exact List.mem_map_of_mem hinit
  rw [padding.eq_of_constant hrun hname, padding.start_constant hinit,
    lawful.constant init.tensor elements helements]

/-- The padded graph runs whenever the old one does, with the same values for all old names but
the output. -/
theorem evaluate_new (lawful : I.Lawful) (flat : ∀ node ∈ old.nodes, node.captures = [])
    {name : String}
    (hzeros : Initializer.zeros? name basis.elemType options.length = some zeros)
    (haxis : options.axis = 0 ∨ options.axis = -1) (hlength : options.length ≤ maxInt64)
    {env : Environment Value} {value : List Element}
    (hold : I.evaluate old assigned = some env) (houtput : env output = some (I.vector value)) :
    ∃ env', I.evaluate new assigned = some env' ∧
      (∀ name ∉ names.all, name ≠ output → env' name = env name) ∧
      env' names.intermediate = some (I.vector value) ∧
      env' output = some (I.vector
        ((value ++ List.replicate options.length (I.zero basis.elemType)).take
          options.length)) := by
  obtain ⟨writer, hwriter, hwrites⟩ := padding.written
  obtain ⟨middle, hmiddle, hagrees⟩ := padding.redirected_run flat hold
  have hvalue : middle names.intermediate = some (I.vector value) := by
    have hfresh : output ∉ names.all := fun hmade =>
      padding.fresh output hmade padding.output_mem_names
    have hmoved := hagrees output hfresh
    rwa [Onnx.rename_self, houtput] at hmoved
  have hzeros' : middle names.zeros =
      some (I.vector (List.replicate options.length (I.zero basis.elemType))) := by
    rw [padding.zeros_name]
    exact padding.constant_of_run lawful hmiddle (by simp [paddingConstants])
      (I.elements?_zeros hzeros)
  have hinteger : ∀ {name : String} {number : Int64},
      Initializer.ofInt64s name [number] ∈ paddingConstants zeros names options →
      middle name = some (I.vector [I.integer number]) :=
    fun hinit => padding.constant_of_run lawful hmiddle hinit rfl
  have hpadding := padding.foldlM_paddingNodes lawful haxis hlength hvalue hzeros'
    (hinteger (by simp [paddingConstants])) (hinteger (by simp [paddingConstants]))
    (hinteger (by simp [paddingConstants]))
  have hrun := Interpretation.foldlM_evalNode_append hmiddle hpadding
  rw [← padding.nodes_eq] at hrun
  refine ⟨_, hrun, ?_, ?_, Environment.set_self hwrites.1⟩
  · intro name hname hother
    have hconcatenated : name ≠ names.concatenated := by
      rintro rfl
      exact hname (by simp [PaddingNames.all])
    rw [Environment.set_of_ne hother, Environment.set_of_ne hconcatenated, ← hagrees name hname,
      Onnx.rename_of_ne hother]
  · rw [Environment.set_of_ne padding.output_ne_intermediate.symm,
      Environment.set_of_ne padding.concatenated_ne_intermediate.symm, hvalue]

end

end Fixing.ValidPadding

namespace Fixing

/-- The first elements of a vector, and as many others behind as are missing. -/
theorem take_append_replicate {α : Type} (elements : List α) (length : Nat) (other : α) :
    (elements ++ List.replicate length other).take length =
      elements.take length ++ List.replicate (length - elements.length) other := by
  rw [List.take_append, List.take_replicate, Nat.min_eq_left (Nat.sub_le _ _)]

/-- Padding an output of a loaded valid model without subgraphs keeps its meaning. Where the old
graph runs and gives the output a vector, the padded graph runs; every other value is unchanged, the
vector has the new name, and the output holds its first elements and zeros if it has too few. -/
theorem padding_keeps_meaning {Element Value : Type} {I : Interpretation Element Value}
    (lawful : I.Lawful) {bytes : Wire.Bytes} {model : Model} (hload : Model.load bytes = .ok model)
    (flat : ∀ node ∈ model.graph.nodes, node.message.subgraphs = [])
    {checks : ValidateOptions} (hvalid : model.graph.validate checks = .ok ())
    {selector : TensorSelector} {options : OutputOptions} (hmode : options.mode = .structural)
    {report : OutputReport} {after : Workspace}
    (hrun : runOn (fixOutput selector options) model = (.ok report, after))
    {assigned env : Environment Value} {value : List Element}
    (hold : I.evaluate model.graph assigned = some env)
    (houtput : env report.output = some (I.vector value)) :
    ∃ env' intermediate info padded,
      I.evaluate after.model.graph assigned = some env' ∧
      (∀ name ∈ model.graph.definitions, name ≠ report.output → env' name = env name) ∧
      (∀ other ∈ model.graph.outputs, other.name ≠ report.output →
        env' other.name = env other.name) ∧
      report.intermediate = some intermediate ∧ env' intermediate = some (I.vector value) ∧
      model.graph.output? report.output = some info ∧
      env' report.output = some (I.vector padded) ∧ padded.length = options.length ∧
      padded = value.take options.length ++
        List.replicate (options.length - value.length) (I.zero (info.elemType?.getD .float32)) := by
  have hcoherent := Model.coherent_of_load hload
  have hwf := (Graph.validate_eq_ok_iff hcoherent.indexed).mp hvalid
  have hcaptures : ∀ node ∈ model.graph.nodes, node.captures = [] := by
    intro node hnode
    obtain ⟨message, hmodel⟩ := Model.loadedFrom_of_load hload
    obtain ⟨_, _, hloaded⟩ := hmodel.graph
    have hsubgraphs := flat node hnode
    rw [hloaded.nodes_eq, List.mem_map] at hnode
    obtain ⟨nodeMessage, _, rfl⟩ := hnode
    exact Onnx.captures_eq_nil hsubgraphs
  have hruns : Runs (fixOutput selector options) { model } report after := hrun
  obtain ⟨output, _, rfl, _, _, hlength, hmodel⟩ := hruns.of_fixOutput
  rw [hmode] at hmodel
  obtain ⟨run⟩ := hmodel
  have padding := run.validPadding ⟨hcoherent, hwf⟩
  obtain ⟨_, haxis, info, hinfo, helemType⟩ := paddingBasis_sound run.basis_eq
  obtain ⟨env', heval, hkept, hintermediate, hpadded⟩ :=
    padding.evaluate_new lawful hcaptures run.zeros_eq haxis hlength hold houtput
  rw [take_append_replicate, helemType] at hpadded
  have hdefined : ∀ name ∈ model.graph.definitions, name ≠ report.output →
      env' name = env name := by
    intro name hname hother
    refine hkept name ?_ hother
    intro hmade
    exact padding.not_mem_definitions hmade hname
  refine ⟨env', run.names.intermediate, info, _, heval, hdefined, ?_,
    congrArg OutputReport.intermediate run.report_eq, hintermediate, hinfo, hpadded, ?_, rfl⟩
  · intro other hother hne
    refine hdefined other.name (Graph.mem_definitions.mpr ?_) hne
    rcases hwf.outputs_defined other hother with ⟨node, hnode, hwrites⟩ | hgiven
    · exact Or.inr (List.mem_flatMap.mpr ⟨node, hnode, hwrites.2⟩)
    · exact Or.inl hgiven
  · rw [List.length_append, List.length_take, List.length_replicate]
    omega

/-- The elements between two bounds, given as bytes. -/
def cut (elements : List Wire.Bytes) (start stop : Wire.Bytes) : List Wire.Bytes :=
  let bound (bytes : Wire.Bytes) : Nat := (Wire.Bytes.toWord64 bytes).toInt64.toNatClampNeg
  (elements.take (bound stop)).drop (bound start)

/-- Operators on vectors whose elements are bytes. -/
def byteOperator (opType : String) (values : List (Option (List Wire.Bytes))) :
    Option (List (List Wire.Bytes)) :=
  match opType, values with
  | "Identity", [some elements] => some [elements]
  | "Concat", [some first, some second] => some [first ++ second]
  | "Slice", [some elements, some [start], some [stop], some [_]] =>
    some [cut elements start stop]
  | _, _ => none

/-- An interpretation in which every value is a vector and elements are their bytes. -/
def byteVectors : Interpretation Wire.Bytes (List Wire.Bytes) :=
  { operator := fun opType _ values => byteOperator opType values
    constant := Interpretation.elements?
      { operator := fun _ _ _ => none
        constant := fun _ => none
        vector := id
        element := fun _ bytes => bytes }
    vector := id
    element := fun _ bytes => bytes }

theorem lawful_byteVectors : byteVectors.Lawful := by
  refine ⟨?_, ?_, ?_⟩
  · intro axis _ first second
    rfl
  · intro axis _ start stop _ _ elements
    have hbound : ∀ value : Int64,
        (Wire.Bytes.toWord64 (byteVectors.integer value)).toInt64.toNatClampNeg =
          value.toNatClampNeg := by
      intro value
      have hword : Wire.Bytes.toWord64 (byteVectors.integer value) = value.toUInt64 :=
        Wire.Bytes.toWord64_ofWord64 value.toUInt64
      rw [hword, Int64.toInt64_toUInt64]
    have hcut : cut elements (byteVectors.integer start) (byteVectors.integer stop) =
        (elements.take stop.toNatClampNeg).drop start.toNatClampNeg := by
      rw [← hbound start, ← hbound stop]
      rfl
    have hslice : ∀ first last only : Wire.Bytes,
        byteOperator "Slice" [some elements, some [first], some [last], some [only]] =
          some [cut elements first last] :=
      fun _ _ _ => rfl
    have hvector : ∀ elements, byteVectors.vector elements = elements := fun _ => rfl
    simp only [← hcut, hvector]
    exact hslice (byteVectors.integer start) (byteVectors.integer stop) (byteVectors.integer axis)
  · intro tensor elements h
    exact h

/-- A vector of three elements is padded to four. -/
theorem padding_keeps_meaning_three :
    let message : Onnx.Model :=
      { irVersion := some 8
        opsetImports := [{ domain := some "", version := some 13 }]
        graph := some
          { nodes := [{ opType := some "Identity", inputs := ["x"], outputs := ["y"] }]
            inputs := [{ name := some "x" }], outputs := [{ name := some "y" }] } }
    let assigned : Environment (List Wire.Bytes) :=
      fun name => if name = "x" then some [[1], [2], [3]] else none
    ∃ model report after env', Model.load message.encode = .ok model ∧
      runOn (fixOutput (.exactly ["y"]) { mode := .structural, length := 4 }) model =
        (.ok report, after) ∧
      byteVectors.evaluate after.model.graph assigned = some env' ∧
      env' report.output = some [[1], [2], [3], [0, 0, 0, 0]] := by
  intro message assigned
  have hruns : (match Model.load message.encode with
      | .ok model =>
        let (outcome, _) :=
          runOn (fixOutput (.exactly ["y"]) { mode := .structural, length := 4 }) model
        decide (model.graph.validate {} = .ok ()) &&
          (model.graph.nodes.all fun node => node.message.subgraphs.isEmpty) &&
          ((model.graph.output? "y").all fun info => info.elemType?.isNone) &&
          decide (outcome.toOption.map (·.output) = some "y") &&
          decide ((byteVectors.evaluate model.graph assigned).bind (· "y") =
            some [[1], [2], [3]])
      | .error _ => false) = true := by
    decide +kernel
  cases hload : Model.load message.encode with
  | error error =>
      rw [hload] at hruns
      cases hruns
  | ok model =>
      rcases hrun : runOn (fixOutput (.exactly ["y"]) { mode := .structural, length := 4 }) model
        with ⟨outcome, after⟩
      rw [hload] at hruns
      simp only [hrun, Bool.and_eq_true, decide_eq_true_eq, List.all_eq_true,
        List.isEmpty_iff] at hruns
      obtain ⟨⟨⟨⟨hvalid, hflat⟩, hinfo⟩, hreport⟩, hvalue⟩ := hruns
      cases outcome with
      | error error => cases hreport
      | ok report =>
          obtain ⟨env, hold, hy⟩ := Option.bind_eq_some_iff.mp hvalue
          have houtput : report.output = "y" := Option.some.inj hreport
          rw [← houtput] at hy hinfo
          obtain ⟨env', _, info, padded, heval, _, _, _, _, hdeclared, hpadded, _, heq⟩ :=
            padding_keeps_meaning lawful_byteVectors hload hflat hvalid rfl hrun hold hy
          rw [hdeclared, Option.all_some, Option.isNone_iff_eq_none] at hinfo
          rw [hinfo] at heq
          refine ⟨model, report, after, env', rfl, hrun, heval, ?_⟩
          rw [hpadded, heq]
          rfl

end Fixing

end FixedShape
