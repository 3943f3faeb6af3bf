/-
Module: FixedShape.Proofs.Validity.Redeclaration
Purpose: What an accepted graph promises of its declarations. Names and nodes decide whether it is
  well formed; of the shapes that must be static, those that stand first under their names count,
  and the ones behind them may be anything.
-/
import FixedShape.Proofs.Tensor.Declarations
import FixedShape.Proofs.Validity.Exactness

namespace FixedShape

namespace Graph

/-! ### Other declarations of the same names -/

/-- Two graphs that differ only in what they declare of their inputs and outputs. -/
structure Redeclared (old new : Graph) : Prop where
  inputs_eq : new.inputs.map (·.name) = old.inputs.map (·.name)
  outputs_eq : new.outputs.map (·.name) = old.outputs.map (·.name)
  nodes_eq : new.nodes = old.nodes
  initializers_eq : new.initializers = old.initializers

namespace Redeclared

variable {old new : Graph} (h : Redeclared old new)

include h

theorem given_iff {name : String} : new.Given name ↔ old.Given name := by
  have hmap : ∀ infos : List TensorInfo,
      (∃ info ∈ infos, info.name = name) ↔ name ∈ infos.map (·.name) :=
    fun _ => List.mem_map.symm
  unfold Given
  rw [hmap, hmap, h.inputs_eq, h.initializers_eq]

theorem needed {name : String} (hneeded : old.Needed name) : new.Needed name := by
  induction hneeded with
  | @output info hinfo =>
      have hmem : info.name ∈ new.outputs.map (·.name) := by
        rw [h.outputs_eq]
        exact List.mem_map_of_mem hinfo
      obtain ⟨other, hother, hname⟩ := List.mem_map.mp hmem
      rw [← hname]
      exact .output hother
  | read _ hnode hwrites hreads ih =>
      rw [← h.nodes_eq] at hnode
      exact ih.read hnode hwrites hreads

/-- Well-formedness looks at names and nodes alone, shapes that must be static apart. -/
theorem wellFormed {checks : ValidateOptions} (hstatic : checks.requireStatic = [])
    (wf : old.WellFormed checks) : new.WellFormed checks := by
  refine ⟨?_, ?_, ?_, ?_, ?_, ?_, ?_⟩
  · rw [h.inputs_eq]
    exact wf.inputs_nodup
  · rw [h.outputs_eq]
    exact wf.outputs_nodup
  · intro position node hnode name hname
    rw [h.given_iff]
    rw [h.nodes_eq] at hnode ⊢
    exact wf.ordered position node hnode name hname
  · intro node hnode name hwrites
    rw [h.given_iff]
    rw [h.nodes_eq] at hnode ⊢
    exact wf.single_source node hnode name hwrites
  · intro info hinfo
    have hmem : info.name ∈ new.outputs.map (·.name) := List.mem_map_of_mem hinfo
    rw [h.outputs_eq] at hmem
    obtain ⟨other, hother, hname⟩ := List.mem_map.mp hmem
    rw [h.given_iff, h.nodes_eq, ← hname]
    exact wf.outputs_defined other hother
  · intro hasked info hinfo hconstant
    have hmem : info.name ∈ new.inputs.map (·.name) := List.mem_map_of_mem hinfo
    rw [h.inputs_eq] at hmem
    obtain ⟨other, hother, hname⟩ := List.mem_map.mp hmem
    rw [h.initializers_eq] at hconstant
    rw [← hname] at hconstant ⊢
    exact h.needed (wf.inputs_needed hasked other hother hconstant)
  · rw [hstatic]
    intro name hname
    cases hname

end Redeclared

theorem redeclared_modifyInput (graph : Graph) (name : String) {change : TensorInfo → TensorInfo}
    (hchange : ∀ info, (change info).name = info.name) :
    Redeclared graph (graph.modifyInput name change) :=
  ⟨map_name_modifyInfo name hchange graph.inputs, rfl, rfl, rfl⟩

theorem redeclared_modifyOutput (graph : Graph) (name : String) {change : TensorInfo → TensorInfo}
    (hchange : ∀ info, (change info).name = info.name) :
    Redeclared graph (graph.modifyOutput name change) :=
  ⟨rfl, map_name_modifyInfo name hchange graph.outputs, rfl, rfl⟩

/-! ### Declarations in the shadow of others -/

end Graph

/-- A declaration with a known shape of fixed sizes. -/
def TensorInfo.Static (info : TensorInfo) : Prop :=
  ∃ shape, info.shape? = some shape ∧ ∀ dimension ∈ shape, ∃ size, dimension = .fixed size

instance (info : TensorInfo) : Decidable info.Static := decidable_of_iff _ Graph.isStatic_iff

/-- A declaration behind others is shadowed if one of them has its name. -/
def Shadowed (before : List TensorInfo) (info : TensorInfo) : Prop :=
  ∃ other ∈ before, other.name = info.name

instance (before : List TensorInfo) (info : TensorInfo) : Decidable (Shadowed before info) :=
  inferInstanceAs (Decidable (∃ _ ∈ _, _))

/-- What is found under a name is the declaration of the name that is not shadowed. -/
theorem find?_eq_some_iff_not_shadowed {infos : List TensorInfo} {name : String}
    {info : TensorInfo} :
    infos.find? (·.name = name) = some info ↔
      info.name = name ∧
        ∃ position, infos[position]? = some info ∧ ¬ Shadowed (infos.take position) info := by
  rw [List.find?_eq_some_iff_getElem]
  simp only [decide_eq_true_eq, Bool.not_eq_eq_eq_not, Bool.not_true, decide_eq_false_iff_not]
  refine and_congr_right fun hname => exists_congr fun position => ?_
  subst hname
  constructor
  · rintro ⟨hlt, hat, hbefore⟩
    refine ⟨List.getElem?_eq_some_iff.mpr ⟨hlt, hat⟩, ?_⟩
    rintro ⟨other, hother, hname⟩
    obtain ⟨earlier, hearlier, rfl⟩ := List.mem_take_iff_getElem.mp hother
    exact hbefore earlier (Nat.lt_of_lt_of_le hearlier (Nat.min_le_left _ _)) hname
  · rintro ⟨hat, hfirst⟩
    obtain ⟨hlt, hat⟩ := List.getElem?_eq_some_iff.mp hat
    refine ⟨hlt, hat, fun earlier hearlier hname => hfirst ⟨_, ?_, hname⟩⟩
    exact List.mem_take_iff_getElem.mpr ⟨earlier, Nat.lt_min.mpr ⟨hearlier, by omega⟩, rfl⟩

/-- Among declarations of different names none shadows another. -/
theorem not_shadowed_of_nodup {infos : List TensorInfo} {position : Nat} {info : TensorInfo}
    (h : (infos.map (·.name)).Nodup) (hat : infos[position]? = some info) :
    ¬ Shadowed (infos.take position) info := by
  obtain ⟨hlt, rfl⟩ := List.getElem?_eq_some_iff.mp hat
  rintro ⟨other, hother, hname⟩
  obtain ⟨earlier, hearlier, rfl⟩ := List.mem_take_iff_getElem.mp hother
  have hdistinct := List.pairwise_iff_getElem.mp (List.pairwise_map.mp h)
  exact hdistinct earlier position _ hlt (Nat.lt_of_lt_of_le hearlier (Nat.min_le_left _ _)) hname

theorem shadowed_append {first second : List TensorInfo} {info : TensorInfo} :
    Shadowed (first ++ second) info ↔ Shadowed first info ∨ Shadowed second info := by
  simp [Shadowed, or_and_right, exists_or]

namespace Graph

/-- The declarations of a graph, in the order in which a name is looked up. -/
def declarations (graph : Graph) : List TensorInfo :=
  graph.inputs ++ (graph.outputs ++ graph.valueInfo)

/-- The declarations of some names are static, but for those that are shadowed. Inputs never are,
outputs by inputs only. -/
structure StaticUnlessShadowed (names : List String) (graph : Graph) : Prop where
  inputs : ∀ info ∈ graph.inputs, info.name ∈ names → info.Static
  outputs : ∀ info ∈ graph.outputs, info.name ∈ names →
    info.Static ∨ Shadowed graph.inputs info
  valueInfo : ∀ (position : Nat) (info : TensorInfo), graph.valueInfo[position]? = some info →
    info.name ∈ names →
      info.Static ∨ Shadowed (graph.inputs ++ (graph.outputs ++ graph.valueInfo.take position)) info

/-- Two graphs that declare the same names and differ only in declarations that are shadowed. -/
structure DiffersInShadow (old new : Graph) : Prop where
  rest_eq : new = { old with outputs := new.outputs, valueInfo := new.valueInfo }
  outputs_eq : new.outputs.map (·.name) = old.outputs.map (·.name)
  valueInfo_eq : new.valueInfo.map (·.name) = old.valueInfo.map (·.name)
  kept : ∀ (position : Nat) (info : TensorInfo), old.declarations[position]? = some info →
    ¬ Shadowed (old.declarations.take position) info →
      new.declarations[position]? = some info

section

variable {options : ValidateOptions} {graph old new : Graph}

/-- Shapes that must be static are asked for apart from all else. -/
theorem wellFormed_iff_unrequired :
    graph.WellFormed options ↔ graph.WellFormed { options with requireStatic := [] } ∧
      ∀ name ∈ options.requireStatic, ∀ info,
        graph.declarations.find? (·.name = name) = some info → info.Static := by
  constructor
  · intro h
    exact ⟨⟨h.inputs_nodup, h.outputs_nodup, h.ordered, h.single_source, h.outputs_defined,
      h.inputs_needed, nofun⟩, h.declared_static⟩
  · rintro ⟨h, hstatic⟩
    exact ⟨h.inputs_nodup, h.outputs_nodup, h.ordered, h.single_source, h.outputs_defined,
      h.inputs_needed, hstatic⟩

/-- A declaration that no other shadows is the one that must be static. -/
theorem WellFormed.static_of_not_shadowed (h : graph.WellFormed options) {position : Nat}
    {info : TensorInfo} (hat : graph.declarations[position]? = some info)
    (hrequired : info.name ∈ options.requireStatic)
    (hfirst : ¬ Shadowed (graph.declarations.take position) info) : info.Static :=
  h.declared_static info.name hrequired info
    (find?_eq_some_iff_not_shadowed.mpr ⟨rfl, position, hat, hfirst⟩)

/-! #### Positions in the list of declarations -/

theorem declarations_input {position : Nat} {info : TensorInfo}
    (hat : graph.inputs[position]? = some info) :
    graph.declarations[position]? = some info ∧
      graph.declarations.take position = graph.inputs.take position := by
  obtain ⟨hlt, -⟩ := List.getElem?_eq_some_iff.mp hat
  exact ⟨by rw [declarations, List.getElem?_append_left hlt, hat],
    List.take_append_of_le_length (Nat.le_of_lt hlt)⟩

theorem declarations_output {position : Nat} {info : TensorInfo}
    (hat : graph.outputs[position]? = some info) :
    graph.declarations[graph.inputs.length + position]? = some info ∧
      graph.declarations.take (graph.inputs.length + position) =
        graph.inputs ++ graph.outputs.take position := by
  obtain ⟨hlt, -⟩ := List.getElem?_eq_some_iff.mp hat
  refine ⟨?_, ?_⟩
  · rw [declarations, List.getElem?_append_right (Nat.le_add_right _ _), Nat.add_sub_cancel_left,
      List.getElem?_append_left hlt, hat]
  · rw [declarations, List.take_length_add_append,
      List.take_append_of_le_length (Nat.le_of_lt hlt)]

theorem declarations_valueInfo {position : Nat} {info : TensorInfo}
    (hat : graph.valueInfo[position]? = some info) :
    graph.declarations[graph.inputs.length + (graph.outputs.length + position)]? = some info ∧
      graph.declarations.take (graph.inputs.length + (graph.outputs.length + position)) =
        graph.inputs ++ (graph.outputs ++ graph.valueInfo.take position) := by
  refine ⟨?_, ?_⟩
  · rw [declarations, List.getElem?_append_right (Nat.le_add_right _ _), Nat.add_sub_cancel_left,
      List.getElem?_append_right (Nat.le_add_right _ _), Nat.add_sub_cancel_left, hat]
  · rw [declarations, List.take_length_add_append, List.take_length_add_append]

theorem WellFormed.staticUnlessShadowed (h : graph.WellFormed options) :
    graph.StaticUnlessShadowed options.requireStatic := by
  refine ⟨?_, ?_, ?_⟩
  · intro info hinfo hrequired
    obtain ⟨position, hat⟩ := List.getElem?_of_mem hinfo
    obtain ⟨hdeclared, hbefore⟩ := declarations_input hat
    refine h.static_of_not_shadowed hdeclared hrequired ?_
    rw [hbefore]
    exact not_shadowed_of_nodup h.inputs_nodup hat
  · intro info hinfo hrequired
    obtain ⟨position, hat⟩ := List.getElem?_of_mem hinfo
    obtain ⟨hdeclared, hbefore⟩ := declarations_output hat
    refine or_iff_not_imp_right.mpr fun hshadow => ?_
    refine h.static_of_not_shadowed hdeclared hrequired ?_
    rw [hbefore, shadowed_append]
    exact not_or.mpr ⟨hshadow, not_shadowed_of_nodup h.outputs_nodup hat⟩
  · intro position info hat hrequired
    obtain ⟨hdeclared, hbefore⟩ := declarations_valueInfo hat
    refine or_iff_not_imp_right.mpr fun hshadow => ?_
    refine h.static_of_not_shadowed hdeclared hrequired ?_
    rwa [hbefore]

namespace DiffersInShadow

variable (h : DiffersInShadow old new)

include h

theorem inputs_eq : new.inputs = old.inputs := by
  rw [h.rest_eq]

theorem redeclared : Redeclared old new :=
  ⟨congrArg _ h.inputs_eq, h.outputs_eq, by rw [h.rest_eq], by rw [h.rest_eq]⟩

theorem names_eq : new.declarations.map (·.name) = old.declarations.map (·.name) := by
  simp only [declarations, List.map_append, h.inputs_eq, h.outputs_eq, h.valueInfo_eq]

/-- Both graphs declare the same of a name, as far as a look-up finds it. -/
theorem find?_eq (name : String) :
    new.declarations.find? (·.name = name) = old.declarations.find? (·.name = name) := by
  cases hold : old.declarations.find? (·.name = name) with
  | none =>
      rw [List.find?_eq_none] at hold ⊢
      intro info hinfo hname
      have hmem : info.name ∈ new.declarations.map (·.name) := List.mem_map_of_mem hinfo
      rw [h.names_eq] at hmem
      obtain ⟨other, hother, hsame⟩ := List.mem_map.mp hmem
      exact hold other hother (by rw [hsame]; exact hname)
  | some info =>
      obtain ⟨hname, position, hat, hfirst⟩ := find?_eq_some_iff_not_shadowed.mp hold
      refine find?_eq_some_iff_not_shadowed.mpr ⟨hname, position, h.kept _ _ hat hfirst, ?_⟩
      rintro ⟨other, hother, hsame⟩
      have hmem : other.name ∈ (new.declarations.take position).map (·.name) :=
        List.mem_map_of_mem hother
      rw [List.map_take, h.names_eq, ← List.map_take] at hmem
      obtain ⟨third, hthird, heq⟩ := List.mem_map.mp hmem
      exact hfirst ⟨third, hthird, heq.trans hsame⟩

theorem wellFormed (wf : old.WellFormed options) : new.WellFormed options := by
  rw [wellFormed_iff_unrequired] at wf ⊢
  refine ⟨h.redeclared.wellFormed rfl wf.1, ?_⟩
  intro name hname info hfound
  rw [h.find?_eq] at hfound
  exact wf.2 name hname info hfound

theorem indexed (hindexed : old.Indexed) : new.Indexed := by
  rw [h.rest_eq]
  exact hindexed

end DiffersInShadow

/-- An accepted graph declares static shapes for all names that must have them, except in
declarations behind others of the same name. These may say anything: with any other shapes there
the graph is accepted just as well. -/
theorem required_static_unless_shadowed {message : Onnx.Graph}
    (loaded : ofMessage message = .ok graph) (accepted : graph.validate options = .ok ()) :
    graph.StaticUnlessShadowed options.requireStatic ∧
      ∀ other, DiffersInShadow graph other → other.validate options = .ok () := by
  have hindexed := (loadedFrom_of_ofMessage loaded).indexed
  have wf := (validate_eq_ok_iff hindexed).mp accepted
  refine ⟨wf.staticUnlessShadowed, fun other hother => ?_⟩
  exact (validate_eq_ok_iff (hother.indexed hindexed)).mpr (hother.wellFormed wf)

/-- An input passes through to the outputs, and a computed value is declared twice. Both second
declarations are open, and leaving out what they say is accepted as well. -/
theorem required_static_unless_shadowed_passthrough :
    let declare (name : String) (dims : List Onnx.Dimension) : Onnx.ValueInfo :=
      { name := some name, type := some { tensorType := some { shape := some { dims } } } }
    let sized (value : Int64) : List Onnx.Dimension := [{ value := some value }]
    let unsized : List Onnx.Dimension := [{ param := some "n" }]
    let message : Onnx.Graph :=
      { nodes := [{ opType := some "Relu", inputs := ["x"], outputs := ["y"] }]
        inputs := [declare "x" (sized 2)], outputs := [declare "x" unsized, declare "y" (sized 3)]
        valueInfo := [declare "y" unsized] }
    let options : ValidateOptions := { requireStatic := ["x", "y"] }
    ∃ graph, ofMessage message = .ok graph ∧ graph.validate options = .ok () ∧
      graph.StaticUnlessShadowed ["x", "y"] ∧
      { graph with valueInfo := [{ name := "y", message := {} }] }.validate options = .ok () := by
  intro declare sized unsized message options
  obtain ⟨graph, loaded, accepted, hnames, hshadow⟩ :
      ∃ graph, ofMessage message = .ok graph ∧ graph.validate options = .ok () ∧
        graph.valueInfo.map (·.name) = ["y"] ∧
        ∀ info ∈ graph.valueInfo, Shadowed (graph.inputs ++ graph.outputs) info :=
    ⟨_, rfl, by decide, by decide, by decide⟩
  obtain ⟨hstatic, hothers⟩ := required_static_unless_shadowed loaded accepted
  refine ⟨graph, loaded, accepted, hstatic, hothers _ ⟨rfl, rfl, hnames.symm, ?_⟩⟩
  intro position info hat hfirst
  simp only [declarations, ← List.append_assoc] at hat hfirst ⊢
  rcases Nat.lt_or_ge position (graph.inputs ++ graph.outputs).length with hlt | hge
  · rw [List.getElem?_append_left hlt] at hat ⊢
    exact hat
  · rw [List.getElem?_append_right hge] at hat
    rw [List.take_append, List.take_of_length_le hge, shadowed_append] at hfirst
    exact absurd (Or.inl (hshadow info (List.mem_of_getElem? hat))) hfirst

/-- The input that passes through is required to be static. As an output it is open, and the graph
is accepted. -/
theorem open_output_accepted :
    let declare (dimension : Onnx.Dimension) : Onnx.ValueInfo :=
      { name := some "x"
        type := some { tensorType := some { shape := some { dims := [dimension] } } } }
    let message : Onnx.Graph :=
      { inputs := [declare { value := some 4 }], outputs := [declare { param := some "n" }] }
    ∃ graph, ofMessage message = .ok graph ∧
      graph.validate { requireStatic := ["x"] } = .ok () ∧
      ∃ info ∈ graph.outputs, info.name = "x" ∧ info.shape? = some [.symbolic "n"] ∧
        ¬ info.Static := by
  intro declare message
  exact ⟨_, rfl, by decide, _, List.mem_cons_self, by decide, by decide, by decide⟩

end

end Graph

end FixedShape
