/-
Module: FixedShape.Proofs.Fixing.InputLaws
Purpose: How runs that fix inputs go together. A run replaces the lists of dimensions of the chosen
  inputs and nothing else, so that a later run with the same choice takes its place, and runs with
  choices apart may be made in either order.
-/
import FixedShape.Proofs.Fixing.Failing
import FixedShape.Proofs.Fixing.Guarantees

namespace FixedShape

/-! ### Declarations -/

namespace Onnx

/-- The tensor type of a declaration. -/
def ValueInfo.tensorType? (value : ValueInfo) : Option TensorType := value.type.bind (·.tensorType)

/-- The shape of a declaration. -/
def ValueInfo.shape? (value : ValueInfo) : Option TensorShape := value.tensorType?.bind (·.shape)

/-- A declaration before and after its list of dimensions was replaced. A part that was absent is
there with no more in it than the list needs. -/
structure ValueInfo.Redimensioned (dims : List Dimension) (old new : ValueInfo) : Prop where
  dims_eq : new.shape?.map (·.dims) = some dims
  name_eq : new.name = old.name
  elemType_eq : new.tensorType?.bind (·.elemType) = old.tensorType?.bind (·.elemType)
  docString_eq : new.docString = old.docString
  unknownFields_eq : new.unknownFields = old.unknownFields
  typeFields_eq : (new.type.getD {}).unknownFields = (old.type.getD {}).unknownFields
  tensorFields_eq :
    (new.tensorType?.getD {}).unknownFields = (old.tensorType?.getD {}).unknownFields
  shapeFields_eq : (new.shape?.getD {}).unknownFields = (old.shape?.getD {}).unknownFields

end Onnx

namespace TensorInfo

/-- Declaring a shape replaces the list of dimensions. -/
theorem redimensioned_setShape (shape : Shape) (info : TensorInfo) :
    Onnx.ValueInfo.Redimensioned (shape.map Dimension.toMessage) info.toMessage
      (info.setShape shape).toMessage := by
  rcases info with ⟨name, _, type, docString, fields⟩
  rcases type with - | ⟨- | ⟨elemType, - | shape, tensorFields⟩, typeFields⟩ <;>
    exact ⟨rfl, rfl, rfl, rfl, rfl, rfl, rfl, rfl⟩

/-- The last shape that is declared takes the place of those before. -/
theorem setShape_setShape (first second : Shape) (info : TensorInfo) :
    (info.setShape first).setShape second = info.setShape second := rfl

end TensorInfo

namespace Fixing

section

variable {length other : Nat} {names others : List String}

/-- Declaring names once more, to another length, declares them to the last one. -/
theorem declareInputs_declareInputs (length other : Nat) (names : List String)
    (info : TensorInfo) :
    declareInputs other names (declareInputs length names info) =
      declareInputs other names info := by
  by_cases hname : info.name ∈ names
  · simp only [declareInputs, if_pos hname, TensorInfo.name_setShape, TensorInfo.setShape_setShape]
  · simp only [declareInputs, if_neg hname]

/-- Declaring names and declaring names apart from them may be done in either order. -/
theorem declareInputs_comm (h : names.Disjoint others) (info : TensorInfo) :
    declareInputs other others (declareInputs length names info) =
      declareInputs length names (declareInputs other others info) := by
  by_cases hname : info.name ∈ names
  · have hother : info.name ∉ others := fun hmem => h hname hmem
    simp only [declareInputs, if_pos hname, if_neg hother, TensorInfo.name_setShape]
  · by_cases hother : info.name ∈ others
    · simp only [declareInputs, if_neg hname, if_pos hother, TensorInfo.name_setShape]
    · simp only [declareInputs, if_neg hname, if_neg hother]

end

/-! ### Models -/

theorem names_declareNames (length : Nat) (names : List String) (model : Model) :
    (declareNames length names model).graph.inputs.map (·.name) =
      model.graph.inputs.map (·.name) := by
  unfold declareNames
  rw [List.map_map]
  exact List.map_congr_left fun info _ => name_declareInputs length names info

theorem declareNames_declareNames (length other : Nat) (names : List String) (model : Model) :
    declareNames other names (declareNames length names model) =
      declareNames other names model := by
  simp only [declareNames, List.map_map, Function.comp_def, declareInputs_declareInputs]

theorem declareNames_comm {length other : Nat} {names others : List String}
    (h : names.Disjoint others) (model : Model) :
    declareNames other others (declareNames length names model) =
      declareNames length names (declareNames other others model) := by
  simp only [declareNames, List.map_map, Function.comp_def, declareInputs_comm h]

/-! ### Runs -/

/-- A step makes one model of another and gives a result. What it tells is left out. -/
def Makes {α : Type} (step : Fixing α) (before : Model) (result : α) (after : Model) : Prop :=
  ∃ log, Runs step { model := before } result { model := after, log }

/-- What a step makes of a model is determined. -/
theorem Makes.unique {α : Type} {step : Fixing α} {before after after' : Model}
    {result result' : α} (h : Makes step before result after)
    (h' : Makes step before result' after') : result' = result ∧ after' = after := by
  obtain ⟨log, hrun⟩ := h
  obtain ⟨log', hrun'⟩ := h'
  cases hrun.symm.trans hrun'
  exact ⟨rfl, rfl⟩

/-- Fixing inputs succeeds exactly if the length can be declared and the choice succeeds. -/
theorem passes_fixInputs {selector : TensorSelector} {length : Nat} {before : Workspace} :
    Passes (fixInputs selector length) before ↔
      0 < length ∧ length ≤ maxInt64 ∧
        ∃ names, selector.select (before.model.graph.inputs.map (·.name)) = .ok names := by
  constructor
  · rintro ⟨names, after, hrun⟩
    obtain ⟨hpos, hsmall, hselect, _⟩ := hrun.of_fixInputs
    exact ⟨hpos, hsmall, names, hselect⟩
  · rintro ⟨hpos, hsmall, names, hselect⟩
    unfold fixInputs
    simp only [passes_ite_throw, passes_bind, runs_graph]
    refine ⟨Nat.ne_of_gt hpos, Nat.not_lt_of_le hsmall, _, before, ⟨rfl, rfl⟩, ?_⟩
    rw [hselect]
    exact ((unfailing_forM (unfailing_fixInput length) names).bind fun _ => unfailing_pure names)
      before

section

variable {selector : TensorSelector} {length : Nat} {names : List String} {before after : Model}

/-- If no input is declared twice, fixing inputs declares the chosen ones. -/
theorem makes_fixInputs (distinct : (before.graph.inputs.map (·.name)).Nodup) :
    Makes (fixInputs selector length) before names after ↔
      0 < length ∧ length ≤ maxInt64 ∧
        selector.select (before.graph.inputs.map (·.name)) = .ok names ∧
        after = declareNames length names before := by
  constructor
  · rintro ⟨log, hrun⟩
    obtain ⟨hpos, hsmall, hselect, _⟩ := hrun.of_fixInputs
    exact ⟨hpos, hsmall, hselect, hrun.model_eq_declareNames distinct⟩
  · rintro ⟨hpos, hsmall, hselect, rfl⟩
    have hpasses : Passes (fixInputs selector length) { model := before } :=
      passes_fixInputs.mpr ⟨hpos, hsmall, names, hselect⟩
    obtain ⟨chosen, ⟨model, log⟩, hrun⟩ := hpasses
    obtain ⟨_, _, hchosen, _⟩ := hrun.of_fixInputs
    obtain rfl := Except.ok.inj (hchosen.symm.trans hselect)
    obtain rfl : model = declareNames length chosen before := hrun.model_eq_declareNames distinct
    exact ⟨log, hrun⟩

/-- What a run that fixes inputs does to the declaration of an input. -/
structure InputDeclared (length : Nat) (names : List String) (old new : TensorInfo) : Prop where
  shape_eq : old.name ∈ names → new.shape? = some [.fixed 1, .fixed length]
  elemType_eq : old.name ∈ names → new.elemType? = old.elemType?
  message : old.name ∈ names →
    Onnx.ValueInfo.Redimensioned [{ value := some 1 }, { value := some (Int64.ofNat length) }]
      old.toMessage new.toMessage
  kept : old.name ∉ names → new = old

theorem inputDeclared_declareInputs (h : length ≤ maxInt64) (names : List String)
    (info : TensorInfo) : InputDeclared length names info (declareInputs length names info) := by
  refine ⟨fun hname => ?_, fun hname => ?_, fun hname => ?_, fun hname => if_neg hname⟩
  · rw [declareInputs, if_pos hname]
    exact shape?_setShape_sequence h info
  · rw [declareInputs, if_pos hname]
    exact TensorInfo.elemType?_setShape _ info
  · have hmessage := info.redimensioned_setShape (sequenceShape length)
    rw [declareInputs, if_pos hname]
    simp only [sequenceShape, List.map_cons, List.map_nil, Dimension.toMessage,
      Nat.min_eq_left h] at hmessage
    exact hmessage

/-- What a run that fixes inputs makes of a model, and what further runs make of both. -/
structure InputsFixed (selector : TensorSelector) (length : Nat) (before : Model)
    (names : List String) (after : Model) : Prop where
  names_eq : names = (before.graph.inputs.map (·.name)).filter (· ∈ selector.names)
  inputs : List.Forall₂ (InputDeclared length names) before.graph.inputs after.graph.inputs
  message_eq : after.graph.toMessage =
    { before.graph.toMessage with inputs := after.graph.inputs.map TensorInfo.toMessage }
  rest_eq : after = { before with graph := { before.graph with inputs := after.graph.inputs } }
  again : Makes (fixInputs selector length) after names after
  again_bytes : ∀ chosen last, Makes (fixInputs selector length) after chosen last →
    last.toBytes = after.toBytes
  overwritten : ∀ other chosen last,
    Makes (fixInputs selector other) after chosen last ↔
      Makes (fixInputs selector other) before chosen last
  commutes : ∀ selector' length' names' last, names.Disjoint names' →
    Makes (fixInputs selector' length') after names' last →
      ∃ other, Makes (fixInputs selector' length') before names' other ∧
        Makes (fixInputs selector length) other names last

/-- Fixing inputs obeys these laws, whatever was declared of them, if no input is declared twice. -/
theorem fixInputs_laws (distinct : (before.graph.inputs.map (·.name)).Nodup)
    (h : Makes (fixInputs selector length) before names after) :
    InputsFixed selector length before names after := by
  obtain ⟨hpos, hsmall, hselect, rfl⟩ := (makes_fixInputs distinct).mp h
  have hkept := names_declareNames length names before
  have hdistinct : ((declareNames length names before).graph.inputs.map (·.name)).Nodup :=
    hkept ▸ distinct
  have hoverwritten : ∀ other chosen last,
      Makes (fixInputs selector other) (declareNames length names before) chosen last ↔
        Makes (fixInputs selector other) before chosen last := by
    intro other chosen last
    rw [makes_fixInputs hdistinct, makes_fixInputs distinct, hkept]
    refine and_congr_right fun _ => and_congr_right fun _ => and_congr_right fun hchosen => ?_
    obtain rfl := Except.ok.inj (hchosen.symm.trans hselect)
    rw [declareNames_declareNames]
  have hagain := (hoverwritten length names _).mpr h
  refine
    { names_eq := TensorSelector.eq_filter_of_select hselect
      inputs := ?_
      message_eq := rfl
      rest_eq := rfl
      again := hagain
      again_bytes := fun chosen last hlast => congrArg Model.toBytes (hagain.unique hlast).2
      overwritten := hoverwritten
      commutes := ?_ }
  · refine List.forall₂_map_right_iff.mpr (List.forall₂_same.mpr fun info _ => ?_)
    exact inputDeclared_declareInputs hsmall names info
  · intro selector' length' names' last hdisjoint hlast
    obtain ⟨hpos', hsmall', hselect', rfl⟩ := (makes_fixInputs hdistinct).mp hlast
    rw [hkept] at hselect'
    have hother := names_declareNames length' names' before
    refine ⟨declareNames length' names' before,
      (makes_fixInputs distinct).mpr ⟨hpos', hsmall', hselect', rfl⟩,
      (makes_fixInputs (hother ▸ distinct)).mpr ⟨hpos, hsmall, hother ▸ hselect, ?_⟩⟩
    exact declareNames_comm hdisjoint before

/-- Inputs without a type, of no tensor, without a rank, and of a shape with more in it than its
dimensions. The last one is left to another run. -/
theorem fixInputs_laws_four :
    let field : Wire.Field := { number := 9, value := .varint 5 }
    let shape : Option Onnx.TensorShape :=
      some { dims := [{ param := some "n", unknownFields := [field] }], unknownFields := [field] }
    let graph : Graph :=
      { inputs := [
          { name := "a", message := { docString := some "first" } },
          { name := "b", message := { type := some { unknownFields := [field] } } },
          { name := "c", message := { type := some { tensorType := some {} } } },
          { name := "d", message := { type := some { tensorType := some { shape } } } }] }
    let model : Model := .new graph 17
    let all : TensorSelector := .exactly ["c", "a", "b"]
    let last : TensorSelector := .anyOf ["d", "e"]
    ∃ fixed fixedLast,
      (model.graph.inputs.map (·.name)).Nodup ∧
      Makes (fixInputs all maxInt64) model ["a", "b", "c"] fixed ∧
      Makes (fixInputs last 4) fixed ["d"] fixedLast ∧
      InputsFixed all maxInt64 model ["a", "b", "c"] fixed := by
  intro field shape graph model all last
  have hdistinct : (model.graph.inputs.map (·.name)).Nodup := by decide
  have hfixed : Makes (fixInputs all maxInt64) model ["a", "b", "c"] _ :=
    (makes_fixInputs hdistinct).mpr ⟨by decide, Nat.le_refl maxInt64, by decide, rfl⟩
  have hkept := names_declareNames maxInt64 ["a", "b", "c"] model
  have hlast : Makes (fixInputs last 4) (declareNames maxInt64 ["a", "b", "c"] model) ["d"] _ :=
    (makes_fixInputs (hkept ▸ hdistinct)).mpr ⟨by decide, by decide, hkept ▸ by decide, rfl⟩
  exact ⟨_, _, hdistinct, hfixed, hlast, fixInputs_laws hdistinct hfixed⟩

end

end Fixing

end FixedShape
