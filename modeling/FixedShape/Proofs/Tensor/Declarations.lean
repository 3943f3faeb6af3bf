/-
Module: FixedShape.Proofs.Tensor.Declarations
Purpose: Changing a declaration. Only the first declaration of a name changes, and a change of its
  type or shape leaves its name and is read back.
-/
import FixedShape.Tensor.TensorInfo
import Mathlib.Algebra.BigOperators.Group.List.Basic

namespace FixedShape

/-- A size up to the largest integer is read back as it was declared. -/
theorem Dimension.ofMessage_toMessage_fixed {size : Nat} (h : size ≤ maxInt64) :
    ofMessage (toMessage (.fixed size)) = .fixed size := by
  have hvalue : (Int64.ofNat (min size maxInt64)).toInt = size := by
    rw [Nat.min_eq_left h]
    exact Int64.toInt_ofNat_of_lt (Nat.lt_succ_of_le h)
  simp [ofMessage, toMessage, hvalue]

/-- A shape has a number of elements exactly if all its sizes are fixed; then it is their product. -/
theorem Shape.elementCount?_eq_some {shape : Shape} {count : Nat} :
    shape.elementCount? = some count ↔
      ∃ sizes : List Nat, shape = sizes.map .fixed ∧ sizes.prod = count := by
  induction shape generalizing count with
  | nil =>
      constructor
      · intro h
        cases h
        exact ⟨[], rfl, rfl⟩
      · rintro ⟨sizes, hsizes, rfl⟩
        rw [List.map_eq_nil_iff.mp hsizes.symm]
        rfl
  | cons dimension rest ih =>
      cases dimension with
      | fixed size =>
          have hcons : elementCount? (.fixed size :: rest) =
              (elementCount? rest).map (size * ·) := by
            unfold elementCount?
            rw [List.foldr_cons]
            cases List.foldr _ (some 1) rest <;> rfl
          rw [hcons, Option.map_eq_some_iff]
          constructor
          · rintro ⟨inner, hinner, rfl⟩
            obtain ⟨sizes, rfl, rfl⟩ := ih.mp hinner
            exact ⟨size :: sizes, rfl, List.prod_cons⟩
          · rintro ⟨sizes, hsizes, rfl⟩
            cases sizes with
            | nil => cases hsizes
            | cons first others =>
                obtain ⟨hfirst, hothers⟩ := List.cons.inj hsizes
                cases hfirst
                exact ⟨others.prod, ih.mpr ⟨others, hothers, rfl⟩, List.prod_cons.symm⟩
      | _ =>
          refine ⟨nofun, ?_⟩
          rintro ⟨sizes, hsizes, _⟩
          cases sizes <;> cases hsizes

namespace TensorInfo

@[simp] theorem name_setShape (shape : Shape) (info : TensorInfo) :
    (info.setShape shape).name = info.name := rfl

@[simp] theorem name_setElemType (elemType : ElementType) (info : TensorInfo) :
    (info.setElemType elemType).name = info.name := rfl

/-- A shape leaves the element type, also if the value was no tensor before. -/
theorem elemType?_setShape (shape : Shape) (info : TensorInfo) :
    (info.setShape shape).elemType? = info.elemType? := by
  unfold elemType? tensorType? setShape modifyTensorType
  cases info.message.type with
  | none => rfl
  | some type =>
      cases htensor : type.tensorType with
      | none => simp [htensor]
      | some tensorType => simp [htensor]

/-- An element type other than the undefined one is read back from its code. -/
theorem elemType?_setElemType {elemType : ElementType}
    (h : elemType.code ≠ Onnx.DataType.undefined) (info : TensorInfo) :
    (info.setElemType elemType).elemType? = some (.ofCode elemType.code) :=
  if_neg h

/-- Fixed sizes that can be declared are read back, whatever was declared before. -/
theorem shape?_setShape {sizes : List Nat} (h : ∀ size ∈ sizes, size ≤ maxInt64)
    (info : TensorInfo) :
    (info.setShape (sizes.map .fixed)).shape? = some (sizes.map .fixed) := by
  have hdims : ((sizes.map Dimension.fixed).map Dimension.toMessage).map Dimension.ofMessage =
      sizes.map .fixed := by
    rw [List.map_map, List.map_map]
    exact List.map_congr_left fun size hsize => Dimension.ofMessage_toMessage_fixed (h size hsize)
  exact congrArg some hdims

end TensorInfo

/-- Without a declaration of the name there is nothing to change. -/
theorem modifyInfo_eq_self {name : String} {change : TensorInfo → TensorInfo}
    {infos : List TensorInfo} (h : findInfo? name infos = none) :
    modifyInfo name change infos = infos := by
  induction infos with
  | nil => rfl
  | cons info rest ih =>
      unfold findInfo? at h ih
      rw [List.find?_cons] at h
      by_cases hname : info.name = name
      · simp [hname] at h
      · simp only [beq_false_of_ne hname] at h
        rw [modifyInfo, if_neg hname, ih h]

/-- The first declaration of a name is found after it was changed. -/
theorem findInfo?_modifyInfo {name : String} {change : TensorInfo → TensorInfo}
    (hchange : ∀ info, (change info).name = info.name) (infos : List TensorInfo) :
    findInfo? name (modifyInfo name change infos) = (findInfo? name infos).map change := by
  unfold findInfo?
  induction infos with
  | nil => rfl
  | cons info rest ih =>
      rw [modifyInfo]
      split
      · next hname => simp [hchange, hname]
      · next hname =>
          rw [List.find?_cons_of_neg (by simpa using hname), ih,
            List.find?_cons_of_neg (by simpa using hname)]

/-- A change that keeps names keeps the list of names. -/
theorem map_name_modifyInfo (name : String) {change : TensorInfo → TensorInfo}
    (hchange : ∀ info, (change info).name = info.name) (infos : List TensorInfo) :
    (modifyInfo name change infos).map (·.name) = infos.map (·.name) := by
  induction infos with
  | nil => rfl
  | cons info rest ih =>
      rw [modifyInfo]
      split
      · simp [hchange]
      · simp [ih]

/-- If no name is declared twice, the one declaration of a name changes. -/
theorem modifyInfo_eq_map {name : String} {change : TensorInfo → TensorInfo}
    {infos : List TensorInfo} (h : (infos.map (·.name)).Nodup) :
    modifyInfo name change infos =
      infos.map fun info => if info.name = name then change info else info := by
  induction infos with
  | nil => rfl
  | cons info rest ih =>
      rw [List.map_cons, List.nodup_cons] at h
      rw [modifyInfo, List.map_cons]
      split
      · next hname =>
          have hrest : rest.map (fun info => if info.name = name then change info else info) =
              rest := by
            rw [List.map_congr_left (g := id), List.map_id]
            intro other hother
            refine if_neg fun heq => h.1 ?_
            rw [hname, ← heq]
            exact List.mem_map_of_mem hother
          rw [hrest]
      · rw [ih h.2]

/-- What a change keeps of a declaration holds of all declarations after a change of one. -/
theorem forall_mem_modifyInfo {p : TensorInfo → Prop} {name : String}
    {change : TensorInfo → TensorInfo} {infos : List TensorInfo} (h : ∀ info ∈ infos, p info)
    (hchange : ∀ info, p info → p (change info)) : ∀ info ∈ modifyInfo name change infos, p info := by
  induction infos with
  | nil => exact h
  | cons first rest ih =>
      obtain ⟨hfirst, hrest⟩ := List.forall_mem_cons.mp h
      rw [modifyInfo]
      split
      · exact List.forall_mem_cons.mpr ⟨hchange first hfirst, hrest⟩
      · exact List.forall_mem_cons.mpr ⟨hfirst, ih hrest⟩

end FixedShape
