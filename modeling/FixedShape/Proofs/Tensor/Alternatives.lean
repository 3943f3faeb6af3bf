/-
Module: FixedShape.Proofs.Tensor.Alternatives
Purpose: What a dimension is read as if its bytes declare a size and a name. The last of each is
  kept, and a size that is kept goes before a name, whichever of them came last.
-/
import FixedShape.Proofs.Onnx.Reading
import FixedShape.Tensor.TensorInfo

namespace FixedShape.Onnx.Dimension

open FixedShape.Outcome
open FixedShape.Wire

/-! ### What fields declare -/

/-- What a field can declare of a dimension. -/
inductive Alternative where
  | size (value : Int64)
  | label (name : String)
  deriving DecidableEq, Repr

namespace Alternative

def size? : Alternative → Option Int64
  | .size value => some value
  | .label _ => none

def label? : Alternative → Option String
  | .size _ => none
  | .label name => some name

theorem size?_eq_some {alternative : Alternative} {value : Int64} :
    alternative.size? = some value ↔ alternative = .size value := by
  cases alternative <;> simp [size?]

theorem label?_eq_some {alternative : Alternative} {name : String} :
    alternative.label? = some name ↔ alternative = .label name := by
  cases alternative <;> simp [label?]

/-- What an alternative says of a dimension. A negative size and an empty name say nothing. -/
def view : Alternative → FixedShape.Dimension
  | .size value => if 0 ≤ value.toInt then .fixed value.toInt.toNat else .unknown
  | .label name => if name = "" then .unknown else .symbolic name

/-- The alternative that a field declares. -/
def ofField? (field : Field) : Option Alternative :=
  match field.number with
  | 1 => (field.asInt64 MessageType.dimension.context).toOption.map .size
  | 2 => (field.asText MessageType.dimension.context).toOption.map .label
  | _ => none

end Alternative

/-- The alternatives that the bytes of a dimension declare, in their order. -/
def alternatives (buffer : Bytes) : List Alternative :=
  (Field.scan MessageType.dimension.context buffer).items.filterMap Alternative.ofField?

/-- Bytes that declare both a size and a name. -/
def Mixed (declared : List Alternative) : Prop :=
  (∃ value, .size value ∈ declared) ∧ ∃ name, .label name ∈ declared

/-! ### The last value that a list sets -/

section

variable {α β : Type} {set : α → Option β} {items : List α}

/-- What one more item in front adds to the last value that a list sets. -/
theorem getLast?_filterMap_cons (set : α → Option β) (item : α) (items : List α) :
    ((item :: items).filterMap set).getLast? = (items.filterMap set).getLast?.or (set item) := by
  cases hset : set item with
  | none => simp [hset]
  | some value =>
      cases hrest : (items.filterMap set).getLast? <;> simp [hset, List.getLast?_cons, hrest]

/-- A list sets no value exactly if it has none of the items that set one. -/
theorem getLast?_filterMap_eq_none {make : β → α}
    (hset : ∀ {item value}, set item = some value ↔ item = make value) :
    (items.filterMap set).getLast? = none ↔ ¬ ∃ value, make value ∈ items := by
  rw [List.getLast?_eq_none_iff, List.filterMap_eq_nil_iff]
  constructor
  · rintro hnone ⟨value, hvalue⟩
    cases (hset.mpr rfl).symm.trans (hnone _ hvalue)
  · intro hnone item hitem
    by_contra hsome
    obtain ⟨value, hvalue⟩ := Option.ne_none_iff_exists'.mp hsome
    exact hnone ⟨value, hset.mp hvalue ▸ hitem⟩

/-- If the last item sets a value, that is the last value set. -/
theorem getLast?_filterMap_of_last {item : α} {value : β} (hlast : items.getLast? = some item)
    (hset : set item = some value) :
    (items.filterMap set).getLast? = some value := by
  obtain ⟨front, rfl⟩ := List.getLast?_eq_some_iff.mp hlast
  rw [List.filterMap_append, List.filterMap_cons_some hset, List.filterMap_nil,
    List.getLast?_concat]

end

/-! ### What the message holds -/

/-- A field that is taken sets what it declares and leaves the rest. -/
theorem sets_of_step {before after : Dimension} {field : Field} (h : step before field = .ok after) :
    after.value = ((Alternative.ofField? field).bind (·.size?)).or before.value ∧
      after.param = ((Alternative.ofField? field).bind (·.label?)).or before.param ∧
      (field.number = 1 ∨ field.number = 2 → (Alternative.ofField? field).isSome) := by
  unfold step at h
  split at h
  · next hnumber =>
      obtain ⟨value, hvalue, rfl⟩ := bind_pure_eq_ok.mp h
      simp [Alternative.ofField?, Alternative.size?, Alternative.label?, hnumber, hvalue,
        Except.toOption]
  · next hnumber =>
      obtain ⟨name, hname, rfl⟩ := bind_pure_eq_ok.mp h
      simp [Alternative.ofField?, Alternative.size?, Alternative.label?, hnumber, hname,
        Except.toOption]
  · next hsize hlabel =>
      cases h
      have hnone : Alternative.ofField? field = none := by
        simp only [Alternative.ofField?]
      refine ⟨by simp [hnone], by simp [hnone], fun hnumber => ?_⟩
      exact (hnumber.elim hsize hlabel).elim

theorem held_of_foldlM {before after : Dimension} {fields : List Field}
    (h : fields.foldlM step before = .ok after) :
    let declared := fields.filterMap Alternative.ofField?
    after.value = (declared.filterMap (·.size?)).getLast?.or before.value ∧
      after.param = (declared.filterMap (·.label?)).getLast?.or before.param ∧
      ∀ field ∈ fields, field.number = 1 ∨ field.number = 2 →
        (Alternative.ofField? field).isSome := by
  simp only [List.filterMap_filterMap]
  induction fields generalizing before with
  | nil =>
      cases h
      exact ⟨rfl, rfl, List.forall_mem_nil _⟩
  | cons field fields ih =>
      obtain ⟨next, hstep, hrest⟩ := bind_eq_ok.mp (List.foldlM_cons.symm.trans h)
      obtain ⟨hvalue, hparam, hfield⟩ := sets_of_step hstep
      obtain ⟨hvalues, hparams, hfields⟩ := ih hrest
      rw [hvalue, ← Option.or_assoc] at hvalues
      rw [hparam, ← Option.or_assoc] at hparams
      refine ⟨?_, ?_, List.forall_mem_cons.mpr ⟨hfield, hfields⟩⟩
      · rw [hvalues, getLast?_filterMap_cons]
      · rw [hparams, getLast?_filterMap_cons]

/-! ### Sizes before names -/

/-- A size says what a name says only if both say nothing. -/
theorem view_size_eq_view_label {value : Int64} {name : String} :
    (Alternative.size value).view = (Alternative.label name).view ↔
      value.toInt < 0 ∧ name = "" := by
  unfold Alternative.view
  by_cases hvalue : 0 ≤ value.toInt
  · by_cases hname : name = "" <;> simp [hvalue, hname]
  · by_cases hname : name = "" <;> simp [hvalue, hname, Int.lt_of_not_ge hvalue]

theorem ofMessage_of_value {decoded : Dimension} {value : Int64} (h : decoded.value = some value) :
    FixedShape.Dimension.ofMessage decoded = (Alternative.size value).view := by
  simp only [FixedShape.Dimension.ofMessage, h]
  rfl

theorem ofMessage_of_param {decoded : Dimension} {name : String} (hvalue : decoded.value = none)
    (hparam : decoded.param = some name) :
    FixedShape.Dimension.ofMessage decoded = (Alternative.label name).view := by
  simp only [FixedShape.Dimension.ofMessage, hvalue, hparam]
  rfl

/-- What a message holds of the alternatives that its bytes declare: the last size and the last
name, and so at most one of both only if the bytes declare no more. What it is reported as is what the
last alternative says, unless that is a name behind a size and either of both says something. -/
structure Ranked (declared : List Alternative) (decoded : Dimension) : Prop where
  value_eq : decoded.value = (declared.filterMap (·.size?)).getLast?
  param_eq : decoded.param = (declared.filterMap (·.label?)).getLast?
  single_iff : decoded.value = none ∨ decoded.param = none ↔ ¬ Mixed declared
  last_of_single : ¬ Mixed declared →
    decoded.value = declared.getLast?.bind (·.size?) ∧
      decoded.param = declared.getLast?.bind (·.label?)
  reported_iff :
    FixedShape.Dimension.ofMessage decoded = (declared.getLast?.map (·.view)).getD .unknown ↔
      ∀ name value, declared.getLast? = some (.label name) → decoded.value = some value →
        value.toInt < 0 ∧ name = ""

theorem ranked {declared : List Alternative} {decoded : Dimension}
    (hvalue : decoded.value = (declared.filterMap (·.size?)).getLast?)
    (hparam : decoded.param = (declared.filterMap (·.label?)).getLast?) :
    Ranked declared decoded := by
  have hsingle : decoded.value = none ∨ decoded.param = none ↔ ¬ Mixed declared := by
    rw [hvalue, hparam, getLast?_filterMap_eq_none Alternative.size?_eq_some,
      getLast?_filterMap_eq_none Alternative.label?_eq_some, Mixed, not_and_or]
  cases hlast : declared.getLast? with
  | none =>
      obtain rfl := List.getLast?_eq_none_iff.mp hlast
      refine ⟨hvalue, hparam, hsingle, fun _ => ⟨hvalue, hparam⟩, iff_of_true ?_ nofun⟩
      simp [FixedShape.Dimension.ofMessage, hvalue, hparam]
  | some last =>
      cases last with
      | size value =>
          have hheld := hvalue.trans (getLast?_filterMap_of_last hlast rfl)
          refine ⟨hvalue, hparam, hsingle, fun hmixed => ?_, ?_⟩
          · have hnone := (hsingle.mpr hmixed).resolve_left (by simp [hheld])
            rw [hlast]
            exact ⟨hheld, hnone⟩
          · rw [hlast, ofMessage_of_value hheld]
            exact iff_of_true rfl nofun
      | label name =>
          have hheld := hparam.trans (getLast?_filterMap_of_last hlast rfl)
          refine ⟨hvalue, hparam, hsingle, fun hmixed => ?_, ?_⟩
          · have hnone := (hsingle.mpr hmixed).resolve_right (by simp [hheld])
            rw [hlast]
            exact ⟨hnone, hheld⟩
          · rw [hlast, Option.map_some, Option.getD_some]
            cases hsize : decoded.value with
            | none =>
                rw [ofMessage_of_param hsize hheld]
                exact iff_of_true rfl nofun
            | some value =>
                rw [ofMessage_of_value hsize, view_size_eq_view_label]
                constructor
                · rintro h _ _ ⟨⟩ ⟨⟩
                  exact h
                · intro h
                  exact h name value rfl rfl

/-- Bytes of a dimension may declare sizes and names in any order. The message holds the last of
each, so both if both are declared, and a shape with this dimension reports the size, if there is one.
That is what the last of them says, unless it is a name behind a size and one of both says
something. -/
theorem decode_ranks_size_first {buffer : Bytes} {decoded : Dimension}
    (h : decode buffer = .ok decoded) :
    (∀ field ∈ (Field.scan MessageType.dimension.context buffer).items,
      field.number = 1 ∨ field.number = 2 → (Alternative.ofField? field).isSome) ∧
    Ranked (alternatives buffer) decoded ∧
    ∀ (info : TensorInfo) (shape : TensorShape) (position : Nat),
      info.tensorType?.bind (·.shape) = some shape → shape.dims[position]? = some decoded →
        info.shape?.bind (·[position]?) = some (FixedShape.Dimension.ofMessage decoded) := by
  obtain ⟨-, hfold⟩ := decodeWith_eq_ok.mp h
  obtain ⟨hvalue, hparam, hall⟩ := held_of_foldlM hfold
  refine ⟨hall, ranked ?_ ?_, ?_⟩
  · rw [hvalue, Option.or_none]
    rfl
  · rw [hparam, Option.or_none]
    rfl
  · intro info shape position hshape hposition
    rw [TensorInfo.shape?, hshape]
    change (shape.dims.map FixedShape.Dimension.ofMessage)[position]? = _
    rw [List.getElem?_map, hposition]
    rfl

/-- A name is followed by two sizes. The last size is what a vector with this dimension reports. -/
theorem decode_ranks_size_first_sizes :
    let buffer : Bytes := [0x12, 0x01, 0x6e, 0x08, 0x04, 0x08, 0x08]
    let decoded : Dimension := { value := some 8, param := some "n" }
    let vector : TensorInfo :=
      { name := "x"
        message.type := some { tensorType := some { shape := some { dims := [decoded] } } } }
    decode buffer = .ok decoded ∧
      alternatives buffer = [.label "n", .size 4, .size 8] ∧
      Ranked (alternatives buffer) decoded ∧
      vector.shape?.bind (·[0]?) = some (.fixed 8) := by
  intro buffer decoded vector
  have hdecode : decode buffer = .ok decoded := by decide +kernel
  obtain ⟨-, hranked, hshape⟩ := decode_ranks_size_first hdecode
  exact ⟨hdecode, by decide +kernel, hranked, hshape vector { dims := [decoded] } 0 rfl rfl⟩

/-- A size is followed by a name. The message holds both, and is reported as the size. -/
theorem size_outranks_later_name :
    let buffer : Bytes := [0x08, 0x04, 0x12, 0x01, 0x6e]
    let decoded : Dimension := { value := some 4, param := some "n" }
    decode buffer = .ok decoded ∧ alternatives buffer = [.size 4, .label "n"] ∧
      ¬ (decoded.value = none ∨ decoded.param = none) ∧
      FixedShape.Dimension.ofMessage decoded = .fixed 4 ∧
      (Alternative.label "n").view = .symbolic "n" := by
  decide +kernel

end FixedShape.Onnx.Dimension
