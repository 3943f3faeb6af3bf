/-
Module: FixedShape.Proofs.Tensor.Constants
Purpose: The constants that padding makes. Their codes stand for the types they were made of, and
  zeros are as many zero bytes as the elements fill.
-/
import FixedShape.Tensor.Initializer

namespace FixedShape

/-- A type whose elements have a size is what its code stands for. -/
theorem ElementType.ofCode_code {elemType : ElementType} {size : Nat}
    (h : elemType.byteSize? = some size) : ofCode elemType.code = elemType := by
  cases elemType with
  | float32 => rfl
  | float16 => rfl
  | int32 => rfl
  | int64 => rfl
  | bool => rfl
  | other code =>
      simp only [byteSize?] at h
      split at h
      · next hbyte =>
          rcases hbyte with rfl | rfl
          · rfl
          · rfl
      · split at h
        · next hdouble =>
            subst hdouble
            rfl
        · cases h

/-- The undefined type has no size. -/
theorem ElementType.code_ne_undefined {elemType : ElementType} {size : Nat}
    (h : elemType.byteSize? = some size) : elemType.code ≠ Onnx.DataType.undefined := by
  cases elemType with
  | other code =>
      rintro rfl
      cases h
  | _ => decide

namespace Initializer

/-- What zeros are made of. -/
theorem zeros?_eq_some {name : String} {elemType : ElementType} {length : Nat}
    {zeros : Initializer} (h : zeros? name elemType length = some zeros) :
    ∃ size, elemType.byteSize? = some size ∧ length ≤ maxInt64 ∧
      zeros =
        { name
          tensor :=
            { dims := [Int64.ofNat length]
              dataType := some elemType.code
              rawData := some (List.replicate (size * length) 0) } } := by
  unfold zeros? at h
  split at h
  · cases h
  · next size hsize =>
      split at h
      · next hfits =>
          cases h
          exact ⟨size, hsize, hfits.2, rfl⟩
      · cases h

/-- There are zeros exactly if their bytes can be counted and their length can be declared. -/
theorem exists_zeros? {name : String} {elemType : ElementType} {length : Nat} :
    (∃ zeros, zeros? name elemType length = some zeros) ↔
      ∃ size, elemType.byteSize? = some size ∧ size * length < UInt64.size ∧ length ≤ maxInt64 := by
  unfold zeros?
  cases elemType.byteSize? with
  | none => simp
  | some size => simp

end Initializer

theorem zero_le_ofNat {length : Nat} (h : length ≤ maxInt64) :
    0 ≤ Int64.ofNat length ∧ (Int64.ofNat length).toNatClampNeg = length := by
  have hlt : length < 2 ^ 63 := Nat.lt_succ_of_le h
  exact ⟨Int64.zero_le_ofNat_of_lt hlt, Int64.toNatClampNeg_ofNat_of_lt hlt⟩

end FixedShape
