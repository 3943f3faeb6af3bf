/-
Module: FixedShape.Proofs.Wire.Refusals
Purpose: Fields that are not read as their schema type asks. What is wrong with a value is said
  without the readers: its wire type, or what its payload holds. A reader fails with exactly that
  fault, and places it in the field.
-/
import FixedShape.Proofs.Wire.Packing

namespace FixedShape.Wire

open FixedShape.Outcome

/-- The wire types of the numbers of a kind that stand in a field of their own. -/
def ScalarKind.wireType : ScalarKind → UInt64
  | .int32 | .int64 | .uint64 => 0
  | .float => 5
  | .double => 1

/-- The bytes that each number of a kind fills in a block, if they are the same for all. -/
def ScalarKind.width? : ScalarKind → Option Nat
  | .int32 | .int64 | .uint64 => none
  | .float => some 4
  | .double => some 8

/-- A block of varints holds one that cannot be read. The first such decides. -/
inductive Field.BadBlock : Bytes → Fault → Prop where
  | here {block : Bytes} {fault : Fault} (nonempty : block ≠ [])
      (unread : takeVarint block = .error fault) : BadBlock block fault
  | behind {block rest : Bytes} {value : UInt64} {fault : Fault}
      (taken : takeVarint block = .ok (value, rest)) (bad : BadBlock rest fault) :
      BadBlock block fault

/-- The schema types of values other than messages. -/
inductive ValueKind where
  | int32
  | int64
  | float
  | bytes
  | text
  | numbers (kind : ScalarKind)
  deriving DecidableEq, Repr

namespace ValueKind

/-- The wire types in which values of a kind come. Lists of numbers also come in blocks. -/
def wireTypes : ValueKind → List UInt64
  | .int32 | .int64 => [0]
  | .float => [5]
  | .bytes | .text => [2]
  | .numbers kind => [kind.wireType, 2]

/-- A value is none of a kind, and what is wrong with it. -/
inductive Refuses : ValueKind → Value → Fault → Prop where
  | wireType {kind : ValueKind} {value : Value} (other : value.wireType ∉ kind.wireTypes) :
      Refuses kind value .wireTypeMismatch
  | text {payload : Bytes} (invalid : Bytes.toText? payload = none) :
      Refuses .text (.bytes payload) .invalidUtf8
  | uneven {kind : ScalarKind} {width : Nat} {block : Bytes} (fixed : kind.width? = some width)
      (uneven : block.length % width ≠ 0) : Refuses (.numbers kind) (.bytes block) .unevenBlock
  | varint {kind : ScalarKind} {block : Bytes} {fault : Fault} (varying : kind.width? = none)
      (bad : Field.BadBlock block fault) : Refuses (.numbers kind) (.bytes block) fault

/-- Reads a field as a kind and forgets what it holds. -/
@[simp] def check : ValueKind → Field → Context → Except DecodeError Unit
  | .int32, field, context => (fun _ => ()) <$> field.asEnum context
  | .int64, field, context => (fun _ => ()) <$> field.asInt64 context
  | .float, field, context => (fun _ => ()) <$> field.asFloat context
  | .bytes, field, context => (fun _ => ()) <$> field.asBytes context
  | .text, field, context => (fun _ => ()) <$> field.asText context
  | .numbers kind, field, context => (fun _ => ()) <$> (kind.read field context >>= Scan.all)

end ValueKind

namespace Field

variable {field : Field} {context : Context} {error : DecodeError}

/-! ### Blocks of varints -/

/-- A block is read up to the first varint that cannot be read. -/
theorem error_packedLoop {failure : Fault → DecodeError} {fuel : Nat} {block : Bytes}
    (h : block.length ≤ fuel) (done : List UInt64) :
    (packedLoop failure fuel done block).error = some error ↔
      ∃ fault, BadBlock block fault ∧ error = failure fault := by
  have hnil : (∃ fault, BadBlock [] fault ∧ error = failure fault) → False := by
    rintro ⟨fault, hbad, -⟩
    cases hbad with
    | here nonempty _ => exact nonempty rfl
    | behind taken _ => cases taken
  induction fuel generalizing block done with
  | zero =>
      obtain rfl := List.length_eq_zero_iff.mp (Nat.le_zero.mp h)
      exact iff_of_false nofun hnil
  | succ fuel ih =>
      cases block with
      | nil => exact iff_of_false nofun hnil
      | cons byte rest =>
          have hne : byte :: rest ≠ [] := List.cons_ne_nil byte rest
          cases hread : Varint.decode (byte :: rest) with
          | error cause =>
              have htake : takeVarint (byte :: rest) = .error cause.fault := by
                rw [takeVarint, hread]
              simp only [packedLoop, hread, Option.some.injEq]
              constructor
              · rintro rfl
                exact ⟨cause.fault, .here hne htake, rfl⟩
              · rintro ⟨fault, hbad, rfl⟩
                cases hbad with
                | here _ unread =>
                    rw [htake] at unread
                    rw [Except.error.inj unread]
                | behind taken _ => cases htake.symm.trans taken
          | ok result =>
              obtain ⟨value, size⟩ := result
              have htake : takeVarint (byte :: rest) = .ok (value, (byte :: rest).drop size) := by
                rw [takeVarint, hread]
              obtain ⟨hshort, hsize⟩ := Varint.length_le_of_decode hread
              have hpos := Varint.length_encode_pos value
              have hlength : ((byte :: rest).drop size).length ≤ fuel := by
                rw [List.length_drop]
                omega
              simp only [packedLoop, hread]
              refine (ih hlength (value :: done)).trans ?_
              refine exists_congr fun fault => and_congr_left fun _ => ?_
              constructor
              · exact .behind htake
              · intro hbad
                cases hbad with
                | here _ unread => cases htake.symm.trans unread
                | behind taken bad =>
                    cases htake.symm.trans taken
                    exact bad

theorem all_eq_error {α : Type} {scan : Scan α} :
    scan.all = .error error ↔ scan.error = some error := by
  unfold Scan.all
  cases scan.error <;> simp

/-- A block of numbers of one width is read unless it is uneven. -/
theorem fixedChunks_eq_error {α : Type} {width : Nat} {block : Bytes} {see : Bytes → α} :
    ((field.fixedChunks context width block).map (fun chunks =>
        ({ items := chunks.map see } : Scan α)) >>= Scan.all) = .error error ↔
      block.length % width ≠ 0 ∧ error = field.failure context .unevenBlock := by
  unfold fixedChunks
  by_cases heven : block.length % width = 0
  · rw [if_pos heven]
    exact iff_of_false nofun fun h => h.1 heven
  · rw [if_neg heven]
    refine ⟨fun h => ⟨heven, (Except.error.inj h).symm⟩, ?_⟩
    rintro ⟨-, rfl⟩
    rfl

end Field

namespace ValueKind

variable {kind : ValueKind} {value : Value} {fault : Fault} {context : Context}
  {error : DecodeError}

/-! ### Wire types -/

/-- A value of another wire type is refused for it. -/
theorem refuses_iff_of_not_mem (h : value.wireType ∉ kind.wireTypes) :
    kind.Refuses value fault ↔ fault = .wireTypeMismatch := by
  constructor
  · intro hrefuses
    cases hrefuses with
    | wireType _ => rfl
    | text _ => exact absurd (List.mem_singleton_self 2) h
    | uneven _ _ | varint _ _ => exact absurd (List.mem_cons_of_mem _ (List.mem_singleton_self 2)) h
  · rintro rfl
    exact .wireType h

/-- A number is not refused for more than its wire type. -/
theorem not_refuses (h : value.wireType ∈ kind.wireTypes)
    (single : ∀ payload, value ≠ .bytes payload) : ¬ kind.Refuses value fault := by
  intro hrefuses
  cases hrefuses with
  | wireType other => exact other h
  | text _ | uneven _ _ | varint _ _ => exact single _ rfl

theorem check_of_not_mem {field : Field} (h : field.value.wireType ∉ kind.wireTypes) :
    kind.check field context = .error (field.failure context .wireTypeMismatch) := by
  obtain ⟨number, value⟩ := field
  cases kind with
  | numbers kind =>
      cases kind <;> cases value <;>
        first | rfl | simp [wireTypes, ScalarKind.wireType, Value.wireType] at h
  | _ => cases value <;> first | rfl | simp [wireTypes, Value.wireType] at h

theorem check_of_single {field : Field} (h : field.value.wireType ∈ kind.wireTypes)
    (single : ∀ payload, field.value ≠ .bytes payload) : kind.check field context = .ok () := by
  obtain ⟨number, value⟩ := field
  cases value with
  | bytes payload => exact absurd rfl (single payload)
  | _ =>
      cases kind with
      | numbers kind =>
          cases kind <;> first | rfl | simp [wireTypes, ScalarKind.wireType, Value.wireType] at h
      | _ => first | rfl | simp [wireTypes, Value.wireType] at h

/-! ### Payloads -/

section

variable {kind : ScalarKind} {number : UInt64} {payload : Bytes}

theorem refuses_text_iff :
    Refuses .text (.bytes payload) fault ↔
      Bytes.toText? payload = none ∧ fault = .invalidUtf8 := by
  constructor
  · intro hrefuses
    cases hrefuses with
    | wireType other => exact absurd (List.mem_singleton_self 2) other
    | text invalid => exact ⟨invalid, rfl⟩
  · rintro ⟨invalid, rfl⟩
    exact .text invalid

/-- Numbers of all kinds come in payloads. -/
theorem bytes_mem_wireTypes (kind : ScalarKind) (payload : Bytes) :
    Value.wireType (.bytes payload) ∈ (numbers kind).wireTypes :=
  List.mem_cons_of_mem _ (List.mem_singleton_self 2)

theorem refuses_iff_of_varying (varying : kind.width? = none) :
    Refuses (.numbers kind) (.bytes payload) fault ↔ Field.BadBlock payload fault := by
  refine ⟨fun hrefuses => ?_, .varint varying⟩
  cases hrefuses with
  | wireType other => exact absurd (bytes_mem_wireTypes kind payload) other
  | uneven fixed _ => cases fixed.symm.trans varying
  | varint _ bad => exact bad

theorem refuses_iff_of_fixed {width : Nat} (fixed : kind.width? = some width) :
    Refuses (.numbers kind) (.bytes payload) fault ↔
      payload.length % width ≠ 0 ∧ fault = .unevenBlock := by
  constructor
  · intro hrefuses
    cases hrefuses with
    | wireType other => exact absurd (bytes_mem_wireTypes kind payload) other
    | uneven other uneven =>
        cases other.symm.trans fixed
        exact ⟨uneven, rfl⟩
    | varint varying _ => cases fixed.symm.trans varying
  · rintro ⟨uneven, rfl⟩
    exact .uneven fixed uneven

theorem check_text_eq_error :
    ValueKind.text.check { number, value := .bytes payload } context = .error error ↔
      ∃ fault, Refuses .text (.bytes payload) fault ∧
        error = Field.failure { number, value := .bytes payload } context fault := by
  simp only [check, map_eq_error, Field.asText, Field.asBytes, refuses_text_iff]
  cases Bytes.toText? payload <;> simp [eq_comm]

theorem check_block_eq_error :
    (numbers kind).check { number, value := .bytes payload } context = .error error ↔
      ∃ fault, Refuses (.numbers kind) (.bytes payload) fault ∧
        error = Field.failure { number, value := .bytes payload } context fault := by
  rw [check, map_eq_error]
  cases hwidth : kind.width? with
  | none =>
      simp only [refuses_iff_of_varying hwidth]
      cases kind with
      | int32 | int64 | uint64 =>
          exact Field.all_eq_error.trans (Field.error_packedLoop (Nat.le_refl _) [])
      | float | double => cases hwidth
  | some width =>
      simp only [refuses_iff_of_fixed hwidth, and_assoc, exists_and_left, exists_eq_left]
      cases kind with
      | int32 | int64 | uint64 => cases hwidth
      | float | double =>
          cases hwidth
          exact Field.fixedChunks_eq_error

end

/-- A field is not read as a kind exactly if its value is refused, and the error says so of the
field. -/
theorem check_eq_error {field : Field} :
    kind.check field context = .error error ↔
      ∃ fault, kind.Refuses field.value fault ∧ error = field.failure context fault := by
  by_cases hwire : field.value.wireType ∈ kind.wireTypes
  case neg =>
    simp only [check_of_not_mem hwire, refuses_iff_of_not_mem hwire, exists_eq_left,
      Except.error.injEq, eq_comm]
  case pos =>
    by_cases hpayload : ∃ payload, field.value = .bytes payload
    · obtain ⟨number, value⟩ := field
      obtain ⟨payload, rfl⟩ := hpayload
      cases kind with
      | int32 | int64 | float => simp [wireTypes, Value.wireType] at hwire
      | text => exact check_text_eq_error
      | numbers kind => exact check_block_eq_error
      | bytes =>
          have hnone (fault : Fault) : ¬ Refuses .bytes (.bytes payload) fault := by
            rintro ⟨other⟩
            exact other hwire
          simp [Field.asBytes, hnone]
    · have hsingle := not_exists.mp hpayload
      rw [check_of_single hwire hsingle]
      simp [not_refuses hwire hsingle]

theorem asBytes_eq_error {field : Field} :
    field.asBytes context = .error error ↔
      ∃ fault, ValueKind.bytes.Refuses field.value fault ∧ error = field.failure context fault := by
  rw [← check_eq_error, check, map_eq_error]

end ValueKind

end FixedShape.Wire
