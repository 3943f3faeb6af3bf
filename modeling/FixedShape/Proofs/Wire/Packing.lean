/-
Module: FixedShape.Proofs.Wire.Packing
Purpose: Lists of numbers on the wire. However a list is cut, and whether a part of it stands in a
  block or in a field for each number, the fields give back the list.
-/
import FixedShape.Proofs.Wire.Lists

namespace FixedShape.Wire

open FixedShape.Outcome

/-- The kinds of numbers that come in lists. -/
inductive ScalarKind where
  | int32
  | int64
  | uint64
  | float
  | double
  deriving DecidableEq, Repr

namespace ScalarKind

/-- A number of a kind. Floats are bits. -/
abbrev Elem : ScalarKind → Type
  | .int32 => Int32
  | .int64 => Int64
  | .uint64 => UInt64
  | .float => UInt32
  | .double => UInt64

/-- A number in a field of its own. -/
def single : (kind : ScalarKind) → UInt64 → kind.Elem → Bytes
  | .int32 => Emit.int32
  | .int64 => Emit.int64
  | .uint64 => Emit.uint64
  | .float => Emit.float
  | .double => Emit.double

/-- Numbers in one block. -/
def block : (kind : ScalarKind) → UInt64 → List kind.Elem → Bytes
  | .int32 => Emit.packedInt32
  | .int64 => Emit.packedInt64
  | .uint64 => Emit.packedUInt64
  | .float => Emit.packedFloat
  | .double => Emit.packedDouble

/-- The numbers of one field, which holds a single one or a block. -/
def read : (kind : ScalarKind) → Field → Context → Except DecodeError (Scan kind.Elem)
  | .int32 => Field.asInt32s
  | .int64 => Field.asInt64s
  | .uint64 => Field.asUInt64s
  | .float => Field.asFloats
  | .double => Field.asDoubles

/-- The numbers of all fields of a buffer, one field after the other. -/
def readList (kind : ScalarKind) (context : Context) (buffer : Bytes) :
    Except DecodeError (List kind.Elem) := do
  let fields ← (Field.scan context buffer).all
  let lists ← fields.mapM fun field => kind.read field context >>= Scan.all
  return lists.flatten

/-- A part of a list, and how it is written. -/
inductive Segment (kind : ScalarKind) where
  | packed (values : List kind.Elem)
  | unpacked (values : List kind.Elem)

variable {kind : ScalarKind}

namespace Segment

def values : Segment kind → List kind.Elem
  | .packed values => values
  | .unpacked values => values

/-- A block is written as a whole, and other numbers one by one. -/
def toBytes (number : UInt64) : Segment kind → Bytes
  | .packed values => kind.block number values
  | .unpacked values => values.flatMap (kind.single number)

end Segment

/-! ### What is written, as fields -/

/-- The value of a field that holds a single number. -/
def toValue : (kind : ScalarKind) → kind.Elem → Value
  | .int32, value => .varint value.toInt64.toUInt64
  | .int64, value => .varint value.toUInt64
  | .uint64, value => .varint value
  | .float, bits => .fixed32 bits
  | .double, bits => .fixed64 bits

/-- What a block holds. -/
def payload : (kind : ScalarKind) → List kind.Elem → Bytes
  | .int32, values => ((values.map Int32.toInt64).map Int64.toUInt64).flatMap Varint.encode
  | .int64, values => (values.map Int64.toUInt64).flatMap Varint.encode
  | .uint64, values => values.flatMap Varint.encode
  | .float, values => values.flatMap Bytes.ofWord32
  | .double, values => values.flatMap Bytes.ofWord64

theorem single_eq (kind : ScalarKind) (number : UInt64) (value : kind.Elem) :
    kind.single number value = Emit.field { number, value := kind.toValue value } := by
  cases kind <;> rfl

theorem block_eq (kind : ScalarKind) (number : UInt64) (values : List kind.Elem) :
    kind.block number values = Emit.block number (kind.payload values) := by
  cases kind <;> rfl

theorem read_toValue (number : UInt64) (context : Context) (value : kind.Elem) :
    kind.read { number, value := kind.toValue value } context = .ok { items := [value] } := by
  cases kind with
  | int32 =>
      simp [read, toValue, Field.asInt32s, Field.asVarints, Except.map, Scan.map]
  | int64 => exact Field.asInt64s_single number context value
  | uint64 | float | double => rfl

theorem read_payload (number : UInt64) (context : Context) (values : List kind.Elem) :
    kind.read { number, value := .bytes (kind.payload values) } context =
      .ok { items := values } := by
  cases kind with
  | int32 => exact Field.asInt32s_flatMap number context values
  | int64 => exact Field.asInt64s_flatMap number context values
  | uint64 => exact Field.asUInt64s_flatMap number context values
  | float => exact Field.asFloats_flatMap number context values
  | double => exact Field.asDoubles_flatMap number context values

/-- A block of no bytes holds no numbers. -/
theorem eq_nil_of_payload {values : List kind.Elem} (h : kind.payload values = []) :
    values = [] := by
  have hnone : kind.payload [] = [] := by
    cases kind <;> rfl
  have hread := read_payload 0 none values
  rw [h, ← hnone, read_payload 0 none []] at hread
  cases hread
  rfl

namespace Segment

/-- The fields of a part: at most one for a block, which is left out if it is empty, and one for each
number that is written by itself. -/
def fields (number : UInt64) : Segment kind → List Field
  | .packed values =>
    if (kind.payload values).isEmpty then [] else [{ number, value := .bytes (kind.payload values) }]
  | .unpacked values => values.map fun value => { number, value := kind.toValue value }

theorem toBytes_eq (number : UInt64) (segment : Segment kind) :
    segment.toBytes number = Emit.fields (segment.fields number) := by
  cases segment with
  | packed values =>
      rw [toBytes, fields, block_eq, Emit.block]
      split
      · rfl
      · exact (List.append_nil _).symm
  | unpacked values =>
      rw [toBytes, fields, Emit.fields, List.flatMap_map]
      exact congrArg (List.flatMap · values) (funext (kind.single_eq number))

theorem number_of_mem_fields {number : UInt64} {segment : Segment kind} {field : Field}
    (h : field ∈ segment.fields number) : field.number = number := by
  cases segment with
  | packed values =>
      rw [fields] at h
      split at h
      · cases h
      · rw [List.mem_singleton.mp h]
  | unpacked values =>
      obtain ⟨value, _, rfl⟩ := List.mem_map.mp h
      rfl

/-- Each field of a part gives a list of numbers, and these make up the part. -/
theorem reads_fields (number : UInt64) (context : Context) (segment : Segment kind) :
    ∃ lists, List.Forall₂ (fun field list => (kind.read field context >>= Scan.all) = .ok list)
      (segment.fields number) lists ∧ lists.flatten = segment.values := by
  cases segment with
  | packed values =>
      rw [fields]
      split
      · next hempty =>
          have hnone := eq_nil_of_payload (List.isEmpty_iff.mp hempty)
          exact ⟨[], .nil, hnone.symm⟩
      · refine ⟨[values], .cons ?_ .nil, List.append_nil values⟩
        rw [read_payload]
        rfl
  | unpacked values =>
      refine ⟨values.map ([·]), ?_, ?_⟩
      · rw [fields, List.forall₂_map_left_iff, List.forall₂_map_right_iff, List.forall₂_same]
        intro value _
        rw [read_toValue]
        rfl
      · exact List.flatMap_singleton' values

end Segment

/-- The fields of all parts give numbers that make up all parts. -/
theorem reads_segments (number : UInt64) (context : Context) (segments : List (Segment kind)) :
    ∃ lists, List.Forall₂ (fun field list => (kind.read field context >>= Scan.all) = .ok list)
      (segments.flatMap (Segment.fields number)) lists ∧
        lists.flatten = segments.flatMap Segment.values := by
  induction segments with
  | nil => exact ⟨[], .nil, rfl⟩
  | cons segment segments ih =>
      obtain ⟨first, hfirst, hvalues⟩ := segment.reads_fields number context
      obtain ⟨others, hothers, hrest⟩ := ih
      refine ⟨first ++ others, List.rel_append hfirst hothers, ?_⟩
      rw [List.flatten_append, hvalues, hrest, List.flatMap_cons]

/-- However a list of numbers is cut into parts, and whichever of them are packed, the fields that
are written give back the list, every number with all its bits. The length of a block is written in 64
bits, as is the size of any buffer. -/
theorem segments_read_back (kind : ScalarKind) {number : UInt64} (hnumber : number.toNat < 2 ^ 61)
    (context : Context) (segments : List (Segment kind))
    (hlength : (segments.flatMap (Segment.toBytes number)).length < 2 ^ 64) :
    kind.readList context (segments.flatMap (Segment.toBytes number)) =
      .ok (segments.flatMap Segment.values) := by
  have hbytes : segments.flatMap (Segment.toBytes number) =
      Emit.fields (segments.flatMap (Segment.fields number)) := by
    rw [Emit.fields, List.flatMap_assoc]
    exact congrArg (List.flatMap · segments) (funext (Segment.toBytes_eq number))
  have hwritable : ∀ field ∈ segments.flatMap (Segment.fields number), field.Writable := by
    intro field hfield
    obtain ⟨segment, _, hsegment⟩ := List.mem_flatMap.mp hfield
    refine ⟨by rwa [Segment.number_of_mem_fields hsegment], fun payload hpayload => ?_⟩
    rw [hbytes] at hlength
    exact Nat.lt_trans (Nat.lt_of_lt_of_le (Field.length_payload_lt hpayload)
      (Field.length_field_le_of_mem hfield)) hlength
  obtain ⟨lists, hlists, hvalues⟩ := reads_segments number context segments
  rw [hbytes, readList, Field.scan_fields hwritable]
  change (List.mapM (fun field => kind.read field context >>= Scan.all)
    (segments.flatMap (Segment.fields number)) >>= fun lists => pure lists.flatten) = _
  rw [mapM_eq_ok.mpr hlists, ← hvalues]
  rfl

/-- Negative numbers in fields of their own around a block, and a NaN with a payload between an empty
block and another block. -/
theorem segments_read_back_mixed :
    let integers : List (Segment .int32) :=
      [.unpacked [-1, 300], .packed [-2147483648, 0], .unpacked [-7]]
    let floats : List (Segment .float) :=
      [.packed [], .unpacked [0x7fc00123], .packed [0xff800001, 0]]
    let number : UInt64 := 2305843009213693951
    number.toNat < 2 ^ 61 ∧
      (integers.flatMap (Segment.toBytes number)).length < 2 ^ 64 ∧
      ScalarKind.int32.readList none (integers.flatMap (Segment.toBytes number)) =
        .ok [-1, 300, -2147483648, 0, -7] ∧
      (floats.flatMap (Segment.toBytes number)).length < 2 ^ 64 ∧
      ScalarKind.float.readList none (floats.flatMap (Segment.toBytes number)) =
        .ok [0x7fc00123, 0xff800001, 0] := by
  intro integers floats number
  have hnumber : number.toNat < 2 ^ 61 := by decide
  have hintegers : (integers.flatMap (Segment.toBytes number)).length < 2 ^ 64 := by decide
  have hfloats : (floats.flatMap (Segment.toBytes number)).length < 2 ^ 64 := by decide
  exact ⟨hnumber, hintegers, segments_read_back .int32 hnumber none integers hintegers, hfloats,
    segments_read_back .float hnumber none floats hfloats⟩

end ScalarKind

end FixedShape.Wire
