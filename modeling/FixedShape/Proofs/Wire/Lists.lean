/-
Module: FixedShape.Proofs.Wire.Lists
Purpose: Lists in fields. Each is read back from its block or from a field for each value, and a
  list that was read is written in at most twice the bytes that its field filled.
-/
import FixedShape.Proofs.Wire.Values

namespace FixedShape.Wire.Field

open FixedShape.Outcome

variable {field : Field} {context : Context}

/-! ### Lists of integers -/

theorem packedLoop_flatMap (failure : Fault → DecodeError) {fuel : Nat} {values : List UInt64}
    (hfuel : (values.flatMap Varint.encode).length ≤ fuel) (done : List UInt64) :
    packedLoop failure fuel done (values.flatMap Varint.encode) =
      { items := done.reverse ++ values } := by
  induction values generalizing fuel done with
  | nil =>
      rw [List.append_nil]
      cases fuel with
      | zero => rfl
      | succ fuel => rfl
  | cons value values ih =>
      have hpos := Varint.length_encode_pos value
      rw [List.flatMap_cons] at hfuel ⊢
      rw [List.length_append] at hfuel
      cases fuel with
      | zero => omega
      | succ fuel =>
          have hne : Varint.encode value ++ values.flatMap Varint.encode ≠ [] := by
            intro hnil
            rw [(List.append_eq_nil_iff.mp hnil).1] at hpos
            exact absurd hpos (by decide)
          rw [packedLoop]
          · rw [Varint.decode_encode]
            dsimp only
            rw [List.drop_left, ih (by omega), List.reverse_cons, List.append_assoc]
            rfl
          · exact hne

theorem of_packedLoop (failure : Fault → DecodeError) (fuel : Nat) (done : List UInt64)
    (block : Bytes) :
    ∃ values, (packedLoop failure fuel done block).items = done.reverse ++ values ∧
      (values.flatMap Varint.encode).length ≤ block.length := by
  have hstop (done : List UInt64) (block : Bytes) :
      ∃ values, done.reverse = done.reverse ++ values ∧
      (values.flatMap Varint.encode).length ≤ block.length :=
    ⟨[], (List.append_nil _).symm, Nat.zero_le _⟩
  induction fuel generalizing done block with
  | zero => exact hstop _ _
  | succ fuel ih =>
      cases block with
      | nil => exact hstop done []
      | cons byte behind =>
          unfold packedLoop
          cases hread : Varint.decode (byte :: behind) with
          | error error => exact hstop done (byte :: behind)
          | ok read =>
              obtain ⟨value, size⟩ := read
              obtain ⟨hshort, hsize⟩ := Varint.length_le_of_decode hread
              obtain ⟨values, hitems, hle⟩ := ih (value :: done) ((byte :: behind).drop size)
              refine ⟨value :: values, ?_, ?_⟩
              · rw [List.reverse_cons, List.append_assoc] at hitems
                exact hitems
              · rw [List.length_drop] at hle
                rw [List.flatMap_cons, List.length_append]
                omega

theorem items_of_all {α : Type} {scan : Scan α} {items : List α} (h : scan.all = .ok items) :
    scan.items = items := by
  rw [Scan.all] at h
  split at h
  · cases h
  · cases h
    rfl

/-- The integers of a field: the one that it holds, or those of its block. -/
theorem of_asVarints {scan : Scan UInt64} (h : field.asVarints context = .ok scan) :
    (∃ value, field.value = .varint value ∧ scan.items = [value]) ∨
      ∃ block, field.value = .bytes block ∧
        (scan.items.flatMap Varint.encode).length ≤ block.length := by
  obtain ⟨number, stored⟩ := field
  cases stored with
  | varint value =>
      cases h
      exact .inl ⟨value, rfl, rfl⟩
  | bytes block =>
      cases h
      obtain ⟨values, hitems, hle⟩ := of_packedLoop
        (failure { number, value := .bytes block } context) block.length [] block
      exact .inr ⟨block, rfl, by rw [hitems]; exact hle⟩
  | fixed64 | groupStart | groupEnd | fixed32 => cases h

theorem asVarints_flatMap (number : UInt64) (context : Context) (values : List UInt64) :
    asVarints { number, value := .bytes (values.flatMap Varint.encode) } context =
      .ok { items := values } := by
  rw [asVarints]
  exact congrArg Except.ok (packedLoop_flatMap _ (Nat.le_refl _) [])

/-- A block of integers, each changed to one that takes at most twice the bytes. -/
theorem holds_of_asVarints {scan : Scan UInt64} {change : UInt64 → UInt64}
    (hwritable : field.Writable) (h : field.asVarints context = .ok scan)
    (hchange : ∀ value, Varint.size (change value).toNat ≤ 2 * Varint.size value.toNat) :
    field.Holds ((scan.items.map change).flatMap Varint.encode) := by
  have hlist (values : List UInt64) : ((values.map change).flatMap Varint.encode).length ≤
      2 * (values.flatMap Varint.encode).length := by
    induction values with
    | nil => exact Nat.zero_le _
    | cons value values ih =>
        have hvalue := hchange value
        rw [List.map_cons, List.flatMap_cons, List.flatMap_cons, List.length_append,
          List.length_append, Varint.length_encode, Varint.length_encode]
        omega
  cases of_asVarints h with
  | inl hsingle =>
      obtain ⟨value, hvalue, hitems⟩ := hsingle
      have hten := Varint.length_encode_le (change value)
      have hsize := hchange value
      rw [hitems, List.map_cons, List.map_nil, List.flatMap_cons, List.flatMap_nil, List.append_nil]
      apply holds_of_single hwritable
      · rw [hvalue, Value.toBytes, Varint.length_encode, Varint.length_encode]
        exact hsize
      · omega
  | inr hblock =>
      obtain ⟨block, hvalue, hle⟩ := hblock
      have hdouble := hlist scan.items
      exact holds_of_bytes hwritable hvalue (by omega)

/-- The signed integers that were read as unsigned ones. -/
theorem of_map_all {α β : Type} {read : Except DecodeError (Scan α)} {seen : α → β}
    {scan : Scan β} {items : List β} (h : read.map (·.map seen) = .ok scan)
    (hall : scan.all = .ok items) : ∃ raw, read = .ok raw ∧ items = raw.items.map seen := by
  obtain ⟨raw, hraw, rfl⟩ := map_eq_ok.mp h
  exact ⟨raw, hraw, (items_of_all hall).symm⟩

theorem asUInt64s_flatMap (number : UInt64) (context : Context) (values : List UInt64) :
    asUInt64s { number, value := .bytes (values.flatMap Varint.encode) } context =
      .ok { items := values } :=
  asVarints_flatMap number context values

theorem asInt64s_flatMap (number : UInt64) (context : Context) (values : List Int64) :
    asInt64s { number, value := .bytes ((values.map Int64.toUInt64).flatMap Varint.encode) }
      context = .ok { items := values } := by
  rw [asInt64s, asVarints_flatMap]
  simp [Except.map, Scan.map, Function.comp_def]

theorem asInt64s_single (number : UInt64) (context : Context) (value : Int64) :
    asInt64s { number, value := .varint value.toUInt64 } context = .ok { items := [value] } := by
  simp [asInt64s, asVarints, Except.map, Scan.map]

theorem asInt32s_flatMap (number : UInt64) (context : Context) (values : List Int32) :
    asInt32s { number, value := .bytes (((values.map Int32.toInt64).map Int64.toUInt64).flatMap
      Varint.encode) } context = .ok { items := values } := by
  rw [asInt32s, asVarints_flatMap]
  simp [Except.map, Scan.map, Function.comp_def]

theorem holds_of_asUInt64s {scan : Scan UInt64} {values : List UInt64}
    (hwritable : field.Writable) (h : field.asUInt64s context = .ok scan)
    (hall : scan.all = .ok values) : field.Holds (values.flatMap Varint.encode) := by
  have hholds : field.Holds ((scan.items.map id).flatMap Varint.encode) :=
    holds_of_asVarints hwritable h fun value => Nat.le_mul_of_pos_left _ (by decide)
  rw [List.map_id, items_of_all hall] at hholds
  exact hholds

theorem holds_of_asInt64s {scan : Scan Int64} {values : List Int64} (hwritable : field.Writable)
    (h : field.asInt64s context = .ok scan) (hall : scan.all = .ok values) :
    field.Holds ((values.map Int64.toUInt64).flatMap Varint.encode) := by
  obtain ⟨raw, hraw, rfl⟩ := of_map_all h hall
  rw [List.map_map]
  apply holds_of_asVarints hwritable hraw
  intro value
  exact Nat.le_mul_of_pos_left _ (by decide)

theorem holds_of_asInt32s {scan : Scan Int32} {values : List Int32} (hwritable : field.Writable)
    (h : field.asInt32s context = .ok scan) (hall : scan.all = .ok values) :
    field.Holds (((values.map Int32.toInt64).map Int64.toUInt64).flatMap Varint.encode) := by
  obtain ⟨raw, hraw, rfl⟩ := of_map_all h hall
  rw [List.map_map, List.map_map]
  exact holds_of_asVarints hwritable hraw size_widen_le

/-- Integers in fields of their own take a tag each. -/
theorem length_unpackedInt64 {number : UInt64} (hnumber : number.toNat < 16) (raw : List UInt64) :
    (Emit.unpackedInt64 number (raw.map UInt64.toInt64)).length =
      raw.length + (raw.flatMap Varint.encode).length := by
  induction raw with
  | nil => rfl
  | cons value raw ih =>
      have htag : (Emit.tag number 0).length = 1 := Emit.length_tag_eq_one hnumber (by decide)
      rw [Emit.unpackedInt64] at ih
      rw [Emit.unpackedInt64, List.map_cons, List.flatMap_cons, List.flatMap_cons,
        List.length_append, List.length_append, List.length_cons, ih, Emit.int64, Emit.uint64,
        List.length_append, htag, UInt64.toUInt64_toInt64]
      omega

theorem length_le_length_flatMap_encode (raw : List UInt64) :
    raw.length ≤ (raw.flatMap Varint.encode).length := by
  induction raw with
  | nil => exact Nat.zero_le _
  | cons value raw ih =>
      have := Varint.length_encode_pos value
      rw [List.flatMap_cons, List.length_append, List.length_cons]
      omega

theorem length_of_asInt64s {scan : Scan Int64} {values : List Int64} (hwritable : field.Writable)
    (hnumber : field.number.toNat < 16) (h : field.asInt64s context = .ok scan)
    (hall : scan.all = .ok values) :
    (Emit.unpackedInt64 field.number values).length ≤ 2 * (Emit.field field).length := by
  obtain ⟨raw, hraw, rfl⟩ := of_map_all h hall
  have hcount := length_le_length_flatMap_encode raw.items
  rw [length_unpackedInt64 hnumber]
  cases of_asVarints hraw with
  | inl hsingle =>
      obtain ⟨value, hvalue, hitems⟩ := hsingle
      have hbytes : [value].flatMap Varint.encode = field.value.toBytes := by
        rw [hvalue]
        exact List.append_nil _
      rw [hitems, hbytes] at hcount ⊢
      rw [length_field hwritable]
      omega
  | inr hblock =>
      obtain ⟨block, hvalue, hshort⟩ := hblock
      have hlonger := length_payload_lt hvalue
      omega

/-! ### Lists of fixed width -/

theorem chunksLoop_flatten {width : Nat} {chunks : List Bytes}
    (h : ∀ chunk ∈ chunks, chunk.length = width) (done : List Bytes) :
    chunksLoop width chunks.length done chunks.flatten = done.reverse ++ chunks := by
  induction chunks generalizing done with
  | nil => exact (List.append_nil _).symm
  | cons chunk chunks ih =>
      rw [List.length_cons, List.flatten_cons, chunksLoop,
        Bytes.splitExact_append _ (h chunk List.mem_cons_self)]
      dsimp only
      rw [ih (fun other hother => h other (List.mem_cons_of_mem _ hother)), List.reverse_cons,
        List.append_assoc]
      rfl

theorem length_chunksLoop (width fuel : Nat) (done : List Bytes) (block : Bytes) :
    (chunksLoop width fuel done block).length ≤ done.length + fuel := by
  induction fuel generalizing done block with
  | zero => exact Nat.le_of_eq List.length_reverse
  | succ fuel ih =>
      unfold chunksLoop
      split
      · rw [List.length_reverse]
        omega
      · next chunk rest _ =>
          have := ih (chunk :: done) rest
          rw [List.length_cons] at this
          omega

theorem length_flatMap_of_width {α : Type} {width : Nat} {emit : α → Bytes}
    (hemit : ∀ value, (emit value).length = width) (values : List α) :
    (values.flatMap emit).length = width * values.length := by
  induction values with
  | nil => rfl
  | cons value values ih =>
      rw [List.flatMap_cons, List.length_append, ih, hemit, List.length_cons, Nat.mul_succ,
        Nat.add_comm]

/-- A block that chunks of one width fill is cut into them. -/
theorem fixedChunks_flatMap {α : Type} {width : Nat} (hwidth : 0 < width) {emit : α → Bytes}
    (hemit : ∀ value, (emit value).length = width) (field : Field) (context : Context)
    (values : List α) :
    field.fixedChunks context width (values.flatMap emit) = .ok (values.map emit) := by
  have hlength := length_flatMap_of_width hemit values
  have hchunks : ∀ chunk ∈ values.map emit, chunk.length = width := by
    intro chunk hchunk
    obtain ⟨value, _, rfl⟩ := List.mem_map.mp hchunk
    exact hemit value
  have hcut := chunksLoop_flatten hchunks []
  rw [fixedChunks, hlength, if_pos (Nat.mul_mod_right width values.length),
    Nat.mul_div_cancel_left _ hwidth]
  rw [List.length_map, ← List.flatMap_def] at hcut
  exact congrArg Except.ok hcut

theorem length_of_fixedChunks {width : Nat} {block : Bytes} {chunks : List Bytes}
    (h : field.fixedChunks context width block = .ok chunks) :
    width * chunks.length ≤ block.length := by
  rw [fixedChunks] at h
  split at h
  · cases h
    have hle := length_chunksLoop width (block.length / width) [] block
    rw [List.length_nil, Nat.zero_add] at hle
    exact Nat.le_trans (Nat.mul_le_mul_left width hle) (Nat.mul_div_le block.length width)
  · cases h

theorem asFloats_flatMap (number : UInt64) (context : Context) (values : List UInt32) :
    asFloats { number, value := .bytes (values.flatMap Bytes.ofWord32) } context =
      .ok { items := values } := by
  simp [asFloats, fixedChunks_flatMap (show 0 < 4 by decide) Bytes.length_ofWord32, Except.map,
    Function.comp_def, Bytes.toWord32_ofWord32]

theorem asFloats_single (number : UInt64) (context : Context) (bits : UInt32) :
    asFloats { number, value := .fixed32 bits } context = .ok { items := [bits] } := rfl

theorem asDoubles_flatMap (number : UInt64) (context : Context) (values : List UInt64) :
    asDoubles { number, value := .bytes (values.flatMap Bytes.ofWord64) } context =
      .ok { items := values } := by
  simp [asDoubles, fixedChunks_flatMap (show 0 < 8 by decide) Bytes.length_ofWord64, Except.map,
    Function.comp_def, Bytes.toWord64_ofWord64]

/-- What the values of a field with `width` bytes each are: the one that it holds, or those of its
block. -/
def HoldsWide (field : Field) (width count : Nat) : Prop :=
  (field.value.toBytes.length = width ∧ count = 1) ∨
    ∃ block, field.value = .bytes block ∧ width * count ≤ block.length

theorem holdsWide_of_asFloats {scan : Scan UInt32} {values : List UInt32}
    (h : field.asFloats context = .ok scan) (hall : scan.all = .ok values) :
    field.HoldsWide 4 values.length := by
  rw [← items_of_all hall]
  obtain ⟨number, stored⟩ := field
  cases stored with
  | fixed32 bits =>
      cases h
      exact .inl ⟨Bytes.length_ofWord32 bits, rfl⟩
  | bytes block =>
      obtain ⟨chunks, hchunks, rfl⟩ := map_eq_ok.mp h
      refine .inr ⟨block, rfl, ?_⟩
      rw [List.length_map]
      exact length_of_fixedChunks hchunks
  | fixed64 | groupStart | groupEnd | varint => cases h

theorem holdsWide_of_asDoubles {scan : Scan UInt64} {values : List UInt64}
    (h : field.asDoubles context = .ok scan) (hall : scan.all = .ok values) :
    field.HoldsWide 8 values.length := by
  rw [← items_of_all hall]
  obtain ⟨number, stored⟩ := field
  cases stored with
  | fixed64 bits =>
      cases h
      exact .inl ⟨Bytes.length_ofWord64 bits, rfl⟩
  | bytes block =>
      obtain ⟨chunks, hchunks, rfl⟩ := map_eq_ok.mp h
      refine .inr ⟨block, rfl, ?_⟩
      rw [List.length_map]
      exact length_of_fixedChunks hchunks
  | fixed32 | groupStart | groupEnd | varint => cases h

/-- A block of the values of a field. -/
theorem HoldsWide.holds {α : Type} {width : Nat} {emit : α → Bytes} {values : List α}
    (h : field.HoldsWide width values.length) (hwritable : field.Writable) (hwidth : width < 0x80)
    (hemit : ∀ value, (emit value).length = width) : field.Holds (values.flatMap emit) := by
  have hlength := length_flatMap_of_width hemit values
  cases h with
  | inl hsingle =>
      obtain ⟨hvalue, hcount⟩ := hsingle
      rw [hcount, Nat.mul_one] at hlength
      apply holds_of_single hwritable
      · omega
      · omega
  | inr hblock =>
      obtain ⟨block, hvalue, hle⟩ := hblock
      exact holds_of_bytes hwritable hvalue (by omega)

theorem length_of_asFloats {scan : Scan UInt32} {values : List UInt32} (hwritable : field.Writable)
    (hnumber : field.number.toNat < 16) (h : field.asFloats context = .ok scan)
    (hall : scan.all = .ok values) :
    (Emit.unpackedFloat field.number values).length ≤ 2 * (Emit.field field).length := by
  have hfive (bits : UInt32) : (Emit.float field.number bits).length = 5 := by
    rw [Emit.float, List.length_append, Emit.length_tag_eq_one hnumber (by decide),
      Bytes.length_ofWord32]
  rw [Emit.unpackedFloat, length_flatMap_of_width hfive]
  cases holdsWide_of_asFloats h hall with
  | inl hsingle =>
      obtain ⟨hvalue, hcount⟩ := hsingle
      rw [hcount, length_field hwritable, hvalue]
      omega
  | inr hblock =>
      obtain ⟨block, hvalue, hle⟩ := hblock
      have hlonger := length_payload_lt hvalue
      omega

end FixedShape.Wire.Field
