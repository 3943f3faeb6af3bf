/-
Module: FixedShape.Proofs.Wire.Fields
Purpose: Fields are read back as they were written, and a reading takes at least the bytes that
  its fields fill when they are written again.
-/
import FixedShape.Wire.Emit
import FixedShape.Wire.Reader
import FixedShape.Proofs.Outcome
import FixedShape.Proofs.Wire.Bytes
import FixedShape.Proofs.Wire.Varint

namespace FixedShape.Wire

open FixedShape.Outcome

/-! ### Parts of a buffer -/

namespace Bytes

theorem splitExact_append {count : Nat} {head : Bytes} (rest : Bytes) (h : head.length = count) :
    splitExact count (head ++ rest) = some (head, rest) := by
  rw [splitExact, List.take_append_of_le_length (Nat.le_of_eq h.symm),
    List.take_of_length_le (Nat.le_of_eq h), if_pos h, List.drop_append_of_le_length
      (Nat.le_of_eq h.symm), List.drop_of_length_le (Nat.le_of_eq h), List.nil_append]

theorem eq_append_of_splitExact {count : Nat} {bytes head rest : Bytes}
    (h : splitExact count bytes = some (head, rest)) :
    head.length = count ∧ bytes = head ++ rest := by
  rw [splitExact] at h
  split at h
  · next hlength =>
      cases h
      exact ⟨hlength, (List.take_append_drop count bytes).symm⟩
  · cases h

end Bytes

/-! ### Tags -/

namespace Emit

/-- The number stands above the three bits of the wire type. -/
theorem toNat_tag {number wireType : UInt64} (hnumber : number.toNat < 2 ^ 61)
    (hwire : wireType.toNat < 8) :
    (number <<< 3 ||| wireType).toNat = 8 * number.toNat + wireType.toNat := by
  have hor : 8 * number.toNat + wireType.toNat = 8 * number.toNat ||| wireType.toNat :=
    Nat.two_pow_add_eq_or_of_lt (i := 3) hwire number.toNat
  have hshift : (number <<< 3).toNat = 8 * number.toNat := by
    rw [UInt64.toNat_shiftLeft, Nat.shiftLeft_eq]
    simp
    omega
  rw [UInt64.toNat_or, hshift, ← hor]

/-- The tag of any wire type fills as many bytes. -/
theorem length_tag {number wireType : UInt64} (hnumber : number.toNat < 2 ^ 61)
    (hwire : wireType.toNat < 8) :
    (tag number wireType).length = Varint.size (8 * number.toNat) := by
  rw [tag, Varint.length_encode, toNat_tag hnumber hwire, Varint.size_mul_add _ hwire]

end Emit

/-- The bytes behind the tag of a value. -/
def Value.toBytes : Value → Bytes
  | .varint value => Varint.encode value
  | .fixed64 bits => Bytes.ofWord64 bits
  | .bytes payload => Varint.encode (UInt64.ofNat payload.length) ++ payload
  | .groupStart => []
  | .groupEnd => []
  | .fixed32 bits => Bytes.ofWord32 bits

theorem Value.wireType_lt (value : Value) : value.wireType.toNat < 8 := by
  cases value <;> simp [wireType]

theorem Emit.field_eq (field : Field) :
    Emit.field field = Emit.tag field.number field.value.wireType ++ field.value.toBytes := by
  obtain ⟨number, value⟩ := field
  cases value with
  | groupStart => exact (List.append_nil _).symm
  | groupEnd => exact (List.append_nil _).symm
  | varint | fixed64 | bytes | fixed32 => rfl

namespace Field

/-- A field has a wire form if its number fits above the wire type and the length of its payload
fits in a varint. -/
structure Writable (field : Field) : Prop where
  number_lt : field.number.toNat < 2 ^ 61
  length_lt : ∀ payload, field.value = .bytes payload → payload.length < 2 ^ 64

/-! ### Reading one field -/

theorem takeVarint_encode (value : UInt64) (rest : Bytes) :
    takeVarint (Varint.encode value ++ rest) = .ok (value, rest) := by
  rw [takeVarint, Varint.decode_encode]
  change Except.ok (value, _) = _
  rw [List.drop_left]

theorem length_of_takeVarint {buffer rest : Bytes} {value : UInt64}
    (h : takeVarint buffer = .ok (value, rest)) :
    (Varint.encode value).length + rest.length ≤ buffer.length := by
  rw [takeVarint] at h
  split at h
  · cases h
  · next hread =>
      cases h
      obtain ⟨hshort, hsize⟩ := Varint.length_le_of_decode hread
      rw [List.length_drop]
      omega

theorem takeBytes_append {count : Nat} {head : Bytes} (rest : Bytes) (h : head.length = count) :
    takeBytes count (head ++ rest) = .ok (head, rest) := by
  rw [takeBytes, Bytes.splitExact_append rest h]

theorem length_of_takeBytes {count : Nat} {buffer head rest : Bytes}
    (h : takeBytes count buffer = .ok (head, rest)) :
    head.length = count ∧ head.length + rest.length = buffer.length := by
  rw [takeBytes] at h
  split at h
  · cases h
  · next hsplit =>
      cases h
      obtain ⟨hlength, rfl⟩ := Bytes.eq_append_of_splitExact hsplit
      exact ⟨hlength, List.length_append.symm⟩

/-- A value is read back behind a tag of its wire type. -/
theorem readValue_toBytes {field : Field} (h : field.Writable) (rest : Bytes) :
    readValue field.value.wireType.toNat (field.value.toBytes ++ rest) =
      .ok (field.value, rest) := by
  cases hvalue : field.value with
  | varint value =>
      change readValue 0 (Varint.encode value ++ rest) = _
      rw [readValue, takeVarint_encode]
      rfl
  | fixed64 bits =>
      change readValue 1 (Bytes.ofWord64 bits ++ rest) = _
      rw [readValue, takeBytes_append rest (Bytes.length_ofWord64 bits)]
      change Except.ok (Value.fixed64 (Bytes.toWord64 (Bytes.ofWord64 bits)), rest) = _
      rw [Bytes.toWord64_ofWord64]
  | bytes payload =>
      have hlength : (UInt64.ofNat payload.length).toNat = payload.length := by
        rw [UInt64.toNat_ofNat']
        exact Nat.mod_eq_of_lt (h.length_lt payload hvalue)
      change readValue 2 ((Varint.encode (UInt64.ofNat payload.length) ++ payload) ++ rest) = _
      rw [readValue, List.append_assoc, takeVarint_encode]
      change (takeBytes (UInt64.ofNat payload.length).toNat (payload ++ rest)).map _ = _
      rw [takeBytes_append rest hlength.symm]
      rfl
  | groupStart => rfl
  | groupEnd => rfl
  | fixed32 bits =>
      change readValue 5 (Bytes.ofWord32 bits ++ rest) = _
      rw [readValue, takeBytes_append rest (Bytes.length_ofWord32 bits)]
      change Except.ok (Value.fixed32 (Bytes.toWord32 (Bytes.ofWord32 bits)), rest) = _
      rw [Bytes.toWord32_ofWord32]

/-- What a value that was read takes. -/
theorem of_readValue {wireType : Nat} {buffer rest : Bytes} {value : Value}
    (h : readValue wireType buffer = .ok (value, rest)) :
    value.wireType.toNat = wireType ∧
      value.toBytes.length + rest.length ≤ buffer.length ∧
      ∀ payload, value = .bytes payload → payload.length < 2 ^ 64 := by
  unfold readValue at h
  split at h
  · obtain ⟨⟨word, rest'⟩, hread, heq⟩ := map_eq_ok.mp h
    cases heq
    exact ⟨rfl, length_of_takeVarint hread, nofun⟩
  · obtain ⟨⟨word, rest'⟩, hread, heq⟩ := map_eq_ok.mp h
    cases heq
    obtain ⟨hlength, hsum⟩ := length_of_takeBytes hread
    refine ⟨rfl, ?_, nofun⟩
    rw [Value.toBytes, Bytes.length_ofWord64]
    omega
  · split at h
    · cases h
    · next size behind hsize =>
        obtain ⟨⟨payload, rest'⟩, hread, heq⟩ := map_eq_ok.mp h
        cases heq
        obtain ⟨hlength, hsum⟩ := length_of_takeBytes hread
        have hsize' := length_of_takeVarint hsize
        refine ⟨rfl, ?_, ?_⟩
        · rw [Value.toBytes, hlength, UInt64.ofNat_toNat, List.length_append]
          omega
        · intro payload' hpayload
          cases hpayload
          rw [hlength]
          exact size.toNat_lt
  · cases h
    exact ⟨rfl, Nat.le_of_eq (Nat.zero_add _), nofun⟩
  · cases h
    exact ⟨rfl, Nat.le_of_eq (Nat.zero_add _), nofun⟩
  · obtain ⟨⟨word, rest'⟩, hread, heq⟩ := map_eq_ok.mp h
    cases heq
    obtain ⟨hlength, hsum⟩ := length_of_takeBytes hread
    refine ⟨rfl, ?_, nofun⟩
    rw [Value.toBytes, Bytes.length_ofWord32]
    omega
  · cases h

/-- A field is read back, whatever follows it. -/
theorem read_field {field : Field} (h : field.Writable) (context : Context) (rest : Bytes) :
    read context (Emit.field field ++ rest) = .ok (field, rest) := by
  have htag := Emit.toNat_tag h.number_lt field.value.wireType_lt
  have hwire := field.value.wireType_lt
  have hnumber : (field.number <<< 3 ||| field.value.wireType) >>> 3 = field.number := by
    apply UInt64.toNat_inj.mp
    rw [UInt64.toNat_shiftRight, htag, Nat.shiftRight_eq_div_pow]
    simp
    omega
  have hmod : (field.number <<< 3 ||| field.value.wireType).toNat % 8 =
      field.value.wireType.toNat := by
    rw [htag]
    omega
  rw [Emit.field_eq, List.append_assoc, read, Emit.tag, takeVarint_encode]
  simp only [hnumber, hmod, readValue_toBytes h]

/-- A tag is made up of the number and the wire type that are read from it. -/
theorem tag_shiftRight {tag wireType : UInt64} (h : wireType.toNat = tag.toNat % 8) :
    (tag >>> 3).toNat < 2 ^ 61 ∧ Emit.tag (tag >>> 3) wireType = Varint.encode tag := by
  have hshift : (tag >>> 3).toNat = tag.toNat / 8 := by
    rw [UInt64.toNat_shiftRight, Nat.shiftRight_eq_div_pow]
    rfl
  have hlt : (tag >>> 3).toNat < 2 ^ 61 := by
    have := tag.toNat_lt
    omega
  have hwire : wireType.toNat < 8 := by omega
  have htag : tag >>> 3 <<< 3 ||| wireType = tag := by
    apply UInt64.toNat_inj.mp
    rw [Emit.toNat_tag hlt hwire, hshift, h]
    omega
  exact ⟨hlt, by rw [Emit.tag, htag]⟩

/-- A field that was read is a tag and a value of its wire type. -/
theorem exists_tag_of_read {context : Context} {buffer rest : Bytes} {field : Field}
    (h : read context buffer = .ok (field, rest)) :
    ∃ tag behind, takeVarint buffer = .ok (tag, behind) ∧
      readValue (tag.toNat % 8) behind = .ok (field.value, rest) ∧ field.number = tag >>> 3 := by
  rw [read] at h
  split at h
  · cases h
  · next tag behind htag =>
      dsimp only at h
      split at h
      · cases h
      · next hvalue =>
          cases h
          exact ⟨tag, behind, htag, hvalue, rfl⟩

/-- What a field that was read takes. -/
theorem of_read {context : Context} {buffer rest : Bytes} {field : Field}
    (h : read context buffer = .ok (field, rest)) :
    field.Writable ∧ (Emit.field field).length + rest.length ≤ buffer.length := by
  obtain ⟨tag, behind, htag, hvalue, hnumber⟩ := exists_tag_of_read h
  obtain ⟨hwire, hlength, hpayload⟩ := of_readValue hvalue
  obtain ⟨hlt, hencode⟩ := tag_shiftRight hwire
  have htaken := length_of_takeVarint htag
  refine ⟨⟨hnumber ▸ hlt, hpayload⟩, ?_⟩
  rw [Emit.field_eq, hnumber, hencode, List.length_append]
  omega

/-! ### Reading a buffer -/

theorem length_field_pos (field : Field) : 1 ≤ (Emit.field field).length := by
  rw [Emit.field_eq, List.length_append]
  exact Nat.le_add_right_of_le (Varint.length_encode_pos _)

/-- A payload is shorter than its field. -/
theorem length_payload_lt {field : Field} {payload : Bytes} (h : field.value = .bytes payload) :
    payload.length < (Emit.field field).length := by
  have htag : 1 ≤ (Emit.tag field.number field.value.wireType).length :=
    Varint.length_encode_pos _
  rw [Emit.field_eq, List.length_append, h, Value.toBytes, List.length_append]
  rw [h] at htag
  omega

theorem length_field_le_of_mem {field : Field} {fields : List Field} (h : field ∈ fields) :
    (Emit.field field).length ≤ (Emit.fields fields).length :=
  (List.sublist_flatten_of_mem (List.mem_map_of_mem h)).length_le

theorem scanLoop_nil (context : Context) (fuel : Nat) (done : List Field) :
    scanLoop context fuel done [] = { items := done.reverse } := by
  cases fuel with
  | zero => rfl
  | succ fuel => rfl

theorem scanLoop_fields {fields : List Field} (h : ∀ field ∈ fields, field.Writable)
    (context : Context) {fuel : Nat} (hfuel : (Emit.fields fields).length ≤ fuel)
    (done : List Field) :
    scanLoop context fuel done (Emit.fields fields) = { items := done.reverse ++ fields } := by
  induction fields generalizing fuel done with
  | nil =>
      rw [List.append_nil]
      exact scanLoop_nil context fuel done
  | cons field fields ih =>
      have hpos := length_field_pos field
      have hcons : Emit.fields (field :: fields) = Emit.field field ++ Emit.fields fields := rfl
      rw [hcons, List.length_append] at hfuel
      cases fuel with
      | zero => omega
      | succ fuel =>
          have hne : Emit.field field ++ Emit.fields fields ≠ [] := by
            intro hnil
            rw [(List.append_eq_nil_iff.mp hnil).1] at hpos
            exact absurd hpos (by decide)
          rw [hcons, scanLoop, read_field (h field List.mem_cons_self)]
          · dsimp only
            rw [ih (fun other hother => h other (List.mem_cons_of_mem _ hother)) (by omega),
              List.reverse_cons, List.append_assoc]
            rfl
          · exact hne

/-- The fields that were written are read, in their order. -/
theorem scan_fields {fields : List Field} (h : ∀ field ∈ fields, field.Writable)
    (context : Context) : scan context (Emit.fields fields) = { items := fields } :=
  scanLoop_fields h context (Nat.le_refl _) []

theorem of_scanLoop (context : Context) (fuel : Nat) (done : List Field) (buffer : Bytes) :
    ∃ fields, (scanLoop context fuel done buffer).items = done.reverse ++ fields ∧
      (∀ field ∈ fields, field.Writable) ∧ (Emit.fields fields).length ≤ buffer.length := by
  have hstop (done : List Field) (buffer : Bytes) :
      ∃ fields, done.reverse = done.reverse ++ fields ∧
      (∀ field ∈ fields, field.Writable) ∧ (Emit.fields fields).length ≤ buffer.length :=
    ⟨[], (List.append_nil _).symm, List.forall_mem_nil _, Nat.zero_le _⟩
  induction fuel generalizing done buffer with
  | zero => exact hstop _ _
  | succ fuel ih =>
      cases buffer with
      | nil => exact hstop done []
      | cons byte behind =>
          unfold scanLoop
          cases hread : read context (byte :: behind) with
          | error error => exact hstop done (byte :: behind)
          | ok result =>
              obtain ⟨field, rest⟩ := result
              obtain ⟨hwritable, hlength⟩ := of_read hread
              obtain ⟨fields, hitems, hall, hle⟩ := ih (field :: done) rest
              refine ⟨field :: fields, ?_, ?_, ?_⟩
              · rw [List.reverse_cons, List.append_assoc] at hitems
                exact hitems
              · exact List.forall_mem_cons.mpr ⟨hwritable, hall⟩
              · change (Emit.field field ++ Emit.fields fields).length ≤ _
                rw [List.length_append]
                omega

/-- What the fields of a buffer take. -/
theorem of_scan (context : Context) (buffer : Bytes) :
    (∀ field ∈ (scan context buffer).items, field.Writable) ∧
      (Emit.fields (scan context buffer).items).length ≤ buffer.length := by
  obtain ⟨fields, hitems, hall, hle⟩ := of_scanLoop context buffer.length [] buffer
  rw [scan, hitems]
  exact ⟨hall, hle⟩

/-- A payload that was read is shorter than the buffer. -/
theorem length_payload_lt_of_mem_scan {context : Context} {buffer payload : Bytes} {field : Field}
    (hmem : field ∈ (scan context buffer).items) (hvalue : field.value = .bytes payload) :
    payload.length < buffer.length :=
  Nat.lt_of_lt_of_le (length_payload_lt hvalue)
    (Nat.le_trans (length_field_le_of_mem hmem) (of_scan context buffer).2)

/-! ### The label of a message -/

theorem read_context {context : Context} {buffer : Bytes} {result : Field × Bytes}
    (h : read context buffer = .ok result) (other : Context) :
    read other buffer = .ok result := by
  rw [read] at h
  split at h
  · cases h
  · next tag rest htag =>
      rw [read, htag]
      dsimp only at h ⊢
      split at h
      · cases h
      · exact h

theorem scanLoop_context {context : Context} {fuel : Nat} {done : List Field} {buffer : Bytes}
    (h : (scanLoop context fuel done buffer).error = none) (other : Context) :
    scanLoop other fuel done buffer = scanLoop context fuel done buffer := by
  induction fuel generalizing done buffer with
  | zero => rfl
  | succ fuel ih =>
      cases buffer with
      | nil => rfl
      | cons byte rest =>
          unfold scanLoop at h ⊢
          cases hread : read context (byte :: rest) with
          | error error =>
              rw [hread] at h
              cases h
          | ok result =>
              rw [hread] at h
              rw [read_context hread other]
              exact ih h

/-- The label is used in errors only. -/
theorem scan_context {context : Context} {buffer : Bytes}
    (h : (scan context buffer).error = none) (other : Context) :
    scan other buffer = scan context buffer :=
  scanLoop_context h other

end Field

end FixedShape.Wire
