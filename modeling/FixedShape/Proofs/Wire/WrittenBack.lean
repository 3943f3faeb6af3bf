/-
Module: FixedShape.Proofs.Wire.WrittenBack
Purpose: Fields that are kept and written again. They are read again as they were. The bytes are no
  more than those that were read, and are the same exactly if no varint among them is longer than it
  need be.
-/
import FixedShape.Proofs.Wire.Groups
import FixedShape.Proofs.Wire.Truncation

namespace FixedShape.Wire

open FixedShape.Outcome

/-! ### Shortest varints -/

namespace Varint

/-- If a varint stands at the start of a buffer, no fewer bytes are read as its value. -/
def Minimal (buffer : Bytes) : Prop :=
  ∀ value size, decode buffer = .ok (value, size) →
    ∀ other taken, decode other = .ok (value, taken) → size ≤ taken

/-- The one shortest varint of a value is the one that is written. -/
theorem minimal_iff {buffer : Bytes} {value : UInt64} {size : Nat}
    (h : decode buffer = .ok (value, size)) : Minimal buffer ↔ encode value = buffer.take size := by
  obtain ⟨hshort, hsize⟩ := length_le_of_decode h
  constructor
  · intro hminimal
    have hwritten : decode (encode value) = .ok (value, (encode value).length) := by
      have hread := decode_encode value []
      rwa [List.append_nil] at hread
    have hle := hminimal value size h (encode value) _ hwritten
    have hread := decodeWithin_eq_ok.mpr (decode_eq_ok.mp h)
    exact (take_eq_encodeWithin hread (Nat.le_antisymm hle hshort)).symm
  · intro htake value' size' h' other taken hother
    cases h.symm.trans h'
    have hlength := congrArg List.length htake
    rw [List.length_take_of_le hsize] at hlength
    rw [← hlength]
    exact (length_le_of_decode hother).1

end Varint

/-! ### Parts of a buffer -/

/-- What is written for two parts in a row, neither of which grows, is what was read exactly if this
is so of both parts. -/
theorem append_eq_iff {first written behind buffer : Bytes} (hsuffix : behind <:+ buffer)
    (hfirst : first.length + behind.length ≤ buffer.length)
    (hwritten : written.length ≤ behind.length) :
    first ++ written = buffer ↔ first ++ behind = buffer ∧ written = behind := by
  obtain ⟨front, rfl⟩ := hsuffix
  rw [List.length_append] at hfirst
  constructor
  · intro h
    have hlength := congrArg List.length h
    rw [List.length_append, List.length_append] at hlength
    obtain ⟨rfl, rfl⟩ := List.append_inj h (by omega)
    exact ⟨rfl, rfl⟩
  · rintro ⟨h, rfl⟩
    exact h

namespace Field

variable {context : Context} {buffer rest : Bytes}

theorem suffix_of_takeVarint {value : UInt64} (h : takeVarint buffer = .ok (value, rest)) :
    rest <:+ buffer := by
  obtain ⟨part, rfl, -⟩ := takes_takeVarint h
  exact List.suffix_append part rest

theorem suffix_of_read {field : Field} (h : read context buffer = .ok (field, rest)) :
    rest <:+ buffer := by
  obtain ⟨part, rfl, -⟩ := takes_read h
  exact List.suffix_append part rest

/-- A varint is written back to the bytes that it was read from if there was no shorter one. -/
theorem encode_append_eq_iff {value : UInt64} (h : takeVarint buffer = .ok (value, rest)) :
    Varint.encode value ++ rest = buffer ↔ Varint.Minimal buffer := by
  rw [takeVarint] at h
  split at h
  · cases h
  · next size hread =>
      cases h
      rw [Varint.minimal_iff hread]
      constructor
      · intro heq
        exact List.append_cancel_right (heq.trans (List.take_append_drop size buffer).symm)
      · intro heq
        rw [heq, List.take_append_drop]

/-- The wire types of which a varint stands behind the tag: a value, or the length of one. -/
def VarintBehind (wireType : Nat) : Prop := wireType = 0 ∨ wireType = 2

/-- Of a value only a varint can be written back to other bytes. -/
theorem toBytes_append_eq_iff {wireType : Nat} {value : Value}
    (h : readValue wireType buffer = .ok (value, rest)) :
    value.toBytes ++ rest = buffer ↔ (VarintBehind wireType → Varint.Minimal buffer) := by
  unfold readValue at h
  split at h
  · obtain ⟨⟨word, _⟩, hread, heq⟩ := map_eq_ok.mp h
    cases heq
    rw [Value.toBytes, encode_append_eq_iff hread]
    exact ⟨fun h _ => h, fun h => h (Or.inl rfl)⟩
  · obtain ⟨⟨word, _⟩, hread, heq⟩ := map_eq_ok.mp h
    cases heq
    obtain ⟨hbuffer, -⟩ := takes_takeBytes hread
    rw [Value.toBytes, Bytes.ofWord64_toWord64 (length_of_takeBytes hread).1]
    exact iff_of_true hbuffer.symm (by simp [VarintBehind])
  · split at h
    · cases h
    · next size behind hsize =>
        obtain ⟨⟨payload, _⟩, hread, heq⟩ := map_eq_ok.mp h
        cases heq
        obtain ⟨hbehind, -⟩ := takes_takeBytes hread
        rw [Value.toBytes, (length_of_takeBytes hread).1, UInt64.ofNat_toNat, List.append_assoc,
          ← hbehind, encode_append_eq_iff hsize]
        exact ⟨fun h _ => h, fun h => h (Or.inr rfl)⟩
  · cases h
    exact iff_of_true rfl (by simp [VarintBehind])
  · cases h
    exact iff_of_true rfl (by simp [VarintBehind])
  · obtain ⟨⟨word, _⟩, hread, heq⟩ := map_eq_ok.mp h
    cases heq
    obtain ⟨hbuffer, -⟩ := takes_takeBytes hread
    rw [Value.toBytes, Bytes.ofWord32_toWord32 (length_of_takeBytes hread).1]
    exact iff_of_true hbuffer.symm (by simp [VarintBehind])
  · cases h

/-! ### Fields -/

/-- The places of a buffer at which a varint stands: each tag, and the value or the length behind the
tag. -/
inductive VarintAt (context : Context) : (buffer place : Bytes) → Prop where
  | tag {buffer : Bytes} (nonempty : buffer ≠ []) : VarintAt context buffer buffer
  | value {buffer place : Bytes} {tag : UInt64} (taken : takeVarint buffer = .ok (tag, place))
      (wireType : VarintBehind (tag.toNat % 8)) : VarintAt context buffer place
  | later {buffer rest place : Bytes} {field : Field}
      (taken : read context buffer = .ok (field, rest)) (varint : VarintAt context rest place) :
      VarintAt context buffer place

/-- The varints of a buffer are those of its first field and those of the rest. -/
theorem varintAt_iff {tag : UInt64} {behind place : Bytes} {field : Field}
    (htag : takeVarint buffer = .ok (tag, behind)) (hread : read context buffer = .ok (field, rest)) :
    VarintAt context buffer place ↔
      place = buffer ∨ (place = behind ∧ VarintBehind (tag.toNat % 8)) ∨
        VarintAt context rest place := by
  constructor
  · intro h
    cases h with
    | tag => exact Or.inl rfl
    | value taken wireType =>
        cases htag.symm.trans taken
        exact Or.inr (Or.inl ⟨rfl, wireType⟩)
    | later taken varint =>
        cases hread.symm.trans taken
        exact Or.inr (Or.inr varint)
  · rintro (rfl | ⟨rfl, hwire⟩ | hlater)
    · refine .tag ?_
      rintro rfl
      cases hread
    · exact .value htag hwire
    · exact .later hread hlater

/-- A field is written back to the bytes that it was read from if its varints were minimal. -/
theorem field_append_eq_iff {tag : UInt64} {behind : Bytes} {field : Field}
    (htag : takeVarint buffer = .ok (tag, behind))
    (hvalue : readValue (tag.toNat % 8) behind = .ok (field.value, rest))
    (hnumber : field.number = tag >>> 3) :
    Emit.field field ++ rest = buffer ↔
      Varint.Minimal buffer ∧ (VarintBehind (tag.toNat % 8) → Varint.Minimal behind) := by
  obtain ⟨hwire, hlength, -⟩ := of_readValue hvalue
  rw [Emit.field_eq, hnumber, (tag_shiftRight hwire).2, List.append_assoc,
    append_eq_iff (suffix_of_takeVarint htag) (length_of_takeVarint htag)
      (by rw [List.length_append]; exact hlength),
    encode_append_eq_iff htag, toBytes_append_eq_iff hvalue]

/-- The fields of a buffer are written back to it if its varints are minimal. -/
theorem fields_scan_eq_iff (h : (scan context buffer).error = none) :
    Emit.fields (scan context buffer).items = buffer ↔
      ∀ place, VarintAt context buffer place → Varint.Minimal place := by
  induction buffer using read_induction context with
  | nil =>
      refine iff_of_true rfl fun place hplace => ?_
      cases hplace with
      | tag nonempty => exact absurd rfl nonempty
      | value taken _ => cases taken
      | later taken _ => cases taken
  | unread buffer error hne hread =>
      rw [scan_of_read_error hne hread] at h
      cases h
  | field buffer field rest hread ih =>
      obtain ⟨tag, behind, htag, hvalue, hnumber⟩ := exists_tag_of_read hread
      rw [scan_of_read hread] at h ⊢
      change Emit.field field ++ Emit.fields (scan context rest).items = buffer ↔ _
      rw [append_eq_iff (suffix_of_read hread) (of_read hread).2 (of_scan context rest).2,
        field_append_eq_iff htag hvalue hnumber, ih h]
      simp only [varintAt_iff htag hread, or_imp, forall_and, forall_eq, and_imp, and_assoc]

/-- Fields of all kinds are read as they were written. The fields of a buffer that was read, written
again, are read as before; they fill no more bytes than there were, and the same bytes exactly if
every tag, every length and every value that is a varint was in its shortest form. -/
theorem fields_written_back (context other : Context) :
    (∀ fields : List Field, (∀ field ∈ fields, field.Writable) →
      scan context (Emit.fields fields) = { items := fields }) ∧
    ∀ buffer fields, scan context buffer = { items := fields } →
      scan other (Emit.fields fields) = { items := fields } ∧
      (Emit.fields fields).length ≤ buffer.length ∧
      (Emit.fields fields = buffer ↔
        ∀ place, VarintAt context buffer place → Varint.Minimal place) := by
  refine ⟨fun fields hfields => scan_fields hfields context, fun buffer fields h => ?_⟩
  obtain ⟨hwritable, hlength⟩ := of_scan context buffer
  have hscan : (scan context buffer).error = none := by rw [h]
  have hiff := fields_scan_eq_iff hscan
  rw [h] at hwritable hlength hiff
  exact ⟨scan_fields hwritable other, hlength, hiff⟩

/-- Fields of the largest number in all kinds, and a buffer with a tag and a length that are longer
than they need be. -/
theorem fields_written_back_loose :
    let number : UInt64 := 0x1fffffffffffffff
    let fields : List Field := [
      { number, value := .varint 0xffffffffffffffff }, { number, value := .fixed64 1 },
      { number, value := .groupStart }, { number, value := .bytes [0x41] },
      { number, value := .fixed32 0xffffffff }, { number, value := .groupEnd }]
    let buffer : Bytes := [0x88, 0x00, 0x05, 0x12, 0x81, 0x00, 0x41]
    let kept : List Field :=
      [{ number := 1, value := .varint 5 }, { number := 2, value := .bytes [0x41] }]
    (∀ field ∈ fields, field.Writable) ∧
      scan none (Emit.fields fields) = { items := fields } ∧
      scan none buffer = { items := kept } ∧
      scan none (Emit.fields kept) = { items := kept } ∧
      (Emit.fields kept).length ≤ buffer.length ∧
      ∃ place, VarintAt none buffer place ∧ ¬ Varint.Minimal place := by
  intro number fields buffer kept
  have hwritable : ∀ field ∈ fields, field.Writable := by
    have hnumber : number.toNat < 2 ^ 61 := by decide
    have hpayload : ∀ payload, Value.bytes [0x41] = .bytes payload → payload.length < 2 ^ 64 := by
      rintro payload ⟨⟩
      decide
    simp only [fields, List.forall_mem_cons, List.not_mem_nil, false_implies, implies_true, and_true]
    exact ⟨⟨hnumber, nofun⟩, ⟨hnumber, nofun⟩, ⟨hnumber, nofun⟩, ⟨hnumber, hpayload⟩,
      ⟨hnumber, nofun⟩, ⟨hnumber, nofun⟩⟩
  have hread : scan none buffer = { items := kept } := rfl
  obtain ⟨hfields, hbuffer⟩ := fields_written_back none none
  obtain ⟨hagain, hlength, hiff⟩ := hbuffer buffer kept hread
  refine ⟨hwritable, hfields fields hwritable, hread, hagain, hlength, ?_⟩
  have hne : Emit.fields kept ≠ buffer := by decide
  simpa using hiff.not.mp hne

end Field

end FixedShape.Wire
