/-
Module: FixedShape.Proofs.Onnx.Codec
Purpose: Messages as sequences of parts. A part takes the fields of its number and is written in
  one place; what holds of each part holds of the message that is put together from them.
-/
import FixedShape.Onnx.Encode
import FixedShape.Proofs.Onnx.Reading

namespace FixedShape.Onnx

open FixedShape.Outcome
open FixedShape.Wire

variable {α β μ : Type} {buffer : Bytes}

namespace Grows

variable {field : Field} {before after : Bytes}

theorem left (h : Grows field before after) (rest : Bytes) :
    Grows field (before ++ rest) (after ++ rest) := by
  rw [Grows] at h ⊢
  rw [List.length_append, List.length_append]
  omega

theorem right (h : Grows field before after) (first : Bytes) :
    Grows field (first ++ before) (first ++ after) := by
  rw [Grows] at h ⊢
  rw [List.length_append, List.length_append]
  omega

end Grows

/-! ### Values in single fields -/

/-- A schema type whose values stand in a field each. `Kept` holds of every value that is read. -/
structure Element (α : Type) where
  number : UInt64
  read : Field → Except DecodeError α
  wire : α → Value
  Kept : α → Prop

namespace Element

/-- The field of a value. -/
def field (element : Element α) (value : α) : Field :=
  { number := element.number, value := element.wire value }

/-- A value is read back, and one that was read is written in at most twice the bytes. -/
structure Lawful (element : Element α) (buffer : Bytes) : Prop where
  read_field : ∀ value, element.Kept value → (Emit.field (element.field value)).length < 2 ^ 64 →
    element.read (element.field value) = .ok value
  of_read : ∀ field value, StandsIn buffer field → field.number = element.number →
    element.read field = .ok value → element.Kept value ∧
      (Emit.field (element.field value)).length ≤ 2 * (Emit.field field).length

@[simps] def text (number : UInt64) (context : Context) : Element String where
  number := number
  read field := field.asText context
  wire value := .bytes (Bytes.ofText value)
  Kept _ := True

@[simps] def int64 (number : UInt64) (context : Context) : Element Int64 where
  number := number
  read field := field.asInt64 context
  wire value := .varint value.toUInt64
  Kept _ := True

@[simps] def int32 (number : UInt64) (context : Context) : Element Int32 where
  number := number
  read field := field.asEnum context
  wire value := .varint value.toInt64.toUInt64
  Kept _ := True

@[simps] def float (number : UInt64) (context : Context) : Element UInt32 where
  number := number
  read field := field.asFloat context
  wire := .fixed32
  Kept _ := True

@[simps] def bytes (number : UInt64) (context : Context) : Element Bytes where
  number := number
  read field := field.asBytes context
  wire := .bytes
  Kept _ := True

@[simps] def message (number : UInt64) (context : Context) (decode : Bytes → Except DecodeError α)
    (encode : α → Bytes) : Element α where
  number := number
  read field := field.asMessage context decode
  wire value := .bytes (encode value)
  Kept := Readable decode encode

variable {number : UInt64} {context : Context}

/-- A value that is written as it was read. -/
theorem length_le_of_eq {bytes : Bytes} {field : Field} (h : bytes = Emit.field field) :
    bytes.length ≤ 2 * (Emit.field field).length := by
  rw [h]
  exact Nat.le_mul_of_pos_left _ (by decide)

theorem lawful_text : (text number context).Lawful buffer where
  read_field value _ _ := Field.asText_ofText number context value
  of_read field value _ heq h := by
    subst heq
    exact ⟨trivial, length_le_of_eq (Field.field_of_asText h)⟩

theorem lawful_int64 : (int64 number context).Lawful buffer where
  read_field value _ _ := Field.asInt64_toUInt64 number context value
  of_read field value _ heq h := by
    subst heq
    exact ⟨trivial, length_le_of_eq (Field.field_of_asInt64 h)⟩

theorem lawful_int32 : (int32 number context).Lawful buffer where
  read_field value _ _ := Field.asInt32_widen number context value
  of_read field value hfield heq h := by
    subst heq
    exact ⟨trivial, Field.length_of_asInt32 hfield.writable h⟩

theorem lawful_float : (float number context).Lawful buffer where
  read_field bits _ _ := Field.asFloat_fixed32 number context bits
  of_read field bits _ heq h := by
    subst heq
    exact ⟨trivial, length_le_of_eq (Field.field_of_asFloat h)⟩

theorem lawful_bytes : (bytes number context).Lawful buffer where
  read_field payload _ _ := Field.asBytes_bytes number context payload
  of_read field payload _ heq h := by
    subst heq
    exact ⟨trivial, length_le_of_eq (Field.field_of_asBytes h)⟩

/-- Messages are read back if those in shorter buffers are. -/
theorem lawful_message {decode : Bytes → Except DecodeError α} {encode : α → Bytes}
    (hfaithful : ∀ payload, payload.length < buffer.length → Faithful decode encode payload) :
    (message number context decode encode).Lawful buffer where
  read_field value hreadable hlength := by
    apply Field.asMessage_of_decode
    exact hreadable (Nat.lt_of_le_of_lt (Emit.length_le_length_bytes number _) hlength)
  of_read field value hfield heq h := by
    subst heq
    obtain ⟨payload, hvalue, hdecode⟩ := Field.of_asMessage h
    obtain ⟨hreadable, hlength⟩ := hfaithful payload (hfield.length_lt payload hvalue) hdecode
    exact ⟨hreadable, (Field.holds_of_bytes hfield.writable hvalue hlength).length_bytes_le⟩

end Element

/-! ### Parts of a message -/

/-- A part of a message: the value that it starts with, what a field of its number adds, and the
bytes that are written for it. -/
structure Part (α : Type) where
  number : UInt64
  start : α
  take : α → Field → Except DecodeError α
  encode : α → Bytes
  Kept : α → Prop

namespace Part

/-- A field adds at most twice its bytes, and the bytes of the part are read back in every message
that has a place for it. -/
structure Lawful (part : Part α) (buffer : Bytes) : Prop where
  encode_start : part.encode part.start = []
  kept_start : part.Kept part.start
  of_take : ∀ field before after, StandsIn buffer field → field.number = part.number →
    part.Kept before → part.take before field = .ok after →
      part.Kept after ∧ Grows field (part.encode before) (part.encode after)
  reads : ∀ {μ : Type} {step : μ → Field → Except DecodeError μ} (set : α → μ),
    part.number.toNat < 2 ^ 61 →
    (∀ value field, field.number = part.number →
      step (set value) field = set <$> part.take value field) →
    ∀ value, part.Kept value → Reads step (part.encode value) (set part.start) (set value)

/-- A value that may be absent. The last field counts. -/
@[simps] def optional (element : Element α) : Part (Option α) where
  number := element.number
  start := none
  take _ field := some <$> element.read field
  encode := Emit.optional fun value => Emit.field (element.field value)
  Kept value := ∀ a, value = some a → element.Kept a

/-- Values of a field each. -/
@[simps] def repeated (element : Element α) : Part (List α) where
  number := element.number
  start := []
  take done field := (fun value => done ++ [value]) <$> element.read field
  encode values := values.flatMap fun value => Emit.field (element.field value)
  Kept values := ∀ a ∈ values, element.Kept a

/-- Numbers, packed or not, in the packing in which `encode` writes them. -/
@[simps] def numbers (number : UInt64) (read : Field → Except DecodeError (Scan α))
    (encode : List α → Bytes) : Part (List α) where
  number := number
  start := []
  take done field := do return done ++ (← (← read field).all)
  encode := encode
  Kept _ := True

theorem lawful_optional {element : Element α} (h : element.Lawful buffer) :
    (optional element).Lawful buffer where
  encode_start := rfl
  kept_start := nofun
  of_take field before after hfield hnumber _ htake := by
    obtain ⟨value, hread, rfl⟩ := map_eq_ok.mp htake
    obtain ⟨hkept, hlength⟩ := h.of_read field value hfield hnumber hread
    refine ⟨?_, Nat.le_trans hlength (Nat.le_add_left _ _)⟩
    intro a ha
    cases ha
    exact hkept
  reads set hnumber hstep value hkept := by
    apply Reads.optional set
    intro a ha
    apply Reads.field hnumber
    intro hlength
    rw [hstep none (element.field a) rfl]
    change set <$> some <$> element.read (element.field a) = _
    rw [h.read_field a (hkept a ha) hlength]
    rfl

theorem lawful_repeated {element : Element α} (h : element.Lawful buffer) :
    (repeated element).Lawful buffer where
  encode_start := rfl
  kept_start := List.forall_mem_nil _
  of_take field before after hfield hnumber hbefore htake := by
    obtain ⟨value, hread, rfl⟩ := map_eq_ok.mp htake
    obtain ⟨hkept, hlength⟩ := h.of_read field value hfield hnumber hread
    refine ⟨?_, ?_⟩
    · intro a ha
      rcases List.mem_append.mp ha with hold | hlast
      · exact hbefore a hold
      · rw [List.mem_singleton.mp hlast]
        exact hkept
    · change (List.flatMap _ (before ++ [value])).length ≤ (List.flatMap _ before).length + _
      rw [List.flatMap_append, List.flatMap_singleton, List.length_append]
      exact Nat.add_le_add_left hlength _
  reads set hnumber hstep values hkept := by
    apply Reads.each set
    intro a ha done
    apply Reads.field hnumber
    intro hlength
    rw [hstep done (element.field a) rfl]
    change set <$> (fun value => done ++ [value]) <$> element.read (element.field a) = _
    rw [h.read_field a (hkept a ha) hlength]
    rfl

variable {number : UInt64} {read : Field → Except DecodeError (Scan α)}

theorem take_numbers {encode : List α → Bytes} {field : Field} {values : List α} (done : List α)
    (h : read field = .ok { items := values }) :
    (numbers number read encode).take done field = .ok (done ++ values) := by
  change (do return done ++ (← (← read field).all)) = _
  rw [h]
  rfl

/-- Numbers in a field each. -/
theorem lawful_unpacked (wire : α → Value)
    (hread : ∀ value, read { number, value := wire value } = .ok { items := [value] })
    (hlength : ∀ field scan values, StandsIn buffer field → field.number = number →
      read field = .ok scan → scan.all = .ok values →
        (values.flatMap fun value => Emit.field { number, value := wire value }).length ≤
          2 * (Emit.field field).length) :
    (numbers number read fun values =>
      values.flatMap fun value => Emit.field { number, value := wire value }).Lawful buffer where
  encode_start := rfl
  kept_start := trivial
  of_take field before after hfield heq _ htake := by
    obtain ⟨scan, hscan, htake⟩ := bind_eq_ok.mp htake
    obtain ⟨values, hall, rfl⟩ := bind_pure_eq_ok.mp htake
    refine ⟨trivial, ?_⟩
    change (List.flatMap _ (before ++ values)).length ≤ (List.flatMap _ before).length + _
    rw [List.flatMap_append, List.length_append]
    exact Nat.add_le_add_left (hlength field scan values hfield heq hscan hall) _
  reads set hnumber hstep values _ := by
    apply Reads.each set
    intro value _ done
    apply Reads.field hnumber
    intro _
    rw [hstep done { number, value := wire value } rfl, take_numbers done (hread value)]
    rfl

/-- Numbers in one block, which is left out if there are none. -/
theorem lawful_packed (emit : α → Bytes) (hemit : ∀ value, 1 ≤ (emit value).length)
    (hread : ∀ values, read { number, value := .bytes (values.flatMap emit) } =
      .ok { items := values })
    (hholds : ∀ field scan values, StandsIn buffer field → field.number = number →
      read field = .ok scan → scan.all = .ok values → field.Holds (values.flatMap emit)) :
    (numbers number read fun values => Emit.block number (values.flatMap emit)).Lawful buffer where
  encode_start := rfl
  kept_start := trivial
  of_take field before after hfield heq _ htake := by
    obtain ⟨scan, hscan, htake⟩ := bind_eq_ok.mp htake
    obtain ⟨values, hall, rfl⟩ := bind_pure_eq_ok.mp htake
    have hblock := hholds field scan values hfield heq hscan hall
    refine ⟨trivial, ?_⟩
    subst heq
    change Grows field (Emit.block _ _) (Emit.block _ ((before ++ values).flatMap emit))
    rw [List.flatMap_append]
    exact hblock.length_block_le _
  reads set hnumber hstep values _ := by
    have htaken := hstep [] { number, value := .bytes (values.flatMap emit) } rfl
    rw [take_numbers [] (hread values)] at htaken
    cases values with
    | nil => exact Reads.nil _
    | cons value values =>
        have hne : (value :: values).flatMap emit ≠ [] := by
          intro hnil
          have hpos := hemit value
          rw [(List.append_eq_nil_iff.mp hnil).1] at hpos
          exact absurd hpos (by decide)
        change Reads _ (Emit.block number ((value :: values).flatMap emit)) _ _
        rw [Emit.block_of_ne_nil hne]
        exact Reads.field hnumber fun _ => htaken

/-! ### Kinds of numbers -/

variable {context : Context}

theorem lawful_unpackedInt64 (hnumber : number.toNat < 16) :
    (numbers number (·.asInt64s context) (Emit.unpackedInt64 number)).Lawful buffer := by
  apply lawful_unpacked (fun value : Int64 => .varint value.toUInt64)
  · exact Field.asInt64s_single number context
  · intro field scan values hfield heq hscan hall
    subst heq
    exact Field.length_of_asInt64s hfield.writable hnumber hscan hall

theorem lawful_unpackedFloat (hnumber : number.toNat < 16) :
    (numbers number (·.asFloats context) (Emit.unpackedFloat number)).Lawful buffer := by
  apply lawful_unpacked .fixed32
  · exact Field.asFloats_single number context
  · intro field scan values hfield heq hscan hall
    subst heq
    exact Field.length_of_asFloats hfield.writable hnumber hscan hall

theorem lawful_packedUInt64 :
    (numbers number (·.asUInt64s context) (Emit.packedUInt64 number)).Lawful buffer := by
  apply lawful_packed Varint.encode Varint.length_encode_pos
  · exact Field.asUInt64s_flatMap number context
  · intro field scan values hfield _ hscan hall
    exact Field.holds_of_asUInt64s hfield.writable hscan hall

/-- Signed numbers, each written as the varint of an unsigned one. -/
theorem lawful_packedSigned {read : Field → Except DecodeError (Scan α)} {widen : α → UInt64}
    (hread : ∀ values, read
      { number, value := .bytes ((values.map widen).flatMap Varint.encode) } =
        .ok { items := values })
    (hholds : ∀ field scan values, StandsIn buffer field → read field = .ok scan →
      scan.all = .ok values → field.Holds ((values.map widen).flatMap Varint.encode)) :
    (numbers number read fun values =>
      Emit.packedUInt64 number (values.map widen)).Lawful buffer := by
  have hmap (values : List α) : (values.map widen).flatMap Varint.encode =
      values.flatMap fun value => Varint.encode (widen value) :=
      List.flatMap_map widen Varint.encode values
  simp only [Emit.packedUInt64, hmap] at hread hholds ⊢
  apply lawful_packed _ fun _ => Varint.length_encode_pos _
  · exact hread
  · intro field scan values hfield _ hscan hall
    exact hholds field scan values hfield hscan hall

theorem lawful_packedInt64 :
    (numbers number (·.asInt64s context) (Emit.packedInt64 number)).Lawful buffer := by
  apply lawful_packedSigned
  · exact Field.asInt64s_flatMap number context
  · intro field scan values hfield hscan hall
    exact Field.holds_of_asInt64s hfield.writable hscan hall

theorem lawful_packedInt32 :
    (numbers number (·.asInt32s context) (Emit.packedInt32 number)).Lawful buffer := by
  have hlawful : (numbers number (·.asInt32s context) fun values =>
      Emit.packedUInt64 number (values.map fun value => value.toInt64.toUInt64)).Lawful buffer := by
    apply lawful_packedSigned
    · intro values
      have hread := Field.asInt32s_flatMap number context values
      rw [List.map_map] at hread
      exact hread
    · intro field scan values hfield hscan hall
      have hholds := Field.holds_of_asInt32s hfield.writable hscan hall
      rw [List.map_map] at hholds
      exact hholds
  have hencode : Emit.packedInt32 number = fun values =>
      Emit.packedUInt64 number (values.map fun value => value.toInt64.toUInt64) := by
    funext values
    rw [Emit.packedInt32, Emit.packedInt64, List.map_map]
    rfl
  rw [hencode]
  exact hlawful

theorem lawful_packedFloat :
    (numbers number (·.asFloats context) (Emit.packedFloat number)).Lawful buffer := by
  apply lawful_packed Bytes.ofWord32
  · intro bits
    rw [Bytes.length_ofWord32]
    decide
  · exact Field.asFloats_flatMap number context
  · intro field scan values hfield _ hscan hall
    exact (Field.holdsWide_of_asFloats hscan hall).holds hfield.writable (by decide)
      Bytes.length_ofWord32

theorem lawful_packedDouble :
    (numbers number (·.asDoubles context) (Emit.packedDouble number)).Lawful buffer := by
  apply lawful_packed Bytes.ofWord64
  · intro bits
    rw [Bytes.length_ofWord64]
    decide
  · exact Field.asDoubles_flatMap number context
  · intro field scan values hfield _ hscan hall
    exact (Field.holdsWide_of_asDoubles hscan hall).holds hfield.writable (by decide)
      Bytes.length_ofWord64

end Part

/-! ### Messages -/

/-- The parts of a message. `Kept` is told the numbers of the parts before. -/
structure Codec (α : Type) where
  numbers : List UInt64
  start : α
  step : α → Field → Except DecodeError α
  encode : α → Bytes
  Kept : List UInt64 → α → Prop

namespace Codec

/-- No number stands for two parts, and each fits into a tag. -/
def Numbered (codec : Codec α) (taken : List UInt64) : Prop :=
  (codec.numbers ++ taken).Nodup ∧ ∀ number ∈ codec.numbers, number.toNat < 2 ^ 61

instance (codec : Codec α) (taken : List UInt64) : Decidable (codec.Numbered taken) :=
  @instDecidableAnd _ _ inferInstance (List.decidableBAll _ _)

/-- What holds of a part, for all numbers that are not taken. -/
structure Lawful (codec : Codec α) (taken : List UInt64) (buffer : Bytes) : Prop where
  encode_start : codec.encode codec.start = []
  kept_start : codec.Kept taken codec.start
  of_step : ∀ field before after, StandsIn buffer field → field.number ∉ taken →
    codec.Kept taken before → codec.step before field = .ok after →
      codec.Kept taken after ∧ Grows field (codec.encode before) (codec.encode after)
  reads : ∀ {μ : Type} {step : μ → Field → Except DecodeError μ} (set : α → μ),
    codec.Numbered taken →
    (∀ value field, field.number ∉ taken →
      step (set value) field = set <$> codec.step value field) →
    ∀ value, codec.Kept taken value →
      Reads step (codec.encode value) (set codec.start) (set value)

/-- The fields that no part takes are kept as they are. -/
@[simps] def unknown : Codec (List Field) where
  numbers := []
  start := []
  step done field := pure (done ++ [field])
  encode := Emit.fields
  Kept taken fields := ∀ field ∈ fields, field.number.toNat < 2 ^ 61 ∧ field.number ∉ taken

/-- A part in front of the others takes the fields of its number. -/
@[simps] def cons (part : Part α) (rest : Codec β) : Codec (α × β) where
  numbers := part.number :: rest.numbers
  start := (part.start, rest.start)
  step value field :=
    if field.number = part.number then (·, value.2) <$> part.take value.1 field
    else (value.1, ·) <$> rest.step value.2 field
  encode value := part.encode value.1 ++ rest.encode value.2
  Kept taken value := part.Kept value.1 ∧ rest.Kept (part.number :: taken) value.2

variable {taken : List UInt64}

theorem lawful_unknown : unknown.Lawful taken buffer where
  encode_start := rfl
  kept_start := List.forall_mem_nil _
  of_step field before after hfield hnumber hbefore hstep := by
    cases hstep
    refine ⟨?_, ?_⟩
    · intro other hother
      rcases List.mem_append.mp hother with hold | hlast
      · exact hbefore other hold
      · rw [List.mem_singleton.mp hlast]
        exact ⟨hfield.writable.number_lt, hnumber⟩
    · change (List.flatMap _ (before ++ [field])).length ≤ (List.flatMap _ before).length + _
      rw [List.flatMap_append, List.flatMap_singleton, List.length_append]
      omega
  reads set _ hstep fields hkept := by
    apply Reads.each set
    intro field hfield done
    obtain ⟨hlt, hnumber⟩ := hkept field hfield
    apply Reads.field hlt
    intro _
    exact hstep done field hnumber

theorem step_of_eq {part : Part α} {field : Field} (rest : Codec β) (value : α × β)
    (h : field.number = part.number) :
    (cons part rest).step value field = (·, value.2) <$> part.take value.1 field := if_pos h

theorem step_of_ne {part : Part α} {field : Field} (rest : Codec β) (value : α × β)
    (h : field.number ≠ part.number) :
    (cons part rest).step value field = (value.1, ·) <$> rest.step value.2 field := if_neg h

/-- The numbers of the others are none of those before, nor that of the first. -/
theorem Numbered.rest {part : Part α} {rest : Codec β} (h : (cons part rest).Numbered taken) :
    rest.Numbered (part.number :: taken) :=
  ⟨List.perm_middle.nodup_iff.mpr h.1,
    fun number hnumber => h.2 number (List.mem_cons_of_mem _ hnumber)⟩

theorem Numbered.not_mem {part : Part α} {rest : Codec β} (h : (cons part rest).Numbered taken) :
    part.number ∉ taken := by
  intro hmem
  exact (List.nodup_cons.mp h.1).1 (List.mem_append_right _ hmem)

theorem lawful_cons {part : Part α} {rest : Codec β} (hpart : part.Lawful buffer)
    (hrest : rest.Lawful (part.number :: taken) buffer) :
    (cons part rest).Lawful taken buffer where
  encode_start := by
    change part.encode part.start ++ rest.encode rest.start = []
    rw [hpart.encode_start, hrest.encode_start, List.append_nil]
  kept_start := ⟨hpart.kept_start, hrest.kept_start⟩
  of_step field before after hfield hfree hbefore hstep := by
    by_cases hmine : field.number = part.number
    · rw [step_of_eq rest before hmine] at hstep
      obtain ⟨value, htake, rfl⟩ := map_eq_ok.mp hstep
      obtain ⟨hkept, hgrows⟩ := hpart.of_take field before.1 value hfield hmine hbefore.1 htake
      exact ⟨⟨hkept, hbefore.2⟩, hgrows.left _⟩
    · rw [step_of_ne rest before hmine] at hstep
      obtain ⟨value, hothers, rfl⟩ := map_eq_ok.mp hstep
      obtain ⟨hkept, hgrows⟩ := hrest.of_step field before.2 value hfield
        (List.not_mem_cons_of_ne_of_not_mem hmine hfree) hbefore.2 hothers
      exact ⟨⟨hbefore.1, hkept⟩, hgrows.right _⟩
  reads set hnumbered hstep value hkept := by
    -- the part is read while the others are at their start, and then the others behind it
    apply Reads.append
    · apply hpart.reads (fun first => set (first, rest.start))
        (hnumbered.2 part.number List.mem_cons_self) _ value.1 hkept.1
      intro first field hmine
      rw [hstep _ field (hmine ▸ hnumbered.not_mem), step_of_eq rest _ hmine, Functor.map_map]
    · apply hrest.reads (fun others => set (value.1, others)) hnumbered.rest _ value.2 hkept.2
      intro others field hfree
      rw [hstep _ field (List.not_mem_of_not_mem_cons hfree),
        step_of_ne rest _ (List.ne_of_not_mem_cons hfree), Functor.map_map]

end Codec

/-- Fields are taken by a message as they are by its parts. -/
theorem foldlM_ofParts {step : μ → Field → Except DecodeError μ}
    {partStep : α → Field → Except DecodeError α} {ofParts : α → μ}
    (hstep : ∀ parts field, step (ofParts parts) field = ofParts <$> partStep parts field)
    (fields : List Field) (parts : α) :
    fields.foldlM step (ofParts parts) = ofParts <$> fields.foldlM partStep parts := by
  induction fields generalizing parts with
  | nil => rfl
  | cons field fields ih =>
      rw [List.foldlM_cons, List.foldlM_cons, hstep, map_bind, bind_map_left]
      apply bind_congr
      intro next
      exact ih next

/-- A message whose parts may be kept is read back if its step and its bytes are those of its
parts. -/
theorem readable_of_kept {codec : Codec α} {ofParts : α → μ} {type : MessageType} {start : μ}
    {step : μ → Field → Except DecodeError μ} {encode : μ → Bytes}
    (hlawful : codec.Lawful [] buffer) (hnumbered : codec.Numbered [])
    (hstart : ofParts codec.start = start)
    (hstep : ∀ parts field, step (ofParts parts) field = ofParts <$> codec.step parts field)
    (hencode : ∀ parts, encode (ofParts parts) = codec.encode parts) (parts : α)
    (hkept : codec.Kept [] parts) :
    Readable (decodeWith type start step) encode (ofParts parts) := by
  subst hstart
  have hreads := hlawful.reads ofParts hnumbered (fun parts field _ => hstep parts field) parts hkept
  rw [Readable, hencode]
  exact hreads.decodeWith_eq

/-- A message that is put together from its parts loses nothing if its step and its bytes are
theirs. -/
theorem faithful_of_codec {codec : Codec α} {ofParts : α → μ} {type : MessageType} {start : μ}
    {step : μ → Field → Except DecodeError μ} {encode : μ → Bytes}
    (hlawful : codec.Lawful [] buffer) (hnumbered : codec.Numbered [])
    (hstart : ofParts codec.start = start)
    (hstep : ∀ parts field, step (ofParts parts) field = ofParts <$> codec.step parts field)
    (hencode : ∀ parts, encode (ofParts parts) = codec.encode parts) :
    Faithful (decodeWith type start step) encode buffer := by
  intro message hmessage
  obtain ⟨_, hfold⟩ := decodeWith_eq_ok.mp hmessage
  rw [← hstart, foldlM_ofParts hstep] at hfold
  obtain ⟨parts, hparts, rfl⟩ := map_eq_ok.mp hfold
  obtain ⟨hkept, hgrowth⟩ := foldlM_keeps
    (fun field hfield before after => hlawful.of_step field before after
      (standsIn_of_mem_scan hfield) List.not_mem_nil)
    hlawful.kept_start hparts
  have htaken := (Field.of_scan type.context buffer).2
  rw [hlawful.encode_start, List.length_nil] at hgrowth
  refine ⟨readable_of_kept hlawful hnumbered hstart hstep hencode parts hkept, ?_⟩
  rw [hencode]
  omega

end FixedShape.Onnx
