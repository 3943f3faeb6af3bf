/-
Module: FixedShape.Proofs.Wire.Concatenation
Purpose: Buffers one after the other. A reading does not look at what follows what it takes, so the
  fields of two buffers in a row are those of the first and then those of the second.
-/
import FixedShape.Proofs.Wire.Fields

namespace FixedShape.Wire

open FixedShape.Outcome

/-! ### What follows is not looked at -/

namespace Varint

theorem decodeWithin_append {room : Nat} {buffer : Bytes} {result : Nat × Nat}
    (h : decodeWithin room buffer = .ok result) (behind : Bytes) :
    decodeWithin room (buffer ++ behind) = .ok result := by
  induction room generalizing buffer result with
  | zero => cases h
  | succ room ih =>
      cases buffer with
      | nil => cases h
      | cons byte rest =>
          rw [decodeWithin] at h
          rw [List.cons_append, decodeWithin]
          split at h
          · next hlast => rw [if_pos hlast, h]
          · next hmore =>
              rw [if_neg hmore]
              split at h
              · cases h
              · next hrest =>
                  rw [ih hrest]
                  exact h

theorem decode_append {buffer : Bytes} {result : UInt64 × Nat} (h : decode buffer = .ok result)
    (behind : Bytes) : decode (buffer ++ behind) = .ok result := by
  cases buffer with
  | nil => cases h
  | cons byte rest =>
      simp only [decode] at h
      simp only [List.cons_append, decode]
      split at h
      · cases h
      · next hread =>
          rw [← List.cons_append, decodeWithin_append hread]
          exact h

end Varint

namespace Field

variable {context : Context} {buffer rest : Bytes}

theorem takeVarint_behind {value : UInt64} (h : takeVarint buffer = .ok (value, rest))
    (behind : Bytes) : takeVarint (buffer ++ behind) = .ok (value, rest ++ behind) := by
  rw [takeVarint] at h
  split at h
  · cases h
  · next hread =>
      cases h
      obtain ⟨_, hsize⟩ := Varint.length_le_of_decode hread
      rw [takeVarint, Varint.decode_append hread]
      exact congrArg (fun rest => Except.ok (value, rest)) (List.drop_append_of_le_length hsize)

theorem takeBytes_behind {count : Nat} {head : Bytes} (h : takeBytes count buffer = .ok (head, rest))
    (behind : Bytes) : takeBytes count (buffer ++ behind) = .ok (head, rest ++ behind) := by
  rw [takeBytes] at h
  split at h
  · cases h
  · next hsplit =>
      cases h
      obtain ⟨hlength, rfl⟩ := Bytes.eq_append_of_splitExact hsplit
      rw [List.append_assoc, takeBytes_append _ hlength]

theorem readValue_behind {wireType : Nat} {value : Value}
    (h : readValue wireType buffer = .ok (value, rest)) (behind : Bytes) :
    readValue wireType (buffer ++ behind) = .ok (value, rest ++ behind) := by
  unfold readValue at h ⊢
  split at h
  · obtain ⟨⟨word, _⟩, hread, heq⟩ := map_eq_ok.mp h
    cases heq
    rw [takeVarint_behind hread]
    rfl
  · obtain ⟨⟨word, _⟩, hread, heq⟩ := map_eq_ok.mp h
    cases heq
    rw [takeBytes_behind hread]
    rfl
  · split at h
    · cases h
    · next hsize =>
        obtain ⟨⟨payload, _⟩, hread, heq⟩ := map_eq_ok.mp h
        cases heq
        rw [takeVarint_behind hsize]
        dsimp only
        rw [takeBytes_behind hread]
        rfl
  · cases h
    rfl
  · cases h
    rfl
  · obtain ⟨⟨word, _⟩, hread, heq⟩ := map_eq_ok.mp h
    cases heq
    rw [takeBytes_behind hread]
    rfl
  · cases h

/-- A field is read in the same way whatever follows it. -/
theorem read_behind {field : Field} (h : read context buffer = .ok (field, rest))
    (behind : Bytes) : read context (buffer ++ behind) = .ok (field, rest ++ behind) := by
  rw [read] at h
  split at h
  · cases h
  · next tag between htag =>
      rw [read, takeVarint_behind htag]
      dsimp only at h ⊢
      split at h
      · cases h
      · next hvalue =>
          cases h
          rw [readValue_behind hvalue]

/-! ### A buffer field by field -/

theorem length_lt_of_read {field : Field} (h : read context buffer = .ok (field, rest)) :
    rest.length < buffer.length := by
  have hpos := length_field_pos field
  have htaken := (of_read h).2
  omega

/-- The fields found so far stand in front of the others. -/
theorem scanLoop_done (context : Context) (fuel : Nat) (done : List Field) (buffer : Bytes) :
    scanLoop context fuel done buffer =
      { items := done.reverse ++ (scanLoop context fuel [] buffer).items
        error := (scanLoop context fuel [] buffer).error } := by
  induction fuel generalizing done buffer with
  | zero => simp [scanLoop]
  | succ fuel ih =>
      cases buffer with
      | nil => simp [scanLoop]
      | cons byte behind =>
          unfold scanLoop
          cases hread : read context (byte :: behind) with
          | error error => simp
          | ok result =>
              dsimp only
              rw [ih (result.1 :: done), ih [result.1]]
              simp

/-- Any fuel that the length of the buffer bounds gives the same fields. -/
theorem scanLoop_fuel {fuel other : Nat} (h : buffer.length ≤ fuel) (hother : buffer.length ≤ other)
    (done : List Field) :
    scanLoop context fuel done buffer = scanLoop context other done buffer := by
  induction fuel generalizing other buffer done with
  | zero =>
      obtain rfl := List.length_eq_zero_iff.mp (Nat.le_zero.mp h)
      rw [scanLoop_nil, scanLoop_nil]
  | succ fuel ih =>
      cases other with
      | zero =>
          obtain rfl := List.length_eq_zero_iff.mp (Nat.le_zero.mp hother)
          rw [scanLoop_nil, scanLoop_nil]
      | succ other =>
          cases buffer with
          | nil => rw [scanLoop_nil, scanLoop_nil]
          | cons byte behind =>
              unfold scanLoop
              cases hread : read context (byte :: behind) with
              | error error => rfl
              | ok result =>
                  have hshorter := length_lt_of_read hread
                  exact ih (by omega) (by omega) (result.1 :: done)

@[simp] theorem scan_nil (context : Context) : scan context [] = { items := [] } := rfl

/-- The first field of a buffer and then those of the rest. -/
theorem scan_of_read {field : Field} (h : read context buffer = .ok (field, rest)) :
    scan context buffer =
      { items := field :: (scan context rest).items, error := (scan context rest).error } := by
  have hshorter := length_lt_of_read h
  cases buffer with
  | nil => cases h
  | cons byte behind =>
      rw [scan, List.length_cons, scanLoop]
      · rw [h]
        dsimp only
        rw [scanLoop_done, scanLoop_fuel (Nat.le_of_lt_succ hshorter) (Nat.le_refl rest.length)]
        rfl
      · exact List.cons_ne_nil _ _

/-- A buffer that starts with no field has none. -/
theorem scan_of_read_error {error : DecodeError} (hne : buffer ≠ [])
    (h : read context buffer = .error error) :
    scan context buffer = { items := [], error := some (error.within context none) } := by
  cases buffer with
  | nil => exact absurd rfl hne
  | cons byte behind =>
      rw [scan, List.length_cons, scanLoop]
      · rw [h]
        rfl
      · exact hne

/-- What holds of every buffer: it is empty, or starts with no field, or a field stands in front of
a shorter one. -/
theorem read_induction {motive : Bytes → Prop} (context : Context) (nil : motive [])
    (unread : ∀ buffer error, buffer ≠ [] → read context buffer = .error error → motive buffer)
    (field : ∀ buffer field rest, read context buffer = .ok (field, rest) → motive rest →
      motive buffer)
    (buffer : Bytes) : motive buffer := by
  induction hlength : buffer.length using Nat.strongRecOn generalizing buffer with
  | ind length ih =>
      by_cases hnil : buffer = []
      · exact hnil ▸ nil
      · cases hread : read context buffer with
        | error error => exact unread buffer error hnil hread
        | ok result =>
            have hshorter := length_lt_of_read hread
            exact field buffer result.1 result.2 hread
              (ih result.2.length (hlength ▸ hshorter) result.2 rfl)

/-- The fields of two buffers in a row, if the first one is well formed. -/
theorem scan_append {first : Bytes} (h : (scan context first).error = none) (second : Bytes) :
    scan context (first ++ second) =
      { items := (scan context first).items ++ (scan context second).items
        error := (scan context second).error } := by
  induction first using read_induction context with
  | nil => simp
  | unread first error hne hread =>
      rw [scan_of_read_error hne hread] at h
      cases h
  | field first field rest hread ih =>
      rw [scan_of_read hread] at h ⊢
      rw [scan_of_read (read_behind hread second), ih h]
      rfl

end Field

end FixedShape.Wire
