/-
Module: FixedShape.Proofs.Wire.Groups
Purpose: Which bytes are a varint, said without the reader: bytes that ask for more, a last one that
  does not, and seven bits of the number in each. The reader takes exactly these, and nothing
  shorter than the form that is written holds its value.
-/
import FixedShape.Proofs.Outcome
import FixedShape.Proofs.Wire.Varint
import Mathlib.Algebra.BigOperators.Group.Finset.Basic
import Mathlib.Algebra.BigOperators.Ring.Finset

namespace FixedShape.Wire.Varint

/-! ### Bytes -/

/-- Another byte of the varint follows this one. -/
def Continues (byte : UInt8) : Prop := byte.toNat.testBit 7

/-- The seven bits of the number that a byte holds. -/
def payload (byte : UInt8) : Nat := (byte &&& 0x7f).toNat

theorem payload_eq_mod (byte : UInt8) : payload byte = byte.toNat % 0x80 := by
  rw [payload, UInt8.toNat_and]
  exact Nat.and_two_pow_sub_one_eq_mod byte.toNat 7

theorem continues_iff {byte : UInt8} : Continues byte ↔ ¬ byte < 0x80 := by
  have hlt : byte.toNat < 256 := byte.toNat_lt
  have hlow : byte < 0x80 ↔ byte.toNat < 0x80 := UInt8.lt_iff_toNat_lt
  rw [Continues, Nat.testBit_eq_decide_div_mod_eq, decide_eq_true_iff, hlow]
  omega

/-! ### Buffers -/

/-- A varint of `size` bytes, of which there may be `room`, stands at the start of a buffer. The
first byte holds the lowest bits of the number. -/
structure Stands (room : Nat) (buffer : Bytes) (number size : Nat) : Prop where
  size_pos : 1 ≤ size
  size_le : size ≤ room
  size_le_length : size ≤ buffer.length
  continued : ∀ i, i + 1 < size → Continues (buffer.getD i 0)
  ended : ¬ Continues (buffer.getD (size - 1) 0)
  full : size = room → buffer.getD (size - 1) 0 ≤ 1
  number_eq : number = ∑ i ∈ Finset.range size, payload (buffer.getD i 0) * 128 ^ i

variable {room number size : Nat} {byte : UInt8} {rest : Bytes}

/-- A byte that asks for no other is a varint by itself, with one bit if there is no more room. -/
theorem stands_of_last (hlast : ¬ Continues byte) :
    Stands (room + 1) (byte :: rest) number size ↔
      (room = 0 → byte ≤ 1) ∧ number = byte.toNat ∧ size = 1 := by
  have hpayload : payload byte = byte.toNat := by
    rw [payload_eq_mod]
    exact Nat.mod_eq_of_lt (UInt8.lt_iff_toNat_lt.mp (not_not.mp (continues_iff.not.mp hlast)))
  constructor
  · intro h
    have hsize : size = 1 := by
      by_contra hmore
      have hpos := h.size_pos
      exact hlast (h.continued 0 (by omega))
    subst hsize
    refine ⟨fun hroom => h.full (by omega), ?_, rfl⟩
    simpa [hpayload] using h.number_eq
  · rintro ⟨hfull, rfl, rfl⟩
    exact
      { size_pos := Nat.le_refl 1
        size_le := Nat.le_add_left 1 room
        size_le_length := Nat.le_add_left 1 rest.length
        continued := fun i hi => absurd hi (by omega)
        ended := hlast
        full := fun hroom => hfull (by omega)
        number_eq := by simp [hpayload] }

/-- Behind a byte that asks for another one stands a varint of what is above its bits. -/
theorem stands_of_continues (hmore : Continues byte) :
    Stands (room + 1) (byte :: rest) number size ↔
      ∃ high others, Stands room rest high others ∧
        number = byte.toNat - 0x80 + 0x80 * high ∧ size = others + 1 := by
  have hpayload : payload byte = byte.toNat - 0x80 := by
    have hlt : byte.toNat < 256 := byte.toNat_lt
    have hge : ¬ byte.toNat < 0x80 := fun h => continues_iff.mp hmore (UInt8.lt_iff_toNat_lt.mpr h)
    rw [payload_eq_mod]
    omega
  have hsum (others : Nat) :
      ∑ i ∈ Finset.range (others + 1), payload ((byte :: rest).getD i 0) * 128 ^ i =
        byte.toNat - 0x80 + 0x80 * ∑ i ∈ Finset.range others, payload (rest.getD i 0) * 128 ^ i := by
    rw [Finset.sum_range_succ', List.getD_cons_zero, hpayload, pow_zero, Nat.mul_one, Nat.add_comm,
      Finset.mul_sum]
    refine congrArg (byte.toNat - 0x80 + ·) (Finset.sum_congr rfl fun i _ => ?_)
    rw [List.getD_cons_succ, Nat.pow_succ']
    exact Nat.mul_left_comm _ _ _
  constructor
  · intro h
    obtain ⟨others, rfl⟩ := Nat.exists_eq_add_of_le' h.size_pos
    have hothers : 0 < others := by
      refine Nat.pos_of_ne_zero fun hzero => ?_
      subst hzero
      exact h.ended hmore
    obtain ⟨before, rfl⟩ := Nat.exists_eq_add_of_le' hothers
    refine ⟨_, before + 1, ?_, h.number_eq.trans (hsum _), rfl⟩
    exact
      { size_pos := hothers
        size_le := Nat.le_of_succ_le_succ h.size_le
        size_le_length := Nat.le_of_succ_le_succ h.size_le_length
        continued := fun i hi => h.continued (i + 1) (Nat.succ_lt_succ hi)
        ended := h.ended
        full := fun hroom => h.full (congrArg (· + 1) hroom)
        number_eq := rfl }
  · rintro ⟨high, others, h, rfl, rfl⟩
    obtain ⟨before, rfl⟩ := Nat.exists_eq_add_of_le' h.size_pos
    exact
      { size_pos := Nat.le_add_left 1 _
        size_le := Nat.succ_le_succ h.size_le
        size_le_length := Nat.succ_le_succ h.size_le_length
        continued := fun i hi => by
          cases i with
          | zero => exact hmore
          | succ i => exact h.continued i (Nat.lt_of_succ_lt_succ hi)
        ended := h.ended
        full := fun hroom => h.full (Nat.succ.inj hroom)
        number_eq := by rw [hsum, ← h.number_eq] }

/-- The reader takes the varint that stands at the start, and fails if there is none. -/
theorem decodeWithin_eq_ok {buffer : Bytes} :
    decodeWithin room buffer = .ok (number, size) ↔ Stands room buffer number size := by
  induction room generalizing buffer number size with
  | zero =>
      refine iff_of_false (by rintro ⟨⟩) fun h => ?_
      have hpos := h.size_pos
      have hle := h.size_le
      omega
  | succ room ih =>
      cases buffer with
      | nil =>
          refine iff_of_false (by rintro ⟨⟩) fun h => ?_
          exact absurd (h.size_pos.trans h.size_le_length) (by decide)
      | cons byte rest =>
          rw [decodeWithin]
          by_cases hlow : byte < 0x80
          · have hlast : ¬ Continues byte := fun h => continues_iff.mp h hlow
            rw [if_pos hlow, stands_of_last hlast]
            by_cases hbad : room = 0 ∧ 1 < byte
            · rw [if_pos hbad]
              exact iff_of_false (by rintro ⟨⟩) fun h => UInt8.not_lt.mpr (h.1 hbad.1) hbad.2
            · rw [if_neg hbad, Except.ok.injEq, Prod.mk.injEq, eq_comm, eq_comm (a := 1)]
              refine (and_iff_right fun hroom => ?_).symm
              exact UInt8.not_lt.mp fun hlt => hbad ⟨hroom, hlt⟩
          · rw [if_neg hlow, stands_of_continues (continues_iff.mpr hlow)]
            simp only [← ih]
            rcases decodeWithin room rest with error | ⟨high, others⟩
            · simp
            · simp [eq_comm]

/-! ### Values of 64 bits -/

/-- No number that stands in ten bytes is too large for 64 bits. -/
theorem Stands.number_lt {buffer : Bytes} (h : Stands maxSize buffer number size) :
    number < 2 ^ 64 :=
  (length_le_of_decodeWithin (decodeWithin_eq_ok.mpr h)).1

theorem decode_eq_ok {buffer : Bytes} {value : UInt64} :
    decode buffer = .ok (value, size) ↔ Stands maxSize buffer value.toNat size := by
  by_cases hnil : buffer = []
  · subst hnil
    exact iff_of_false nofun fun h => absurd (h.size_pos.trans h.size_le_length) (by decide)
  · rw [decode_of_ne_nil hnil, Outcome.map_eq_ok]
    constructor
    · rintro ⟨⟨number, _⟩, hread, heq⟩
      cases heq
      have hstands := decodeWithin_eq_ok.mp hread
      rwa [UInt64.toNat_ofNat', Nat.mod_eq_of_lt hstands.number_lt]
    · intro h
      refine ⟨_, decodeWithin_eq_ok.mpr h, ?_⟩
      rw [UInt64.ofNat_toNat]

theorem malformed_of_decodeWithin {buffer : Bytes} {error : Error}
    (h : decodeWithin room buffer = .error error) : error = .malformed := by
  induction room generalizing buffer with
  | zero =>
      cases h
      rfl
  | succ room ih =>
      cases buffer with
      | nil =>
          cases h
          rfl
      | cons byte rest =>
          rw [decodeWithin] at h
          split at h
          · split at h
            · cases h
              rfl
            · cases h
          · split at h
            · next hrest =>
                cases h
                exact ih hrest
            · cases h

/-- A buffer with bytes in it is refused for one reason only. -/
theorem malformed_of_decode {buffer : Bytes} {error : Error} (hne : buffer ≠ [])
    (h : decode buffer = .error error) : error = .malformed := by
  rw [decode_of_ne_nil hne] at h
  cases hread : decodeWithin maxSize buffer with
  | error cause =>
      rw [hread] at h
      cases h
      exact malformed_of_decodeWithin hread
  | ok result =>
      rw [hread] at h
      cases h

theorem decode_eq_empty {buffer : Bytes} : decode buffer = .error .empty ↔ buffer = [] := by
  constructor
  · intro h
    by_contra hne
    cases malformed_of_decode hne h
  · rintro rfl
    rfl

theorem decode_eq_malformed {buffer : Bytes} :
    decode buffer = .error .malformed ↔
      buffer ≠ [] ∧ ∀ number size, ¬ Stands maxSize buffer number size := by
  constructor
  · intro h
    refine ⟨?_, fun number size hstands => ?_⟩
    · rintro rfl
      cases h
    · have hvalue : (UInt64.ofNat number).toNat = number := by
        rw [UInt64.toNat_ofNat', Nat.mod_eq_of_lt hstands.number_lt]
      rw [← hvalue] at hstands
      cases h.symm.trans (decode_eq_ok.mpr hstands)
  · rintro ⟨hne, hnone⟩
    cases hread : decode buffer with
    | error error => rw [malformed_of_decode hne hread]
    | ok result => exact absurd (decode_eq_ok.mp hread) (hnone _ _)

/-! ### Shortest forms -/

/-- A number that fills no more bytes than its shortest form stands in that form. -/
theorem take_eq_encodeWithin {buffer : Bytes}
    (h : decodeWithin (room + 1) buffer = .ok (number, size))
    (hshort : size = (encodeWithin room number).length) :
    buffer.take size = encodeWithin room number := by
  induction room generalizing buffer number size with
  | zero =>
      cases buffer with
      | nil => cases h
      | cons byte rest =>
          rw [decodeWithin] at h
          split at h
          · split at h
            · cases h
            · cases h
              rw [List.take_succ_cons, encodeWithin, UInt8.ofNat_toNat]
              rfl
          · cases h
  | succ room ih =>
      cases buffer with
      | nil => cases h
      | cons byte rest =>
          have hbyte : byte.toNat < 256 := byte.toNat_lt
          rw [length_encodeWithin_succ] at hshort
          rw [decodeWithin] at h
          split at h
          · next hlow =>
              rw [if_neg (fun hfull => Nat.succ_ne_zero room hfull.1)] at h
              cases h
              have hfew : byte.toNat < 0x80 := UInt8.lt_iff_toNat_lt.mp hlow
              rw [encodeWithin, if_pos hfew, UInt8.ofNat_toNat]
              rfl
          · next hhigh =>
              have hge : ¬ byte.toNat < 0x80 := fun h => hhigh (UInt8.lt_iff_toNat_lt.mpr h)
              split at h
              · cases h
              · next high others hrest =>
                  cases h
                  have hothers := (decodeWithin_eq_ok.mp hrest).size_pos
                  have hmore : ¬ byte.toNat - 0x80 + 0x80 * high < 0x80 := by
                    intro hfew
                    rw [if_pos hfew] at hshort
                    omega
                  have hdiv : (byte.toNat - 0x80 + 0x80 * high) / 0x80 = high := by omega
                  have hmod : (byte.toNat - 0x80 + 0x80 * high) % 0x80 + 0x80 = byte.toNat := by
                    omega
                  rw [if_neg hmore, hdiv] at hshort
                  rw [encodeWithin, if_neg hmore, hdiv, hmod, UInt8.ofNat_toNat,
                    List.take_succ_cons, ih hrest (Nat.succ.inj hshort)]

/-- What the reader and the writer of varints do. The reader takes the varints that stand in at most
ten bytes, the last bit of which is the last of 64, and tells a buffer without bytes from one with no
varint at its start. The writer gives the shortest bytes that are read as a value. -/
structure ExactCodec (read : Bytes → Except Error (UInt64 × Nat)) (write : UInt64 → Bytes) :
    Prop where
  read_eq_ok : ∀ buffer value size,
    read buffer = .ok (value, size) ↔ Stands 10 buffer value.toNat size
  read_eq_empty : ∀ buffer, read buffer = .error .empty ↔ buffer = []
  read_eq_malformed : ∀ buffer, read buffer = .error .malformed ↔
    buffer ≠ [] ∧ ∀ number size, ¬ Stands 10 buffer number size
  read_write : ∀ value suffix,
    read (write value ++ suffix) = .ok (value, (write value).length)
  length_pos : ∀ value, 1 ≤ (write value).length
  length_le : ∀ value, (write value).length ≤ 10
  shortest : ∀ value bytes size, read bytes = .ok (value, size) →
    (write value).length ≤ size ∧ size ≤ bytes.length

/-- The last bit of ten bytes is the last of 64. -/
example : decode (List.replicate 9 0xff ++ [0x01]) = .ok (0xffffffffffffffff, 10) ∧
    decode (List.replicate 9 0xff ++ [0x02]) = .error .malformed := by decide

end FixedShape.Wire.Varint
