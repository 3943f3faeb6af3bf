/-
Module: FixedShape.Proofs.CommandLine.Numerals
Purpose: Decimal numerals, said without the reader: digits, which count from the last, and a sign.
  The reader gives their number if it is in its range.
-/
import FixedShape.CommandLine.Numeral
import Mathlib.Data.Nat.Digits.Defs

namespace FixedShape.CommandLine.Numeral

/-- The number of a digit. -/
def digitValue (digit : Char) : Nat := digit.toNat - '0'.toNat

/-- A number is written with decimal digits, of which there is at least one. Leading zeros do not
count. -/
structure Digits (digits : List Char) (number : Nat) : Prop where
  nonempty : digits ≠ []
  digit : ∀ c ∈ digits, c.isDigit
  number_eq : number = Nat.ofDigits 10 (digits.reverse.map digitValue)

/-- A numeral of a natural number, which may have a plus sign. -/
inductive Natural : (chars : List Char) → (number : Nat) → Prop where
  | plain {digits : List Char} {number : Nat} (written : Digits digits number) :
      Natural digits number
  | plus {digits : List Char} {number : Nat} (written : Digits digits number) :
      Natural ('+' :: digits) number

/-- A numeral of an integer, which may have a sign. -/
inductive Integer : (chars : List Char) → (number : Int) → Prop where
  | natural {chars : List Char} {number : Nat} (written : Natural chars number) :
      Integer chars number
  | minus {digits : List Char} {number : Nat} (written : Digits digits number) :
      Integer ('-' :: digits) (-number)

/-- Digits are read up to the last, as no number on the way is larger than the last one. -/
theorem digits_of_le {limit start : Nat} {beyond : NumeralFault} {chars : List Char}
    (hdigit : ∀ c ∈ chars, c.isDigit)
    (hlimit : Nat.ofDigits 10 (chars.reverse.map digitValue) + 10 ^ chars.length * start ≤ limit) :
    digits limit beyond start chars =
      .ok (Nat.ofDigits 10 (chars.reverse.map digitValue) + 10 ^ chars.length * start) := by
  induction chars generalizing start with
  | nil => simp [digits]
  | cons c rest ih =>
      obtain ⟨hc, hrest⟩ := List.forall_mem_cons.mp hdigit
      have hsum : Nat.ofDigits 10 ((c :: rest).reverse.map digitValue) +
            10 ^ (c :: rest).length * start =
          Nat.ofDigits 10 (rest.reverse.map digitValue) +
            10 ^ rest.length * (start * 10 + digitValue c) := by
        rw [List.reverse_cons, List.map_append, Nat.ofDigits_append]
        simp [Nat.ofDigits_singleton, Nat.pow_succ, Nat.mul_add]
        ring
      have hpos : 1 ≤ 10 ^ rest.length := Nat.pow_pos (by decide)
      rw [hsum] at hlimit ⊢
      have hle : start * 10 + digitValue c ≤ limit :=
        (Nat.le_mul_of_pos_left _ hpos).trans ((Nat.le_add_left _ _).trans hlimit)
      rw [digits, if_pos hc]
      change (if limit < start * 10 + digitValue c then _
        else digits limit beyond (start * 10 + digitValue c) rest) = _
      rw [if_neg (Nat.not_lt.mpr hle)]
      exact ih hrest hlimit

theorem Digits.digits_eq {chars : List Char} {number limit : Nat} (h : Digits chars number)
    (hlimit : number ≤ limit) (beyond : NumeralFault) :
    digits limit beyond 0 chars = .ok number := by
  have hsum : Nat.ofDigits 10 (chars.reverse.map digitValue) + 10 ^ chars.length * 0 = number :=
    h.number_eq.symm
  rw [digits_of_le h.digit (hsum.trans_le hlimit), hsum]

/-- No digit is a sign. -/
theorem Digits.head_ne {c : Char} {rest : List Char} {number : Nat}
    (h : Digits (c :: rest) number) : c ≠ '+' ∧ c ≠ '-' := by
  have hdigit := h.digit c List.mem_cons_self
  constructor
  · rintro rfl
    exact absurd hdigit (by decide)
  · rintro rfl
    exact absurd hdigit (by decide)

theorem Natural.natural_eq {chars : List Char} {number limit : Nat} (h : Natural chars number)
    (hlimit : number ≤ limit) : natural limit chars = .ok number := by
  cases h with
  | plain written =>
      cases chars with
      | nil => exact absurd rfl written.nonempty
      | cons c rest =>
          have hread := written.digits_eq hlimit .tooLarge
          rw [natural]
          · exact hread
          · exact nofun
          · rintro ⟨⟩
            exact written.head_ne.1 rfl
          · rintro rest' ⟨⟩
            exact written.head_ne.1 rfl
  | plus written =>
      rw [natural]
      · exact written.digits_eq hlimit .tooLarge
      · exact written.nonempty

/-- A numeral of a natural number has no minus sign. -/
theorem Natural.ne_minus {chars : List Char} {number : Nat} (h : Natural chars number)
    (rest : List Char) : chars ≠ '-' :: rest := by
  rintro rfl
  cases h with
  | plain written => exact written.head_ne.2 rfl

/-- The numeral of a length that 64 bits hold is read. -/
theorem length_eq {text : String} {number : Nat} (h : Natural text.toList number)
    (hlimit : number < 2 ^ 64) : length text = .ok number :=
  h.natural_eq (Nat.le_of_lt_succ hlimit)

/-- The numeral of an integer that 64 bits hold is read. -/
theorem integer_eq {text : String} {number : Int64} (h : Integer text.toList number.toInt) :
    integer text = .ok number := by
  rw [integer]
  generalize hchars : text.toList = chars at h
  generalize hvalue : number.toInt = value at h
  cases h with
  | @natural _ value written =>
      have hle : value ≤ 0x7fffffffffffffff := by
        have := number.toInt_lt
        omega
      have hread := written.natural_eq hle
      have hnumber : Int64.ofNat value = number := by
        rw [← Int64.ofInt_toInt number, hvalue]
        rfl
      split
      · exact absurd rfl (written.ne_minus [])
      · exact absurd rfl (written.ne_minus _)
      · rw [hread, ← hnumber]
        rfl
  | @minus digits value written =>
      have hle : value ≤ 0x8000000000000000 := by
        have := number.le_toInt
        omega
      split
      · rename_i heq
        exact absurd (List.cons.inj heq).2 written.nonempty
      · rename_i heq
        obtain ⟨-, rfl⟩ := List.cons.inj heq
        rw [written.digits_eq hle, ← Int64.ofInt_toInt number, hvalue]
        rfl
      · rename_i hnot
        exact absurd rfl (hnot _)

end FixedShape.CommandLine.Numeral
