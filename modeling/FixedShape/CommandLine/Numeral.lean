/-
Module: FixedShape.CommandLine.Numeral
Purpose: Decimal numerals as they are typed, with the reason why a text is none that fits.
-/

namespace FixedShape.CommandLine

/-- Why a text is no numeral of a range. -/
inductive NumeralFault where
  | empty
  | invalidDigit
  | tooLarge
  | tooSmall
  deriving DecidableEq, Repr

/-- The wording of a reason. -/
def NumeralFault.message : NumeralFault → String
  | .empty => "cannot parse integer from empty string"
  | .invalidDigit => "invalid digit found in string"
  | .tooLarge => "number too large to fit in target type"
  | .tooSmall => "number too small to fit in target type"

namespace Numeral

/-- Reads digits behind those that make `value`. The first character that is no digit, or that
takes the value beyond `limit`, decides. -/
def digits (limit : Nat) (beyond : NumeralFault) (value : Nat) : List Char → Except NumeralFault Nat
  | [] => .ok value
  | c :: rest =>
    if c.isDigit then
      let value := value * 10 + (c.toNat - '0'.toNat)
      if limit < value then .error beyond else digits limit beyond value rest
    else .error .invalidDigit

/-- Reads a numeral up to `limit`, which may have a plus sign. -/
def natural (limit : Nat) : List Char → Except NumeralFault Nat
  | [] => .error .empty
  | ['+'] => .error .invalidDigit
  | '+' :: rest => digits limit .tooLarge 0 rest
  | chars => digits limit .tooLarge 0 chars

/-- Reads the numeral of a 64-bit length. -/
def length (text : String) : Except NumeralFault Nat := natural 0xffffffffffffffff text.toList

/-- Reads the numeral of a 64-bit integer, which may have a sign. -/
def integer (text : String) : Except NumeralFault Int64 :=
  match text.toList with
  | ['-'] => .error .invalidDigit
  | '-' :: rest => (digits 0x8000000000000000 .tooSmall 0 rest).map fun value => Int64.ofInt (-value)
  | chars => (natural 0x7fffffffffffffff chars).map Int64.ofNat

end Numeral

end FixedShape.CommandLine
