/-
Module: FixedShape.Text.Utf8Lossy
Purpose: Texts from bytes that may not be UTF-8. Every longest part that could have started a
  character, and every byte that could not, becomes a replacement character.
-/
import FixedShape.Wire.Bytes

namespace FixedShape.Text

open FixedShape.Wire (Bytes)

/-- The bytes that may follow the first byte of a longer character: how many there are, and the
least and greatest value of the first of them. That range rules out overlong forms, surrogates
and code points beyond the last. -/
def continuation? (first : UInt8) : Option (Nat × UInt8 × UInt8) :=
  if 0xC2 ≤ first ∧ first ≤ 0xDF then some (1, 0x80, 0xBF)
  else if first = 0xE0 then some (2, 0xA0, 0xBF)
  else if first = 0xED then some (2, 0x80, 0x9F)
  else if 0xE1 ≤ first ∧ first ≤ 0xEF then some (2, 0x80, 0xBF)
  else if first = 0xF0 then some (3, 0x90, 0xBF)
  else if 0xF1 ≤ first ∧ first ≤ 0xF3 then some (3, 0x80, 0xBF)
  else if first = 0xF4 then some (3, 0x80, 0x8F)
  else none

/-- The number of bytes at the start of a text, up to `count`, that continue a character, the
first of them between `least` and `greatest`. -/
def continuationLength : (count : Nat) → (least greatest : UInt8) → Bytes → Nat
  | 0, _, _, _ => 0
  | _, _, _, [] => 0
  | count + 1, least, greatest, byte :: rest =>
    if least ≤ byte ∧ byte ≤ greatest then continuationLength count 0x80 0xBF rest + 1 else 0

/-- The code point of a character from its first byte and the bytes that continue it. -/
def codePoint (first : UInt8) (tail : Bytes) : Nat :=
  let lead := match tail.length with
    | 1 => first.toNat % 0x20
    | 2 => first.toNat % 0x10
    | _ => first.toNat % 0x08
  tail.foldl (fun code byte => code * 0x40 + byte.toNat % 0x40) lead

/-- The characters of a text, newest first in `done`. `fuel` bounds their number. -/
def decodeLossyLoop : (fuel : Nat) → (done : List Char) → Bytes → List Char
  | 0, done, _ => done.reverse
  | _ + 1, done, [] => done.reverse
  | fuel + 1, done, first :: rest =>
    if first < 0x80 then decodeLossyLoop fuel (Char.ofNat first.toNat :: done) rest
    else
      match continuation? first with
      | none => decodeLossyLoop fuel ('\ufffd' :: done) rest
      | some (count, least, greatest) =>
        let length := continuationLength count least greatest rest
        let c := if length = count then Char.ofNat (codePoint first (rest.take length)) else '\ufffd'
        decodeLossyLoop fuel (c :: done) (rest.drop length)

/-- The text of bytes. -/
def decodeLossy (bytes : Bytes) : String := String.ofList (decodeLossyLoop bytes.length [] bytes)

end FixedShape.Text
