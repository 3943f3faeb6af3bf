/-
Module: FixedShape.Wire.Bytes
Purpose: Byte strings, the exact split that every length-delimited read rests on, and
  little-endian numbers of a fixed width.
-/

namespace FixedShape.Wire

/-- A byte string. Lists keep every reader structurally recursive on what is left to read. -/
abbrev Bytes := List UInt8

namespace Bytes

/-- The first `count` bytes and the rest, or nothing if there are fewer. A short buffer is
noticed by the length of the part taken, so the bytes behind the part are never walked. -/
def splitExact (count : Nat) (bytes : Bytes) : Option (Bytes × Bytes) :=
  let head := bytes.take count
  if head.length = count then some (head, bytes.drop count) else none

/-- The `width` low bytes of `value`, least significant first. -/
def littleEndian : (width : Nat) → (value : Nat) → Bytes
  | 0, _ => []
  | width + 1, value => UInt8.ofNat value :: littleEndian width (value / 256)

/-- The number whose bytes, least significant first, are given. -/
def ofLittleEndian : Bytes → Nat
  | [] => 0
  | byte :: rest => byte.toNat + 256 * ofLittleEndian rest

/-- The four bytes of a 32-bit word. -/
def ofWord32 (word : UInt32) : Bytes := littleEndian 4 word.toNat

/-- The eight bytes of a 64-bit word. -/
def ofWord64 (word : UInt64) : Bytes := littleEndian 8 word.toNat

/-- The word that four bytes hold. -/
def toWord32 (bytes : Bytes) : UInt32 := UInt32.ofNat (ofLittleEndian bytes)

/-- The word that eight bytes hold. -/
def toWord64 (bytes : Bytes) : UInt64 := UInt64.ofNat (ofLittleEndian bytes)

/-- The UTF-8 bytes of a text. -/
def ofText (text : String) : Bytes := text.toUTF8.data.toList

/-- The text with these UTF-8 bytes, or nothing if they are not UTF-8. -/
def toText? (bytes : Bytes) : Option String := String.fromUTF8? ⟨bytes.toArray⟩

end Bytes

end FixedShape.Wire
