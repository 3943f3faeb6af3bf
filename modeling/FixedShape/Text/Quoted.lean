/-
Module: FixedShape.Text.Quoted
Purpose: Texts in quotes, so that a reader sees where they begin and end and what is in them.
-/
import FixedShape.Text.Unprintable

namespace FixedShape.Text

/-- A character by its code point in hexadecimal. -/
def codePointText (c : Char) : String :=
  "\\u\x7b" ++ String.ofList (Nat.toDigits 16 c.toNat) ++ "\x7d"

/-- A character inside double quotes. -/
def quotedChar (c : Char) : String :=
  match c with
  | '\x00' => "\\0"
  | '\t' => "\\t"
  | '\r' => "\\r"
  | '\n' => "\\n"
  | '\x5c' => "\\\\"
  | '\x22' => "\\\""
  | c => if isUnprintable c then codePointText c else c.toString

/-- A text in double quotes. -/
def quoted (text : String) : String :=
  "\"" ++ String.join (text.toList.map quotedChar) ++ "\""

end FixedShape.Text
