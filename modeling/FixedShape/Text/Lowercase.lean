/-
Module: FixedShape.Text.Lowercase
Purpose: Texts in lower case. Two letters have no form of their own that always fits: the capital
  sigma, whose form depends on whether it ends a word, and the dotted capital I, which keeps its
  dot as a mark of its own.
-/
import FixedShape.Text.CaseContext
import FixedShape.Text.LowercaseTable

namespace FixedShape.Text

/-- Tells whether a cased character comes next, those passed over left out. -/
def casedNext (text : List Char) : Bool :=
  match text.dropWhile isCaseIgnorable with
  | [] => false
  | c :: _ => isCased c

/-- The lower-case form of a character between the text before it, read backwards, and the text
behind it. A capital sigma ends a word if a cased character stands before it and none behind it. -/
def lowerAt (before : List Char) (c : Char) (after : List Char) : List Char :=
  if c = 'Σ' then [if casedNext before && !casedNext after then 'ς' else 'σ']
  else if c = '\u0130' then ['i', '\u0307']
  else [lowerChar c]

/-- The lower-case forms of the characters of a text, given the text before it, read backwards. -/
def lowerFrom (before : List Char) : List Char → List Char
  | [] => []
  | c :: after => lowerAt before c after ++ lowerFrom (c :: before) after

/-- A text in lower case. -/
def toLower (text : String) : String := String.ofList (lowerFrom [] text.toList)

end FixedShape.Text
