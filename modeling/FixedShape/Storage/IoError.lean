/-
Module: FixedShape.Storage.IoError
Purpose: The ways in which the operating system refuses a file operation, in its own words.
-/

namespace FixedShape

/-- Why a file operation failed. -/
inductive IoError where
  | notFound
  | permissionDenied
  | notDirectory
  | isDirectory
  /-- Any other reason, in the words in which it came. -/
  | other (text : String)
  deriving DecidableEq, Repr

/-- The wording of a failure. -/
def IoError.message : IoError → String
  | .notFound => "No such file or directory (os error 2)"
  | .permissionDenied => "Permission denied (os error 13)"
  | .notDirectory => "Not a directory (os error 20)"
  | .isDirectory => "Is a directory (os error 21)"
  | .other text => text

end FixedShape
