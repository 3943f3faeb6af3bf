/-
Module: FixedShape.Storage.FilePath
Purpose: Paths as texts: their segments, the last name, its stem, and what stands before it. Empty
  segments and segments of one dot name nothing, except a dot at the very start.
-/

namespace FixedShape.FilePath

/-- The parts of a text between slashes. -/
def splitSlashes : List Char → List (List Char)
  | [] => [[]]
  | c :: rest =>
    if c = '/' then [] :: splitSlashes rest
    else
      match splitSlashes rest with
      | [] => [[c]]
      | first :: others => (c :: first) :: others

/-- The segments of a path. -/
def segments (path : String) : List String := (splitSlashes path.toList).map String.ofList

/-- Tells whether a segment names nothing. -/
def isIdle (segment : List Char) : Bool := segment = [] || segment = ['.']

/-- The last name of a path, unless the path ends in its parent or names nothing. -/
def fileName? (path : String) : Option String :=
  match ((splitSlashes path.toList).filter fun segment => !isIdle segment).getLast? with
  | none => none
  | some segment => if segment = ['.', '.'] then none else some (String.ofList segment)

/-- A name up to its last dot, or the whole name if nothing stands before that dot. -/
def stem (name : String) : String :=
  match (name.toList.reverse.dropWhile (· ≠ '.')).drop 1 with
  | [] => name
  | before => String.ofList before.reverse

/-- The stem of the last name of a path. -/
def fileStem? (path : String) : Option String := (fileName? path).map stem

/-- The number of characters at the start of a path that belong to no name: a slash of an absolute
path, or a dot segment. -/
def headLength (path : List Char) : Nat :=
  match path with
  | '/' :: _ => 1
  | ['.'] => 1
  | '.' :: '/' :: _ => 1
  | _ => 0

/-- Cuts idle segments off the end of a path, given backwards, down to `keep` characters. -/
def trimIdle (keep : Nat) : List Char → List Char
  | [] => []
  | c :: rest =>
    if rest.length < keep then c :: rest
    else if c = '/' then trimIdle keep rest
    else if c = '.' then
      match rest with
      | [] => trimIdle keep rest
      | '/' :: _ => trimIdle keep rest
      | _ => c :: rest
    else c :: rest

/-- What stands before the last name of a path; nothing if there is no name or only a root. -/
def parent? (path : String) : Option String :=
  let chars := path.toList
  let keep := headLength chars
  let trimmed := trimIdle keep chars.reverse
  if trimmed.length ≤ keep then
    match chars with
    | '.' :: _ => some ""
    | _ => none
  else
    let name := (trimmed.take (trimmed.length - keep)).takeWhile (· ≠ '/')
    some (String.ofList (trimIdle keep (trimmed.drop name.length)).reverse)

/-- A name below a directory. -/
def join (directory name : String) : String :=
  if directory = "" then name
  else if directory.toList.getLast? = some '/' then directory ++ name
  else directory ++ "/" ++ name

/-- A path with another last name; a path without one gets it as an addition. -/
def withFileName (path name : String) : String :=
  match fileName? path with
  | none => join path name
  | some _ => join ((parent? path).getD "") name

end FixedShape.FilePath
