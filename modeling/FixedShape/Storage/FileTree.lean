/-
Module: FixedShape.Storage.FileTree
Purpose: Files under a directory as a value: which paths lead where, what reading gives, and
  writing as the replacement of one file.
-/
import FixedShape.Storage.FilePath
import FixedShape.Storage.IoError
import FixedShape.Wire.Bytes

namespace FixedShape

open FixedShape.Wire (Bytes)

/-- The place of a file: its segments from the working directory on. A place above that begins
with its parents, and one of an absolute path with a slash. -/
abbrev Location := List String

/-- Files with their places. A directory is there as soon as a file is in it. -/
structure FileTree where
  files : List (Location × Bytes) := []
  deriving DecidableEq, Repr

/-- What is at a place. -/
inductive FileTree.Entry where
  | file (bytes : Bytes)
  | directory
  deriving DecidableEq, Repr

namespace FileTree

/-- The segment that leads to the parent of a place. -/
def parentSegment : String := ".."

/-- The places that are directories whatever files there are: the working directory, its parents
and the root. -/
def isAnchor (location : Location) : Bool :=
  location = ["/"] || location.all (· = parentSegment)

/-- What is at a place, if anything. -/
def entry? (tree : FileTree) (location : Location) : Option Entry :=
  match tree.files.lookup location with
  | some bytes => some (.file bytes)
  | none =>
    if isAnchor location || tree.files.any (fun (place, _) => location.isPrefixOf place) then
      some .directory
    else none

/-- The place above a place. -/
def above (location : Location) : Location :=
  if location = ["/"] then location
  else if location.all (· = parentSegment) then location ++ [parentSegment]
  else location.dropLast

/-- Follows segments from a place. Every segment needs a directory to start from, also one that
stays there. -/
def walk (tree : FileTree) (location : Location) : List String → Except IoError Location
  | [] => .ok location
  | segment :: rest =>
    match tree.entry? location with
    | none => .error .notFound
    | some (.file _) => .error .notDirectory
    | some .directory =>
      if segment = "" ∨ segment = "." then walk tree location rest
      else if segment = parentSegment then walk tree (above location) rest
      else walk tree (location ++ [segment]) rest

/-- The place to which a path leads. -/
def locate (tree : FileTree) (path : String) : Except IoError Location :=
  if path = "" then .error .notFound
  else if path.toList.head? = some '/' then tree.walk ["/"] (FilePath.segments path)
  else tree.walk [] (FilePath.segments path)

/-- The bytes of a file. -/
def read (tree : FileTree) (path : String) : Except IoError Bytes :=
  match tree.locate path with
  | .error error => .error error
  | .ok location =>
    match tree.entry? location with
    | none => .error .notFound
    | some .directory => .error .isDirectory
    | some (.file bytes) => .ok bytes

/-- Replaces the file at a place, or puts it there. -/
def put (tree : FileTree) (location : Location) (bytes : Bytes) : FileTree :=
  if (tree.files.lookup location).isSome then
    { files := tree.files.map fun (place, old) => (place, if place = location then bytes else old) }
  else { files := tree.files ++ [(location, bytes)] }

/-- Tells whether a path ends in a segment that no file can have. -/
def endsInDirectory (path : String) : Bool :=
  match (FilePath.segments path).getLast? with
  | some segment => segment = "" || segment = "." || segment = parentSegment
  | none => true

/-- Writes a file as a whole: the bytes go to a new file in the directory of the path, which then
takes its place. The directory must be there, and the path must not lead to a directory. -/
def write (tree : FileTree) (path : String) (bytes : Bytes) : Except IoError FileTree :=
  let directory := match FilePath.parent? path with
    | some parent => if parent = "" then "." else parent
    | none => "."
  match tree.locate directory with
  | .error error => .error error
  | .ok home =>
    match tree.entry? home with
    | none => .error .notFound
    | some (.file _) => .error .notDirectory
    | some .directory =>
      match tree.locate path with
      | .error error => .error error
      | .ok location =>
        if endsInDirectory path ∨ tree.entry? location = some .directory then .error .isDirectory
        else .ok (tree.put location bytes)

/-- The place of a file named by a path below the working directory. -/
def placeOf (path : String) : Location :=
  (FilePath.segments path).filter fun segment => segment ≠ "" ∧ segment ≠ "."

/-- A tree of the files at given paths. -/
def ofList (files : List (String × Bytes)) : FileTree :=
  { files := files.map fun (path, bytes) => (placeOf path, bytes) }

/-- The files below the working directory, by their paths. -/
def toList (tree : FileTree) : List (String × Bytes) :=
  tree.files.filterMap fun (place, bytes) =>
    if place.head? = some parentSegment ∨ place.head? = some "/" then none
    else some ("/".intercalate place, bytes)

end FileTree

/-- A place where files can be read and written as a whole. -/
class FileStore (m : Type → Type) where
  /-- The bytes of the file at a path. -/
  read : String → m (Except IoError Bytes)
  /-- Writes the file at a path, or leaves everything as it is. -/
  write : String → Bytes → m (Except IoError Unit)

/-- A tree of files as a place to work on. -/
instance : FileStore (StateM FileTree) where
  read path := return (← get).read path
  write path bytes := do
    match (← get).write path bytes with
    | .error error => return .error error
    | .ok tree =>
      set tree
      return .ok ()

end FixedShape
