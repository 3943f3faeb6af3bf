/-
Module: FixedShape.Compiler.ScriptedHost
Purpose: A host as a value: tools whose results are known in advance, and a record of the calls
  made to them.
-/
import FixedShape.Compiler.Toolkit
import FixedShape.Storage.FileTree

namespace FixedShape.Compiler

/-- A tool with the result of running it. -/
structure ScriptedTool where
  executable : Bool := true
  result : ToolRun := { exitCode := 0, stderr := [] }
  deriving DecidableEq, Repr

/-- Tools by their places, further directories, and the calls made so far: for each the path of
the tool and its arguments. -/
structure ScriptedHost where
  tools : List (Location × ScriptedTool) := []
  directories : List Location := []
  calls : List (List String) := []
  deriving DecidableEq, Repr

namespace ScriptedHost

/-- The tool at a path; where several were put, the last. -/
def tool? (host : ScriptedHost) (path : String) : Option ScriptedTool :=
  host.tools.reverse.lookup (FileTree.placeOf path)

/-- Tells whether a path is one of a directory, or leads to something inside. -/
def hasDirectory (host : ScriptedHost) (path : String) : Bool :=
  let place := FileTree.placeOf path
  host.directories.any place.isPrefixOf ||
    host.tools.any fun (location, _) => place ≠ location && place.isPrefixOf location

/-- Runs the tool at a path and records the call, unless the tool cannot be started. -/
def run (host : ScriptedHost) (path : String) (arguments : List String) :
    Except IoError ToolRun × ScriptedHost :=
  match host.tool? path with
  | none => (.error .notFound, host)
  | some tool =>
    if tool.executable then
      (.ok tool.result, { host with calls := host.calls ++ [path :: arguments] })
    else (.error .permissionDenied, host)

end ScriptedHost

/-- A scripted host as a host to work on. -/
instance : ToolHost (StateM ScriptedHost) where
  isFile path := return ((← get).tool? path).isSome
  isDirectory path := return (← get).hasDirectory path
  run path arguments := do
    let (result, host) := (← get).run path arguments
    set host
    return result

end FixedShape.Compiler
