/-
Module: FixedShape.Compiler.Toolkit
Purpose: A locally installed toolkit of command line tools. Its converter turns a model into
  source code; if it has a library generator too, that makes a library of the source.
-/
import FixedShape.Compiler.Request
import FixedShape.Fixing.Log
import FixedShape.Text.Utf8Lossy

namespace FixedShape.Compiler

open FixedShape.Wire (Bytes)

/-- How a tool ended. -/
structure ToolRun where
  exitCode : Nat
  stderr : Bytes
  deriving DecidableEq, Repr

/-- A host on which tools can be looked for and run. -/
class ToolHost (m : Type → Type) where
  isFile : String → m Bool
  isDirectory : String → m Bool
  /-- Runs a program with arguments to its end. -/
  run : String → List String → m (Except IoError ToolRun)

/-- What a toolkit has made. -/
structure ToolkitOutcome where
  /-- How the converter ended. -/
  exitCode : Nat
  /-- The files made. -/
  generated : List String
  /-- What the converter wrote to its error stream. -/
  stderr : String
  deriving DecidableEq, Repr

/-- A toolkit below a root directory, with the platform for which it makes libraries. -/
structure Toolkit where
  root : String
  target : String := "aarch64-android"
  deriving DecidableEq, Repr

/-- The directories that hold the tools of a host and the ending of tool names in them, the
preferred first. -/
def hostDirectories : List (String × String) :=
  [("x86_64-linux-clang", ""), ("x86_64-windows-msvc", ".exe")]

/-- The path of the library that is made of a source file. -/
def libraryPath (source : String) : String :=
  FilePath.withFileName source ((FilePath.fileStem? source).getD "" ++ "_qnn.bin")

/-- The arguments of the converter. -/
def converterArguments (model source : String) : List String :=
  ["--input_network", model, "--output_path", source]

namespace Toolkit

/-- The paths at which a tool may be. -/
def toolPaths (toolkit : Toolkit) (name : String) : List String :=
  hostDirectories.map fun (directory, ending) =>
    let bin := FilePath.join (FilePath.join toolkit.root "bin") directory
    FilePath.join bin (name ++ ending)

/-- The arguments of the library generator. -/
def generatorArguments (toolkit : Toolkit) (source library : String) : List String :=
  ["-c", source, "-b", library, "-t", toolkit.target]

section

variable {m : Type → Type} [Monad m] [ToolHost m]

/-- The first of some paths at which there is a file. -/
def firstFile? : List String → m (Option String)
  | [] => return none
  | path :: rest => do
    if ← ToolHost.isFile path then return some path else firstFile? rest

/-- The path of the converter. -/
def converter (toolkit : Toolkit) : m (Except CompilerError String) := do
  if ← ToolHost.isDirectory toolkit.root then
    match ← firstFile? (toolkit.toolPaths "qnn-onnx-converter") with
    | some path => return .ok path
    | none => return .error (.converterNotFound toolkit.root)
  else return .error (.toolkitNotFound toolkit.root)

/-- The path of the library generator, if there is one. -/
def generator? (toolkit : Toolkit) : m (Option String) :=
  firstFile? (toolkit.toolPaths "qnn-model-lib-generator")

/-- Makes a library of a source file, if the toolkit can. A generator that fails leaves the source
as the only result; one that cannot be started is an error. -/
def generate (toolkit : Toolkit) (source : String) (outcome : ToolkitOutcome) (log : Log) :
    m (Except CompilerError ToolkitOutcome × Log) := do
  match ← toolkit.generator? with
  | none => return (.ok outcome, log)
  | some generator =>
    let library := libraryPath source
    match ← ToolHost.run generator (toolkit.generatorArguments source library) with
    | .error error => return (.error (.io error), log)
    | .ok result =>
      if result.exitCode = 0 then
        return (.ok { outcome with generated := outcome.generated ++ [library] }, log)
      else
        let message := "Model library generation failed: " ++ Text.decodeLossy result.stderr
        return (.ok outcome, log ++ [{ level := .warn, message }])

/-- Converts a model into source code, and that into a library if possible. -/
def convert (toolkit : Toolkit) (model source : String) :
    m (Except CompilerError ToolkitOutcome × Log) := do
  match ← toolkit.converter with
  | .error error => return (.error error, [])
  | .ok converter =>
    let log : Log := [{ level := .info, message := "Running " ++ converter }]
    match ← ToolHost.run converter (converterArguments model source) with
    | .error error => return (.error (.io error), log)
    | .ok result =>
      let outcome : ToolkitOutcome :=
        { exitCode := result.exitCode, generated := [], stderr := Text.decodeLossy result.stderr }
      if result.exitCode = 0 then
        toolkit.generate source { outcome with generated := [source] } log
      else return (.ok outcome, log)

end

end Toolkit

end FixedShape.Compiler
