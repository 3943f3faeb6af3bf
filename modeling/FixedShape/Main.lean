/-
Module: FixedShape.Main
Purpose: The program on a real system: its arguments, its files and its output streams.
-/
import FixedShape.CommandLine.Run

namespace FixedShape

/-- The system's number for a directory where a file is asked for. -/
def directoryCode : UInt32 := 21

/-- The reason of a failure of the system. A directory met in place of a file and the opposite
come as one kind and are told apart by number, which some calls give with its sign changed. -/
def IoError.ofSystem : IO.Error → IoError
  | .noFileOrDirectory .. => .notFound
  | .permissionDenied .. => .permissionDenied
  | .inappropriateType _ code _ =>
    if code = directoryCode ∨ code = 0 - directoryCode then .isDirectory else .notDirectory
  | error => .other (toString error)

/-- The names under which a file may be made before it takes the place of the file at a path. -/
def temporaryPath (path : String) (count : Nat) : String := path ++ ".new" ++ toString count

/-- Makes a file beside a path under the first name of some that is free. -/
def createBeside (path : String) : (tries : Nat) → IO (String × IO.FS.Handle)
  | 0 => throw (IO.userError "no temporary name is free")
  | tries + 1 => do
    let temporary := temporaryPath path tries
    try
      return (temporary, ← IO.FS.Handle.mk temporary .writeNew)
    catch
      | .alreadyExists .. => createBeside path tries
      | error => throw error

/-- Writes a file beside a path and moves it there. If that fails nothing is left of it. -/
def replaceFile (path : String) (bytes : Wire.Bytes) : IO Unit := do
  let (temporary, handle) ← createBeside path 1000
  try
    handle.write ⟨bytes.toArray⟩
    handle.flush
    IO.FS.rename temporary path
  catch error =>
    IO.FS.removeFile temporary
    throw error

/-- The files of the system. -/
instance : FileStore IO where
  read path := do
    try
      return .ok (← IO.FS.readBinFile path).toList
    catch error => return .error (.ofSystem error)
  write path bytes := do
    try
      replaceFile path bytes
      return .ok ()
    catch error => return .error (.ofSystem error)

end FixedShape

/-- Runs the program. -/
def main (args : List String) : IO UInt32 := do
  let outcome : FixedShape.CommandLine.Outcome ← FixedShape.CommandLine.run "static-shape" args
  (← IO.getStdout).putStr outcome.stdout
  (← IO.getStderr).putStr outcome.stderr
  return outcome.exitCode.toUInt32
