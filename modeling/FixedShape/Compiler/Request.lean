/-
Module: FixedShape.Compiler.Request
Purpose: Handing a fixed model to a compiler: what is asked for, how the result is called, and
  what can go wrong.
-/
import FixedShape.Storage.FilePath
import FixedShape.Storage.IoError
import FixedShape.Text.Lowercase

namespace FixedShape.Compiler

/-- Why a compiler gave no result. -/
inductive CompilerError where
  /-- There is no toolkit at the path. -/
  | toolkitNotFound (path : String)
  /-- The toolkit at the path has no converter for this host. -/
  | converterNotFound (path : String)
  /-- The compiler could not be started. -/
  | io (error : IoError)
  /-- A compilation service gave an error. -/
  | service (message : String)
  deriving DecidableEq, Repr

/-- The wording of an error. -/
def CompilerError.message : CompilerError → String
  | .toolkitNotFound path => "SDK not found at " ++ path
  | .converterNotFound path => "model converter not found in " ++ path
  | .io error => "failed to run compiler: " ++ error.message
  | .service message => "compilation service error: " ++ message

/-- A model that is to be compiled for a device. -/
structure Request where
  /-- The path of the model. -/
  model : String
  device : String
  deriving DecidableEq, Repr

/-- The name of the file that holds the compiled model: the stem of the model, and the device in
lower case with underscores for its spaces. -/
def Request.binaryName (request : Request) : String :=
  let device := String.ofList (request.device.toList.map fun c => if c = ' ' then '_' else c)
  (FilePath.fileStem? request.model).getD "model" ++ "_qnn_" ++ Text.toLower device ++ ".bin"

end FixedShape.Compiler
