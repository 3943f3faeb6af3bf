/-
Module: FixedShape.Fixing.FixInputs
Purpose: Fixing the shapes of sequence inputs. A chosen input is declared to hold one sequence of
  the given length, whatever was declared before; nodes are not touched.
-/
import FixedShape.Fixing.Workspace

namespace FixedShape.Fixing

/-- The shape of an input that holds one sequence. -/
def sequenceShape (length : Nat) : Shape := [.fixed 1, .fixed length]

/-- Fixes the first input of a name. -/
def fixInput (length : Nat) (name : String) : Fixing Unit := do
  let graph ← graph
  match graph.input? name with
  | none => return ()
  | some info =>
    setGraph (graph.modifyInput name (·.setShape (sequenceShape length)))
    tell .info <|
      "Fixed input \"" ++ name ++ "\" shape " ++ info.shapeText ++ " -> [1, " ++
        toString length ++ "]"
    if info.elemType?.isNone then
      tell .debug ("Input \"" ++ name ++ "\" has no declared element type")

/-- Fixes the chosen inputs and gives their names in the order of their declarations. A length
must be positive, and such that it can be declared. -/
def fixInputs (selector : TensorSelector) (length : Nat) : Fixing (List String) := do
  if length = 0 then throw (.invalidOption .zeroSequenceLength)
  if maxInt64 < length then throw (.invalidOption (.sequenceLengthTooLarge length))
  let graph ← graph
  match selector.select (graph.inputs.map (·.name)) with
  | .error error => throw (.noTargetInput error)
  | .ok names =>
    names.forM (fixInput length)
    return names

end FixedShape.Fixing
