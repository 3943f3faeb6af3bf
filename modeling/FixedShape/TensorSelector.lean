/-
Module: FixedShape.TensorSelector
Purpose: Choosing inputs or outputs by name, either exactly the ones named or whichever exist of
  some customary ones.
-/

namespace FixedShape

/-- A choice of tensors. -/
inductive TensorSelector where
  /-- These tensors, all of which must exist. -/
  | exactly (names : List String)
  /-- Those of these names that exist, of which there must be one. -/
  | anyOf (names : List String)
  deriving DecidableEq, Repr

/-- The names that were looked for in vain, and those that were searched. -/
structure SelectError where
  missing : List String
  candidates : List String
  deriving DecidableEq, Repr

namespace TensorSelector

/-- The customary names of token sequences that speech models read. -/
def defaultInputs : TensorSelector := .anyOf ["input_ids", "tokens"]

/-- The customary names of waveforms that speech models write. -/
def defaultOutputs : TensorSelector := .anyOf ["audio", "waveform"]

/-- The available names that are chosen, in the order in which they are available. -/
def select (selector : TensorSelector) (available : List String) :
    Except SelectError (List String) :=
  match selector with
  | .exactly names =>
    let missing := names.filter (· ∉ available)
    if missing.isEmpty then .ok (available.filter (· ∈ names))
    else .error { missing, candidates := available }
  | .anyOf names =>
    let matched := available.filter (· ∈ names)
    if matched.isEmpty then .error { missing := names, candidates := available }
    else .ok matched

end TensorSelector

end FixedShape
