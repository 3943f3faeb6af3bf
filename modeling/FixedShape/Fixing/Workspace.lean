/-
Module: FixedShape.Fixing.Workspace
Purpose: What a step of fixing works on: the model and the log. A step that fails still hands
  back both, as it may have changed the model before it failed.
-/
import FixedShape.Model.Basic
import FixedShape.Fixing.Log
import FixedShape.Fixing.FixError

namespace FixedShape

/-- A model under work, with what was told about it. -/
structure Workspace where
  model : Model
  log : Log := []

/-- A step of fixing a model. -/
abbrev Fixing := ExceptT FixError (StateM Workspace)

namespace Fixing

/-- Runs a step on a model: its result, and the model and log after it. -/
def runOn {α : Type} (step : Fixing α) (model : Model) : Except FixError α × Workspace :=
  (ExceptT.run step).run { model }

/-- The graph as it is now. -/
def graph : Fixing Graph := return (← get).model.graph

/-- Replaces the graph. -/
def setGraph (graph : Graph) : Fixing Unit :=
  modify fun workspace => { workspace with model := { workspace.model with graph } }

/-- Tells something. -/
def tell (level : LogLevel) (message : String) : Fixing Unit :=
  modify fun workspace => { workspace with log := workspace.log ++ [{ level, message }] }

end Fixing

end FixedShape
