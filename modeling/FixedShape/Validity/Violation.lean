/-
Module: FixedShape.Validity.Violation
Purpose: The ways in which a graph can be ill formed, and how they are told.
-/

namespace FixedShape

/-- A structural problem of a graph. Nodes are called by their labels. -/
inductive Violation where
  /-- A node reads a name that nothing defines. -/
  | danglingInput (node tensor : String)
  /-- A node reads a name that only it or a later node writes. -/
  | usedBeforeProduced (node tensor : String)
  /-- A name has several sources: nodes, after the words for an input or a constant of the name. -/
  | duplicateProducer (tensor : String) (producers : List String)
  /-- Two inputs or two outputs have one name. -/
  | duplicateName (tensor : String)
  /-- Nodes depend on each other, or on nodes that do. -/
  | cycle (nodes : List String)
  /-- Nothing defines an output. -/
  | outputNotProduced (tensor : String)
  /-- No output depends on an input. -/
  | unusedInput (tensor : String)
  /-- A shape that must be static is not. -/
  | notStatic (tensor shape : String)
  deriving DecidableEq, Repr

namespace Violation

/-- A name in quotes. -/
def quoted (name : String) : String := "\"" ++ name ++ "\""

/-- The wording of a violation. -/
def message : Violation → String
  | .danglingInput node tensor =>
    "node " ++ quoted node ++ " reads " ++ quoted tensor ++
      " which is not defined anywhere in the graph"
  | .usedBeforeProduced node tensor =>
    "node " ++ quoted node ++ " reads " ++ quoted tensor ++ " before it is produced"
  | .duplicateProducer tensor producers =>
    quoted tensor ++ " is produced more than once, by " ++ ", ".intercalate producers
  | .duplicateName tensor => quoted tensor ++ " is declared more than once"
  | .cycle nodes => "cycle between nodes " ++ ", ".intercalate nodes
  | .outputNotProduced tensor => "graph output " ++ quoted tensor ++ " is never produced"
  | .unusedInput tensor => "graph input " ++ quoted tensor ++ " is unused"
  | .notStatic tensor shape => quoted tensor ++ " has non-static shape " ++ shape

/-- The wording of the violations of a graph. -/
def report (violations : List Violation) : String :=
  "graph validation failed with " ++ toString violations.length ++ " violation(s):" ++
    String.join (violations.map fun violation => "\n  - " ++ violation.message)

end Violation

end FixedShape
