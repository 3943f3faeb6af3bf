/-
Module: FixedShape.Graph.ProducerIndex
Purpose: Which nodes write a name. The index follows every change of the graph, so that a
  producer is found without a walk over the nodes.
-/

namespace FixedShape

/-- The position of a node in its graph. Nodes are never removed, so it names the node for good. -/
abbrev NodeId := Nat

/-- The nodes that write each name, in the order in which they came to write it. A node that
writes a name in two places is listed twice. -/
abbrev ProducerIndex := List (String × List NodeId)

namespace ProducerIndex

/-- The nodes that write a name. -/
def get (index : ProducerIndex) (name : String) : List NodeId := (index.lookup name).getD []

/-- Adds a node to those that write a name. -/
def push (index : ProducerIndex) (name : String) (id : NodeId) : ProducerIndex :=
  match index with
  | [] => [(name, [id])]
  | (key, ids) :: rest =>
    if key = name then (key, ids ++ [id]) :: rest else (key, ids) :: push rest name id

/-- Takes a node away from those that write a name. -/
def remove (index : ProducerIndex) (name : String) (id : NodeId) : ProducerIndex :=
  index.map fun (key, ids) => if key = name then (key, ids.filter (· ≠ id)) else (key, ids)

end ProducerIndex

end FixedShape
