/-
Module: FixedShape.Proofs.Evaluation
Purpose: What a graph computes, for any meaning of its operators. An interpretation says what an
  operator makes of values, and evaluation goes through the nodes in the order of the list.
-/
import FixedShape.Graph.Basic
import FixedShape.Proofs.Tensor.Constants

namespace FixedShape

open FixedShape.Wire (Bytes)

/-- What operators and constants mean. Values may be of any kind; among them are vectors of
elements. -/
structure Interpretation (Element Value : Type) where
  /-- What an operator with its settings makes of values, some of which may be left out. -/
  operator : String → List Onnx.Attribute → List (Option Value) → Option (List Value)
  constant : Onnx.Tensor → Option Value
  vector : List Element → Value
  /-- The element of a type that some bytes hold. -/
  element : ElementType → Bytes → Element

/-- The values of names. -/
abbrev Environment (Value : Type) := String → Option Value

/-- An environment with a value for a name. The empty name stands for a value left out. -/
def Environment.set {Value : Type} (env : Environment Value) (name : String) (value : Value) :
    Environment Value :=
  fun other => if other = name ∧ name ≠ "" then some value else env other

namespace Environment

variable {Value : Type} {env : Environment Value} {name other : String} {value : Value}

theorem set_self (h : name ≠ "") : env.set name value name = some value := by
  rw [set, if_pos ⟨rfl, h⟩]

theorem set_of_ne (h : other ≠ name) : env.set name value other = env other := by
  rw [set, if_neg fun heq => h heq.1]

end Environment

namespace Interpretation

variable {Element Value : Type}

/-! ### Evaluation -/

/-- The values of names that a node reads. There is none for a name without a value. -/
def read (env : Environment Value) : List String → Option (List (Option Value))
  | [] => some []
  | name :: rest =>
    if name = "" then (read env rest).map (none :: ·)
    else
      match env name, read env rest with
      | some value, some values => some (some value :: values)
      | _, _ => none

/-- Gives names the results of a node, of which there must be one for each name. -/
def write (env : Environment Value) : List String → List Value → Option (Environment Value)
  | [], _ => some env
  | _ :: _, [] => none
  | name :: names, value :: values => write (env.set name value) names values

/-- Runs a node. -/
def evalNode (I : Interpretation Element Value) (env : Environment Value) (node : Node) :
    Option (Environment Value) :=
  match read env node.inputs with
  | none => none
  | some values =>
    match I.operator node.opType node.message.attributes values with
    | none => none
    | some results => write env node.outputs results

/-- A node runs if its reads have values, its operator gives results and these fill its outputs. -/
theorem evalNode_eq_some {I : Interpretation Element Value} {env next : Environment Value}
    {node : Node} :
    I.evalNode env node = some next ↔
      ∃ values results, read env node.inputs = some values ∧
        I.operator node.opType node.message.attributes values = some results ∧
        write env node.outputs results = some next := by
  unfold evalNode
  cases read env node.inputs with
  | none => simp
  | some values =>
      cases hresults : I.operator node.opType node.message.attributes values with
      | none => simp [hresults]
      | some results => simp [hresults]

/-- The values before any node runs: those assigned to inputs, and constants, which also are the
defaults of inputs. -/
def start (I : Interpretation Element Value) (graph : Graph) (assigned : Environment Value) :
    Environment Value :=
  fun name =>
    let default := (graph.initializer? name).bind fun init => I.constant init.tensor
    if (graph.input? name).isSome then (assigned name).or default else default

/-- The values of all names after the nodes were run in the order of the list. -/
def evaluate (I : Interpretation Element Value) (graph : Graph) (assigned : Environment Value) :
    Option (Environment Value) :=
  graph.nodes.foldlM I.evalNode (I.start graph assigned)

/-! ### Vectors -/

/-- A 64-bit integer as an element. -/
def integer (I : Interpretation Element Value) (value : Int64) : Element :=
  I.element .int64 (Bytes.ofWord64 value.toUInt64)

/-- The element of a type with all bytes zero. -/
def zero (I : Interpretation Element Value) (elemType : ElementType) : Element :=
  I.element elemType (List.replicate (elemType.byteSize?.getD 0) 0)

/-- The elements of a constant of one dimension, from raw data or from a list of integers. -/
def elements? (I : Interpretation Element Value) (tensor : Onnx.Tensor) : Option (List Element) :=
  match tensor.dims, tensor.dataType.map ElementType.ofCode, tensor.rawData with
  | [length], some elemType, some bytes =>
    match elemType.byteSize? with
    | none => none
    | some size =>
      if 0 ≤ length ∧ bytes.length = size * length.toNatClampNeg then
        some <| (List.range length.toNatClampNeg).map fun position =>
          I.element elemType ((bytes.drop (size * position)).take size)
      else none
  | [length], some .int64, none =>
    if 0 ≤ length ∧ tensor.int64Data.length = length.toNatClampNeg then
      some (tensor.int64Data.map I.integer)
    else none
  | _, _, _ => none

/-- An interpretation under which vectors are appended and cut, and constant vectors are what
their data say. A vector has one axis, which is the first and the last. -/
structure Lawful (I : Interpretation Element Value) : Prop where
  concat : ∀ axis : Int64, axis = 0 ∨ axis = -1 → ∀ first second : List Element,
    I.operator "Concat" [(AttrValue.int axis).toMessage "axis"]
      [some (I.vector first), some (I.vector second)] = some [I.vector (first ++ second)]
  slice : ∀ axis : Int64, axis = 0 ∨ axis = -1 → ∀ start stop : Int64, 0 ≤ start → 0 ≤ stop →
    ∀ elements : List Element,
    I.operator "Slice" []
      [some (I.vector elements), some (I.vector [I.integer start]),
        some (I.vector [I.integer stop]), some (I.vector [I.integer axis])] =
      some [I.vector ((elements.take stop.toNatClampNeg).drop start.toNatClampNeg)]
  constant : ∀ tensor elements, I.elements? tensor = some elements →
    I.constant tensor = some (I.vector elements)

/-! ### The constants of padding -/

/-- Zeros are as many zero elements. -/
theorem elements?_zeros (I : Interpretation Element Value) {name : String}
    {elemType : ElementType} {length : Nat} {zeros : Initializer}
    (h : Initializer.zeros? name elemType length = some zeros) :
    I.elements? zeros.tensor = some (List.replicate length (I.zero elemType)) := by
  obtain ⟨size, hsize, hlength, rfl⟩ := Initializer.zeros?_eq_some h
  obtain ⟨hnonneg, hnat⟩ := zero_le_ofNat hlength
  have hchunk : ∀ position ∈ List.range length,
      I.element elemType (((List.replicate (size * length) 0).drop (size * position)).take size) =
        I.zero elemType := by
    intro position hposition
    have hroom : size ≤ size * length - size * position := by
      rw [← Nat.mul_sub]
      exact Nat.le_mul_of_pos_right size (Nat.sub_pos_of_lt (List.mem_range.mp hposition))
    rw [zero, hsize, List.drop_replicate, List.take_replicate, Nat.min_eq_left hroom,
      Option.getD_some]
  simp only [elements?, Option.map_some, ElementType.ofCode_code hsize, hsize, hnat, hnonneg,
    List.length_replicate, and_self, if_true]
  rw [List.map_congr_left hchunk, List.map_const', List.length_range]

end Interpretation

end FixedShape
