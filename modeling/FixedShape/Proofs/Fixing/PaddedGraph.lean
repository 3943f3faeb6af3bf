/-
Module: FixedShape.Proofs.Fixing.PaddedGraph
Purpose: The graph after padding, part by part: the value behind the output has a new name, the
  constants and the two nodes of padding stand last, and every name made is new and used once.
-/
import FixedShape.Proofs.Fixing.Rerouting
import FixedShape.Fixing.FixOutput

namespace FixedShape

namespace Graph

/-! ### Making names -/

theorem freshName_ne_empty {graph : Graph} {base : String} (h : base ≠ "") :
    graph.freshName base ≠ "" := by
  have hcandidate : ∀ k, candidateName base k ≠ "" := by
    intro k
    cases k with
    | zero => exact h
    | succ k =>
        intro hempty
        have hlength := congrArg String.length hempty
        simp only [candidateName, String.length_append] at hlength
        have hone : "_".length = 1 := rfl
        have hzero : "".length = 0 := rfl
        omega
  exact hcandidate _

/-- The names `made` were put into use one after the other, each when it was not in use. -/
structure Made (used made : List String) (graph : Graph) : Prop where
  names_eq : graph.names = made ++ used
  nodup : made.Nodup
  fresh : ∀ name ∈ made, name ∉ used
  nonempty : ∀ name ∈ made, name ≠ ""

theorem made_nil (graph : Graph) : graph.Made graph.names [] :=
  ⟨rfl, List.nodup_nil, fun _ h => absurd h List.not_mem_nil,
    fun _ h => absurd h List.not_mem_nil⟩

theorem Made.of_names_eq {used made : List String} {graph other : Graph}
    (h : graph.Made used made) (hnames : other.names = graph.names) : other.Made used made :=
  ⟨hnames.trans h.names_eq, h.nodup, h.fresh, h.nonempty⟩

/-- What making one name does. -/
theorem eq_of_uniqueName {graph next : Graph} {base name : String}
    (h : graph.uniqueName base = (name, next)) :
    name = graph.freshName base ∧ next = { graph with names := name :: graph.names } := by
  cases h
  refine ⟨rfl, ?_⟩
  rw [reserve_eq, List.insert_of_not_mem (freshName_not_mem graph base)]

theorem Made.uniqueName {used made : List String} {graph next : Graph} {base name : String}
    (h : graph.Made used made) (hbase : base ≠ "") (hname : graph.uniqueName base = (name, next)) :
    next.Made used (name :: made) := by
  obtain ⟨rfl, rfl⟩ := eq_of_uniqueName hname
  have hnew := freshName_not_mem graph base
  rw [h.names_eq, List.mem_append, not_or] at hnew
  refine ⟨?_, List.nodup_cons.mpr ⟨hnew.1, h.nodup⟩, ?_, ?_⟩
  · rw [h.names_eq]
    rfl
  · intro name hname
    rcases List.mem_cons.mp hname with rfl | hmade
    · exact hnew.2
    · exact h.fresh name hmade
  · intro name hname
    rcases List.mem_cons.mp hname with rfl | hmade
    · exact freshName_ne_empty hbase
    · exact h.nonempty name hmade

theorem Coherent.uniqueName {graph next : Graph} {base name : String} (h : graph.Coherent)
    (hname : graph.uniqueName base = (name, next)) : next.Coherent := by
  cases hname
  exact h.reserve _

/-- Makes a name from each base, one after the other. -/
def uniqueNames : List String → Graph → List String × Graph
  | [], graph => ([], graph)
  | base :: rest, graph =>
    let (name, graph) := graph.uniqueName base
    let (names, graph) := uniqueNames rest graph
    (name :: names, graph)

/-- Making names puts them into use and changes nothing else. -/
theorem uniqueNames_sound {bases names : List String} {graph next : Graph}
    (hbases : ∀ base ∈ bases, base ≠ "") (h : uniqueNames bases graph = (names, next)) :
    next = { graph with names := next.names } ∧ (graph.Coherent → next.Coherent) ∧
      ∀ {used made : List String}, graph.Made used made →
        next.Made used (names.reverse ++ made) := by
  induction bases generalizing graph names with
  | nil =>
      cases h
      exact ⟨rfl, id, id⟩
  | cons base rest ih =>
      rcases hfirst : graph.uniqueName base with ⟨name, between⟩
      rcases hrest : uniqueNames rest between with ⟨names, last⟩
      simp only [uniqueNames, hfirst, hrest, Prod.mk.injEq] at h
      obtain ⟨rfl, rfl⟩ := h
      obtain ⟨hnext, hcoherent, hmade⟩ :=
        ih (fun base hbase => hbases base (List.mem_cons_of_mem _ hbase)) hrest
      refine ⟨?_, fun h => hcoherent (h.uniqueName hfirst), fun h => ?_⟩
      · obtain ⟨_, rfl⟩ := eq_of_uniqueName hfirst
        exact hnext
      · have hlast := hmade (h.uniqueName (hbases base List.mem_cons_self) hfirst)
        rw [List.reverse_cons, List.append_assoc]
        exact hlast

end Graph

namespace Fixing

/-! ### Attaching the nodes -/

/-- Adding constants changes the constants and the names in use, and nothing else. -/
theorem foldl_addInitializer (inits : List Initializer) (graph : Graph) :
    inits.foldl (fun graph init => graph.addInitializer init) graph =
      { graph with
        initializers := graph.initializers ++ inits
        names := (inits.foldl (fun graph init => graph.addInitializer init) graph).names } := by
  induction inits generalizing graph with
  | nil => simp
  | cons init rest ih =>
      rw [List.foldl_cons, ih, Graph.addInitializer, Graph.reserve_eq]
      simp

/-- The constants of padding: the zeros and the three bounds of the slice. -/
def paddingConstants (zeros : Initializer) (names : PaddingNames) (options : OutputOptions) :
    List Initializer :=
  [zeros, .ofInt64s names.starts [0], .ofInt64s names.ends [Int64.ofNat options.length],
    .ofInt64s names.axes [options.axis]]

/-- The declaration of a padded output. -/
def declarePadded (basis : PaddingBasis) (length : Nat) (info : TensorInfo) : TensorInfo :=
  (info.setElemType basis.elemType).setShape [.fixed length]

/-- Adds the constants and nodes of padding and declares the output anew. -/
def attach (output : String) (basis : PaddingBasis) (zeros : Initializer)
    (options : OutputOptions) (names : PaddingNames) (graph : Graph) : Graph :=
  let graph := (paddingConstants zeros names options).foldl
    (fun graph init => graph.addInitializer init) graph
  let (concat, slice) := paddingNodes output names options.axis
  ((graph.addNode concat).addNode slice).modifyOutput output (declarePadded basis options.length)

section

variable {output : String} {basis : PaddingBasis} {zeros : Initializer} {options : OutputOptions}
  {names : PaddingNames} {graph : Graph}

theorem attach_eq :
    attach output basis zeros options names graph =
      { graph with
        nodes := graph.nodes ++ [(paddingNodes output names options.axis).1,
          (paddingNodes output names options.axis).2]
        initializers := graph.initializers ++ paddingConstants zeros names options
        outputs := modifyInfo output (declarePadded basis options.length) graph.outputs
        producerIndex := (attach output basis zeros options names graph).producerIndex
        names := (attach output basis zeros options names graph).names } := by
  unfold attach
  rw [foldl_addInitializer]
  simp only [Graph.addNode_eq, Graph.modifyOutput, List.append_assoc, List.singleton_append]

theorem coherent_attach (h : graph.Coherent) :
    (attach output basis zeros options names graph).Coherent := by
  unfold attach paddingConstants
  simp only [List.foldl_cons, List.foldl_nil]
  refine Graph.Coherent.modifyOutput ?_ output fun info => rfl
  refine Graph.Coherent.addNode (Graph.Coherent.addNode ?_ List.nodup_nil) List.nodup_nil
  exact (((h.addInitializer _).addInitializer _).addInitializer _).addInitializer _

end

/-! ### The padded graph -/

/-- The names that padding makes, the last first. -/
def PaddingNames.all (names : PaddingNames) : List String :=
  [names.sliceNode, names.concatNode, names.axes, names.ends, names.starts, names.concatenated,
    names.intermediate, names.zeros]

/-- What padding an output makes of a graph. -/
structure Padded (output : String) (basis : PaddingBasis) (zeros : Initializer)
    (options : OutputOptions) (names : PaddingNames) (old new : Graph) : Prop where
  zeros_name : names.zeros = zeros.name
  nodup : names.all.Nodup
  fresh : ∀ name ∈ names.all, name ∉ old.names
  nonempty : ∀ name ∈ names.all, name ≠ ""
  inputs_eq : new.inputs = old.inputs
  outputs_eq : new.outputs = modifyInfo output (declarePadded basis options.length) old.outputs
  valueInfo_eq : new.valueInfo =
    modifyInfo output ({ · with name := names.intermediate }) old.valueInfo
  initializers_eq : new.initializers = old.initializers ++ paddingConstants zeros names options
  nodes_eq : new.nodes = old.nodes.map (Node.redirect output names.intermediate) ++
    [(paddingNodes output names options.axis).1, (paddingNodes output names options.axis).2]
  rest_eq : new.rest = old.rest
  coherent : new.Coherent

/-- The bases of the names made after the value behind the output was renamed. -/
def laterBases (output : String) : List String :=
  [output ++ "_concat", "slice_starts", "slice_ends", "slice_axes", output ++ "_pad_concat",
    output ++ "_pad_slice"]

/-- The steps of padding: a name for the value behind the output, the renaming, the other names,
the constants and nodes. -/
theorem padGraph_steps {output : String} {basis : PaddingBasis} {zeros : Initializer}
    {options : OutputOptions} {start new : Graph} {names : PaddingNames} {rewired : List NodeId}
    (h : padGraph output basis zeros options start = (new, names, rewired)) :
    ∃ first named,
      start.uniqueName (output ++ "_unpadded") = (names.intermediate, first) ∧
      Graph.uniqueNames (laterBases output)
          (first.reroute basis.producer output names.intermediate) =
        ([names.concatenated, names.starts, names.ends, names.axes, names.concatNode,
          names.sliceNode], named) ∧
      names.zeros = zeros.name ∧ new = attach output basis zeros options names named ∧
      rewired = ((first.renameOutput basis.producer output names.intermediate).1.replaceUses output
        names.intermediate []).2 := by
  unfold padGraph at h
  rcases hfirst : start.uniqueName (output ++ "_unpadded") with ⟨intermediate, first⟩
  rcases hrename : first.renameOutput basis.producer output intermediate with ⟨graph₁, _⟩
  rcases huses : graph₁.replaceUses output intermediate [] with ⟨graph₂, ids⟩
  rcases hinfo : graph₂.renameValueInfo output intermediate with ⟨rerouted, _⟩
  rcases hconcatenated : rerouted.uniqueName (output ++ "_concat") with ⟨concatenated, graph₃⟩
  rcases hstarts : graph₃.uniqueName "slice_starts" with ⟨starts, graph₄⟩
  rcases hends : graph₄.uniqueName "slice_ends" with ⟨ends, graph₅⟩
  rcases haxes : graph₅.uniqueName "slice_axes" with ⟨axes, graph₆⟩
  rcases hconcat : graph₆.uniqueName (output ++ "_pad_concat") with ⟨concatNode, graph₇⟩
  rcases hslice : graph₇.uniqueName (output ++ "_pad_slice") with ⟨sliceNode, named⟩
  simp only [hfirst, hrename, huses, hinfo, hconcatenated, hstarts, hends, haxes, hconcat,
    hslice, Prod.mk.injEq] at h
  obtain ⟨hnew, rfl, rfl⟩ := h
  refine ⟨first, named, rfl, ?_, rfl, hnew.symm, by rw [hrename, huses]⟩
  have hreroute : first.reroute basis.producer output intermediate = rerouted := by
    unfold Graph.reroute
    rw [hrename, huses, hinfo]
  simp only [laterBases, Graph.uniqueNames, hreroute, hconcatenated, hstarts, hends, haxes,
    hconcat, hslice]

theorem padded_of_padGraph {output : String} {basis : PaddingBasis} {zeros : Initializer}
    {options : OutputOptions} {old new : Graph} {names : PaddingNames} {rewired : List NodeId}
    (coherent : old.Coherent) (hproducer : old.producers output = [basis.producer])
    (hzeros : zeros.name = (old.uniqueName "padding_zeros").1)
    (h : padGraph output basis zeros options (old.uniqueName "padding_zeros").2 =
      (new, names, rewired)) :
    Padded output basis zeros options names old new := by
  obtain ⟨first, named, hfirst, hnamed, hname, rfl, _⟩ := padGraph_steps h
  have hstart : old.uniqueName "padding_zeros" =
      (names.zeros, (old.uniqueName "padding_zeros").2) := by rw [hname, hzeros]
  have hcoherent := (coherent.uniqueName hstart).uniqueName hfirst
  have hmade := ((Graph.made_nil old).uniqueName (by decide) hstart).uniqueName
    (by simp) hfirst
  obtain ⟨_, heq⟩ := Graph.eq_of_uniqueName hstart
  rw [heq] at hfirst
  obtain ⟨_, rfl⟩ := Graph.eq_of_uniqueName hfirst
  -- the value behind the output is written by one node, and no node writes its new name
  obtain ⟨node, hnode, hwrites⟩ := coherent.indexed.mem_producers.mp
    (hproducer ▸ List.mem_singleton_self basis.producer)
  have hfresh : names.intermediate ∉ old.names :=
    hmade.fresh names.intermediate List.mem_cons_self
  have hnonempty : names.intermediate ≠ "" :=
    hmade.nonempty names.intermediate List.mem_cons_self
  have hwritten : ∀ {name : String} {node : Node}, node ∈ old.nodes → name ∈ node.outputs →
      name ≠ "" → name ∈ old.names :=
    fun hnode hmem hname => coherent.reserved.nodes _ hnode _
      (List.mem_append_right _ (List.mem_append_left _ hmem)) hname
  have hunwritten : ∀ node ∈ old.nodes, names.intermediate ∉ node.outputs :=
    fun node hnode hmem => hfresh (hwritten hnode hmem hnonempty)
  have hne : output ≠ names.intermediate := by
    intro houtput
    rw [← houtput] at hfresh
    exact hfresh (hwritten (List.mem_of_getElem? hnode) hwrites.2 hwrites.1)
  have hparts := Graph.reroute_eq hcoherent.indexed hproducer List.mem_cons_self
  have hrerouted := hcoherent.reroute hproducer List.mem_cons_self hunwritten hwrites.1
    hnonempty hne
  have hbases : ∀ base ∈ laterBases output, base ≠ "" := by
    simp [laterBases]
  obtain ⟨hkeep, hlater, hlast⟩ := Graph.uniqueNames_sound hbases hnamed
  have hall := hlast (hmade.of_names_eq (by rw [hparts]))
  refine ⟨hname, hall.nodup, hall.fresh, hall.nonempty, ?_, ?_, ?_, ?_, ?_, ?_,
    coherent_attach (hlater hrerouted)⟩
  all_goals rw [attach_eq, hkeep, hparts]

end Fixing

end FixedShape
