/-
Module: FixedShape.Proofs.Fixing.Feasibility
Purpose: When an output can be padded. Each check is told by what it asks of the model and the
  options; padding succeeds exactly if all of them pass, as nothing that follows them can fail.
-/
import FixedShape.Proofs.Fixing.Failing
import FixedShape.Proofs.Fixing.Guarantees

namespace FixedShape

/-! ### Operator sets -/

/-- The first import of the default operator set, under either of its names. -/
def Model.defaultImport? (model : Model) : Option Onnx.OpsetImport :=
  model.message.opsetImports.find? fun entry =>
    entry.domain.getD "" = "" ∨ entry.domain = some Model.defaultDomain

/-- The version of the default operator set is that of its first import, or zero. -/
theorem Model.opsetVersion?_default (model : Model) :
    model.opsetVersion? "" = model.defaultImport?.map (·.version.getD 0) := by
  unfold opsetVersion? opsets defaultImport?
  induction model.message.opsetImports with
  | nil => rfl
  | cons first rest ih =>
      have hname : domainName "" = domainName (first.domain.getD "") ↔
          first.domain.getD "" = "" ∨ first.domain = some defaultDomain := by
        rcases first.domain with _ | domain
        · decide
        · by_cases hempty : domain = ""
          · simp [hempty]
          · simp [domainName, hempty, eq_comm]
      rw [List.map_cons, List.lookup_cons, List.find?_cons]
      by_cases hfirst : first.domain.getD "" = "" ∨ first.domain = some defaultDomain
      · rw [decide_eq_true hfirst, beq_iff_eq.mpr (hname.mpr hfirst)]
        rfl
      · rw [decide_eq_false hfirst, beq_false_of_ne (hname.not.mpr hfirst)]
        exact ih

/-- The default operator set is recent enough exactly if its first import has such a version. -/
theorem Model.supportsPadding_iff (model : Model) :
    (∃ version, model.opsetVersion? "" = some version ∧ minPaddingOpset ≤ version) ↔
      ∃ entry version, model.defaultImport? = some entry ∧ entry.version = some version ∧
        minPaddingOpset ≤ version := by
  rw [opsetVersion?_default]
  cases model.defaultImport? with
  | none => simp
  | some entry =>
      cases hversion : entry.version with
      | none => simp [hversion, minPaddingOpset]
      | some version => simp [hversion]

namespace Fixing

variable {before after : Workspace}

/-- The overflow policy refuses an output that is declared to be longer. -/
def Overflows (shape? : Option Shape) (options : OutputOptions) : Prop :=
  options.overflow = .reject ∧
    ∃ sizes : List Nat, shape? = some (sizes.map .fixed) ∧ options.length < sizes.prod

/-- A length is declared by a shape all of whose sizes are fixed. -/
theorem exists_declaredLength? {shape? : Option Shape} {bound : Nat} :
    (∃ length, declaredLength? shape? = some length ∧ bound < length) ↔
      ∃ sizes : List Nat, shape? = some (sizes.map .fixed) ∧ bound < sizes.prod := by
  simp only [declaredLength?, Option.bind_eq_some_iff, Shape.elementCount?_eq_some]
  constructor
  · rintro ⟨_, ⟨_, hshape, sizes, rfl, rfl⟩, hbound⟩
    exact ⟨sizes, hshape, hbound⟩
  · rintro ⟨sizes, hshape, hbound⟩
    exact ⟨_, ⟨_, hshape, sizes, rfl, rfl⟩, hbound⟩

theorem passes_checkOverflow {output : String} {shape? : Option Shape} {options : OutputOptions} :
    Passes (checkOverflow output shape? options) before ↔ ¬ Overflows shape? options := by
  have hdone : Passes (pure ()) before := unfailing_pure () before
  rw [Overflows, ← exists_declaredLength?]
  unfold checkOverflow
  cases options.overflow with
  | truncate =>
      -- nothing is refused, so at most a warning is given
      have hpasses : ∀ {told : Prop} [Decidable told] {level message},
          Passes (if told then tell level message else pure ()) before := by
        intro told _ level message
        split
        · exact unfailing_tell level message before
        · exact hdone
      refine iff_of_true ?_ nofun
      cases declaredLength? shape? with
      | none => exact hpasses
      | some length => exact hpasses
  | reject =>
      cases declaredLength? shape? with
      | none => exact iff_of_true hdone fun h => nomatch h.2
      | some length =>
          by_cases hlength : options.length < length
          · simp [hlength, not_passes_throw]
          · simp [hlength, hdone]

/-- Whether padding succeeds does not depend on the log. -/
theorem passes_padOutput_congr {output : String} {options : OutputOptions}
    (hmodel : after.model = before.model) :
    Passes (padOutput output options) after ↔ Passes (padOutput output options) before := by
  rw [passes_padOutput, passes_padOutput, hmodel]

/-- Fixing an output by padding succeeds exactly if it is chosen, does not overflow and can be
padded. -/
theorem passes_fixOutput {selector : TensorSelector} {options : OutputOptions}
    (mode : options.mode = .structural) :
    Passes (fixOutput selector options) before ↔
      0 < options.length ∧ options.length ≤ maxInt64 ∧
        ∃ output info, selector.select (before.model.graph.outputs.map (·.name)) = .ok [output] ∧
          before.model.graph.output? output = some info ∧ ¬ Overflows info.shape? options ∧
          Passes (padOutput output options) before := by
  unfold fixOutput
  simp only [passes_ite_throw, passes_bind, runs_graph, mode]
  refine and_congr Nat.pos_iff_ne_zero.symm (and_congr Nat.not_lt ?_)
  constructor
  · rintro ⟨_, _, ⟨rfl, rfl⟩, h⟩
    split at h
    · exact absurd h not_passes_throw
    · next output hselect =>
        split at h
        · exact absurd h not_passes_throw
        · next info hinfo =>
            obtain ⟨_, checked, hcheck, h⟩ := passes_bind.mp h
            have hmodel := (keepsModel_checkOverflow _ _ _).model_eq hcheck
            exact ⟨output, info, hselect, hinfo, passes_checkOverflow.mp ⟨_, _, hcheck⟩,
              (passes_padOutput_congr hmodel).mp h⟩
    · exact absurd h not_passes_throw
  · rintro ⟨output, info, hselect, hinfo, hoverflow, h⟩
    refine ⟨_, before, ⟨rfl, rfl⟩, ?_⟩
    rw [hselect]
    dsimp only
    rw [hinfo]
    obtain ⟨_, checked, hcheck⟩ := passes_checkOverflow.mpr hoverflow
    have hmodel := (keepsModel_checkOverflow _ _ _).model_eq hcheck
    exact passes_bind.mpr ⟨_, checked, hcheck, (passes_padOutput_congr hmodel).mpr h⟩

/-! ### Paddable outputs -/

/-- The only output of a graph that a selector chooses. A selector of exact names chooses nothing
unless all of them are declared. -/
structure OnlyChoice (selector : TensorSelector) (graph : Graph) (info : TensorInfo) : Prop where
  matched : graph.outputs.filter (·.name ∈ selector.names) = [info]
  present : ∀ names, selector = .exactly names →
    ∀ name ∈ names, name ∈ graph.outputs.map (·.name)

/-- The one declaration that a selector matches is the only one of its name. -/
theorem eq_of_matched {selector : TensorSelector} {infos : List TensorInfo}
    {info other : TensorInfo} (matched : infos.filter (·.name ∈ selector.names) = [info])
    (hother : other ∈ infos) (hname : other.name = info.name) : other = info := by
  have hinfo : info ∈ infos.filter (·.name ∈ selector.names) :=
    matched ▸ List.mem_singleton_self info
  have hboth : other ∈ infos.filter (·.name ∈ selector.names) := by
    refine List.mem_filter.mpr ⟨hother, ?_⟩
    rw [hname]
    exact (List.mem_filter.mp hinfo).2
  rwa [matched, List.mem_singleton] at hboth

/-- The declaration that is found under a name that is chosen alone is the only choice. -/
theorem onlyChoice_iff {selector : TensorSelector} {graph : Graph} {info : TensorInfo} :
    OnlyChoice selector graph info ↔
      selector.select (graph.outputs.map (·.name)) = .ok [info.name] ∧
        graph.output? info.name = some info := by
  have hnames : (graph.outputs.map (·.name)).filter (· ∈ selector.names) =
      (graph.outputs.filter (·.name ∈ selector.names)).map (·.name) := by
    rw [List.filter_map]
    rfl
  rw [TensorSelector.select_eq_ok, hnames]
  constructor
  · rintro ⟨matched, present⟩
    refine ⟨⟨by rw [matched, List.map_singleton], ?_⟩, ?_⟩
    · cases selector with
      | exactly names => exact present names rfl
      | anyOf names => exact List.cons_ne_nil _ _
    · have hmem : info ∈ graph.outputs :=
        List.mem_of_mem_filter (matched ▸ List.mem_singleton_self info)
      obtain ⟨found, hfound⟩ := Option.isSome_iff_exists.mp
        (Graph.isSome_findInfo?.mpr ⟨info, hmem, rfl⟩)
      have hname : found.name = info.name := by simpa using List.find?_some hfound
      rw [Graph.output?, hfound, eq_of_matched matched (List.mem_of_find?_eq_some hfound) hname]
  · rintro ⟨⟨hchosen, hpresent⟩, hfound⟩
    obtain ⟨only, matched, hname⟩ := List.map_eq_singleton_iff.mp hchosen
    obtain rfl := eq_of_matched matched (List.mem_of_find?_eq_some hfound) hname.symm
    refine ⟨matched, ?_⟩
    rintro names rfl
    exact hpresent

/-- An output that can be padded to the length that is asked for, with the size of its elements.
Numbers are exact, so no product in here can wrap around. -/
structure Paddable (selector : TensorSelector) (options : OutputOptions) (model : Model)
    (info : TensorInfo) (size : Nat) : Prop where
  length_pos : 1 ≤ options.length
  length_le : options.length ≤ maxInt64
  chosen : OnlyChoice selector model.graph info
  kept : ¬ Overflows info.shape? options
  supported : ∃ entry version, model.defaultImport? = some entry ∧
    entry.version = some version ∧ minPaddingOpset ≤ version
  rank : ∀ shape, info.shape? = some shape → shape.length = 1
  axis : options.axis = 0 ∨ options.axis = -1
  sized : (info.elemType?.getD .float32).byteSize? = some size
  fits : size * options.length ≤ maxConstantBytes
  written : (model.graph.nodes.flatMap Node.outputs).count info.name = 1

/-- All that is checked of an indexed graph with named outputs is that an output is paddable. -/
theorem passes_fixOutput_iff_paddable {selector : TensorSelector} {options : OutputOptions}
    (indexed : before.model.graph.Indexed)
    (named : ∀ info ∈ before.model.graph.outputs, info.name ≠ "")
    (mode : options.mode = .structural) :
    Passes (fixOutput selector options) before ↔
      ∃ info size, Paddable selector options before.model info size := by
  have hcount : ∀ {info : TensorInfo}, before.model.graph.output? info.name = some info →
      (before.model.graph.producers info.name).length =
        (before.model.graph.nodes.flatMap Node.outputs).count info.name :=
    fun h => indexed.length_producers (named _ (List.mem_of_find?_eq_some h))
  rw [passes_fixOutput mode]
  constructor
  · rintro ⟨hpos, hle, output, info, hselect, hinfo, hoverflow, hpad⟩
    obtain rfl : info.name = output := by simpa using List.find?_some hinfo
    obtain ⟨basis, zeros, hbasis, hzeros⟩ := passes_padOutput.mp hpad
    obtain ⟨found, carries⟩ := paddingBasis_eq_ok.mp hbasis
    obtain rfl := Option.some.inj (hinfo.symm.trans carries.declared)
    obtain ⟨size, hsize, -, -⟩ := Initializer.exists_zeros?.mp ⟨zeros, hzeros⟩
    rw [carries.elemType_eq] at hsize
    refine ⟨info, size, ?_⟩
    exact
      { length_pos := hpos
        length_le := hle
        chosen := onlyChoice_iff.mpr ⟨hselect, hinfo⟩
        kept := hoverflow
        supported := before.model.supportsPadding_iff.mp carries.supported
        rank := carries.rank
        axis := carries.axis
        sized := hsize
        fits := carries.fits size hsize
        written := by rw [← hcount hinfo, carries.producers_eq, List.length_singleton] }
  · rintro ⟨info, size, h⟩
    obtain ⟨hselect, hinfo⟩ := onlyChoice_iff.mp h.chosen
    refine ⟨h.length_pos, h.length_le, info.name, info, hselect, hinfo, h.kept, ?_⟩
    obtain ⟨producer, hproducer⟩ := List.length_eq_one_iff.mp ((hcount hinfo).trans h.written)
    have hbasis : paddingBasis before.model info.name options =
        .ok { elemType := info.elemType?.getD .float32, producer } := by
      refine paddingBasis_eq_ok.mpr ⟨info, ?_⟩
      exact
        { supported := before.model.supportsPadding_iff.mpr h.supported
          declared := hinfo
          rank := h.rank
          axis := h.axis
          fits := fun other hother => by
            obtain rfl := Option.some.inj (h.sized.symm.trans hother)
            exact h.fits
          elemType_eq := rfl
          producers_eq := hproducer }
    -- what fits into a file is far from the limits of the zeros themselves
    obtain ⟨zeros, hzeros⟩ := Initializer.exists_zeros?.mpr
      ⟨size, h.sized, Nat.lt_of_le_of_lt h.fits (by decide), h.length_le⟩
    exact passes_padOutput.mpr ⟨_, zeros, hbasis, hzeros⟩

/-! ### Sizes of constants -/

/-- The bytes of a constant in the two forms in which padding makes constants. -/
def constantBytes (init : Initializer) : Nat :=
  (init.tensor.rawData.getD []).length + 8 * init.tensor.int64Data.length

/-- Padding multiplies no sizes beyond its bound, which is far below those of 64 bits. -/
theorem product_exact {model : Model} {output : String} {options : OutputOptions}
    {basis : PaddingBasis} {size : Nat} (h : paddingBasis model output options = .ok basis)
    (hsize : basis.elemType.byteSize? = some size) :
    size * options.length ≤ maxConstantBytes ∧
      (UInt64.ofNat size * UInt64.ofNat options.length).toNat = size * options.length := by
  obtain ⟨info, carries⟩ := paddingBasis_eq_ok.mp h
  have hfits : size * options.length ≤ maxConstantBytes :=
    carries.fits size (carries.elemType_eq ▸ hsize)
  have hsmall : size * options.length < 2 ^ 64 := Nat.lt_of_le_of_lt hfits (by decide)
  refine ⟨hfits, ?_⟩
  rw [UInt64.toNat_mul, UInt64.toNat_ofNat', UInt64.toNat_ofNat', ← Nat.mul_mod]
  exact Nat.mod_eq_of_lt hsmall

/-- The constants that a run of padding adds are within the bound. -/
theorem PaddingRun.constantBytes_le {output : String} {options : OutputOptions} {old new : Model}
    {report : OutputReport} (run : PaddingRun output options old report new)
    (coherent : old.graph.Coherent) :
    ∀ init ∈ new.graph.initializers,
      init ∈ old.graph.initializers ∨ constantBytes init ≤ maxConstantBytes := by
  intro init hinit
  have padding := run.coherentPadding coherent
  rw [padding.initializers_eq, List.mem_append] at hinit
  refine hinit.imp_right fun hadded => ?_
  obtain ⟨size, hsize, _, hzeros⟩ := Initializer.zeros?_eq_some run.zeros_eq
  have hfits := (product_exact run.basis_eq hsize).1
  have hnumber : ∀ name number,
      constantBytes (.ofInt64s name [number]) ≤ maxConstantBytes := by
    intro name number
    exact (by decide : 8 ≤ maxConstantBytes)
  simp only [paddingConstants, List.mem_cons, List.not_mem_nil, or_false] at hadded
  rcases hadded with rfl | rfl | rfl | rfl
  · rw [hzeros]
    simpa [constantBytes] using hfits
  · exact hnumber _ _
  · exact hnumber _ _
  · exact hnumber _ _

/-- Whatever comes of padding, it leaves no constant beyond the bound that was not there. -/
theorem constantBytes_le_of_run {selector : TensorSelector} {options : OutputOptions}
    (coherent : before.model.graph.Coherent) (mode : options.mode = .structural)
    {outcome : Except FixError OutputReport}
    (h : (ExceptT.run (fixOutput selector options)).run before = (outcome, after)) :
    ∀ init ∈ after.model.graph.initializers,
      init ∈ before.model.graph.initializers ∨ constantBytes init ≤ maxConstantBytes := by
  cases outcome with
  | error error =>
      obtain ⟨names, hmodel⟩ := Fails.model_eq_of_fixOutput h
      rw [hmodel]
      exact fun init hinit => Or.inl hinit
  | ok report =>
      obtain ⟨output, _, _, _, _, _, hmodel⟩ := Runs.of_fixOutput h
      rw [mode] at hmodel
      obtain ⟨run⟩ := hmodel
      exact run.constantBytes_le coherent

/-- Padding an output of a loaded model succeeds exactly if an output is paddable. The bytes of its
zeros are then counted without wrapping around, and no outcome leaves a constant beyond the bound
that was not loaded. -/
theorem padding_succeeds_iff {bytes : Wire.Bytes} {loaded : Model} {log : Log}
    {selector : TensorSelector} {options : OutputOptions} (load : Model.load bytes = .ok loaded)
    (mode : options.mode = .structural) :
    (Passes (fixOutput selector options) { model := loaded, log } ↔
        ∃ info size, Paddable selector options loaded info size) ∧
      (∀ output basis size, paddingBasis loaded output options = .ok basis →
        basis.elemType.byteSize? = some size →
          size * options.length ≤ maxConstantBytes ∧
            (UInt64.ofNat size * UInt64.ofNat options.length).toNat = size * options.length) ∧
      ∀ outcome after,
        (ExceptT.run (fixOutput selector options)).run { model := loaded, log } =
            (outcome, after) →
          ∀ init ∈ after.model.graph.initializers,
            init ∈ loaded.graph.initializers ∨ constantBytes init ≤ maxConstantBytes := by
  obtain ⟨message, hloaded⟩ := Model.loadedFrom_of_load load
  obtain ⟨graphMessage, _, hgraph⟩ := hloaded.graph
  refine ⟨?_, ?_, ?_⟩
  · exact passes_fixOutput_iff_paddable hgraph.indexed (fun info => hgraph.output_name_ne) mode
  · exact fun output basis size => product_exact
  · exact fun outcome after => constantBytes_le_of_run hgraph.coherent mode

/-- An output of halves is paddable. The same output of texts is not, as texts have no size. -/
theorem padding_succeeds_iff_halves :
    let message (elemType : Int32) : Onnx.Model :=
      { irVersion := some 8
        opsetImports := [{ version := some 10 }]
        graph := some
          { nodes := [{ opType := some "Cast", inputs := ["x"], outputs := ["y"] }]
            inputs := [{ name := some "x" }]
            outputs :=
              [{ name := some "y"
                 type := some { tensorType := some { elemType := some elemType } } }] } }
    let options : OutputOptions := { mode := .structural, length := 4 }
    (∃ halves, Model.load (message Onnx.DataType.float16).encode = .ok halves ∧
        ∃ info size, Paddable (.exactly ["y"]) options halves info size) ∧
      ∃ texts, Model.load (message 8).encode = .ok texts ∧
        ¬ ∃ info size, Paddable (.exactly ["y"]) options texts info size := by
  intro message options
  have hpasses : succeeds (fixOutput (.exactly ["y"]) options) (fun _ => true)
      (message Onnx.DataType.float16).encode = true := by
    decide +kernel
  have hfails : succeeds (pure ())
      (fun texts => !(runOn (fixOutput (.exactly ["y"]) options) texts).1.isOk)
      (message 8).encode = true := by
    decide +kernel
  obtain ⟨halves, report, after, hhalves, _, hrun⟩ := exists_of_succeeds hpasses
  obtain ⟨texts, _, _, htexts, hrefused, _⟩ := exists_of_succeeds hfails
  refine ⟨⟨halves, hhalves, ?_⟩, texts, htexts, fun hpaddable => ?_⟩
  · exact (padding_succeeds_iff hhalves rfl).1.mp ⟨report, after, hrun⟩
  · obtain ⟨report, after, hpadded⟩ := (padding_succeeds_iff htexts rfl).1.mpr hpaddable
    have hok : runOn (fixOutput (.exactly ["y"]) options) texts = (.ok report, after) := hpadded
    rw [hok] at hrefused
    cases hrefused

end Fixing

end FixedShape
