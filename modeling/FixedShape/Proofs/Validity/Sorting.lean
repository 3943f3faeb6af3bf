/-
Module: FixedShape.Proofs.Validity.Sorting
Purpose: The topological sort. Its counters hold exactly the reads that still wait and never go below
  zero, it takes each node at most once, and each node that it takes waits only for nodes taken
  before. It stops only when every node left over waits for a node left over.
-/
import FixedShape.Proofs.Validity.WellFormed
import Mathlib.Data.List.Nodup
import Mathlib.Data.List.Perm.Subperm

namespace FixedShape

namespace Graph

/-- The number of reads of a node that wait for nodes which are not done. -/
def remaining (waits : List (List NodeId)) (done : List NodeId) (id : NodeId) : Nat :=
  ((waits.getD id []).filter (· ∉ done)).length

/-- The state of a sort, given the nodes that are done and the reads that are answered by them but
not yet counted down, each by its reader. -/
structure SortState.Sound (waits : List (List NodeId)) (done answers : List NodeId)
    (state : SortState) : Prop where
  length_pending : state.pending.length = waits.length
  pending : ∀ id < waits.length,
    state.pending[id]? = some (remaining waits done id + answers.count id)
  /-- The nodes done or ready are those with nothing to wait for. -/
  ready : ∀ id, id ∈ done ++ state.ready ↔
    id < waits.length ∧ remaining waits done id + answers.count id = 0
  nodup : (done ++ state.ready).Nodup
  sorted : state.sorted = done.length

/-! ### Reads answered by one node -/

theorem dependents_append_singleton (waits : List (List NodeId)) (awaited : List NodeId)
    (id : NodeId) :
    dependents (waits ++ [awaited]) id =
      dependents waits id ++ List.replicate (awaited.count id) waits.length := by
  simp [dependents, List.zipIdx_append]

/-- A node answers each read that waits for it once. -/
theorem count_dependents (waits : List (List NodeId)) (id reader : NodeId) :
    (dependents waits id).count reader = (waits.getD reader []).count id := by
  induction waits using List.reverseRecOn with
  | nil => simp [dependents]
  | append_singleton waits awaited ih =>
      rw [dependents_append_singleton, List.count_append, ih, List.count_replicate]
      rcases Nat.lt_trichotomy reader waits.length with hlt | heq | hgt
      · have hne : waits.length ≠ reader := Nat.ne_of_gt hlt
        simp [List.getD, List.getElem?_append_left hlt, hne]
      · subst heq
        simp [List.getD]
      · have hne : waits.length ≠ reader := Nat.ne_of_lt hgt
        have hold : waits[reader]? = none := List.getElem?_eq_none (Nat.le_of_lt hgt)
        have hnew : (waits ++ [awaited])[reader]? = none :=
          List.getElem?_eq_none (by simpa using Nat.succ_le_of_lt hgt)
        simp [List.getD, hold, hnew, hne]

theorem lt_length_of_mem_dependents {waits : List (List NodeId)} {id reader : NodeId}
    (h : reader ∈ dependents waits id) : reader < waits.length := by
  have hpos : 0 < (dependents waits id).count reader := List.count_pos_iff.mpr h
  rw [count_dependents] at hpos
  by_contra hge
  have hnone : waits[reader]? = none := List.getElem?_eq_none (Nat.le_of_not_lt hge)
  simp [List.getD, hnone] at hpos

/-- The reads that wait before a node is done are those that wait after it and those it answers. -/
theorem remaining_eq_add {waits : List (List NodeId)} {done : List NodeId} {id : NodeId}
    (hid : id ∉ done) (reader : NodeId) :
    remaining waits done reader =
      remaining waits (id :: done) reader + (dependents waits id).count reader := by
  rw [count_dependents]
  unfold remaining
  induction waits.getD reader [] with
  | nil => rfl
  | cons awaited rest ih =>
      by_cases hawaited : awaited = id
      · subst hawaited
        simp [hid] at ih ⊢
        omega
      · by_cases hdone : awaited ∈ done
        · simpa [hawaited, hdone] using ih
        · simp [hawaited, hdone] at ih ⊢
          omega

namespace SortState

variable {waits : List (List NodeId)} {done answers : List NodeId} {state : SortState}

/-- Counting one read down leaves the other answered reads to be counted. -/
theorem Sound.answer {id : NodeId} (h : state.Sound waits done (id :: answers))
    (hid : id < waits.length) : (state.answer id).Sound waits done answers := by
  have hpending := h.pending id hid
  rw [List.count_cons_self] at hpending
  have hcount : ∀ other, other ≠ id → (id :: answers).count other = answers.count other :=
    fun other hother => List.count_cons_of_ne (Ne.symm hother)
  have hwaiting : id ∉ done ++ state.ready := by
    intro hmem
    have hzero := ((h.ready id).mp hmem).2
    rw [List.count_cons_self] at hzero
    omega
  have hanswer : state.answer id =
      { state with
        pending := state.pending.set id (remaining waits done id + answers.count id)
        ready :=
          if remaining waits done id + answers.count id = 0 then id :: state.ready
          else state.ready } := by
    unfold SortState.answer
    rw [hpending]
    simp [← Nat.add_assoc]
  rw [hanswer]
  refine ⟨?_, ?_, ?_, ?_, h.sorted⟩
  · simpa using h.length_pending
  · intro other hother
    by_cases heq : other = id
    · subst heq
      simp [h.length_pending, hid]
    · have hsame := h.pending other hother
      rw [hcount other heq] at hsame
      simpa [List.getElem?_set_ne (Ne.symm heq)] using hsame
  · intro other
    by_cases heq : other = id
    · subst heq
      split
      · next hzero => simp [hid, hzero]
      · next hzero =>
          constructor
          · exact fun hmem => absurd hmem hwaiting
          · exact fun hboth => absurd hboth.2 hzero
    · have hsame := h.ready other
      rw [hcount other heq] at hsame
      split
      · rw [← hsame]
        simp [heq]
      · exact hsame
  · split
    · exact List.perm_middle.nodup_iff.mpr (List.nodup_cons.mpr ⟨hwaiting, h.nodup⟩)
    · exact h.nodup

theorem Sound.foldl_answer (h : state.Sound waits done answers)
    (hanswers : ∀ id ∈ answers, id < waits.length) :
    (answers.foldl SortState.answer state).Sound waits done [] := by
  induction answers generalizing state with
  | nil => exact h
  | cons id rest ih =>
      refine ih (h.answer (hanswers id List.mem_cons_self)) ?_
      exact fun other hother => hanswers other (List.mem_cons_of_mem id hother)

/-- Taking a node off the ready ones makes it done, and it answers all reads that wait for it. -/
theorem Sound.taken {id : NodeId} {ready : List NodeId} (h : state.Sound waits done [])
    (hready : state.ready = id :: ready) :
    SortState.Sound waits (id :: done) (dependents waits id)
      { state with ready, sorted := state.sorted + 1 } := by
  have hnodup := h.nodup
  rw [hready] at hnodup
  have hid : id ∉ done := by
    intro hmem
    have hmiddle := List.perm_middle.nodup_iff.mp hnodup
    exact (List.nodup_cons.mp hmiddle).1 (List.mem_append_left ready hmem)
  refine ⟨h.length_pending, ?_, ?_, ?_, ?_⟩
  · intro reader hreader
    have hpending := h.pending reader hreader
    rwa [List.count_nil, Nat.add_zero, remaining_eq_add hid] at hpending
  · intro reader
    have hsame := h.ready reader
    rw [List.count_nil, Nat.add_zero, remaining_eq_add hid, hready] at hsame
    rw [← hsame]
    simp only [List.mem_append, List.mem_cons]
    tauto
  · exact List.perm_middle.nodup_iff.mp hnodup
  · simp [h.sorted]

/-- Every read in a list is counted down from a counter above zero. -/
def CountsDown (state : SortState) : List NodeId → Prop
  | [] => True
  | id :: rest =>
    (∃ count, state.pending[id]? = some count ∧ 0 < count) ∧ (state.answer id).CountsDown rest

/-- Answered reads were waiting for their answer. -/
theorem Sound.countsDown (h : state.Sound waits done answers)
    (hanswers : ∀ id ∈ answers, id < waits.length) : state.CountsDown answers := by
  induction answers generalizing state with
  | nil => trivial
  | cons id rest ih =>
      have hid := hanswers id List.mem_cons_self
      refine ⟨⟨_, h.pending id hid, ?_⟩, ih (h.answer hid) ?_⟩
      · rw [List.count_cons_self]
        exact Nat.succ_pos _
      · exact fun other hother => hanswers other (List.mem_cons_of_mem id hother)

/-- No node is ready once as many are done as there are. -/
theorem Sound.ready_eq_nil (h : state.Sound waits done []) (hdone : waits.length ≤ done.length) :
    state.ready = [] := by
  have hsubset : done ++ state.ready ⊆ List.range waits.length := by
    intro id hid
    exact List.mem_range.mpr ((h.ready id).mp hid).1
  have hle := (h.nodup.subperm hsubset).length_le
  rw [List.length_append, List.length_range] at hle
  exact List.eq_nil_of_length_eq_zero (by omega)

/-- A ready node waits only for nodes that are done. -/
theorem Sound.awaited_done (h : state.Sound waits done []) {id : NodeId} (hid : id ∈ state.ready) :
    ∀ other ∈ waits.getD id [], other ∈ done := by
  have hnone := ((h.ready id).mp (List.mem_append_right done hid)).2
  simpa [remaining] using hnone

end SortState

/-- Nodes, the last one first, each of which waits only for nodes before it. -/
inductive Grounded (waits : List (List NodeId)) : List NodeId → Prop where
  | nil : Grounded waits []
  | cons {id : NodeId} {done : List NodeId} (awaited : ∀ other ∈ waits.getD id [], other ∈ done)
      (others : Grounded waits done) : Grounded waits (id :: done)

/-- A run of the sort to its end, with the nodes that it takes. No counter is at zero when it is
counted down. -/
inductive Visits (waits : List (List NodeId)) : SortState → List NodeId → SortState → Prop where
  | stop {state : SortState} (idle : state.ready = []) : Visits waits state [] state
  | visit {state final : SortState} {id : NodeId} {ready rest : List NodeId}
      (next : state.ready = id :: ready)
      (counts : SortState.CountsDown { state with ready, sorted := state.sorted + 1 }
        (dependents waits id))
      (others : Visits waits ((dependents waits id).foldl SortState.answer
        { state with ready, sorted := state.sorted + 1 }) rest final) :
      Visits waits state (id :: rest) final

theorem Visits.ready_eq_nil {waits : List (List NodeId)} {state final : SortState}
    {visited : List NodeId} (h : Visits waits state visited final) : final.ready = [] := by
  induction h with
  | stop idle => exact idle
  | visit _ _ _ ih => exact ih

/-- With fuel for the nodes that are not done the sort runs to its end. Its state stays sound, and the
nodes are done in an order in which none waits for a later one. -/
theorem sortLoop_visits {waits : List (List NodeId)} {done : List NodeId} {fuel : Nat}
    {state : SortState} (h : state.Sound waits done []) (grounded : Grounded waits done)
    (hfuel : waits.length ≤ done.length + fuel) :
    ∃ visited, Visits waits state visited (sortLoop waits fuel state) ∧
      (sortLoop waits fuel state).Sound waits (visited.reverse ++ done) [] ∧
      Grounded waits (visited.reverse ++ done) := by
  induction fuel generalizing done state with
  | zero => exact ⟨[], .stop (h.ready_eq_nil hfuel), h, grounded⟩
  | succ fuel ih =>
      cases hready : state.ready with
      | nil =>
          have hend : sortLoop waits (fuel + 1) state = state := by simp [sortLoop, hready]
          rw [hend]
          exact ⟨[], .stop hready, h, grounded⟩
      | cons id ready =>
          have hnext : sortLoop waits (fuel + 1) state =
              sortLoop waits fuel ((dependents waits id).foldl SortState.answer
                { state with ready, sorted := state.sorted + 1 }) := by
            simp [sortLoop, hready]
          have htaken := h.taken hready
          have hanswers : ∀ reader ∈ dependents waits id, reader < waits.length :=
            fun reader hreader => lt_length_of_mem_dependents hreader
          have hawaited := h.awaited_done (hready ▸ List.mem_cons_self)
          obtain ⟨visited, hvisits, hsound, hgrounded⟩ :=
            ih (htaken.foldl_answer hanswers) (.cons hawaited grounded)
              (by rw [List.length_cons]; omega)
          refine ⟨id :: visited, ?_, ?_, ?_⟩
          · rw [hnext]
            exact .visit hready (htaken.countsDown hanswers) hvisits
          · rw [hnext, List.reverse_cons, List.append_assoc]
            exact hsound
          · rw [List.reverse_cons, List.append_assoc]
            exact hgrounded

/-- The state before any node is sorted: each node waits for all its reads. -/
def SortState.start (waits : List (List NodeId)) : SortState :=
  { pending := waits.map List.length
    ready := (List.range waits.length).filter fun id => (waits.map List.length)[id]? = some 0 }

/-- Before the first node is sorted no read is answered. -/
theorem sound_start (waits : List (List NodeId)) :
    (SortState.start waits).Sound waits [] [] := by
  have hremaining : ∀ id, remaining waits [] id = (waits.getD id []).length := by
    intro id
    simp [remaining]
  have hpending : ∀ id < waits.length,
      (waits.map List.length)[id]? = some (remaining waits [] id) := by
    intro id hid
    simp [hremaining, hid]
  unfold SortState.start
  refine ⟨by simp, ?_, ?_, ?_, rfl⟩
  · simpa using hpending
  · intro id
    simp only [List.nil_append, List.mem_filter, List.mem_range, decide_eq_true_eq]
    refine and_congr_right fun hid => ?_
    rw [hpending id hid]
    simp
  · exact List.Nodup.filter _ List.nodup_range

/-- The sort of a graph stops with no node ready: it never runs out of fuel, as no node is sorted
twice. -/
theorem topologicalSort_visits (graph : Graph) :
    ∃ visited, Visits (graph.nodes.map graph.awaitedBy)
        (SortState.start (graph.nodes.map graph.awaitedBy)) visited graph.topologicalSort ∧
      graph.topologicalSort.Sound (graph.nodes.map graph.awaitedBy) visited.reverse [] ∧
      Grounded (graph.nodes.map graph.awaitedBy) visited.reverse := by
  obtain ⟨visited, hrun⟩ := sortLoop_visits (sound_start (graph.nodes.map graph.awaitedBy)) .nil
    (Nat.le_add_left _ _)
  rw [List.append_nil] at hrun
  exact ⟨visited, hrun⟩

end Graph

end FixedShape
