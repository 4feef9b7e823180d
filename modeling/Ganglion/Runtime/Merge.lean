import Ganglion.Lib.Local
import Ganglion.Runtime.StepLaw

/-!
# Merges commute

The ten commands without a guard and without a snapshot merge into the committed state: each is a local action on the
cells of the snapshot (`mergeAction`), with the generation as the counter it pays into. Beside its footprint, only
`RegisterResourceWithInitialAttribute` looks at another cell, the assignment of its resource, and no merge writes
assignments. So merges with disjoint footprints are independent (`independent_of_disjoint`), and
`merges_commute` follows.
-/

namespace Ganglion

open Std CoordinationSnapshot Applied

/-- The unguarded merge commands. -/
def MetadataRaftCommand.isMerge : MetadataRaftCommand → Bool
  | .applySnapshot _ => false
  | .applySnapshotGuarded _ _ => false
  | .updatePartitionGuarded _ _ _ => false
  | .compareAndSetAttributeGuarded _ _ _ _ => false
  | _ => true

theorem payload_of_isMerge {c : MetadataRaftCommand} (h : c.isMerge = true) : c.payload = none := by
  cases c <;> first | rfl | cases h

/-- The cells that decide what a command does: its footprint, and the assignment that a registration with an initial
attribute looks at. -/
def MetadataRaftCommand.consults : MetadataRaftCommand → List Cell
  | .registerResourceWithInitialAttribute resource key _ => [.resource resource, .attr key, .assignment resource]
  | c => c.footprint

theorem footprint_subset_consults (c : MetadataRaftCommand) : ∀ k ∈ c.footprint, k ∈ c.consults := by
  cases c with
  | registerResourceWithInitialAttribute r key value =>
    simp [MetadataRaftCommand.footprint, MetadataRaftCommand.consults]
  | _ => exact fun k hk => hk

/-- Merges look at assignments and write none. -/
theorem footprint_assignment {c : MetadataRaftCommand} (h : c.isMerge = true) (r : ResourceIdentity) :
    Cell.assignment r ∉ c.footprint := by
  cases c <;> simp_all [MetadataRaftCommand.footprint, MetadataRaftCommand.isMerge]

/-- What a merge consults beyond its footprint is an assignment. -/
theorem consults_cases {c : MetadataRaftCommand} {k : Cell} (h : k ∈ c.consults) :
    k ∈ c.footprint ∨ ∃ r, k = .assignment r := by
  cases c with
  | registerResourceWithInitialAttribute r key value =>
    simp only [MetadataRaftCommand.consults, List.mem_cons, List.not_mem_nil, or_false] at h
    simp only [MetadataRaftCommand.footprint, List.mem_cons, List.not_mem_nil, or_false]
    rcases h with h | h | h
    · exact .inl (.inl h)
    · exact .inl (.inr h)
    · exact .inr ⟨r, h⟩
  | _ => exact .inl h

/-! ## Commands decide by the cells they consult -/

/-- The two outcomes agree on the answer, the flag and the cells. -/
def Alike (cells : List Cell) (a b : Applied) : Prop :=
  a.rejection = b.rejection ∧ a.stateChanged = b.stateChanged ∧ ∀ k ∈ cells, a.state.cell k = b.state.cell k

section Self

variable (s : CoordinationSnapshot)

theorem cell_eraseNode_self (id : String) :
    ({ s with nodes := s.nodes.erase id } : CoordinationSnapshot).cell (.node id) = none :=
  ExtTreeMap.getElem?_erase_self

theorem cell_insertResource_self (r : ResourceIdentity) :
    ({ s with resources := s.resources.insert r } : CoordinationSnapshot).cell (.resource r) = true :=
  ExtTreeSet.contains_insert_self

theorem cell_eraseResource_self (r : ResourceIdentity) :
    ({ s with resources := s.resources.erase r } : CoordinationSnapshot).cell (.resource r) = false := by
  show (s.resources.erase r).contains r = false
  simp

theorem cell_insertAttribute_self (key value : String) :
    ({ s with attributes := s.attributes.insert key value } : CoordinationSnapshot).cell (.attr key) = some value :=
  ExtTreeMap.getElem?_insert_self

theorem cell_eraseAttribute_self (key : String) :
    ({ s with attributes := s.attributes.erase key } : CoordinationSnapshot).cell (.attr key) = none :=
  ExtTreeMap.getElem?_erase_self

end Self

section Alike

variable {s t : CoordinationSnapshot} {cells : List Cell}

theorem alike_reject (r : MetadataRejection) (h : ∀ k ∈ cells, s.cell k = t.cell k) :
    Alike cells (reject s r) (reject t r) := ⟨rfl, rfl, h⟩

theorem alike_silent (h : ∀ k ∈ cells, s.cell k = t.cell k) : Alike cells (silent s) (silent t) := ⟨rfl, rfl, h⟩

/-- The counter is not a cell. -/
theorem alike_bump (h : ∀ k ∈ cells, s.cell k = t.cell k) : Alike cells (bump s) (bump t) := by
  refine ⟨rfl, rfl, fun k hk => ?_⟩
  have hb : ∀ u : CoordinationSnapshot, (bump u).state.cell k = u.cell k := by
    intro u
    cases k <;> rfl
  rw [hb, hb, h k hk]

theorem forall_mem_pair_cell {k l : Cell} (hk : s.cell k = t.cell k) (hl : s.cell l = t.cell l) :
    ∀ m ∈ [k, l], s.cell m = t.cell m := by
  intro m hm
  rcases List.mem_pair.1 hm with rfl | rfl
  · exact hk
  · exact hl

theorem forall_mem_singleton_cell {k : Cell} (h : s.cell k = t.cell k) : ∀ m ∈ [k], s.cell m = t.cell m := by
  intro m hm
  rw [List.mem_singleton.1 hm]
  exact h

theorem mem_nodes_congr {id : String} (h : s.cell (.node id) = t.cell (.node id)) : id ∈ s.nodes ↔ id ∈ t.nodes := by
  rw [ExtTreeMap.mem_iff_isSome_getElem?, ExtTreeMap.mem_iff_isSome_getElem?]
  exact iff_of_eq (congrArg (fun o : Option NodeInfo => o.isSome = true) h)

theorem mem_resources_congr {r : ResourceIdentity} (h : s.cell (.resource r) = t.cell (.resource r)) :
    r ∈ s.resources ↔ r ∈ t.resources := by
  rw [← ExtTreeSet.contains_iff_mem, ← ExtTreeSet.contains_iff_mem]
  exact iff_of_eq (congrArg (· = true) h)

theorem getElem?_attributes_congr {key : String} (h : s.cell (.attr key) = t.cell (.attr key)) :
    s.attributes[key]? = t.attributes[key]? := h

theorem mem_attributes_congr {key : String} (h : s.cell (.attr key) = t.cell (.attr key)) :
    key ∈ s.attributes ↔ key ∈ t.attributes := by
  rw [ExtTreeMap.mem_iff_isSome_getElem?, ExtTreeMap.mem_iff_isSome_getElem?, getElem?_attributes_congr h]

theorem mem_assignments_congr {r : ResourceIdentity} (h : s.cell (.assignment r) = t.cell (.assignment r)) :
    r ∈ s.assignments ↔ r ∈ t.assignments := by
  rw [ExtTreeMap.mem_iff_isSome_getElem?, ExtTreeMap.mem_iff_isSome_getElem?]
  exact iff_of_eq (congrArg (fun o : Option PartitionAssignment => o.isSome = true) h)

theorem setIfExpected_congr {key : String} (h : s.cell (.attr key) = t.cell (.attr key)) (expected : Option String)
    (value : String) : Alike [.attr key] (setIfExpected s key expected value) (setIfExpected t key expected value) := by
  have hcell := forall_mem_singleton_cell h
  unfold setIfExpected
  rw [getElem?_attributes_congr h]
  dsimp only
  split
  · exact alike_reject _ hcell
  split
  · apply alike_bump
    apply forall_mem_singleton_cell
    rw [cell_insertAttribute_self, cell_insertAttribute_self]
  · exact alike_silent hcell

theorem deregisterIfExpected_congr {r : ResourceIdentity} {key : String}
    (hr : s.cell (.resource r) = t.cell (.resource r)) (h : s.cell (.attr key) = t.cell (.attr key))
    (expected retirement : Option String) :
    Alike [.resource r, .attr key] (deregisterIfExpected s r key expected retirement)
      (deregisterIfExpected t r key expected retirement) := by
  have hcell := forall_mem_pair_cell hr h
  have hmem : decide (r ∈ s.resources) = decide (r ∈ t.resources) := decide_eq_decide.2 (mem_resources_congr hr)
  have hres : (s.resources.erase r).contains r = (t.resources.erase r).contains r := by simp
  unfold deregisterIfExpected
  rw [getElem?_attributes_congr h, hmem]
  dsimp only
  split
  · exact alike_reject _ hcell
  cases retirement with
  | some value =>
    have hattr : (s.attributes.insert key value)[key]? = (t.attributes.insert key value)[key]? := by
      rw [ExtTreeMap.getElem?_insert_self, ExtTreeMap.getElem?_insert_self]
    dsimp only
    split
    · exact alike_bump (forall_mem_pair_cell hres hattr)
    · exact alike_silent (forall_mem_pair_cell hres hattr)
  | none =>
    have hattr : (s.attributes.erase key)[key]? = (t.attributes.erase key)[key]? := by
      rw [ExtTreeMap.getElem?_erase_self, ExtTreeMap.getElem?_erase_self]
    dsimp only
    split
    · exact alike_bump (forall_mem_pair_cell hres hattr)
    · exact alike_silent (forall_mem_pair_cell hres hattr)

theorem registerNode_congr {n : NodeInfo} (h : s.cell (.node n.nodeId) = t.cell (.node n.nodeId)) :
    Alike [.node n.nodeId] (applyCommand s (.registerNode n)) (applyCommand t (.registerNode n)) := by
  have hcell := forall_mem_singleton_cell h
  have hn : s.nodes[n.nodeId]? = t.nodes[n.nodeId]? := h
  have hout : (s.nodes.insert n.nodeId n)[n.nodeId]? = (t.nodes.insert n.nodeId n)[n.nodeId]? := by
    rw [ExtTreeMap.getElem?_insert_self, ExtTreeMap.getElem?_insert_self]
  simp only [applyCommand, hn]
  split
  · split
    · exact alike_silent hcell
    · split
      · exact alike_silent (forall_mem_singleton_cell hout)
      · exact alike_bump (forall_mem_singleton_cell hout)
  · exact alike_bump (forall_mem_singleton_cell hout)

theorem registerResourceWithInitialAttribute_congr {r : ResourceIdentity} {key : String}
    (hr : s.cell (.resource r) = t.cell (.resource r)) (h : s.cell (.attr key) = t.cell (.attr key))
    (ha : s.cell (.assignment r) = t.cell (.assignment r)) (value : String) :
    Alike [.resource r, .attr key] (applyCommand s (.registerResourceWithInitialAttribute r key value))
      (applyCommand t (.registerResourceWithInitialAttribute r key value)) := by
  simp only [applyCommand, mem_resources_congr hr, mem_assignments_congr ha]
  split
  · exact alike_silent (forall_mem_pair_cell hr h)
  · apply alike_bump
    apply forall_mem_pair_cell
    · show (s.resources.insert r).contains r = (t.resources.insert r).contains r
      rw [ExtTreeSet.contains_insert_self, ExtTreeSet.contains_insert_self]
    · -- the assigned resource keeps the attribute, which both snapshots agree on
      show (if r ∈ t.assignments then s.attributes else s.attributes.insert key value)[key]? =
        (if r ∈ t.assignments then t.attributes else t.attributes.insert key value)[key]?
      split
      · exact h
      · rw [ExtTreeMap.getElem?_insert_self, ExtTreeMap.getElem?_insert_self]

end Alike

/-- **A merge does the same on two snapshots that agree on what it consults.** -/
theorem applyCommand_congr {s t : CoordinationSnapshot} {c : MetadataRaftCommand} (hm : c.isMerge = true)
    (h : ∀ k ∈ c.consults, s.cell k = t.cell k) : Alike c.footprint (applyCommand s c) (applyCommand t c) := by
  have hcell : ∀ k ∈ c.footprint, s.cell k = t.cell k := fun k hk => h k (footprint_subset_consults c k hk)
  cases c with
  | applySnapshot snapshot => cases hm
  | applySnapshotGuarded g snapshot => cases hm
  | updatePartitionGuarded g a attributes => cases hm
  | compareAndSetAttributeGuarded g key expected value => cases hm
  | registerNode n => exact registerNode_congr (hcell _ (List.mem_singleton.2 rfl))
  | deregisterNode id =>
    simp only [applyCommand, mem_nodes_congr (hcell _ (List.mem_singleton.2 rfl))]
    split
    · apply alike_bump
      apply forall_mem_singleton_cell
      rw [cell_eraseNode_self, cell_eraseNode_self]
    · exact alike_silent hcell
  | registerResource r =>
    simp only [applyCommand, mem_resources_congr (hcell _ (List.mem_singleton.2 rfl))]
    split
    · exact alike_silent hcell
    · apply alike_bump
      apply forall_mem_singleton_cell
      rw [cell_insertResource_self, cell_insertResource_self]
  | registerResourceWithInitialAttribute r key value =>
    have hr := h (.resource r) (by simp [MetadataRaftCommand.consults])
    have hk := h (.attr key) (by simp [MetadataRaftCommand.consults])
    have ha := h (.assignment r) (by simp [MetadataRaftCommand.consults])
    exact registerResourceWithInitialAttribute_congr hr hk ha value
  | deregisterResource r =>
    simp only [applyCommand, mem_resources_congr (hcell _ (List.mem_singleton.2 rfl))]
    split
    · apply alike_bump
      apply forall_mem_singleton_cell
      rw [cell_eraseResource_self, cell_eraseResource_self]
    · exact alike_silent hcell
  | deregisterResourceWithAttribute r key expected =>
    exact deregisterIfExpected_congr (hcell _ (List.mem_pair.2 (.inl rfl))) (hcell _ (List.mem_pair.2 (.inr rfl)))
      expected none
  | deregisterResourceReplacingAttribute r key expected value =>
    exact deregisterIfExpected_congr (hcell _ (List.mem_pair.2 (.inl rfl))) (hcell _ (List.mem_pair.2 (.inr rfl)))
      expected (some value)
  | setAttribute key value =>
    simp only [applyCommand, getElem?_attributes_congr (hcell _ (List.mem_singleton.2 rfl))]
    split
    · apply alike_bump
      apply forall_mem_singleton_cell
      rw [cell_insertAttribute_self, cell_insertAttribute_self]
    · exact alike_silent hcell
  | removeAttribute key =>
    simp only [applyCommand, mem_attributes_congr (hcell _ (List.mem_singleton.2 rfl))]
    split
    · apply alike_bump
      apply forall_mem_singleton_cell
      rw [cell_eraseAttribute_self, cell_eraseAttribute_self]
    · exact alike_silent hcell
  | compareAndSetAttribute key expected value =>
    exact setIfExpected_congr (hcell _ (List.mem_singleton.2 rfl)) expected value

/-! ## Merges as local actions -/

/-- The snapshot as cells beside the generation. -/
def snapshotStore : Local.Store CoordinationSnapshot Cell Cell.Value UInt64 where
  cell := CoordinationSnapshot.cell
  count := (·.generation)
  ext _ _ := CoordinationSnapshot.ext_cell

/-- A merge command. -/
abbrev Merge := { c : MetadataRaftCommand // c.isMerge = true }

/-- The action of a merge on the snapshot, answered by its rejection. -/
def mergeAction (c : Merge) : Local.Action snapshotStore (Option MetadataRejection) where
  step s := commit s c.1
  answer s := (applyCommand s c.1).rejection
  cost s := if (applyCommand s c.1).stateChanged then 1 else 0
  reads k := k ∈ c.1.consults
  writes k := k ∈ c.1.footprint
  writes_reads := footprint_subset_consults c.1
  frame _ _ hk := commit_frame (payload_of_isMerge c.2) hk
  cell_congr _ _ h := (applyCommand_congr c.2 h).2.2
  answer_congr _ _ h := (applyCommand_congr c.2 h).1
  cost_congr _ _ h := by rw [(applyCommand_congr c.2 h).2.1]
  count_step _ := commit_generation (payload_of_isMerge c.2)

/-- Merges with disjoint footprints are independent. -/
theorem independent_of_disjoint {c d : Merge} (h : c.1.footprint.Disjoint d.1.footprint) :
    (mergeAction c).Independent (mergeAction d) := by
  have key : ∀ {a b : Merge}, a.1.footprint.Disjoint b.1.footprint → ∀ k ∈ a.1.footprint, k ∉ b.1.consults := by
    intro a b hd k hk hb
    obtain hf | ⟨r, rfl⟩ := consults_cases hb
    · exact hd hk hf
    · exact footprint_assignment a.2 r hk
  exact ⟨key h, key fun k hd hc => h hc hd⟩

/-- **Merges with disjoint footprints commute** and are answered alike in both orders; so any order of pairwise
independent merges ends in the same snapshot. -/
theorem merges_commute :
    (∀ (s : CoordinationSnapshot) (c d : Merge), c.1.footprint.Disjoint d.1.footprint →
      commit (commit s c.1) d.1 = commit (commit s d.1) c.1 ∧
        (applyCommand (commit s d.1) c.1).rejection = (applyCommand s c.1).rejection ∧
        (applyCommand (commit s c.1) d.1).rejection = (applyCommand s d.1).rejection) ∧
    ∀ (s : CoordinationSnapshot) (cs ds : List Merge), cs.Perm ds →
      (cs.Pairwise fun c d => c.1.footprint.Disjoint d.1.footprint) →
      cs.foldl (fun s c => commit s c.1) s = ds.foldl (fun s c => commit s c.1) s := by
  constructor
  · intro s c d h
    have hi := independent_of_disjoint h
    exact ⟨Local.Action.step_comm hi s, Local.Action.answer_after hi s, Local.Action.answer_after hi.symm s⟩
  · intro s cs ds hp h
    exact Local.Action.foldl_perm mergeAction hp (h.imp independent_of_disjoint) s

/-- A registration with its initial attribute beside a deregistration of another resource. -/
theorem merges_commute_registrations :
    let c : Merge := ⟨.registerResourceWithInitialAttribute ⟨"q", "a", 0, none⟩ "a/incarnation" "1", rfl⟩
    let d : Merge := ⟨.deregisterResourceWithAttribute ⟨"q", "b", 0, none⟩ "b/incarnation" none, rfl⟩
    c.1.footprint.Disjoint d.1.footprint ∧
      commit (commit .default c.1) d.1 = commit (commit .default d.1) c.1 ∧
      [c, d].foldl (fun s c => commit s c.1) .default = [d, c].foldl (fun s c => commit s c.1) .default := by
  intro c d
  have h : c.1.footprint.Disjoint d.1.footprint := by simp [c, d, MetadataRaftCommand.footprint]
  have hpair : [c, d].Pairwise fun c d => c.1.footprint.Disjoint d.1.footprint := by simpa using h
  exact ⟨h, (merges_commute.1 .default c d h).1, merges_commute.2 .default [c, d] [d, c] (.swap d c []) hpair⟩

end Ganglion
