import Ganglion.Runtime.StateMachine

/-!
# The law of one command

What a committed command may change, cell by cell, and when it moves the generation.

* `Cell` names a place of the snapshot, `footprint` the places a command names. `commit_frame`: a command that does not
  replace the snapshot leaves every other place.
* `raises_changes`: a merge or attribute command that raises the generation changes the topology, the converse of
  `commit_cases`.
* `StepLaw` collects what one applied entry does (`applyEntry_stepLaw`).
* `commit_again`: a command committed twice in a row leaves what it leaves once (`apply_retry`).
-/

namespace Ganglion

open Std CoordinationSnapshot Applied

/-! ## Cells -/

/-- A place of the snapshot. -/
inductive Cell where
  | node (id : String)
  | resource (resource : ResourceIdentity)
  | attr (key : String)
  | assignment (resource : ResourceIdentity)
  deriving DecidableEq

/-- What a cell holds. -/
def Cell.Value : Cell → Type
  | .node _ => Option NodeInfo
  | .resource _ => Bool
  | .attr _ => Option String
  | .assignment _ => Option PartitionAssignment

/-- The content of a cell. -/
def CoordinationSnapshot.cell (s : CoordinationSnapshot) : (k : Cell) → k.Value
  | .node id => s.nodes[id]?
  | .resource r => s.resources.contains r
  | .attr key => s.attributes[key]?
  | .assignment r => s.assignments[r]?

/-- Cells and generation make the snapshot. -/
theorem CoordinationSnapshot.ext_cell {s t : CoordinationSnapshot} (h : ∀ k, s.cell k = t.cell k)
    (hg : s.generation = t.generation) : s = t := by
  have hn : s.nodes = t.nodes := ExtTreeMap.ext_getElem? fun id => h (.node id)
  have ha : s.assignments = t.assignments := ExtTreeMap.ext_getElem? fun r => h (.assignment r)
  have hr : s.resources = t.resources := ExtTreeSet.ext_contains fun r => h (.resource r)
  have ht : s.attributes = t.attributes := ExtTreeMap.ext_getElem? fun key => h (.attr key)
  cases s; cases t
  simp_all

/-- The cells a command names. A replace names none: it installs all of them. -/
def MetadataRaftCommand.footprint : MetadataRaftCommand → List Cell
  | .applySnapshot _ => []
  | .applySnapshotGuarded _ _ => []
  | .updatePartitionGuarded _ assignment attributes =>
    .assignment assignment.resource :: attributes.keys.map .attr
  | .registerNode node => [.node node.nodeId]
  | .deregisterNode nodeId => [.node nodeId]
  | .registerResource resource => [.resource resource]
  | .registerResourceWithInitialAttribute resource key _ => [.resource resource, .attr key]
  | .deregisterResource resource => [.resource resource]
  | .deregisterResourceWithAttribute resource key _ => [.resource resource, .attr key]
  | .setAttribute key _ => [.attr key]
  | .removeAttribute key => [.attr key]
  | .compareAndSetAttribute key _ _ => [.attr key]
  | .compareAndSetAttributeGuarded _ key _ _ => [.attr key]
  | .deregisterResourceReplacingAttribute resource key _ _ => [.resource resource, .attr key]

/-! ## Writes to one cell -/

section Writes

variable (s : CoordinationSnapshot) (k : Cell)

theorem cell_insertNode (n : NodeInfo) (hk : k ≠ .node n.nodeId) :
    ({ s with nodes := s.nodes.insert n.nodeId n } : CoordinationSnapshot).cell k = s.cell k := by
  cases k with
  | node id => exact OrdMap.getElem?_insert_ne fun he => hk (by rw [he])
  | _ => rfl

theorem cell_eraseNode (id : String) (hk : k ≠ .node id) :
    ({ s with nodes := s.nodes.erase id } : CoordinationSnapshot).cell k = s.cell k := by
  cases k with
  | node id' => exact OrdMap.getElem?_erase_ne fun he => hk (by rw [he])
  | _ => rfl

theorem cell_insertResource (r : ResourceIdentity) (hk : k ≠ .resource r) :
    ({ s with resources := s.resources.insert r } : CoordinationSnapshot).cell k = s.cell k := by
  cases k with
  | resource r' => exact OrdMap.contains_insert_ne fun he => hk (by rw [he])
  | _ => rfl

theorem cell_eraseResource (r : ResourceIdentity) (hk : k ≠ .resource r) :
    ({ s with resources := s.resources.erase r } : CoordinationSnapshot).cell k = s.cell k := by
  cases k with
  | resource r' => exact OrdMap.contains_erase_ne fun he => hk (by rw [he])
  | _ => rfl

theorem cell_insertAttribute (key value : String) (hk : k ≠ .attr key) :
    ({ s with attributes := s.attributes.insert key value } : CoordinationSnapshot).cell k = s.cell k := by
  cases k with
  | attr key' => exact OrdMap.getElem?_insert_ne fun he => hk (by rw [he])
  | _ => rfl

theorem cell_eraseAttribute (key : String) (hk : k ≠ .attr key) :
    ({ s with attributes := s.attributes.erase key } : CoordinationSnapshot).cell k = s.cell k := by
  cases k with
  | attr key' => exact OrdMap.getElem?_erase_ne fun he => hk (by rw [he])
  | _ => rfl

theorem cell_insertAssignment (a : PartitionAssignment) (hk : k ≠ .assignment a.resource) :
    ({ s with assignments := s.assignments.insert a.resource a } : CoordinationSnapshot).cell k = s.cell k := by
  cases k with
  | assignment r => exact OrdMap.getElem?_insert_ne fun he => hk (by rw [he])
  | _ => rfl

end Writes

/-- The attributes of a publication touch only their own keys. -/
theorem getElem?_mergeAttributes (m : BTreeMap String String) {updates : BTreeMap String (Option String)} {key : String}
    (hk : key ∉ updates) : (mergeAttributes m updates)[key]? = m[key]? := by
  have hk' : ∀ p ∈ updates.toList, p.1 ≠ key := by
    rintro ⟨a, v⟩ hp rfl
    apply hk
    rw [ExtTreeMap.mem_iff_isSome_getElem?, ExtTreeMap.mem_toList_iff_getElem?_eq_some.1 hp]
    rfl
  unfold mergeAttributes
  generalize updates.toList = ps at hk'
  induction ps generalizing m with
  | nil => rfl
  | cons p ps ih =>
    rw [List.foldl_cons, ih _ fun q hq => hk' q (List.mem_cons_of_mem p hq)]
    have hp := hk' p List.mem_cons_self
    split
    · simp [ExtTreeMap.getElem?_insert, hp]
    · simp [ExtTreeMap.getElem?_erase, hp]

/-! ## The frame of a command -/

theorem setIfExpected_frame {s : CoordinationSnapshot} {key : String} {k : Cell} (hk : k ≠ .attr key)
    (expected : Option String) (value : String) : (setIfExpected s key expected value).state.cell k = s.cell k := by
  unfold setIfExpected
  dsimp only
  split
  · rfl
  · split
    · exact cell_insertAttribute s k key value hk
    · rfl

theorem deregisterIfExpected_frame {s : CoordinationSnapshot} {r : ResourceIdentity} {key : String} {k : Cell}
    (hr : k ≠ .resource r) (hk : k ≠ .attr key) (expected retirement : Option String) :
    (deregisterIfExpected s r key expected retirement).state.cell k = s.cell k := by
  unfold deregisterIfExpected
  dsimp only
  split
  · rfl
  cases retirement with
  | some value =>
    have h := (cell_insertAttribute { s with resources := s.resources.erase r } k key value hk).trans
      (cell_eraseResource s k r hr)
    dsimp only
    split <;> exact h
  | none =>
    have h := (cell_eraseAttribute { s with resources := s.resources.erase r } k key hk).trans
      (cell_eraseResource s k r hr)
    dsimp only
    split <;> exact h

theorem updatePartitionGuarded_frame {s : CoordinationSnapshot} {a : PartitionAssignment}
    {attributes : BTreeMap String (Option String)} {k : Cell} (g : UInt64) (ha : k ≠ .assignment a.resource)
    (hk : ∀ key ∈ attributes, k ≠ .attr key) :
    (applyCommand s (.updatePartitionGuarded g a attributes)).state.cell k = s.cell k := by
  simp only [applyCommand]
  split
  · rfl
  cases k with
  | assignment r => exact cell_insertAssignment s _ a ha
  | attr key => exact getElem?_mergeAttributes _ fun hm => hk key hm rfl
  | _ => rfl

theorem registerNode_frame {s : CoordinationSnapshot} {n : NodeInfo} {k : Cell} (hk : k ≠ .node n.nodeId) :
    (applyCommand s (.registerNode n)).state.cell k = s.cell k := by
  have h := cell_insertNode s k n hk
  simp only [applyCommand]
  split
  · split
    · rfl
    · split <;> exact h
  · exact h

/-- **A command that does not replace the snapshot leaves every cell it does not name.** -/
theorem commit_frame {s : CoordinationSnapshot} {c : MetadataRaftCommand} (hc : c.payload = none) {k : Cell}
    (hk : k ∉ c.footprint) : (commit s c).cell k = s.cell k := by
  unfold commit
  cases c with
  | applySnapshot snapshot => cases hc
  | applySnapshotGuarded g snapshot => cases hc
  | updatePartitionGuarded g a attributes =>
    simp only [MetadataRaftCommand.footprint, List.mem_cons, List.mem_map, not_or, not_exists, not_and] at hk
    exact updatePartitionGuarded_frame g hk.1 fun key hm he => hk.2 key (ExtTreeMap.mem_keys.2 hm) he.symm
  | registerNode n =>
    simp only [MetadataRaftCommand.footprint, List.mem_singleton] at hk
    exact registerNode_frame hk
  | deregisterNode id =>
    simp only [MetadataRaftCommand.footprint, List.mem_singleton] at hk
    simp only [applyCommand]
    split
    · exact cell_eraseNode s k id hk
    · rfl
  | registerResource r =>
    simp only [MetadataRaftCommand.footprint, List.mem_singleton] at hk
    simp only [applyCommand]
    split
    · rfl
    · exact cell_insertResource s k r hk
  | registerResourceWithInitialAttribute r key value =>
    simp only [MetadataRaftCommand.footprint, List.mem_cons, List.not_mem_nil, or_false, not_or] at hk
    simp only [applyCommand]
    split
    · rfl
    split
    · exact cell_insertResource s k r hk.1
    · exact (cell_insertResource { s with attributes := s.attributes.insert key value } k r hk.1).trans
        (cell_insertAttribute s k key value hk.2)
  | deregisterResource r =>
    simp only [MetadataRaftCommand.footprint, List.mem_singleton] at hk
    simp only [applyCommand]
    split
    · exact cell_eraseResource s k r hk
    · rfl
  | deregisterResourceWithAttribute r key expected =>
    simp only [MetadataRaftCommand.footprint, List.mem_cons, List.not_mem_nil, or_false, not_or] at hk
    exact deregisterIfExpected_frame hk.1 hk.2 expected none
  | deregisterResourceReplacingAttribute r key expected value =>
    simp only [MetadataRaftCommand.footprint, List.mem_cons, List.not_mem_nil, or_false, not_or] at hk
    exact deregisterIfExpected_frame hk.1 hk.2 expected (some value)
  | setAttribute key value =>
    simp only [MetadataRaftCommand.footprint, List.mem_singleton] at hk
    simp only [applyCommand]
    split
    · exact cell_insertAttribute s k key value hk
    · rfl
  | removeAttribute key =>
    simp only [MetadataRaftCommand.footprint, List.mem_singleton] at hk
    simp only [applyCommand]
    split
    · exact cell_eraseAttribute s k key hk
    · rfl
  | compareAndSetAttributeGuarded g key expected value =>
    simp only [MetadataRaftCommand.footprint, List.mem_singleton] at hk
    simp only [applyCommand]
    split
    · rfl
    · exact setIfExpected_frame hk expected value
  | compareAndSetAttribute key expected value =>
    simp only [MetadataRaftCommand.footprint, List.mem_singleton] at hk
    exact setIfExpected_frame hk expected value

/-! ## When the generation moves -/

/-- The command `UpdatePartitionGuarded`. -/
def MetadataRaftCommand.publishesPartition : MetadataRaftCommand → Bool
  | .updatePartitionGuarded _ _ _ => true
  | _ => false

/-- A command that does not replace the snapshot raises the generation with the flag. -/
theorem commit_generation {s : CoordinationSnapshot} {c : MetadataRaftCommand} (hc : c.payload = none) :
    (commit s c).generation = s.generation + if (applyCommand s c).stateChanged then 1 else 0 := by
  unfold commit
  have ho := applyCommand_outcome s c
  generalize applyCommand s c = a at ho
  cases ho with
  | rejected r => simp [reject]
  | silent t hg _ _ => simp [silent, hg]
  | bumped t hg _ => simp [bump, hg]
  | replaced t hp _ =>
    rw [hc] at hp
    cases hp

/-- Without the flag the topology stays. -/
theorem sameTopology_of_not_changed {s : CoordinationSnapshot} {c : MetadataRaftCommand}
    (h : (applyCommand s c).stateChanged = false) : SameTopology s (commit s c) := by
  unfold commit
  have ho := applyCommand_outcome s c
  generalize applyCommand s c = a at ho h
  cases ho with
  | rejected r => exact .refl s
  | silent t _ hst _ => exact hst
  | bumped t _ _ => cases h
  | replaced t _ _ => cases h

theorem insert_resource_ne {s : CoordinationSnapshot} {r : ResourceIdentity} (h : r ∉ s.resources) :
    s.resources ≠ s.resources.insert r := by
  intro he
  apply h
  rw [he]
  exact ExtTreeSet.mem_insert_self

theorem erase_resource_ne {s : CoordinationSnapshot} {r : ResourceIdentity} (h : r ∈ s.resources) :
    s.resources ≠ s.resources.erase r := by
  intro he
  rw [he] at h
  simp at h

theorem insert_attribute_ne {s : CoordinationSnapshot} {key value : String} (h : s.attributes[key]? ≠ some value) :
    s.attributes ≠ s.attributes.insert key value := by
  intro he
  apply h
  rw [he, ExtTreeMap.getElem?_insert_self]

theorem erase_attribute_ne {s : CoordinationSnapshot} {key : String} (h : key ∈ s.attributes) :
    s.attributes ≠ s.attributes.erase key := by
  intro he
  rw [he] at h
  simp at h

theorem setIfExpected_changes {s : CoordinationSnapshot} {key : String} {expected : Option String} {value : String}
    (h : (setIfExpected s key expected value).stateChanged = true) :
    ¬SameTopology s (setIfExpected s key expected value).state := by
  unfold setIfExpected at h ⊢
  dsimp only at h ⊢
  split at h
  · cases h
  split at h
  · rename_i he hv
    rw [if_neg he, if_pos hv]
    exact fun hst => insert_attribute_ne hv hst.attributes
  · cases h

theorem deregisterIfExpected_changes {s : CoordinationSnapshot} {r : ResourceIdentity} {key : String}
    {expected retirement : Option String} (h : (deregisterIfExpected s r key expected retirement).stateChanged = true) :
    ¬SameTopology s (deregisterIfExpected s r key expected retirement).state := by
  unfold deregisterIfExpected at h ⊢
  dsimp only at h ⊢
  split at h
  · cases h
  rename_i he
  rw [if_neg he]
  intro hst
  -- either half of the branch alone shows in the topology
  cases retirement with
  | some value =>
    dsimp only at h hst
    split at h
    · rename_i hb
      rw [if_pos hb] at hst
      simp only [Bool.or_eq_true, decide_eq_true_eq] at hb
      rcases hb with hr | hv
      · exact erase_resource_ne hr hst.resources
      · exact insert_attribute_ne hv hst.attributes
    · cases h
  | none =>
    dsimp only at h hst
    split at h
    · rename_i hb
      rw [if_pos hb] at hst
      simp only [Bool.or_eq_true, decide_eq_true_eq] at hb
      rcases hb with hr | hk
      · exact erase_resource_ne hr hst.resources
      · exact erase_attribute_ne (ExtTreeMap.mem_iff_isSome_getElem?.2 hk) hst.attributes
    · cases h

/-- A node record under a new address shows in the topology. -/
theorem insertNode_changes {s : CoordinationSnapshot} {n : NodeInfo}
    (h : ∀ existing, s.nodes[n.nodeId]? = some existing →
      ¬(existing.endpoint = n.endpoint ∧ existing.adminEndpoint = n.adminEndpoint)) :
    ¬SameTopology s { s with nodes := s.nodes.insert n.nodeId n, generation := s.generation + 1 } := by
  intro hst
  cases hn : s.nodes[n.nodeId]? with
  | none =>
    have hk := (hst.nodeKeys n.nodeId).2 ExtTreeMap.mem_insert_self
    rw [ExtTreeMap.mem_iff_isSome_getElem?, hn] at hk
    cases hk
  | some existing => exact h existing hn (hst.endpoints n.nodeId existing n hn ExtTreeMap.getElem?_insert_self)

theorem registerNode_changes {s : CoordinationSnapshot} {n : NodeInfo}
    (h : (applyCommand s (.registerNode n)).stateChanged = true) :
    ¬SameTopology s (applyCommand s (.registerNode n)).state := by
  simp only [applyCommand] at h ⊢
  split at h
  · rename_i existing hn
    split at h
    · cases h
    split at h
    · cases h
    rename_i he ha
    simp only [if_neg he, if_neg ha]
    refine insertNode_changes fun e he' => ?_
    rw [hn] at he'
    cases he'
    exact ha
  · rename_i hn
    refine insertNode_changes fun e he => ?_
    rw [hn] at he
    cases he

/-- **A command that raises the generation changes the topology**, a publication and a replace apart. -/
theorem raises_changes {s : CoordinationSnapshot} {c : MetadataRaftCommand} (hc : c.payload = none)
    (hu : c.publishesPartition = false) (h : (applyCommand s c).stateChanged = true) :
    ¬SameTopology s (commit s c) := by
  unfold commit
  cases c with
  | applySnapshot snapshot => cases hc
  | applySnapshotGuarded g snapshot => cases hc
  | updatePartitionGuarded g a attributes => cases hu
  | registerNode n => exact registerNode_changes h
  | deregisterNode id =>
    simp only [applyCommand] at h ⊢
    split at h
    · rename_i hm
      rw [if_pos hm]
      intro hst
      have := (hst.nodeKeys id).1 hm
      simp [bump] at this
    · cases h
  | registerResource r =>
    simp only [applyCommand] at h ⊢
    split at h
    · cases h
    · rename_i hr
      rw [if_neg hr]
      exact fun hst => insert_resource_ne hr hst.resources
  | registerResourceWithInitialAttribute r key value =>
    simp only [applyCommand] at h ⊢
    split at h
    · cases h
    · rename_i hr
      rw [if_neg hr]
      exact fun hst => insert_resource_ne hr hst.resources
  | deregisterResource r =>
    simp only [applyCommand] at h ⊢
    split at h
    · rename_i hr
      rw [if_pos hr]
      exact fun hst => erase_resource_ne hr hst.resources
    · cases h
  | deregisterResourceWithAttribute r key expected => exact deregisterIfExpected_changes h
  | deregisterResourceReplacingAttribute r key expected value => exact deregisterIfExpected_changes h
  | setAttribute key value =>
    simp only [applyCommand] at h ⊢
    split at h
    · rename_i hv
      rw [if_pos hv]
      exact fun hst => insert_attribute_ne hv hst.attributes
    · cases h
  | removeAttribute key =>
    simp only [applyCommand] at h ⊢
    split at h
    · rename_i hk
      rw [if_pos hk]
      exact fun hst => erase_attribute_ne hk hst.attributes
    · cases h
  | compareAndSetAttributeGuarded g key expected value =>
    simp only [applyCommand] at h ⊢
    split at h
    · cases h
    · rename_i hg
      rw [if_neg hg]
      exact setIfExpected_changes h
  | compareAndSetAttribute key expected value => exact setIfExpected_changes h

/-! ## The law -/

/-- What applying `c` on `s` may do: `t` is the state it leaves and `reply` its reply. -/
structure StepLaw (s : CoordinationSnapshot) (c : MetadataRaftCommand) (t : CoordinationSnapshot)
    (reply : MetadataRaftResponse) : Prop where
  answer : reply.accepted = reply.rejection.isNone
  rejected : reply.rejection ≠ none → t = s
  changed : reply.rejection = none → c.payload = none → c.publishesPartition = false → ¬SameTopology s t →
    gen t = gen s + 1
  unchanged : reply.rejection = none → c.payload = none → c.publishesPartition = false → SameTopology s t →
    gen t = gen s
  published : reply.rejection = none → c.publishesPartition = true → gen t = gen s + 1
  replaced : reply.rejection = none → ∀ p, c.payload = some p → t = p ∧ s.generation ≤ p.generation
  frame : c.payload = none → ∀ k, k ∉ c.footprint → t.cell k = s.cell k
  snapshot : reply.snapshot = t

/-- An accepted publication raises the flag. -/
theorem publishes_changed {s : CoordinationSnapshot} {c : MetadataRaftCommand} (hu : c.publishesPartition = true)
    (ha : Accepted s c) : c.payload = none ∧ (applyCommand s c).stateChanged = true := by
  unfold Accepted at ha
  cases c with
  | updatePartitionGuarded g a attributes =>
    refine ⟨rfl, ?_⟩
    simp only [applyCommand] at ha ⊢
    split
    · rename_i hg
      rw [if_pos hg] at ha
      cases ha
    · rfl
  | _ => cases hu

/-- The flag is worth one generation below the maximum. -/
theorem gen_commit {s : CoordinationSnapshot} {c : MetadataRaftCommand} (hc : c.payload = none)
    (hg : s.generation < u64Max) :
    gen (commit s c) = gen s + if (applyCommand s c).stateChanged then 1 else 0 := by
  rw [gen, gen, commit_generation hc]
  split
  · exact toNat_add_one hg
  · simp

/-- **One applied command obeys the law**, on every state below the last generation. -/
theorem applyEntry_stepLaw (inner : StateMachineInner) (id : LogId) (c : MetadataRaftCommand)
    (hg : inner.state.generation < u64Max) :
    StepLaw inner.state c (applyEntry inner ⟨id, .normal c⟩).1.state (applyEntry inner ⟨id, .normal c⟩).2.2 where
  answer := rfl
  rejected hr := commit_rejected hr
  changed _ hc _ hst := by
    have hch : (applyCommand inner.state c).stateChanged = true := by
      by_contra hn
      exact hst (sameTopology_of_not_changed (Bool.eq_false_iff.2 hn))
    exact (gen_commit hc hg).trans (by rw [if_pos hch])
  unchanged _ hc hu hst := by
    have hch : ¬(applyCommand inner.state c).stateChanged = true := fun h => raises_changes hc hu h hst
    exact (gen_commit hc hg).trans (by rw [if_neg hch]; rfl)
  published ha hu := by
    obtain ⟨hc, hch⟩ := publishes_changed hu ha
    exact (gen_commit hc hg).trans (by rw [if_pos hch])
  replaced ha p hp := by
    have he : commit inner.state c = p := commit_of_payload hp ha
    refine ⟨he, ?_⟩
    obtain ⟨hn, _⟩ | ⟨_, hc, _⟩ | ⟨_, hc, _⟩ | ⟨_, _, hle⟩ := commit_cases inner.state c
    · exact absurd ha hn
    · rw [hp] at hc
      cases hc
    · rw [hp] at hc
      cases hc
    · rwa [he] at hle
  frame hc _ hk := commit_frame hc hk
  snapshot := rfl

/-- The law on the first registration of a node. -/
theorem applyEntry_stepLaw_register :
    StateMachineInner.default.state.generation < u64Max ∧
      StepLaw .default (.registerNode (.new "a" "a:1" none))
        (applyEntry .default ⟨⟨⟨1, 1⟩, 1⟩, .normal (.registerNode (.new "a" "a:1" none))⟩).1.state
        (applyEntry .default ⟨⟨⟨1, 1⟩, 1⟩, .normal (.registerNode (.new "a" "a:1" none))⟩).2.2 :=
  ⟨by decide, applyEntry_stepLaw .default _ _ (by decide)⟩

/-! ## Retries -/

/-- A guarded command does nothing outside the generation it expects. -/
theorem commit_stale {s : CoordinationSnapshot} {c : MetadataRaftCommand} {g : UInt64}
    (hc : c.expectedGeneration = some g) (h : s.generation ≠ g) : commit s c = s :=
  commit_rejected fun ha => h (generation_of_accepted hc ha)

/-- A guarded command that raised the generation has left the one it expects. -/
theorem commit_bumped {s t : CoordinationSnapshot} {c : MetadataRaftCommand}
    (hc : c.expectedGeneration = some s.generation) (ht : t.generation = s.generation + 1) : commit t c = t := by
  apply commit_stale hc
  rw [ht]
  simp

theorem replaceSnapshot_again (s t : CoordinationSnapshot) :
    (replaceSnapshot (replaceSnapshot s t).state t).state = (replaceSnapshot s t).state := by
  by_cases h : t.generation < s.generation
  · have hs : (replaceSnapshot s t).state = s := by simp [replaceSnapshot, h, reject]
    rw [hs, hs]
  · have ht : (replaceSnapshot s t).state = t := by simp [replaceSnapshot, h]
    rw [ht]
    simp [replaceSnapshot]

/-- An attribute that holds the value already. -/
theorem setIfExpected_done {s : CoordinationSnapshot} {key value : String} (h : s.attributes[key]? = some value)
    (expected : Option String) : (setIfExpected s key expected value).state = s := by
  unfold setIfExpected
  dsimp only
  split
  · rfl
  · rw [if_neg (not_not.2 h)]
    rfl

/-- A resource that is gone, with the attribute in its final value. -/
theorem deregisterIfExpected_done {s : CoordinationSnapshot} {r : ResourceIdentity} {key : String}
    {retirement : Option String} (hr : r ∉ s.resources) (h : s.attributes[key]? = retirement)
    (expected : Option String) : (deregisterIfExpected s r key expected retirement).state = s := by
  unfold deregisterIfExpected
  dsimp only
  split
  · rfl
  cases retirement with
  | some value => simp [hr, h, silent, erase_resource hr, OrdMap.insert_eq_self h]
  | none => simp [hr, h, silent, erase_resource hr, OrdMap.erase_eq_self h]

theorem setIfExpected_again (s : CoordinationSnapshot) (key : String) (expected : Option String) (value : String) :
    (setIfExpected (setIfExpected s key expected value).state key expected value).state =
      (setIfExpected s key expected value).state := by
  by_cases he : s.attributes[key]? = expected
  · apply setIfExpected_done
    by_cases hv : s.attributes[key]? = some value
    · rw [setIfExpected_done hv]
      exact hv
    · rw [setIfExpected]
      simp only [he, ne_eq, not_true, if_false]
      rw [if_pos (he ▸ hv)]
      exact ExtTreeMap.getElem?_insert_self
  · have hs : (setIfExpected s key expected value).state = s := by
      rw [setIfExpected]
      simp [he, reject]
    rw [hs, hs]

/-- The attribute does not hold what the deregistration expects. -/
theorem deregisterIfExpected_rejected {s : CoordinationSnapshot} {key : String} {expected : Option String}
    (h : s.attributes[key]? ≠ expected) (r : ResourceIdentity) (retirement : Option String) :
    deregisterIfExpected s r key expected retirement = reject s (.attributeMismatch key s.attributes[key]?) := by
  simp [deregisterIfExpected, h]

/-- The attribute holds what the deregistration expects: the resource goes, and the attribute is retired. -/
theorem deregisterIfExpected_effect {s : CoordinationSnapshot} {key : String} {expected : Option String}
    (h : s.attributes[key]? = expected) (r : ResourceIdentity) (retirement : Option String) :
    r ∉ (deregisterIfExpected s r key expected retirement).state.resources ∧
      (deregisterIfExpected s r key expected retirement).state.attributes[key]? = retirement := by
  unfold deregisterIfExpected
  simp only [h, ne_eq, not_true, if_false]
  cases retirement <;> dsimp only <;> split <;> simp [bump, silent]

theorem deregisterIfExpected_again (s : CoordinationSnapshot) (r : ResourceIdentity) (key : String)
    (expected retirement : Option String) :
    (deregisterIfExpected (deregisterIfExpected s r key expected retirement).state r key expected retirement).state =
      (deregisterIfExpected s r key expected retirement).state := by
  by_cases he : s.attributes[key]? = expected
  · obtain ⟨hr, hk⟩ := deregisterIfExpected_effect he r retirement
    exact deregisterIfExpected_done hr hk expected
  · have hs : (deregisterIfExpected s r key expected retirement).state = s := by
      rw [deregisterIfExpected_rejected he]
      rfl
    rw [hs, hs]

/-- The record of a registered node is the one of the command. -/
theorem commit_registerNode (s : CoordinationSnapshot) (n : NodeInfo) :
    (commit s (.registerNode n)).nodes[n.nodeId]? = some n := by
  simp only [commit, applyCommand]
  split
  · rename_i existing he
    split
    · rename_i heq
      rw [← heq, ← he, heq]
      rfl
    · split <;> exact ExtTreeMap.getElem?_insert_self
  · exact ExtTreeMap.getElem?_insert_self

/-- A guarded compare-and-set under its own generation is the plain one, so it is harmless again or stale. -/
theorem commit_compareAndSetAttributeGuarded_again {s : CoordinationSnapshot} {g : UInt64} (hg : s.generation = g)
    (key : String) (expected : Option String) (value : String) :
    commit (commit s (.compareAndSetAttributeGuarded g key expected value))
        (.compareAndSetAttributeGuarded g key expected value) =
      commit s (.compareAndSetAttributeGuarded g key expected value) := by
  have hc : ∀ t : CoordinationSnapshot, t.generation = g →
      commit t (.compareAndSetAttributeGuarded g key expected value) =
        (setIfExpected t key expected value).state := by
    intro t ht
    simp [commit, applyCommand, ht]
  by_cases hgen : (commit s (.compareAndSetAttributeGuarded g key expected value)).generation = g
  · rw [hc _ hgen, hc s hg]
    exact setIfExpected_again s key expected value
  · exact commit_stale rfl hgen

/-- **A command committed twice in a row leaves what it leaves once.** -/
theorem commit_again (s : CoordinationSnapshot) (c : MetadataRaftCommand) : commit (commit s c) c = commit s c := by
  by_cases ha : Accepted s c
  swap
  · rw [commit_rejected ha, commit_rejected ha]
  cases c with
  | applySnapshot snapshot => exact replaceSnapshot_again s snapshot
  | applySnapshotGuarded g snapshot =>
    -- the payload may carry the expected generation again, then it replaces itself
    have ht : commit s (.applySnapshotGuarded g snapshot) = snapshot := commit_of_payload rfl ha
    rw [ht, commit, applyCommand]
    split
    · rfl
    · simp [replaceSnapshot]
  | updatePartitionGuarded g a attributes =>
    have hg := generation_of_accepted rfl ha
    exact commit_bumped (by rw [hg]; rfl) (by simp [commit, applyCommand, hg, bump])
  | compareAndSetAttributeGuarded g key expected value =>
    exact commit_compareAndSetAttributeGuarded_again (generation_of_accepted rfl ha) key expected value
  | registerNode n =>
    rw [commit, applyCommand, commit_registerNode s n]
    simp [silent]
  | deregisterNode id =>
    have hn : id ∉ (commit s (.deregisterNode id)).nodes := by
      simp only [commit, applyCommand]
      split
      · simp [bump]
      · assumption
    rw [commit, applyCommand, if_neg hn]
    rfl
  | registerResource r =>
    have hr : r ∈ (commit s (.registerResource r)).resources := by
      simp only [commit, applyCommand]
      split
      · assumption
      · simp [bump]
    rw [commit, applyCommand, if_pos hr]
    rfl
  | registerResourceWithInitialAttribute r key value =>
    have hr : r ∈ (commit s (.registerResourceWithInitialAttribute r key value)).resources := by
      simp only [commit, applyCommand]
      split
      · assumption
      · simp [bump]
    rw [commit, applyCommand, if_pos hr]
    rfl
  | deregisterResource r =>
    have hr : r ∉ (commit s (.deregisterResource r)).resources := by
      simp only [commit, applyCommand]
      split
      · simp [bump]
      · assumption
    rw [commit, applyCommand, if_neg hr]
    rfl
  | deregisterResourceWithAttribute r key expected => exact deregisterIfExpected_again s r key expected none
  | deregisterResourceReplacingAttribute r key expected value =>
    exact deregisterIfExpected_again s r key expected (some value)
  | setAttribute key value =>
    have hv : (commit s (.setAttribute key value)).attributes[key]? = some value := by
      simp only [commit, applyCommand]
      split
      · exact ExtTreeMap.getElem?_insert_self
      · rename_i h
        exact not_not.1 h
    rw [commit, applyCommand, if_neg (not_not.2 hv)]
    rfl
  | removeAttribute key =>
    have hk : key ∉ (commit s (.removeAttribute key)).attributes := by
      simp only [commit, applyCommand]
      split
      · simp [bump]
      · assumption
    rw [commit, applyCommand, if_neg hk]
    rfl
  | compareAndSetAttribute key expected value => exact setIfExpected_again s key expected value

/-- **A retry is harmless**: the same command in two entries, in one batch or in two, leaves the snapshot of the first
entry. -/
theorem apply_retry (sm : GanglionStateMachine) (c : MetadataRaftCommand) (i j : LogId) :
    (sm.apply [⟨i, .normal c⟩, ⟨j, .normal c⟩]).1.inner.state = (sm.apply [⟨i, .normal c⟩]).1.inner.state ∧
      ((sm.apply [⟨i, .normal c⟩]).1.apply [⟨j, .normal c⟩]).1.inner.state =
        (sm.apply [⟨i, .normal c⟩]).1.inner.state :=
  ⟨commit_again sm.inner.state c, commit_again sm.inner.state c⟩

end Ganglion
