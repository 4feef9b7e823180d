import Mathlib.Data.List.Destutter
import Mathlib.Data.List.Sort
import Ganglion.Core.Types
import Ganglion.Lib.Arrivals

/-!
# Placement

The two planners of `ganglion-core`: for every wanted resource an owner, followers, an epoch and a durability policy,
as far as possible those of the existing assignment.

* `DeterministicPartitionPlacement.plan` gives the resources without a live owner to the nodes in turn,
  `LeastLoadedPartitionPlacement.plan` to the node that owns the fewest. The rest of the two is the same (`planWith`,
  `assignmentFor`).
* `gathered` says what `gather_followers` returns, whatever the existing assignment lists.
* `plan_placed` says what either planner returns: `assignmentFor` at an owner that is the old one wherever that is live;
  `Assigned` is the same field by field.
-/

namespace Ganglion

open Std

/-- `PlacementInput`. -/
structure PlacementInput where
  nodes : BTreeMap String NodeInfo
  resources : List ResourceIdentity
  existing : BTreeMap ResourceIdentity PartitionAssignment
  targetFollowers : Nat
  generation : UInt64

/-- `PlacementPlan`. -/
structure PlacementPlan where
  snapshot : CoordinationSnapshot
  deriving DecidableEq

/-- `PlacementStrategy`. -/
inductive PlacementStrategy where
  | deterministic
  | leastLoaded
  deriving DecidableEq

/-- `PlacementError`. -/
inductive PlacementError where
  | noNodesForResources
  deriving DecidableEq

/-- The ids of the live nodes, by increasing id. The planners go on only when there is one. -/
abbrev NodeIds := { ids : List String // ids ≠ [] }

/-! ## Followers -/

/-- `node_ids[i % node_ids.len()]`. -/
def NodeIds.cyclic (nodeIds : NodeIds) (i : Nat) : String :=
  nodeIds.1.get ⟨i % nodeIds.1.length, Nat.mod_lt i (List.length_pos_iff.2 nodeIds.2)⟩

/-- The first loop of `gather_followers`: of the existing followers those that are live and not the owner. -/
def keptFollowers (owner : String) (nodeIds : NodeIds) (existing : Option PartitionAssignment) : Arrivals String :=
  match existing with
  | none => .empty
  | some existing => Arrivals.empty.offerAll (fun node => node != owner && nodeIds.1.contains node) existing.followers

/-- The nodes that the second loop of `gather_followers` looks at: its cursor runs from 1 to twice their number. -/
def followerCandidates (owner : String) (nodeIds : NodeIds) : List String :=
  let ownerIndex := (nodeIds.1.findIdx? (· == owner)).getD 0
  (List.range' 1 (nodeIds.1.length * 2)).map fun cursor => nodeIds.cyclic (ownerIndex + cursor)

/-- `gather_followers`. -/
def gatherFollowers (owner : String) (targetFollowers : Nat) (nodeIds : NodeIds)
    (existing : Option PartitionAssignment) : List String :=
  if nodeIds.1.length ≤ 1 ∨ targetFollowers = 0 then []
  else
    let kept := keptFollowers owner nodeIds existing
    if kept.items.length ≥ targetFollowers then kept.items.take targetFollowers
    else
      let filled := kept.offerUpTo targetFollowers (fun candidate => candidate != owner)
        (followerCandidates owner nodeIds)
      filled.items.take targetFollowers


section

variable {owner : String} {targetFollowers : Nat} {nodeIds : NodeIds} {existing : Option PartitionAssignment}

theorem NodeIds.cyclic_mem (i : Nat) : nodeIds.cyclic i ∈ nodeIds.1 := List.get_mem _ _

/-- Wherever the cursor starts, it comes by every node. -/
theorem mem_followerCandidates {x : String} : x ∈ followerCandidates owner nodeIds ↔ x ∈ nodeIds.1 := by
  rw [followerCandidates, List.mem_map]
  generalize (nodeIds.1.findIdx? (· == owner)).getD 0 = i
  constructor
  · rintro ⟨cursor, _, rfl⟩
    exact NodeIds.cyclic_mem _
  · intro hx
    obtain ⟨j, hj, rfl⟩ := List.mem_iff_getElem.1 hx
    have hi := Nat.mod_lt i (List.length_pos_iff.2 nodeIds.2)
    refine ⟨j + nodeIds.1.length - i % nodeIds.1.length, ?_, ?_⟩
    · rw [List.mem_range'_1]
      omega
    · have hsum : i + (j + nodeIds.1.length - i % nodeIds.1.length) =
          j + nodeIds.1.length * (i / nodeIds.1.length + 1) := by
        have hdiv := Nat.div_add_mod i nodeIds.1.length
        rw [Nat.mul_add, Nat.mul_one]
        omega
      have hmod : (i + (j + nodeIds.1.length - i % nodeIds.1.length)) % nodeIds.1.length = j := by
        rw [hsum, Nat.add_mul_mod_self_left, Nat.mod_eq_of_lt hj]
      simp only [NodeIds.cyclic, hmod, List.get_eq_getElem]

/-- The followers that an existing assignment lists. -/
def existingFollowers (existing : Option PartitionAssignment) : List String :=
  match existing with
  | none => []
  | some existing => existing.followers

theorem keptFollowers_eq : keptFollowers owner nodeIds existing =
    Arrivals.empty.offerAll (fun node => node != owner && nodeIds.1.contains node) (existingFollowers existing) := by
  cases existing with
  | none => rfl
  | some existing => rfl

/-- What the two loops of `gather_followers` can collect: the live nodes other than the owner. -/
theorem mem_offered {f : String} : f ∈ ((keptFollowers owner nodeIds existing).offerAll
    (fun candidate => candidate != owner) (followerCandidates owner nodeIds)).items ↔ f ∈ nodeIds.1 ∧ f ≠ owner := by
  rw [keptFollowers_eq, Arrivals.mem_offerAll, Arrivals.mem_offerAll, Arrivals.items_empty, mem_followerCandidates]
  simp only [List.not_mem_nil, false_or, Bool.and_eq_true, bne_iff_ne, ne_eq, List.contains_iff_mem]
  tauto

/-- Existing followers without repetitions are kept in their order. -/
theorem items_keptFollowers (h : (existingFollowers existing).Nodup) : (keptFollowers owner nodeIds existing).items =
    (existingFollowers existing).filter fun f => f != owner && nodeIds.1.contains f := by
  rw [keptFollowers_eq, Arrivals.items_offerAll_of_nodup h, Arrivals.items_empty, List.nil_append]
  simp

/-- `gather_followers` as one pass over the existing followers and the live nodes. -/
theorem gatherFollowers_eq (h : ¬(nodeIds.1.length ≤ 1 ∨ targetFollowers = 0)) :
    gatherFollowers owner targetFollowers nodeIds existing =
      ((keptFollowers owner nodeIds existing).offerAll (fun candidate => candidate != owner)
        (followerCandidates owner nodeIds)).items.take targetFollowers := by
  rw [gatherFollowers, if_neg h]
  dsimp only
  split
  · rename_i hfull
    obtain ⟨added, heq, _⟩ := @Arrivals.items_offerAll String _ _ _ (fun candidate => candidate != owner)
      (keptFollowers owner nodeIds existing) (followerCandidates owner nodeIds)
    rw [heq, List.take_append_of_le_length hfull]
  · exact Arrivals.take_offerUpTo _ _

/-- What `gather_followers` returns, where `old` are the existing followers. -/
structure Gathered (owner : String) (targetFollowers : Nat) (ids old followers : List String) : Prop where
  nodup : followers.Nodup
  live : ∀ f ∈ followers, f ∈ ids ∧ f ≠ owner
  length_le : followers.length ≤ targetFollowers
  exhausts : followers.length < targetFollowers → ∀ f ∈ ids, f ≠ owner → f ∈ followers
  keeps : old.Nodup → old.length ≤ targetFollowers →
    ∃ added, followers = (old.filter fun f => f != owner && ids.contains f) ++ added ∧ ∀ f ∈ added, f ∉ old

/-- With one node, or none wanted, there are no followers. -/
theorem gathered_nil {ids old : List String} (howner : owner ∈ ids) (h : ids.length ≤ 1 ∨ targetFollowers = 0) :
    Gathered owner targetFollowers ids old [] := by
  have honly : ids.length ≤ 1 → ∀ f ∈ ids, f = owner := by
    intro hlen f hf
    match ids, hlen with
    | [id], _ => rw [List.mem_singleton.1 hf, List.mem_singleton.1 howner]
  refine ⟨List.nodup_nil, by simp, Nat.zero_le _, fun hlt f hf hne => ?_, fun _ hlen => ⟨[], ?_, by simp⟩⟩
  · rcases h with hone | hzero
    · exact absurd (honly hone f hf) hne
    · rw [hzero] at hlt
      cases hlt
  · rw [List.append_nil, eq_comm, List.filter_eq_nil_iff]
    intro f hf hkeep
    rw [Bool.and_eq_true, bne_iff_ne, List.contains_iff_mem] at hkeep
    rcases h with hone | hzero
    · exact hkeep.1 (honly hone f hkeep.2)
    · have := List.length_pos_of_mem hf
      omega

/-- **What `gather_followers` returns**, at an owner among the nodes. -/
theorem gathered (howner : owner ∈ nodeIds.1) : Gathered owner targetFollowers nodeIds.1 (existingFollowers existing)
    (gatherFollowers owner targetFollowers nodeIds existing) := by
  by_cases h : nodeIds.1.length ≤ 1 ∨ targetFollowers = 0
  · rw [gatherFollowers, if_pos h]
    exact gathered_nil howner h
  rw [gatherFollowers_eq h]
  -- before the truncation the kept followers are the front, and the whole is all there is to choose from
  obtain ⟨added, hall, hadded⟩ := @Arrivals.items_offerAll String _ _ _ (fun candidate => candidate != owner)
    (keptFollowers owner nodeIds existing) (followerCandidates owner nodeIds)
  refine ⟨(Arrivals.nodup _).sublist (List.take_sublist _ _), fun f hf => mem_offered.1 (List.mem_of_mem_take hf),
    List.length_take_le _ _, fun hlt f hf hne => ?_, fun hnodup hlen => ?_⟩
  · rw [List.length_take] at hlt
    rw [List.take_of_length_le (by omega)]
    exact mem_offered.2 ⟨hf, hne⟩
  · have hkept := @items_keptFollowers owner nodeIds existing hnodup
    have hle : (keptFollowers owner nodeIds existing).items.length ≤ targetFollowers := by
      rw [hkept]
      exact (List.length_filter_le _ _).trans hlen
    rw [hall, List.take_append, List.take_of_length_le hle, hkept]
    refine ⟨_, rfl, fun f hf hold => ?_⟩
    obtain ⟨hcand, hne, hnew⟩ := (hadded f).1 (List.mem_of_mem_take hf)
    rw [hkept, List.mem_filter] at hnew
    exact hnew ⟨hold, by simpa [mem_followerCandidates.1 hcand] using hne⟩

end

/-! ## Owners -/

/-- `pick_owner`. -/
def pickOwner (idx : Nat) (nodeIds : NodeIds) (existing : Option PartitionAssignment) : String :=
  match existing with
  | some existing => if existing.owner ∈ nodeIds.1 then existing.owner else nodeIds.cyclic idx
  | none => nodeIds.cyclic idx

/-- `live_owner_load`. -/
def liveOwnerLoad (nodes : BTreeMap String NodeInfo) (existing : BTreeMap ResourceIdentity PartitionAssignment) :
    BTreeMap String UInt64 :=
  (OrdMap.values existing).foldl (fun load assignment =>
      if nodes.contains assignment.owner then
        load.insert assignment.owner (saturatingSucc (load[assignment.owner]?.getD 0))
      else load)
    (OrdMap.ofPairs (nodes.keys.map fun nodeId => (nodeId, 0)))

/-- The key of `pick_least_loaded_owner`: the load, then the node id. -/
def compareLoad (load : BTreeMap String UInt64) : String → String → Ordering :=
  compareLex (compareOn fun node => load[node]?.getD 0) compare

/-- `pick_least_loaded_owner`: of equal keys `min_by_key` takes the first. -/
def pickLeastLoadedOwner (nodeIds : NodeIds) (load : BTreeMap String UInt64) : String :=
  nodeIds.1.tail.foldl (fun best node => if compareLoad load node best = .lt then node else best)
    (nodeIds.1.head nodeIds.2)

/-- The owner that `LeastLoadedPartitionPlacement` picks. -/
def leastLoadedOwner (load : BTreeMap String UInt64) (nodeIds : NodeIds) (existing : Option PartitionAssignment) :
    String :=
  match existing with
  | some existing => if existing.owner ∈ nodeIds.1 then existing.owner else pickLeastLoadedOwner nodeIds load
  | none => pickLeastLoadedOwner nodeIds load

/-! ## The planners -/

/-- The epoch of an assignment to `owner`. -/
def placementEpoch (existing : Option PartitionAssignment) (owner : String) : UInt64 :=
  match existing with
  | some existing => if existing.owner = owner then existing.epoch else saturatingSucc existing.epoch
  | none => 1

/-- The assignment that a planner makes for a resource once it has the owner. -/
def assignmentFor (input : PlacementInput) (nodeIds : NodeIds) (resource : ResourceIdentity) (owner : String) :
    PartitionAssignment where
  resource := resource
  owner := owner
  followers := gatherFollowers owner input.targetFollowers nodeIds input.existing[resource]?
  epoch := placementEpoch input.existing[resource]? owner
  durability := (input.existing[resource]?.map (·.durability)).getD .localDurable

/-- The plan that holds the assignments. -/
def planOf (input : PlacementInput) (assignments : BTreeMap ResourceIdentity PartitionAssignment) : PlacementPlan where
  snapshot :=
    { nodes := input.nodes, assignments := assignments, resources := ∅, attributes := ∅,
      generation := input.generation }

/-- `resources.sort(); resources.dedup()`. -/
def sortedResources (resources : List ResourceIdentity) : List ResourceIdentity :=
  (resources.insertionSort fun a b => (compare a b).isLE).destutter (· ≠ ·)

/-- What the planners have in common: how they begin, and the plan around the assignments. -/
def planWith (input : PlacementInput)
    (assign : NodeIds → List ResourceIdentity → BTreeMap ResourceIdentity PartitionAssignment) :
    Except PlacementError PlacementPlan :=
  if sortedResources input.resources = [] then .ok (planOf input ∅)
  else if h : input.nodes.keys = [] then .error .noNodesForResources
  else .ok (planOf input (assign ⟨input.nodes.keys, h⟩ (sortedResources input.resources)))

namespace DeterministicPartitionPlacement

/-- A turn of the loop: the resource at `idx` is assigned. -/
def place (input : PlacementInput) (nodeIds : NodeIds) (assignments : BTreeMap ResourceIdentity PartitionAssignment)
    (entry : ResourceIdentity × Nat) : BTreeMap ResourceIdentity PartitionAssignment :=
  let owner := pickOwner entry.2 nodeIds input.existing[entry.1]?
  assignments.insert entry.1 (assignmentFor input nodeIds entry.1 owner)

/-- `DeterministicPartitionPlacement::plan`. -/
def plan (input : PlacementInput) : Except PlacementError PlacementPlan :=
  planWith input fun nodeIds resources => resources.zipIdx.foldl (place input nodeIds) ∅

end DeterministicPartitionPlacement

namespace LeastLoadedPartitionPlacement

/-- The load counters and the assignments made so far. -/
structure Progress where
  load : BTreeMap String UInt64
  assignments : BTreeMap ResourceIdentity PartitionAssignment

/-- A turn of the loop: the resource is assigned and counted. -/
def place (input : PlacementInput) (nodeIds : NodeIds) (s : Progress) (resource : ResourceIdentity) : Progress :=
  let owner := leastLoadedOwner s.load nodeIds input.existing[resource]?
  { load :=
      match s.load[owner]? with
      | some loadCounter => s.load.insert owner (saturatingSucc loadCounter)
      | none => s.load
    assignments := s.assignments.insert resource (assignmentFor input nodeIds resource owner) }

/-- `LeastLoadedPartitionPlacement::plan`. -/
def plan (input : PlacementInput) : Except PlacementError PlacementPlan :=
  planWith input fun nodeIds resources =>
    (resources.foldl (place input nodeIds)
      { load := liveOwnerLoad input.nodes input.existing, assignments := ∅ }).assignments

end LeastLoadedPartitionPlacement

/-- `strategy.as_strategy().plan(input)`. -/
def PlacementStrategy.plan : PlacementStrategy → PlacementInput → Except PlacementError PlacementPlan
  | .deterministic => DeterministicPartitionPlacement.plan
  | .leastLoaded => LeastLoadedPartitionPlacement.plan

/-! ## What the planners return -/

/-- The owner of an assignment: a live node, and the old owner where that is live. -/
structure OwnerFor (ids : List String) (existing : Option PartitionAssignment) (owner : String) : Prop where
  live : owner ∈ ids
  kept : ∀ old, existing = some old → old.owner ∈ ids → owner = old.owner

section

variable {nodeIds : NodeIds} {existing : Option PartitionAssignment}

/-- The old owner if it is live, else any live node. -/
theorem ownerFor_of_fallback {owner fallback : String} (hf : fallback ∈ nodeIds.1)
    (howner : owner = match existing with
      | some existing => if existing.owner ∈ nodeIds.1 then existing.owner else fallback
      | none => fallback) : OwnerFor nodeIds.1 existing owner := by
  cases existing with
  | none => exact ⟨howner ▸ hf, fun old h => by cases h⟩
  | some old =>
    by_cases hlive : old.owner ∈ nodeIds.1
    · replace howner : owner = old.owner := by simpa only [if_pos hlive] using howner
      refine ⟨howner ▸ hlive, fun old' h _ => ?_⟩
      cases h
      exact howner
    · replace howner : owner = fallback := by simpa only [if_neg hlive] using howner
      refine ⟨howner ▸ hf, fun old' h hlive' => ?_⟩
      cases h
      exact absurd hlive' hlive

theorem pickOwner_ownerFor (idx : Nat) : OwnerFor nodeIds.1 existing (pickOwner idx nodeIds existing) :=
  ownerFor_of_fallback (NodeIds.cyclic_mem idx) rfl

theorem pickLeastLoadedOwner_mem (load : BTreeMap String UInt64) : pickLeastLoadedOwner nodeIds load ∈ nodeIds.1 := by
  have hfold : ∀ (ids : List String) (best : String),
      ids.foldl (fun best node => if compareLoad load node best = .lt then node else best) best ∈ best :: ids := by
    intro ids
    induction ids with
    | nil => simp
    | cons id ids ih =>
      intro best
      rw [List.foldl_cons]
      rcases List.mem_cons.1 (ih (if compareLoad load id best = .lt then id else best)) with h | h
      · rw [h]
        split <;> simp
      · exact .tail best (.tail id h)
  have hmem := hfold nodeIds.1.tail (nodeIds.1.head nodeIds.2)
  rwa [List.cons_head_tail] at hmem

theorem leastLoadedOwner_ownerFor (load : BTreeMap String UInt64) :
    OwnerFor nodeIds.1 existing (leastLoadedOwner load nodeIds existing) :=
  ownerFor_of_fallback (pickLeastLoadedOwner_mem load) rfl

end

theorem mem_destutter' {α : Type} [DecidableEq α] {a x : α} (l : List α) :
    x ∈ l.destutter' (· ≠ ·) a ↔ x = a ∨ x ∈ l := by
  induction l generalizing a with
  | nil => simp
  | cons b l ih =>
    rw [List.destutter'_cons]
    split
    · rw [List.mem_cons, ih, List.mem_cons]
    · rename_i hab
      rw [not_not.1 hab, ih, List.mem_cons]
      tauto

theorem mem_sortedResources {resources : List ResourceIdentity} {r : ResourceIdentity} :
    r ∈ sortedResources resources ↔ r ∈ resources := by
  have hdestutter : ∀ l : List ResourceIdentity, r ∈ l.destutter (· ≠ ·) ↔ r ∈ l := by
    intro l
    cases l with
    | nil => simp
    | cons a l => rw [List.destutter_cons', mem_destutter', List.mem_cons]
  rw [sortedResources, hdestutter, List.mem_insertionSort]

/-- What a plan for an input is. -/
structure Placed (input : PlacementInput) (plan : PlacementPlan) : Prop where
  snapshot : plan = planOf input plan.snapshot.assignments
  resources : ∀ r, r ∈ plan.snapshot.assignments ↔ r ∈ input.resources
  assigned : ∀ r a, plan.snapshot.assignments[r]? = some a → ∃ (h : input.nodes.keys ≠ []) (owner : String),
    OwnerFor input.nodes.keys input.existing[r]? owner ∧ a = assignmentFor input ⟨input.nodes.keys, h⟩ r owner

theorem placed_planWith {input : PlacementInput} {plan : PlacementPlan}
    {assign : NodeIds → List ResourceIdentity → BTreeMap ResourceIdentity PartitionAssignment}
    (hassign : ∀ nodeIds resources, (∀ r a, (assign nodeIds resources)[r]? = some a →
        ∃ owner, OwnerFor nodeIds.1 input.existing[r]? owner ∧ a = assignmentFor input nodeIds r owner) ∧
      ∀ r, r ∈ assign nodeIds resources ↔ r ∈ resources)
    (h : planWith input assign = .ok plan) : Placed input plan := by
  unfold planWith at h
  split at h
  · rename_i hempty
    cases h
    refine ⟨rfl, fun r => ?_, fun r a hr => by simp [planOf] at hr⟩
    rw [← mem_sortedResources, hempty]
    simp [planOf]
  · split at h
    · cases h
    · rename_i hids
      cases h
      obtain ⟨hvalues, hkeys⟩ := hassign ⟨input.nodes.keys, hids⟩ (sortedResources input.resources)
      exact ⟨rfl, fun r => (hkeys r).trans mem_sortedResources, fun r a hr => ⟨hids, hvalues r a hr⟩⟩

/-- **What either planner returns.** -/
theorem plan_placed {strategy : PlacementStrategy} {input : PlacementInput} {plan : PlacementPlan}
    (h : strategy.plan input = .ok plan) : Placed input plan := by
  cases strategy with
  | deterministic =>
    rw [PlacementStrategy.plan, DeterministicPartitionPlacement.plan] at h
    refine placed_planWith (fun nodeIds resources => ?_) h
    obtain ⟨hvalues, hkeys⟩ := @OrdMap.foldl_insert _ _ _ _ _ _ _ (DeterministicPartitionPlacement.place input nodeIds)
      id Prod.fst
      (fun r a => ∃ owner, OwnerFor nodeIds.1 input.existing[r]? owner ∧ a = assignmentFor input nodeIds r owner)
      (fun s entry => ⟨_, ⟨_, pickOwner_ownerFor entry.2, rfl⟩, rfl⟩) resources.zipIdx ∅ (by simp)
    refine ⟨hvalues, fun r => (hkeys r).trans ?_⟩
    rw [List.zipIdx_map_fst]
    simp
  | leastLoaded =>
    rw [PlacementStrategy.plan, LeastLoadedPartitionPlacement.plan] at h
    refine placed_planWith (fun nodeIds resources => ?_) h
    obtain ⟨hvalues, hkeys⟩ := @OrdMap.foldl_insert _ _ _ _ _ _ _ (LeastLoadedPartitionPlacement.place input nodeIds)
      LeastLoadedPartitionPlacement.Progress.assignments id
      (fun r a => ∃ owner, OwnerFor nodeIds.1 input.existing[r]? owner ∧ a = assignmentFor input nodeIds r owner)
      (fun s r => ⟨_, ⟨_, leastLoadedOwner_ownerFor s.load, rfl⟩, rfl⟩) resources
      { load := liveOwnerLoad input.nodes input.existing, assignments := ∅ } (by simp)
    refine ⟨hvalues, fun r => (hkeys r).trans ?_⟩
    simp

/-- What the assignment of a plan is, by its fields. -/
structure Assigned (input : PlacementInput) (r : ResourceIdentity) (a : PartitionAssignment) : Prop where
  resource : a.resource = r
  owner : OwnerFor input.nodes.keys input.existing[r]? a.owner
  followers : Gathered a.owner input.targetFollowers input.nodes.keys (existingFollowers input.existing[r]?) a.followers
  epoch : a.epoch = placementEpoch input.existing[r]? a.owner
  durability : a.durability = (input.existing[r]?.map (·.durability)).getD .localDurable

theorem Placed.assignment {input : PlacementInput} {plan : PlacementPlan} {r : ResourceIdentity}
    {a : PartitionAssignment} (h : Placed input plan) (ha : plan.snapshot.assignments[r]? = some a) :
    Assigned input r a := by
  obtain ⟨hids, owner, howner, rfl⟩ := h.assigned r a ha
  exact ⟨rfl, howner, @gathered owner input.targetFollowers ⟨input.nodes.keys, hids⟩ _ howner.live, rfl, rfl⟩

/-- With a live node either planner succeeds. -/
theorem plan_succeeds (strategy : PlacementStrategy) {input : PlacementInput} {id : String} (hid : id ∈ input.nodes) :
    ∃ plan, strategy.plan input = .ok plan := by
  have hids : input.nodes.keys ≠ [] := List.ne_nil_of_mem (ExtTreeMap.mem_keys.2 hid)
  have hwith : ∀ assign, ∃ plan, planWith input assign = .ok plan := by
    intro assign
    rw [planWith, dif_neg hids]
    split
    · exact ⟨_, rfl⟩
    · exact ⟨_, rfl⟩
  cases strategy with
  | deterministic =>
    rw [PlacementStrategy.plan, DeterministicPartitionPlacement.plan]
    exact hwith _
  | leastLoaded =>
    rw [PlacementStrategy.plan, LeastLoadedPartitionPlacement.plan]
    exact hwith _

end Ganglion
