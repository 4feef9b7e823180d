import Ganglion.Core.Epoch
import Ganglion.Core.Placement

/-!
# The epochs of a plan

The planners compute the epoch of an assignment themselves, and the controller stamps the epochs of a whole snapshot
(`stamp_assignment_epochs`). On a plan made from the committed assignments both say the same.

* `nextAssignmentEpoch_eq`: the two rules agree below the maximal epoch, where saturation plays no part.
* `stamp_planned` is one planned assignment, and `stamp_plan_eq` the whole plan with the list of transitions.
-/

namespace Ganglion

open Std

/-- The label that a transition of `stamp_assignment_epochs` should carry for an owner. -/
structure LabelledBy (committed : Option PartitionAssignment) (owner : String) (transition : EpochTransition) :
    Prop where
  absent : transition = .newAssignment ↔ committed = none
  kept : transition = .unchanged ↔ ∃ old, committed = some old ∧ old.owner = owner
  moved : transition = .ownerChanged ↔ ∃ old, committed = some old ∧ old.owner ≠ owner

section

variable {committed : Option PartitionAssignment} {owner : String}

theorem labelledBy_next : LabelledBy committed owner (nextAssignmentEpoch committed owner).2 := by
  cases committed with
  | none => constructor <;> simp [nextAssignmentEpoch]
  | some old =>
    by_cases h : old.owner = owner
    · constructor <;> simp [nextAssignmentEpoch, h]
    · constructor <;> simp [nextAssignmentEpoch, h]

/-- The rule of the planners and the rule of the stamp. -/
theorem nextAssignmentEpoch_eq (hepoch : ∀ old, committed = some old → old.epoch < u64Max) :
    (nextAssignmentEpoch committed owner).1 = placementEpoch committed owner := by
  cases committed with
  | none => rfl
  | some old =>
    rw [nextAssignmentEpoch, placementEpoch]
    split
    · rfl
    · exact (if_pos (hepoch old rfl)).symm

end

variable {committed : CoordinationSnapshot} {input : PlacementInput} {r : ResourceIdentity} {a : PartitionAssignment}

/-- Stamping a planned assignment changes nothing. -/
theorem stamp_planned (hepochs : ∀ (r : ResourceIdentity) (old : PartitionAssignment),
      committed.assignments[r]? = some old → old.epoch < u64Max) (hinput : input.existing = committed.assignments)
    (ha : Assigned input r a) : stampAssignment committed r a = a := by
  rw [stampAssignment, nextAssignmentEpoch_eq (hepochs r), ← hinput, ← ha.epoch]

/-- **Planner epochs and stamped epochs agree**: stamping a plan that was made from the committed assignments leaves it
as it is, and the transitions list the planned resources once in order, each labelled by what becomes of its owner. -/
theorem stamp_plan_eq (strategy : PlacementStrategy) (committed : CoordinationSnapshot)
    (hepochs : ∀ (r : ResourceIdentity) (old : PartitionAssignment),
      committed.assignments[r]? = some old → old.epoch < u64Max)
    (nodes : BTreeMap String NodeInfo) (resources : List ResourceIdentity) (targetFollowers : Nat)
    (generation : UInt64) (plan : PlacementPlan)
    (h : strategy.plan ⟨nodes, resources, committed.assignments, targetFollowers, generation⟩ = .ok plan) :
    let stamped := stampAssignmentEpochs committed plan.snapshot
    stamped.1 = plan.snapshot ∧
      (stamped.2.map Prod.fst).Pairwise (fun r q => compare r q = .lt) ∧
      (∀ r, r ∈ stamped.2.map Prod.fst ↔ r ∈ resources) ∧
      ∀ r transition, (r, transition) ∈ stamped.2 → ∃ a, plan.snapshot.assignments[r]? = some a ∧
        LabelledBy committed.assignments[r]? a.owner transition := by
  intro stamped
  have hplaced := plan_placed h
  have hfst : stamped.2.map Prod.fst = plan.snapshot.assignments.keys := by
    rw [← ExtTreeMap.map_fst_toList_eq_keys]
    exact List.map_map
  refine ⟨?_, ?_, fun r => ?_, fun r transition hmem => ?_⟩
  · have hassignments : stamped.1.assignments = plan.snapshot.assignments := by
      apply ExtTreeMap.ext_getElem?
      intro r
      rw [getElem?_stamp]
      cases ha : plan.snapshot.assignments[r]? with
      | none => rfl
      | some a => rw [Option.map_some, stamp_planned hepochs rfl (hplaced.assignment ha)]
    show { plan.snapshot with assignments := stamped.1.assignments } = plan.snapshot
    rw [hassignments]
  · rw [hfst]
    exact ExtTreeMap.ordered_keys
  · rw [hfst, ExtTreeMap.mem_keys]
    exact hplaced.resources r
  · obtain ⟨⟨q, a⟩, hq, heq⟩ := List.mem_map.1 hmem
    cases heq
    exact ⟨a, ExtTreeMap.mem_toList_iff_getElem?_eq_some.1 hq, labelledBy_next⟩

/-! ### One owner stays, one is gone, one resource is new -/

/-- Three partitions of a resource. -/
def shard (partition : UInt64) : ResourceIdentity where
  namespacePart := "work"
  name := "shard"
  partition := partition
  group := none

/-- Two partitions are assigned, one of them to a node that is gone. -/
def twoShards : CoordinationSnapshot :=
  { CoordinationSnapshot.default with
    assignments := OrdMap.ofPairs [(shard 0, .new (shard 0) "b" [] 4), (shard 1, .new (shard 1) "gone" [] 9)] }

/-- The live nodes. -/
def nodesAB : BTreeMap String NodeInfo := OrdMap.ofPairs (["a", "b"].map fun id => (id, .new id id none))

/-- The plan for the three partitions. -/
def threeShards : PlacementPlan :=
  planOf ⟨nodesAB, [shard 2, shard 1, shard 0], twoShards.assignments, 0, 1⟩ (OrdMap.ofPairs
    [(shard 0, .new (shard 0) "b" [] 4), (shard 1, .new (shard 1) "b" [] 10), (shard 2, .new (shard 2) "a" [] 1)])

theorem stamp_plan_eq_threeShards : (stampAssignmentEpochs twoShards threeShards.snapshot).1 = threeShards.snapshot :=
  (stamp_plan_eq .deterministic twoShards (by
      intro r old hr
      rw [twoShards, OrdMap.getElem?_ofPairs (by decide)] at hr
      simp only [List.mem_cons, List.not_mem_nil, or_false, Prod.mk.injEq] at hr
      rcases hr with ⟨_, rfl⟩ | ⟨_, rfl⟩ <;> decide)
    nodesAB [shard 2, shard 1, shard 0] 0 1 threeShards (by decide)).1

end Ganglion
