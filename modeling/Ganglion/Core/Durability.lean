import Mathlib.Data.Finset.Card
import Ganglion.Core.Placement

/-!
# Durability requirements

How many replicas have to acknowledge a write (`ReplicationDurabilityPolicy::resolve`). The code counts the entries of
a list; what a quorum needs are distinct nodes. The planners make the two agree: their followers are distinct and never
the owner (`card_replicaSet`).

* `resolve_ok_iff` and `resolve_error` say when a policy resolves, and to what.
* `planned_durability` draws the conclusions for the assignments of a plan: requirements that can be met, and
  majorities that intersect.
-/

namespace Ganglion

open Std

/-- `ReplicationAcknowledgement`. -/
inductive ReplicationAcknowledgement where
  | accepted
  | durable
  deriving DecidableEq

/-- `ReplicationDurabilityError`. -/
inductive ReplicationDurabilityError where
  | zeroNodes
  | notEnoughAssignedNodes (required available : Nat)
  deriving DecidableEq

/-- `ReplicationDurabilityRequirement`. -/
structure ReplicationDurabilityRequirement where
  nodes : Nat
  acknowledgement : ReplicationAcknowledgement
  deriving DecidableEq

/-- `ReplicationDurabilityRequirement::validate`. -/
def ReplicationDurabilityRequirement.validate (requirement : ReplicationDurabilityRequirement) (assignedNodes : Nat) :
    Except ReplicationDurabilityError Unit :=
  if requirement.nodes = 0 then .error .zeroNodes
  else if requirement.nodes > assignedNodes then .error (.notEnoughAssignedNodes requirement.nodes assignedNodes)
  else .ok ()

namespace ReplicationDurabilityPolicy

/-- The requirement that `resolve` validates. -/
def requirement (policy : ReplicationDurabilityPolicy) (assignedNodes : Nat) : ReplicationDurabilityRequirement :=
  match policy with
  | .localDurable => { nodes := 1, acknowledgement := .durable }
  | .replicaAccepted nodes => { nodes := nodes, acknowledgement := .accepted }
  | .replicaDurable nodes => { nodes := nodes, acknowledgement := .durable }
  | .majorityDurable => { nodes := assignedNodes / 2 + 1, acknowledgement := .durable }

/-- `ReplicationDurabilityPolicy::resolve`. -/
def resolve (policy : ReplicationDurabilityPolicy) (assignedNodes : Nat) :
    Except ReplicationDurabilityError ReplicationDurabilityRequirement := do
  let requirement := policy.requirement assignedNodes
  requirement.validate assignedNodes
  return requirement

/-- The number of nodes that a policy asks for itself. -/
def asks : ReplicationDurabilityPolicy → Option Nat
  | .localDurable => none
  | .replicaAccepted nodes => some nodes
  | .replicaDurable nodes => some nodes
  | .majorityDurable => none

end ReplicationDurabilityPolicy

/-- `PartitionAssignment::replica_set_size`. -/
def PartitionAssignment.replicaSetSize (a : PartitionAssignment) : Nat := 1 + a.followers.length

/-- `PartitionAssignment::durability_requirement`. -/
def PartitionAssignment.durabilityRequirement (a : PartitionAssignment) :
    Except ReplicationDurabilityError ReplicationDurabilityRequirement :=
  a.durability.resolve a.replicaSetSize

/-! ## What a policy resolves to -/

namespace ReplicationDurabilityPolicy

variable {policy : ReplicationDurabilityPolicy} {assignedNodes : Nat} {requirement : ReplicationDurabilityRequirement}

theorem resolve_eq : policy.resolve assignedNodes =
    if (policy.requirement assignedNodes).nodes = 0 then .error .zeroNodes
    else if (policy.requirement assignedNodes).nodes > assignedNodes then
      .error (.notEnoughAssignedNodes (policy.requirement assignedNodes).nodes assignedNodes)
    else .ok (policy.requirement assignedNodes) := by
  unfold resolve ReplicationDurabilityRequirement.validate
  dsimp only
  split
  · rfl
  · split
    · rfl
    · rfl

/-- A policy resolves exactly when what it requires is at least one node and no more than are assigned. -/
theorem resolve_ok_iff : policy.resolve assignedNodes = .ok requirement ↔
    requirement = policy.requirement assignedNodes ∧ 1 ≤ requirement.nodes ∧ requirement.nodes ≤ assignedNodes := by
  rw [resolve_eq]
  split
  · rename_i hzero
    constructor
    · intro h
      cases h
    · rintro ⟨rfl, hone, _⟩
      omega
  · rename_i hzero
    split
    · rename_i hmany
      constructor
      · intro h
        cases h
      · rintro ⟨rfl, _, hle⟩
        omega
    · rename_i hle
      constructor
      · intro h
        cases h
        exact ⟨rfl, by omega, by omega⟩
      · rintro ⟨rfl, _⟩
        rfl

/-- With at least one node assigned, only a number that the policy asks for itself can be out of range. -/
theorem resolve_error {error : ReplicationDurabilityError} (hassigned : 1 ≤ assignedNodes)
    (h : policy.resolve assignedNodes = .error error) : ∃ nodes, policy.asks = some nodes ∧
      (nodes = 0 ∧ error = .zeroNodes ∨
        assignedNodes < nodes ∧ error = .notEnoughAssignedNodes nodes assignedNodes) := by
  rw [resolve_eq] at h
  have hrange : (policy.requirement assignedNodes).nodes = 0 ∧ error = .zeroNodes ∨
      assignedNodes < (policy.requirement assignedNodes).nodes ∧
        error = .notEnoughAssignedNodes (policy.requirement assignedNodes).nodes assignedNodes := by
    split at h
    · rename_i hzero
      cases h
      exact .inl ⟨hzero, rfl⟩
    · split at h
      · rename_i hmany
        cases h
        exact .inr ⟨hmany, rfl⟩
      · cases h
  cases policy with
  | localDurable =>
    simp only [requirement] at hrange
    omega
  | replicaAccepted nodes => exact ⟨nodes, rfl, hrange⟩
  | replicaDurable nodes => exact ⟨nodes, rfl, hrange⟩
  | majorityDurable =>
    simp only [requirement] at hrange
    omega

end ReplicationDurabilityPolicy

/-! ## The replica sets of a plan -/

/-- The nodes that hold a replica: the owner and the followers. -/
def PartitionAssignment.replicaSet (a : PartitionAssignment) : Finset String := insert a.owner a.followers.toFinset

/-- In a plan the replica set is as large as the code counts it. -/
theorem card_replicaSet {input : PlacementInput} {r : ResourceIdentity} {a : PartitionAssignment}
    (ha : Assigned input r a) : a.replicaSet.card = a.replicaSetSize := by
  have howner : a.owner ∉ a.followers.toFinset := by
    rw [List.mem_toFinset]
    intro hmem
    exact (ha.followers.live a.owner hmem).2 rfl
  rw [PartitionAssignment.replicaSet, Finset.card_insert_of_notMem howner,
    List.toFinset_card_of_nodup ha.followers.nodup, PartitionAssignment.replicaSetSize]
  omega

/-- **Majority durability means intersecting quorums**, in every plan and for whatever the existing assignments list:
a majority requirement exists and any two such majorities share a node; a requirement can be met by distinct replicas;
and only a policy that asks for no node, or for more than there are, has none. -/
theorem planned_durability (strategy : PlacementStrategy) (input : PlacementInput) (plan : PlacementPlan)
    (h : strategy.plan input = .ok plan) (r : ResourceIdentity) (a : PartitionAssignment)
    (ha : plan.snapshot.assignments[r]? = some a) :
    (a.durability = .majorityDurable → ∃ requirement, a.durabilityRequirement = .ok requirement ∧
      ∀ s t : Finset String, s ⊆ a.replicaSet → t ⊆ a.replicaSet → s.card = requirement.nodes →
        t.card = requirement.nodes → (s ∩ t).Nonempty) ∧
    (∀ requirement, a.durabilityRequirement = .ok requirement →
      1 ≤ requirement.nodes ∧ requirement.nodes ≤ a.replicaSet.card) ∧
    ∀ error, a.durabilityRequirement = .error error → ∃ nodes, a.durability.asks = some nodes ∧
      (nodes = 0 ∧ error = .zeroNodes ∨
        a.replicaSet.card < nodes ∧ error = .notEnoughAssignedNodes nodes a.replicaSet.card) := by
  have hcard := card_replicaSet ((plan_placed h).assignment ha)
  have hone : 1 ≤ a.replicaSetSize := by
    rw [PartitionAssignment.replicaSetSize]
    omega
  rw [hcard]
  refine ⟨fun hmajority => ?_, fun requirement hok => ?_, fun error herror => ?_⟩
  · refine ⟨ReplicationDurabilityPolicy.requirement .majorityDurable a.replicaSetSize, ?_, fun s t hs ht hsn htn => ?_⟩
    · rw [PartitionAssignment.durabilityRequirement, hmajority, ReplicationDurabilityPolicy.resolve_ok_iff]
      refine ⟨rfl, ?_, ?_⟩
      · exact Nat.le_add_left 1 _
      · simp only [ReplicationDurabilityPolicy.requirement]
        omega
    · refine Finset.inter_nonempty_of_card_lt_card_add_card hs ht ?_
      simp only [ReplicationDurabilityPolicy.requirement] at hsn htn
      omega
  · exact (ReplicationDurabilityPolicy.resolve_ok_iff.1 hok).2
  · exact ReplicationDurabilityPolicy.resolve_error hone herror

/-! ### A majority of three -/

/-- The resource. -/
def ledger : ResourceIdentity where
  namespacePart := "work"
  name := "ledger"
  partition := 0
  group := none

/-- Four nodes; the old assignment names the owner and one follower twice. -/
def ledgerInput : PlacementInput where
  nodes := OrdMap.ofPairs (["a", "b", "c", "d"].map fun id => (id, .new id id none))
  resources := [ledger]
  existing := OrdMap.ofPairs [(ledger, { PartitionAssignment.new ledger "b" ["b", "d", "d"] 2 with
    durability := .majorityDurable })]
  targetFollowers := 2
  generation := 1

/-- What becomes of it. -/
def ledgerAssignment : PartitionAssignment :=
  { PartitionAssignment.new ledger "b" ["d", "c"] 2 with durability := .majorityDurable }

theorem planned_durability_ledger : ∃ requirement, ledgerAssignment.durabilityRequirement = .ok requirement ∧
    ∀ s t : Finset String, s ⊆ ledgerAssignment.replicaSet → t ⊆ ledgerAssignment.replicaSet →
      s.card = requirement.nodes → t.card = requirement.nodes → (s ∩ t).Nonempty :=
  (planned_durability .leastLoaded ledgerInput (planOf ledgerInput (OrdMap.ofPairs [(ledger, ledgerAssignment)]))
    (by decide) ledger ledgerAssignment (by decide)).1 rfl

end Ganglion
