import Mathlib.Logic.Function.Basic
import Ganglion.Core.Types

/-!
# The roles of a node

What a node has to do when one snapshot follows another (`plan_local_assignment_transitions`).

* `localAssignmentRole` is the role of a node for a resource, `localTransition` the turn of the loop: nine pairs of
  roles, five kinds of transitions. `TurnFor` is what a transition says, and all that is used of it.
* `LocalTransition.perform` is what a transition means for the node's roles. It is partial: a transition that does not
  fit the role at hand is refused.
* `replay_turn` is the step lemma, `replay_resources` the run, and `local_transitions_exact` the whole: the transitions
  are complete, in order, and their replay ends in the roles of the next snapshot.
-/

namespace Ganglion

open Std

/-- `LocalRole`. -/
inductive LocalRole where
  | owner
  | follower
  | none
  deriving DecidableEq

/-- `LocalTransition`. -/
inductive LocalTransition where
  | keepOwner (resource : ResourceIdentity)
  | keepFollower (resource : ResourceIdentity)
  | promoteFollowerToOwner (resource : ResourceIdentity) (toEpoch : UInt64)
  | demoteOwnerToFollower (resource : ResourceIdentity) (fromEpoch toEpoch : UInt64)
  | stopServing (resource : ResourceIdentity) (wasOwner : Bool)
  deriving DecidableEq

/-- `CoordinationSnapshot::assignment_for`. -/
def CoordinationSnapshot.assignmentFor (snapshot : CoordinationSnapshot) (resource : ResourceIdentity) :
    Option PartitionAssignment := snapshot.assignments[resource]?

/-- `local_assignment_role`. -/
def localAssignmentRole (snapshot : CoordinationSnapshot) (nodeId : String) (resource : ResourceIdentity) :
    LocalRole :=
  match snapshot.assignmentFor resource with
  | none => .none
  | some assignment =>
    if assignment.owner = nodeId then .owner
    else if assignment.followers.any (· == nodeId) then .follower
    else .none

/-- A turn of the loop of `plan_local_assignment_transitions`. -/
def localTransition (nodeId : String) (previous next : CoordinationSnapshot) (resource : ResourceIdentity) :
    Option LocalTransition :=
  let nextEpoch := ((next.assignmentFor resource).map (·.epoch)).getD 1
  match localAssignmentRole previous nodeId resource, localAssignmentRole next nodeId resource with
  | .owner, .owner => some (.keepOwner resource)
  | .follower, .follower => some (.keepFollower resource)
  | .none, .owner => some (.promoteFollowerToOwner resource nextEpoch)
  | .follower, .owner => some (.promoteFollowerToOwner resource nextEpoch)
  | .owner, .follower =>
    let previousEpoch := ((previous.assignmentFor resource).map (·.epoch)).getD 0
    let nextEpoch := ((next.assignmentFor resource).map (·.epoch)).getD previousEpoch
    some (.demoteOwnerToFollower resource previousEpoch nextEpoch)
  | .owner, .none => some (.stopServing resource true)
  | .follower, .none => some (.stopServing resource false)
  | .none, .follower => some (.keepFollower resource)
  | .none, .none => none

/-- The resources of two snapshots. -/
def transitionResources (previous next : CoordinationSnapshot) : BTreeSet ResourceIdentity :=
  (ExtTreeSet.ofList previous.assignments.keys).insertMany next.assignments.keys

/-- `plan_local_assignment_transitions`. -/
def planLocalAssignmentTransitions (nodeId : String) (previous next : CoordinationSnapshot) : List LocalTransition :=
  (transitionResources previous next).toList.filterMap (localTransition nodeId previous next)

/-! ## What a transition means -/

/-- The roles of a node, by resource. -/
abbrev LocalRoles := ResourceIdentity → LocalRole

namespace LocalTransition

/-- The resource that a transition is about. -/
def resource : LocalTransition → ResourceIdentity
  | keepOwner resource => resource
  | keepFollower resource => resource
  | promoteFollowerToOwner resource _ => resource
  | demoteOwnerToFollower resource _ _ => resource
  | stopServing resource _ => resource

/-- The roles that a transition may start from. -/
def startsFrom : LocalTransition → LocalRole → Bool
  | keepOwner _, role => role == .owner
  | keepFollower _, role => role != .owner
  | promoteFollowerToOwner _ _, role => role != .owner
  | demoteOwnerToFollower _ _ _, role => role == .owner
  | stopServing _ wasOwner, role => role == if wasOwner then .owner else .follower

/-- The role that a transition ends in. -/
def endsIn : LocalTransition → LocalRole
  | keepOwner _ => .owner
  | keepFollower _ => .follower
  | promoteFollowerToOwner _ _ => .owner
  | demoteOwnerToFollower _ _ _ => .follower
  | stopServing _ _ => .none

/-- The node carries out a transition that fits its role. -/
def perform (roles : LocalRoles) (transition : LocalTransition) : Option LocalRoles :=
  if transition.startsFrom (roles transition.resource) then
    some (Function.update roles transition.resource transition.endsIn)
  else none

/-- The node carries out transitions one after the other. -/
def replay (transitions : List LocalTransition) (roles : LocalRoles) : Option LocalRoles :=
  transitions.foldlM perform roles

end LocalTransition

/-- The roles of a node in a snapshot. -/
def rolesIn (nodeId : String) (snapshot : CoordinationSnapshot) : LocalRoles :=
  fun resource => localAssignmentRole snapshot nodeId resource

section

variable {nodeId : String} {previous next snapshot : CoordinationSnapshot} {r : ResourceIdentity}

/-! ## One resource -/

theorem localAssignmentRole_ne_none (h : localAssignmentRole snapshot nodeId r ≠ .none) :
    ∃ a, snapshot.assignments[r]? = some a := by
  cases ha : snapshot.assignments[r]? with
  | none =>
    exfalso
    apply h
    rw [localAssignmentRole, CoordinationSnapshot.assignmentFor, ha]
  | some a => exact ⟨a, rfl⟩

/-- The turn of the loop makes a transition exactly when the node has a role on one of the sides. -/
theorem localTransition_eq_none : localTransition nodeId previous next r = none ↔
    localAssignmentRole previous nodeId r = .none ∧ localAssignmentRole next nodeId r = .none := by
  unfold localTransition
  cases localAssignmentRole previous nodeId r <;> cases localAssignmentRole next nodeId r <;> simp

/-- What the transition of a turn says: its resource, the roles on both sides and, when the owner changes, the epochs of
the assignments. -/
structure TurnFor (nodeId : String) (previous next : CoordinationSnapshot) (r : ResourceIdentity)
    (transition : LocalTransition) : Prop where
  resource : transition.resource = r
  starts : transition.startsFrom (localAssignmentRole previous nodeId r) = true
  ends : transition.endsIn = localAssignmentRole next nodeId r
  promotes : ∀ q toEpoch, transition = .promoteFollowerToOwner q toEpoch →
    toEpoch = ((next.assignmentFor r).map (·.epoch)).getD 1
  demotes : ∀ q fromEpoch toEpoch, transition = .demoteOwnerToFollower q fromEpoch toEpoch →
    fromEpoch = ((previous.assignmentFor r).map (·.epoch)).getD 0 ∧
      toEpoch = ((next.assignmentFor r).map (·.epoch)).getD fromEpoch

/-- One case for each pair of roles; the pair without a role makes no transition. -/
theorem turnFor_localTransition {transition : LocalTransition}
    (h : localTransition nodeId previous next r = some transition) : TurnFor nodeId previous next r transition := by
  unfold localTransition at h
  cases hp : localAssignmentRole previous nodeId r <;> cases hn : localAssignmentRole next nodeId r <;>
    rw [hp, hn] at h <;> cases h <;>
    exact ⟨rfl, by rw [hp]; rfl, by rw [hn]; rfl, fun _ _ heq => (by cases heq <;> rfl),
      fun _ _ _ heq => (by cases heq <;> exact ⟨rfl, rfl⟩)⟩

/-- What the turn of the loop adds takes the node from its role in the previous snapshot to that in the next one. -/
theorem replay_turn {roles : LocalRoles} (hrole : roles r = localAssignmentRole previous nodeId r) :
    LocalTransition.replay (localTransition nodeId previous next r).toList roles =
      some (Function.update roles r (localAssignmentRole next nodeId r)) := by
  cases h : localTransition nodeId previous next r with
  | none =>
    obtain ⟨hp, hn⟩ := localTransition_eq_none.1 h
    rw [hn, ← hp, ← hrole, Function.update_eq_self]
    rfl
  | some transition =>
    have hturn := turnFor_localTransition h
    have hperform : transition.perform roles =
        some (Function.update roles r (localAssignmentRole next nodeId r)) := by
      rw [LocalTransition.perform, hturn.resource, hrole, if_pos hturn.starts, hturn.ends]
    simp [LocalTransition.replay, hperform]

/-! ## All resources -/

theorem LocalTransition.replay_append (ts us : List LocalTransition) (roles : LocalRoles) :
    LocalTransition.replay (ts ++ us) roles = (LocalTransition.replay ts roles).bind (LocalTransition.replay us) := by
  rw [replay, List.foldlM_append]
  rfl

/-- The transitions of some resources take the node to the next snapshot at these and leave the others alone. -/
theorem replay_resources {rs : List ResourceIdentity} (hrs : rs.Nodup) {roles : LocalRoles}
    (hroles : ∀ r ∈ rs, roles r = localAssignmentRole previous nodeId r) :
    LocalTransition.replay (rs.filterMap (localTransition nodeId previous next)) roles =
      some fun r => if r ∈ rs then localAssignmentRole next nodeId r else roles r := by
  induction rs generalizing roles with
  | nil => simp [LocalTransition.replay]
  | cons r rs ih =>
    obtain ⟨hr, hrs⟩ := List.nodup_cons.1 hrs
    have hsplit : (r :: rs).filterMap (localTransition nodeId previous next) =
        (localTransition nodeId previous next r).toList ++ rs.filterMap (localTransition nodeId previous next) := by
      cases h : localTransition nodeId previous next r with
      | none => rw [List.filterMap_cons_none h, Option.toList_none, List.nil_append]
      | some t => rw [List.filterMap_cons_some h, Option.toList_some, List.singleton_append]
    rw [hsplit, LocalTransition.replay_append, replay_turn (hroles r (.head rs)), Option.bind_some, ih hrs]
    · congr 1
      funext q
      by_cases hq : q = r
      · subst hq
        rw [if_neg hr, Function.update_self, if_pos (.head rs)]
      · simp [hq]
    · intro q hq
      have hne : q ≠ r := fun heq => hr (heq ▸ hq)
      rw [Function.update_of_ne hne]
      exact hroles q (.tail r hq)

theorem mem_transitionResources : r ∈ (transitionResources previous next).toList ↔
    r ∈ previous.assignments ∨ r ∈ next.assignments := by
  rw [ExtTreeSet.mem_toList, transitionResources, ExtTreeSet.mem_insertMany_list, ExtTreeSet.mem_ofList]
  simp

theorem nodup_transitionResources : (transitionResources previous next).toList.Nodup := by
  refine ExtTreeSet.ordered_toList.imp fun {a b} hlt heq => ?_
  rw [heq, compare_self] at hlt
  cases hlt

/-- A resource with a role on one of the sides is gone through. -/
theorem mem_transitionResources_of_role
    (h : localAssignmentRole previous nodeId r ≠ .none ∨ localAssignmentRole next nodeId r ≠ .none) :
    r ∈ (transitionResources previous next).toList := by
  rw [mem_transitionResources, ExtTreeMap.mem_iff_isSome_getElem?, ExtTreeMap.mem_iff_isSome_getElem?]
  rcases h with h | h
  · obtain ⟨a, ha⟩ := localAssignmentRole_ne_none h
    exact .inl (by rw [ha]; rfl)
  · obtain ⟨a, ha⟩ := localAssignmentRole_ne_none h
    exact .inr (by rw [ha]; rfl)

/-- The transitions are made of the resources with a role, in their order. -/
theorem resources_transitions : (planLocalAssignmentTransitions nodeId previous next).map LocalTransition.resource =
    (transitionResources previous next).toList.filter fun r =>
      localAssignmentRole previous nodeId r != .none || localAssignmentRole next nodeId r != .none := by
  rw [planLocalAssignmentTransitions]
  induction (transitionResources previous next).toList with
  | nil => rfl
  | cons r rs ih =>
    cases h : localTransition nodeId previous next r with
    | none =>
      obtain ⟨hp, hn⟩ := localTransition_eq_none.1 h
      rw [List.filterMap_cons_none h, ih, List.filter_cons_of_neg (by simp [hp, hn])]
    | some t =>
      have hrole : ¬(localAssignmentRole previous nodeId r = .none ∧ localAssignmentRole next nodeId r = .none) := by
        rw [← localTransition_eq_none, h]
        simp
      rw [List.filterMap_cons_some h, List.map_cons, ih, (turnFor_localTransition h).resource, List.filter_cons_of_pos]
      simpa [← not_and_or] using hrole

/-- Replaying the transitions on the roles of the previous snapshot gives those of the next one. -/
theorem replay_transitions :
    LocalTransition.replay (planLocalAssignmentTransitions nodeId previous next) (rolesIn nodeId previous) =
      some (rolesIn nodeId next) := by
  have hreplay := @replay_resources nodeId previous next _ (@nodup_transitionResources previous next)
    (rolesIn nodeId previous) fun r _ => rfl
  rw [planLocalAssignmentTransitions, hreplay]
  congr 1
  funext r
  -- a resource that is not gone through has no role on either side
  by_cases hr : localAssignmentRole previous nodeId r ≠ .none ∨ localAssignmentRole next nodeId r ≠ .none
  · exact if_pos (mem_transitionResources_of_role hr)
  · rw [not_or, not_not, not_not] at hr
    simp only [rolesIn, hr.1, hr.2, ite_self]

/-- A transition of the plan comes from the turn for its resource. -/
theorem turnFor_of_mem {transition : LocalTransition}
    (h : transition ∈ planLocalAssignmentTransitions nodeId previous next) :
    TurnFor nodeId previous next transition.resource transition := by
  obtain ⟨r, _, hr⟩ := List.mem_filterMap.1 h
  have hturn := turnFor_localTransition hr
  rwa [← hturn.resource] at hturn

/-- The assignment at a resource that has a transition to or from the owner. -/
theorem assignment_of_owner (h : localAssignmentRole snapshot nodeId r = .owner) :
    ∃ a, snapshot.assignments[r]? = some a ∧ a.owner = nodeId := by
  obtain ⟨a, ha⟩ := localAssignmentRole_ne_none (h.trans_ne nofun)
  refine ⟨a, ha, ?_⟩
  by_contra hne
  rw [localAssignmentRole, CoordinationSnapshot.assignmentFor, ha] at h
  simp only [if_neg hne] at h
  split at h
  · cases h
  · cases h

theorem assignment_of_follower (h : localAssignmentRole snapshot nodeId r = .follower) :
    ∃ a, snapshot.assignments[r]? = some a ∧ nodeId ∈ a.followers := by
  obtain ⟨a, ha⟩ := localAssignmentRole_ne_none (h.trans_ne nofun)
  refine ⟨a, ha, ?_⟩
  by_contra hne
  rw [localAssignmentRole, CoordinationSnapshot.assignmentFor, ha] at h
  simp only at h
  split at h
  · cases h
  · rw [if_neg (by simpa using hne)] at h
    cases h

end

/-- What the transitions from one snapshot to the next are for a node. -/
structure TransitionsExact (nodeId : String) (previous next : CoordinationSnapshot)
    (transitions : List LocalTransition) : Prop where
  ordered : (transitions.map LocalTransition.resource).Pairwise fun r q => compare r q = .lt
  complete : ∀ r, r ∈ transitions.map LocalTransition.resource ↔
    localAssignmentRole previous nodeId r ≠ .none ∨ localAssignmentRole next nodeId r ≠ .none
  replays : LocalTransition.replay transitions (rolesIn nodeId previous) = some (rolesIn nodeId next)
  promotions : ∀ r toEpoch, .promoteFollowerToOwner r toEpoch ∈ transitions →
    ∃ a, next.assignments[r]? = some a ∧ a.owner = nodeId ∧ a.epoch = toEpoch
  demotions : ∀ r fromEpoch toEpoch, .demoteOwnerToFollower r fromEpoch toEpoch ∈ transitions →
    (∃ a, previous.assignments[r]? = some a ∧ a.owner = nodeId ∧ a.epoch = fromEpoch) ∧
      ∃ a, next.assignments[r]? = some a ∧ nodeId ∈ a.followers ∧ a.epoch = toEpoch

theorem transitionsExact (nodeId : String) (previous next : CoordinationSnapshot) :
    TransitionsExact nodeId previous next (planLocalAssignmentTransitions nodeId previous next) where
  ordered := by
    rw [resources_transitions]
    exact ExtTreeSet.ordered_toList.filter _
  complete r := by
    rw [resources_transitions, List.mem_filter, Bool.or_eq_true, bne_iff_ne, bne_iff_ne]
    exact ⟨And.right, fun h => ⟨mem_transitionResources_of_role h, h⟩⟩
  replays := replay_transitions
  promotions r toEpoch h := by
    have hturn := turnFor_of_mem h
    obtain ⟨a, ha, howner⟩ := assignment_of_owner hturn.ends.symm
    have hto := hturn.promotes r toEpoch rfl
    rw [CoordinationSnapshot.assignmentFor, ha] at hto
    exact ⟨a, ha, howner, hto.symm⟩
  demotions r fromEpoch toEpoch h := by
    have hturn := turnFor_of_mem h
    obtain ⟨a, ha, howner⟩ := assignment_of_owner (eq_of_beq hturn.starts)
    obtain ⟨b, hb, hfollower⟩ := assignment_of_follower hturn.ends.symm
    obtain ⟨hfrom, hto⟩ := hturn.demotes r fromEpoch toEpoch rfl
    rw [CoordinationSnapshot.assignmentFor, ha] at hfrom
    rw [CoordinationSnapshot.assignmentFor, hb] at hto
    exact ⟨⟨a, ha, howner, hfrom.symm⟩, b, hb, hfollower, hto.symm⟩

/-- **Local transitions are complete and exact**, for every node and every two snapshots; and going through a snapshot
in between leaves the node in the same roles. -/
theorem local_transitions_exact (nodeId : String) :
    (∀ previous next, TransitionsExact nodeId previous next (planLocalAssignmentTransitions nodeId previous next)) ∧
      ∀ s₀ s₁ s₂ : CoordinationSnapshot,
        (LocalTransition.replay (planLocalAssignmentTransitions nodeId s₀ s₁) (rolesIn nodeId s₀)).bind
          (LocalTransition.replay (planLocalAssignmentTransitions nodeId s₁ s₂)) =
            LocalTransition.replay (planLocalAssignmentTransitions nodeId s₀ s₂) (rolesIn nodeId s₀) := by
  refine ⟨transitionsExact nodeId, fun s₀ s₁ s₂ => ?_⟩
  rw [replay_transitions, Option.bind_some, replay_transitions, replay_transitions]

end Ganglion
