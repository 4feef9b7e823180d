import Ganglion.Core.Placement

/-!
# Planning again

A plan is fed back to the planner as the existing assignments, after some nodes are gone (`replanInput`).

* `Replanned` says what may become of one assignment: nothing at all unless it used a node that is gone, and then no
  more than that forces.
* `replanned` proves it for one resource, from what `gather_followers` returns on both sides (`Gathered`); which owner
  a planner prefers plays no part in it.
* `replan_stable` is the statement about whole plans, for either strategy.
-/

namespace Ganglion

open Std

/-- The nodes that are left. -/
def survivors (nodes : BTreeMap String NodeInfo) (removed : BTreeSet String) : BTreeMap String NodeInfo :=
  nodes.filter fun id _ => !removed.contains id

/-- The input for planning again: the nodes that are left, and the assignments of the plan as the existing ones. -/
def replanInput (input : PlacementInput) (plan : PlacementPlan) (removed : BTreeSet String)
    (resources : List ResourceIdentity) (generation : UInt64) : PlacementInput where
  nodes := survivors input.nodes removed
  resources := resources
  existing := plan.snapshot.assignments
  targetFollowers := input.targetFollowers
  generation := generation

/-- What planning again makes of the assignment `a`. -/
structure Replanned (nodes : BTreeMap String NodeInfo) (removed : BTreeSet String) (a b : PartitionAssignment) :
    Prop where
  keepsOwner : a.owner ∉ removed → b.owner = a.owner ∧ b.epoch = a.epoch
  untouched : a.owner ∉ removed → (∀ f ∈ a.followers, f ∉ removed) → b = a
  movesOwner : a.owner ∈ removed →
    b.owner ∈ survivors nodes removed ∧ (a.epoch < u64Max → b.epoch.toNat = a.epoch.toNat + 1)
  followers : ∃ added, b.followers = (a.followers.filter fun f => f ∉ removed ∧ f ≠ b.owner) ++ added ∧
    ∀ f ∈ added, f ∉ a.followers
  durability : b.durability = a.durability

section

variable {nodes : BTreeMap String NodeInfo} {removed : BTreeSet String} {id : String}

theorem mem_survivors : id ∈ survivors nodes removed ↔ id ∈ nodes ∧ id ∉ removed := by
  rw [survivors, ExtTreeMap.mem_filter]
  simp only [ExtTreeMap.getKey_eq, Bool.not_eq_true', ExtTreeSet.mem_iff_contains, Bool.not_eq_true, exists_prop]

theorem mem_survivors_keys : id ∈ (survivors nodes removed).keys ↔ id ∈ nodes.keys ∧ id ∉ removed := by
  rw [ExtTreeMap.mem_keys, mem_survivors, ExtTreeMap.mem_keys]

theorem survivors_empty : survivors nodes ∅ = nodes := by
  apply ExtTreeMap.ext_getElem?
  intro id
  rw [survivors, ExtTreeMap.getElem?_filter']
  cases nodes[id]? <;> simp [Option.filter]

end

/-! ## One resource -/

section

variable {owner owner' : String} {t : Nat} {ids ids' old followers followers' : List String}

/-- Where none of the followers is gone and the owner stays, so do the followers. -/
theorem Gathered.stays (h : Gathered owner t ids old followers) (h' : Gathered owner t ids' followers followers')
    (hids : ∀ id ∈ ids', id ∈ ids) (hfollowers : ∀ f ∈ followers, f ∈ ids') : followers' = followers := by
  obtain ⟨added, heq, hadded⟩ := h'.keeps h.nodup h.length_le
  have hfilter : (followers.filter fun f => f != owner && ids'.contains f) = followers := by
    rw [List.filter_eq_self]
    intro f hf
    simp [hfollowers f hf, (h.live f hf).2]
  rw [hfilter] at heq
  have hlen : followers'.length = followers.length + added.length := by rw [heq, List.length_append]
  -- either there is no room for more, or the followers were all the nodes there are
  suffices hnil : added = [] by rw [heq, hnil, List.append_nil]
  by_contra hne
  obtain ⟨f, hf⟩ := List.exists_mem_of_ne_nil added hne
  have hlive := h'.live f (heq ▸ List.mem_append_right followers hf)
  apply hadded f hf
  apply h.exhausts _ f (hids f hlive.1) hlive.2
  have hpos := List.length_pos_of_mem hf
  have hle := h'.length_le
  omega

end

section

variable {input : PlacementInput} {plan : PlacementPlan} {removed : BTreeSet String}
  {resources : List ResourceIdentity} {generation : UInt64} {r : ResourceIdentity} {a b : PartitionAssignment}

/-- What the second plan says of a resource, in terms of the first. -/
theorem assigned_again (hr : plan.snapshot.assignments[r]? = some a)
    (hb : Assigned (replanInput input plan removed resources generation) r b) :
    OwnerFor (survivors input.nodes removed).keys (some a) b.owner ∧
      Gathered b.owner input.targetFollowers (survivors input.nodes removed).keys a.followers b.followers ∧
      b.epoch = placementEpoch (some a) b.owner ∧ b.durability = a.durability := by
  obtain ⟨_, howner, hfollowers, hepoch, hdurability⟩ := hb
  have hexisting : (replanInput input plan removed resources generation).existing[r]? = some a := hr
  rw [hexisting] at howner hfollowers hepoch hdurability
  exact ⟨howner, hfollowers, hepoch, hdurability⟩

/-- The followers that are left and not the owner come first. -/
theorem Gathered.front (ha : Assigned input r a)
    (h : Gathered b.owner input.targetFollowers (survivors input.nodes removed).keys a.followers b.followers) :
    ∃ added, b.followers = (a.followers.filter fun f => f ∉ removed ∧ f ≠ b.owner) ++ added ∧
      ∀ f ∈ added, f ∉ a.followers := by
  obtain ⟨added, heq, hadded⟩ := h.keeps ha.followers.nodup ha.followers.length_le
  refine ⟨added, ?_, hadded⟩
  rw [heq]
  congr 1
  apply List.filter_congr
  intro f hf
  have hmem : f ∈ (survivors input.nodes removed).keys ↔ f ∉ removed := by
    rw [mem_survivors_keys]
    exact and_iff_right (ha.followers.live f hf).1
  rw [Bool.eq_iff_iff, Bool.and_eq_true, bne_iff_ne, List.contains_iff_mem, hmem, decide_eq_true_iff, and_comm]

/-- **One assignment, planned again.** -/
theorem replanned (ha : Assigned input r a) (hr : plan.snapshot.assignments[r]? = some a)
    (hb : Assigned (replanInput input plan removed resources generation) r b) :
    Replanned input.nodes removed a b := by
  obtain ⟨howner, hgathered, hepoch, hdurability⟩ := assigned_again hr hb
  have hkeeps : a.owner ∉ removed → b.owner = a.owner ∧ b.epoch = a.epoch := by
    intro hlive
    have heq := howner.kept a rfl (mem_survivors_keys.2 ⟨ha.owner.live, hlive⟩)
    exact ⟨heq, by rw [hepoch, placementEpoch, if_pos heq.symm]⟩
  refine ⟨hkeeps, fun hlive hfollowers => ?_, fun hgone => ⟨ExtTreeMap.mem_keys.1 howner.live, fun hlt => ?_⟩,
    hgathered.front ha, hdurability⟩
  · obtain ⟨howner', hepoch'⟩ := hkeeps hlive
    rw [howner'] at hgathered
    have hsame := ha.followers.stays hgathered (fun id hid => (mem_survivors_keys.1 hid).1) fun f hf =>
      mem_survivors_keys.2 ⟨(ha.followers.live f hf).1, hfollowers f hf⟩
    cases a
    cases b
    simp only [PartitionAssignment.mk.injEq]
    exact ⟨hb.resource.trans ha.resource.symm, howner', hsame, hepoch', hdurability⟩
  · -- the new owner is live, the old one is not
    have hne : a.owner ≠ b.owner := by
      intro heq
      exact (mem_survivors_keys.1 (heq ▸ howner.live)).2 hgone
    rw [hepoch, placementEpoch, if_neg hne, toNat_saturatingSucc hlt]

end

/-! ## Whole plans -/

/-- **Planning again is stable and local.** -/
theorem replan_stable (strategy : PlacementStrategy) (input : PlacementInput) (plan : PlacementPlan)
    (h : strategy.plan input = .ok plan) (removed : BTreeSet String) (hlive : ∃ id ∈ input.nodes, id ∉ removed)
    (resources : List ResourceIdentity) (hresources : ∀ r, r ∈ resources ↔ r ∈ input.resources)
    (generation : UInt64) :
    ∃ plan', strategy.plan (replanInput input plan removed resources generation) = .ok plan' ∧
      (∀ r, r ∈ plan'.snapshot.assignments ↔ r ∈ plan.snapshot.assignments) ∧
      (∀ (r : ResourceIdentity) (a b : PartitionAssignment), plan.snapshot.assignments[r]? = some a →
        plan'.snapshot.assignments[r]? = some b → Replanned input.nodes removed a b) ∧
      (removed = ∅ → plan'.snapshot = { plan.snapshot with generation := generation }) := by
  obtain ⟨id, hid, hgone⟩ := hlive
  have hleft : id ∈ (replanInput input plan removed resources generation).nodes := mem_survivors.2 ⟨hid, hgone⟩
  obtain ⟨plan', h'⟩ := plan_succeeds strategy hleft
  have hplaced := plan_placed h
  have hplaced' := plan_placed h'
  have hkeys : ∀ r, r ∈ plan'.snapshot.assignments ↔ r ∈ plan.snapshot.assignments := by
    intro r
    rw [hplaced'.resources, hplaced.resources]
    exact hresources r
  have hassigned : ∀ (r : ResourceIdentity) (a b : PartitionAssignment), plan.snapshot.assignments[r]? = some a →
      plan'.snapshot.assignments[r]? = some b → Replanned input.nodes removed a b :=
    fun r a b ha hb => replanned (hplaced.assignment ha) ha (hplaced'.assignment hb)
  refine ⟨plan', h', hkeys, hassigned, ?_⟩
  rintro rfl
  have hassignments : plan'.snapshot.assignments = plan.snapshot.assignments := by
    apply ExtTreeMap.ext_getElem?
    intro r
    have hr := hkeys r
    rw [ExtTreeMap.mem_iff_isSome_getElem?, ExtTreeMap.mem_iff_isSome_getElem?] at hr
    cases ha : plan.snapshot.assignments[r]? with
    | none =>
      rw [ha] at hr
      simpa using hr
    | some a =>
      rw [ha] at hr
      obtain ⟨b, hb⟩ := Option.isSome_iff_exists.1 (hr.2 rfl)
      rw [hb, (hassigned r a b ha hb).untouched (by simp) (by simp)]
  rw [hplaced'.snapshot, hplaced.snapshot, hassignments]
  simp [planOf, replanInput, survivors_empty]

/-! ### One resource on three nodes -/

/-- The resource. -/
def jobs : ResourceIdentity where
  namespacePart := "work"
  name := "jobs"
  partition := 0
  group := none

/-- Three nodes, and one follower wanted. -/
def threeNodes : PlacementInput where
  nodes := OrdMap.ofPairs (["a", "b", "c"].map fun id => (id, .new id id none))
  resources := [jobs]
  existing := ∅
  targetFollowers := 1
  generation := 1

/-- The plan for them. -/
def firstPlan : PlacementPlan := planOf threeNodes (OrdMap.ofPairs [(jobs, .new jobs "a" ["b"] 1)])

/-- The owner goes, and its follower may become the owner. -/
theorem replan_stable_ownerGone :
    ∃ plan', PlacementStrategy.leastLoaded.plan
        (replanInput threeNodes firstPlan ((∅ : BTreeSet String).insert "a") [jobs, jobs] 2) = .ok plan' ∧
      ∀ b, plan'.snapshot.assignments[jobs]? = some b →
        b.owner ∈ survivors threeNodes.nodes ((∅ : BTreeSet String).insert "a") ∧ b.epoch.toNat = 2 := by
  obtain ⟨plan', hplan, _, hassigned, _⟩ := replan_stable .leastLoaded threeNodes firstPlan (by decide)
    ((∅ : BTreeSet String).insert "a") ⟨"b", by decide, by decide⟩ [jobs, jobs] (by simp [threeNodes]) 2
  refine ⟨plan', hplan, fun b hb => ?_⟩
  have hmoved := (hassigned jobs (.new jobs "a" ["b"] 1) b (by decide) hb).movesOwner (by decide)
  exact ⟨hmoved.1, hmoved.2 (by decide)⟩

end Ganglion
