import Mathlib.Data.List.Rotate
import Ganglion.Core.Placement

/-!
# Which followers, in which order

What `gather_followers` is for, without its loops: the old followers that can stay, then the other live nodes around the
ring of node ids, beginning after the owner (`referenceFollowers`).

* `items_upTo` runs the two loops with any cut-off of the cursor that lets it go round once.
* `gatherFollowers_eq_reference` truncates the result.
* `length_reference` counts it, and `owners_retarget` says that the owners of a plan do not depend on how many
  followers are wanted.
-/

namespace Ganglion

open Std

/-- The old followers that are live and not the owner, each where it is listed first. -/
def reusedFollowers (owner : String) (ids old : List String) : List String :=
  (old.filter fun f => f != owner && ids.contains f).eraseDups

/-- The remaining live nodes, around the ring from the node after the owner. -/
def ringFollowers (owner : String) (ids old : List String) : List String :=
  (ids.rotate (ids.idxOf owner + 1)).filter fun f => f != owner && !(reusedFollowers owner ids old).contains f

/-- All that can follow, in order of preference. -/
def referenceFollowers (owner : String) (ids old : List String) : List String :=
  reusedFollowers owner ids old ++ ringFollowers owner ids old

/-- The nodes that the second loop of `gather_followers` would look at if its cursor ran from 1 to `cutOff`. -/
def candidatesUpTo (cutOff : Nat) (owner : String) (nodeIds : NodeIds) : List String :=
  let ownerIndex := (nodeIds.1.findIdx? (· == owner)).getD 0
  (List.range' 1 cutOff).map fun cursor => nodeIds.cyclic (ownerIndex + cursor)

/-- `gather_followers` with another cut-off for its cursor. -/
def gatherFollowersUpTo (cutOff : Nat) (owner : String) (targetFollowers : Nat) (nodeIds : NodeIds)
    (existing : Option PartitionAssignment) : List String :=
  if nodeIds.1.length ≤ 1 ∨ targetFollowers = 0 then []
  else
    let kept := keptFollowers owner nodeIds existing
    if kept.items.length ≥ targetFollowers then kept.items.take targetFollowers
    else
      let filled := kept.offerUpTo targetFollowers (fun candidate => candidate != owner)
        (candidatesUpTo cutOff owner nodeIds)
      filled.items.take targetFollowers

/-- The cut-off of the source is twice the number of nodes. -/
theorem gatherFollowers_eq_upTo (owner : String) (targetFollowers : Nat) (nodeIds : NodeIds)
    (existing : Option PartitionAssignment) : gatherFollowers owner targetFollowers nodeIds existing =
      gatherFollowersUpTo (nodeIds.1.length * 2) owner targetFollowers nodeIds existing := rfl

section

variable {owner : String} {targetFollowers cutOff : Nat} {nodeIds : NodeIds} {existing : Option PartitionAssignment}

/-! ## The cursor goes round -/

/-- The first round of the cursor is the ring, beginning after the owner. -/
theorem candidatesUpTo_length (howner : owner ∈ nodeIds.1) : candidatesUpTo nodeIds.1.length owner nodeIds =
    nodeIds.1.rotate (nodeIds.1.idxOf owner + 1) := by
  have hindex : (nodeIds.1.findIdx? (· == owner)).getD 0 = nodeIds.1.idxOf owner := by
    rw [@List.findIdx?_eq_some_of_exists _ _ (· == owner) ⟨owner, howner, beq_self_eq_true owner⟩, Option.getD_some,
      List.idxOf]
  refine List.ext_getElem (by simp [candidatesUpTo]) fun i hi _ => ?_
  simp only [candidatesUpTo, hindex, List.getElem_map, List.getElem_range', NodeIds.cyclic, List.get_eq_getElem,
    List.getElem_rotate]
  congr 2
  omega

/-- A cursor that goes round looks at the ring first, and then at nodes of it again. -/
theorem candidatesUpTo_split (howner : owner ∈ nodeIds.1) (hcut : nodeIds.1.length ≤ cutOff) :
    ∃ again, candidatesUpTo cutOff owner nodeIds = nodeIds.1.rotate (nodeIds.1.idxOf owner + 1) ++ again ∧
      ∀ f ∈ again, f ∈ nodeIds.1 := by
  obtain ⟨extra, rfl⟩ := Nat.exists_eq_add_of_le hcut
  rw [← candidatesUpTo_length howner, candidatesUpTo, ← List.range'_append, List.map_append]
  refine ⟨_, rfl, fun f hf => ?_⟩
  obtain ⟨cursor, _, rfl⟩ := List.mem_map.1 hf
  exact NodeIds.cyclic_mem _

/-! ## The two loops -/

theorem items_kept : (keptFollowers owner nodeIds existing).items =
    reusedFollowers owner nodeIds.1 (existingFollowers existing) := by
  rw [keptFollowers_eq, Arrivals.items_offerAll_eq, Arrivals.items_empty, List.nil_append, reusedFollowers]
  simp

/-- Both loops together, without a target: any cut-off that lets the cursor go round collects the same. -/
theorem items_upTo (hids : nodeIds.1.Nodup) (howner : owner ∈ nodeIds.1) (hcut : nodeIds.1.length ≤ cutOff) :
    ((keptFollowers owner nodeIds existing).offerAll (fun candidate => candidate != owner)
      (candidatesUpTo cutOff owner nodeIds)).items =
        referenceFollowers owner nodeIds.1 (existingFollowers existing) := by
  obtain ⟨again, hsplit, hagain⟩ := candidatesUpTo_split howner hcut
  rw [hsplit, Arrivals.offerAll, List.foldl_append, ← Arrivals.offerAll, ← Arrivals.offerAll,
    Arrivals.offerAll_of_arrived, Arrivals.items_offerAll_of_nodup (List.nodup_rotate.2 hids), items_kept,
    referenceFollowers, ringFollowers]
  -- what the cursor meets again has arrived in the first round
  intro f hf hne
  rw [Arrivals.mem_offerAll]
  exact .inr ⟨List.mem_rotate.2 (hagain f hf), hne⟩

/-- What there is to choose from: the live nodes other than the owner, each once. -/
theorem reference_perm (hids : nodeIds.1.Nodup) (howner : owner ∈ nodeIds.1) :
    (referenceFollowers owner nodeIds.1 (existingFollowers existing)).Perm (nodeIds.1.erase owner) := by
  have hitems := @items_upTo owner _ nodeIds existing hids howner (Nat.le_refl _)
  refine (List.perm_ext_iff_of_nodup (hitems ▸ Arrivals.nodup _) (hids.erase owner)).2 fun f => ?_
  rw [← hitems, hids.mem_erase_iff, Arrivals.mem_offerAll, items_kept, candidatesUpTo_length howner, List.mem_rotate,
    reusedFollowers, List.mem_eraseDups, List.mem_filter, Bool.and_eq_true, bne_iff_ne, List.contains_iff_mem]
  tauto

theorem length_reference (hids : nodeIds.1.Nodup) (howner : owner ∈ nodeIds.1) :
    (referenceFollowers owner nodeIds.1 (existingFollowers existing)).length = nodeIds.1.length - 1 := by
  rw [(reference_perm hids howner).length_eq, List.length_erase_of_mem howner]

/-- **The followers are the front of the reference**, for any cut-off that lets the cursor go round. -/
theorem gatherFollowersUpTo_eq_reference (hids : nodeIds.1.Nodup) (howner : owner ∈ nodeIds.1)
    (hcut : nodeIds.1.length ≤ cutOff) : gatherFollowersUpTo cutOff owner targetFollowers nodeIds existing =
      (referenceFollowers owner nodeIds.1 (existingFollowers existing)).take targetFollowers := by
  rw [gatherFollowersUpTo]
  split
  · rename_i hnone
    have hlength := @length_reference owner nodeIds existing hids howner
    rcases hnone with hone | rfl
    · rw [List.length_eq_zero_iff.1 (show (referenceFollowers owner nodeIds.1 (existingFollowers existing)).length = 0
        by omega), List.take_nil]
    · rw [List.take_zero]
  dsimp only
  split
  · rename_i hfull
    rw [items_kept] at hfull ⊢
    rw [referenceFollowers, List.take_append_of_le_length hfull]
  · rw [Arrivals.take_offerUpTo, items_upTo hids howner hcut]

theorem gatherFollowers_eq_reference (hids : nodeIds.1.Nodup) (howner : owner ∈ nodeIds.1) :
    gatherFollowers owner targetFollowers nodeIds existing =
      (referenceFollowers owner nodeIds.1 (existingFollowers existing)).take targetFollowers := by
  rw [gatherFollowers_eq_upTo]
  exact gatherFollowersUpTo_eq_reference hids howner (by omega)

end

/-! ## Plans -/

/-- The owners of two assignment maps are the same. -/
def SameOwners (m m' : BTreeMap ResourceIdentity PartitionAssignment) : Prop :=
  ∀ r : ResourceIdentity, m[r]?.map PartitionAssignment.owner = m'[r]?.map PartitionAssignment.owner

theorem SameOwners.insert {m m' : BTreeMap ResourceIdentity PartitionAssignment} (h : SameOwners m m')
    (r : ResourceIdentity) {a a' : PartitionAssignment} (howner : a.owner = a'.owner) :
    SameOwners (m.insert r a) (m'.insert r a') := by
  intro q
  rw [ExtTreeMap.getElem?_insert, ExtTreeMap.getElem?_insert]
  split
  · rw [Option.map_some, Option.map_some, howner]
  · exact h q

/-- The input with another number of wanted followers. -/
def PlacementInput.retarget (input : PlacementInput) (targetFollowers : Nat) : PlacementInput :=
  { input with targetFollowers := targetFollowers }

/-- How the planners begin does not depend on the wanted number of followers. -/
theorem planWith_retarget {input : PlacementInput} {plan : PlacementPlan} {targetFollowers : Nat}
    {assign assign' : NodeIds → List ResourceIdentity → BTreeMap ResourceIdentity PartitionAssignment}
    (hassign : ∀ nodeIds resources, SameOwners (assign nodeIds resources) (assign' nodeIds resources))
    (h : planWith input assign = .ok plan) : ∃ plan', planWith (input.retarget targetFollowers) assign' = .ok plan' ∧
      SameOwners plan.snapshot.assignments plan'.snapshot.assignments := by
  unfold planWith at h ⊢
  split at h
  · rename_i hempty
    cases h
    exact ⟨_, if_pos hempty, fun r => rfl⟩
  · rename_i hsome
    split at h
    · cases h
    · rename_i hids
      cases h
      exact ⟨_, (if_neg hsome).trans (dif_neg hids), hassign _ _⟩

/-- **The owners do not depend on the wanted number of followers.** -/
theorem owners_retarget {strategy : PlacementStrategy} {input : PlacementInput} {plan : PlacementPlan}
    (targetFollowers : Nat) (h : strategy.plan input = .ok plan) :
    ∃ plan', strategy.plan (input.retarget targetFollowers) = .ok plan' ∧
      SameOwners plan.snapshot.assignments plan'.snapshot.assignments := by
  cases strategy with
  | deterministic =>
    rw [PlacementStrategy.plan, DeterministicPartitionPlacement.plan] at h ⊢
    refine planWith_retarget (fun nodeIds resources => List.foldl_rel (fun r => rfl) ?_) h
    intro entry _ m m' hm
    exact hm.insert entry.1 rfl
  | leastLoaded =>
    rw [PlacementStrategy.plan, LeastLoadedPartitionPlacement.plan] at h ⊢
    refine planWith_retarget (fun nodeIds resources => ?_) h
    -- the load counters of the two runs are the same at every turn
    refine (List.foldl_rel (r := fun (s s' : LeastLoadedPartitionPlacement.Progress) =>
      s.load = s'.load ∧ SameOwners s.assignments s'.assignments) ⟨rfl, fun r => rfl⟩ ?_).2
    rintro r _ ⟨load, m⟩ ⟨_, m'⟩ ⟨rfl, hm⟩
    exact ⟨rfl, hm.insert r rfl⟩

/-- **Follower selection equals its reference definition**: the followers of a planned resource are the front of the
reference at the chosen owner. So they are distinct live nodes other than the owner, as many as wanted or as there are,
more wanted followers only append, and a cursor that goes on for longer than that of the source finds no more. -/
theorem plan_followers_eq_reference (strategy : PlacementStrategy) (input : PlacementInput) (plan : PlacementPlan)
    (h : strategy.plan input = .ok plan) :
    (∀ (r : ResourceIdentity) (a : PartitionAssignment), plan.snapshot.assignments[r]? = some a →
      a.owner ∈ input.nodes ∧
      a.followers = (referenceFollowers a.owner input.nodes.keys (existingFollowers input.existing[r]?)).take
        input.targetFollowers ∧
      a.followers.Nodup ∧ (∀ f ∈ a.followers, f ∈ input.nodes ∧ f ≠ a.owner) ∧
      a.followers.length = min input.targetFollowers (input.nodes.size - 1) ∧
      ∀ (hids : input.nodes.keys ≠ []) (cutOff : Nat), input.nodes.size ≤ cutOff →
        gatherFollowersUpTo cutOff a.owner input.targetFollowers ⟨input.nodes.keys, hids⟩ input.existing[r]? =
          a.followers) ∧
    ∀ targetFollowers, input.targetFollowers ≤ targetFollowers →
      ∃ plan', strategy.plan (input.retarget targetFollowers) = .ok plan' ∧
        (∀ r, r ∈ plan'.snapshot.assignments ↔ r ∈ plan.snapshot.assignments) ∧
        ∀ (r : ResourceIdentity) (a a' : PartitionAssignment), plan.snapshot.assignments[r]? = some a →
          plan'.snapshot.assignments[r]? = some a' → a'.owner = a.owner ∧ a.followers <+: a'.followers := by
  have hids : input.nodes.keys.Nodup := ExtTreeMap.nodup_keys
  have hreference : ∀ {t : Nat} {plan : PlacementPlan} {r : ResourceIdentity} {a : PartitionAssignment},
      strategy.plan (input.retarget t) = .ok plan → plan.snapshot.assignments[r]? = some a →
      a.owner ∈ input.nodes.keys ∧ a.followers =
        (referenceFollowers a.owner input.nodes.keys (existingFollowers input.existing[r]?)).take t := by
    intro t plan r a h ha
    obtain ⟨hne, owner, howner, rfl⟩ := (plan_placed h).assigned r a ha
    exact ⟨howner.live, gatherFollowers_eq_reference hids howner.live⟩
  refine ⟨fun r a ha => ?_, fun t ht => ?_⟩
  · obtain ⟨howner, hfollowers⟩ := hreference h ha
    have hassigned := ((plan_placed h).assignment ha).followers
    refine ⟨ExtTreeMap.mem_keys.1 howner, hfollowers, hassigned.nodup, fun f hf => ?_, ?_, fun hne cutOff hcut => ?_⟩
    · exact ⟨ExtTreeMap.mem_keys.1 (hassigned.live f hf).1, (hassigned.live f hf).2⟩
    · rw [hfollowers, List.length_take,
        @length_reference a.owner ⟨input.nodes.keys, List.ne_nil_of_mem howner⟩ _ hids howner, ExtTreeMap.length_keys]
    · rw [hfollowers]
      exact gatherFollowersUpTo_eq_reference hids howner (ExtTreeMap.length_keys.trans_le hcut)
  · obtain ⟨plan', h', hsame⟩ := owners_retarget t h
    refine ⟨plan', h', fun r => ((plan_placed h').resources r).trans ((plan_placed h).resources r).symm, ?_⟩
    intro r a a' ha ha'
    have howner : a.owner = a'.owner := by simpa [ha, ha'] using hsame r
    refine ⟨howner.symm, ?_⟩
    rw [(hreference h ha).2, (hreference h' ha').2, howner]
    exact List.take_prefix_take_left ht

/-! ### An existing assignment with dead, repeated and self-referring followers -/

/-- The resource. -/
def mail : ResourceIdentity where
  namespacePart := "work"
  name := "mail"
  partition := 3
  group := none

/-- Four nodes; the owner `b` is live, and more followers are wanted than there are nodes. -/
def fourNodes : PlacementInput where
  nodes := OrdMap.ofPairs (["a", "b", "c", "d"].map fun id => (id, .new id id none))
  resources := [mail]
  existing := OrdMap.ofPairs [(mail, .new mail "b" ["d", "b", "gone", "d"] 7)]
  targetFollowers := 10
  generation := 1

/-- The plan for them. -/
def mailPlan : PlacementPlan := planOf fourNodes (OrdMap.ofPairs [(mail, .new mail "b" ["d", "c", "a"] 7)])

theorem plan_followers_eq_reference_fourNodes :
    ∃ a, mailPlan.snapshot.assignments[mail]? = some a ∧ a.followers =
      (referenceFollowers a.owner fourNodes.nodes.keys ["d", "b", "gone", "d"]).take 10 ∧ a.followers.length = 3 :=
  have h := (plan_followers_eq_reference .leastLoaded fourNodes mailPlan (by decide)).1 mail
    (.new mail "b" ["d", "c", "a"] 7) (by decide)
  ⟨_, by decide, h.2.1, h.2.2.2.2.1⟩

end Ganglion
