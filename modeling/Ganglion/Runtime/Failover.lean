import Ganglion.Core.PlanEpochs
import Ganglion.Core.Replan
import Ganglion.Runtime.Controller

/-!
# Failover

The controller loop as it is meant to be used (read, plan, stamp, propose guarded, retry), with a planner of the core
crate doing the planning. The closure given to `plan_and_propose_guarded` is the caller's; here it puts the planned
assignments into the snapshot that was read. Any number of such controllers race on one log, each with its own planner,
its own idea of which nodes are live and its own resources.

* `failsOver_step`: what one commit does to one resource.
* `owners_change_at_failovers`: a resource changes its owner at the proposals whose controller takes the owner for
  dead, and its epoch counts them.
* `placement_settles`: where all controllers place the catalogue on the registered nodes, one accepted proposal brings
  every resource to registered nodes, and the assignments stay until nodes or catalogue change.
-/

namespace Ganglion

open Std CoordinationSnapshot

/-! ## Controllers that place -/

/-- A controller that leaves the choice of owners and followers to a planner. For the snapshot it reads it says which
nodes are live, which resources are placed, and with how many followers. -/
structure PlacementController where
  strategy : PlacementStrategy
  live : CoordinationSnapshot → BTreeMap String NodeInfo
  resources : CoordinationSnapshot → List ResourceIdentity
  targetFollowers : CoordinationSnapshot → Nat

namespace PlacementController

/-- What the planner is asked. -/
def input (k : PlacementController) (committed : CoordinationSnapshot) : PlacementInput where
  nodes := k.live committed
  resources := k.resources committed
  existing := committed.assignments
  targetFollowers := k.targetFollowers committed
  generation := committed.generation + 1

/-- The closure given to `plan_and_propose_guarded`. Where the planner fails it returns what it was given. -/
def plan (k : PlacementController) (committed : CoordinationSnapshot) : CoordinationSnapshot :=
  match k.strategy.plan (k.input committed) with
  | .ok plan => { committed with assignments := plan.snapshot.assignments }
  | .error _ => committed

/-- The controller that places the catalogue on the registered nodes. -/
def standing (strategy : PlacementStrategy) (targetFollowers : Nat) : PlacementController where
  strategy := strategy
  live := (·.nodes)
  resources := (·.resources.toList)
  targetFollowers := fun _ => targetFollowers

variable {k : PlacementController} {s : CoordinationSnapshot} {r : ResourceIdentity} {a b : PartitionAssignment}

@[simp] theorem plan_nodes : (k.plan s).nodes = s.nodes := by
  unfold PlacementController.plan
  split <;> rfl

@[simp] theorem plan_resources : (k.plan s).resources = s.resources := by
  unfold PlacementController.plan
  split <;> rfl

/-- The planner fails only where no node is live. -/
theorem live_of_error {e : PlacementError} (h : k.strategy.plan (k.input s) = .error e) (id : String) :
    id ∉ k.live s := by
  intro hid
  obtain ⟨plan, hplan⟩ := @plan_succeeds k.strategy (k.input s) id hid
  rw [hplan] at h
  cases h

/-- A proposal leaves the planned assignments as the planner made them. -/
theorem desired_of_ok (hepochs : ∀ (r : ResourceIdentity) a, s.assignments[r]? = some a → a.epoch < u64Max)
    {plan : PlacementPlan} (h : k.strategy.plan (k.input s) = .ok plan) :
    (desiredSnapshot k.plan s).assignments = plan.snapshot.assignments := by
  apply ExtTreeMap.ext_getElem?
  intro r
  have hplan : (k.plan s).assignments = plan.snapshot.assignments := by rw [PlacementController.plan, h]
  rw [getElem?_desiredSnapshot, hplan]
  cases hr : plan.snapshot.assignments[r]? with
  | none => rfl
  | some a =>
    have ha := (plan_placed h).assignment hr
    rw [Option.map_some, stamp_planned hepochs rfl ha]

/-- Where the planner fails, a proposal leaves the assignments. -/
theorem desired_of_error {e : PlacementError} (h : k.strategy.plan (k.input s) = .error e) :
    (desiredSnapshot k.plan s).assignments = s.assignments := by
  apply ExtTreeMap.ext_getElem?
  intro r
  have hplan : (k.plan s).assignments = s.assignments := by rw [PlacementController.plan, h]
  rw [getElem?_desiredSnapshot, hplan]
  cases hr : s.assignments[r]? with
  | none => rfl
  | some a =>
    have hepoch : (stampAssignment s r a).epoch = a.epoch := stampAssignment_kept hr rfl
    rw [Option.map_some, Option.some.injEq]
    cases a
    simp only [stampAssignment, PartitionAssignment.mk.injEq, true_and, and_true] at hepoch ⊢
    exact hepoch

/-- What a proposal does to a resource that is assigned before and after it, `live` being the nodes its controller takes
to be live. -/
structure Handover (live : BTreeMap String NodeInfo) (a b : PartitionAssignment) : Prop where
  kept : a.owner ∈ live → b.owner = a.owner ∧ b.epoch = a.epoch
  moved : a.owner ∉ live → (∃ id, id ∈ live) → b.owner ∈ live ∧ b.epoch.toNat = a.epoch.toNat + 1
  idle : (∀ id, id ∉ live) → b = a

theorem desired_handover (hepochs : ∀ (r : ResourceIdentity) a, s.assignments[r]? = some a → a.epoch < u64Max)
    (ha : s.assignments[r]? = some a) (hb : (desiredSnapshot k.plan s).assignments[r]? = some b) :
    Handover (k.live s) a b := by
  cases hplan : k.strategy.plan (k.input s) with
  | error e =>
    have hdead := live_of_error hplan
    rw [desired_of_error hplan, ha] at hb
    cases hb
    exact ⟨fun _ => ⟨rfl, rfl⟩, fun _ ⟨id, hid⟩ => absurd hid (hdead id), fun _ => rfl⟩
  | ok plan =>
    rw [desired_of_ok hepochs hplan] at hb
    have hassigned := (plan_placed hplan).assignment hb
    have hexisting : (k.input s).existing[r]? = some a := ha
    have hlive : b.owner ∈ k.live s := ExtTreeMap.mem_keys.1 hassigned.owner.live
    have hepoch : b.epoch = placementEpoch (some a) b.owner := hexisting ▸ hassigned.epoch
    refine ⟨fun hkept => ?_, fun hdead _ => ⟨hlive, ?_⟩, fun hnone => absurd hlive (hnone _)⟩
    · have howner := hassigned.owner.kept a hexisting (ExtTreeMap.mem_keys.2 hkept)
      exact ⟨howner, by rw [hepoch, placementEpoch, if_pos howner.symm]⟩
    · have hne : a.owner ≠ b.owner := fun h => hdead (h ▸ hlive)
      rw [hepoch, placementEpoch, if_neg hne, toNat_saturatingSucc (hepochs r a ha)]

end PlacementController

/-! ## Failovers -/

namespace Cluster

/-- The entry at position `n` is a proposal that the controller made from the state after `readAt` commands, and it is
accepted. -/
structure Places (c : Cluster) (n : Nat) (k : PlacementController) (readAt : Nat) : Prop where
  read : readAt ≤ n
  entry : c.log[n]? = some (guardedProposal k.plan (c.stateAt readAt))
  accepted : Accepted (c.stateAt n) (guardedProposal k.plan (c.stateAt readAt))

/-- At position `n` a controller that knows of live nodes, but not of the owner of `r` as one of them, gets its plan
accepted. -/
def FailsOver (c : Cluster) (r : ResourceIdentity) (n : Nat) : Prop :=
  ∃ k readAt a, c.Places n k readAt ∧ (c.stateAt n).assignments[r]? = some a ∧
    a.owner ∉ k.live (c.stateAt readAt) ∧ ∃ id, id ∈ k.live (c.stateAt readAt)

open Classical in
/-- How many failovers of `r` there are from position `i` to `j`. -/
noncomputable def failovers (c : Cluster) (r : ResourceIdentity) (i j : Nat) : Nat :=
  ((Finset.Ico i j).filter (c.FailsOver r)).card

/-- The owner of a resource after `n` commands. -/
def ownerAt (c : Cluster) (r : ResourceIdentity) (n : Nat) : Option String :=
  (c.stateAt n).assignments[r]?.map (·.owner)

/-- The epoch of a resource after `n` commands. -/
def epochAt (c : Cluster) (r : ResourceIdentity) (n : Nat) : Nat :=
  ((c.stateAt n).assignments[r]?.map (·.epoch.toNat)).getD 0

/-- The plans of placing controllers with `P`. -/
def PlacedBy (P : PlacementController → Prop) (plan : CoordinationSnapshot → CoordinationSnapshot) : Prop :=
  ∃ k, P k ∧ plan = k.plan

section

variable {Q : (CoordinationSnapshot → CoordinationSnapshot) → Prop} {P : PlacementController → Prop} {c : Cluster}
  {n readAt : Nat} {k : PlacementController} {r : ResourceIdentity} {a b : PartitionAssignment}

/-- What an accepted proposal finds: generation and topology as its controller read them. -/
theorem Places.sameTopology (h : c.Places n k readAt) (hn : n < c.log.length)
    (hc : Inv Q (fun _ d => d.writesAssignments = false) c) (hroom : Headroom c.log.length c.init) :
    SameTopology (c.stateAt readAt) (c.stateAt n) := by
  have hg : (c.stateAt n).generation = (c.stateAt readAt).generation := generation_of_accepted rfl h.accepted
  have hf := follows hc (fun _ _ => payload_of_writesAssignments) (fun _ hn => hc.generations hroom hn) h.read
    (Nat.le_of_lt hn)
  exact sameTopology_iff.2 (hf.view_eq (by simp only [gen, hg]))

/-- What it leaves. -/
theorem Places.next (h : c.Places n k readAt) (hn : n < c.log.length) :
    c.stateAt (n + 1) = desiredSnapshot k.plan (c.stateAt readAt) := by
  have hentry : c.log[n] = guardedProposal k.plan (c.stateAt readAt) := by
    have := h.entry
    rw [List.getElem?_eq_getElem hn] at this
    exact Option.some.inj this
  rw [stateAt_succ hn, hentry, commit_guardedProposal h.accepted]

/-- An entry leaves the assignments, or it is an accepted proposal. -/
theorem places_of_entry (hc : Inv (PlacedBy P) (fun _ d => d.writesAssignments = false) c) (hn : n < c.log.length) :
    (c.stateAt (n + 1)).assignments = (c.stateAt n).assignments ∨ ∃ k readAt, P k ∧ c.Places n k readAt := by
  rcases hc.entries n hn with hw | ⟨p, ⟨k, hP, hk⟩, hr, he⟩
  · exact .inl (by rw [stateAt_succ hn, commit_assignments _ hw])
  · have hentry : c.log[n] = guardedProposal k.plan (c.stateAt p.readAt) := by rw [he, proposal, hk]
    by_cases ha : Accepted (c.stateAt n) c.log[n]
    · exact .inr ⟨k, p.readAt, hP, hr, by rw [List.getElem?_eq_getElem hn, hentry], hentry ▸ ha⟩
    · exact .inl (by rw [stateAt_succ hn, commit_rejected ha])

/-- An accepted proposal hands over in the state it commits in as it would in the state it read. -/
theorem Places.handover (h : c.Places n k readAt) (hn : n < c.log.length)
    (hc : Inv Q (fun _ d => d.writesAssignments = false) c) (hroom : Headroom c.log.length c.init)
    (ha : (c.stateAt n).assignments[r]? = some a) (hb : (c.stateAt (n + 1)).assignments[r]? = some b) :
    PlacementController.Handover (k.live (c.stateAt readAt)) a b := by
  rw [← (h.sameTopology hn hc hroom).assignments] at ha
  rw [h.next hn] at hb
  exact PlacementController.desired_handover (hc.epochs hroom (by have := h.read; omega)) ha hb

/-- **One step of one resource**: owner and epoch are kept, or a failover gives it a new owner under the next epoch. -/
theorem failsOver_step (hc : Inv (PlacedBy P) (fun _ d => d.writesAssignments = false) c)
    (hroom : Headroom c.log.length c.init) (hn : n < c.log.length) (ha : (c.stateAt n).assignments[r]? = some a)
    (hb : (c.stateAt (n + 1)).assignments[r]? = some b) :
    (¬c.FailsOver r n ∧ b.owner = a.owner ∧ b.epoch = a.epoch) ∨
    (c.FailsOver r n ∧ b.owner ≠ a.owner ∧ b.epoch.toNat = a.epoch.toNat + 1) := by
  by_cases hfail : c.FailsOver r n
  · obtain ⟨k, readAt, a', hplaces, ha', hdead, hlive⟩ := hfail
    cases ha.symm.trans ha'
    obtain ⟨howner, hepoch⟩ := (hplaces.handover hn hc hroom ha hb).moved hdead hlive
    exact .inr ⟨⟨k, readAt, a, hplaces, ha, hdead, hlive⟩, fun h => hdead (h ▸ howner), hepoch⟩
  refine .inl ⟨hfail, ?_⟩
  rcases places_of_entry hc hn with hsame | ⟨k, readAt, _, hplaces⟩
  · rw [hsame, ha] at hb
    cases hb
    exact ⟨rfl, rfl⟩
  have hover := hplaces.handover hn hc hroom ha hb
  by_cases howner : a.owner ∈ k.live (c.stateAt readAt)
  · exact hover.kept howner
  · -- the proposal is no failover, so its controller knew of no live node
    have hnone : ∀ id, id ∉ k.live (c.stateAt readAt) :=
      fun id hid => hfail ⟨k, readAt, a, hplaces, ha, howner, id, hid⟩
    rw [hover.idle hnone]
    exact ⟨rfl, rfl⟩

end

/-- **Owners change at failovers only.** In every run of racing controllers that place, with other commands that write no
assignments: as long as a resource stays assigned, its owner changes at exactly the accepted proposals whose controller
took other nodes, but not the owner, to be live, and its epoch counts them. -/
theorem owners_change_at_failovers {init : CoordinationSnapshot} {es : List Event} {c : Cluster}
    (h : Run step (Mixed (PlacedBy fun _ => True) (fun _ d => d.writesAssignments = false)) (start init) es c)
    (hroom : Headroom c.log.length init) {r : ResourceIdentity} {i j : Nat} (hij : i ≤ j) (hj : j ≤ c.log.length)
    (hr : ∀ n, i ≤ n → n ≤ j → r ∈ (c.stateAt n).assignments) :
    (∀ n, i ≤ n → n < j → (c.ownerAt r (n + 1) ≠ c.ownerAt r n ↔ c.FailsOver r n)) ∧
    c.epochAt r j = c.epochAt r i + c.failovers r i j := by
  have hinv := run_inv h
  have hinit := run_init h
  subst hinit
  have hstep : ∀ n, i ≤ n → n < j →
      (¬c.FailsOver r n ∧ c.ownerAt r (n + 1) = c.ownerAt r n ∧ c.epochAt r (n + 1) = c.epochAt r n) ∨
      (c.FailsOver r n ∧ c.ownerAt r (n + 1) ≠ c.ownerAt r n ∧ c.epochAt r (n + 1) = c.epochAt r n + 1) := by
    intro n hn hn'
    obtain ⟨a, ha⟩ := Option.isSome_iff_exists.1 (ExtTreeMap.mem_iff_isSome_getElem?.1 (hr n hn (by omega)))
    obtain ⟨b, hb⟩ := Option.isSome_iff_exists.1 (ExtTreeMap.mem_iff_isSome_getElem?.1 (hr (n + 1) (by omega) hn'))
    simp only [ownerAt, epochAt, ha, hb, Option.map_some, Option.getD_some, ne_eq, Option.some.injEq]
    rcases failsOver_step hinv hroom (by omega) ha hb with ⟨hno, howner, hepoch⟩ | hfail
    · exact .inl ⟨hno, howner, by rw [hepoch]⟩
    · exact .inr hfail
  refine ⟨fun n hn hn' => ?_, ?_⟩
  · rcases hstep n hn hn' with ⟨hno, howner, _⟩ | ⟨hfail, howner, _⟩
    · exact ⟨fun h => absurd howner h, fun h => absurd h hno⟩
    · exact ⟨fun _ => hfail, fun _ => howner⟩
  · classical
    refine Replay.count_raises hij (fun n hn hn' hno => ?_) (fun n hn hn' hfail => ?_)
    · rcases hstep n hn hn' with ⟨_, _, hepoch⟩ | ⟨hfail, _⟩
      · exact hepoch
      · exact absurd hfail hno
    · rcases hstep n hn hn' with ⟨hno, _⟩ | ⟨_, _, hepoch⟩
      · exact absurd hfail hno
      · exact hepoch

/-- Two nodes, one of them the owner of the queue. -/
def twoNodes : CoordinationSnapshot :=
  { CoordinationSnapshot.default with
    nodes := OrdMap.ofPairs (["node-a", "node-b"].map fun id => (id, .new id id none))
    resources := (∅ : BTreeSet ResourceIdentity).insert queue
    assignments := (∅ : BTreeMap ResourceIdentity PartitionAssignment).insert queue (.new queue "node-a" [] 1) }

/-- The owner is deregistered, and a controller sees it. -/
def nodeLoss : Cluster where
  init := twoNodes
  log := [.deregisterNode "node-a",
    guardedProposal (PlacementController.standing .leastLoaded 1).plan (commit twoNodes (.deregisterNode "node-a"))]
  inFlight := [⟨1, (PlacementController.standing .leastLoaded 1).plan⟩]

theorem nodeLoss_run {P : PlacementController → Prop} (hP : P (.standing .leastLoaded 1)) :
    Run step (Mixed (PlacedBy P) (fun _ d => d.writesAssignments = false)) (start twoNodes)
      [.commitCommand (.deregisterNode "node-a"), .plan 1 (PlacementController.standing .leastLoaded 1).plan,
        .commitProposal 0] nodeLoss :=
  .cons rfl rfl (.cons ⟨_, hP, rfl⟩ rfl (.cons trivial rfl (.nil _)))

theorem nodeLoss_headroom : Headroom nodeLoss.log.length twoNodes := by
  refine ⟨by decide, fun r a ha => ?_⟩
  simp only [twoNodes, ExtTreeMap.getElem?_insert] at ha
  split at ha
  · cases ha
    decide
  · simp at ha

theorem owners_change_at_failovers_nodeLoss : nodeLoss.FailsOver queue 1 ∧ nodeLoss.failovers queue 0 2 = 1 := by
  obtain ⟨howners, hepochs⟩ := owners_change_at_failovers (nodeLoss_run trivial) nodeLoss_headroom
    (Nat.zero_le 2) (Nat.le_refl 2) (r := queue) fun n _ hn => by
      have : n = 0 ∨ n = 1 ∨ n = 2 := by omega
      rcases this with rfl | rfl | rfl <;> decide
  refine ⟨(howners 1 (by decide) (by decide)).1 (by decide), ?_⟩
  have hbefore : nodeLoss.epochAt queue 0 = 1 := by decide
  have hafter : nodeLoss.epochAt queue 2 = 2 := by decide
  omega

end Cluster

/-! ## Settled assignments -/

section

variable {owner : String} {t : Nat} {ids old followers : List String}

/-- As many followers as are wanted, or all there can be. -/
theorem Gathered.length_eq (h : Gathered owner t ids old followers) (hids : ids.Nodup) (howner : owner ∈ ids) :
    followers.length = min t (ids.length - 1) := by
  have herase : (ids.erase owner).length = ids.length - 1 := List.length_erase_of_mem howner
  have hsub : followers.length ≤ (ids.erase owner).length := by
    refine (List.subperm_of_subset h.nodup fun f hf => ?_).length_le
    exact (hids.mem_erase_iff).2 ⟨(h.live f hf).2, (h.live f hf).1⟩
  have hle := h.length_le
  by_cases hlt : followers.length < t
  · have hall : (ids.erase owner).length ≤ followers.length := by
      refine (List.subperm_of_subset (hids.erase owner) fun f hf => ?_).length_le
      obtain ⟨hne, hmem⟩ := (hids.mem_erase_iff).1 hf
      exact h.exhausts hlt f hmem hne
    omega
  · omega

end

/-- The same nodes are registered, and the same resources are in the catalogue. -/
structure SameMembers (s s' : CoordinationSnapshot) : Prop where
  nodes : s.nodes.keys = s'.nodes.keys
  resources : s.resources = s'.resources

theorem SameMembers.of_sameTopology {s s' : CoordinationSnapshot} (h : SameTopology s s') : SameMembers s s' := by
  refine ⟨?_, h.resources⟩
  have hnodes := congrArg (fun p => p.2.2.2.keys) (sameTopology_iff.1 h)
  simpa only [topology, ExtTreeMap.keys_map] using hnodes

theorem SameMembers.symm {s s' : CoordinationSnapshot} (h : SameMembers s s') : SameMembers s' s :=
  ⟨h.nodes.symm, h.resources.symm⟩

theorem SameMembers.trans {s s' s'' : CoordinationSnapshot} (h : SameMembers s s') (h' : SameMembers s' s'') :
    SameMembers s s'' := ⟨h.nodes.trans h'.nodes, h.resources.trans h'.resources⟩

/-- The assignments are those of the catalogue, each with a registered owner and as a planner leaves its followers. -/
structure Settled (targetFollowers : Nat) (s : CoordinationSnapshot) : Prop where
  catalogue : ∀ r, r ∈ s.assignments ↔ r ∈ s.resources
  placed : ∀ (r : ResourceIdentity) a, s.assignments[r]? = some a → a.resource = r ∧ a.owner ∈ s.nodes.keys ∧
    ∃ old, Gathered a.owner targetFollowers s.nodes.keys old a.followers

theorem Settled.congr {t : Nat} {s s' : CoordinationSnapshot} (h : Settled t s) (hmembers : SameMembers s s')
    (hassignments : s'.assignments = s.assignments) : Settled t s' := by
  refine ⟨fun r => ?_, fun r a ha => ?_⟩
  · rw [hassignments, ← hmembers.resources, h.catalogue]
  · rw [← hmembers.nodes]
    exact h.placed r a (hassignments ▸ ha)

namespace PlacementController

variable {strategy : PlacementStrategy} {t : Nat} {s : CoordinationSnapshot}

theorem sameMembers_desired {k : PlacementController} : SameMembers s (desiredSnapshot k.plan s) :=
  ⟨by rw [desiredSnapshot_nodes, plan_nodes], plan_resources.symm⟩

/-- With a registered node the planner of a standing controller succeeds. -/
theorem standing_ok (hnodes : s.nodes.keys ≠ []) :
    ∃ plan, strategy.plan ((standing strategy t).input s) = .ok plan ∧
      ∀ r, r ∈ plan.snapshot.assignments ↔ r ∈ s.resources := by
  obtain ⟨id, hid⟩ := List.exists_mem_of_ne_nil _ hnodes
  obtain ⟨plan, hplan⟩ := @plan_succeeds strategy ((standing strategy t).input s) id (ExtTreeMap.mem_keys.1 hid)
  refine ⟨plan, hplan, fun r => ?_⟩
  rw [(plan_placed hplan).resources]
  exact ExtTreeSet.mem_toList

/-- A proposal of a standing controller settles the assignments. -/
theorem settled_desired (hepochs : ∀ (r : ResourceIdentity) a, s.assignments[r]? = some a → a.epoch < u64Max)
    (hnodes : s.nodes.keys ≠ []) : Settled t (desiredSnapshot (standing strategy t).plan s) := by
  obtain ⟨plan, hplan, hcatalogue⟩ := @standing_ok strategy t s hnodes
  have hassignments := @desired_of_ok (standing strategy t) s hepochs plan hplan
  have hmembers := @sameMembers_desired s (standing strategy t)
  refine ⟨fun r => ?_, fun r a ha => ?_⟩
  · rw [hassignments, ← hmembers.resources, hcatalogue]
  · rw [hassignments] at ha
    have hassigned := (plan_placed hplan).assignment ha
    rw [← hmembers.nodes]
    exact ⟨hassigned.resource, hassigned.owner.live, _, hassigned.followers⟩

/-- **Settled assignments are planned again as they are**, by either planner. -/
theorem desired_of_settled (hepochs : ∀ (r : ResourceIdentity) a, s.assignments[r]? = some a → a.epoch < u64Max)
    (hnodes : s.nodes.keys ≠ []) (h : Settled t s) :
    (desiredSnapshot (standing strategy t).plan s).assignments = s.assignments := by
  obtain ⟨plan, hplan, hcatalogue⟩ := @standing_ok strategy t s hnodes
  rw [@desired_of_ok (standing strategy t) s hepochs plan hplan]
  apply ExtTreeMap.ext_getElem?
  intro r
  have hr := (hcatalogue r).trans (h.catalogue r).symm
  rw [ExtTreeMap.mem_iff_isSome_getElem?, ExtTreeMap.mem_iff_isSome_getElem?] at hr
  cases ha : s.assignments[r]? with
  | none =>
    rw [ha] at hr
    simpa using hr
  | some a =>
    rw [ha] at hr
    obtain ⟨b, hb⟩ := Option.isSome_iff_exists.1 (hr.2 rfl)
    obtain ⟨hresource, howner, old, hold⟩ := h.placed r a ha
    obtain ⟨hresource', howner', hfollowers, hepoch, hdurability⟩ := (plan_placed hplan).assignment hb
    have hexisting : ((standing strategy t).input s).existing[r]? = some a := ha
    rw [hexisting] at howner' hfollowers hepoch hdurability
    have hsame : b.owner = a.owner := howner'.kept a rfl howner
    rw [hsame] at hfollowers hepoch
    rw [placementEpoch, if_pos rfl] at hepoch
    have hstays : b.followers = a.followers :=
      Gathered.stays hold hfollowers (fun _ h => h) fun f hf => (hold.live f hf).1
    rw [hb, Option.some.injEq]
    cases a
    cases b
    simp only [PartitionAssignment.mk.injEq]
    exact ⟨hresource'.trans hresource.symm, hsame, hstays, hepoch, hdurability⟩

end PlacementController

namespace Cluster

/-- The controllers that place the catalogue on the registered nodes, each with a planner of its own. -/
def Standing (targetFollowers : Nat) (k : PlacementController) : Prop :=
  ∃ strategy, k = .standing strategy targetFollowers

/-- **Placement settles.** In every run of racing controllers that place the catalogue on the registered nodes, with
other commands that write no assignments: an accepted proposal, however old its read, that commits while some node is
registered brings exactly the resources of the catalogue to nodes that are registered then, with all the followers there
can be, and from then on the assignments stay as they are until the registered nodes or the catalogue change. -/
theorem placement_settles {t : Nat} {init : CoordinationSnapshot} {es : List Event} {c : Cluster}
    (h : Run step (Mixed (PlacedBy (Standing t)) (fun _ d => d.writesAssignments = false)) (start init) es c)
    (hroom : Headroom c.log.length init) {n readAt : Nat} {k : PlacementController} (hk : Standing t k)
    (hplaces : c.Places n k readAt) (hn : n < c.log.length) (hnodes : (c.stateAt n).nodes.keys ≠ []) :
    (∀ r, r ∈ (c.stateAt (n + 1)).assignments ↔ r ∈ (c.stateAt n).resources) ∧
    (∀ (r : ResourceIdentity) a, (c.stateAt (n + 1)).assignments[r]? = some a →
      a.owner ∈ (c.stateAt n).nodes ∧ a.followers.Nodup ∧
      (∀ f ∈ a.followers, f ∈ (c.stateAt n).nodes ∧ f ≠ a.owner) ∧
      a.followers.length = min t ((c.stateAt n).nodes.size - 1)) ∧
    ∀ j, n < j → j ≤ c.log.length → (∀ i, n < i → i < j → SameMembers (c.stateAt n) (c.stateAt i)) →
      (c.stateAt j).assignments = (c.stateAt (n + 1)).assignments := by
  have hinv := run_inv h
  have hinit := run_init h
  subst hinit
  have hread := SameMembers.of_sameTopology (hplaces.sameTopology hn hinv hroom)
  have hmembers : SameMembers (c.stateAt n) (c.stateAt (n + 1)) := by
    rw [hplaces.next hn]
    exact hread.symm.trans PlacementController.sameMembers_desired
  obtain ⟨strategy, rfl⟩ := hk
  have hsettled : Settled t (c.stateAt (n + 1)) := by
    rw [hplaces.next hn]
    have hepochs := fun r a => hinv.epochs hroom (n := readAt) (by have := hplaces.read; omega) r a
    exact PlacementController.settled_desired hepochs (hread.nodes ▸ hnodes)
  refine ⟨fun r => ?_, fun r a ha => ?_, fun j hj => ?_⟩
  · rw [hsettled.catalogue, hmembers.resources]
  · obtain ⟨_, howner, old, hold⟩ := hsettled.placed r a ha
    rw [← hmembers.nodes] at howner hold
    refine ⟨ExtTreeMap.mem_keys.1 howner, hold.nodup, fun f hf => ?_, ?_⟩
    · exact ⟨ExtTreeMap.mem_keys.1 (hold.live f hf).1, (hold.live f hf).2⟩
    · rw [hold.length_eq ExtTreeMap.nodup_keys howner, ExtTreeMap.length_keys]
  · -- by induction on the position: each accepted proposal plans settled assignments again
    induction j, hj using Nat.le_induction with
    | base => exact fun _ _ => rfl
    | succ j hj ih =>
      intro hlen hstay
      have hsame := ih (by omega) fun i hi hi' => hstay i hi (by omega)
      rcases places_of_entry hinv hlen with hstill | ⟨k', readAt', ⟨strategy', rfl⟩, hplaces'⟩
      · rw [hstill, hsame]
      have hread' := hplaces'.sameTopology hlen hinv hroom
      have hmembers' := (hstay j hj (Nat.lt_succ_self j)).trans (SameMembers.of_sameTopology hread').symm
      have hsettled' : Settled t (c.stateAt readAt') :=
        hsettled.congr (hmembers.symm.trans hmembers') (hread'.assignments.trans hsame)
      have hepochs' := fun r a => hinv.epochs hroom (n := readAt') (by have := hplaces'.read; omega) r a
      rw [hplaces'.next hlen, PlacementController.desired_of_settled hepochs' (hmembers'.nodes ▸ hnodes) hsettled',
        hread'.assignments, hsame]

theorem placement_settles_nodeLoss : ∃ a, (nodeLoss.stateAt 2).assignments[queue]? = some a ∧
    a.owner ∈ (nodeLoss.stateAt 1).nodes ∧ a.followers.length = 0 := by
  have hplaces : nodeLoss.Places 1 (.standing .leastLoaded 1) 1 := ⟨Nat.le_refl 1, rfl, by decide⟩
  have hsettles := placement_settles (nodeLoss_run ⟨_, rfl⟩) nodeLoss_headroom ⟨_, rfl⟩ hplaces (by decide) (by decide)
  have hmoved : (nodeLoss.stateAt 2).assignments[queue]? = some (.new queue "node-b" [] 2) := by decide
  obtain ⟨howner, _, _, hlength⟩ := hsettles.2.1 queue _ hmoved
  exact ⟨_, hmoved, howner, hlength.trans (by decide)⟩

end Cluster

end Ganglion
