import Ganglion.Consensus.MetadataNode

/-!
# Planning on a metadata node

`plan_and_apply` and `plan_and_publish`: run a planner, propose its snapshot, return (and publish) it. The in-memory and
the persisted node both delegate to `MetadataNode`.

A plan holds no catalogue and no attributes, since the planner is not told any, and the node replaces the whole
committed snapshot by it. So a successful call empties both: `planning_preserves_iff` says that it leaves them as they
were only where there were none.
-/

namespace Ganglion

namespace MetadataNode

variable {σ : Type} (log : MetadataLog σ)

/-- `plan_and_apply`. -/
def planAndApply (node : MetadataNode σ) (proposer : String) (planner : PlacementStrategy) (input : PlacementInput) :
    Except AdapterError CoordinationSnapshot × MetadataNode σ :=
  match planner.plan input with
  | .error error => (.error (.planner error), node)
  | .ok plan =>
    match node.applySnapshot log proposer plan.snapshot none with
    | (.error error, node) => (.error error, node)
    | (.ok (), node) => (.ok plan.snapshot, node)

/-- `plan_and_publish` on a metadata node: the reply, what the callback is given, and the node after it. -/
def planAndPublish (node : MetadataNode σ) (proposer : String) (planner : PlacementStrategy) (input : PlacementInput) :
    Except AdapterError CoordinationSnapshot × Option CoordinationSnapshot × MetadataNode σ :=
  match planner.plan input with
  | .error error => (.error (.planner error), none, node)
  | .ok plan =>
    match node.applySnapshot log proposer plan.snapshot none with
    | (.error error, node) => (.error error, none, node)
    | (.ok (), node) => (.ok plan.snapshot, some plan.snapshot, node)

variable {log} {node node' : MetadataNode σ} {proposer : String} {planner : PlacementStrategy} {input : PlacementInput}
  {returned : CoordinationSnapshot}

/-! ## What a successful call has done -/

/-- A proposal that is answered with success is the committed snapshot. -/
theorem applySnapshot_ok {snapshot : CoordinationSnapshot} {term : Option UInt64}
    (h : node.applySnapshot log proposer snapshot term = (.ok (), node')) : node'.store.snapshot = snapshot := by
  by_cases ha : node.Accepts proposer snapshot term
  · rw [applySnapshot_accepted ha, OpenraftLikeStore.commitSnapshot] at h
    dsimp only at h
    split at h
    · cases h
    · split at h
      · cases h
      · cases h
        rfl
  · obtain ⟨error, hrejected⟩ := @applySnapshot_rejected σ log node proposer snapshot term ha
    rw [hrejected] at h
    cases h

/-- A planner knows no catalogue and no attributes. -/
theorem plan_catalogue {plan : PlacementPlan} (h : planner.plan input = .ok plan) :
    plan.snapshot.resources = ∅ ∧ plan.snapshot.attributes = ∅ := by
  rw [(plan_placed h).snapshot]
  exact ⟨rfl, rfl⟩

/-- What `plan_and_apply` has done when it succeeds. -/
theorem planAndApply_ok (h : node.planAndApply log proposer planner input = (.ok returned, node')) :
    planner.plan input = .ok ⟨returned⟩ ∧ node'.store.snapshot = returned := by
  unfold planAndApply at h
  split at h
  · cases h
  · rename_i plan hplan
    split at h
    · cases h
    · rename_i hply
      cases h
      exact ⟨hplan, applySnapshot_ok hply⟩

/-- Publishing is planning and applying, with the result handed on. -/
theorem planAndPublish_eq (log : MetadataLog σ) (node : MetadataNode σ) (proposer : String)
    (planner : PlacementStrategy) (input : PlacementInput) : node.planAndPublish log proposer planner input =
      ((node.planAndApply log proposer planner input).1, (node.planAndApply log proposer planner input).1.toOption,
        (node.planAndApply log proposer planner input).2) := by
  unfold planAndPublish planAndApply
  split
  · rfl
  · split
    · rfl
    · rfl

/-! ## The catalogue -/

/-- Catalogue and attributes are those of the snapshot. -/
def CarriesCatalogue (before after : CoordinationSnapshot) : Prop :=
  after.resources = before.resources ∧ after.attributes = before.attributes

/-- The catalogue and the attributes before a call are still committed after it, returned and, if it publishes,
published. -/
def KeepsCatalogue (before after : MetadataNode σ) (returned : CoordinationSnapshot)
    (published : Option CoordinationSnapshot) : Prop :=
  CarriesCatalogue before.store.snapshot after.store.snapshot ∧ CarriesCatalogue before.store.snapshot returned ∧
    ∀ snapshot, published = some snapshot → CarriesCatalogue before.store.snapshot snapshot

/-- Nothing is declared and no attribute is set. -/
def EmptyCatalogue (node : MetadataNode σ) : Prop :=
  node.store.snapshot.resources = ∅ ∧ node.store.snapshot.attributes = ∅

/-- A call that commits, returns and publishes the snapshot of a planner. -/
theorem keepsCatalogue_iff {published : Option CoordinationSnapshot} (hplan : planner.plan input = .ok ⟨returned⟩)
    (hcommitted : node'.store.snapshot = returned) (hpublished : ∀ s, published = some s → s = returned) :
    KeepsCatalogue node node' returned published ↔ node.EmptyCatalogue := by
  obtain ⟨hresources, hattributes⟩ := plan_catalogue hplan
  replace hresources : returned.resources = ∅ := hresources
  replace hattributes : returned.attributes = ∅ := hattributes
  have hcarries : CarriesCatalogue node.store.snapshot returned ↔ node.EmptyCatalogue := by
    rw [CarriesCatalogue, EmptyCatalogue, hresources, hattributes]
    exact and_congr eq_comm eq_comm
  rw [KeepsCatalogue, hcommitted, hcarries]
  constructor
  · exact And.left
  · intro h
    refine ⟨h, h, fun s hs => ?_⟩
    rw [hpublished s hs]
    exact hcarries.2 h

/-- **When planning keeps the catalogue**: a successful call of either function leaves the committed resources and
attributes as they were, and returns and publishes them, if and only if there were none. -/
theorem planning_preserves_iff (log : MetadataLog σ) (node : MetadataNode σ) (proposer : String)
    (planner : PlacementStrategy) (input : PlacementInput) :
    (∀ returned node', node.planAndApply log proposer planner input = (.ok returned, node') →
      (KeepsCatalogue node node' returned none ↔ node.EmptyCatalogue)) ∧
    ∀ returned published node', node.planAndPublish log proposer planner input = (.ok returned, published, node') →
      (KeepsCatalogue node node' returned published ↔ node.EmptyCatalogue) := by
  refine ⟨fun returned node' h => ?_, fun returned published node' h => ?_⟩
  · obtain ⟨hplan, hcommitted⟩ := planAndApply_ok h
    exact keepsCatalogue_iff hplan hcommitted nofun
  · rw [planAndPublish_eq, Prod.mk.injEq, Prod.mk.injEq] at h
    obtain ⟨hreply, hpublished, hnode⟩ := h
    obtain ⟨hplan, hcommitted⟩ := planAndApply_ok (Prod.ext hreply hnode)
    refine keepsCatalogue_iff hplan hcommitted fun s hs => ?_
    rw [← hpublished, hreply] at hs
    cases hs
    rfl

end MetadataNode

/-! ### A declared resource and a setting -/

/-- The resource. -/
def svcOrders : ResourceIdentity where
  namespacePart := "svc"
  name := "orders"
  partition := 0
  group := none

/-- One node for it. -/
def ordersInput : PlacementInput where
  nodes := OrdMap.ofPairs [("a", .new "a" "127.0.0.1:1" none)]
  resources := [svcOrders]
  existing := ∅
  targetFollowers := 0
  generation := 2

/-- The planned snapshot. -/
def ordersPlanned : CoordinationSnapshot :=
  (planOf ordersInput (OrdMap.ofPairs [(svcOrders, .new svcOrders "a" [] 1)])).snapshot

/-- A leader over an empty log with the committed snapshot. -/
def leaderOn (snapshot : CoordinationSnapshot) : MetadataNode (List MetadataLogEntry) :=
  ⟨"a", ⟨1, some "a", snapshot⟩, []⟩

/-- The resource is assigned to the node, and nothing is declared. -/
def ordersAssigned : CoordinationSnapshot :=
  { CoordinationSnapshot.default with
    nodes := ordersInput.nodes
    assignments := OrdMap.ofPairs [(svcOrders, .new svcOrders "a" [] 1)]
    generation := 1 }

/-- Planning from there, with its assignment. -/
theorem planning_preserves_iff_assigned :
    let node := leaderOn ordersAssigned
    let after := node.planAndPublish inMemoryMetadataLog "a" .leastLoaded
      { ordersInput with existing := ordersAssigned.assignments }
    after.1 = .ok ordersPlanned ∧ MetadataNode.KeepsCatalogue node after.2.2 ordersPlanned (some ordersPlanned) := by
  intro node after
  have hreply : after.1 = .ok ordersPlanned := by decide
  have hpublished : after.2.1 = some ordersPlanned := by decide
  exact ⟨hreply, ((MetadataNode.planning_preserves_iff inMemoryMetadataLog node "a" .leastLoaded _).2
    ordersPlanned (some ordersPlanned) after.2.2 (Prod.ext hreply (Prod.ext hpublished rfl))).2 ⟨rfl, rfl⟩⟩

/-- The resource is declared and a setting is made. -/
def ordersDeclared : CoordinationSnapshot :=
  { CoordinationSnapshot.default with
    resources := (∅ : BTreeSet ResourceIdentity).insert svcOrders
    attributes := OrdMap.ofPairs [("poll_ms", "500")]
    generation := 1 }

/-- Both calls succeed, and the declaration and the setting are gone from what is committed, returned and published. -/
theorem planning_erases_catalogue :
    let node := leaderOn ordersDeclared
    let applied := node.planAndApply inMemoryMetadataLog "a" .deterministic ordersInput
    let published := node.planAndPublish inMemoryMetadataLog "a" .deterministic ordersInput
    applied.1 = .ok ordersPlanned ∧ published.1 = .ok ordersPlanned ∧
      ¬MetadataNode.KeepsCatalogue node applied.2 ordersPlanned none ∧
      ¬MetadataNode.KeepsCatalogue node published.2.2 ordersPlanned published.2.1 ∧
      applied.2.store.snapshot.resources = ∅ ∧ applied.2.store.snapshot.attributes = ∅ := by
  intro node applied published
  have hlost : ¬MetadataNode.CarriesCatalogue node.store.snapshot ordersPlanned := by
    rintro ⟨hresources, _⟩
    exact absurd hresources (by decide)
  exact ⟨by decide, by decide, fun h => hlost h.2.1, fun h => hlost h.2.1, by decide, by decide⟩

end Ganglion
