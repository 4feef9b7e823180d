import Ganglion.Runtime.Controller

/-!
# Heartbeats and controllers

A heartbeat is a `RegisterNode` that only changes the labels of a known node. It does not move the generation, so the
guard of a controller's proposal does not see it, and an accepted proposal installs the labels its controller read:
`proposal_reverts_heartbeat` is such a run. `heartbeats_kept`: the labels survive exactly as long as no accepted
proposal was planned from labels that have changed since; in such a run every node carries the labels of its last
committed heartbeat.
-/

namespace Ganglion

open Std CoordinationSnapshot

/-- The labels of a node. -/
def labelsOf (s : CoordinationSnapshot) (id : String) : Option (BTreeMap String String) := s.nodes[id]?.map (·.labels)

/-- A label refresh: a known node is registered again under its address. -/
def LabelRefresh (s : CoordinationSnapshot) (c : MetadataRaftCommand) : Prop :=
  ∃ node existing, c = .registerNode node ∧ s.nodes[node.nodeId]? = some existing ∧
    existing.endpoint = node.endpoint ∧ existing.adminEndpoint = node.adminEndpoint

/-- A plan that returns what it was given with only the assignments changed. -/
def OnlyAssignments (plan : CoordinationSnapshot → CoordinationSnapshot) : Prop :=
  ∀ s, plan s = { s with assignments := (plan s).assignments }

/-- The labels the last heartbeat of `id` in the log carries, or the initial ones. -/
def lastHeartbeat (init : CoordinationSnapshot) (log : List MetadataRaftCommand) (id : String) :
    Option (BTreeMap String String) :=
  log.foldl (fun labels c =>
    match c with
    | .registerNode node => if node.nodeId = id then some node.labels else labels
    | _ => labels) (labelsOf init id)

/-- A refresh writes the labels it carries and leaves those of other nodes. -/
theorem labelsOf_refresh {s : CoordinationSnapshot} {node existing : NodeInfo}
    (h : s.nodes[node.nodeId]? = some existing)
    (ha : existing.endpoint = node.endpoint ∧ existing.adminEndpoint = node.adminEndpoint) (id : String) :
    labelsOf (commit s (.registerNode node)) id =
      if node.nodeId = id then some node.labels else labelsOf s id := by
  simp only [commit, applyCommand, h]
  by_cases he : existing = node
  · subst he
    simp only [if_true, Applied.silent]
    split
    · rename_i hid
      subst hid
      simp [labelsOf, h]
    · rfl
  · rw [if_neg he, if_pos ha]
    simp only [Applied.silent, labelsOf, ExtTreeMap.getElem?_insert, LawfulEqCmp.compare_eq_iff_eq]
    split <;> rfl

/-- An accepted proposal installs the labels its controller read. -/
theorem labelsOf_proposal {plan : CoordinationSnapshot → CoordinationSnapshot} {read s : CoordinationSnapshot}
    (hp : OnlyAssignments plan) (ha : Accepted s (guardedProposal plan read)) (id : String) :
    labelsOf (commit s (guardedProposal plan read)) id = labelsOf read id := by
  rw [commit_guardedProposal ha]
  simp only [labelsOf, desiredSnapshot_nodes]
  rw [hp read]

namespace Cluster

/-- The condition on a run: an accepted proposal was planned from labels that are still the committed ones. -/
def FreshLabels (c : Cluster) : Event → Prop
  | .commitProposal i => ∀ p, c.inFlight[i]? = some p → Accepted c.current (c.proposal p) →
      ∀ id, labelsOf (c.stateAt p.readAt) id = labelsOf c.current id
  | _ => True

/-- The events of heartbeats and of controllers that only plan assignments. -/
abbrev HeartbeatMix : Cluster → Event → Prop := Mixed OnlyAssignments LabelRefresh

/-- What a fresh run keeps: replaces leave the labels, and every node has the labels of its last heartbeat. -/
structure LabelInv (c : Cluster) : Prop where
  replaces : ∀ n (h : n < c.log.length), c.log[n].payload ≠ none →
    ∀ id, labelsOf (c.stateAt (n + 1)) id = labelsOf (c.stateAt n) id
  latest : ∀ id, labelsOf c.current id = lastHeartbeat c.init c.log id

/-- Appending a command keeps the label invariant when the command itself respects it. -/
theorem LabelInv.snoc {c : Cluster} (hc : LabelInv c) (d : MetadataRaftCommand)
    (hrep : d.payload ≠ none → ∀ id, labelsOf (commit c.current d) id = labelsOf c.current id)
    (hlast : ∀ id, labelsOf (commit c.current d) id = lastHeartbeat c.init (c.log ++ [d]) id) :
    LabelInv { c with log := c.log ++ [d] } := by
  refine ⟨fun n hn hp id => ?_, fun id => by rw [current_snoc]; exact hlast id⟩
  have hlen : n ≤ c.log.length := by simp at hn; omega
  rcases Nat.lt_or_eq_of_le hlen with h | rfl
  · simp only [List.getElem_append_left h] at hp
    rw [stateAt_append c _ h, stateAt_append c _ hlen]
    exact hc.replaces n h hp id
  · simp only [List.getElem_concat_length] at hp
    have hnext := current_snoc c d
    simp only [current, List.length_append, List.length_singleton] at hnext
    rw [hnext, stateAt_append c _ hlen]
    exact hrep hp id

theorem step_labelInv {c d : Cluster} {e : Event} (hm : HeartbeatMix c e) (hf : FreshLabels c e)
    (he : c.step e = some d) (hi : Inv OnlyAssignments LabelRefresh c) (hc : LabelInv c) : LabelInv d := by
  obtain ⟨readAt, plan, rfl, _, rfl⟩ | ⟨i, p, rfl, hp, rfl⟩ | ⟨command, rfl, rfl⟩ := step_cases he
  · exact ⟨hc.replaces, hc.latest⟩
  · have hq := (hi.reads p (List.mem_of_getElem? hp)).2
    have hkeep : ∀ id, labelsOf (commit c.current (c.proposal p)) id = labelsOf c.current id := by
      intro id
      by_cases ha : Accepted c.current (c.proposal p)
      · exact (labelsOf_proposal hq ha id).trans (hf p hp ha id)
      · rw [commit_rejected ha]
    refine hc.snoc _ (fun _ => hkeep) (fun id => ?_)
    rw [hkeep, hc.latest]
    simp [lastHeartbeat, proposal, guardedProposal]
  · obtain ⟨node, existing, rfl, hex, ha⟩ := hm
    refine hc.snoc _ (fun h => absurd rfl h) (fun id => ?_)
    rw [labelsOf_refresh hex ha, hc.latest]
    simp [lastHeartbeat]

/-- **Heartbeats survive fresh proposals.** In a run of label refreshes and of controllers that only plan assignments,
in which every accepted proposal was planned from the labels committed right before it: replaces leave all labels, and
every node carries the labels of its last heartbeat. The condition is exact: an accepted proposal leaves the labels if
and only if its controller read the committed ones. -/
theorem heartbeats_kept {init : CoordinationSnapshot} {es : List Event} {c : Cluster}
    (h : Run step (fun c e => HeartbeatMix c e ∧ FreshLabels c e) (start init) es c) :
    (∀ n (hn : n < c.log.length), c.log[n].payload ≠ none →
      ∀ id, labelsOf (c.stateAt (n + 1)) id = labelsOf (c.stateAt n) id) ∧
    (∀ id, labelsOf c.current id = lastHeartbeat init c.log id) ∧
    (∀ p ∈ c.inFlight, Accepted c.current (c.proposal p) →
      ((∀ id, labelsOf (commit c.current (c.proposal p)) id = labelsOf c.current id) ↔
        ∀ id, labelsOf (c.stateAt p.readAt) id = labelsOf c.current id)) := by
  have hmixed : Run step HeartbeatMix (start init) es c := h.weaken (fun _ _ hg => hg.1)
  have hinv := run_inv hmixed
  have hlabels : Inv OnlyAssignments LabelRefresh c ∧ LabelInv c := by
    refine h.invariant (P := fun c => Inv OnlyAssignments LabelRefresh c ∧ LabelInv c)
      (fun c e d hg he hs => ⟨step_inv hg.1 he hs.1, step_labelInv hg.1 hg.2 he hs.1 hs.2⟩) ⟨?_, ?_⟩
    · exact ⟨by simp [start], fun n hn => absurd hn (Nat.not_lt_zero n)⟩
    · exact ⟨fun n hn => absurd hn (Nat.not_lt_zero n), fun id => rfl⟩
  refine ⟨hlabels.2.replaces, fun id => ?_, fun p hp ha => ?_⟩
  · rw [hlabels.2.latest, run_init hmixed]
  · have hq := (hinv.reads p hp).2
    have hread := labelsOf_proposal hq ha
    simp only [proposal, hread]

theorem refresh_brokerA : LabelRefresh oneBroker (.registerNode (brokerA "2")) :=
  ⟨brokerA "2", brokerA "1", rfl, by decide, rfl, rfl⟩

/-- A heartbeat and, after it, a plan that read it and committed. -/
def heartbeatThenPlan : Cluster where
  init := oneBroker
  log := [.registerNode (brokerA "2"), guardedProposal id (commit oneBroker (.registerNode (brokerA "2")))]
  inFlight := [⟨1, id⟩]

theorem heartbeats_kept_after_plan : labelsOf heartbeatThenPlan.current "broker-a" = some (brokerA "2").labels := by
  have hrun : Run step (fun c e => HeartbeatMix c e ∧ FreshLabels c e) (start oneBroker)
      [.commitCommand (.registerNode (brokerA "2")), .plan 1 id, .commitProposal 0] heartbeatThenPlan := by
    refine .cons ⟨refresh_brokerA, trivial⟩ rfl (.cons ⟨fun _ => rfl, trivial⟩ rfl
      (.cons ⟨trivial, fun p hp _ id => ?_⟩ rfl (.nil _)))
    cases Option.some.inj hp
    rfl
  rw [(heartbeats_kept hrun).2.1]
  decide

/-- A heartbeat that commits between the read and the commit of a proposal is reverted. -/
theorem proposal_reverts_heartbeat :
    ¬∀ (init : CoordinationSnapshot) (es : List Event) (c : Cluster), Run step HeartbeatMix (start init) es c →
      ∀ p ∈ c.inFlight, Accepted c.current (c.proposal p) →
        ∀ id, labelsOf (commit c.current (c.proposal p)) id = labelsOf c.current id := by
  intro h
  have hrun : Run step HeartbeatMix (start oneBroker) [.plan 0 id, .commitCommand (.registerNode (brokerA "2"))]
      (heartbeatRace id) :=
    .cons (fun _ => rfl) rfl (.cons refresh_brokerA rfl (.nil _))
  have hlost := h _ _ _ hrun ⟨0, id⟩ (List.mem_singleton.2 rfl) (by decide) "broker-a"
  exact absurd hlost (by decide)

end Cluster

end Ganglion
