import Ganglion.Runtime.Controller

/-!
# Publishing one partition

`UpdatePartitionGuarded` commits the assignment its caller supplies: apply checks the generation and leaves the epoch to
the caller, who stamps it by `next_assignment_epoch` against the assignment it has read, as the controller loop does.

* `commit_publication`: an accepted publication installs the assignment it carries.
* `assignments_of_generation`: what makes a stamp good that was made earlier. The generation of a run's states versions
  their assignments, also where it wraps, so a publication that the guard lets through meets those its caller read.
* `publications_fenced`: in a run whose publications are all stamped against what was read, epochs never fall and grow
  with each change of owner. `unstamped_publication_two_owners` is a run of unstamped ones.
-/

namespace Ganglion

open Std CoordinationSnapshot Cluster

/-- The epoch of `a` is at least the one `next_assignment_epoch` gives its owner on `s`, and that rule does not
overflow there. A resource without an assignment has nothing to fence. -/
def Stamped (s : CoordinationSnapshot) (a : PartitionAssignment) : Prop :=
  ∀ old, s.assignments[a.resource]? = some old →
    (nextAssignmentEpoch (some old) a.owner).1 ≤ a.epoch ∧ (old.owner ≠ a.owner → old.epoch < u64Max)

/-- A caller read `s`: it expects the generation of `s`, and has stamped its assignment against that of `s`. -/
structure StampedAt (s : CoordinationSnapshot) (expectedGeneration : UInt64) (a : PartitionAssignment) : Prop where
  generation : s.generation = expectedGeneration
  epoch : Stamped s a

/-! ## One publication -/

section Publication

variable {s : CoordinationSnapshot} {g : UInt64} {a : PartitionAssignment}
  {attributes : BTreeMap String (Option String)}

/-- An accepted publication installs the assignment it carries, as it is. -/
theorem commit_publication (ha : Accepted s (.updatePartitionGuarded g a attributes)) :
    (commit s (.updatePartitionGuarded g a attributes)).assignments = s.assignments.insert a.resource a := by
  have hg : s.generation = g := generation_of_accepted rfl ha
  simp [commit, applyCommand, hg, Applied.bump]

/-- The stamp in terms of the committed epoch. -/
theorem stamped_iff : Stamped s a ↔ ∀ old, s.assignments[a.resource]? = some old →
    old.epoch ≤ a.epoch ∧ (old.owner ≠ a.owner → old.epoch < a.epoch) := by
  unfold Stamped
  refine forall_congr' fun old => imp_congr_right fun _ => ?_
  by_cases ho : old.owner = a.owner
  · simp [nextAssignmentEpoch, ho]
  · simp only [nextAssignmentEpoch, ho, if_false, ne_eq, not_false_eq_true, true_imp_iff]
    constructor
    · rintro ⟨hle, hmax⟩
      have hlt : old.epoch < a.epoch := by
        rw [UInt64.le_iff_toNat_le, toNat_add_one hmax] at hle
        exact UInt64.lt_iff_toNat_lt.2 hle
      exact ⟨UInt64.le_of_lt hlt, hlt⟩
    · rintro ⟨_, hlt⟩
      have hmax : old.epoch < u64Max := by
        rw [UInt64.lt_iff_toNat_lt] at hlt
        have := a.epoch.toNat_lt
        exact lt_u64Max_iff.2 (by rw [UInt64.size]; omega)
      refine ⟨?_, hmax⟩
      rw [UInt64.le_iff_toNat_le, toNat_add_one hmax]
      exact UInt64.lt_iff_toNat_lt.1 hlt

/-- An operator's fence is a stamp, whatever owner it names, and it raises the epoch. -/
theorem stamped_fence {old : PartitionAssignment} (hold : s.assignments[a.resource]? = some old)
    (hroom : old.epoch < u64Max) (ha : a.epoch = fenceAssignmentEpoch old) : Stamped s a ∧ old.epoch < a.epoch := by
  have hlt : old.epoch < a.epoch := by
    rw [UInt64.lt_iff_toNat_lt, ha, fenceAssignmentEpoch, toNat_add_one hroom]
    exact Nat.lt_succ_self _
  refine ⟨stamped_iff.2 fun old' hold' => ?_, hlt⟩
  cases hold.symm.trans hold'
  exact ⟨UInt64.le_of_lt hlt, fun _ => hlt⟩

/-- A stamp on the committed assignment fences the publication. -/
theorem fenced_publication (ha : Accepted s (.updatePartitionGuarded g a attributes)) (hs : Stamped s a) :
    Fenced s (commit s (.updatePartitionGuarded g a attributes)) := by
  rw [stamped_iff] at hs
  rw [Fenced, commit_publication ha]
  intro r old hold
  by_cases hr : r = a.resource
  · subst hr
    exact ⟨a, ExtTreeMap.getElem?_insert_self, hs old hold⟩
  · exact ⟨old, by rw [OrdMap.getElem?_insert_ne hr, hold], UInt64.le_refl _, fun ho => absurd rfl ho⟩

end Publication

/-! ## The generation as a version -/

/-- A command that does not replace the snapshot ticks the generation once, or leaves the topology. -/
theorem commit_ticks {s : CoordinationSnapshot} {c : MetadataRaftCommand} (hc : c.payload = none) :
    ∃ k ≤ 1, Version.Ticks (·.generation) topology k s (commit s c) := by
  obtain ⟨_, he⟩ | ⟨_, _, hgen, hst⟩ | ⟨_, _, hgen⟩ | ⟨_, hp, _⟩ := commit_cases s c
  · rw [he]
    exact ⟨0, Nat.zero_le 1, .refl s⟩
  · exact ⟨0, Nat.zero_le 1, hgen.trans (UInt64.add_zero _).symm, fun _ => sameTopology_iff.1 hst⟩
  · exact ⟨1, Nat.le_refl 1, hgen, fun h => absurd h Nat.one_ne_zero⟩
  · rw [hc] at hp
    cases hp

section Run

variable {init : CoordinationSnapshot} {log : List MetadataRaftCommand}

/-- The states of a run are at most as many ticks apart as positions. -/
theorem stateAt_ticks (hlog : ∀ c ∈ log, c.payload = none) {m n : Nat} (hmn : m ≤ n) (hn : n ≤ log.length) :
    ∃ k ≤ n - m, Version.Ticks (·.generation) topology k (Replay.stateAt commit init log m)
      (Replay.stateAt commit init log n) := by
  induction hmn with
  | refl => exact ⟨0, Nat.zero_le _, .refl _⟩
  | @step n hmn ih =>
    obtain ⟨k, hk, hticks⟩ := ih (by omega)
    obtain ⟨l, hl, htick⟩ := @commit_ticks (Replay.stateAt commit init log n) log[n] (hlog _ (List.getElem_mem hn))
    rw [← @Replay.stateAt_succ _ _ commit init log n hn] at htick
    have hle : m ≤ n := hmn
    exact ⟨k + l, by omega, hticks.trans htick⟩

/-- States of one generation have the same assignments. A log has fewer than `2 ^ 64` entries before its last one, so
the generation has not gone round between two of them. -/
theorem assignments_of_generation (hlog : ∀ c ∈ log, c.payload = none) (hlen : log.length ≤ UInt64.size) {m n : Nat}
    (hmn : m ≤ n) (hn : n < log.length)
    (hgen : (Replay.stateAt commit init log m).generation = (Replay.stateAt commit init log n).generation) :
    (Replay.stateAt commit init log m).assignments = (Replay.stateAt commit init log n).assignments := by
  obtain ⟨k, hk, hticks⟩ := @stateAt_ticks init log hlog m n hmn (Nat.le_of_lt hn)
  exact congrArg Prod.fst (hticks.view_eq (by omega) hgen)

/-! ## Runs of publications -/

/-- A publication whose caller read an earlier state of the run is fenced: if the guard lets it through, it meets the
assignments that its caller stamped against. -/
theorem fenced_stampedAt (hlog : ∀ c ∈ log, c.payload = none) (hlen : log.length ≤ UInt64.size) {m n : Nat}
    (hmn : m ≤ n) (hn : n < log.length) {g : UInt64} {a : PartitionAssignment}
    {attributes : BTreeMap String (Option String)} (hc : log[n] = .updatePartitionGuarded g a attributes)
    (hs : StampedAt (Replay.stateAt commit init log m) g a) :
    Fenced (Replay.stateAt commit init log n) (Replay.stateAt commit init log (n + 1)) := by
  rw [Replay.stateAt_succ hn, hc]
  by_cases ha : Accepted (Replay.stateAt commit init log n) (.updatePartitionGuarded g a attributes)
  · have hgen : (Replay.stateAt commit init log n).generation = g := generation_of_accepted rfl ha
    have hsame := assignments_of_generation hlog hlen hmn hn (hs.generation.trans hgen.symm)
    refine fenced_publication ha fun old hold => hs.epoch old ?_
    rw [hsame, hold]
  · rw [commit_rejected ha]
    exact .refl _

/-- Every publication of the log was stamped by its caller against a state of the run that it had read. -/
def StampedByCallers (init : CoordinationSnapshot) (log : List MetadataRaftCommand) : Prop :=
  ∀ (n : Nat) (hn : n < log.length) g a attributes, log[n] = .updatePartitionGuarded g a attributes →
    ∃ m ≤ n, StampedAt (Replay.stateAt commit init log m) g a

/-- Every entry of such a log keeps the fence. -/
theorem fenced_succ_of_stampedByCallers (hlog : ∀ c ∈ log, c.payload = none) (hlen : log.length ≤ UInt64.size)
    (hs : StampedByCallers init log) {n : Nat} (hn : n < log.length) :
    Fenced (Replay.stateAt commit init log n) (Replay.stateAt commit init log (n + 1)) := by
  by_cases hw : log[n].writesAssignments = false
  · intro r old hold
    rw [Replay.stateAt_succ hn, commit_assignments _ hw]
    exact ⟨old, hold, UInt64.le_refl _, fun ho => absurd rfl ho⟩
  · have hpayload := hlog _ (List.getElem_mem hn)
    cases hc : log[n] with
    | updatePartitionGuarded g a attributes =>
      obtain ⟨m, hmn, hstamped⟩ := hs n hn g a attributes hc
      exact fenced_stampedAt hlog hlen hmn hn hc hstamped
    | applySnapshot snapshot =>
      rw [hc] at hpayload
      cases hpayload
    | applySnapshotGuarded g snapshot =>
      rw [hc] at hpayload
      cases hpayload
    | _ =>
      rw [hc] at hw
      exact absurd rfl hw

end Run

/-- The owner and the epoch a resource has in a snapshot. -/
def ownerEpoch (s : CoordinationSnapshot) (r : ResourceIdentity) : Option (String × UInt64) :=
  s.assignments[r]?.map fun a => (a.owner, a.epoch)

/-- **A stamp and the generation guard make the fence.** In every run of commands that do not replace the snapshot, of a
length that a raft log can have: an accepted publication commits the owner and epoch it carries; one that its caller
stamped against an earlier state it read, of the generation it expects, neither lowers the epoch of its resource nor
changes its owner under the same epoch, however stale the read is. When all publications are stamped so, no epoch falls,
each change of owner raises it, and no two owners of a resource are published under one epoch. -/
theorem publications_fenced (init : CoordinationSnapshot) (log : List MetadataRaftCommand)
    (hlog : ∀ c ∈ log, c.payload = none) (hlen : log.length ≤ UInt64.size) :
    (∀ (n : Nat) (hn : n < log.length) g a attributes, log[n] = .updatePartitionGuarded g a attributes →
      (Accepted (Replay.stateAt commit init log n) log[n] →
        ownerEpoch (Replay.stateAt commit init log (n + 1)) a.resource = some (a.owner, a.epoch)) ∧
      ∀ m ≤ n, StampedAt (Replay.stateAt commit init log m) g a →
        Fenced (Replay.stateAt commit init log n) (Replay.stateAt commit init log (n + 1))) ∧
    (StampedByCallers init log →
      (∀ i j, i ≤ j → j ≤ log.length → Fenced (Replay.stateAt commit init log i) (Replay.stateAt commit init log j)) ∧
      ∀ i j, i ≤ log.length → j ≤ log.length → ∀ (r : ResourceIdentity) o o' e,
        ownerEpoch (Replay.stateAt commit init log i) r = some (o, e) →
        ownerEpoch (Replay.stateAt commit init log j) r = some (o', e) → o = o') := by
  constructor
  · intro n hn g a attributes hc
    refine ⟨fun ha => ?_, fun m hmn hs => fenced_stampedAt hlog hlen hmn hn hc hs⟩
    rw [Replay.stateAt_succ hn]
    rw [hc] at ha ⊢
    simp [ownerEpoch, commit_publication ha]
  · intro hs
    have hfence : ∀ i j, i ≤ j → j ≤ log.length →
        Fenced (Replay.stateAt commit init log i) (Replay.stateAt commit init log j) := fun i j hij hj =>
      Replay.stateAt_rel Fenced.refl (fun _ _ _ => Fenced.trans)
        (fun n hn => fenced_succ_of_stampedByCallers hlog hlen hs hn) hij hj
    refine ⟨hfence, fun i j hi hj r o o' e ho ho' => ?_⟩
    obtain ⟨a, ha, hae⟩ := Option.map_eq_some_iff.1 ho
    obtain ⟨b, hb, hbe⟩ := Option.map_eq_some_iff.1 ho'
    simp only [Prod.mk.injEq] at hae hbe
    have he : a.epoch = b.epoch := hae.2.trans hbe.2.symm
    rw [← hae.1, ← hbe.1]
    rcases Nat.le_total i j with hij | hji
    · exact (hfence i j hij hj).owner_eq ha hb he
    · exact ((hfence j i hji hi).owner_eq hb ha he.symm).symm

/-- The resource of the runs below. -/
def partition0 : ResourceIdentity := ⟨"queue", "orders", 0, none⟩

/-- Publications of `partition0` from the empty state: each expects the generation it meets. -/
def publications (owners : List (String × UInt64)) : List MetadataRaftCommand :=
  owners.zipIdx.map fun p => .updatePartitionGuarded (UInt64.ofNat p.2) (.new partition0 p.1.1 [] p.1.2) ∅

/-- Two callers read the state before a heartbeat, and both publish a failover from `a`. -/
def racingFailovers : List MetadataRaftCommand :=
  [.updatePartitionGuarded 0 (.new partition0 "a" [] 1) ∅, .registerNode (brokerA "1"), .registerNode (brokerA "2"),
    .updatePartitionGuarded 2 (.new partition0 "b" [] 2) ∅, .updatePartitionGuarded 2 (.new partition0 "c" [] 2) ∅]

/-- The guard stops the second one. -/
theorem publications_fenced_failover :
    Fenced (Replay.stateAt commit .default racingFailovers 1) (Replay.stateAt commit .default racingFailovers 5) ∧
      ownerEpoch (Replay.stateAt commit .default racingFailovers 5) partition0 = some ("b", 2) := by
  have hread : ∀ owner : String,
      StampedAt (Replay.stateAt commit .default racingFailovers 2) 2 (.new partition0 owner [] 2) := by
    intro owner
    have hcommitted : (Replay.stateAt commit .default racingFailovers 2).assignments[partition0]? =
        some (.new partition0 "a" [] 1) := by decide
    exact ⟨by decide, (stamped_fence hcommitted (by decide) rfl).1⟩
  refine ⟨((publications_fenced .default racingFailovers (by decide) (by decide)).2 ?_).1 1 5 (by decide) (by decide),
    by decide⟩
  intro n hn g a attributes hc
  match n, hn with
  | 0, _ =>
    cases hc
    exact ⟨0, Nat.le_refl 0, by decide, fun old hold => by cases hold⟩
  | 1, _ => cases hc
  | 2, _ => cases hc
  | 3, _ =>
    cases hc
    exact ⟨2, by decide, hread "b"⟩
  | 4, _ =>
    cases hc
    exact ⟨2, by decide, hread "c"⟩

/-- Unstamped publications are accepted: two owners under epoch 5, then epoch 1. -/
theorem unstamped_publication_two_owners :
    let log := publications [("a", 5), ("b", 5), ("b", 1)]
    (∀ c ∈ log, c.payload = none) ∧
    (∀ (n : Nat) (hn : n < log.length), Accepted (Replay.stateAt commit .default log n) log[n]) ∧
      ownerEpoch (Replay.stateAt commit .default log 1) partition0 = some ("a", 5) ∧
      ownerEpoch (Replay.stateAt commit .default log 2) partition0 = some ("b", 5) ∧
      ownerEpoch (Replay.stateAt commit .default log 3) partition0 = some ("b", 1) := by
  decide

end Ganglion
