import Ganglion.Consensus.MetadataNode
import Ganglion.Storage.FileMetadataLog

/-!
# Runs of a metadata node

Calls on a node over an empty log whose operations succeed. Terms advance by two routes, with the log (a proposal of a
higher term clears it) and without it (`set_leader_term`); the leader, the generation and the log change independently.
A run carries the last accepted proposal (`NodeRun`), and the invariant says what the log then looks like (`LogShape`,
`Inv`): its last entry is that proposal, which is all that a restart reads.

The log is any one that answers as the in-memory log (`RefinesInMemory`), so the results hold for both backends
(`persisted_node_run`).
-/

namespace Ganglion

/-! ## Runs -/

/-- A call on a node. -/
inductive NodeCall where
  | setLeaderTerm (nodeId : String) (term : UInt64)
  | setLeader (leaderId : String)
  | clearLeader
  | applySnapshot (proposer : String) (snapshot : CoordinationSnapshot) (term : Option UInt64)
  deriving DecidableEq

/-- A node, and term and snapshot of the last accepted proposal. -/
structure NodeRun (σ : Type) where
  node : MetadataNode σ
  accepted : Option (UInt64 × CoordinationSnapshot)

namespace NodeRun

variable {σ : Type} (log : MetadataLog σ)

/-- One call. -/
def step (r : NodeRun σ) : NodeCall → NodeRun σ
  | .setLeaderTerm nodeId term => { r with node := r.node.setLeaderTerm nodeId term }
  | .setLeader leaderId => { r with node := r.node.setLeader leaderId }
  | .clearLeader => { r with node := r.node.clearLeader }
  | .applySnapshot proposer snapshot term =>
    match r.node.applySnapshot log proposer snapshot term with
    | (.ok (), node) => ⟨node, some (r.node.proposalTerm term, snapshot)⟩
    | (.error _, node) => { r with node := node }

/-- Calls on a node that has just been made. -/
def run (node : MetadataNode σ) (calls : List NodeCall) : NodeRun σ := calls.foldl (step log) ⟨node, none⟩

end NodeRun

/-- What is read from the log along the run are `Vec`s. -/
def FitsVec {σ : Type} (log : MetadataLog σ) (r : NodeRun σ) (calls : List NodeCall) : Prop :=
  ∀ n es, log.entries ((calls.take n).foldl (NodeRun.step log) r).node.log = .ok es → es.length ≤ isizeMax

/-! ## The shape of the log -/

/-- Consecutive indices from 1, and terms and generations that do not decrease and do not exceed the given ones. -/
structure LogShape (es : List MetadataLogEntry) (term generation : UInt64) : Prop where
  indices : es.map (fun e => e.index.toNat) = List.range' 1 es.length
  terms : es.Pairwise fun a b => a.term ≤ b.term
  termsBelow : ∀ e ∈ es, e.term ≤ term
  generations : es.Pairwise fun a b => a.snapshot.generation ≤ b.snapshot.generation
  generationsBelow : ∀ e ∈ es, e.snapshot.generation ≤ generation

namespace LogShape

variable {es : List MetadataLogEntry} {term generation : UInt64}

theorem nil : LogShape [] term generation := ⟨rfl, .nil, by simp, .nil, by simp⟩

theorem mono (h : LogShape es term generation) {term' generation' : UInt64} (ht : term ≤ term')
    (hg : generation ≤ generation') : LogShape es term' generation' :=
  ⟨h.indices, h.terms, fun e he => UInt64.le_trans (h.termsBelow e he) ht, h.generations,
    fun e he => UInt64.le_trans (h.generationsBelow e he) hg⟩

/-- The last index is the number of entries. -/
theorem lastIndex (h : LogShape es term generation) {e : MetadataLogEntry} (he : es.getLast? = some e) :
    e.index.toNat = es.length := by
  have hlast := congrArg List.getLast? h.indices
  rw [List.getLast?_map, he, List.getLast?_range'] at hlast
  split at hlast
  · cases hlast
  · simp only [Option.map_some, Option.some.injEq] at hlast
    omega

/-- A `Vec` of entries leaves an index for one more. -/
theorem hasRoom (h : LogShape es term generation) (hvec : es.length ≤ isizeMax) : HasRoom es := by
  intro e he
  rw [lt_u64Max_iff, h.lastIndex he, UInt64.size]
  unfold isizeMax at hvec
  omega

theorem nextLogIndex (h : LogShape es term generation) (hroom : HasRoom es) :
    (nextLogIndex es).toNat = es.length + 1 := by
  unfold Ganglion.nextLogIndex
  cases he : es.getLast? with
  | none =>
    rw [List.getLast?_eq_none_iff.1 he]
    rfl
  | some e => exact (toNat_saturatingSucc (hroom e he)).trans (congrArg (· + 1) (h.lastIndex he))

/-- Appending an entry of the term, with a snapshot of at least the generation. -/
theorem append (h : LogShape es term generation) (hroom : HasRoom es) {snapshot : CoordinationSnapshot}
    (hg : generation ≤ snapshot.generation) :
    LogShape (es ++ [⟨term, Ganglion.nextLogIndex es, snapshot⟩]) term snapshot.generation := by
  refine ⟨?_, ?_, fun e he => ?_, ?_, fun e he => ?_⟩
  · rw [List.map_append, h.indices, List.length_append, List.length_singleton, List.range'_concat]
    simp only [List.map_cons, List.map_nil, h.nextLogIndex hroom]
    congr 2
    omega
  · rw [List.pairwise_append]
    refine ⟨h.terms, List.pairwise_singleton _ _, fun a ha b hb => ?_⟩
    rw [List.mem_singleton.1 hb]
    exact h.termsBelow a ha
  · rcases List.mem_append.1 he with he | he
    · exact h.termsBelow e he
    · rw [List.mem_singleton.1 he]
      exact UInt64.le_refl _
  · rw [List.pairwise_append]
    refine ⟨h.generations, List.pairwise_singleton _ _, fun a ha b hb => ?_⟩
    rw [List.mem_singleton.1 hb]
    exact UInt64.le_trans (h.generationsBelow a ha) hg
  · rcases List.mem_append.1 he with he | he
    · exact UInt64.le_trans (h.generationsBelow e he) hg
    · rw [List.mem_singleton.1 he]
      exact UInt64.le_refl _

end LogShape

/-! ## Accepted proposals -/

section

variable {σ : Type} {log : MetadataLog σ} {rel : σ → List MetadataLogEntry → Prop}

/-- What is left of the entries when the proposal is appended. -/
def MetadataNode.entriesBefore (node : MetadataNode σ) (term : Option UInt64) (es : List MetadataLogEntry) :
    List MetadataLogEntry := if node.store.currentTerm < node.proposalTerm term then [] else es

/-- A proposal that passes the checks is accepted: it takes its term over and is appended. -/
theorem applySnapshot_refines (hlog : RefinesInMemory log rel) {node : MetadataNode σ} {proposer : String}
    {snapshot : CoordinationSnapshot} {term : Option UInt64} (ha : node.Accepts proposer snapshot term)
    {es : List MetadataLogEntry} (hrel : rel node.log es) (hroom : HasRoom es) :
    ∃ s, node.applySnapshot log proposer snapshot term =
        (.ok (), { node with
          store := { node.store with currentTerm := node.proposalTerm term, snapshot := snapshot }, log := s }) ∧
      rel s (node.entriesBefore term es ++
        [⟨node.proposalTerm term, nextLogIndex (node.entriesBefore term es), snapshot⟩]) := by
  rw [MetadataNode.applySnapshot_accepted ha]
  unfold MetadataNode.entriesBefore
  by_cases hterm : node.store.currentTerm < node.proposalTerm term
  · rw [MetadataNode.commitSnapshot_higher log node.log snapshot hterm, if_pos hterm]
    obtain ⟨s, hclear, hempty⟩ := hlog.clear hrel
    obtain ⟨s', happend, hrel'⟩ := hlog.append hempty (fun e he => by cases he) (node.proposalTerm term) snapshot
    refine ⟨s', ?_, hrel'⟩
    rw [hclear]
    simp only [happend]
    rfl
  · have hsame : node.proposalTerm term = node.store.currentTerm :=
      UInt64.le_antisymm (UInt64.not_lt.1 hterm) ha.2.1
    rw [if_neg hterm, hsame, MetadataNode.commitSnapshot_same]
    obtain ⟨s', happend, hrel'⟩ := hlog.append hrel hroom node.store.currentTerm snapshot
    refine ⟨s', ?_, hrel'⟩
    rw [happend]
    rfl

/-! ## The invariant -/

/-- The log has its shape, and its last entry is the last accepted proposal, which is committed. -/
structure NodeRun.Inv (rel : σ → List MetadataLogEntry → Prop) (r : NodeRun σ) (es : List MetadataLogEntry) :
    Prop where
  rel : rel r.node.log es
  shape : LogShape es r.node.store.currentTerm r.node.store.snapshot.generation
  accepted : ∀ t s, r.accepted = some (t, s) →
    r.node.store.snapshot = s ∧ ∃ e, es.getLast? = some e ∧ e.term = t ∧ e.snapshot = s

/-- Term and committed generation do not decrease. -/
structure NodeRun.Advances (r r' : NodeRun σ) : Prop where
  term : r.node.store.currentTerm ≤ r'.node.store.currentTerm
  generation : r.node.store.snapshot.generation ≤ r'.node.store.snapshot.generation

theorem NodeRun.Advances.refl (r : NodeRun σ) : r.Advances r := ⟨UInt64.le_refl _, UInt64.le_refl _⟩

theorem NodeRun.Advances.trans {r r' r'' : NodeRun σ} (h : r.Advances r') (h' : r'.Advances r'') : r.Advances r'' :=
  ⟨UInt64.le_trans h.term h'.term, UInt64.le_trans h.generation h'.generation⟩

/-- A node whose log and committed snapshot stay, with a term that does not decrease. -/
theorem NodeRun.Inv.keep {r : NodeRun σ} {es : List MetadataLogEntry} (h : r.Inv rel es) {node : MetadataNode σ}
    (hlog : node.log = r.node.log) (hsnapshot : node.store.snapshot = r.node.store.snapshot)
    (hterm : r.node.store.currentTerm ≤ node.store.currentTerm) :
    NodeRun.Inv rel { r with node := node } es ∧ r.Advances { r with node := node } := by
  refine ⟨⟨?_, ?_, fun t s ha => ?_⟩, hterm, ?_⟩
  · show rel node.log es
    rw [hlog]
    exact h.rel
  · show LogShape es node.store.currentTerm node.store.snapshot.generation
    rw [hsnapshot]
    exact h.shape.mono hterm (UInt64.le_refl _)
  · show node.store.snapshot = s ∧ _
    rw [hsnapshot]
    exact h.accepted t s ha
  · show r.node.store.snapshot.generation ≤ node.store.snapshot.generation
    rw [hsnapshot]
    exact UInt64.le_refl _

theorem setLeaderTerm_keep {r : NodeRun σ} {es : List MetadataLogEntry} (h : r.Inv rel es) (nodeId : String)
    (term : UInt64) :
    NodeRun.Inv rel { r with node := r.node.setLeaderTerm nodeId term } es ∧
      r.Advances { r with node := r.node.setLeaderTerm nodeId term } := by
  refine h.keep rfl ?_ ?_
  · simp only [MetadataNode.setLeaderTerm]
    split <;> rfl
  · simp only [MetadataNode.setLeaderTerm]
    split
    · rename_i hterm
      exact hterm
    · exact UInt64.le_refl _

/-- The base of an accepted proposal has the shape for the term it takes over. -/
theorem LogShape.entriesBefore {node : MetadataNode σ} {es : List MetadataLogEntry}
    (h : LogShape es node.store.currentTerm node.store.snapshot.generation) {proposer : String}
    {snapshot : CoordinationSnapshot} {term : Option UInt64} (ha : node.Accepts proposer snapshot term) :
    LogShape (node.entriesBefore term es) (node.proposalTerm term) node.store.snapshot.generation := by
  unfold MetadataNode.entriesBefore
  split
  · exact LogShape.nil
  · exact h.mono ha.2.1 (UInt64.le_refl _)

/-- One call keeps the invariant. -/
theorem NodeRun.Inv.step (hlog : RefinesInMemory log rel) {r : NodeRun σ} {es : List MetadataLogEntry}
    (h : r.Inv rel es) (hvec : es.length ≤ isizeMax) (c : NodeCall) :
    (∃ es', NodeRun.Inv rel (r.step log c) es') ∧ r.Advances (r.step log c) := by
  cases c with
  | setLeaderTerm nodeId term =>
    obtain ⟨hinv, hadv⟩ := setLeaderTerm_keep h nodeId term
    exact ⟨⟨es, hinv⟩, hadv⟩
  | setLeader leaderId =>
    obtain ⟨hinv, hadv⟩ := setLeaderTerm_keep h leaderId r.node.store.currentTerm
    exact ⟨⟨es, hinv⟩, hadv⟩
  | clearLeader =>
    obtain ⟨hinv, hadv⟩ := @NodeRun.Inv.keep σ rel r es h r.node.clearLeader rfl rfl (UInt64.le_refl _)
    exact ⟨⟨es, hinv⟩, hadv⟩
  | applySnapshot proposer snapshot term =>
    by_cases ha : r.node.Accepts proposer snapshot term
    · obtain ⟨s, happly, hrel⟩ := applySnapshot_refines hlog ha h.rel (h.shape.hasRoom hvec)
      have hbase := h.shape.entriesBefore ha
      have hroom : HasRoom (r.node.entriesBefore term es) := by
        unfold MetadataNode.entriesBefore
        split
        · intro e he
          cases he
        · exact h.shape.hasRoom hvec
      simp only [NodeRun.step, happly]
      refine ⟨⟨_, hrel, hbase.append hroom ha.2.2, fun t s' hacc => ?_⟩, ha.2.1, ha.2.2⟩
      simp only [Option.some.injEq, Prod.mk.injEq] at hacc
      obtain ⟨rfl, rfl⟩ := hacc
      exact ⟨rfl, _, List.getLast?_concat, rfl, rfl⟩
    · obtain ⟨error, hrejected⟩ := @MetadataNode.applySnapshot_rejected σ log r.node proposer snapshot term ha
      simp only [NodeRun.step, hrejected]
      exact ⟨⟨es, h⟩, NodeRun.Advances.refl r⟩

/-- A run keeps the invariant. -/
theorem NodeRun.Inv.steps (hlog : RefinesInMemory log rel) {r : NodeRun σ} {es : List MetadataLogEntry}
    (h : r.Inv rel es) {calls : List NodeCall} (hvec : FitsVec log r calls) :
    (∃ es', NodeRun.Inv rel (calls.foldl (NodeRun.step log) r) es') ∧
      r.Advances (calls.foldl (NodeRun.step log) r) := by
  induction calls generalizing r es with
  | nil => exact ⟨⟨es, h⟩, NodeRun.Advances.refl r⟩
  | cons c calls ih =>
    obtain ⟨⟨es', hinv⟩, hadv⟩ := h.step hlog (hvec 0 es (hlog.entries h.rel)) c
    obtain ⟨hrun, hadv'⟩ := ih hinv fun n es hes => hvec (n + 1) es hes
    exact ⟨hrun, hadv.trans hadv'⟩

/-! ## What holds along a run -/

/-- What holds at a point of a run: the shape of the log, its last entry, what a restart recovers, and which proposals
are accepted. -/
structure NodeRun.Facts (log : MetadataLog σ) (r : NodeRun σ) : Prop where
  shape : ∃ es, log.entries r.node.log = .ok es ∧
    LogShape es r.node.store.currentTerm r.node.store.snapshot.generation ∧
    ∀ t s, r.accepted = some (t, s) →
      r.node.store.snapshot = s ∧ ∃ e, es.getLast? = some e ∧ e.term = t ∧ e.snapshot = s
  restart : ∀ t s, r.accepted = some (t, s) → ∀ id initial, ∃ node,
    MetadataNode.new log id initial r.node.log = .ok node ∧ node.store.snapshot = s ∧ node.store.currentTerm = t
  accepts : ∀ proposer snapshot term,
    (r.node.applySnapshot log proposer snapshot term).1 = .ok () ↔ r.node.Accepts proposer snapshot term
  commits : ∀ proposer snapshot term, (r.node.applySnapshot log proposer snapshot term).1 = .ok () →
    (r.node.applySnapshot log proposer snapshot term).2.store.currentTerm = r.node.proposalTerm term ∧
      (r.node.applySnapshot log proposer snapshot term).2.store.snapshot = snapshot

theorem NodeRun.Inv.facts (hlog : RefinesInMemory log rel) {r : NodeRun σ} {es : List MetadataLogEntry}
    (h : r.Inv rel es) (hvec : es.length ≤ isizeMax) : r.Facts log := by
  have haccepts : ∀ proposer snapshot term,
      (r.node.applySnapshot log proposer snapshot term).1 = .ok () ↔ r.node.Accepts proposer snapshot term := by
    intro proposer snapshot term
    constructor
    · intro hok
      by_contra ha
      obtain ⟨error, hrejected⟩ := @MetadataNode.applySnapshot_rejected σ log r.node proposer snapshot term ha
      rw [hrejected] at hok
      cases hok
    · intro ha
      obtain ⟨s, happly, _⟩ := applySnapshot_refines hlog ha h.rel (h.shape.hasRoom hvec)
      rw [happly]
  refine ⟨⟨es, hlog.entries h.rel, h.shape, h.accepted⟩, fun t s hacc id initial => ?_, haccepts,
    fun proposer snapshot term hok => ?_⟩
  · obtain ⟨_, e, he, rfl, rfl⟩ := h.accepted t s hacc
    refine ⟨⟨id, ⟨e.term, none, e.snapshot⟩, r.node.log⟩, ?_, rfl, rfl⟩
    simp only [MetadataNode.new, OpenraftLikeStore.new, hlog.latestEntry h.rel, he]
  · have ha := (haccepts proposer snapshot term).1 hok
    obtain ⟨s, happly, _⟩ := applySnapshot_refines hlog ha h.rel (h.shape.hasRoom hvec)
    rw [happly]
    exact ⟨rfl, rfl⟩

/-- Runs on a node that starts over the log in the state `s`: at any point, as long as what is read from the log are
`Vec`s, the facts hold and nothing has moved backwards since any earlier point. -/
def RunCorrect (log : MetadataLog σ) (s : σ) (id : String) (initial : CoordinationSnapshot)
    (before after : List NodeCall) : Prop :=
  ∃ node, MetadataNode.new log id initial s = .ok node ∧
    (FitsVec log ⟨node, none⟩ (before ++ after) →
      (NodeRun.run log node before).Advances (NodeRun.run log node (before ++ after)) ∧
        (NodeRun.run log node (before ++ after)).Facts log)

theorem runCorrect_of_refines (hlog : RefinesInMemory log rel) {s : σ} (hempty : rel s []) (id : String)
    (initial : CoordinationSnapshot) (before after : List NodeCall) : RunCorrect log s id initial before after := by
  refine ⟨⟨id, ⟨1, none, initial⟩, s⟩, ?_, fun hvec => ?_⟩
  · simp only [MetadataNode.new, OpenraftLikeStore.new, hlog.latestEntry hempty, List.getLast?_nil]
  · have hstart : NodeRun.Inv rel ⟨⟨id, ⟨1, none, initial⟩, s⟩, none⟩ [] :=
      ⟨hempty, LogShape.nil, fun t s h => by cases h⟩
    have hbefore : FitsVec log ⟨⟨id, ⟨1, none, initial⟩, s⟩, none⟩ before := by
      intro n es hes
      apply hvec (min n before.length) es
      rw [List.take_append_of_le_length (Nat.min_le_right _ _), ← List.take_take, List.take_length]
      exact hes
    obtain ⟨⟨es, hinv⟩, _⟩ := hstart.steps hlog hbefore
    have hafter : FitsVec log (before.foldl (NodeRun.step log) ⟨⟨id, ⟨1, none, initial⟩, s⟩, none⟩) after := by
      intro n es hes
      apply hvec (before.length + n) es
      rw [List.take_append, List.take_of_length_le (Nat.le_add_right _ _), List.foldl_append, Nat.add_sub_cancel_left]
      exact hes
    obtain ⟨⟨es', hinv'⟩, hadv⟩ := hinv.steps hlog hafter
    rw [← List.foldl_append] at hadv hinv'
    refine ⟨hadv, hinv'.facts hlog ?_⟩
    apply hvec (before ++ after).length es'
    rw [List.take_length]
    exact hlog.entries hinv'.rel

end

/-- **Runs of a persisted node, and its restart.** On a node that is started over an empty log, in memory or in a file,
after any calls: term and committed generation have not decreased; a proposal is accepted exactly when its proposer is
the leader and neither its term nor its generation is stale; the log has consecutive indices, and terms and generations
that do not decrease and stay below those of the node; and once a proposal was accepted, the last entry is the last
accepted one, and a node made on the log holds its snapshot and its term. -/
theorem persisted_node_run (codec : LogCodec) (policy : FileMetadataReplayPolicy) {file : Option Bytes}
    (hempty : FileMetadataLog.readAllEntries codec policy file = .ok []) (id : String)
    (initial : CoordinationSnapshot) (before after : List NodeCall) :
    RunCorrect inMemoryMetadataLog [] id initial before after ∧
      RunCorrect (FileMetadataLog.fileMetadataLog codec policy) file id initial before after :=
  ⟨runCorrect_of_refines inMemory_refines rfl id initial before after,
    runCorrect_of_refines FileMetadataLog.file_refines hempty id initial before after⟩

/-- A leader of term 3 proposes, and a higher term is announced without a proposal: the node restarts in term 3. -/
theorem persisted_node_run_restart :
    ∃ node, MetadataNode.new inMemoryMetadataLog "a" .default
        (NodeRun.run inMemoryMetadataLog ⟨"a", ⟨1, none, .default⟩, []⟩
          [.setLeaderTerm "a" 3, .applySnapshot "a" .default none, .setLeaderTerm "b" 5]).node.log = .ok node ∧
      node.store.currentTerm = 3 := by
  obtain ⟨⟨node, hnew, hrun⟩, _⟩ := persisted_node_run serdeLog .strict
    (rfl : FileMetadataLog.readAllEntries serdeLog .strict none = .ok []) "a" .default []
    [.setLeaderTerm "a" 3, .applySnapshot "a" .default none, .setLeaderTerm "b" 5]
  cases hnew
  have hvec : FitsVec inMemoryMetadataLog ⟨⟨"a", ⟨1, none, .default⟩, []⟩, none⟩
      [.setLeaderTerm "a" 3, .applySnapshot "a" .default none, .setLeaderTerm "b" 5] := by
    intro n es hes
    rcases n with _ | _ | _ | n
    · cases hes; decide
    · cases hes; decide
    · cases hes; decide
    · rw [List.take_of_length_le (by simp)] at hes
      cases hes; decide
  obtain ⟨node', hnode, _, hterm⟩ := (hrun hvec).2.restart 3 .default rfl "a" .default
  exact ⟨node', hnode, hterm⟩

end Ganglion
