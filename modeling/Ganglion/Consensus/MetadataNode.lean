import Ganglion.Core.Placement
import Ganglion.Storage.MetadataLog

/-!
# The metadata node over a log

`MetadataNode`: a term, a leader and the committed snapshot in memory, over any metadata log. A proposal of the leader
is appended to the log and becomes the committed snapshot; a proposal of a higher term takes the term over and clears
the log before that.

The checks come before any effect, and the snapshot is committed after the append. The term and the clear come between
them, so a proposal of a higher term that the log then fails leaves the node half changed: `failed_proposal_iff` says
that this is the only way for a failed proposal to change anything.
-/

namespace Ganglion

/-! ## The store -/

/-- `Display for MetadataLogError`. -/
def MetadataLogError.display : MetadataLogError → String
  | .io details => s!"metadata log I/O error: {details}"
  | .parse details => s!"metadata log parse error: {details}"

/-- `OpenraftAdapterError`, as far as a metadata node answers with it. -/
inductive AdapterError where
  | notLeader
  | staleGeneration
  | staleTerm
  | planner (error : PlacementError)
  | storage (details : String)
  deriving DecidableEq

/-- `From<MetadataLogError> for OpenraftAdapterError`. -/
def AdapterError.ofLog (error : MetadataLogError) : AdapterError := .storage error.display

/-- `OpenraftLikeStore`. -/
structure OpenraftLikeStore where
  currentTerm : UInt64
  leader : Option String
  snapshot : CoordinationSnapshot
  deriving DecidableEq

namespace OpenraftLikeStore

variable {σ : Type} (log : MetadataLog σ)

/-- `OpenraftLikeStore::new`: term and snapshot of the last entry, if the log has one. -/
def new (s : σ) (initialSnapshot : CoordinationSnapshot) : Except AdapterError OpenraftLikeStore :=
  match log.latestEntry s with
  | .error error => .error (.ofLog error)
  | .ok (some entry) => .ok ⟨entry.term, none, entry.snapshot⟩
  | .ok none => .ok ⟨1, none, initialSnapshot⟩

/-- `is_leader`. -/
def isLeader (store : OpenraftLikeStore) (nodeId : String) : Bool := store.leader == some nodeId

/-- The effects of `append_snapshot` once its checks have passed: take a higher term over and clear the log, append,
commit. -/
def commitSnapshot (store : OpenraftLikeStore) (s : σ) (snapshot : CoordinationSnapshot) (term : UInt64) :
    Except AdapterError MetadataLogEntry × OpenraftLikeStore × σ :=
  let takeOver := term > store.currentTerm
  let store := if takeOver then { store with currentTerm := term } else store
  match if takeOver then log.clear s else (.ok (), s) with
  | (.error error, s) => (.error (.ofLog error), store, s)
  | (.ok (), s) =>
    match log.appendEntry s term snapshot with
    | (.error error, s) => (.error (.ofLog error), store, s)
    | (.ok entry, s) => (.ok entry, { store with snapshot := snapshot }, s)

/-- `append_snapshot`: the reply, and the store and the log after it. -/
def appendSnapshot (store : OpenraftLikeStore) (s : σ) (proposer : String) (snapshot : CoordinationSnapshot)
    (term : UInt64) : Except AdapterError MetadataLogEntry × OpenraftLikeStore × σ :=
  if !store.isLeader proposer then (.error .notLeader, store, s)
  else if term < store.currentTerm then (.error .staleTerm, store, s)
  else if snapshot.generation < store.snapshot.generation then (.error .staleGeneration, store, s)
  else commitSnapshot log store s snapshot term

end OpenraftLikeStore

/-! ## The node -/

/-- `MetadataNode`. A poisoned lock is left out. -/
structure MetadataNode (σ : Type) where
  localNodeId : String
  store : OpenraftLikeStore
  log : σ

namespace MetadataNode

variable {σ : Type} (log : MetadataLog σ)

/-- `MetadataNode::new`. -/
def new (localNodeId : String) (initialSnapshot : CoordinationSnapshot) (s : σ) :
    Except AdapterError (MetadataNode σ) :=
  match OpenraftLikeStore.new log s initialSnapshot with
  | .error error => .error error
  | .ok store => .ok ⟨localNodeId, store, s⟩

/-- `set_leader_term`. -/
def setLeaderTerm (node : MetadataNode σ) (nodeId : String) (term : UInt64) : MetadataNode σ :=
  let store := if term ≥ node.store.currentTerm then { node.store with currentTerm := term } else node.store
  { node with store := { store with leader := some nodeId } }

/-- `set_leader`. -/
def setLeader (node : MetadataNode σ) (leaderId : String) : MetadataNode σ :=
  node.setLeaderTerm leaderId node.store.currentTerm

/-- `clear_leader`. -/
def clearLeader (node : MetadataNode σ) : MetadataNode σ := { node with store := { node.store with leader := none } }

/-- The term a proposal is made in. -/
def proposalTerm (node : MetadataNode σ) (term : Option UInt64) : UInt64 := term.getD node.store.currentTerm

/-- `apply_snapshot`. -/
def applySnapshot (node : MetadataNode σ) (proposer : String) (snapshot : CoordinationSnapshot)
    (term : Option UInt64) : Except AdapterError Unit × MetadataNode σ :=
  let r := node.store.appendSnapshot log node.log proposer snapshot (node.proposalTerm term)
  (r.1.map fun _ => (), { node with store := r.2.1, log := r.2.2 })

/-- The checks that a proposal has to pass. -/
def Accepts (node : MetadataNode σ) (proposer : String) (snapshot : CoordinationSnapshot) (term : Option UInt64) :
    Prop :=
  node.store.leader = some proposer ∧ node.store.currentTerm ≤ node.proposalTerm term ∧
    node.store.snapshot.generation ≤ snapshot.generation

instance (node : MetadataNode σ) (proposer : String) (snapshot : CoordinationSnapshot) (term : Option UInt64) :
    Decidable (node.Accepts proposer snapshot term) := inferInstanceAs <| Decidable (_ ∧ _ ∧ _)

variable {log} {node : MetadataNode σ} {proposer : String} {snapshot : CoordinationSnapshot} {term : Option UInt64}

/-- A proposal that fails a check has no effect. -/
theorem applySnapshot_rejected (h : ¬node.Accepts proposer snapshot term) :
    ∃ error, node.applySnapshot log proposer snapshot term = (.error error, node) := by
  unfold applySnapshot OpenraftLikeStore.appendSnapshot
  split
  · exact ⟨_, rfl⟩
  · rename_i hleader
    split
    · exact ⟨_, rfl⟩
    · rename_i hterm
      split
      · exact ⟨_, rfl⟩
      · rename_i hgeneration
        refine absurd ⟨?_, UInt64.not_lt.1 hterm, UInt64.not_lt.1 hgeneration⟩ h
        simpa [OpenraftLikeStore.isLeader] using hleader

/-- A proposal that passes the checks takes effect. -/
theorem applySnapshot_accepted (h : node.Accepts proposer snapshot term) :
    node.applySnapshot log proposer snapshot term =
      let r := node.store.commitSnapshot log node.log snapshot (node.proposalTerm term)
      (r.1.map fun _ => (), { node with store := r.2.1, log := r.2.2 }) := by
  obtain ⟨hleader, hterm, hgeneration⟩ := h
  have hl : node.store.isLeader proposer = true := by simp [OpenraftLikeStore.isLeader, hleader]
  simp only [applySnapshot, OpenraftLikeStore.appendSnapshot, hl, UInt64.not_lt.2 hterm, UInt64.not_lt.2 hgeneration,
    Bool.not_true, Bool.false_eq_true, if_false]

/-! ## Failed proposals -/

/-- The operations of the log succeed or fail without effect. -/
structure FailsCleanly (log : MetadataLog σ) : Prop where
  append : ∀ s term snapshot error, (log.appendEntry s term snapshot).1 = .error error →
    (log.appendEntry s term snapshot).2 = s
  clear : ∀ s error, (log.clear s).1 = .error error → (log.clear s).2 = s

/-- Term, committed snapshot and log entries are as before, and so is what a restart recovers. -/
structure Unchanged (log : MetadataLog σ) (node node' : MetadataNode σ) : Prop where
  currentTerm : node'.store.currentTerm = node.store.currentTerm
  snapshot : node'.store.snapshot = node.store.snapshot
  entries : log.entries node'.log = log.entries node.log
  restart : ∀ id initial,
    (MetadataNode.new log id initial node'.log).map (fun n => (n.store.currentTerm, n.store.snapshot)) =
      (MetadataNode.new log id initial node.log).map fun n => (n.store.currentTerm, n.store.snapshot)

/-- A proposal that passes the checks with a higher term, on a log that then fails to clear or to append. -/
def FailsHalfway (log : MetadataLog σ) (node : MetadataNode σ) (proposer : String) (snapshot : CoordinationSnapshot)
    (term : Option UInt64) : Prop :=
  node.Accepts proposer snapshot term ∧ node.store.currentTerm < node.proposalTerm term ∧
    ((∃ error, (log.clear node.log).1 = .error error) ∨
      ∃ error, (log.appendEntry (log.clear node.log).2 (node.proposalTerm term) snapshot).1 = .error error)

/-- The effects of a proposal in the current term. -/
theorem commitSnapshot_same (log : MetadataLog σ) (store : OpenraftLikeStore) (s : σ)
    (snapshot : CoordinationSnapshot) :
    store.commitSnapshot log s snapshot store.currentTerm =
      match log.appendEntry s store.currentTerm snapshot with
      | (.error error, s) => (.error (.ofLog error), store, s)
      | (.ok entry, s) => (.ok entry, { store with snapshot := snapshot }, s) := by
  simp only [OpenraftLikeStore.commitSnapshot, gt_iff_lt, UInt64.lt_irrefl, if_false]

/-- The effects of a proposal of a higher term. -/
theorem commitSnapshot_higher (log : MetadataLog σ) {store : OpenraftLikeStore} (s : σ)
    (snapshot : CoordinationSnapshot) {term : UInt64} (h : store.currentTerm < term) :
    store.commitSnapshot log s snapshot term =
      match log.clear s with
      | (.error error, s) => (.error (.ofLog error), { store with currentTerm := term }, s)
      | (.ok (), s) =>
        match log.appendEntry s term snapshot with
        | (.error error, s) => (.error (.ofLog error), { store with currentTerm := term }, s)
        | (.ok entry, s) => (.ok entry, { store with currentTerm := term, snapshot := snapshot }, s) := by
  simp only [OpenraftLikeStore.commitSnapshot, gt_iff_lt, h, if_true]

/-- In the current term a failed append changes nothing. -/
theorem unchanged_of_same_term (hlog : FailsCleanly log) (ha : node.Accepts proposer snapshot term)
    (hterm : node.proposalTerm term = node.store.currentTerm) {error : AdapterError}
    (h : (node.applySnapshot log proposer snapshot term).1 = .error error) :
    (node.applySnapshot log proposer snapshot term).2 = node := by
  rw [applySnapshot_accepted ha, hterm, commitSnapshot_same] at h ⊢
  cases hr : log.appendEntry node.log node.store.currentTerm snapshot with
  | mk reply s =>
    cases reply with
    | ok entry =>
      rw [hr] at h
      cases h
    | error e =>
      have hs := hlog.append node.log node.store.currentTerm snapshot e (by rw [hr])
      rw [hr] at hs
      rw [show s = node.log from hs]

/-- A proposal of a higher term takes the term over whatever becomes of it, and fails exactly when the log does. -/
theorem applySnapshot_higher (ha : node.Accepts proposer snapshot term)
    (hterm : node.store.currentTerm < node.proposalTerm term) :
    (node.applySnapshot log proposer snapshot term).2.store.currentTerm = node.proposalTerm term ∧
      ((∃ error, (node.applySnapshot log proposer snapshot term).1 = .error error) ↔
        FailsHalfway log node proposer snapshot term) := by
  rw [applySnapshot_accepted ha, commitSnapshot_higher log node.log snapshot hterm]
  unfold FailsHalfway
  cases hc : log.clear node.log with
  | mk cleared s =>
    cases cleared with
    | error e => simp [Except.map, ha, hterm]
    | ok u =>
      cases hr : log.appendEntry s (node.proposalTerm term) snapshot with
      | mk reply s' => cases reply <;> simp [Except.map, ha, hterm, hr]

/-- **When a failed proposal changes nothing.** Over a log whose operations succeed or fail without effect, a proposal
that is answered with an error leaves term, committed snapshot, log entries and what a restart recovers if and only if it
is not one that passes the checks with a higher term and then fails on the log. -/
theorem failed_proposal_iff (hlog : FailsCleanly log) :
    (∀ error, (node.applySnapshot log proposer snapshot term).1 = .error error →
        Unchanged log node (node.applySnapshot log proposer snapshot term).2) ↔
      ¬FailsHalfway log node proposer snapshot term := by
  constructor
  · intro h hhalf
    obtain ⟨hcurrent, hfails⟩ := @applySnapshot_higher σ log node proposer snapshot term hhalf.1 hhalf.2.1
    obtain ⟨error, herror⟩ := hfails.2 hhalf
    have hsame := (h error herror).currentTerm
    rw [hcurrent] at hsame
    have hlt := hhalf.2.1
    rw [hsame] at hlt
    exact UInt64.lt_irrefl _ hlt
  · intro hnot error herror
    have hsame : (node.applySnapshot log proposer snapshot term).2 = node := by
      by_cases ha : node.Accepts proposer snapshot term
      · by_cases hterm : node.store.currentTerm < node.proposalTerm term
        · exact absurd ((applySnapshot_higher ha hterm).2.1 ⟨error, herror⟩) hnot
        · exact unchanged_of_same_term hlog ha (UInt64.le_antisymm (UInt64.not_lt.1 hterm) ha.2.1) herror
      · obtain ⟨error', hrejected⟩ := @applySnapshot_rejected σ log node proposer snapshot term ha
        rw [hrejected]
    rw [hsame]
    exact ⟨rfl, rfl, rfl, fun _ _ => rfl⟩

end MetadataNode

/-! ## A log that fails -/

/-- An in-memory log on a full disk: appends fail. -/
def fullDiskLog : MetadataLog (List MetadataLogEntry) :=
  { inMemoryMetadataLog with appendEntry := fun entries _ _ => (.error (.io "no space left on device"), entries) }

theorem fullDisk_failsCleanly : MetadataNode.FailsCleanly fullDiskLog :=
  ⟨fun _ _ _ _ _ => rfl, fun _ _ h => by cases h⟩

/-- A proposal of the current term whose append fails. -/
theorem failed_proposal_iff_sameTerm :
    let node : MetadataNode (List MetadataLogEntry) := ⟨"a", ⟨3, some "a", .default⟩, [⟨3, 1, .default⟩]⟩
    (node.applySnapshot fullDiskLog "a" .default (some 3)).1 =
        .error (.storage "metadata log I/O error: no space left on device") ∧
      MetadataNode.Unchanged fullDiskLog node (node.applySnapshot fullDiskLog "a" .default (some 3)).2 := by
  intro node
  have hfailed : (node.applySnapshot fullDiskLog "a" .default (some 3)).1 =
      .error (.storage "metadata log I/O error: no space left on device") := by decide
  have hsame : ¬node.store.currentTerm < node.proposalTerm (some 3) := by decide
  exact ⟨hfailed, (MetadataNode.failed_proposal_iff fullDisk_failsCleanly).2 (fun h => hsame h.2.1) _ hfailed⟩

/-- A proposal of term 2 over a log that fails to append: the error leaves the node in term 2 and the log without the
committed entry, so that a restart recovers nothing. -/
theorem higher_term_clears_log :
    let node : MetadataNode (List MetadataLogEntry) := ⟨"a", ⟨1, some "a", .default⟩, [⟨1, 1, .default⟩]⟩
    MetadataNode.FailsCleanly fullDiskLog ∧
      (node.applySnapshot fullDiskLog "a" .default (some 2)).1 =
        .error (.storage "metadata log I/O error: no space left on device") ∧
      (node.applySnapshot fullDiskLog "a" .default (some 2)).2.store.currentTerm = 2 ∧
      (node.applySnapshot fullDiskLog "a" .default (some 2)).2.log = [] ∧
      ¬MetadataNode.Unchanged fullDiskLog node (node.applySnapshot fullDiskLog "a" .default (some 2)).2 := by
  intro node
  refine ⟨fullDisk_failsCleanly, by decide, by decide, by decide, fun h => ?_⟩
  have hterm := h.currentTerm
  exact absurd hterm (by decide)

end Ganglion
