import Ganglion.Runtime.FileStore
import Ganglion.Runtime.Replica

/-!
# Recovery of a durable node

A durable node keeps a WAL and a snapshot file, compacted at different times. It is driven one call after another:
votes, appends, truncations above what was applied, applies of committed entries that its log holds, builds and installs
of snapshots, whose writes may fail, purges up to the last snapshot persisted, and restarts. What it has done is kept
beside it (`History`).

The two files cover each other: the log holds every entry of the committed log from the last snapshot persisted up to
what was applied (`LogCovers`), and the snapshot file is not behind that snapshot (`SnapshotCovers`). So after a stop at
any point nothing is lost (`bounded_recovery`).
-/

namespace Ganglion

open Std OrdMap GanglionStateMachine

/-! ## The node -/

/-- Indices count the committed log from 0. -/
def Consecutive (L : List Entry) : Prop := ∀ (k : Nat) (e : Entry), L[k]? = some e → e.logId.index.toNat = k

/-- What a node has done. -/
structure History where
  /-- How many entries of the committed log it has applied, at most. -/
  applied : Nat
  /-- How many entries the last snapshot covers that it persisted, or loaded on a restart. -/
  persisted : Nat
  /-- The entries it has acknowledged and not truncated. -/
  acked : UInt64 → Option Entry
  /-- The last vote it has acknowledged. -/
  vote : Option Vote

/-- A durable node: `FileRaftLogStore`, `GanglionStateMachine::persistent`, and its history. -/
structure DurableNode where
  wal : FileRaftLogStore
  machine : GanglionStateMachine
  history : History

inductive NodeEvent where
  | saveVote (vote : Vote)
  | append (entries : List Entry)
  | truncate (logId : LogId)
  | purge (logId : LogId)
  /-- Apply the next `count` committed entries in one call. -/
  | apply (count : Nat)
  | buildSnapshot (o : Persist)
  | installSnapshot (stored : Snapshot) (o : Persist)
  /-- Stop and open both files again. -/
  | restart
  deriving DecidableEq

namespace History

/-- Entries are acknowledged. -/
def ack (h : History) (entries : List Entry) : History :=
  { h with acked := entries.foldl (fun acked e => Function.update acked e.logId.index (some e)) h.acked }

/-- Acknowledged entries are truncated. -/
def forget (h : History) (since : UInt64) : History :=
  { h with acked := fun i => if i < since then h.acked i else none }

/-- The node has reached a position of the committed log. -/
def reach (h : History) (n : Nat) : History := { h with applied := max h.applied n }

/-- A snapshot of a position is persisted. -/
def persist (h : History) (n : Nat) : History := { h.reach n with persisted := n }

end History

namespace DurableNode

/-- A node on two new files. -/
def fresh : DurableNode := ⟨.fresh, onFile none, ⟨0, 0, fun _ => none, none⟩⟩

variable (walCodec : WalCodec) (codec : SnapshotCodec) (L : List Entry)

/-- How much of the committed log the machine has applied. -/
def position (node : DurableNode) : Nat := cursor L node.machine.inner.lastApplied

/-- The next committed entries. -/
def nextEntries (node : DurableNode) (count : Nat) : List Entry := (L.drop (node.position L)).take count

/-- One call, or a restart. -/
def step (node : DurableNode) : NodeEvent → Option DurableNode
  | .saveVote vote =>
    some { node with wal := node.wal.call walCodec (.saveVote vote), history := { node.history with vote := some vote } }
  | .append entries =>
    some { node with wal := node.wal.call walCodec (.append entries), history := node.history.ack entries }
  | .truncate logId =>
    some { node with wal := node.wal.call walCodec (.truncate logId), history := node.history.forget logId.index }
  | .purge logId => some { node with wal := node.wal.call walCodec (.purge logId) }
  | .apply count =>
    let entries := node.nextEntries L count
    some { node with
      machine := (node.machine.apply entries).1
      history := node.history.reach (node.position L + entries.length) }
  | .buildSnapshot o =>
    let r := node.machine.buildSnapshot codec o
    some { node with
      machine := r.1
      history := if r.2.isOk then node.history.persist (node.position L) else node.history }
  | .installSnapshot stored o =>
    let r := node.machine.installSnapshot codec stored o
    some { node with
      machine := r.1
      history := if r.2.isOk then node.history.persist (cursor L stored.snapshotMeta.lastLogId) else node.history }
  | .restart =>
    match FileRaftLogStore.openFile walCodec (some node.wal.files.atPath), openPersistent codec node.machine.file with
    | .ok wal, .ok machine => some ⟨wal, machine, node.history.persist (cursor L machine.inner.lastApplied)⟩
    | _, _ => none

/-- What openraft asks of a durable node. -/
def Allowed (node : DurableNode) : NodeEvent → Prop
  -- An applied entry is not overwritten by another one.
  | .append entries => ∀ e ∈ entries, ∀ (k : Nat) (x : Entry), L[k]? = some x → k < node.history.applied →
      e.logId.index = x.logId.index → e = x
  -- Applied entries are not truncated.
  | .truncate logId => node.history.applied ≤ logId.index.toNat
  -- A purge goes up to a committed entry that the last snapshot persisted covers.
  | .purge logId => ∃ k < node.history.persisted, ∃ e, L[k]? = some e ∧ e.logId = logId
  -- The committed entries to apply are in the local log.
  | .apply count => ∀ e ∈ node.nextEntries L count, node.wal.state.log[e.logId.index]? = some e
  -- A snapshot to install is one of the committed log, ahead of the machine.
  | .installSnapshot stored _ => Valid codec L stored ∧ node.position L < cursor L stored.snapshotMeta.lastLogId
  | _ => True

end DurableNode

variable {walCodec : WalCodec} {codec : SnapshotCodec} {L : List Entry}

/-! ## The log covers what the snapshot leaves out -/

/-- The log holds the committed entries from the last snapshot persisted up to what was applied, and what was
acknowledged from there on; it is purged only up to that snapshot. -/
structure LogCovers (L : List Entry) (s : LogStoreInner) (h : History) : Prop where
  vote : s.vote = h.vote
  purged : ∀ u, s.lastPurgedLogId = some u → ∃ k < h.persisted, ∃ e, L[k]? = some e ∧ e.logId = u
  present : ∀ (k : Nat) (e : Entry), L[k]? = some e → h.persisted ≤ k → k < h.applied →
    s.log[e.logId.index]? = some e
  acked : ∀ (i : UInt64) (e : Entry), h.acked i = some e → h.persisted ≤ i.toNat → s.log[i]? = some e

namespace LogCovers

variable {s : LogStoreInner} {h : History}

theorem insertEntry (hc : LogCovers L s h) {e : Entry}
    (he : ∀ (k : Nat) (x : Entry), L[k]? = some x → k < h.applied → e.logId.index = x.logId.index → e = x) :
    LogCovers L (s.insertEntry e) (h.ack [e]) where
  vote := hc.vote
  purged := hc.purged
  present k x hx hp ha := by
    rw [LogStoreInner.getElem?_insertEntry]
    split
    · rename_i hidx
      rw [he k x hx ha hidx]
    · exact hc.present k x hx hp ha
  acked i x hx hp := by
    rw [LogStoreInner.getElem?_insertEntry]
    simp only [History.ack, List.foldl_cons, List.foldl_nil] at hx
    split
    · rename_i hidx
      rw [← hidx, Function.update_self] at hx
      exact hx
    · rename_i hidx
      rw [Function.update_of_ne (Ne.symm hidx)] at hx
      exact hc.acked i x hx hp

theorem append (hc : LogCovers L s h) {es : List Entry}
    (hes : ∀ e ∈ es, ∀ (k : Nat) (x : Entry), L[k]? = some x → k < h.applied → e.logId.index = x.logId.index → e = x) :
    LogCovers L (GanglionLogStore.append s es) (h.ack es) := by
  induction es generalizing s h with
  | nil => exact hc
  | cons e es ih =>
    exact ih (hc.insertEntry (hes e List.mem_cons_self)) fun x hx => hes x (List.mem_cons_of_mem _ hx)

theorem truncate (hc : LogCovers L s h) (hL : Consecutive L) {since : UInt64} (hs : h.applied ≤ since.toNat) :
    LogCovers L (s.truncateFrom since) (h.forget since) where
  vote := hc.vote
  purged := hc.purged
  present k x hx hp ha := by
    have hidx := hL k x hx
    have hlt : x.logId.index < since := UInt64.lt_iff_toNat_lt.2 (by have : k < h.applied := ha; omega)
    rw [LogStoreInner.getElem?_truncateFrom, if_pos hlt]
    exact hc.present k x hx hp ha
  acked i x hx hp := by
    simp only [History.forget] at hx
    rw [LogStoreInner.getElem?_truncateFrom]
    split at hx
    · rename_i hlt
      rw [if_pos hlt]
      exact hc.acked i x hx hp
    · cases hx

theorem purge (hc : LogCovers L s h) (hL : Consecutive L) {upto : LogId}
    (hu : ∃ k < h.persisted, ∃ e, L[k]? = some e ∧ e.logId = upto) : LogCovers L (s.purgeTo upto) h := by
  obtain ⟨k, hk, e, he, rfl⟩ := hu
  have hidx := hL k e he
  refine ⟨hc.vote, fun u hu => ?_, fun k' x hx hp ha => ?_, fun i x hx hp => ?_⟩
  · rcases LogStoreInner.purgeTo_lastPurgedLogId s e.logId with ⟨_, hl⟩ | ⟨p, hs, _, hl⟩
    · rw [hl] at hu
      cases hu
      exact ⟨k, hk, e, he, rfl⟩
    · exact hc.purged u (by rw [hs, ← hl, hu])
  · have hidx' := hL k' x hx
    rw [LogStoreInner.getElem?_purgeTo_of_lt (UInt64.lt_iff_toNat_lt.2 (by omega))]
    exact hc.present k' x hx hp ha
  · rw [LogStoreInner.getElem?_purgeTo_of_lt (UInt64.lt_iff_toNat_lt.2 (by omega))]
    exact hc.acked i x hx hp

/-- A later snapshot is persisted. -/
theorem persist (hc : LogCovers L s h) {n : Nat} (hn : h.persisted ≤ n) : LogCovers L s (h.persist n) where
  vote := hc.vote
  purged u hu := by
    obtain ⟨k, hk, rest⟩ := hc.purged u hu
    exact ⟨k, Nat.lt_of_lt_of_le hk hn, rest⟩
  present k x hx hp ha := by
    simp only [History.persist, History.reach] at hp ha
    exact hc.present k x hx (by omega) (by omega)
  acked i x hx hp := hc.acked i x hx (Nat.le_trans hn hp)

/-- Entries that the log holds are applied. -/
theorem reach (hc : LogCovers L s h) {n : Nat}
    (hn : ∀ (k : Nat) (e : Entry), L[k]? = some e → h.applied ≤ k → k < n → s.log[e.logId.index]? = some e) :
    LogCovers L s (h.reach n) where
  vote := hc.vote
  purged := hc.purged
  present k x hx hp ha := by
    simp only [History.reach] at hp ha
    rcases Nat.lt_or_ge k h.applied with hlt | hge
    · exact hc.present k x hx hp hlt
    · exact hn k x hx hge (by omega)
  acked := hc.acked

end LogCovers

/-! ## The snapshot file covers what the log leaves out -/

/-- The file stands for a position of the log. -/
def FileAt (codec : SnapshotCodec) (L : List Entry) (file : Option Bytes) (q : Nat) : Prop :=
  (file = none ∧ q = 0) ∨ ∃ s, file = some (codec.storedToVec s) ∧ Holds codec (positionAt L q) s

/-- Machine and file are at positions of the log that are not behind the last snapshot persisted. -/
structure SnapshotCovers (codec : SnapshotCodec) (L : List Entry) (sm : GanglionStateMachine) (h : History) : Prop where
  persistent : sm.persistent = true
  bounded : h.applied ≤ L.length
  memory : ∃ p, h.persisted ≤ p ∧ p ≤ h.applied ∧ sm.inner.position = positionAt L p
  file : ∃ q, h.persisted ≤ q ∧ q ≤ L.length ∧ FileAt codec L sm.file q

/-- Reopening restores the position of the file. -/
theorem FileAt.reopen {file : Option Bytes} {q : Nat} (h : FileAt codec L file q) :
    ∃ sm, openPersistent codec file = .ok sm ∧ sm.persistent = true ∧ sm.file = file ∧
      sm.inner.position = positionAt L q := by
  rcases h with ⟨rfl, rfl⟩ | ⟨s, rfl, hs⟩
  · exact ⟨_, rfl, rfl, rfl, rfl⟩
  · exact ⟨_, openPersistent_stored hs, rfl, rfl, installUpdate_position hs⟩

/-- What a write of a snapshot leaves in the file. -/
theorem FileAt.persist {sm : GanglionStateMachine} {s : Snapshot} {q n : Nat} (h : FileAt codec L sm.file q)
    (hs : Holds codec (positionAt L n) s) (o : Persist) :
    FileAt codec L (persistFile codec sm s o) q ∨ FileAt codec L (persistFile codec sm s o) n := by
  rcases @persistFile_cases codec sm s o with hf | hf
  · exact Or.inl (hf ▸ h)
  · exact Or.inr (Or.inr ⟨s, hf, hs⟩)

/-- A write that succeeds. -/
theorem FileAt.persisted {sm : GanglionStateMachine} {s : Snapshot} {n : Nat} {o : Persist}
    (hp : sm.persistent = true) (ho : persistOk sm o = true) (hs : Holds codec (positionAt L n) s) :
    FileAt codec L (persistFile codec sm s o) n := by
  have ho' : o = .ok := by simpa [persistOk, hp] using ho
  exact Or.inr ⟨s, by simp [persistFile, hp, ho'], hs⟩

/-- The end of a batch of the log. -/
theorem positionAt_batch {n : Nat} (hn : n ≤ L.length) (count : Nat) :
    n + ((L.drop n).take count).length ≤ L.length ∧
      positionAt L (n + ((L.drop n).take count).length) = positionAt L (n + count) := by
  rw [List.length_take, List.length_drop]
  rcases Nat.le_total count (L.length - n) with hle | hle
  · exact ⟨by omega, by rw [Nat.min_eq_left hle]⟩
  · refine ⟨by omega, ?_⟩
    rw [Nat.min_eq_right hle, Nat.add_sub_cancel' hn, positionAt_of_le (by omega : L.length ≤ n + count)]

namespace SnapshotCovers

variable {sm : GanglionStateMachine} {h : History}

/-- The machine moves to a later position. -/
theorem reach (hc : SnapshotCovers codec L sm h) {sm' : GanglionStateMachine} {n : Nat} (hn : n ≤ L.length)
    (hpers : h.persisted ≤ n) (hpos : sm'.inner.position = positionAt L n) (hfile : sm'.file = sm.file)
    (hp : sm'.persistent = sm.persistent) : SnapshotCovers codec L sm' (h.reach n) where
  persistent := hp.trans hc.persistent
  bounded := Nat.max_le.2 ⟨hc.bounded, hn⟩
  memory := ⟨n, hpers, Nat.le_max_right _ _, hpos⟩
  file := hfile ▸ hc.file

/-- Machine and file are at a position that becomes the one persisted. -/
theorem persist (hc : SnapshotCovers codec L sm h) {sm' : GanglionStateMachine} {n : Nat} (hn : n ≤ L.length)
    (hpos : sm'.inner.position = positionAt L n) (hfile : FileAt codec L sm'.file n) (hp : sm'.persistent = true) :
    SnapshotCovers codec L sm' (h.persist n) where
  persistent := hp
  bounded := Nat.max_le.2 ⟨hc.bounded, hn⟩
  memory := ⟨n, Nat.le_refl _, Nat.le_max_right _ _, hpos⟩
  file := ⟨n, Nat.le_refl _, hn, hfile⟩

/-- A write that fails leaves the machine, and the file at its position or at that of the snapshot. -/
theorem failed (hc : SnapshotCovers codec L sm h) {sm' : GanglionStateMachine} {s : Snapshot} {n : Nat} {o : Persist}
    (hn : n ≤ L.length) (hpers : h.persisted ≤ n) (hs : Holds codec (positionAt L n) s)
    (hpos : sm'.inner.position = sm.inner.position) (hfile : sm'.file = persistFile codec sm s o)
    (hp : sm'.persistent = sm.persistent) : SnapshotCovers codec L sm' h where
  persistent := hp.trans hc.persistent
  bounded := hc.bounded
  memory := hpos ▸ hc.memory
  file := by
    obtain ⟨q, hq, hlen, hat⟩ := hc.file
    rw [hfile]
    rcases hat.persist hs o with hat' | hat'
    · exact ⟨q, hq, hlen, hat'⟩
    · exact ⟨n, hpers, hn, hat'⟩

end SnapshotCovers

/-! ## Steps -/

namespace DurableNode

/-- What a durable node keeps. -/
structure Inv (walCodec : WalCodec) (codec : SnapshotCodec) (L : List Entry) (node : DurableNode) : Prop where
  durable : FileRaftLogStore.Durable walCodec node.wal
  log : LogCovers L node.wal.state node.history
  snapshot : SnapshotCovers codec L node.machine node.history

theorem Inv.fresh : Inv walCodec codec L fresh where
  durable := ⟨⟨[], rfl, rfl⟩, rfl⟩
  log := ⟨rfl, fun _ h => (by cases h), fun _ _ _ _ h => absurd h (Nat.not_lt_zero _), fun _ _ h => (by cases h)⟩
  snapshot := ⟨rfl, Nat.zero_le _, ⟨0, Nat.le_refl _, Nat.le_refl _, rfl⟩,
    ⟨0, Nat.le_refl _, Nat.zero_le _, Or.inl ⟨rfl, rfl⟩⟩⟩

/-- A call on the log store. -/
theorem Inv.call {node : DurableNode} (h : Inv walCodec codec L node) (op : LogOp) {history : History}
    (hlog : LogCovers L (GanglionLogStore.call node.wal.state op) history)
    (hsnap : SnapshotCovers codec L node.machine history) :
    Inv walCodec codec L { node with wal := node.wal.call walCodec op, history := history } :=
  ⟨h.durable.call op, @FileRaftLogStore.call_state walCodec node.wal op ▸ hlog, hsnap⟩

/-- The machine is at the position that its last applied id tells. -/
theorem Inv.at_position {node : DurableNode} (h : Inv walCodec codec L node) (hL : Increasing L) :
    node.history.persisted ≤ node.position L ∧ node.position L ≤ node.history.applied ∧
      node.machine.inner.position = positionAt L (node.position L) := by
  obtain ⟨p, hpers, happ, hpos⟩ := h.snapshot.memory
  have hp : node.position L = p := cursor_eq hL (Nat.le_trans happ h.snapshot.bounded) hpos
  rw [hp]
  exact ⟨hpers, happ, hpos⟩

theorem Inv.apply {node : DurableNode} (h : Inv walCodec codec L node) (hL : Increasing L) {count : Nat}
    (hlocal : ∀ e ∈ node.nextEntries L count, node.wal.state.log[e.logId.index]? = some e) :
    Inv walCodec codec L
      { node with
        machine := (node.machine.apply (node.nextEntries L count)).1
        history := node.history.reach (node.position L + (node.nextEntries L count).length) } := by
  obtain ⟨hpers, happ, hpos⟩ := h.at_position hL
  obtain ⟨hlen, hend⟩ := positionAt_batch (Nat.le_trans happ h.snapshot.bounded) count
  refine ⟨h.durable, h.log.reach fun k e he hge hlt => ?_, h.snapshot.reach hlen (by omega) ?_ rfl rfl⟩
  · apply hlocal
    refine List.mem_of_getElem? (i := k - node.position L) ?_
    have hlt' : k - node.position L < count := by
      have : (node.nextEntries L count).length ≤ count := List.length_take_le _ _
      omega
    rw [nextEntries, List.getElem?_take, if_pos hlt', List.getElem?_drop, Nat.add_sub_cancel' (by omega), he]
  · rw [apply_position, hpos]
    exact (foldl_positionAt _ _).trans hend.symm

theorem Inv.buildSnapshot {node : DurableNode} (h : Inv walCodec codec L node) (hL : Increasing L) (o : Persist) :
    Inv walCodec codec L
      { node with
        machine := (node.machine.buildSnapshot codec o).1
        history :=
          if (node.machine.buildSnapshot codec o).2.isOk then node.history.persist (node.position L)
          else node.history } := by
  obtain ⟨hpers, happ, hpos⟩ := h.at_position hL
  have hlen : node.position L ≤ L.length := Nat.le_trans happ h.snapshot.bounded
  have hs : Holds codec (positionAt L (node.position L)) (builtSnapshot codec node.machine.inner) :=
    hpos ▸ builtSnapshot_holds node.machine.inner
  have hfile := @buildSnapshot_file codec node.machine o
  have hpos' := @buildSnapshot_position codec node.machine o
  have hpersistent := @buildSnapshot_persistent codec node.machine o
  by_cases ho : persistOk node.machine o = true
  · have hok : (node.machine.buildSnapshot codec o).2.isOk = true := by
      simp [GanglionStateMachine.buildSnapshot, ho, Except.isOk, Except.toBool]
    rw [hok, if_pos rfl]
    refine ⟨h.durable, h.log.persist hpers, h.snapshot.persist hlen (hpos'.trans hpos) ?_
      (hpersistent.trans h.snapshot.persistent)⟩
    rw [hfile]
    exact FileAt.persisted h.snapshot.persistent ho hs
  · have hok : (node.machine.buildSnapshot codec o).2.isOk = false := by
      simp [GanglionStateMachine.buildSnapshot, ho, Except.isOk, Except.toBool]
    rw [hok, if_neg Bool.false_ne_true]
    exact ⟨h.durable, h.log, h.snapshot.failed hlen hpers hs hpos' hfile hpersistent⟩

/-- The position of a snapshot of the log is told by its last log id. -/
theorem cursor_holds (hL : Increasing L) {s : Snapshot} {m : Nat} (hm : m ≤ L.length)
    (hs : Holds codec (positionAt L m) s) : cursor L s.snapshotMeta.lastLogId = m := by
  rw [hs.1, cursor_positionAt hL hm]

theorem Inv.installSnapshot {node : DurableNode} (h : Inv walCodec codec L node) (hL : Increasing L) {s : Snapshot}
    (hvalid : Valid codec L s) (hahead : node.position L < cursor L s.snapshotMeta.lastLogId) (o : Persist) :
    Inv walCodec codec L
      { node with
        machine := (node.machine.installSnapshot codec s o).1
        history :=
          if (node.machine.installSnapshot codec s o).2.isOk then
            node.history.persist (cursor L s.snapshotMeta.lastLogId)
          else node.history } := by
  obtain ⟨m, hm, hs⟩ := hvalid
  obtain ⟨hpers, happ, hpos⟩ := h.at_position hL
  rw [cursor_holds hL hm hs] at hahead ⊢
  have hpersm : node.history.persisted ≤ m := by omega
  by_cases ho : persistOk node.machine o = true
  · have hok : (node.machine.installSnapshot codec s o).2.isOk = true := by
      simp [GanglionStateMachine.installSnapshot, hs.2.2, ho, Except.isOk, Except.toBool]
    rw [hok, if_pos rfl, installSnapshot_ok hs ho]
    exact ⟨h.durable, h.log.persist hpersm,
      h.snapshot.persist hm (installUpdate_position hs) (FileAt.persisted h.snapshot.persistent ho hs)
        h.snapshot.persistent⟩
  · have hfail : node.machine.installSnapshot codec s o =
        ({ node.machine with file := persistFile codec node.machine s o }, .error .writeSnapshot) := by
      simp [GanglionStateMachine.installSnapshot, hs.2.2, ho]
    rw [hfail]
    exact ⟨h.durable, h.log, h.snapshot.failed hm hpersm hs rfl rfl rfl⟩

/-- A restart opens both files, at the position of the snapshot file. -/
theorem Inv.restart {node : DurableNode} (h : Inv walCodec codec L node) (hL : Increasing L) :
    ∃ wal machine q, FileRaftLogStore.openFile walCodec (some node.wal.files.atPath) = .ok wal ∧
      openPersistent codec node.machine.file = .ok machine ∧ wal.state = node.wal.state ∧
      node.history.persisted ≤ q ∧ q ≤ L.length ∧ machine.inner.position = positionAt L q ∧
      cursor L machine.inner.lastApplied = q ∧ Inv walCodec codec L ⟨wal, machine, node.history.persist q⟩ := by
  obtain ⟨wal, hwal, hstate, hdurable⟩ := h.durable.reopen
  obtain ⟨q, hq, hlen, hat⟩ := h.snapshot.file
  obtain ⟨machine, hopen, hpersistent, hfile, hpos⟩ := hat.reopen
  refine ⟨wal, machine, q, hwal, hopen, hstate, hq, hlen, hpos, cursor_eq hL hlen hpos, hdurable, ?_, ?_⟩
  · exact hstate ▸ h.log.persist hq
  · exact h.snapshot.persist hlen hpos (hfile ▸ hat) hpersistent

theorem step_inv (hL : Increasing L) (hC : Consecutive L) {node node' : DurableNode} {e : NodeEvent}
    (hallowed : Allowed codec L node e) (he : step walCodec codec L node e = some node')
    (h : Inv walCodec codec L node) : Inv walCodec codec L node' := by
  have hsnap : ∀ acked vote, SnapshotCovers codec L node.machine { node.history with acked := acked, vote := vote } :=
    fun _ _ => ⟨h.snapshot.persistent, h.snapshot.bounded, h.snapshot.memory, h.snapshot.file⟩
  cases e with
  | saveVote vote =>
    cases Option.some.inj he
    exact h.call (.saveVote vote) ⟨rfl, h.log.purged, h.log.present, h.log.acked⟩ (hsnap _ _)
  | append entries =>
    cases Option.some.inj he
    exact h.call (.append entries) (h.log.append hallowed) (hsnap _ _)
  | truncate logId =>
    cases Option.some.inj he
    exact h.call (.truncate logId) (h.log.truncate hC hallowed) (hsnap _ _)
  | purge logId =>
    cases Option.some.inj he
    exact h.call (.purge logId) (h.log.purge hC hallowed) (hsnap _ _)
  | apply count =>
    cases Option.some.inj he
    exact h.apply hL hallowed
  | buildSnapshot o =>
    cases Option.some.inj he
    exact h.buildSnapshot hL o
  | installSnapshot stored o =>
    cases Option.some.inj he
    exact h.installSnapshot hL hallowed.1 hallowed.2 o
  | restart =>
    obtain ⟨wal, machine, q, hwal, hopen, _, _, _, _, hcur, hinv⟩ := h.restart hL
    simp only [step, hwal, hopen, hcur, Option.some.injEq] at he
    exact he ▸ hinv

/-! ## Recovery -/

/-- Where reading goes on after the last applied entry. -/
def afterApplied (lastApplied : Option LogId) : Bound :=
  match lastApplied with
  | none => .unbounded
  | some last => .excluded last.index

theorem afterApplied_admits (hC : Consecutive L) {q : Nat} (hq : q ≤ L.length) (i : UInt64) :
    (afterApplied (positionAt L q).lastApplied).admitsFrom i = decide (q ≤ i.toNat) := by
  cases q with
  | zero => simp [positionAt_lastApplied_zero, afterApplied, Bound.admitsFrom]
  | succ q =>
    have hidx := hC q L[q] (List.getElem?_eq_getElem hq)
    rw [positionAt_lastApplied_succ hq]
    simp only [afterApplied, Bound.admitsFrom, UInt64.lt_iff_toNat_lt, hidx, Nat.lt_iff_add_one_le]

theorem afterApplied_panics (hC : Consecutive L) {q k : Nat} {e : Entry} (he : L[k]? = some e) (hqk : q ≤ k) :
    Bound.panics (afterApplied (positionAt L q).lastApplied) (.included e.logId.index) = false := by
  have hk : k < L.length := (List.getElem?_eq_some_iff.1 he).1
  cases q with
  | zero => rfl
  | succ q =>
    have hq : q < L.length := by omega
    have hidx := hC q L[q] (List.getElem?_eq_getElem hq)
    rw [positionAt_lastApplied_succ hq]
    simp only [afterApplied, Bound.panics, UInt64.lt_iff_toNat_lt, hidx, hC k e he, decide_eq_false_iff_not]
    omega

/-- The entries from `q` up to `k`. -/
theorem mem_batch {q k : Nat} {e : Entry} :
    e ∈ (L.drop q).take (k + 1 - q) ↔ ∃ j, q ≤ j ∧ j ≤ k ∧ L[j]? = some e := by
  rw [List.mem_iff_getElem?]
  simp only [List.getElem?_take, List.getElem?_drop]
  constructor
  · rintro ⟨i, hi⟩
    split at hi
    · exact ⟨q + i, by omega, by omega, hi⟩
    · cases hi
  · rintro ⟨j, hqj, hjk, hj⟩
    exact ⟨j - q, by rw [if_pos (by omega), Nat.add_sub_cancel' hqj, hj]⟩

/-- The entries of the log from a position on, up to the one at `k`, are what the store returns for that range. -/
theorem tryGetLogEntries_covered {s : LogStoreInner} {q k : Nat} {e : Entry} (hC : Consecutive L)
    (hcover : ∀ (j : Nat) (x : Entry), L[j]? = some x → q ≤ j → j ≤ k → s.log[x.logId.index]? = some x)
    (he : L[k]? = some e) (hqk : q ≤ k) :
    s.tryGetLogEntries (afterApplied (positionAt L q).lastApplied) (.included e.logId.index) =
      some ((L.drop q).take (k + 1 - q)) := by
  have hk : k < L.length := (List.getElem?_eq_some_iff.1 he).1
  have htest : ∀ i : UInt64, ((afterApplied (positionAt L q).lastApplied).admitsFrom i &&
      (Bound.included e.logId.index).admitsTo i) = true ↔ q ≤ i.toNat ∧ i.toNat ≤ k := by
    intro i
    simp [afterApplied_admits hC (by omega : q ≤ L.length), Bound.admitsTo, UInt64.le_iff_toNat_le, hC k e he]
  have hrange := filter_toList_eq s.log
    (fun i => (afterApplied (positionAt L q).lastApplied).admitsFrom i && (Bound.included e.logId.index).admitsTo i)
    (((L.drop q).take (k + 1 - q)).map fun x => (x.logId.index, x)) ?_ ?_
  · rw [LogStoreInner.tryGetLogEntries, afterApplied_panics hC he hqk, if_neg Bool.false_ne_true, hrange]
    simp [Function.comp_def]
  · -- Indices grow along the log.
    rw [List.pairwise_map, List.pairwise_iff_getElem]
    intro i j hi hj hij
    simp only [List.length_take, List.length_drop] at hi hj
    have hget : ∀ n, n < min (k + 1 - q) (L.length - q) → ∀ x, ((L.drop q).take (k + 1 - q))[n]? = some x →
        x.logId.index.toNat = q + n := by
      intro n hn x hx
      rw [List.getElem?_take, if_pos (by omega), List.getElem?_drop] at hx
      exact hC _ x hx
    have hi' := hget i hi _ (List.getElem?_eq_getElem (by simpa using hi))
    have hj' := hget j hj _ (List.getElem?_eq_getElem (by simpa using hj))
    rw [compare_lt_iff, UInt64.lt_iff_toNat_lt, hi', hj']
    omega
  · intro i x
    rw [htest, List.mem_map]
    constructor
    · rintro ⟨y, hy, heq⟩
      obtain ⟨rfl, rfl⟩ := Prod.mk.inj heq
      obtain ⟨j, hqj, hjk, hj⟩ := mem_batch.1 hy
      exact ⟨hcover j y hj hqj hjk, by rw [hC j y hj]; exact ⟨hqj, hjk⟩⟩
    · rintro ⟨hx, hqi, hik⟩
      have hj : L[i.toNat]? = some L[i.toNat] := List.getElem?_eq_getElem (by omega)
      have hidx : L[i.toNat].logId.index = i := UInt64.toNat_inj.1 (hC _ _ hj)
      have hsame := hcover _ _ hj hqi hik
      rw [hidx, hx] at hsame
      rw [Option.some.inj hsame]
      exact ⟨L[i.toNat], mem_batch.2 ⟨i.toNat, hqi, hik, hj⟩, by rw [hidx]⟩

theorem logId_le (hL : Increasing L) {j k : Nat} {x y : Entry} (hx : L[j]? = some x) (hy : L[k]? = some y)
    (hjk : j ≤ k) : x.logId ≤ y.logId := by
  obtain ⟨hj, rfl⟩ := List.getElem?_eq_some_iff.1 hx
  obtain ⟨hk, rfl⟩ := List.getElem?_eq_some_iff.1 hy
  rcases Nat.eq_or_lt_of_le hjk with rfl | hlt
  · exact @ReflCmp.isLE_rfl _ compare _ _
  · have h : compare L[j].logId L[k].logId = .lt := List.pairwise_iff_getElem.1 hL j k hj hk hlt
    exact congrArg Ordering.isLE h

/-- **Bounded recovery loses nothing.** Let a durable node run on any calls, restarts included, and stop between any two
of them. Both files open. The machine is not behind the purge point; every entry acknowledged and not truncated above
its last applied id is in the log, and the vote is the last one acknowledged; reading the log after the last applied id
up to any entry that the node had applied, and applying what is read, gives the position of that entry. -/
theorem bounded_recovery (hL : Increasing L) (hC : Consecutive L) {es : List NodeEvent} {node : DurableNode}
    (h : Run (step walCodec codec L) (Allowed codec L) fresh es node) :
    ∃ wal machine, FileRaftLogStore.openFile walCodec (some node.wal.files.atPath) = .ok wal ∧
      openPersistent codec node.machine.file = .ok machine ∧
      (∀ u, wal.state.lastPurgedLogId = some u → ∃ last, machine.inner.lastApplied = some last ∧ u ≤ last) ∧
      (∀ i e, node.history.acked i = some e → (∀ last, machine.inner.lastApplied = some last → last.index < i) →
        wal.state.log[i]? = some e) ∧
      wal.state.readVote = node.history.vote ∧
      (∀ (k : Nat) (e : Entry), L[k]? = some e → k < node.history.applied →
        cursor L machine.inner.lastApplied ≤ k →
        ∃ entries, wal.state.tryGetLogEntries (afterApplied machine.inner.lastApplied) (.included e.logId.index) =
            some entries ∧
          (machine.apply entries).1.inner.position = positionAt L (k + 1)) ∧
      node.position L ≤ node.history.applied ∧ node.machine.inner.position = positionAt L (node.position L) := by
  have hinv : Inv walCodec codec L node := h.invariant (fun _ _ _ hg he hi => step_inv hL hC hg he hi) Inv.fresh
  obtain ⟨wal, machine, q, hwal, hopen, hstate, hpers, hq, hpos, hcur, _⟩ := hinv.restart hL
  have hlast : machine.inner.lastApplied = (positionAt L q).lastApplied := congrArg Position.lastApplied hpos
  obtain ⟨_, happ, hmem⟩ := hinv.at_position hL
  refine ⟨wal, machine, hwal, hopen, fun u hu => ?_, fun i e he habove => ?_, ?_, fun k e he hk hqk => ?_, happ, hmem⟩
  · obtain ⟨k, hk, e, he, rfl⟩ := hinv.log.purged u (hstate ▸ hu)
    obtain ⟨q, rfl⟩ : ∃ q', q = q' + 1 := ⟨q - 1, by omega⟩
    refine ⟨L[q].logId, by rw [hlast, positionAt_lastApplied_succ hq], ?_⟩
    exact logId_le hL he (List.getElem?_eq_getElem hq) (by omega)
  · have hi : q ≤ i.toNat := by
      cases q with
      | zero => exact Nat.zero_le _
      | succ q =>
        have hlt := habove L[q].logId (by rw [hlast, positionAt_lastApplied_succ hq])
        rw [UInt64.lt_iff_toNat_lt, hC q _ (List.getElem?_eq_getElem hq)] at hlt
        exact hlt
    rw [hstate]
    exact hinv.log.acked i e he (by omega)
  · rw [hstate]
    exact hinv.log.vote
  · rw [hcur] at hqk
    refine ⟨(L.drop q).take (k + 1 - q), ?_, ?_⟩
    · rw [hlast, hstate]
      exact tryGetLogEntries_covered hC
        (fun j x hx hqj hjk => hinv.log.present j x hx (by omega) (by omega)) he hqk
    · rw [apply_position, hpos, foldl_positionAt, Nat.add_sub_cancel' (by omega : q ≤ k + 1)]

/-- The first three entries of a group. -/
def firstEntries : List Entry :=
  [⟨⟨⟨0, 0⟩, 0⟩, .membership ⟨[], ∅⟩⟩, ⟨⟨⟨1, 0⟩, 1⟩, .blank⟩, ⟨⟨⟨1, 0⟩, 2⟩, .normal (.setAttribute "mode" "on")⟩]

theorem increasing_firstEntries : Increasing firstEntries := by
  simp only [Increasing, firstEntries, List.pairwise_cons, List.mem_cons, List.not_mem_nil, or_false,
    forall_eq_or_imp, forall_eq, false_imp_iff, implies_true, List.Pairwise.nil, and_true]
  decide

theorem consecutive_firstEntries : Consecutive firstEntries := by
  intro k e he
  match k, he with
  | 0, he => cases he; rfl
  | 1, he => cases he; rfl
  | 2, he => cases he; rfl

/-- The node snapshots two entries, applies the third one, purges, and stops. -/
def purgeAndStop : List NodeEvent :=
  [.saveVote ⟨⟨1, 0⟩, true⟩, .append firstEntries, .apply 2, .buildSnapshot .ok, .apply 1, .purge ⟨⟨1, 0⟩, 1⟩]

theorem run_purgeAndStop (walCodec : WalCodec) (codec : SnapshotCodec) :
    ∃ node, Run (step walCodec codec firstEntries) (Allowed codec firstEntries) fresh purgeAndStop node ∧
      node.history.applied = 3 ∧ node.history.vote = some ⟨⟨1, 0⟩, true⟩ := by
  refine ⟨_, .cons trivial rfl (.cons ?_ rfl (.cons ?_ rfl (.cons trivial rfl (.cons ?_ rfl (.cons ?_ rfl
    (.nil _)))))), rfl, rfl⟩
  · intro e _ k x _ hk
    exact absurd hk (Nat.not_lt_zero _)
  · exact (by decide : ∀ e ∈ [firstEntries[0], firstEntries[1]],
      (GanglionLogStore.append .default firstEntries).log[e.logId.index]? = some e)
  · exact (by decide : ∀ e ∈ [firstEntries[2]],
      (GanglionLogStore.append .default firstEntries).log[e.logId.index]? = some e)
  · exact ⟨1, (by decide : 1 < 2), firstEntries[1], rfl, rfl⟩

/-- A restart after `purgeAndStop` reads the third entry and applies it. -/
theorem bounded_recovery_purgeAndStop :
    ∃ node wal machine,
      Run (step serdeWal serdeSnapshot firstEntries) (Allowed serdeSnapshot firstEntries) fresh purgeAndStop node ∧
      FileRaftLogStore.openFile serdeWal (some node.wal.files.atPath) = .ok wal ∧
      openPersistent serdeSnapshot node.machine.file = .ok machine ∧
      wal.state.readVote = some ⟨⟨1, 0⟩, true⟩ ∧
      ∀ (k : Nat) (e : Entry), firstEntries[k]? = some e → k < 3 → cursor firstEntries machine.inner.lastApplied ≤ k →
        ∃ entries, wal.state.tryGetLogEntries (afterApplied machine.inner.lastApplied) (.included e.logId.index) =
            some entries ∧
          (machine.apply entries).1.inner.position = positionAt firstEntries (k + 1) := by
  obtain ⟨node, hrun, happlied, hvote⟩ := run_purgeAndStop serdeWal serdeSnapshot
  obtain ⟨wal, machine, hwal, hopen, _, _, hread, happly, _⟩ :=
    bounded_recovery increasing_firstEntries consecutive_firstEntries hrun
  exact ⟨node, wal, machine, hrun, hwal, hopen, hread.trans hvote, happlied ▸ happly⟩

end DurableNode

end Ganglion
