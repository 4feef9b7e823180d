import Ganglion.Runtime.Serde

/-!
# The file store against the in-memory store

The invariant of a file store whose calls succeed (`Durable`): the file at the path holds records that replay to the
state in memory, and the writer is on that file. Calls and reopens keep it, with the compactions they may run, so a file
store that is closed and opened again at any points reads as the in-memory store after the same calls
(`file_store_refines`).
-/

namespace Ganglion

variable {codec : WalCodec}

/-! ## The invariant -/

/-- The file at the path holds records that replay to the state, and the writer is on it. -/
structure FileRaftLogStore.Durable (codec : WalCodec) (store : FileRaftLogStore) : Prop where
  records : ∃ rs, store.files.atPath = encodeRecords codec rs ∧ LogStoreInner.default.applyRecords rs = store.state
  attached : store.files.detached = none

namespace FileRaftLogStore

/-- Writing the records of a step of the state. -/
theorem Durable.write {store : FileRaftLogStore} (h : Durable codec store) (rs : List WalRecord) :
    Durable codec ⟨store.state.applyRecords rs, store.files.write (encodeRecords codec rs)⟩ := by
  obtain ⟨⟨rs₀, hf, hs⟩, ha⟩ := h
  refine ⟨⟨rs₀ ++ rs, ?_, ?_⟩, ?_⟩
  · simp [WalFiles.write, ha, hf]
  · simp [hs]
  · simp [WalFiles.write, ha]

/-- Continuing on a compacted file. -/
theorem Durable.compact (state : LogStoreInner) :
    Durable codec ⟨state, ⟨encodeRecords codec (compacted state), none⟩⟩ :=
  ⟨⟨_, rfl, applyRecords_compacted state⟩, rfl⟩

/-- A call other than purge writes its records. -/
theorem call_appends {op : LogOp} (h : op.appends) (store : FileRaftLogStore) :
    store.call codec op = ⟨store.state.applyRecords op.records, store.files.write (encodeRecords codec op.records)⟩ := by
  cases op with
  | saveVote vote => simp [call, saveVote, LogOp.records, encodeRecords]; rfl
  | append entries =>
    simp only [call, append]
    split
    · rename_i he
      rw [List.isEmpty_iff.1 he]
      obtain ⟨state, path, detached⟩ := store
      cases detached <;> simp [LogOp.records, WalFiles.write]
    · rw [LogOp.records, LogStoreInner.applyRecords_entries, encodeRecords, List.flatMap_map]
      rfl
  | truncate logId => simp [call, truncate, LogOp.records, encodeRecords]; rfl
  | purge logId => cases h

/-- In memory the two stores do the same. -/
theorem call_state (store : FileRaftLogStore) (op : LogOp) :
    (store.call codec op).state = GanglionLogStore.call store.state op := by
  by_cases h : op.appends
  · rw [call_appends h, applyRecords_records h]
  · cases op with
    | purge logId => rfl
    | _ => exact absurd rfl h

theorem Durable.call {store : FileRaftLogStore} (h : Durable codec store) (op : LogOp) :
    Durable codec (store.call codec op) := by
  by_cases ha : op.appends
  · rw [call_appends ha]
    exact h.write op.records
  · cases op with
    | purge logId => exact Durable.compact _
    | _ => exact absurd rfl ha

/-- Opening a file of records succeeds, with the state they replay to. -/
theorem openFile_records (rs : List WalRecord) :
    ∃ store, openFile codec (some (encodeRecords codec rs)) = .ok store ∧
      store.state = LogStoreInner.default.applyRecords rs ∧ Durable codec store := by
  simp only [openFile, Option.getD_some, replay_encodeRecords]
  split
  · exact ⟨_, rfl, rfl, Durable.compact _⟩
  · exact ⟨_, rfl, rfl, ⟨rs, rfl, rfl⟩, rfl⟩

/-- Reopening restores the state. -/
theorem Durable.reopen {store : FileRaftLogStore} (h : Durable codec store) :
    ∃ store', openFile codec (some store.files.atPath) = .ok store' ∧ store'.state = store.state ∧
      Durable codec store' := by
  obtain ⟨rs, hf, hs⟩ := h.records
  rw [hf, ← hs]
  exact openFile_records rs

end FileRaftLogStore

/-! ## Refinement -/

/-- What happens to a file store: an acknowledged call, or closing and opening again. -/
inductive WalEvent where
  | call (op : LogOp)
  | reopen
  deriving DecidableEq

/-- The calls among the events. -/
def WalEvent.calls (events : List WalEvent) : List LogOp :=
  events.filterMap fun
    | .call op => some op
    | .reopen => none

namespace FileRaftLogStore

/-- One event. -/
def step (codec : WalCodec) (store : FileRaftLogStore) : WalEvent → Except StorageError FileRaftLogStore
  | .call op => .ok (store.call codec op)
  | .reopen => openFile codec (some store.files.atPath)

/-- A run of events from a new file. -/
def run (codec : WalCodec) (events : List WalEvent) : Except StorageError FileRaftLogStore := do
  events.foldlM (step codec) (← openFile codec none)

/-- Events from a durable store, against the in-memory store. -/
theorem Durable.events {store : FileRaftLogStore} (h : Durable codec store) (events : List WalEvent) :
    ∃ store', events.foldlM (step codec) store = .ok store' ∧ Durable codec store' ∧
      store'.state = (WalEvent.calls events).foldl GanglionLogStore.call store.state := by
  induction events generalizing store with
  | nil => exact ⟨store, rfl, h, rfl⟩
  | cons e events ih =>
    cases e with
    | call op =>
      obtain ⟨store', hrun, hd, hs⟩ := ih (h.call op)
      exact ⟨store', hrun, hd, by rw [hs, call_state]; rfl⟩
    | reopen =>
      obtain ⟨store₁, hopen, hstate, hd₁⟩ := h.reopen
      obtain ⟨store', hrun, hd, hs⟩ := ih hd₁
      refine ⟨store', ?_, hd, by rw [hs, hstate]; rfl⟩
      rw [List.foldlM_cons, step, hopen]
      exact hrun

/-- The store on a new file. -/
def fresh : FileRaftLogStore := ⟨.default, ⟨[], none⟩⟩

theorem openFile_none : openFile codec none = .ok fresh := rfl

/-- A run from a new file keeps the invariant, and every reopen in it succeeds. -/
theorem durable_run (events : List WalEvent) :
    ∃ store, run codec events = .ok store ∧ Durable codec store ∧
      store.state = (WalEvent.calls events).foldl GanglionLogStore.call .default := by
  have hfresh : Durable codec fresh := ⟨⟨[], rfl, rfl⟩, rfl⟩
  obtain ⟨store, hrun, hd, hs⟩ := hfresh.events events
  refine ⟨store, ?_, hd, hs⟩
  rw [run, openFile_none]
  exact hrun

/-- What a run leaves at the path are records. -/
theorem run_records {events : List WalEvent} {store : FileRaftLogStore} (h : run codec events = .ok store) :
    ∃ rs, store.files.atPath = encodeRecords codec rs := by
  obtain ⟨store', hrun, ⟨⟨rs, hrs, _⟩, _⟩, _⟩ := @durable_run codec events
  rw [h] at hrun
  cases hrun
  exact ⟨rs, hrs⟩

/-- **The file store refines the in-memory store across reopens.** Whatever calls are made and wherever the store is
closed and opened again, every reopen succeeds, and vote, log state and entries on every range read as after the same
calls on the in-memory store. -/
theorem file_store_refines (events : List WalEvent) :
    ∃ store, run codec events = .ok store ∧
      let inner := (WalEvent.calls events).foldl GanglionLogStore.call .default
      store.state.readVote = inner.readVote ∧ store.state.getLogState = inner.getLogState ∧
        ∀ start stop, store.state.tryGetLogEntries start stop = inner.tryGetLogEntries start stop := by
  obtain ⟨store, hrun, _, hs⟩ := @durable_run codec events
  exact ⟨store, hrun, by rw [hs]; exact ⟨rfl, rfl, fun _ _ => rfl⟩⟩

/-- Two votes, entries, a purge and two reopens. -/
def busyStore : List WalEvent :=
  [.call (.saveVote ⟨⟨1, 0⟩, false⟩), .call (.append [⟨⟨⟨1, 0⟩, 1⟩, .blank⟩, ⟨⟨⟨1, 0⟩, 2⟩, .blank⟩]), .reopen,
    .call (.purge ⟨⟨1, 0⟩, 1⟩), .call (.saveVote ⟨⟨2, 1⟩, true⟩), .reopen]

/-- The second vote and the purge point survive the reopens. -/
theorem file_store_refines_busyStore :
    ∃ store, run serdeWal busyStore = .ok store ∧ store.state.readVote = some ⟨⟨2, 1⟩, true⟩ ∧
      store.state.getLogState.lastPurgedLogId = some ⟨⟨1, 0⟩, 1⟩ := by
  obtain ⟨store, hrun, hvote, hlog, _⟩ := @file_store_refines serdeWal busyStore
  exact ⟨store, hrun, hvote, by rw [hlog]; rfl⟩

end FileRaftLogStore

end Ganglion
