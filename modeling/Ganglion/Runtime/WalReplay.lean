import Ganglion.Runtime.WalCompaction
import Ganglion.Runtime.WalTail

/-!
# Strict replay

What a crash can make of acknowledged records. `WalHistory` runs a store, compactions that fail included, together with
the sequence of records its file stands for: calls append to it, a rewrite replaces it by the records of the state. The
file at the path is always the encoding of that sequence (`records_run`).

`strict_replay`: a byte prefix of the file that contains the acknowledged records opens, if it opens, on the fold of a
prefix of the sequence that contains them as well.
-/

namespace Ganglion

open Text

namespace FileRaftLogStore

variable {codec : WalCodec}

/-! ## The records of the file -/

/-- The records of the file at the path after an event, if it has held `records`. -/
def recordsAfter (store : FileRaftLogStore) (records : List WalRecord) : FaultEvent → List WalRecord
  | .event (.call (.purge logId)) => compacted (store.state.purgeTo logId)
  -- a writer that a rename has left on another file does not reach the path
  | .event (.call op) => if store.files.detached.isNone then records ++ op.records else records
  | .event .reopen =>
    let state := LogStoreInner.default.applyRecords records
    if needsCompaction records.length state then compacted state else records
  | .failedPurge logId failure => if failure.afterRename then compacted (store.state.purgeTo logId) else records

/-- A store and the records its file stands for. -/
structure WalHistory where
  store : FileRaftLogStore
  records : List WalRecord

/-- A new file. -/
def WalHistory.start : WalHistory := ⟨fresh, []⟩

/-- One event. -/
def WalHistory.step (codec : WalCodec) (h : WalHistory) (e : FaultEvent) : Option WalHistory :=
  (faultStep codec h.store e).map fun store => ⟨store, recordsAfter h.store h.records e⟩

/-- An event leaves the records it should at the path. -/
theorem records_step {store store' : FileRaftLogStore} {records : List WalRecord} {e : FaultEvent}
    (h : store.files.atPath = encodeRecords codec records) (he : faultStep codec store e = some store') :
    store'.files.atPath = encodeRecords codec (recordsAfter store records e) := by
  cases e with
  | failedPurge logId failure =>
    cases Option.some.inj he
    by_cases hf : failure.afterRename = true
    · simp [purge, rewrite, recordsAfter, hf, WalFiles.rename]
    · simp [purge, rewrite, recordsAfter, hf, h]
  | event e =>
    cases e with
    | reopen =>
      simp only [faultStep, step, h, openFile, Option.getD_some, replay_encodeRecords] at he
      split at he
      · rename_i hneeds
        cases he
        simp [recordsAfter, hneeds, rewrite, WalFiles.rename, WalFiles.replace]
      · rename_i hneeds
        cases he
        simp [recordsAfter, hneeds]
    | call op =>
      cases Option.some.inj he
      by_cases hop : op.appends
      · have hafter : recordsAfter store records (.event (.call op)) =
            if store.files.detached.isNone then records ++ op.records else records := by
          cases op with
          | purge logId => cases hop
          | _ => rfl
        rw [call_appends hop, hafter]
        cases hd : store.files.detached with
        | none => simp [WalFiles.write, hd, h]
        | some own => simp [WalFiles.write, hd, h]
      · cases op with
        | purge logId => rfl
        | _ => exact absurd rfl hop

/-- The file at the path is the encoding of its records. -/
theorem records_run {events : List FaultEvent} {h : WalHistory}
    (hrun : Run (WalHistory.step codec) (fun _ _ => True) .start events h) :
    h.store.files.atPath = encodeRecords codec h.records := by
  refine hrun.invariant (P := fun h => h.store.files.atPath = encodeRecords codec h.records)
    (fun h e h' _ he hp => ?_) rfl
  obtain ⟨store', hs, rfl⟩ := Option.map_eq_some_iff.1 he
  exact records_step hp hs

/-! ## Prefixes with the acknowledged records -/

/-- Records of which the second ones are more take more bytes, even without the last line break. -/
theorem encodeRecords_lt {rs more : List WalRecord} (hmore : more ≠ []) :
    (encodeRecords codec rs).length < (encodeRecords codec (rs ++ more)).length := by
  obtain ⟨r, more, rfl⟩ := List.exists_cons_of_ne_nil hmore
  simp only [encodeRecords_append, encodeRecords_cons, encodeRecord, List.length_append, List.length_singleton]
  omega

/-- The records that replay finds in a file contain those that stand in it whole. -/
theorem acked_prefix_recs {rs acked recs : List WalRecord} {file : Bytes} (hacked : acked <+: rs) (hrecs : recs <+: rs)
    (hin : encodeRecords codec acked <+: file) (hlen : file.length ≤ (encodeRecords codec recs).length) :
    acked <+: recs := by
  rcases List.prefix_or_prefix_of_prefix hacked hrecs with h | ⟨more, rfl⟩
  · exact h
  · -- otherwise the acknowledged records do not fit into the file
    by_cases hmore : more = []
    · exact ⟨[], by simp [hmore]⟩
    · have hlt := @encodeRecords_lt codec recs more hmore
      have hle := hin.length_le
      omega

/-- **Strict replay neither invents nor drops acknowledged records.** Take the WAL of any run of calls, reopens and
failed purges, any prefix of its records as acknowledged, and any byte prefix of the file that contains them. Opening it
fails or yields the fold of a prefix of the records that contains the acknowledged ones. -/
theorem strict_replay {events : List FaultEvent} {h : WalHistory}
    (hrun : Run (WalHistory.step codec) (fun _ _ => True) .start events h) {acked : List WalRecord} {file : Bytes}
    (hacked : acked <+: h.records) (hin : encodeRecords codec acked <+: file) (hcut : file <+: h.store.files.atPath) :
    (∃ e, openFile codec (some file) = .error e) ∨
      ∃ opened recs, openFile codec (some file) = .ok opened ∧ acked <+: recs ∧ recs <+: h.records ∧
        opened.state = LogStoreInner.default.applyRecords recs := by
  rw [records_run hrun] at hcut
  cases hreplay : replay codec file with
  | error e => exact .inl ⟨e, by simp [openFile, hreplay]⟩
  | ok p =>
    obtain ⟨state, replayed⟩ := p
    right
    obtain ⟨recs, rfl, rfl, hrecs, hfile⟩ := replay_torn hcut hreplay
    have hlen : file.length ≤ (encodeRecords codec recs).length := by
      rcases hfile with rfl | ⟨whole, r, rfl, rfl⟩
      · exact Nat.le_refl _
      · rw [encodeRecords_snoc]
        simp
    have hkeep := acked_prefix_recs hacked hrecs hin hlen
    simp only [openFile, Option.getD_some, hreplay]
    split
    · exact ⟨_, recs, rfl, hkeep, hrecs, rfl⟩
    · exact ⟨_, recs, rfl, hkeep, hrecs, rfl⟩

/-- A vote, a purge that rewrites the file, and a vote in flight when the node crashes. -/
def votesAroundPurge : List FaultEvent :=
  [.event (.call (.saveVote firstVote)), .event (.call (.purge ⟨⟨1, 0⟩, 1⟩)), .event (.call (.saveVote secondVote))]

/-- A file that ends before the second vote opens on the first one and the purge. -/
theorem strict_replay_votes :
    ∃ h opened recs, Run (WalHistory.step serdeWal) (fun _ _ => True) .start votesAroundPurge h ∧
      openFile serdeWal (some (encodeRecords serdeWal [.vote firstVote, .purge ⟨⟨1, 0⟩, 1⟩])) = .ok opened ∧
      [.vote firstVote, .purge ⟨⟨1, 0⟩, 1⟩] <+: recs ∧ recs <+: h.records ∧
      opened.state = LogStoreInner.default.applyRecords recs := by
  have hrun : Run (WalHistory.step serdeWal) (fun _ _ => True) .start votesAroundPurge _ :=
    .cons trivial rfl (.cons trivial rfl (.cons trivial rfl (.nil _)))
  have hrecords : [WalRecord.vote firstVote, .purge ⟨⟨1, 0⟩, 1⟩] <+:
      [.vote firstVote, .purge ⟨⟨1, 0⟩, 1⟩, .vote secondVote] :=
    ⟨[.vote secondVote], rfl⟩
  obtain ⟨store, hopen, _⟩ := @openFile_records serdeWal [.vote firstVote, .purge ⟨⟨1, 0⟩, 1⟩]
  have hcut := records_run hrun
  have hall := strict_replay hrun hrecords List.prefix_rfl
    (by rw [hcut]; exact ⟨_, (encodeRecords_append _ [.vote secondVote]).symm⟩)
  rcases hall with ⟨e, herror⟩ | ⟨opened, recs, hok, hin, hrecs, hstate⟩
  · rw [hopen] at herror
    cases herror
  · exact ⟨_, opened, recs, hrun, hok, hin, hrecs, hstate⟩

end FileRaftLogStore

end Ganglion
