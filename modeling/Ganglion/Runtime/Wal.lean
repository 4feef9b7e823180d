import Ganglion.Lib.Text
import Ganglion.Runtime.LogStore

/-!
# The file-backed log store

`FileRaftLogStore`: a JSON-lines WAL that is replayed on open, appended to by votes, entries and truncations, and
rewritten by purges and by an open that finds too many dead records. `serde_json` is a parameter (`WalCodec`); lines,
UTF-8 and the blank test are computed.

The writer thread holds a handle to a file; a rename can put another file at the path, and then the two differ
(`WalFiles`). Here every write succeeds and is synced before the next call; a rewrite may fail at any of its steps
(`RewriteFailure`).

* `replay_encodeRecords`: replay reads back the records that were written.
* `applyRecords_compacted`: the records of a rewrite restore the state they were made from.
-/

namespace Ganglion

open Std OrdMap Text

/-! ## Records as text -/

/-- What the WAL takes from serde_json: a text for each record, one line without control characters, that reads back;
a text cut short or followed by more text is an error. -/
structure WalCodec where
  /-- `serde_json::to_vec` on a record, as text. -/
  toText : WalRecord → String
  /-- `serde_json::from_str` to a record. -/
  fromStr : String → Option WalRecord
  roundTrip : ∀ r, fromStr (toText r) = some r
  /-- A record is an object. -/
  brace : ∀ r, (toText r).toList.head? = some '{'
  /-- Control characters are escaped. -/
  printable : ∀ r, ∀ c ∈ (toText r).toList, 0x20 ≤ c.toNat
  /-- End of input inside a value. -/
  unfinished : ∀ r s u, toText r = s ++ u → u ≠ "" → fromStr s = none
  /-- Trailing characters. -/
  trailing : ∀ r u, u.toList.head? = some '{' → fromStr (toText r ++ u) = none

section Replay

variable (codec : WalCodec)

/-- `encode_record`. -/
def encodeRecord (r : WalRecord) : Bytes := utf8 (codec.toText r) ++ [newline]

/-- The bytes of records written one after another. -/
def encodeRecords (rs : List WalRecord) : Bytes := rs.flatMap (encodeRecord codec)

/-- One turn of the loop of `open` over the lines: a record, nothing for a blank line, or the error. -/
def readLine (lineNo : Nat) (line : Bytes) : Except StorageError (Option WalRecord) :=
  match fromUtf8 line with
  | none => .error .readLogs
  | some line =>
    if line.toList.all isWhiteSpace then .ok none
    else match codec.fromStr line with
      | none => .error (.malformedRecord (lineNo + 1))
      | some record => .ok (some record)

/-- The loop of `open`: the state and the number of records replayed. -/
def replayLoop (lineNo : Nat) (state : LogStoreInner) (replayed : Nat) :
    List Bytes → Except StorageError (LogStoreInner × Nat)
  | [] => .ok (state, replayed)
  | line :: lines =>
    match readLine codec lineNo line with
    | .error e => .error e
    | .ok none => replayLoop (lineNo + 1) state replayed lines
    | .ok (some record) => replayLoop (lineNo + 1) (state.applyRecord record) (replayed + 1) lines

/-- What `open` makes of the content of the file. -/
def replay (file : Bytes) : Except StorageError (LogStoreInner × Nat) := replayLoop codec 0 .default 0 (lines file)

end Replay

/-! ## Rewriting -/

/-- The records that `rewrite` writes: vote, purge point, entries. -/
def compacted (state : LogStoreInner) : List WalRecord :=
  state.vote.toList.map .vote ++ state.lastPurgedLogId.toList.map .purge ++ (values state.log).map .entry

/-- `live_records`. -/
def liveRecords (state : LogStoreInner) : Nat :=
  state.log.size + state.vote.isSome.toNat + state.lastPurgedLogId.isSome.toNat

/-- `COMPACT_DEAD_RECORD_THRESHOLD`. -/
def compactDeadRecordThreshold : Nat := 64

/-- `needs_compaction`. -/
def needsCompaction (replayed : Nat) (state : LogStoreInner) : Bool :=
  replayed > liveRecords state + compactDeadRecordThreshold

/-- The file at the WAL path, and the writer's own file when a rename has put another one at the path. -/
structure WalFiles where
  atPath : Bytes
  detached : Option Bytes
  deriving DecidableEq

namespace WalFiles

/-- Appending through the writer's handle. -/
def write (f : WalFiles) (bytes : Bytes) : WalFiles :=
  match f.detached with
  | none => { f with atPath := f.atPath ++ bytes }
  | some own => { f with detached := some (own ++ bytes) }

/-- Renaming a finished file to the path; the writer keeps its handle. -/
def rename (f : WalFiles) (bytes : Bytes) : WalFiles := ⟨bytes, some (f.detached.getD f.atPath)⟩

/-- The writer continues on the file at the path (`WalJob::Replace`). -/
def replace (f : WalFiles) : WalFiles := { f with detached := none }

end WalFiles

/-- The step at which a rewrite fails. -/
inductive RewriteFailure where
  | createTmp
  | writeLine
  | syncTmp
  | rename
  | fsyncParentDir
  | reopen
  deriving DecidableEq

/-- The file at the path has been replaced when the step fails. -/
def RewriteFailure.afterRename : RewriteFailure → Bool
  | .fsyncParentDir | .reopen => true
  | _ => false

/-- `rewrite`: the files it leaves and whether it returns a handle. -/
def rewrite (codec : WalCodec) (files : WalFiles) (state : LogStoreInner) (failure : Option RewriteFailure) :
    WalFiles × Except StorageError Unit :=
  let renamed := files.rename (encodeRecords codec (compacted state))
  match failure with
  | none => (renamed, .ok ())
  | some step => (if step.afterRename then renamed else files, .error .writeLogs)

/-! ## The store -/

/-- `FileRaftLogStore`: the state in memory and the files. -/
structure FileRaftLogStore where
  state : LogStoreInner
  files : WalFiles

namespace FileRaftLogStore

variable (codec : WalCodec)

/-- `FileRaftLogStore::open` on what the file at the path holds. -/
def openFile (file : Option Bytes) : Except StorageError FileRaftLogStore :=
  let bytes := file.getD []
  match replay codec bytes with
  | .error e => .error e
  | .ok (state, replayed) =>
    let files : WalFiles := ⟨bytes, none⟩
    if needsCompaction replayed state then .ok ⟨state, (rewrite codec files state none).1.replace⟩
    else .ok ⟨state, files⟩

/-- `save_vote`. -/
def saveVote (store : FileRaftLogStore) (vote : Vote) : FileRaftLogStore :=
  ⟨store.state.setVote vote, store.files.write (encodeRecord codec (.vote vote))⟩

/-- `append`: `queue_entries`, acknowledged once the batch is synced. -/
def append (store : FileRaftLogStore) (entries : List Entry) : FileRaftLogStore :=
  if entries.isEmpty then store
  else ⟨entries.foldl .insertEntry store.state,
    store.files.write (entries.flatMap fun e => encodeRecord codec (.entry e))⟩

/-- `truncate`. -/
def truncate (store : FileRaftLogStore) (logId : LogId) : FileRaftLogStore :=
  ⟨store.state.truncateFrom logId.index, store.files.write (encodeRecord codec (.truncate logId.index))⟩

/-- `purge`: the state is purged first, whatever becomes of the rewrite. -/
def purge (store : FileRaftLogStore) (logId : LogId) (failure : Option RewriteFailure) :
    FileRaftLogStore × Except StorageError Unit :=
  let state := store.state.purgeTo logId
  match rewrite codec store.files state failure with
  | (files, .ok ()) => (⟨state, files.replace⟩, .ok ())
  | (files, .error e) => (⟨state, files⟩, .error e)

/-- An acknowledged call. -/
def call (store : FileRaftLogStore) : LogOp → FileRaftLogStore
  | .saveVote vote => store.saveVote codec vote
  | .append entries => store.append codec entries
  | .truncate logId => store.truncate codec logId
  | .purge logId => (store.purge codec logId none).1

end FileRaftLogStore

/-! ## Replay -/

section

variable {codec : WalCodec}

theorem newline_not_mem_text (r : WalRecord) : newline ∉ utf8 (codec.toText r) :=
  not_mem_of_printable (codec.printable r) (by decide)

theorem carriageReturn_not_mem_text (r : WalRecord) : carriageReturn ∉ utf8 (codec.toText r) :=
  not_mem_of_printable (codec.printable r) (by decide)

@[simp] theorem encodeRecords_nil : encodeRecords codec [] = [] := rfl

@[simp] theorem encodeRecords_cons (r : WalRecord) (rs : List WalRecord) :
    encodeRecords codec (r :: rs) = encodeRecord codec r ++ encodeRecords codec rs := rfl

@[simp] theorem encodeRecords_append (rs rs' : List WalRecord) :
    encodeRecords codec (rs ++ rs') = encodeRecords codec rs ++ encodeRecords codec rs' := List.flatMap_append

theorem lines_encodeRecords (rs : List WalRecord) (tail : Bytes) :
    lines (encodeRecords codec rs ++ tail) = rs.map (fun r => utf8 (codec.toText r)) ++ lines tail := by
  have hprintable : ∀ s ∈ rs.map codec.toText, ∀ c ∈ s.toList, 0x20 ≤ c.toNat := by
    intro s hs
    obtain ⟨r, _, rfl⟩ := List.mem_map.1 hs
    exact codec.printable r
  have htexts : encodeRecords codec rs = (rs.map codec.toText).flatMap textLine := by
    rw [List.flatMap_map]
    rfl
  rw [htexts, lines_texts hprintable, List.map_map]
  rfl

/-- A text that starts with a brace is not blank. -/
theorem not_blank {s : String} (h : s.toList.head? = some '{') : s.toList.all isWhiteSpace = false := by
  obtain ⟨cs, hcs⟩ := List.head?_eq_some_iff.1 h
  rw [hcs, List.all_cons]
  rfl

theorem readLine_text (n : Nat) (r : WalRecord) : readLine codec n (utf8 (codec.toText r)) = .ok (some r) := by
  simp [readLine, not_blank (codec.brace r), codec.roundTrip]

theorem replayLoop_records (rs : List WalRecord) (n k : Nat) (s : LogStoreInner) (ls : List Bytes) :
    replayLoop codec n s k (rs.map (fun r => utf8 (codec.toText r)) ++ ls) =
      replayLoop codec (n + rs.length) (s.applyRecords rs) (k + rs.length) ls := by
  induction rs generalizing n k s with
  | nil => rfl
  | cons r rs ih =>
    simp only [List.map_cons, List.cons_append, replayLoop, readLine_text, ih]
    congr 1 <;> simp only [List.length_cons] <;> omega

/-- Replaying a file that starts with records. -/
theorem replay_append (rs : List WalRecord) (tail : Bytes) :
    replay codec (encodeRecords codec rs ++ tail) =
      replayLoop codec rs.length (LogStoreInner.default.applyRecords rs) rs.length (lines tail) := by
  rw [replay, lines_encodeRecords, replayLoop_records, Nat.zero_add]

/-- **Replay reads back what was written.** -/
theorem replay_encodeRecords (rs : List WalRecord) :
    replay codec (encodeRecords codec rs) = .ok (LogStoreInner.default.applyRecords rs, rs.length) := by
  have h := @replay_append codec rs []
  rw [List.append_nil] at h
  exact h

end

/-! ## Compaction -/

section

variable (s : LogStoreInner)

theorem append_vote (es : List Entry) : (GanglionLogStore.append s es).vote = s.vote := by
  induction es generalizing s with
  | nil => rfl
  | cons e es ih => exact ih (s.insertEntry e)

theorem append_lastPurgedLogId (es : List Entry) :
    (GanglionLogStore.append s es).lastPurgedLogId = s.lastPurgedLogId := by
  induction es generalizing s with
  | nil => rfl
  | cons e es ih => exact ih (s.insertEntry e)

theorem append_log (es : List Entry) :
    (GanglionLogStore.append s es).log = es.foldl (fun m e => m.insert e.logId.index e) s.log := by
  induction es generalizing s with
  | nil => rfl
  | cons e es ih => exact ih (s.insertEntry e)

/-- The records before the entries of a rewrite restore vote and purge point. -/
theorem applyRecords_head :
    let head := LogStoreInner.default.applyRecords
      (s.vote.toList.map .vote ++ s.lastPurgedLogId.toList.map .purge)
    head.vote = s.vote ∧ head.lastPurgedLogId = s.lastPurgedLogId ∧ head.log = ∅ := by
  cases s.vote with
  | none =>
    cases s.lastPurgedLogId with
    | none => exact ⟨rfl, rfl, rfl⟩
    | some p => exact ⟨rfl, rfl, cut_empty _⟩
  | some v =>
    cases s.lastPurgedLogId with
    | none => exact ⟨rfl, rfl, rfl⟩
    | some p => exact ⟨rfl, rfl, cut_empty _⟩

/-- **Compaction keeps the state**: replaying the records of a rewrite restores what it was made from. -/
theorem applyRecords_compacted : LogStoreInner.default.applyRecords (compacted s) = s := by
  obtain ⟨hv, hp, hl⟩ := applyRecords_head s
  rw [compacted, LogStoreInner.applyRecords_append, LogStoreInner.applyRecords_entries]
  apply LogStoreInner.ext
  · rw [append_vote, hv]
  · rw [append_log, hl]
    exact collect_values s.keyed
  · rw [append_lastPurgedLogId, hp]

end

end Ganglion
