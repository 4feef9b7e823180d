import Ganglion.Storage.FileUpdate

/-!
# The Keratin-backed metadata log

`KeratinMetadataLog` keeps its entries as records of an append-only log of the `keratin-log` package, which is a
parameter (`Keratin`): appending adds a record at the end, and a scan gives the records from an offset on. Reading pages
through all records (`scanLoop_eq`) and replays them under the policy.

Recovery skips a bad tail when it reads, and appending goes behind that tail. So what is appended is read back exactly
when there is no bad record at all, and indices do not run out (`keratin_append_contract_iff`). The file log, which
writes the recovered entries anew, reads its appends back after any recovery (`file_log_honours`).
-/

namespace Ganglion

open Text Scan

/-! ## The record log -/

/-- `OwnedRecord`: the parts that are read. -/
structure OwnedRecord where
  offset : Nat
  payload : Bytes
  deriving DecidableEq

/-- What the log takes from `keratin-log`: its records by increasing offset, `append`, `scan_from` and the reset to an
empty log. -/
structure Keratin (κ : Type) where
  records : κ → List OwnedRecord
  append : κ → Bytes → κ
  scanFrom : κ → Nat → Nat → List OwnedRecord
  reset : κ → κ
  ascending : ∀ k, (records k).Pairwise fun r r' => r.offset < r'.offset
  /-- A record is added at the end. -/
  records_append : ∀ k payload, ∃ offset, records (append k payload) = records k ++ [⟨offset, payload⟩]
  /-- The first `max` records from the offset on. -/
  scanFrom_eq : ∀ k cursor max,
    scanFrom k cursor max = ((records k).filter fun r => decide (cursor ≤ r.offset)).take max
  records_reset : ∀ k, records (reset k) = []

namespace Keratin

variable {κ : Type} (keratin : Keratin κ)

/-- What is left after a page is what follows its last record. -/
theorem filter_next {k : κ} {cursor : Nat} {last : OwnedRecord}
    (h : (keratin.scanFrom k cursor 256).getLast? = some last) :
    ((keratin.records k).filter fun r => decide (last.offset + 1 ≤ r.offset)) =
      ((keratin.records k).filter fun r => decide (cursor ≤ r.offset)).drop 256 := by
  rw [keratin.scanFrom_eq] at h
  have hasc := (keratin.ascending k).filter fun r => decide (cursor ≤ r.offset)
  have hsub : ((keratin.records k).filter fun r => decide (last.offset + 1 ≤ r.offset)) =
      ((keratin.records k).filter fun r => decide (cursor ≤ r.offset)).filter
        fun r => decide (last.offset + 1 ≤ r.offset) := by
    have hcursor : cursor ≤ last.offset := by
      have := (List.mem_filter.1 (List.mem_of_mem_take (List.mem_of_getLast? h))).2
      simpa using this
    rw [List.filter_filter]
    apply List.filter_congr
    intro r _
    rw [Bool.eq_iff_iff, Bool.and_eq_true, decide_eq_true_eq, decide_eq_true_eq]
    omega
  rw [hsub]
  generalize (keratin.records k).filter (fun r => decide (cursor ≤ r.offset)) = page at h hasc
  -- The page holds the last record and those below it; everything behind the page is above it.
  obtain ⟨front, hfront⟩ := List.getLast?_eq_some_iff.1 h
  have hsplit := List.take_append_drop 256 page
  rw [← hsplit, List.pairwise_append, hfront, List.pairwise_append] at hasc
  conv_lhs => rw [← hsplit, List.filter_append, hfront]
  have hnone : (front ++ [last]).filter (fun r => decide (last.offset + 1 ≤ r.offset)) = [] := by
    rw [List.filter_eq_nil_iff]
    intro r hr
    rw [decide_eq_true_eq]
    rcases List.mem_append.1 hr with hr | hr
    · have := hasc.1.2.2 r hr last (List.mem_singleton_self last)
      omega
    · rw [List.mem_singleton.1 hr]
      omega
  have hall : (page.drop 256).filter (fun r => decide (last.offset + 1 ≤ r.offset)) = page.drop 256 := by
    rw [List.filter_eq_self]
    intro r hr
    have := hasc.2.2 last (by simp) r hr
    rw [decide_eq_true_eq]
    omega
  rw [hnone, hall, List.nil_append]

/-- The paging loop of `read_all_entries`. -/
def scanLoop (k : κ) (cursor : Nat) (records : List OwnedRecord) : List OwnedRecord :=
  match _hpage : (keratin.scanFrom k cursor 256).getLast? with
  | none => records
  | some last => scanLoop k (last.offset + 1) (records ++ keratin.scanFrom k cursor 256)
termination_by ((keratin.records k).filter fun r => decide (cursor ≤ r.offset)).length
decreasing_by
  rw [keratin.filter_next _hpage, List.length_drop]
  rw [keratin.scanFrom_eq] at _hpage
  have hne : ((keratin.records k).filter fun r => decide (cursor ≤ r.offset)) ≠ [] := by
    intro hnil
    rw [hnil] at _hpage
    cases _hpage
  have := List.length_pos_iff.2 hne
  omega

/-- **Paging reads every record**, in order. -/
theorem scanLoop_eq (k : κ) (cursor : Nat) (records : List OwnedRecord) :
    keratin.scanLoop k cursor records =
      records ++ (keratin.records k).filter fun r => decide (cursor ≤ r.offset) := by
  induction cursor, records using scanLoop.induct keratin k with
  | case1 cursor records h =>
    rw [scanLoop]
    split
    · rw [keratin.scanFrom_eq, List.getLast?_eq_none_iff, List.take_eq_nil_iff] at h
      rw [h.resolve_left (by decide), List.append_nil]
    · rename_i last hlast
      rw [h] at hlast
      cases hlast
  | case2 cursor records last h ih =>
    rw [scanLoop]
    split
    · rename_i hnone
      rw [h] at hnone
      cases hnone
    · rename_i last' hlast
      rw [h] at hlast
      cases hlast
      rw [ih, keratin.filter_next h, keratin.scanFrom_eq, List.append_assoc, List.take_append_drop]

end Keratin

/-! ## The log -/

namespace KeratinMetadataLog

variable {κ : Type} (keratin : Keratin κ) (codec : LogCodec) (policy : FileMetadataReplayPolicy)

/-- The parse of a record. -/
def parseRecord (r : OwnedRecord) : Except String PersistedMetadataLogEntry := codec.entryFromSlice r.payload

/-- `read_all_entries`. -/
def readAllEntries (k : κ) : Except MetadataLogError (List MetadataLogEntry) :=
  replayEntries codec policy (fun _ => false) (parseRecord codec) (fun _ r => s!"record at offset {r.offset}") 0 []
    (keratin.scanLoop k 0 [])

/-- `append_raw_entry`: `to_vec` writes the bytes of the text. -/
def appendRawEntry (k : κ) (e : MetadataLogEntry) : κ :=
  keratin.append k (utf8 (codec.entryToString (persisted codec e)))

/-- `KeratinMetadataLog`. -/
def keratinMetadataLog : MetadataLog κ where
  appendEntry k term snapshot :=
    match readAllEntries keratin codec policy k with
    | .error error => (.error error, k)
    | .ok entries =>
      let entry : MetadataLogEntry := ⟨term, nextLogIndex entries, snapshot⟩
      (.ok entry, appendRawEntry keratin codec k entry)
  latestEntry k := (readAllEntries keratin codec policy k).map (·.getLast?)
  entries k := readAllEntries keratin codec policy k
  clear k := (.ok (), keratin.reset k)
  truncateFrom k firstIndex :=
    match readAllEntries keratin codec policy k with
    | .error error => (.error error, k)
    | .ok entries => (.ok (), (keptFrom firstIndex entries).foldl (appendRawEntry keratin codec) (keratin.reset k))

variable {keratin codec policy}

/-- What a replay finds in the records. -/
def recordScan (keratin : Keratin κ) (codec : LogCodec) (k : κ) : Scanned MetadataLogEntry RecordFault :=
  scan (fun _ => false) (lookRecord codec (parseRecord codec)) none (keratin.records k)

theorem readAllEntries_toOption (k : κ) :
    (readAllEntries keratin codec policy k).toOption = replayed policy [] (recordScan keratin codec k) := by
  rw [readAllEntries, replayEntries_eq, keratin.scanLoop_eq]
  simp [recordScan]

/-- What a read that succeeds gives: the entries before the first fault. -/
theorem entries_of_read {k : κ} {p : List MetadataLogEntry} (h : readAllEntries keratin codec policy k = .ok p) :
    (recordScan keratin codec k).entries = p := by
  rw [← toOption_eq_some, readAllEntries_toOption] at h
  exact entries_of_replayed h

theorem sequential_of_read {k : κ} {p : List MetadataLogEntry} (h : readAllEntries keratin codec policy k = .ok p) :
    Sequential p := by
  rw [← entries_of_read h]
  exact sequential_scan

/-- `Strict` accepts records without a fault. -/
theorem readAllEntries_strict_iff {k : κ} {p : List MetadataLogEntry} :
    readAllEntries keratin codec .strict k = .ok p ↔
      (recordScan keratin codec k).fault = none ∧ (recordScan keratin codec k).entries = p := by
  rw [← toOption_eq_some, readAllEntries_toOption]
  exact replayed_strict_iff scan_tail_eq_zero_iff

/-- Without a fault every policy reads the same. -/
theorem readAllEntries_of_strict {k : κ} {p : List MetadataLogEntry}
    (h : readAllEntries keratin codec .strict k = .ok p) : readAllEntries keratin codec policy k = .ok p := by
  obtain ⟨hf, he⟩ := readAllEntries_strict_iff.1 h
  rw [← toOption_eq_some, readAllEntries_toOption, replayed, hf, ← he]
  rfl

/-! ## Appending -/

theorem parseRecord_entry (offset : Nat) (e : MetadataLogEntry) :
    parseRecord codec ⟨offset, utf8 (codec.entryToString (persisted codec e))⟩ = .ok (persisted codec e) :=
  codec.slice_roundTrip _

/-- Appending to records without a fault. -/
theorem readAllEntries_append {k : κ} {p : List MetadataLogEntry} {e : MetadataLogEntry}
    (h : readAllEntries keratin codec .strict k = .ok p) (he : IndexFollows p.getLast? e) :
    readAllEntries keratin codec .strict (appendRawEntry keratin codec k e) = .ok (p ++ [e]) := by
  obtain ⟨hf, hp⟩ := readAllEntries_strict_iff.1 h
  rw [readAllEntries_strict_iff, recordScan, appendRawEntry]
  obtain ⟨offset, hrecords⟩ := keratin.records_append k (utf8 (codec.entryToString (persisted codec e)))
  rw [hrecords, scan_append_done hf]
  replace hp : (scan (fun _ => false) (lookRecord codec (parseRecord codec)) none (keratin.records k)).entries = p := hp
  have hlook := lookRecord_persisted (@parseRecord_entry codec offset e) he
  simp [hp, scan, hlook]

/-- Behind a fault an appended entry is not read. -/
theorem readAllEntries_append_fault {k : κ} {p : List MetadataLogEntry} {e : MetadataLogEntry} {fault : RecordFault}
    (h : readAllEntries keratin codec policy k = .ok p) (hf : (recordScan keratin codec k).fault = some fault) :
    readAllEntries keratin codec policy (appendRawEntry keratin codec k e) ≠ .ok (p ++ [e]) := by
  intro hread
  obtain ⟨offset, hrecords⟩ := keratin.records_append k (utf8 (codec.entryToString (persisted codec e)))
  have hentries := entries_of_read hread
  rw [recordScan, appendRawEntry, hrecords, scan_append_fault hf] at hentries
  have hp := entries_of_read h
  rw [recordScan] at hp
  rw [hp] at hentries
  simp at hentries

end KeratinMetadataLog

/-! ## The append contract -/

/-- Every appended entry is returned and then read behind the entries before it. -/
def AppendContract {σ : Type} (log : MetadataLog σ) : σ → List MetadataLogEntry →
    List (UInt64 × CoordinationSnapshot) → Prop
  | _, _, [] => True
  | s, p, (term, snapshot) :: calls =>
    ∃ e s', log.appendEntry s term snapshot = (.ok e, s') ∧ log.entries s' = .ok (p ++ [e]) ∧
      AppendContract log s' (p ++ [e]) calls

/-- The index of the last entry, or 0. -/
def lastIndex (p : List MetadataLogEntry) : Nat :=
  match p.getLast? with
  | none => 0
  | some e => e.index.toNat

theorem hasRoom_iff {p : List MetadataLogEntry} : HasRoom p ↔ lastIndex p + 1 ≤ u64Max.toNat := by
  cases hl : p.getLast? with
  | none =>
    simp only [HasRoom, lastIndex, hl]
    exact iff_of_true (fun e h => by cases h) (by decide)
  | some l =>
    simp only [HasRoom, lastIndex, hl, Option.some.injEq, forall_eq', UInt64.lt_iff_toNat_lt]
    omega

theorem lastIndex_append {p : List MetadataLogEntry} (hroom : HasRoom p) (term : UInt64)
    (snapshot : CoordinationSnapshot) : lastIndex (p ++ [⟨term, nextLogIndex p, snapshot⟩]) = lastIndex p + 1 := by
  simp only [lastIndex, List.getLast?_concat, nextLogIndex]
  cases hl : p.getLast? with
  | none => rfl
  | some l => exact toNat_saturatingSucc (hroom l hl)

namespace KeratinMetadataLog

variable {κ : Type} {keratin : Keratin κ} {codec : LogCodec} {policy : FileMetadataReplayPolicy}

theorem appendEntry_eq {k : κ} {p : List MetadataLogEntry} (h : readAllEntries keratin codec policy k = .ok p)
    (term : UInt64) (snapshot : CoordinationSnapshot) :
    (keratinMetadataLog keratin codec policy).appendEntry k term snapshot =
      (.ok ⟨term, nextLogIndex p, snapshot⟩, appendRawEntry keratin codec k ⟨term, nextLogIndex p, snapshot⟩) := by
  simp only [keratinMetadataLog, h]

/-- Without a fault, and with indices left, the contract is honoured. -/
theorem contract_of_strict {k : κ} {p : List MetadataLogEntry} {calls : List (UInt64 × CoordinationSnapshot)}
    (h : readAllEntries keratin codec .strict k = .ok p) (hroom : lastIndex p + calls.length ≤ u64Max.toNat) :
    AppendContract (keratinMetadataLog keratin codec policy) k p calls := by
  induction calls generalizing k p with
  | nil => trivial
  | cons c calls ih =>
    obtain ⟨term, snapshot⟩ := c
    rw [List.length_cons] at hroom
    have hfits : HasRoom p := hasRoom_iff.2 (by omega)
    have hstrict := readAllEntries_append h (indexFollows_next hfits term snapshot)
    refine ⟨_, _, appendEntry_eq (readAllEntries_of_strict h) term snapshot, readAllEntries_of_strict hstrict, ?_⟩
    apply ih hstrict
    rw [lastIndex_append hfits]
    omega

/-- An honoured contract leaves no room for a fault, and an index for every entry. -/
theorem strict_of_contract {k : κ} {p : List MetadataLogEntry} {calls : List (UInt64 × CoordinationSnapshot)}
    (h : readAllEntries keratin codec policy k = .ok p)
    (hc : AppendContract (keratinMetadataLog keratin codec policy) k p calls) (hne : calls ≠ []) :
    readAllEntries keratin codec .strict k = .ok p ∧ lastIndex p + calls.length ≤ u64Max.toNat := by
  induction calls generalizing k p with
  | nil => exact absurd rfl hne
  | cons c calls ih =>
    obtain ⟨term, snapshot⟩ := c
    obtain ⟨e, k', happend, hentries, hrest⟩ := hc
    rw [appendEntry_eq h] at happend
    cases happend
    have hroom : HasRoom p := FileMetadataLog.hasRoom_of_sequential (sequential_of_read hentries)
    constructor
    · rw [readAllEntries_strict_iff]
      refine ⟨?_, entries_of_read h⟩
      cases hf : (recordScan keratin codec k).fault with
      | none => rfl
      | some fault => exact absurd hentries (readAllEntries_append_fault h hf)
    · cases calls with
      | nil => exact hasRoom_iff.1 hroom
      | cons c calls =>
        have hbound := (ih hentries hrest (by simp)).2
        rw [lastIndex_append hroom] at hbound
        rw [List.length_cons]
        omega

/-- **Where Keratin appends are readable.** On records that are read as `p` under the policy, one or more appends are
each read behind what was there before if and only if the records are read as `p` under `Strict` too, that is without a
bad record, and the last index leaves room for the appended ones. -/
theorem keratin_append_contract_iff {k : κ} {p : List MetadataLogEntry}
    {calls : List (UInt64 × CoordinationSnapshot)} (hread : readAllEntries keratin codec policy k = .ok p)
    (hcalls : calls ≠ []) :
    AppendContract (keratinMetadataLog keratin codec policy) k p calls ↔
      readAllEntries keratin codec .strict k = .ok p ∧ lastIndex p + calls.length ≤ u64Max.toNat :=
  ⟨fun hc => strict_of_contract hread hc hcalls, fun h => contract_of_strict h.1 h.2⟩

/-- A record log in memory: a record's offset is its position. -/
def memoryKeratin : Keratin (List Bytes) where
  records k := k.mapIdx fun i payload => ⟨i, payload⟩
  append k payload := k ++ [payload]
  scanFrom k cursor max :=
    ((k.mapIdx fun i payload => (⟨i, payload⟩ : OwnedRecord)).filter fun r => decide (cursor ≤ r.offset)).take max
  reset _ := []
  ascending k := by
    rw [List.pairwise_iff_getElem]
    intro i j hi hj hij
    simpa using hij
  records_append k payload := ⟨k.length, by simp⟩
  scanFrom_eq _ _ _ := rfl
  records_reset _ := rfl

/-- Behind the records of two entries, appends are read under a policy that would skip a tail. -/
theorem keratin_append_contract_iff_twoRecords :
    let k := appendRawEntry memoryKeratin serdeLog
      (appendRawEntry memoryKeratin serdeLog [] ⟨3, 7, .default⟩) ⟨3, 8, .default⟩
    AppendContract (keratinMetadataLog memoryKeratin serdeLog (.truncateTail 2)) k
      [⟨3, 7, .default⟩, ⟨3, 8, .default⟩] [(4, .default), (4, .default)] := by
  intro k
  have hempty : readAllEntries memoryKeratin serdeLog .strict [] = .ok [] := readAllEntries_strict_iff.2 ⟨rfl, rfl⟩
  have hfirst := readAllEntries_append (e := ⟨3, 7, .default⟩) hempty ⟨by decide, fun _ h => by cases h⟩
  have hread : readAllEntries memoryKeratin serdeLog .strict k = .ok [⟨3, 7, .default⟩, ⟨3, 8, .default⟩] :=
    readAllEntries_append hfirst ⟨by decide, fun _ h => by cases h; rfl⟩
  exact (keratin_append_contract_iff (readAllEntries_of_strict hread) (by simp)).2 ⟨hread, by decide⟩

theorem entryFromSlice_nil : serdeLog.entryFromSlice [] = .error "expected value" := by
  cases h : serdeLog.entryFromSlice [] with
  | ok e =>
    have hinj : Function.Injective fun e => utf8 (PersistedMetadataLogEntry.text e) :=
      fun _ _ heq => PersistedMetadataLogEntry.text_injective (utf8_injective heq)
    replace h : readerOf (fun e => utf8 (PersistedMetadataLogEntry.text e)) [] = .ok e := h
    have htext : utf8 e.text = utf8 "" := readerOf_eq_ok hinj h
    have hempty : e.text = "" := utf8_injective htext
    have hopened := serdeLog.opened e
    rw [show serdeLog.entryToString e = "" from hempty] at hopened
    cases hopened
  | error error =>
    replace h : readerOf (fun e => utf8 (PersistedMetadataLogEntry.text e)) [] = .error error := h
    unfold readerOf at h
    split at h
    · cases h
    · exact congrArg Except.error (Except.error.inj h).symm

/-- One record that cannot be parsed, under a policy that tolerates two: an append is acknowledged, and the entry is not
there to be read. -/
theorem appended_entry_is_hidden :
    let log := keratinMetadataLog memoryKeratin serdeLog (.truncateTail 2)
    log.entries [[]] = .ok [] ∧
      ∃ k', log.appendEntry [[]] 1 .default = (.ok ⟨1, 1, .default⟩, k') ∧ log.entries k' = .ok [] ∧
        ¬AppendContract log [[]] [] [(1, .default)] := by
  intro log
  have hscan : recordScan memoryKeratin serdeLog [[]] = ⟨[], some .json, 1⟩ := by
    have hlook : lookRecord serdeLog (parseRecord serdeLog) none ⟨0, []⟩ = .error .json := by
      simp only [lookRecord, parseRecord, entryFromSlice_nil]
    simp [recordScan, memoryKeratin, scan, hlook]
  have hread : readAllEntries memoryKeratin serdeLog (.truncateTail 2) [[]] = .ok [] := by
    rw [← toOption_eq_some, readAllEntries_toOption, hscan]
    rfl
  have hafter : readAllEntries memoryKeratin serdeLog (.truncateTail 2)
      (appendRawEntry memoryKeratin serdeLog [[]] ⟨1, nextLogIndex [], .default⟩) = .ok [] := by
    have hfault : (recordScan memoryKeratin serdeLog [[]]).fault = some .json := by rw [hscan]
    obtain ⟨offset, hrecords⟩ := memoryKeratin.records_append [[]]
      (utf8 (serdeLog.entryToString (persisted serdeLog ⟨1, nextLogIndex [], .default⟩)))
    rw [← toOption_eq_some, readAllEntries_toOption, recordScan, appendRawEntry, hrecords, scan_append_fault hfault]
    rw [show scan _ _ _ (memoryKeratin.records [[]]) = _ from hscan]
    rfl
  refine ⟨hread, _, appendEntry_eq hread 1 .default, hafter, ?_⟩
  rintro ⟨e, k', happend, hentries, _⟩
  rw [appendEntry_eq hread] at happend
  cases happend
  rw [show log.entries _ = _ from hafter] at hentries
  cases hentries

end KeratinMetadataLog

/-- The file log honours the contract after any recovery, as long as indices last. -/
theorem FileMetadataLog.file_log_honours {codec : LogCodec} {policy : FileMetadataReplayPolicy} {file : Option Bytes}
    {p : List MetadataLogEntry} {calls : List (UInt64 × CoordinationSnapshot)}
    (h : FileMetadataLog.readAllEntries codec policy file = .ok p)
    (hroom : lastIndex p + calls.length ≤ u64Max.toNat) :
    AppendContract (FileMetadataLog.fileMetadataLog codec policy) file p calls := by
  induction calls generalizing file p with
  | nil => trivial
  | cons c calls ih =>
    obtain ⟨term, snapshot⟩ := c
    rw [List.length_cons] at hroom
    have hfits : HasRoom p := hasRoom_iff.2 (by omega)
    have hseq := sequential_append (sequential_of_read h) hfits term snapshot
    have hnext := @FileMetadataLog.readAllEntries_encodeEntries codec policy _ hseq
    have happend : (fileMetadataLog codec policy).appendEntry file term snapshot =
        (.ok ⟨term, nextLogIndex p, snapshot⟩,
          some (encodeEntries codec (p ++ [⟨term, nextLogIndex p, snapshot⟩]))) := by
      simp only [fileMetadataLog, h]
    refine ⟨_, _, happend, hnext, ?_⟩
    apply ih hnext
    rw [lastIndex_append hfits]
    omega

end Ganglion
