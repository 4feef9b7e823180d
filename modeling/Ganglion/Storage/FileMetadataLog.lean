import Ganglion.Storage.Serde

/-!
# The file-backed metadata log

`FileMetadataLog`: every call reads the whole file, and every update writes it anew, one line of JSON for each entry.
Blank lines and comments are passed over, and a corrupt tail may be dropped under the replay policy.

As long as its calls succeed and indices do not run out, the log answers as the in-memory log started on the entries of
the file (`file_log_refines`): what is written is read back (`readAllEntries_encodeEntries`), whatever the policy.
-/

namespace Ganglion

open Text Scan

namespace FileMetadataLog

variable (codec : LogCodec) (policy : FileMetadataReplayPolicy)

/-! ## Reading and writing -/

/-- A line that is passed over: blank, or a comment. -/
def skipsLine (line : String) : Bool :=
  let cleaned := (trim line).toList
  cleaned.isEmpty || cleaned.head? == some '#'

/-- The parse of a line. -/
def parseLine (line : String) : Except String PersistedMetadataLogEntry := codec.entryFromStr (trim line)

/-- `read_all_entries` on what the file at the path holds. -/
def readAllEntries (file : Option Bytes) : Except MetadataLogError (List MetadataLogEntry) :=
  match file with
  | none => .ok []
  | some bytes =>
    match (lines bytes).mapM fromUtf8 with
    | none => .error (.io "stream did not contain valid UTF-8")
    | some rawLines =>
      replayEntries codec policy skipsLine (parseLine codec) (fun offset _ => s!"line {offset + 1}") 0 [] rawLines

/-- The text of an entry in the file. -/
def entryText (e : MetadataLogEntry) : String := codec.entryToString (persisted codec e)

/-- What `write_entries` leaves in the file. -/
def encodeEntries (es : List MetadataLogEntry) : Bytes := es.flatMap fun e => textLine (entryText codec e)

/-- `FileMetadataLog`: the log is what the file at the path holds. -/
def fileMetadataLog : MetadataLog (Option Bytes) where
  appendEntry file term snapshot :=
    match readAllEntries codec policy file with
    | .error error => (.error error, file)
    | .ok entries =>
      let entry : MetadataLogEntry := ⟨term, nextLogIndex entries, snapshot⟩
      (.ok entry, some (encodeEntries codec (entries ++ [entry])))
  latestEntry file := (readAllEntries codec policy file).map (·.getLast?)
  entries file := readAllEntries codec policy file
  clear _ := (.ok (), some (encodeEntries codec []))
  truncateFrom file firstIndex :=
    match readAllEntries codec policy file with
    | .error error => (.error error, file)
    | .ok entries => (.ok (), some (encodeEntries codec (keptFrom firstIndex entries)))

/-! ## What is written is read back -/

section

variable {codec policy}

/-- The scan of a file whose lines are texts. -/
theorem readAllEntries_texts {bytes : Bytes} {rawLines : List String}
    (h : (lines bytes).mapM fromUtf8 = some rawLines) :
    (readAllEntries codec policy (some bytes)).toOption =
      replayed policy [] (scan skipsLine (lookRecord codec (parseLine codec)) none rawLines) := by
  simp only [readAllEntries, h, replayEntries_eq]
  rfl

/-- An entry's text has nothing to trim. -/
theorem trim_entryText (e : MetadataLogEntry) : trim (entryText codec e) = entryText codec e :=
  trim_eq_self (codec.opened _) (codec.closed _) (by decide) (by decide)

theorem skipsLine_entryText (e : MetadataLogEntry) : skipsLine (entryText codec e) = false := by
  obtain ⟨cs, hcs⟩ := List.head?_eq_some_iff.1 (codec.opened (persisted codec e))
  have htrim : (trim (entryText codec e)).toList = '{' :: cs := by rw [trim_entryText, entryText, hcs]
  simp only [skipsLine, htrim]
  rfl

theorem lookRecord_entryText {last : Option MetadataLogEntry} {e : MetadataLogEntry} (h : IndexFollows last e) :
    lookRecord codec (parseLine codec) last (entryText codec e) = .ok e := by
  refine lookRecord_persisted ?_ h
  rw [parseLine, trim_entryText]
  exact codec.entry_roundTrip _

theorem mapM_fromUtf8 (ss : List String) : (ss.map utf8).mapM fromUtf8 = some ss := by
  induction ss with
  | nil => rfl
  | cons s ss ih => simp [ih]

theorem lines_encodeEntries (es : List MetadataLogEntry) (tail : Bytes) :
    lines (encodeEntries codec es ++ tail) = (es.map (entryText codec)).map utf8 ++ lines tail := by
  rw [encodeEntries, ← lines_texts, List.flatMap_map]
  intro s hs
  obtain ⟨e, _, rfl⟩ := List.mem_map.1 hs
  exact codec.printable _

/-- Consecutive entries are what the scan of their texts finds. -/
theorem scan_entryTexts {last : Option MetadataLogEntry} {es : List MetadataLogEntry}
    (h : Linked IndexFollows last es) :
    scan skipsLine (lookRecord codec (parseLine codec)) last (es.map (entryText codec)) = ⟨es, none, 0⟩ :=
  scan_written (h.imp fun _ e hf => ⟨skipsLine_entryText e, lookRecord_entryText hf⟩)

/-- **Writing and reading back** is the identity on consecutive entries, under every policy. -/
theorem readAllEntries_encodeEntries {es : List MetadataLogEntry} (h : Sequential es) :
    readAllEntries codec policy (some (encodeEntries codec es)) = .ok es := by
  have hlines := @lines_encodeEntries codec es []
  rw [List.append_nil] at hlines
  have htexts : (lines (encodeEntries codec es)).mapM fromUtf8 = some (es.map (entryText codec)) := by
    rw [hlines, show lines [] = [] from rfl, List.append_nil, mapM_fromUtf8]
  rw [← toOption_eq_some, readAllEntries_texts htexts, scan_entryTexts h]
  rfl

/-- What a read gives is consecutive. -/
theorem sequential_of_read {file : Option Bytes} {es : List MetadataLogEntry}
    (h : readAllEntries codec policy file = .ok es) : Sequential es := by
  unfold readAllEntries at h
  split at h
  · cases h
    trivial
  · split at h
    · cases h
    · rename_i rawLines _
      have hscan := replayEntries_eq codec policy skipsLine (parseLine codec) (fun offset _ => s!"line {offset + 1}")
        0 [] rawLines
      rw [h] at hscan
      rw [← entries_of_replayed hscan.symm]
      exact sequential_scan

end

/-! ## The file log against the in-memory log -/

variable {codec policy}

/-- One call: the reply is the in-memory one, and the file reads as the in-memory entries. -/
theorem file_refines :
    RefinesInMemory (fileMetadataLog codec policy) fun file es => readAllEntries codec policy file = .ok es := by
  intro file es c h hc
  have hseq := sequential_of_read h
  cases c with
  | appendEntry term snapshot =>
    simp only [MetadataLog.call, fileMetadataLog, h, inMemoryMetadataLog, true_and]
    exact readAllEntries_encodeEntries (sequential_append hseq hc term snapshot)
  | latestEntry => exact ⟨by simp [MetadataLog.call, fileMetadataLog, h, inMemoryMetadataLog, Except.map], h⟩
  | entries => exact ⟨by simp [MetadataLog.call, fileMetadataLog, h, inMemoryMetadataLog], h⟩
  | clear => exact ⟨rfl, readAllEntries_encodeEntries trivial⟩
  | truncateFrom firstIndex =>
    simp only [MetadataLog.call, fileMetadataLog, h, inMemoryMetadataLog, true_and]
    exact readAllEntries_encodeEntries (sequential_filter hseq _)

/-- **The file log behaves as the in-memory log.** On every file that reads as `p` under the policy, every sequence of
calls whose appends find an index is answered as by an in-memory log with the entries `p`; and consecutive entries that
are written are read back as they were. -/
theorem file_log_refines {file : Option Bytes} {p : List MetadataLogEntry}
    (hread : readAllEntries codec policy file = .ok p) {calls : List LogCall}
    (hfits : Calls.Guarded inMemoryMetadataLog.call LogCall.Fits p calls) :
    Calls.replies (fileMetadataLog codec policy).call file calls = Calls.replies inMemoryMetadataLog.call p calls ∧
      ∀ es, Sequential es → readAllEntries codec policy (some (encodeEntries codec es)) = .ok es := by
  exact ⟨(Calls.lockstep file_refines hread hfits).1, fun es => readAllEntries_encodeEntries⟩

/-- A log that starts at index 7 is appended to, truncated and read. -/
theorem file_log_refines_from_seven :
    Calls.replies (fileMetadataLog serdeLog .strict).call
        (some (encodeEntries serdeLog [⟨3, 7, .default⟩, ⟨3, 8, .default⟩]))
        [.appendEntry 4 .default, .truncateFrom 8, .entries] =
      [.entry (.ok ⟨4, 9, .default⟩), .done (.ok ()), .entries (.ok [⟨3, 8, .default⟩, ⟨4, 9, .default⟩])] := by
  have hseq : Sequential [⟨3, 7, .default⟩, ⟨3, 8, .default⟩] :=
    ⟨⟨by decide, fun _ h => by cases h⟩, ⟨by decide, fun _ h => by cases h; rfl⟩, trivial⟩
  have hroom : HasRoom [⟨3, 7, .default⟩, ⟨3, 8, .default⟩] := fun e h => by cases h; decide
  have hfits : Calls.Guarded inMemoryMetadataLog.call LogCall.Fits [⟨3, 7, .default⟩, ⟨3, 8, .default⟩]
      [.appendEntry 4 .default, .truncateFrom 8, .entries] := ⟨hroom, trivial, trivial, trivial⟩
  exact (file_log_refines (readAllEntries_encodeEntries hseq) hfits).1

end FileMetadataLog

end Ganglion
