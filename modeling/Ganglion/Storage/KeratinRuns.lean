import Mathlib.Data.List.Induction
import Ganglion.Storage.Keratin

/-!
# Runs of the Keratin-backed log

What a `KeratinMetadataLog` answers to any calls, when its records are read as `p` under the policy. Without a bad record
it answers as the in-memory log (`keratin_refines`): truncating writes the entries that are kept to an empty log, where
they read back. With a tolerated bad tail, everything depends on what changes the log first (`HealsFirst`): clearing and
truncating remove the bad records, and appending goes behind them.

* `keratin_runs_iff`: so the runs that answer as the in-memory log are exactly those.
* `keratin_hidden_appends`: entries appended behind a bad record are all given the same index, none of them is read, and
  once there are too many of them nothing is.
-/

namespace Ganglion

open Text Scan

namespace KeratinMetadataLog

variable {κ : Type} {keratin : Keratin κ} {codec : LogCodec} {policy : FileMetadataReplayPolicy} {k : κ}
  {p : List MetadataLogEntry}

/-! ## Records without a fault -/

/-- Consecutive entries that are written to an empty log read back. -/
theorem readAllEntries_rewritten {es : List MetadataLogEntry} (h : Sequential es) :
    readAllEntries keratin codec .strict (es.foldl (appendRawEntry keratin codec) (keratin.reset k)) = .ok es := by
  induction es using List.reverseRecOn with
  | nil =>
    rw [readAllEntries_strict_iff, recordScan, List.foldl_nil, keratin.records_reset]
    exact ⟨rfl, rfl⟩
  | append_singleton es e ih =>
    obtain ⟨hes, hfollows, _⟩ := linked_append.1 h
    rw [List.foldl_append]
    refine readAllEntries_append (ih hes) ?_
    rwa [lastOf_none] at hfollows

/-- One call: the reply is the in-memory one, and the records read as the in-memory entries. -/
theorem keratin_refines : RefinesInMemory (keratinMetadataLog keratin codec policy) fun k es =>
    readAllEntries keratin codec .strict k = .ok es := by
  intro k es c h hc
  have hread : readAllEntries keratin codec policy k = .ok es := readAllEntries_of_strict h
  cases c with
  | appendEntry term snapshot =>
    simp only [MetadataLog.call, keratinMetadataLog, hread, inMemoryMetadataLog, true_and]
    exact readAllEntries_append h (indexFollows_next hc term snapshot)
  | latestEntry => exact ⟨by simp [MetadataLog.call, keratinMetadataLog, hread, inMemoryMetadataLog, Except.map], h⟩
  | entries => exact ⟨by simp [MetadataLog.call, keratinMetadataLog, hread, inMemoryMetadataLog], h⟩
  | clear => exact ⟨rfl, @readAllEntries_rewritten κ keratin codec k [] trivial⟩
  | truncateFrom firstIndex =>
    simp only [MetadataLog.call, keratinMetadataLog, hread, inMemoryMetadataLog, true_and]
    exact readAllEntries_rewritten (sequential_filter (sequential_of_read hread) _)

/-! ## Runs -/

/-- The first call that changes the log, if there is one, removes what cannot be read. -/
def HealsFirst : List LogCall → Prop
  | [] => True
  | .appendEntry _ _ :: _ => False
  | .clear :: _ => True
  | .truncateFrom _ :: _ => True
  | .latestEntry :: calls => HealsFirst calls
  | .entries :: calls => HealsFirst calls

/-- The calls are answered as by an in-memory log with the entries `p`, and at any point of them the log reads as it. -/
def Alike (log : MetadataLog κ) (k : κ) (p : List MetadataLogEntry) (calls : List LogCall) : Prop :=
  Calls.replies log.call k calls = Calls.replies inMemoryMetadataLog.call p calls ∧
    ∀ front, front <+: calls →
      log.entries (Calls.after log.call k front) = .ok (Calls.after inMemoryMetadataLog.call p front)

theorem alike_cons {log : MetadataLog κ} {c : LogCall} {calls : List LogCall} :
    Alike log k p (c :: calls) ↔ log.entries k = .ok p ∧ (log.call k c).1 = (inMemoryMetadataLog.call p c).1 ∧
      Alike log (log.call k c).2 (inMemoryMetadataLog.call p c).2 calls := by
  constructor
  · rintro ⟨hreplies, hreads⟩
    obtain ⟨hreply, hrest⟩ := List.cons.inj hreplies
    exact ⟨hreads [] List.nil_prefix, hreply, hrest,
      fun front hfront => hreads (c :: front) (List.cons_prefix_cons.2 ⟨rfl, hfront⟩)⟩
  · rintro ⟨hread, hreply, hrest, hreads⟩
    refine ⟨by rw [Calls.replies, Calls.replies, hreply, hrest], fun front hfront => ?_⟩
    rcases List.prefix_cons_iff.1 hfront with rfl | ⟨front, rfl, hfront⟩
    · exact hread
    · exact hreads front (List.cons_prefix_cons.1 hfront).2

/-- Without a fault the log is alike in every run. -/
theorem alike_of_strict {calls : List LogCall} (h : readAllEntries keratin codec .strict k = .ok p)
    (hfits : Calls.Guarded inMemoryMetadataLog.call LogCall.Fits p calls) :
    Alike (keratinMetadataLog keratin codec policy) k p calls := by
  induction calls generalizing k p with
  | nil =>
    refine ⟨rfl, fun front hfront => ?_⟩
    rw [List.prefix_nil.1 hfront]
    exact readAllEntries_of_strict h
  | cons c calls ih =>
    obtain ⟨hreply, hnext⟩ := @keratin_refines κ keratin codec policy k p c h hfits.1
    exact alike_cons.2 ⟨readAllEntries_of_strict h, hreply, ih hnext hfits.2⟩

/-- Clearing or truncating leaves records without a fault. -/
theorem strict_of_truncate (hread : readAllEntries keratin codec policy k = .ok p) (firstIndex : UInt64) :
    readAllEntries keratin codec .strict
      ((keptFrom firstIndex p).foldl (appendRawEntry keratin codec) (keratin.reset k)) = .ok (keptFrom firstIndex p) :=
  readAllEntries_rewritten (sequential_filter (sequential_of_read hread) _)

theorem alike_of_healsFirst {calls : List LogCall} (hread : readAllEntries keratin codec policy k = .ok p)
    (hfits : Calls.Guarded inMemoryMetadataLog.call LogCall.Fits p calls) (hheals : HealsFirst calls) :
    Alike (keratinMetadataLog keratin codec policy) k p calls := by
  induction calls with
  | nil =>
    refine ⟨rfl, fun front hfront => ?_⟩
    rw [List.prefix_nil.1 hfront]
    exact hread
  | cons c calls ih =>
    rw [alike_cons]
    refine ⟨hread, ?_⟩
    cases c with
    | appendEntry term snapshot => exact hheals.elim
    | latestEntry =>
      refine ⟨?_, ih hfits.2 hheals⟩
      simp [MetadataLog.call, keratinMetadataLog, hread, inMemoryMetadataLog, Except.map]
    | entries =>
      refine ⟨?_, ih hfits.2 hheals⟩
      simp [MetadataLog.call, keratinMetadataLog, hread, inMemoryMetadataLog]
    | clear => exact ⟨rfl, alike_of_strict (@readAllEntries_rewritten κ keratin codec k [] trivial) hfits.2⟩
    | truncateFrom firstIndex =>
      have hcall : (keratinMetadataLog keratin codec policy).truncateFrom k firstIndex =
          (.ok (), (keptFrom firstIndex p).foldl (appendRawEntry keratin codec) (keratin.reset k)) := by
        simp only [keratinMetadataLog, hread]
      simp only [MetadataLog.call, hcall]
      exact ⟨rfl, alike_of_strict (strict_of_truncate hread firstIndex) hfits.2⟩

/-- An entry that is appended behind a fault is missing at once. -/
theorem healsFirst_of_alike {calls : List LogCall} (hread : readAllEntries keratin codec policy k = .ok p)
    {fault : RecordFault} (hfault : (recordScan keratin codec k).fault = some fault)
    (h : Alike (keratinMetadataLog keratin codec policy) k p calls) : HealsFirst calls := by
  induction calls with
  | nil => trivial
  | cons c calls ih =>
    obtain ⟨_, _, hrest⟩ := alike_cons.1 h
    cases c with
    | appendEntry term snapshot =>
      have hentries := hrest.2 [] List.nil_prefix
      simp only [Calls.after, MetadataLog.call, appendEntry_eq hread] at hentries
      exact readAllEntries_append_fault hread hfault hentries
    | latestEntry => exact ih hrest
    | entries => exact ih hrest
    | clear => trivial
    | truncateFrom firstIndex => trivial

/-- **Which runs of a Keratin log are those of an in-memory log.** On records that are read as `p` under the policy, calls
whose appends find an index are answered as by an in-memory log with the entries `p`, and the log reads as it all along,
if and only if no record is bad, or the first call that changes the log is not an append. -/
theorem keratin_runs_iff {calls : List LogCall} (hread : readAllEntries keratin codec policy k = .ok p)
    (hfits : Calls.Guarded inMemoryMetadataLog.call LogCall.Fits p calls) :
    Alike (keratinMetadataLog keratin codec policy) k p calls ↔
      readAllEntries keratin codec .strict k = .ok p ∨ HealsFirst calls := by
  constructor
  · intro h
    cases hfault : (recordScan keratin codec k).fault with
    | none => exact .inl (readAllEntries_strict_iff.2 ⟨hfault, entries_of_read hread⟩)
    | some fault => exact .inr (healsFirst_of_alike hread hfault h)
  · rintro (hstrict | hheals)
    · exact alike_of_strict hstrict hfits
    · exact alike_of_healsFirst hread hfits hheals

/-! ## Appending behind a bad record -/

variable {fault : RecordFault} {t max : Nat}

/-- A read of records with a fault that `TruncateTail` can skip. -/
theorem readAllEntries_fault (hscan : recordScan keratin codec k = ⟨p, some fault, t⟩)
    (hfault : fault.recoverable = true) :
    (readAllEntries keratin codec (.truncateTail max) k).toOption = if t ≤ max then some p else none := by
  rw [readAllEntries_toOption, replayed, hscan]
  simp [hfault, FileMetadataReplayPolicy.tolerates]

/-- The tail grows. -/
theorem recordScan_appendRawEntry (hscan : recordScan keratin codec k = ⟨p, some fault, t⟩) (e : MetadataLogEntry) :
    recordScan keratin codec (appendRawEntry keratin codec k e) = ⟨p, some fault, t + 1⟩ := by
  obtain ⟨offset, hrecords⟩ := keratin.records_append k (utf8 (codec.entryToString (persisted codec e)))
  have hsome : (scan (fun _ => false) (lookRecord codec (parseRecord codec)) none (keratin.records k)).fault =
      some fault := congrArg Scanned.fault hscan
  rw [recordScan, appendRawEntry, hrecords, scan_append_fault hsome]
  rw [recordScan] at hscan
  rw [hscan]
  rfl

/-- A call of `append_entry`. -/
def appendCall (c : UInt64 × CoordinationSnapshot) : LogCall := .appendEntry c.1 c.2

/-- **Entries that are appended behind a bad record.** On records with `t` records from a bad one on, under a policy that
skips up to `max` of them, the appends up to the one that finds `max` there return `Ok`, all with the same index, and the
later ones fail; the log is read as before as long as there are no more than `max`, and then not at all. -/
theorem keratin_hidden_appends (hscan : recordScan keratin codec k = ⟨p, some fault, t⟩)
    (hfault : fault.recoverable = true) (max : Nat) (calls : List (UInt64 × CoordinationSnapshot)) :
    (∀ (i : Nat) (term : UInt64) (snapshot : CoordinationSnapshot), calls[i]? = some (term, snapshot) →
      ∃ reply, (Calls.replies (keratinMetadataLog keratin codec (.truncateTail max)).call k
          (calls.map appendCall))[i]? = some (.entry reply) ∧
        reply.toOption = if t + i ≤ max then some ⟨term, nextLogIndex p, snapshot⟩ else none) ∧
    ((keratinMetadataLog keratin codec (.truncateTail max)).entries
        (Calls.after (keratinMetadataLog keratin codec (.truncateTail max)).call k (calls.map appendCall))).toOption =
      if t + calls.length ≤ max then some p else none := by
  induction calls generalizing k t with
  | nil => exact ⟨fun i term snapshot hcall => (by cases hcall), readAllEntries_fault hscan hfault⟩
  | cons c calls ih =>
    obtain ⟨term, snapshot⟩ := c
    have hread := @readAllEntries_fault κ keratin codec k p fault t max hscan hfault
    rcases Nat.lt_or_ge max t with hmany | hfew
    · -- nothing can be read, and nothing is appended
      rw [if_neg (by omega)] at hread
      cases herror : readAllEntries keratin codec (.truncateTail max) k with
      | ok es =>
        rw [herror] at hread
        cases hread
      | error error =>
        have hcall : (keratinMetadataLog keratin codec (.truncateTail max)).call k (appendCall (term, snapshot)) =
            (.entry (.error error), k) := by
          simp [MetadataLog.call, keratinMetadataLog, appendCall, herror]
        obtain ⟨hreplies, hentries⟩ := ih hscan
        simp only [List.map_cons, Calls.replies, Calls.after, hcall, List.length_cons]
        refine ⟨fun i term' snapshot' hget => ?_, ?_⟩
        · cases i with
          | zero => exact ⟨.error error, rfl, (if_neg (by omega)).symm⟩
          | succ i =>
            obtain ⟨reply, hreply, hvalue⟩ := hreplies i term' snapshot' hget
            exact ⟨reply, hreply, by rw [hvalue, if_neg (by omega), if_neg (by omega)]⟩
        · rw [hentries, if_neg (by omega), if_neg (by omega)]
    · rw [if_pos hfew, toOption_eq_some] at hread
      have hcall : (keratinMetadataLog keratin codec (.truncateTail max)).call k (appendCall (term, snapshot)) =
          (.entry (.ok ⟨term, nextLogIndex p, snapshot⟩),
            appendRawEntry keratin codec k ⟨term, nextLogIndex p, snapshot⟩) := by
        simp only [MetadataLog.call, appendCall, appendEntry_eq hread]
      obtain ⟨hreplies, hentries⟩ := ih (recordScan_appendRawEntry hscan ⟨term, nextLogIndex p, snapshot⟩)
      simp only [List.map_cons, Calls.replies, Calls.after, hcall, List.length_cons]
      refine ⟨fun i term' snapshot' hget => ?_, ?_⟩
      · cases i with
        | zero =>
          cases hget
          exact ⟨.ok ⟨term, nextLogIndex p, snapshot⟩, rfl, (if_pos hfew).symm⟩
        | succ i =>
          obtain ⟨reply, hreply, hvalue⟩ := hreplies i term' snapshot' hget
          exact ⟨reply, hreply, by rw [hvalue, Nat.add_assoc, Nat.add_comm 1 i]⟩
      · rw [hentries, Nat.add_assoc, Nat.add_comm 1]

/-! ### A record that cannot be parsed -/

theorem recordScan_unparsed : recordScan memoryKeratin serdeLog [[]] = ⟨[], some .json, 1⟩ := by
  have hlook : lookRecord serdeLog (parseRecord serdeLog) none ⟨0, []⟩ = .error .json := by
    simp only [lookRecord, parseRecord, entryFromSlice_nil]
  simp [recordScan, memoryKeratin, scan, hlook]

/-- Clearing the log first makes it as good as new. -/
theorem keratin_runs_iff_clear : Alike (keratinMetadataLog memoryKeratin serdeLog (.truncateTail 2)) [[]] []
    [.entries, .clear, .appendEntry 1 .default] := by
  have hread : readAllEntries memoryKeratin serdeLog (.truncateTail 2) [[]] = .ok [] := by
    rw [← toOption_eq_some, readAllEntries_fault recordScan_unparsed rfl]
    rfl
  have hroom : HasRoom [] := fun e h => by cases h
  have hfits : Calls.Guarded inMemoryMetadataLog.call LogCall.Fits [] [.entries, .clear, .appendEntry 1 .default] :=
    ⟨trivial, trivial, hroom, trivial⟩
  exact (keratin_runs_iff hread hfits).2 (.inr trivial)

/-- With one bad record and two skipped at most, the log cannot be read after three appends. -/
theorem keratin_hidden_appends_three :
    ((keratinMetadataLog memoryKeratin serdeLog (.truncateTail 2)).entries
      (Calls.after (keratinMetadataLog memoryKeratin serdeLog (.truncateTail 2)).call [[]]
        ([(1, .default), (1, .default), (1, .default)].map appendCall))).toOption = none :=
  (keratin_hidden_appends recordScan_unparsed rfl 2 [(1, .default), (1, .default), (1, .default)]).2

end KeratinMetadataLog

end Ganglion
