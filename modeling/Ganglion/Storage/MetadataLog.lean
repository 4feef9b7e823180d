import Ganglion.Lib.Replay
import Ganglion.Lib.Scan
import Ganglion.Lib.Text
import Ganglion.Core.Types

/-!
# Metadata logs

The legacy metadata log of `ganglion-storage`: entries of a term, an index and a whole snapshot, behind the trait
`MetadataLog`. On disk an entry is JSON in which the assignments are keyed by the JSON text of their resource
(`encodeSnapshot`, `decodeSnapshot`); `serde_json` is a parameter (`LogCodec`).

The two durable logs replay their records in the same way, up to where a record is said to be: each record is parsed,
its index is checked against the one before it, and its snapshot is decoded; a record that fails one of the first two
checks ends the log under a policy that tolerates enough records from there on (`replayEntries`).

* `decodeSnapshot_encodeSnapshot`: the second snapshot encoding loses nothing.
* `replayEntries_eq`: a replay is a scan for the first record with a fault, and then the policy.
* `sequential_append`, `sequential_filter`: appending and truncating keep indices consecutive.
-/

namespace Ganglion

open Std Text Scan

/-! ## Entries -/

/-- `MetadataLogEntry`. -/
structure MetadataLogEntry where
  term : UInt64
  index : UInt64
  snapshot : CoordinationSnapshot
  deriving DecidableEq

/-- `PersistedCoordinationSnapshot`. -/
structure PersistedCoordinationSnapshot where
  nodes : BTreeMap String NodeInfo
  assignments : BTreeMap String PartitionAssignment
  resources : BTreeSet ResourceIdentity
  attributes : BTreeMap String String
  generation : UInt64
  deriving DecidableEq

/-- `PersistedMetadataLogEntry`. -/
structure PersistedMetadataLogEntry where
  term : UInt64
  index : UInt64
  snapshot : PersistedCoordinationSnapshot
  deriving DecidableEq

/-- `MetadataLogError`. -/
inductive MetadataLogError where
  | io (details : String)
  | parse (details : String)
  deriving DecidableEq

/-- What the logs take from serde_json: a one-line text for each value, an object without control characters, that
reads back from text and from bytes; a text cut short is an error. -/
structure LogCodec where
  /-- `serde_json::to_string` on an entry. -/
  entryToString : PersistedMetadataLogEntry → String
  /-- `serde_json::from_str` to an entry. -/
  entryFromStr : String → Except String PersistedMetadataLogEntry
  /-- `serde_json::from_slice` to an entry. -/
  entryFromSlice : Bytes → Except String PersistedMetadataLogEntry
  /-- `serde_json::to_string` on a resource. -/
  resourceToString : ResourceIdentity → String
  /-- `serde_json::from_str` to a resource. -/
  resourceFromStr : String → Except String ResourceIdentity
  entry_roundTrip : ∀ e, entryFromStr (entryToString e) = .ok e
  slice_roundTrip : ∀ e, entryFromSlice (utf8 (entryToString e)) = .ok e
  resource_roundTrip : ∀ r, resourceFromStr (resourceToString r) = .ok r
  /-- An entry is an object. -/
  opened : ∀ e, (entryToString e).toList.head? = some '{'
  closed : ∀ e, (entryToString e).toList.getLast? = some '}'
  /-- Control characters are escaped. -/
  printable : ∀ e, ∀ c ∈ (entryToString e).toList, 0x20 ≤ c.toNat
  /-- End of input inside a value. -/
  unfinished : ∀ e s u, entryToString e = s ++ u → u ≠ "" → ∃ error, entryFromStr s = .error error

/-! ## The second snapshot encoding -/

section

variable (codec : LogCodec)

/-- `encode_snapshot`. -/
def encodeSnapshot (snapshot : CoordinationSnapshot) : PersistedCoordinationSnapshot where
  nodes := snapshot.nodes
  assignments := OrdMap.rekey codec.resourceToString snapshot.assignments
  resources := snapshot.resources
  attributes := snapshot.attributes
  generation := snapshot.generation

/-- An assignment and its key in `decode_snapshot`. -/
def decodeAssignment (p : String × PartitionAssignment) :
    Except MetadataLogError (ResourceIdentity × PartitionAssignment) :=
  match codec.resourceFromStr p.1 with
  | .ok resource => .ok (resource, p.2)
  | .error error => .error (.parse error)

/-- `decode_snapshot`. -/
def decodeSnapshot (snapshot : PersistedCoordinationSnapshot) : Except MetadataLogError CoordinationSnapshot :=
  match snapshot.assignments.toList.mapM (decodeAssignment codec) with
  | .error error => .error error
  | .ok assignments => .ok
      { nodes := snapshot.nodes
        assignments := OrdMap.ofPairs assignments
        resources := snapshot.resources
        attributes := snapshot.attributes
        generation := snapshot.generation }

/-- The resource of a key, where the key can be read. -/
def resourceOfKey (key : String) : ResourceIdentity :=
  match codec.resourceFromStr key with
  | .ok resource => resource
  | .error _ => ⟨"", "", 0, none⟩

/-- Reading items that can all be read. -/
theorem mapM_eq_ok {α β ε : Type} {f : α → Except ε β} {g : α → β} {xs : List α} (h : ∀ x ∈ xs, f x = .ok (g x)) :
    xs.mapM f = .ok (xs.map g) := by
  induction xs with
  | nil => rfl
  | cons x xs ih =>
    rw [List.mapM_cons, h x List.mem_cons_self, ih fun y hy => h y (List.mem_cons_of_mem x hy)]
    rfl

/-- **The second snapshot encoding loses nothing.** -/
theorem decodeSnapshot_encodeSnapshot (s : CoordinationSnapshot) :
    decodeSnapshot codec (encodeSnapshot codec s) = .ok s := by
  have hkey : Function.LeftInverse (resourceOfKey codec) codec.resourceToString := by
    intro r
    simp [resourceOfKey, codec.resource_roundTrip]
  have hread : ∀ p ∈ (encodeSnapshot codec s).assignments.toList,
      decodeAssignment codec p = .ok (resourceOfKey codec p.1, p.2) := by
    rintro ⟨key, a⟩ hp
    rw [ExtTreeMap.mem_toList_iff_getElem?_eq_some] at hp
    obtain ⟨r, rfl, _⟩ := (OrdMap.getElem?_rekey s.assignments hkey.injective).1 hp
    simp [decodeAssignment, resourceOfKey, codec.resource_roundTrip]
  simp only [decodeSnapshot, mapM_eq_ok hread]
  simp only [encodeSnapshot, OrdMap.ofPairs_rekey s.assignments hkey]

end

/-! ## Replay -/

/-- `FileMetadataReplayPolicy`. -/
inductive FileMetadataReplayPolicy where
  | strict
  | truncateTail (maxTailLines : Nat)
  deriving DecidableEq

/-- `recoverable_tail_error`. -/
def recoverableTailError (policy : FileMetadataReplayPolicy) (error : MetadataLogError) (skipped : Nat)
    (entries : List MetadataLogEntry) : Except MetadataLogError (List MetadataLogEntry) :=
  match policy with
  | .strict => .error error
  | .truncateTail maxTailLines => if skipped ≤ maxTailLines then .ok entries else .error error

section

variable {α : Type} (codec : LogCodec) (policy : FileMetadataReplayPolicy) (skip : α → Bool)
  (parse : α → Except String PersistedMetadataLogEntry) (place : Nat → α → String)

/-- The loop of `read_all_entries`: `skip` passes over an item, `parse` reads a record and `place` says where it is. -/
def replayEntries (offset : Nat) (entries : List MetadataLogEntry) :
    List α → Except MetadataLogError (List MetadataLogEntry)
  | [] => .ok entries
  | item :: rest =>
    if skip item then replayEntries (offset + 1) entries rest
    else
      let skipped := (rest.filter fun item => !skip item).length + 1
      match parse item with
      | .error error =>
        recoverableTailError policy (.parse s!"{place offset item}: {error}") skipped entries
      | .ok persisted =>
        let expected :=
          match entries.getLast? with
          | none => persisted.index
          | some entry => entry.index + 1
        if persisted.index = 0 then
          recoverableTailError policy (.parse s!"{place offset item}: metadata log index must be >= 1") skipped entries
        else if persisted.index ≠ expected then
          recoverableTailError policy
            (.parse
              s!"{place offset item}: non-sequential log index; expected {expected}, got {persisted.index}")
            skipped entries
        else match decodeSnapshot codec persisted.snapshot with
          | .error error => .error error
          | .ok snapshot =>
            replayEntries (offset + 1) (entries ++ [⟨persisted.term, persisted.index, snapshot⟩]) rest

/-- What is wrong with a record. -/
inductive RecordFault where
  /-- Not UTF-8. -/
  | encoding
  /-- Not the JSON of an entry. -/
  | json
  /-- The index is 0 or does not follow the one before it. -/
  | index
  /-- A key of the assignments is not the JSON of a resource. -/
  | resourceKey
  deriving DecidableEq

/-- What a replay makes of one record. -/
def lookRecord (last : Option MetadataLogEntry) (item : α) : Except RecordFault MetadataLogEntry :=
  match parse item with
  | .error _ => .error .json
  | .ok persisted =>
    if persisted.index = 0 ∨ (last.any fun entry => persisted.index ≠ entry.index + 1) then .error .index
    else match decodeSnapshot codec persisted.snapshot with
      | .error _ => .error .resourceKey
      | .ok snapshot => .ok ⟨persisted.term, persisted.index, snapshot⟩

/-- The faults that the policy decides about. -/
def RecordFault.recoverable : RecordFault → Bool
  | .json | .index => true
  | .encoding | .resourceKey => false

/-- The policy tolerates that many records from a fault on. -/
def FileMetadataReplayPolicy.tolerates : FileMetadataReplayPolicy → Nat → Bool
  | .strict, n => n == 0
  | .truncateTail maxTailLines, n => n ≤ maxTailLines

/-- What a replay answers to what the scan finds. -/
def replayed (entries : List MetadataLogEntry) (r : Scanned MetadataLogEntry RecordFault) :
    Option (List MetadataLogEntry) :=
  match r.fault with
  | none => some (entries ++ r.entries)
  | some fault => if fault.recoverable && policy.tolerates r.tail then some (entries ++ r.entries) else none

/-- What is answered are the entries before the fault. -/
theorem entries_of_replayed {policy : FileMetadataReplayPolicy} {r : Scanned MetadataLogEntry RecordFault}
    {es : List MetadataLogEntry} (h : replayed policy [] r = some es) : r.entries = es := by
  unfold replayed at h
  split at h
  · exact Option.some.inj h
  · split at h
    · exact Option.some.inj h
    · cases h

/-- `Strict` accepts what has no fault. -/
theorem replayed_strict_iff {r : Scanned MetadataLogEntry RecordFault} {es : List MetadataLogEntry}
    (hr : r.tail = 0 ↔ r.fault = none) : replayed .strict [] r = some es ↔ r.fault = none ∧ r.entries = es := by
  unfold replayed
  cases hf : r.fault with
  | none => simp
  | some fault =>
    have hpos : r.tail ≠ 0 := by
      rw [ne_eq, hr, hf]
      simp
    simp [FileMetadataReplayPolicy.tolerates, hpos]

theorem toOption_eq_some {ε α : Type} {r : Except ε α} {a : α} : r.toOption = some a ↔ r = .ok a := by
  cases r <;> simp [Except.toOption]

theorem recoverableTailError_toOption (error : MetadataLogError) (n : Nat) (entries : List MetadataLogEntry) :
    (recoverableTailError policy error (n + 1) entries).toOption =
      if policy.tolerates (n + 1) then some entries else none := by
  cases policy with
  | strict => simp [recoverableTailError, FileMetadataReplayPolicy.tolerates, Except.toOption]
  | truncateTail max =>
    simp only [recoverableTailError, FileMetadataReplayPolicy.tolerates, decide_eq_true_eq]
    split <;> rfl

/-- One record of a replay. -/
theorem replayEntries_record (offset : Nat) (entries : List MetadataLogEntry) {item : α} (hs : skip item = false)
    (rest : List α) :
    (replayEntries codec policy skip parse place offset entries (item :: rest)).toOption =
      match lookRecord codec parse entries.getLast? item with
      | .ok entry =>
        (replayEntries codec policy skip parse place (offset + 1) (entries ++ [entry]) rest).toOption
      | .error fault =>
        if fault.recoverable && policy.tolerates (rest.countP (fun item => !skip item) + 1) then some entries
        else none := by
  simp only [replayEntries, hs, Bool.false_eq_true, if_false, lookRecord]
  rw [← List.countP_eq_length_filter]
  cases hp : parse item with
  | error error => simp [recoverableTailError_toOption, RecordFault.recoverable]
  | ok persisted =>
    by_cases hzero : persisted.index = 0
    · simp [hzero, recoverableTailError_toOption, RecordFault.recoverable]
    · have hdecode : ∀ next : CoordinationSnapshot → Except MetadataLogError (List MetadataLogEntry),
          (match decodeSnapshot codec persisted.snapshot with
            | .error error => .error error
            | .ok snapshot => next snapshot : Except MetadataLogError _).toOption =
          match decodeSnapshot codec persisted.snapshot with
          | .error _ => none
          | .ok snapshot => (next snapshot).toOption := by
        intro next
        cases decodeSnapshot codec persisted.snapshot <;> rfl
      cases hlast : entries.getLast? with
      | none =>
        simp only [hzero, if_false, hdecode, Option.any_none, Bool.false_eq_true, or_false, ne_eq, not_true_eq_false]
        cases decodeSnapshot codec persisted.snapshot <;> simp [RecordFault.recoverable]
      | some entry =>
        by_cases hnext : persisted.index = entry.index + 1
        · rw [hnext] at hzero
          simp only [hnext, hzero, if_false, hdecode, Option.any_some, ne_eq, not_true_eq_false, decide_false,
            Bool.false_eq_true, or_false]
          cases decodeSnapshot codec persisted.snapshot <;> simp [RecordFault.recoverable]
        · simp [hzero, hnext, recoverableTailError_toOption, RecordFault.recoverable]

/-- **A replay is a scan and then the policy.** -/
theorem replayEntries_eq (offset : Nat) (entries : List MetadataLogEntry) (items : List α) :
    (replayEntries codec policy skip parse place offset entries items).toOption =
      replayed policy entries (scan skip (lookRecord codec parse) entries.getLast? items) := by
  induction items generalizing offset entries with
  | nil => simp [replayEntries, scan, replayed, Except.toOption]
  | cons item rest ih =>
    cases hs : skip item with
    | true => simpa only [replayEntries, scan, hs, if_true] using ih (offset + 1) entries
    | false =>
      rw [replayEntries_record codec policy skip parse place offset entries hs]
      simp only [scan, hs, Bool.false_eq_true, if_false]
      cases hl : lookRecord codec parse entries.getLast? item with
      | ok entry => simp [ih, replayed]
      | error fault => simp [replayed]

end

/-! ## Consecutive entries -/

/-- The index is at least 1 and follows the one before it. -/
def IndexFollows (last : Option MetadataLogEntry) (e : MetadataLogEntry) : Prop :=
  e.index ≠ 0 ∧ ∀ l, last = some l → e.index = l.index + 1

/-- The indices are consecutive, from any index on. -/
def Sequential (es : List MetadataLogEntry) : Prop := Linked IndexFollows none es

theorem IndexFollows.toNat {l e : MetadataLogEntry} (h : IndexFollows (some l) e) :
    e.index.toNat = l.index.toNat + 1 := by
  obtain ⟨hne, hnext⟩ := h
  rw [hnext l rfl] at hne ⊢
  exact toNat_add_one (lt_u64Max_of_add_one_ne_zero hne)

/-- Consecutive entries may start a log. -/
theorem sequential_of_linked {last : Option MetadataLogEntry} {es : List MetadataLogEntry}
    (h : Linked IndexFollows last es) : Sequential es := by
  cases es with
  | nil => trivial
  | cons e es => exact ⟨⟨h.1.1, fun l hl => by cases hl⟩, h.2⟩

/-- Indices grow. -/
theorem lt_of_linked {l : MetadataLogEntry} {es : List MetadataLogEntry} (h : Linked IndexFollows (some l) es) :
    ∀ e ∈ es, l.index < e.index := by
  induction es generalizing l with
  | nil => simp
  | cons e es ih =>
    have hle : l.index < e.index := by
      rw [UInt64.lt_iff_toNat_lt, h.1.toNat]
      omega
    intro e' he'
    rcases List.mem_cons.1 he' with rfl | he'
    · exact hle
    · exact UInt64.lt_trans hle (ih h.2 e' he')

/-- Dropping the entries below an index leaves consecutive entries. -/
theorem sequential_filter {es : List MetadataLogEntry} (h : Sequential es) (first : UInt64) :
    Sequential (es.filter fun e => first ≤ e.index) := by
  induction es with
  | nil => trivial
  | cons e es ih =>
    by_cases hfirst : first ≤ e.index
    · -- Nothing after the first kept entry goes.
      have hall : ∀ e' ∈ e :: es, decide (first ≤ e'.index) = true := by
        intro e' he'
        rcases List.mem_cons.1 he' with rfl | he'
        · simpa using hfirst
        · simpa using UInt64.le_of_lt (UInt64.lt_of_le_of_lt hfirst (lt_of_linked h.2 e' he'))
      rw [List.filter_eq_self.2 hall]
      exact h
    · rw [List.filter_cons_of_neg (by simpa using hfirst)]
      exact ih (sequential_of_linked h.2)

/-- The index of the next entry: one more than the last, or 1. -/
def nextLogIndex (entries : List MetadataLogEntry) : UInt64 :=
  match entries.getLast? with
  | none => 1
  | some entry => saturatingSucc entry.index

/-- There is an index left for another entry. -/
def HasRoom (entries : List MetadataLogEntry) : Prop := ∀ e, entries.getLast? = some e → e.index < u64Max

theorem indexFollows_next {es : List MetadataLogEntry} (hroom : HasRoom es) (term : UInt64)
    (snapshot : CoordinationSnapshot) : IndexFollows es.getLast? ⟨term, nextLogIndex es, snapshot⟩ := by
  cases hl : es.getLast? with
  | none => exact ⟨by simp [nextLogIndex, hl], fun l h => by cases h⟩
  | some e =>
    have he := hroom e hl
    have hindex : nextLogIndex es = e.index + 1 := by simp only [nextLogIndex, hl, saturatingSucc, if_pos he]
    refine ⟨fun hzero => ?_, fun l h => ?_⟩
    · have hnat := congrArg UInt64.toNat (hindex.symm.trans hzero)
      rw [toNat_add_one he, UInt64.toNat_zero] at hnat
      omega
    · cases h
      exact hindex

/-- Appending the next entry. -/
theorem sequential_append {es : List MetadataLogEntry} (h : Sequential es) (hroom : HasRoom es) (term : UInt64)
    (snapshot : CoordinationSnapshot) : Sequential (es ++ [⟨term, nextLogIndex es, snapshot⟩]) := by
  rw [Sequential, linked_append]
  refine ⟨h, ?_, trivial⟩
  rw [lastOf_none]
  exact indexFollows_next hroom term snapshot

section

variable {α : Type} {codec : LogCodec} {parse : α → Except String PersistedMetadataLogEntry}

/-- A record that is read follows the one before it. -/
theorem indexFollows_of_lookRecord {last : Option MetadataLogEntry} {item : α} {e : MetadataLogEntry}
    (h : lookRecord codec parse last item = .ok e) : IndexFollows last e := by
  unfold lookRecord at h
  split at h
  · cases h
  · split at h
    · cases h
    · rename_i hindex
      rw [not_or] at hindex
      split at h
      · cases h
      · cases h
        refine ⟨hindex.1, fun l hl => ?_⟩
        have hany := hindex.2
        rw [hl] at hany
        simpa using hany

variable (codec) in
/-- The entry as it is written. -/
def persisted (e : MetadataLogEntry) : PersistedMetadataLogEntry := ⟨e.term, e.index, encodeSnapshot codec e.snapshot⟩

/-- A written entry that follows the one before it is read. -/
theorem lookRecord_persisted {last : Option MetadataLogEntry} {item : α} {e : MetadataLogEntry}
    (hp : parse item = .ok (persisted codec e)) (h : IndexFollows last e) :
    lookRecord codec parse last item = .ok e := by
  have hany : (last.any fun entry => (persisted codec e).index ≠ entry.index + 1) = false := by
    cases last with
    | none => rfl
    | some l => simp [persisted, h.2 l rfl]
  have hzero : (persisted codec e).index ≠ 0 := h.1
  simp only [lookRecord, hp, hzero, hany, Bool.false_eq_true, or_self, if_false]
  simp only [persisted, decodeSnapshot_encodeSnapshot]

/-- What a replay reads is consecutive. -/
theorem sequential_scan {skip : α → Bool} {items : List α} :
    Sequential (scan skip (lookRecord codec parse) none items).entries :=
  scan_linked fun _ _ _ h => indexFollows_of_lookRecord h

end

/-! ## The logs -/

/-- The trait `MetadataLog`: what each call answers and leaves. A poisoned lock is left out, as no call panics while it
holds the lock. -/
structure MetadataLog (σ : Type) where
  appendEntry : σ → UInt64 → CoordinationSnapshot → Except MetadataLogError MetadataLogEntry × σ
  latestEntry : σ → Except MetadataLogError (Option MetadataLogEntry)
  entries : σ → Except MetadataLogError (List MetadataLogEntry)
  clear : σ → Except MetadataLogError Unit × σ
  truncateFrom : σ → UInt64 → Except MetadataLogError Unit × σ

/-- A call on a log. -/
inductive LogCall where
  | appendEntry (term : UInt64) (snapshot : CoordinationSnapshot)
  | latestEntry
  | entries
  | clear
  | truncateFrom (firstIndex : UInt64)
  deriving DecidableEq

/-- What a call answers. -/
inductive LogReply where
  | entry (reply : Except MetadataLogError MetadataLogEntry)
  | latest (reply : Except MetadataLogError (Option MetadataLogEntry))
  | entries (reply : Except MetadataLogError (List MetadataLogEntry))
  | done (reply : Except MetadataLogError Unit)

/-- A call on a log: the reply and the log after it. -/
def MetadataLog.call {σ : Type} (log : MetadataLog σ) (s : σ) : LogCall → LogReply × σ
  | .appendEntry term snapshot => (.entry (log.appendEntry s term snapshot).1, (log.appendEntry s term snapshot).2)
  | .latestEntry => (.latest (log.latestEntry s), s)
  | .entries => (.entries (log.entries s), s)
  | .clear => (.done (log.clear s).1, (log.clear s).2)
  | .truncateFrom firstIndex => (.done (log.truncateFrom s firstIndex).1, (log.truncateFrom s firstIndex).2)

/-- The entries that `truncate_from` keeps: those from the index on. -/
def keptFrom (firstIndex : UInt64) (entries : List MetadataLogEntry) : List MetadataLogEntry :=
  let first := if firstIndex = 0 then 1 else firstIndex
  entries.filter fun entry => first ≤ entry.index

/-- `InMemoryMetadataLog`. -/
def inMemoryMetadataLog : MetadataLog (List MetadataLogEntry) where
  appendEntry entries term snapshot :=
    let entry : MetadataLogEntry := ⟨term, nextLogIndex entries, snapshot⟩
    (.ok entry, entries ++ [entry])
  latestEntry entries := .ok entries.getLast?
  entries entries := .ok entries
  clear _ := (.ok (), [])
  truncateFrom entries firstIndex := (.ok (), keptFrom firstIndex entries)

/-- The call finds an index for its entry. -/
def LogCall.Fits (entries : List MetadataLogEntry) : LogCall → Prop
  | .appendEntry _ _ => HasRoom entries
  | _ => True

/-- The log answers as the in-memory log does while `rel` says which entries it stands for. -/
def RefinesInMemory {σ : Type} (log : MetadataLog σ) (rel : σ → List MetadataLogEntry → Prop) : Prop :=
  ∀ s es c, rel s es → LogCall.Fits es c →
    (log.call s c).1 = (inMemoryMetadataLog.call es c).1 ∧ rel (log.call s c).2 (inMemoryMetadataLog.call es c).2

section

variable {σ : Type} {log : MetadataLog σ} {rel : σ → List MetadataLogEntry → Prop} {s : σ}
  {es : List MetadataLogEntry}

theorem RefinesInMemory.append (h : RefinesInMemory log rel) (hrel : rel s es) (hroom : HasRoom es) (term : UInt64)
    (snapshot : CoordinationSnapshot) :
    ∃ s', log.appendEntry s term snapshot = (.ok ⟨term, nextLogIndex es, snapshot⟩, s') ∧
      rel s' (es ++ [⟨term, nextLogIndex es, snapshot⟩]) := by
  obtain ⟨hreply, hrel'⟩ := h s es (.appendEntry term snapshot) hrel hroom
  exact ⟨_, Prod.ext (LogReply.entry.inj hreply) rfl, hrel'⟩

theorem RefinesInMemory.clear (h : RefinesInMemory log rel) (hrel : rel s es) :
    ∃ s', log.clear s = (.ok (), s') ∧ rel s' [] := by
  obtain ⟨hreply, hrel'⟩ := h s es .clear hrel trivial
  exact ⟨_, Prod.ext (LogReply.done.inj hreply) rfl, hrel'⟩

theorem RefinesInMemory.latestEntry (h : RefinesInMemory log rel) (hrel : rel s es) :
    log.latestEntry s = .ok es.getLast? := LogReply.latest.inj (h s es .latestEntry hrel trivial).1

theorem RefinesInMemory.entries (h : RefinesInMemory log rel) (hrel : rel s es) : log.entries s = .ok es :=
  LogReply.entries.inj (h s es .entries hrel trivial).1

end

theorem inMemory_refines : RefinesInMemory inMemoryMetadataLog Eq := by
  rintro s es c rfl _
  exact ⟨rfl, rfl⟩

end Ganglion
