import Ganglion.Runtime.Raft

/-!
# The log stores

What both raft log stores keep in memory: vote, log and purge point (`LogStoreInner` and `DurableState` of the source
are the same record), with the reads and the four updates. Each update is written several times in the source, under the
same rules; it is one function here, and `GanglionLogStore::call` and `applyRecord` name it for each place.

The log is a map from index to entry, and every write files an entry under its own index: the field `keyed` says so.
-/

namespace Ganglion

open Std OrdMap

/-! ## The state of a store -/

/-- `LogStoreInner`, and `DurableState` of the file store. -/
@[ext] structure LogStoreInner where
  vote : Option Vote
  log : BTreeMap UInt64 Entry
  lastPurgedLogId : Option LogId
  /-- An entry is filed under its index. -/
  keyed : ∀ (i : UInt64) (e : Entry), log[i]? = some e → e.logId.index = i

/-- What `get_log_state` answers. -/
structure LogState where
  lastPurgedLogId : Option LogId
  lastLogId : Option LogId
  deriving DecidableEq

/-- `std::ops::Bound<u64>`. -/
inductive Bound where
  | included (i : UInt64)
  | excluded (i : UInt64)
  | unbounded
  deriving DecidableEq

namespace Bound

/-- Whether `BTreeMap::range` panics on the bounds. -/
def panics : Bound → Bound → Bool
  | .excluded s, .excluded e => e ≤ s
  | .included s, .included e | .included s, .excluded e | .excluded s, .included e => e < s
  | _, _ => false

/-- The index is above the lower bound. -/
def admitsFrom : Bound → UInt64 → Bool
  | .included s, i => s ≤ i
  | .excluded s, i => s < i
  | .unbounded, _ => true

/-- The index is below the upper bound. -/
def admitsTo : Bound → UInt64 → Bool
  | .included e, i => i ≤ e
  | .excluded e, i => i < e
  | .unbounded, _ => true

end Bound

theorem compare_lt_iff {a b : UInt64} : compare a b = .lt ↔ a < b := by
  simp only [compare, compareOfLessAndEq]
  split
  · simpa
  · rename_i hlt
    split <;> simp [hlt]

namespace LogStoreInner

/-- `LogStoreInner::default`. -/
def default : LogStoreInner where
  vote := none
  log := ∅
  lastPurgedLogId := none
  keyed i e h := by simp at h

/-- `vote = Some(v)`. -/
def setVote (s : LogStoreInner) (v : Vote) : LogStoreInner := { s with vote := some v }

/-- `log.insert(entry.log_id.index, entry)`. -/
def insertEntry (s : LogStoreInner) (entry : Entry) : LogStoreInner where
  vote := s.vote
  log := s.log.insert entry.logId.index entry
  lastPurgedLogId := s.lastPurgedLogId
  keyed i e h := by
    rw [ExtTreeMap.getElem?_insert] at h
    split at h
    · rename_i hc
      rw [← LawfulEqCmp.eq_of_compare hc, ← Option.some.inj h]
    · exact s.keyed i e h

/-- `log.split_off(&since)`: entries strictly before `since` stay. -/
def truncateFrom (s : LogStoreInner) (since : UInt64) : LogStoreInner where
  vote := s.vote
  log := (splitOff s.log since).1
  lastPurgedLogId := s.lastPurgedLogId
  keyed i e h := by
    rw [splitOff_fst, getElem?_kept] at h
    split at h
    · exact s.keyed i e h
    · cases h

/-- The purge of both stores and of a `Purge` record: the purge point never moves backwards, and entries up to `upto`
go. -/
def purgeTo (s : LogStoreInner) (upto : LogId) : LogStoreInner where
  vote := s.vote
  log := (splitOff s.log (upto.index + 1)).2
  lastPurgedLogId :=
    if s.lastPurgedLogId.all fun purged => upto.index > purged.index then some upto else s.lastPurgedLogId
  keyed i e h := by
    rw [splitOff_snd, getElem?_cut] at h
    split at h
    · cases h
    · exact s.keyed i e h

/-- `read_vote`. -/
def readVote (s : LogStoreInner) : Option Vote := s.vote

/-- `get_log_state`. -/
def getLogState (s : LogStoreInner) : LogState where
  lastPurgedLogId := s.lastPurgedLogId
  lastLogId := ((values s.log).getLast?.map (·.logId)).or s.lastPurgedLogId

/-- `try_get_log_entries`; `none` is the panic of `BTreeMap::range`. -/
def tryGetLogEntries (s : LogStoreInner) (start stop : Bound) : Option (List Entry) :=
  if Bound.panics start stop then none
  else some ((s.log.toList.filter fun p => start.admitsFrom p.1 && stop.admitsTo p.1).map Prod.snd)

/-! ## Lookups -/

theorem getElem?_insertEntry (s : LogStoreInner) (e : Entry) (i : UInt64) :
    (s.insertEntry e).log[i]? = if e.logId.index = i then some e else s.log[i]? := by
  simp [insertEntry, ExtTreeMap.getElem?_insert]

theorem getElem?_truncateFrom (s : LogStoreInner) (since i : UInt64) :
    (s.truncateFrom since).log[i]? = if i < since then s.log[i]? else none := by
  simp only [truncateFrom, splitOff_fst, getElem?_kept, compare_lt_iff]

theorem getElem?_purgeTo (s : LogStoreInner) (upto : LogId) (i : UInt64) :
    (s.purgeTo upto).log[i]? = if i < upto.index + 1 then none else s.log[i]? := by
  simp only [purgeTo, splitOff_snd, getElem?_cut, compare_lt_iff]

/-- Below the largest index the addition in a purge does not wrap. -/
theorem lt_add_one_iff {i j : UInt64} (h : j < u64Max) : i < j + 1 ↔ i ≤ j := by
  rw [UInt64.lt_iff_toNat_lt, toNat_add_one h, UInt64.le_iff_toNat_le]
  omega

/-- A purge keeps what is above its index. -/
theorem getElem?_purgeTo_of_lt {s : LogStoreInner} {upto : LogId} {i : UInt64} (h : upto.index < i) :
    (s.purgeTo upto).log[i]? = s.log[i]? := by
  have hmax : upto.index < u64Max := by
    rw [lt_u64Max_iff]
    have := UInt64.lt_iff_toNat_lt.1 h
    have := i.toNat_lt_size
    omega
  rw [getElem?_purgeTo, if_neg]
  rw [lt_add_one_iff hmax]
  exact UInt64.not_le.2 h

/-- The index is above the purge point. -/
def Above (s : LogStoreInner) (i : UInt64) : Prop := ∀ p, s.lastPurgedLogId = some p → p.index < i

/-- The purge point after a purge. -/
theorem purgeTo_lastPurgedLogId (s : LogStoreInner) (upto : LogId) :
    (s.Above upto.index ∧ (s.purgeTo upto).lastPurgedLogId = some upto) ∨
      (∃ p, s.lastPurgedLogId = some p ∧ upto.index ≤ p.index ∧ (s.purgeTo upto).lastPurgedLogId = some p) := by
  cases hp : s.lastPurgedLogId with
  | none => exact Or.inl ⟨by simp [Above, hp], by simp [purgeTo, hp]⟩
  | some p =>
    by_cases hlt : p.index < upto.index
    · exact Or.inl ⟨by simpa [Above, hp] using hlt, by simp [purgeTo, hp, hlt]⟩
    · exact Or.inr ⟨p, rfl, UInt64.not_lt.1 hlt, by simp [purgeTo, hp, hlt]⟩

end LogStoreInner

/-! ## The operations -/

/-- The calls of `RaftLogStorage` that write. -/
inductive LogOp where
  | saveVote (vote : Vote)
  | append (entries : List Entry)
  | truncate (logId : LogId)
  | purge (logId : LogId)
  deriving DecidableEq

namespace GanglionLogStore

/-- `save_vote` of the in-memory store. -/
def saveVote (inner : LogStoreInner) (vote : Vote) : LogStoreInner := inner.setVote vote

/-- `append` of the in-memory store. -/
def append (inner : LogStoreInner) (entries : List Entry) : LogStoreInner := entries.foldl .insertEntry inner

/-- `truncate` of the in-memory store. -/
def truncate (inner : LogStoreInner) (logId : LogId) : LogStoreInner := inner.truncateFrom logId.index

/-- `purge` of the in-memory store. -/
def purge (inner : LogStoreInner) (logId : LogId) : LogStoreInner := inner.purgeTo logId

/-- A call on the in-memory store. -/
def call (inner : LogStoreInner) : LogOp → LogStoreInner
  | .saveVote vote => saveVote inner vote
  | .append entries => append inner entries
  | .truncate logId => truncate inner logId
  | .purge logId => purge inner logId

end GanglionLogStore

/-! ## Records -/

/-- `WalRecord`. -/
inductive WalRecord where
  | vote (vote : Vote)
  | entry (entry : Entry)
  /-- Remove entries with `index >= since`. -/
  | truncate (since : UInt64)
  /-- Remove entries with `index <= upto.index` and remember the purge point. -/
  | purge (upto : LogId)
  deriving DecidableEq

namespace LogStoreInner

/-- `DurableState::apply_record`. -/
def applyRecord (s : LogStoreInner) : WalRecord → LogStoreInner
  | .vote vote => s.setVote vote
  | .entry entry => s.insertEntry entry
  | .truncate since => s.truncateFrom since
  | .purge upto => s.purgeTo upto

/-- Replaying records. -/
def applyRecords (s : LogStoreInner) (rs : List WalRecord) : LogStoreInner := rs.foldl applyRecord s

@[simp] theorem applyRecords_nil (s : LogStoreInner) : s.applyRecords [] = s := rfl

@[simp] theorem applyRecords_append (s : LogStoreInner) (rs rs' : List WalRecord) :
    s.applyRecords (rs ++ rs') = (s.applyRecords rs).applyRecords rs' := List.foldl_append

theorem applyRecords_entries (s : LogStoreInner) (es : List Entry) :
    s.applyRecords (es.map .entry) = GanglionLogStore.append s es := by
  simp only [applyRecords, List.foldl_map, GanglionLogStore.append]
  rfl

end LogStoreInner

/-- The records a call appends to a WAL. A purge appends none: it rewrites the file. -/
def LogOp.records : LogOp → List WalRecord
  | .saveVote vote => [.vote vote]
  | .append entries => entries.map .entry
  | .truncate logId => [.truncate logId.index]
  | .purge _ => []

/-- The operations other than purge. -/
def LogOp.appends : LogOp → Bool
  | .purge _ => false
  | _ => true

/-- Replaying the records of a call does what the call does. -/
theorem applyRecords_records {op : LogOp} (h : op.appends) (s : LogStoreInner) :
    s.applyRecords op.records = GanglionLogStore.call s op := by
  cases op with
  | saveVote vote => rfl
  | append entries => exact s.applyRecords_entries entries
  | truncate logId => rfl
  | purge logId => cases h

end Ganglion
