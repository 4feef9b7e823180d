import Mathlib.Data.List.Sort
import Ganglion.Runtime.FileStore

/-!
# The log has no gaps

openraft appends right after the last log id, truncates above the purge point and purges anywhere below the largest
index (`Allowed`). A store that is called so holds the entries of an interval of indices: from the one after the purge
point, or 0, to the last log id (`Spans`). Appending moves its end up, truncating moves it down, and purging moves its
start up, past the end if need be.

* `Spans.call`: every allowed call leaves an interval.
* `Spans.tryGetLogEntries`: a read gives the entries of the range in the interval, one for each index.
* `log_stays_gapless`: both stores, after any calls the contract allows.
-/

namespace Ganglion

open Std OrdMap

/-! ## Intervals of indices -/

namespace Bound

/-- The least index above a lower bound. -/
def lower : Bound → Nat
  | .included s => s.toNat
  | .excluded s => s.toNat + 1
  | .unbounded => 0

/-- The least index that an upper bound leaves out. -/
def upper : Bound → Nat
  | .included e => e.toNat + 1
  | .excluded e => e.toNat
  | .unbounded => UInt64.size

theorem admitsFrom_iff (b : Bound) (i : UInt64) : b.admitsFrom i ↔ b.lower ≤ i.toNat := by
  cases b with
  | included s => simp [admitsFrom, lower, UInt64.le_iff_toNat_le]
  | excluded s =>
    simp only [admitsFrom, lower, decide_eq_true_eq, UInt64.lt_iff_toNat_lt]
    omega
  | unbounded => simp [admitsFrom, lower]

theorem admitsTo_iff (b : Bound) (i : UInt64) : b.admitsTo i ↔ i.toNat < b.upper := by
  cases b with
  | included e =>
    simp only [admitsTo, upper, decide_eq_true_eq, UInt64.le_iff_toNat_le]
    omega
  | excluded e => simp [admitsTo, upper, UInt64.lt_iff_toNat_lt]
  | unbounded => simpa [admitsTo, upper] using i.toNat_lt_size

end Bound

namespace LogStoreInner

/-- The first index that is not purged. -/
def firstIndex (s : LogStoreInner) : Nat :=
  match s.lastPurgedLogId with
  | none => 0
  | some purged => purged.index.toNat + 1

/-- The index after the last log id. -/
def nextIndex (s : LogStoreInner) : Nat :=
  match s.getLogState.lastLogId with
  | none => 0
  | some last => last.index.toNat + 1

/-- The log holds the indices from the first one that is not purged to `n`, without `n`. -/
structure Spans (s : LogStoreInner) (n : Nat) : Prop where
  mem : ∀ i : UInt64, i ∈ s.log ↔ s.firstIndex ≤ i.toNat ∧ i.toNat < n
  first_le : s.firstIndex ≤ n
  le_size : n ≤ UInt64.size

theorem spans_default : Spans default 0 := by
  refine ⟨fun i => ?_, Nat.le_refl 0, Nat.zero_le _⟩
  constructor
  · intro h
    exact absurd h ExtTreeMap.not_mem_empty
  · rintro ⟨_, h⟩
    omega

/-! ## Reads -/

/-- The entries whose index passes a test, by increasing index. -/
def selected (s : LogStoreInner) (test : UInt64 → Bool) : List Entry :=
  (s.log.toList.filter fun p => test p.1).map Prod.snd

theorem mem_selected {s : LogStoreInner} {test : UInt64 → Bool} {e : Entry} :
    e ∈ s.selected test ↔ s.log[e.logId.index]? = some e ∧ test e.logId.index = true := by
  simp only [selected, List.mem_map, List.mem_filter]
  constructor
  · rintro ⟨⟨i, e⟩, ⟨hmem, ht⟩, rfl⟩
    have hi := ExtTreeMap.mem_toList_iff_getElem?_eq_some.1 hmem
    rw [s.keyed i e hi]
    exact ⟨hi, ht⟩
  · rintro ⟨hi, ht⟩
    exact ⟨(e.logId.index, e), ⟨ExtTreeMap.mem_toList_iff_getElem?_eq_some.2 hi, ht⟩, rfl⟩

theorem pairwise_selected (s : LogStoreInner) (test : UInt64 → Bool) :
    ((s.selected test).map fun e => e.logId.index.toNat).Pairwise (· < ·) := by
  simp only [selected, List.map_map]
  rw [List.pairwise_map, List.pairwise_filter]
  refine ExtTreeMap.ordered_keys_toList.imp_of_mem fun {p q} hp hq hlt _ _ => ?_
  show p.2.logId.index.toNat < q.2.logId.index.toNat
  rw [s.keyed p.1 p.2 (ExtTreeMap.mem_toList_iff_getElem?_eq_some.1 hp),
    s.keyed q.1 q.2 (ExtTreeMap.mem_toList_iff_getElem?_eq_some.1 hq)]
  exact UInt64.lt_iff_toNat_lt.1 (compare_lt_iff.1 hlt)

/-- A test that selects an interval of indices selects one entry for each index of it that is stored. -/
theorem Spans.selected_eq {s : LogStoreInner} {n lo hi : Nat} (h : s.Spans n) {test : UInt64 → Bool}
    (ht : ∀ i, test i = true ↔ lo ≤ i.toNat ∧ i.toNat < hi) :
    ((s.selected test).map fun e => e.logId.index.toNat) =
      List.range' (max s.firstIndex lo) (min n hi - max s.firstIndex lo) := by
  refine (s.pairwise_selected test).eq_of_mem_iff List.pairwise_lt_range' fun k => ?_
  rw [List.mem_range'_1, List.mem_map]
  constructor
  · rintro ⟨e, he, rfl⟩
    obtain ⟨hs, hte⟩ := mem_selected.1 he
    have hin := (h.mem e.logId.index).1 (ExtTreeMap.mem_iff_isSome_getElem?.2 (by simp [hs]))
    have := (ht _).1 hte
    omega
  · intro hk
    have hk' : (UInt64.ofNat k).toNat = k := by
      rw [UInt64.toNat_ofNat_of_lt']
      have := h.le_size
      omega
    have hmem : UInt64.ofNat k ∈ s.log := (h.mem _).2 (by rw [hk']; omega)
    obtain ⟨e, he⟩ := Option.isSome_iff_exists.1 (ExtTreeMap.mem_iff_isSome_getElem?.1 hmem)
    have hidx := s.keyed _ e he
    refine ⟨e, mem_selected.2 ⟨by rw [hidx]; exact he, (ht _).2 (by rw [hidx, hk']; omega)⟩, ?_⟩
    rw [hidx, hk']

/-- **A read of the interval**: one entry for each index of the range that is stored. -/
theorem Spans.tryGetLogEntries {s : LogStoreInner} {n : Nat} (h : s.Spans n) {start stop : Bound}
    (hp : Bound.panics start stop = false) :
    ∃ es, s.tryGetLogEntries start stop = some es ∧ (∀ e ∈ es, s.log[e.logId.index]? = some e) ∧
      es.map (fun e => e.logId.index.toNat) =
        List.range' (max s.firstIndex start.lower) (min n stop.upper - max s.firstIndex start.lower) := by
  refine ⟨s.selected fun i => start.admitsFrom i && stop.admitsTo i, ?_, fun e he => (mem_selected.1 he).1, ?_⟩
  · rw [LogStoreInner.tryGetLogEntries, hp]
    rfl
  · refine h.selected_eq fun i => ?_
    rw [Bool.and_eq_true, Bound.admitsFrom_iff, Bound.admitsTo_iff]

theorem values_eq_selected (s : LogStoreInner) : values s.log = s.selected fun _ => true := by
  rw [selected, List.filter_true]
  rfl

/-- The interval ends at the last log id. -/
theorem Spans.nextIndex_eq {s : LogStoreInner} {n : Nat} (h : s.Spans n) : s.nextIndex = n := by
  have hall := @Spans.selected_eq s n 0 UInt64.size h (fun _ => true) fun i => by simpa using i.toNat_lt_size
  rw [← values_eq_selected, Nat.max_zero, Nat.min_eq_left h.le_size] at hall
  have hlast := congrArg List.getLast? hall
  rw [List.getLast?_map, List.getLast?_range'] at hlast
  have hfirst := h.first_le
  simp only [nextIndex, getLogState]
  cases hv : (values s.log).getLast? with
  | some e =>
    rw [hv] at hlast
    split at hlast
    · cases hlast
    · simp only [Option.map_some, Option.some.injEq] at hlast
      simp only [Option.map_some, Option.some_or, hlast]
      omega
  | none =>
    -- The log is empty: the purge point is all there is.
    rw [hv] at hlast
    split at hlast
    · simp only [Option.map_none, Option.none_or]
      cases hp : s.lastPurgedLogId with
      | none =>
        simp only [firstIndex, hp] at *
        omega
      | some p =>
        simp only [firstIndex, hp] at *
        omega
    · cases hlast

/-! ## The calls -/

/-- What openraft may call: append the entries right after the last log id, truncate above the purge point, purge
below the largest index. -/
def Allowed (s : LogStoreInner) : LogOp → Prop
  | .saveVote _ => True
  | .append entries =>
    entries.map (fun e => e.logId.index.toNat) = List.range' s.nextIndex entries.length
  | .truncate logId => s.Above logId.index
  | .purge logId => logId.index < u64Max

instance (s : LogStoreInner) (i : UInt64) : Decidable (s.Above i) :=
  decidable_of_iff (s.lastPurgedLogId.all fun p => p.index < i) (by cases h : s.lastPurgedLogId <;> simp [Above, h])

instance (s : LogStoreInner) : (op : LogOp) → Decidable (s.Allowed op)
  | .saveVote _ => isTrue trivial
  | .append entries =>
    inferInstanceAs <| Decidable
      (entries.map (fun e => e.logId.index.toNat) = List.range' s.nextIndex entries.length)
  | .truncate logId => inferInstanceAs <| Decidable (s.Above logId.index)
  | .purge logId => inferInstanceAs <| Decidable (logId.index < u64Max)

/-- Each call is allowed where it is made. -/
def Contract : LogStoreInner → List LogOp → Prop
  | _, [] => True
  | s, op :: ops => s.Allowed op ∧ Contract (GanglionLogStore.call s op) ops

instance : (s : LogStoreInner) → (ops : List LogOp) → Decidable (s.Contract ops)
  | _, [] => isTrue trivial
  | s, op :: ops =>
    have : Decidable (Contract (GanglionLogStore.call s op) ops) := instDecidableContract _ ops
    inferInstanceAs <| Decidable (s.Allowed op ∧ Contract (GanglionLogStore.call s op) ops)

theorem firstIndex_le_iff_above {s : LogStoreInner} {i : UInt64} : s.firstIndex ≤ i.toNat ↔ s.Above i := by
  cases hp : s.lastPurgedLogId with
  | none => simp [firstIndex, Above, hp]
  | some p =>
    simp only [firstIndex, Above, hp, Option.some.injEq, forall_eq', UInt64.lt_iff_toNat_lt]
    omega

/-- Appending at the end. -/
theorem Spans.insertEntry {s : LogStoreInner} {n : Nat} (h : s.Spans n) {e : Entry} (he : e.logId.index.toNat = n) :
    (s.insertEntry e).Spans (n + 1) := by
  have hfirst : (s.insertEntry e).firstIndex = s.firstIndex := rfl
  have hsize := e.logId.index.toNat_lt_size
  refine ⟨fun i => ?_, by rw [hfirst]; have := h.first_le; omega, by omega⟩
  rw [hfirst, ExtTreeMap.mem_iff_isSome_getElem?, getElem?_insertEntry]
  have hmem := h.mem i
  rw [ExtTreeMap.mem_iff_isSome_getElem?] at hmem
  have hle := h.first_le
  split
  · rename_i hi
    rw [← hi, he]
    simp only [Option.isSome_some, true_iff]
    omega
  · rename_i hi
    have hne : i.toNat ≠ n := by
      rw [← he]
      intro hc
      exact hi (UInt64.toNat_inj.1 hc).symm
    rw [hmem]
    omega

/-- Appending consecutive entries. -/
theorem Spans.append {s : LogStoreInner} {n : Nat} (h : s.Spans n) {es : List Entry}
    (hes : es.map (fun e => e.logId.index.toNat) = List.range' n es.length) :
    (GanglionLogStore.append s es).Spans (n + es.length) := by
  induction es generalizing s n with
  | nil => exact h
  | cons e es ih =>
    rw [List.length_cons, List.range'_succ, List.map_cons, List.cons.injEq] at hes
    have hnext := ih (h.insertEntry hes.1) hes.2
    rw [Nat.add_assoc, Nat.add_comm 1] at hnext
    exact hnext

/-- Truncating above the purge point moves the end down. -/
theorem Spans.truncateFrom {s : LogStoreInner} {n : Nat} (h : s.Spans n) {since : UInt64} (ha : s.Above since) :
    (s.truncateFrom since).Spans (min n since.toNat) := by
  have hfirst : (s.truncateFrom since).firstIndex = s.firstIndex := rfl
  have hle := h.first_le
  have hsince := firstIndex_le_iff_above.2 ha
  refine ⟨fun i => ?_, by rw [hfirst]; omega, by have := h.le_size; omega⟩
  have hmem := h.mem i
  rw [ExtTreeMap.mem_iff_isSome_getElem?] at hmem
  rw [hfirst, ExtTreeMap.mem_iff_isSome_getElem?, getElem?_truncateFrom]
  split
  · rename_i hi
    rw [UInt64.lt_iff_toNat_lt] at hi
    rw [hmem]
    omega
  · rename_i hi
    rw [UInt64.lt_iff_toNat_lt] at hi
    simp only [Option.isSome_none, Bool.false_eq_true, false_iff]
    omega

/-- The first index after a purge: past the purged one, if it was not before. -/
theorem firstIndex_purgeTo (s : LogStoreInner) (upto : LogId) :
    (s.purgeTo upto).firstIndex = max s.firstIndex (upto.index.toNat + 1) := by
  rcases s.purgeTo_lastPurgedLogId upto with ⟨ha, hp⟩ | ⟨p, hs, hle, hp⟩
  · have hfirst := firstIndex_le_iff_above.2 ha
    simp only [firstIndex, hp] at hfirst ⊢
    omega
  · rw [UInt64.le_iff_toNat_le] at hle
    simp only [firstIndex, hp, hs]
    omega

/-- Purging moves the start up, and the end with it when it lies beyond. -/
theorem Spans.purgeTo {s : LogStoreInner} {n : Nat} (h : s.Spans n) {upto : LogId} (hu : upto.index < u64Max) :
    (s.purgeTo upto).Spans (max n (upto.index.toNat + 1)) := by
  have hle := h.first_le
  have hsize := h.le_size
  have hmax := lt_u64Max_iff.1 hu
  refine ⟨fun i => ?_, by rw [firstIndex_purgeTo]; omega, by omega⟩
  have hmem := h.mem i
  rw [ExtTreeMap.mem_iff_isSome_getElem?] at hmem
  rw [firstIndex_purgeTo, ExtTreeMap.mem_iff_isSome_getElem?, getElem?_purgeTo]
  split
  · rename_i hi
    rw [lt_add_one_iff hu, UInt64.le_iff_toNat_le] at hi
    simp only [Option.isSome_none, Bool.false_eq_true, false_iff]
    omega
  · rename_i hi
    rw [lt_add_one_iff hu, UInt64.le_iff_toNat_le] at hi
    rw [hmem]
    omega

/-- **An allowed call leaves an interval.** -/
theorem Spans.call {s : LogStoreInner} {n : Nat} (h : s.Spans n) {op : LogOp} (ha : s.Allowed op) :
    ∃ m, (GanglionLogStore.call s op).Spans m := by
  cases op with
  | saveVote vote => exact ⟨n, h.mem, h.first_le, h.le_size⟩
  | append entries =>
    rw [Allowed, h.nextIndex_eq] at ha
    exact ⟨_, h.append ha⟩
  | truncate logId => exact ⟨_, h.truncateFrom ha⟩
  | purge logId => exact ⟨_, h.purgeTo ha⟩

theorem Spans.calls {s : LogStoreInner} {n : Nat} (h : s.Spans n) {ops : List LogOp} (hc : s.Contract ops) :
    ∃ m, (ops.foldl GanglionLogStore.call s).Spans m := by
  induction ops generalizing s n with
  | nil => exact ⟨n, h⟩
  | cons op ops ih =>
    obtain ⟨ha, hc⟩ := hc
    obtain ⟨m, hm⟩ := h.call ha
    exact ih hm hc

/-- The purge point of `s` is not ahead of the one of `t`. -/
def PurgedUpTo (s t : LogStoreInner) : Prop :=
  ∀ p, s.lastPurgedLogId = some p → ∃ q, t.lastPurgedLogId = some q ∧ p.index ≤ q.index

theorem purgedUpTo_call (s : LogStoreInner) (op : LogOp) : PurgedUpTo s (GanglionLogStore.call s op) := by
  intro p hp
  cases op with
  | saveVote vote => exact ⟨p, hp, UInt64.le_refl _⟩
  | append entries => exact ⟨p, by rw [GanglionLogStore.call, append_lastPurgedLogId, hp], UInt64.le_refl _⟩
  | truncate logId => exact ⟨p, hp, UInt64.le_refl _⟩
  | purge logId =>
    rcases s.purgeTo_lastPurgedLogId logId with ⟨ha, hq⟩ | ⟨q, hs, _, hq⟩
    · exact ⟨logId, hq, UInt64.le_of_lt (ha p hp)⟩
    · rw [hp] at hs
      cases hs
      exact ⟨p, hq, UInt64.le_refl _⟩

theorem purgedUpTo_calls (s : LogStoreInner) (ops : List LogOp) :
    PurgedUpTo s (ops.foldl GanglionLogStore.call s) := by
  induction ops generalizing s with
  | nil => exact fun p hp => ⟨p, hp, UInt64.le_refl _⟩
  | cons op ops ih =>
    intro p hp
    obtain ⟨q, hq, hpq⟩ := s.purgedUpTo_call op p hp
    obtain ⟨r, hr, hqr⟩ := ih _ q hq
    exact ⟨r, hr, UInt64.le_trans hpq hqr⟩

/-! ## No gaps -/

/-- What readers see of a log without gaps: the indices are those from the first one that is not purged to the last log
id, the last log id is not behind the purge point, and a read on a range that is not inverted has the entries of the
range within the interval, ascending, one for each index. -/
structure Gapless (s : LogStoreInner) : Prop where
  indices : ∀ i : UInt64, i ∈ s.log ↔ s.firstIndex ≤ i.toNat ∧ i.toNat < s.nextIndex
  last_not_behind : ∀ purged, s.getLogState.lastPurgedLogId = some purged →
    ∃ last, s.getLogState.lastLogId = some last ∧ purged.index ≤ last.index
  reads : ∀ start stop, Bound.panics start stop = false →
    ∃ es, s.tryGetLogEntries start stop = some es ∧ (∀ e ∈ es, s.log[e.logId.index]? = some e) ∧
      es.map (fun e => e.logId.index.toNat) = List.range' (max s.firstIndex start.lower)
        (min s.nextIndex stop.upper - max s.firstIndex start.lower)

theorem Spans.gapless {s : LogStoreInner} {n : Nat} (h : s.Spans n) : s.Gapless := by
  have hn := h.nextIndex_eq
  refine ⟨by rw [hn]; exact h.mem, fun purged hp => ?_, fun start stop => by rw [hn]; exact h.tryGetLogEntries⟩
  have hle := h.first_le
  replace hp : s.lastPurgedLogId = some purged := hp
  rw [← hn] at hle
  simp only [firstIndex, nextIndex, hp] at hle
  cases hl : s.getLogState.lastLogId with
  | none =>
    rw [hl] at hle
    simp at hle
  | some last =>
    rw [hl] at hle
    refine ⟨last, rfl, UInt64.le_iff_toNat_le.2 ?_⟩
    simpa using hle

end LogStoreInner

open LogStoreInner in
/-- **The raft log stays gapless.** After any calls that openraft's contract allows, and reopens of the file store
between them, the log of either store has no gaps, and its purge point is not behind the one at any earlier moment. -/
theorem log_stays_gapless (codec : WalCodec) (before after : List WalEvent)
    (hc : Contract .default (WalEvent.calls (before ++ after))) :
    let earlier := (WalEvent.calls before).foldl GanglionLogStore.call .default
    let inner := (WalEvent.calls (before ++ after)).foldl GanglionLogStore.call .default
    (Gapless inner ∧ PurgedUpTo earlier inner) ∧
      ∃ store₀ store, FileRaftLogStore.run codec before = .ok store₀ ∧
        FileRaftLogStore.run codec (before ++ after) = .ok store ∧ Gapless store.state ∧
        PurgedUpTo store₀.state store.state := by
  intro earlier inner
  obtain ⟨n, hn⟩ := spans_default.calls hc
  have hpurged : PurgedUpTo earlier inner := by
    show PurgedUpTo earlier ((WalEvent.calls (before ++ after)).foldl _ _)
    rw [WalEvent.calls, List.filterMap_append, List.foldl_append]
    exact purgedUpTo_calls _ _
  obtain ⟨store₀, hrun₀, _, hs₀⟩ := @FileRaftLogStore.durable_run codec before
  obtain ⟨store, hrun, _, hs⟩ := @FileRaftLogStore.durable_run codec (before ++ after)
  refine ⟨⟨hn.gapless, hpurged⟩, store₀, store, hrun₀, hrun, ?_, ?_⟩
  · rw [hs]
    exact hn.gapless
  · rw [hs₀, hs]
    exact hpurged

/-- Three entries, a purge beyond the end and an append after it. -/
def purgedBeyond : List WalEvent :=
  [.call (.append [⟨⟨⟨1, 0⟩, 0⟩, .blank⟩, ⟨⟨⟨1, 0⟩, 1⟩, .blank⟩, ⟨⟨⟨1, 0⟩, 2⟩, .blank⟩]),
    .call (.truncate ⟨⟨1, 0⟩, 2⟩), .call (.purge ⟨⟨1, 0⟩, 4⟩), .reopen]

/-- The log starts after the purge point and is read from there. -/
theorem log_stays_gapless_purgedBeyond :
    ∃ store, FileRaftLogStore.run serdeWal
        (purgedBeyond ++ [.call (.append [⟨⟨⟨1, 0⟩, 5⟩, .blank⟩]), .call (.purge ⟨⟨1, 0⟩, 3⟩)]) = .ok store ∧
      (∀ i : UInt64, i ∈ store.state.log ↔ store.state.firstIndex ≤ i.toNat ∧ i.toNat < store.state.nextIndex) := by
  obtain ⟨_, _, store, _, hrun, hg, _⟩ := log_stays_gapless serdeWal purgedBeyond
    [.call (.append [⟨⟨⟨1, 0⟩, 5⟩, .blank⟩]), .call (.purge ⟨⟨1, 0⟩, 3⟩)]
    (by decide +kernel)
  exact ⟨store, hrun, hg.indices⟩

/-- `BTreeMap::range` panics on an inverted range: the read of a log that the contract allows gives nothing. -/
theorem inverted_range_panics :
    let ops : List LogOp := [.append [⟨⟨⟨1, 0⟩, 0⟩, .blank⟩, ⟨⟨⟨1, 0⟩, 1⟩, .blank⟩]]
    LogStoreInner.Contract .default ops ∧
      (ops.foldl GanglionLogStore.call .default).tryGetLogEntries (.included 1) (.excluded 0) = none :=
  by decide +kernel

end Ganglion
