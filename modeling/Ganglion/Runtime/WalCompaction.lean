import Ganglion.Runtime.FileStore

/-!
# Failed compactions

A purge updates the state in memory and then rewrites the WAL; when the rewrite fails, memory stays ahead of the file
(`Lags`). As long as no rewrite fails after its rename, whatever is acknowledged later reaches the file at the path, and
the reopened state with the purge point of the memory is the state in memory (`failed_compaction_keeps_acknowledged`).
A rewrite that fails after its rename leaves the writer on the replaced file, and acknowledged records are lost
(`renamed_compaction_loses_vote`).
-/

namespace Ganglion

namespace LogStoreInner

/-! ## A state behind another one -/

/-- The state on disk is the one in memory, but for purges that have not reached it. -/
structure Lags (disk mem : LogStoreInner) : Prop where
  vote : disk.vote = mem.vote
  purged : disk.lastPurgedLogId = mem.lastPurgedLogId ∨
    ∃ p, mem.lastPurgedLogId = some p ∧ disk.Above p.index
  present : ∀ (i : UInt64) (e : Entry), mem.log[i]? = some e → disk.log[i]? = some e
  agree : ∀ i, mem.Above i → disk.log[i]? = mem.log[i]?

/-- Applying the purge point of `mem`. -/
def purgedLike (disk mem : LogStoreInner) : LogStoreInner :=
  match mem.lastPurgedLogId with
  | none => disk
  | some p => disk.purgeTo p

/-- The log lies above the purge point, and the purge point has a successor. -/
structure Settled (s : LogStoreInner) : Prop where
  above : ∀ (i : UInt64) (e : Entry), s.log[i]? = some e → s.Above i
  bounded : ∀ p, s.lastPurgedLogId = some p → p.index < u64Max

variable {disk mem : LogStoreInner}

theorem Lags.refl (s : LogStoreInner) : Lags s s := ⟨rfl, Or.inl rfl, fun _ _ h => h, fun _ _ => rfl⟩

/-- A record that is no purge reaches both. -/
theorem Lags.applyRecord (h : Lags disk mem) {r : WalRecord} (hr : ∀ p, r ≠ .purge p) :
    Lags (disk.applyRecord r) (mem.applyRecord r) := by
  obtain ⟨hvote, hpurged, hpresent, hagree⟩ := h
  cases r with
  | vote v => exact ⟨rfl, hpurged, hpresent, hagree⟩
  | entry e =>
    refine ⟨hvote, hpurged, fun i x hx => ?_, fun i hi => ?_⟩
    · simp only [LogStoreInner.applyRecord, getElem?_insertEntry] at hx ⊢
      split
      · rename_i he
        simpa [he] using hx
      · rename_i he
        exact hpresent i x (by simpa [he] using hx)
    · simp only [LogStoreInner.applyRecord, getElem?_insertEntry, hagree i hi]
  | truncate since =>
    refine ⟨hvote, hpurged, fun i x hx => ?_, fun i hi => ?_⟩
    · simp only [LogStoreInner.applyRecord, getElem?_truncateFrom] at hx ⊢
      split at hx
      · rename_i hlt
        rw [if_pos hlt, hpresent i x hx]
      · cases hx
    · simp only [LogStoreInner.applyRecord, getElem?_truncateFrom, hagree i hi]
  | purge p => exact absurd rfl (hr p)

/-- What a purge leaves above the new purge point. -/
theorem getElem?_purgeTo_of_above {s : LogStoreInner} {upto : LogId} {i : UInt64} (h : (s.purgeTo upto).Above i) :
    s.Above i ∧ (s.purgeTo upto).log[i]? = s.log[i]? := by
  have hi : upto.index < i ∧ s.Above i := by
    rcases purgeTo_lastPurgedLogId s upto with ⟨ha, hp⟩ | ⟨p, hs, hle, hp⟩
    · have hlt := h upto hp
      exact ⟨hlt, fun q hq => UInt64.lt_trans (ha q hq) hlt⟩
    · have hlt := h p hp
      refine ⟨UInt64.lt_of_le_of_lt hle hlt, fun q hq => ?_⟩
      rw [hs] at hq
      exact Option.some.inj hq ▸ hlt
  exact ⟨hi.2, getElem?_purgeTo_of_lt hi.1⟩

/-- A purge that stays in memory. -/
theorem Lags.purgeTo (h : Lags disk mem) (upto : LogId) : Lags disk (mem.purgeTo upto) where
  vote := h.vote
  purged := by
    rcases purgeTo_lastPurgedLogId mem upto with ⟨ha, hp⟩ | ⟨p, hs, _, hp⟩
    · refine Or.inr ⟨upto, hp, fun q hq => ?_⟩
      rcases h.purged with heq | ⟨p, hm, hd⟩
      · exact ha q (heq ▸ hq)
      · exact UInt64.lt_trans (hd q hq) (ha p hm)
    · rw [hp, ← hs]
      exact h.purged
  present i e he := by
    rw [getElem?_purgeTo] at he
    split at he
    · cases he
    · exact h.present i e he
  agree i hi := by
    obtain ⟨ha, hlog⟩ := getElem?_purgeTo_of_above hi
    rw [hlog, h.agree i ha]

/-- With the purge point of the memory, a state that lags is the one in memory. -/
theorem Lags.purgedLike_eq (h : Lags disk mem) (hm : mem.Settled) : disk.purgedLike mem = mem := by
  unfold purgedLike
  cases hp : mem.lastPurgedLogId with
  | none =>
    have hall : ∀ i, mem.Above i := fun i p hp' => by rw [hp] at hp'; cases hp'
    apply LogStoreInner.ext
    · exact h.vote
    · exact Std.ExtTreeMap.ext_getElem? fun i => h.agree i (hall i)
    · rcases h.purged with heq | ⟨p, hp', _⟩
      · exact heq
      · rw [hp] at hp'
        cases hp'
  | some p =>
    apply LogStoreInner.ext
    · exact h.vote
    · apply Std.ExtTreeMap.ext_getElem?
      intro i
      simp only [getElem?_purgeTo, lt_add_one_iff (hm.bounded p hp)]
      split
      · rename_i hle
        cases hi : mem.log[i]? with
        | none => rfl
        | some e => exact absurd (hm.above i e hi p hp) (UInt64.not_lt.2 hle)
      · rename_i hlt
        refine h.agree i fun q hq => ?_
        rw [hp] at hq
        exact Option.some.inj hq ▸ UInt64.not_le.1 hlt
    · rcases purgeTo_lastPurgedLogId disk p with ⟨_, hd⟩ | ⟨q, hd, hle, hq⟩
      · rw [hd, hp]
      · rw [hq]
        rcases h.purged with heq | ⟨p', hp', ha⟩
        · rw [← heq, hd]
        · rw [hp] at hp'
          cases hp'
          exact absurd (ha q hd) (UInt64.not_lt.2 hle)

/-- It is the one in memory exactly when the log in memory lies above its purge point. -/
theorem Lags.purgedLike_eq_iff (h : Lags disk mem) (hb : ∀ p, mem.lastPurgedLogId = some p → p.index < u64Max) :
    disk.purgedLike mem = mem ↔ ∀ (i : UInt64) (e : Entry), mem.log[i]? = some e → mem.Above i := by
  constructor
  · intro heq i e he p hp
    have hpurged : disk.purgedLike mem = disk.purgeTo p := by simp only [purgedLike, hp]
    have hlog : (disk.purgeTo p).log[i]? = some e := by rw [← hpurged, heq, he]
    simp only [getElem?_purgeTo, lt_add_one_iff (hb p hp)] at hlog
    split at hlog
    · cases hlog
    · exact UInt64.not_le.1 ‹_›
  · intro habove
    exact h.purgedLike_eq ⟨habove, hb⟩

theorem Lags.above (h : Lags disk mem) {i : UInt64} (hi : mem.Above i) : disk.Above i := by
  intro q hq
  rcases h.purged with heq | ⟨p, hp, ha⟩
  · exact hi q (heq ▸ hq)
  · exact UInt64.lt_trans (ha q hq) (hi p hp)

/-- A call that only appends reaches both. -/
theorem Lags.call (h : Lags disk mem) {op : LogOp} (hop : op.appends) :
    Lags (disk.applyRecords op.records) (mem.applyRecords op.records) := by
  have hall : ∀ r ∈ op.records, ∀ p, r ≠ .purge p := by
    cases op <;> simp [LogOp.records]
  generalize op.records = rs at hall
  induction rs generalizing disk mem with
  | nil => exact h
  | cons r rs ih =>
    exact ih (h.applyRecord (hall r List.mem_cons_self)) fun r' hr' => hall r' (List.mem_cons_of_mem _ hr')

/-! ## The contract of openraft -/

/-- Entries are appended above the purge point, and a purged index has a successor. -/
def InContract (s : LogStoreInner) : LogOp → Prop
  | .append entries => ∀ e ∈ entries, s.Above e.logId.index
  | .purge logId => logId.index < u64Max
  | _ => True

theorem Settled.default : Settled .default := ⟨fun i e h => by simp [LogStoreInner.default] at h, fun p h => by cases h⟩

theorem Settled.insertEntry {s : LogStoreInner} (h : Settled s) {e : Entry} (he : s.Above e.logId.index) :
    Settled (s.insertEntry e) := by
  refine ⟨fun i x hx => ?_, h.bounded⟩
  rw [getElem?_insertEntry] at hx
  split at hx
  · rename_i hi
    exact hi ▸ he
  · exact h.above i x hx

theorem Settled.append {s : LogStoreInner} (h : Settled s) {es : List Entry} (hes : ∀ e ∈ es, s.Above e.logId.index) :
    Settled (GanglionLogStore.append s es) := by
  induction es generalizing s with
  | nil => exact h
  | cons e es ih =>
    exact ih (h.insertEntry (hes e List.mem_cons_self)) fun x hx => hes x (List.mem_cons_of_mem _ hx)

theorem Settled.purgeTo {s : LogStoreInner} (h : Settled s) {upto : LogId} (hmax : upto.index < u64Max) :
    Settled (s.purgeTo upto) := by
  rcases purgeTo_lastPurgedLogId s upto with ⟨_, hp⟩ | ⟨p, hs, _, hp⟩
  · refine ⟨fun i e he q hq => ?_, fun q hq => ?_⟩
    · simp only [getElem?_purgeTo, lt_add_one_iff hmax] at he
      rw [hp] at hq
      cases hq
      split at he
      · cases he
      · exact UInt64.not_le.1 ‹_›
    · rw [hp] at hq
      cases hq
      exact hmax
  · refine ⟨fun i e he q hq => ?_, fun q hq => h.bounded q (by rw [hs, ← hp, hq])⟩
    rw [getElem?_purgeTo] at he
    split at he
    · cases he
    · exact h.above i e he q (by rw [hs, ← hp, hq])

/-- Calls in contract keep the log above the purge point. -/
theorem Settled.call {s : LogStoreInner} (h : Settled s) {op : LogOp} (hop : s.InContract op) :
    Settled (GanglionLogStore.call s op) := by
  cases op with
  | saveVote v => exact ⟨h.above, h.bounded⟩
  | append entries => exact h.append hop
  | truncate logId =>
    refine ⟨fun i e he => ?_, h.bounded⟩
    simp only [GanglionLogStore.call, GanglionLogStore.truncate, getElem?_truncateFrom] at he
    split at he
    · exact h.above i e he
    · cases he
  | purge logId => exact h.purgeTo hop

theorem Lags.inContract (h : Lags disk mem) {op : LogOp} (hop : mem.InContract op) : disk.InContract op := by
  cases op with
  | append entries => exact fun e he => h.above (hop e he)
  | saveVote _ | truncate _ | purge _ => exact hop

end LogStoreInner

/-! ## Runs with failed compactions -/

/-- What happens to a file store whose rewrites may fail. -/
inductive FaultEvent where
  | event (e : WalEvent)
  /-- A purge that returns an error because its rewrite fails. -/
  | failedPurge (logId : LogId) (failure : RewriteFailure)
  deriving DecidableEq

namespace FileRaftLogStore

/-- One event; a reopen that fails ends the run. -/
def faultStep (codec : WalCodec) (store : FileRaftLogStore) : FaultEvent → Option FileRaftLogStore
  | .event e => (store.step codec e).toOption
  | .failedPurge logId failure => some (store.purge codec logId (some failure)).1

/-- No rewrite fails after its rename. -/
def BeforeRename (_ : FileRaftLogStore) : FaultEvent → Prop
  | .event _ => True
  | .failedPurge _ failure => failure.afterRename = false

/-- Besides, the calls keep the contract of openraft. -/
def ContractBeforeRename (store : FileRaftLogStore) : FaultEvent → Prop
  | .event (.call op) => store.state.InContract op
  | .event .reopen => True
  | .failedPurge logId failure => failure.afterRename = false ∧ store.state.InContract (.purge logId)

variable {codec : WalCodec}

/-- The file at the path holds records that replay to a state behind the memory, and the writer is on it. -/
structure Behind (codec : WalCodec) (store : FileRaftLogStore) (disk : LogStoreInner) : Prop where
  records : ∃ rs, store.files.atPath = encodeRecords codec rs ∧ LogStoreInner.default.applyRecords rs = disk
  attached : store.files.detached = none
  lags : disk.Lags store.state

theorem Durable.behind {store : FileRaftLogStore} (h : Durable codec store) : Behind codec store store.state :=
  ⟨h.records, h.attached, .refl _⟩

/-- What an event does to a store and the state its file stands for. -/
theorem faultStep_cases {store store' : FileRaftLogStore} {disk : LogStoreInner} {e : FaultEvent}
    (h : Behind codec store disk) (hsafe : BeforeRename store e) (he : faultStep codec store e = some store') :
    ∃ disk', Behind codec store' disk' ∧
      ((∃ op, e = .event (.call op) ∧ store'.state = GanglionLogStore.call store.state op ∧
          (disk' = GanglionLogStore.call disk op ∨ disk' = store'.state)) ∨
        (e = .event .reopen ∧ store'.state = disk ∧ disk' = disk) ∨
        (∃ id f, e = .failedPurge id f ∧ store'.state = store.state.purgeTo id ∧ disk' = disk)) := by
  obtain ⟨⟨rs, hrs, hdisk⟩, hattached, hlags⟩ := h
  cases e with
  | event e =>
    cases e with
    | call op =>
      cases Option.some.inj he
      by_cases hop : op.appends
      · refine ⟨disk.applyRecords op.records, ⟨⟨rs ++ op.records, ?_, ?_⟩, ?_, ?_⟩,
          Or.inl ⟨op, rfl, call_state store op, Or.inl (applyRecords_records hop disk)⟩⟩
        · simp [call_appends hop, WalFiles.write, hattached, hrs]
        · simp [hdisk]
        · simp [call_appends hop, WalFiles.write, hattached]
        · rw [call_appends hop]
          exact hlags.call hop
      · cases op with
        | purge id =>
          exact ⟨_, (Durable.compact _).behind, Or.inl ⟨.purge id, rfl, rfl, Or.inr rfl⟩⟩
        | _ => exact absurd rfl hop
    | reopen =>
      obtain ⟨opened, hopen, hstate, hd⟩ := @openFile_records codec rs
      simp only [faultStep, step, hrs, hopen, Except.toOption, Option.some.injEq] at he
      subst he
      rw [hdisk] at hstate
      exact ⟨disk, hstate ▸ hd.behind, Or.inr (Or.inl ⟨rfl, hstate, rfl⟩)⟩
  | failedPurge id f =>
    have hf : f.afterRename = false := hsafe
    cases Option.some.inj he
    refine ⟨disk, ⟨⟨rs, ?_, hdisk⟩, ?_, hlags.purgeTo id⟩, Or.inr (Or.inr ⟨id, f, rfl, rfl, rfl⟩)⟩
    · simp [purge, rewrite, hf, hrs]
    · simp [purge, rewrite, hf, hattached]

/-- The next opening finds the state on disk. -/
theorem Behind.reopen {store : FileRaftLogStore} {disk : LogStoreInner} (h : Behind codec store disk) :
    ∃ later, openFile codec (some store.files.atPath) = .ok later ∧ later.state = disk := by
  obtain ⟨⟨rs, hrs, hdisk⟩, _, _⟩ := h
  obtain ⟨later, hopen, hstate, _⟩ := @openFile_records codec rs
  exact ⟨later, hrs ▸ hopen, hstate.trans hdisk⟩

theorem behind_fresh : Behind codec fresh .default := ⟨⟨[], rfl, rfl⟩, rfl, .refl _⟩

theorem behind_run {events : List FaultEvent} {store : FileRaftLogStore}
    (h : Run (faultStep codec) BeforeRename fresh events store) : ∃ disk, Behind codec store disk := by
  refine h.invariant (P := fun s => ∃ disk, Behind codec s disk) (fun s e t hsafe he hi => ?_) ⟨_, behind_fresh⟩
  obtain ⟨disk, hd⟩ := hi
  obtain ⟨disk', hd', _⟩ := faultStep_cases hd hsafe he
  exact ⟨disk', hd'⟩

/-- In contract, both logs lie above their purge points. -/
theorem settled_run {events : List FaultEvent} {store : FileRaftLogStore}
    (h : Run (faultStep codec) ContractBeforeRename fresh events store) :
    ∃ disk, Behind codec store disk ∧ disk.Settled ∧ store.state.Settled := by
  refine h.invariant (P := fun s => ∃ disk, Behind codec s disk ∧ disk.Settled ∧ s.state.Settled)
    (fun s e t hguard he hi => ?_) ⟨_, behind_fresh, .default, .default⟩
  obtain ⟨disk, hd, hdisk, hmem⟩ := hi
  have hsafe : BeforeRename s e := by
    cases e with
    | event _ => trivial
    | failedPurge _ _ => exact hguard.1
  obtain ⟨disk', hd', ⟨op, rfl, hs, hdisk'⟩ | ⟨rfl, hs, rfl⟩ | ⟨id, f, rfl, hs, rfl⟩⟩ := faultStep_cases hd hsafe he
  · have hmem' : t.state.Settled := hs ▸ hmem.call hguard
    refine ⟨disk', hd', ?_, hmem'⟩
    rcases hdisk' with rfl | rfl
    · exact hdisk.call (hd.lags.inContract hguard)
    · exact hmem'
  · exact ⟨disk', hd', hdisk, hs ▸ hdisk⟩
  · exact ⟨disk', hd', hdisk, hs ▸ hmem.purgeTo hguard.2⟩

/-- **Acknowledged calls survive failed compactions** that fail before their rename. In every run of calls, reopens and
such purges, the WAL opens, with the vote of the memory and every entry of the memory, and above the purge point with
nothing else. The reopened state with the purge point of the memory is the state in memory exactly when the log in
memory lies above its purge point, in particular when the calls keep the contract of openraft. -/
theorem failed_compaction_keeps_acknowledged {events : List FaultEvent} {store : FileRaftLogStore}
    (h : Run (faultStep codec) BeforeRename fresh events store) :
    ∃ later, openFile codec (some store.files.atPath) = .ok later ∧ later.state.vote = store.state.vote ∧
      (∀ (i : UInt64) (e : Entry), store.state.log[i]? = some e → later.state.log[i]? = some e) ∧
      (∀ i : UInt64, store.state.Above i → later.state.log[i]? = store.state.log[i]?) ∧
      ((∀ p, store.state.lastPurgedLogId = some p → p.index < u64Max) →
        (later.state.purgedLike store.state = store.state ↔
          ∀ (i : UInt64) (e : Entry), store.state.log[i]? = some e → store.state.Above i)) ∧
      (Run (faultStep codec) ContractBeforeRename fresh events store →
        later.state.purgedLike store.state = store.state) := by
  obtain ⟨disk, hd⟩ := behind_run h
  obtain ⟨later, hopen, rfl⟩ := hd.reopen
  refine ⟨later, hopen, hd.lags.vote, hd.lags.present, hd.lags.agree, hd.lags.purgedLike_eq_iff, fun hcontract => ?_⟩
  obtain ⟨disk, hd', _, hmem⟩ := settled_run hcontract
  obtain ⟨later', hopen', rfl⟩ := hd'.reopen
  rw [hopen] at hopen'
  cases hopen'
  exact hd'.lags.purgedLike_eq hmem

/-- One entry is appended, its purge fails at the given step, and a vote is acknowledged. -/
def voteAfterFailure (failure : RewriteFailure) : List FaultEvent :=
  [.event (.call (.append [⟨⟨⟨1, 0⟩, 1⟩, .blank⟩])), .failedPurge ⟨⟨1, 0⟩, 1⟩ failure,
    .event (.call (.saveVote ⟨⟨2, 0⟩, false⟩))]

/-- A purge whose rename fails costs nothing. -/
theorem failed_compaction_keeps_acknowledged_rename :
    ∃ store later, Run (faultStep serdeWal) BeforeRename fresh (voteAfterFailure .rename) store ∧
      openFile serdeWal (some store.files.atPath) = .ok later ∧ later.state.vote = some ⟨⟨2, 0⟩, false⟩ ∧
      later.state.purgedLike store.state = store.state := by
  have hrun : Run (faultStep serdeWal) BeforeRename fresh (voteAfterFailure .rename) _ :=
    .cons trivial rfl (.cons rfl rfl (.cons trivial rfl (.nil _)))
  have hmax : (1 : UInt64) < u64Max := by decide
  have hcontract : Run (faultStep serdeWal) ContractBeforeRename fresh (voteAfterFailure .rename) _ :=
    .cons (fun e _ p hp => by cases hp) rfl (.cons ⟨rfl, hmax⟩ rfl (.cons trivial rfl (.nil _)))
  obtain ⟨later, hopen, hvote, _, _, _, heq⟩ := failed_compaction_keeps_acknowledged hrun
  exact ⟨_, later, hrun, hopen, hvote, heq hcontract⟩

/-- A purge whose rewrite fails after the rename leaves the writer on the replaced file: the vote is acknowledged and in
memory, and the next opening does not find it. -/
theorem renamed_compaction_loses_vote :
    ∃ store later, Run (faultStep serdeWal) (fun _ _ => True) fresh (voteAfterFailure .fsyncParentDir) store ∧
      openFile serdeWal (some store.files.atPath) = .ok later ∧ store.state.vote = some ⟨⟨2, 0⟩, false⟩ ∧
      later.state.vote = none ∧ later.state.purgedLike store.state ≠ store.state := by
  have hrun : Run (faultStep serdeWal) (fun _ _ => True) fresh (voteAfterFailure .fsyncParentDir) _ :=
    .cons trivial rfl (.cons trivial rfl (.cons trivial rfl (.nil _)))
  -- The file at the path is the compacted one, without the vote that went to the replaced file.
  obtain ⟨later, hopen, hstate, _⟩ := @openFile_records serdeWal
    (compacted ((GanglionLogStore.append .default [⟨⟨⟨1, 0⟩, 1⟩, .blank⟩]).purgeTo ⟨⟨1, 0⟩, 1⟩))
  rw [applyRecords_compacted] at hstate
  have hvote : later.state.vote = none := hstate ▸ rfl
  refine ⟨_, later, hrun, hopen, rfl, hvote, fun heq => ?_⟩
  have hlost : later.state.vote = some ⟨⟨2, 0⟩, false⟩ := congrArg LogStoreInner.vote heq
  rw [hvote] at hlost
  cases hlost

end FileRaftLogStore

end Ganglion
