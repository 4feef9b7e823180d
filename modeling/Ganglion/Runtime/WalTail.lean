import Ganglion.Runtime.FileStore

/-!
# The WAL after a crash

A crash leaves a byte prefix of the WAL. Replay accepts it when the cut falls between two records or right before the
line break of a record (`replay_torn`). Appending goes on at the end of the bytes, so in the second case the next record
continues the last line and the file cannot be opened any more, unless opening has just rewritten it
(`torn_wal_appendable`).
-/

namespace Ganglion

open Text

variable {codec : WalCodec}

/-! ## Prefixes -/

theorem utf8_text_ne_nil (r : WalRecord) : utf8 (codec.toText r) ≠ [] := by
  intro h
  have hempty : codec.toText r = "" := utf8_injective h
  have hbrace := codec.brace r
  rw [hempty] at hbrace
  cases hbrace

/-- A prefix of a WAL: whole records, then a part of the text of the next one. -/
theorem prefix_encodeRecords {rs : List WalRecord} {file : Bytes} (h : file <+: encodeRecords codec rs) :
    ∃ whole r tail, file = encodeRecords codec whole ++ tail ∧ tail <+: utf8 (codec.toText r) ∧ whole <+: rs ∧
      (tail ≠ [] → whole ++ [r] <+: rs) := by
  obtain ⟨whole, tail, hwhole, rfl, rfl | ⟨r, hnext, htail⟩⟩ := textLines_cut codec.toText h
  · exact ⟨whole, .truncate 0, [], rfl, List.nil_prefix, hwhole, fun hne => absurd rfl hne⟩
  · exact ⟨whole, r, tail, rfl, htail, hwhole, fun _ => hnext⟩

/-- A part of the text of a record is not a line that can be read. -/
theorem readLine_part {r : WalRecord} {tail : Bytes} {n : Nat} {x : Option WalRecord}
    (h : tail <+: utf8 (codec.toText r)) (hne : tail ≠ []) (hread : readLine codec n tail = .ok x) :
    tail = utf8 (codec.toText r) := by
  obtain ⟨rest, hrest⟩ := h
  unfold readLine at hread
  split at hread
  · cases hread
  · rename_i line hline
    obtain rfl := fromUtf8_eq_some.1 hline
    obtain ⟨u, htext, rfl⟩ := utf8_append_eq hrest
    by_cases hu : u = ""
    · rw [htext, hu, String.append_empty]
    · -- The line is a proper part: it starts with the brace of the record, so it is neither blank nor a value.
      have hhead : line.toList.head? = some '{' := by
        have hbrace := codec.brace r
        have hline : line.toList ≠ [] := fun hl => hne (by simp [utf8, hl])
        rwa [htext, String.toList_append, List.head?_append_of_ne_nil _ hline] at hbrace
      simp [not_blank hhead, codec.unfinished r line u htext hu] at hread

/-- A last record without its line break is read as well. -/
theorem replay_unterminated (whole : List WalRecord) (r : WalRecord) :
    replay codec (encodeRecords codec whole ++ utf8 (codec.toText r)) =
      .ok (LogStoreInner.default.applyRecords (whole ++ [r]), whole.length + 1) := by
  have hlines : lines (utf8 (codec.toText r)) = [utf8 (codec.toText r)] :=
    lines_tail (newline_not_mem_text r) (utf8_text_ne_nil r)
  rw [replay_append, hlines, replayLoop, readLine_text, LogStoreInner.applyRecords_append]
  rfl

/-- **Where a prefix that replays can end**: after a record, or right before its line break. -/
theorem replay_torn {rs : List WalRecord} {file : Bytes} {state : LogStoreInner} {replayed : Nat}
    (h : file <+: encodeRecords codec rs) (hreplay : replay codec file = .ok (state, replayed)) :
    ∃ recs, state = LogStoreInner.default.applyRecords recs ∧ replayed = recs.length ∧ recs <+: rs ∧
      (file = encodeRecords codec recs ∨
        ∃ whole r, recs = whole ++ [r] ∧ file = encodeRecords codec whole ++ utf8 (codec.toText r)) := by
  obtain ⟨whole, r, tail, rfl, htail, hwhole, hnext⟩ := prefix_encodeRecords h
  by_cases hne : tail = []
  · rw [hne, List.append_nil, replay_encodeRecords] at hreplay
    cases hreplay
    exact ⟨whole, rfl, rfl, hwhole, Or.inl (by simp [hne])⟩
  · have hnl : newline ∉ tail := fun hm => newline_not_mem_text r (htail.subset hm)
    have hfull : tail = utf8 (codec.toText r) := by
      rw [replay_append, lines_tail hnl hne, replayLoop] at hreplay
      split at hreplay
      · cases hreplay
      · rename_i hread
        exact readLine_part htail hne hread
      · rename_i record hread
        exact readLine_part htail hne hread
    rw [hfull, replay_unterminated] at hreplay
    cases hreplay
    exact ⟨whole ++ [r], rfl, by simp, hnext hne, Or.inr ⟨whole, r, rfl, by rw [hfull]⟩⟩

/-! ## Appending -/

/-- After any calls, a durable store can be reopened on the state in memory. -/
theorem FileRaftLogStore.Durable.calls {store : FileRaftLogStore} (h : Durable codec store) (ops : List LogOp) :
    Durable codec (ops.foldl (FileRaftLogStore.call codec) store) ∧
      (ops.foldl (FileRaftLogStore.call codec) store).state = ops.foldl GanglionLogStore.call store.state := by
  induction ops generalizing store with
  | nil => exact ⟨h, rfl⟩
  | cons op ops ih =>
    obtain ⟨hd, hs⟩ := ih (h.call op)
    exact ⟨hd, by rw [List.foldl_cons, hs, call_state, List.foldl_cons]⟩

/-- A record appended to a line that lacks its break makes the file unreadable. -/
theorem replay_glued (whole : List WalRecord) (r r' : WalRecord) :
    replay codec (encodeRecords codec whole ++ (utf8 (codec.toText r) ++ encodeRecord codec r')) =
      .error (.malformedRecord (whole.length + 1)) := by
  have hnl : newline ∉ utf8 (codec.toText r ++ codec.toText r') := by
    simp [newline_not_mem_text]
  have hcr : carriageReturn ∉ utf8 (codec.toText r ++ codec.toText r') := by
    simp [carriageReturn_not_mem_text]
  have hbrace : (codec.toText r ++ codec.toText r').toList.head? = some '{' := by
    rw [String.toList_append, List.head?_append, codec.brace r]
    rfl
  have hline : utf8 (codec.toText r) ++ encodeRecord codec r' =
      utf8 (codec.toText r ++ codec.toText r') ++ newline :: [] := by
    simp [encodeRecord]
  rw [hline, replay_append, lines_terminated hnl hcr, replayLoop, readLine, fromUtf8_utf8]
  simp only [not_blank hbrace, Bool.false_eq_true, if_false, codec.trailing r _ (codec.brace r')]

/-- The records of the file, the last one without its line break, are too many for the state they make. -/
def CompactedOnOpen (codec : WalCodec) (file : Bytes) : Prop :=
  ∃ recs, file ++ [newline] = encodeRecords codec recs ∧
    needsCompaction recs.length (LogStoreInner.default.applyRecords recs)

/-- The bytes that can be appended to once they are open: nothing, a file that ends in a line break, or one that opening
rewrites. -/
def AppendSafe (codec : WalCodec) (file : Bytes) : Prop :=
  file = [] ∨ file.getLast? = some newline ∨ CompactedOnOpen codec file

theorem encodeRecords_snoc (whole : List WalRecord) (r : WalRecord) :
    encodeRecords codec (whole ++ [r]) = encodeRecords codec whole ++ utf8 (codec.toText r) ++ [newline] := by
  simp [encodeRecord]

/-- The text of a record does not end in a line break. -/
theorem getLast_text_ne_newline (bytes : Bytes) (r : WalRecord) :
    (bytes ++ utf8 (codec.toText r)).getLast? ≠ some newline ∧ bytes ++ utf8 (codec.toText r) ≠ [] := by
  have hne := @utf8_text_ne_nil codec r
  refine ⟨fun h => ?_, by simp [hne]⟩
  rw [List.getLast?_append_of_ne_nil _ hne] at h
  exact newline_not_mem_text r (List.mem_of_getLast? h)

namespace FileRaftLogStore

/-- What opening a prefix gives: a durable store on safe bytes, or a store that goes on behind an open line. -/
theorem openFile_torn {rs : List WalRecord} {file : Bytes} {store : FileRaftLogStore}
    (h : file <+: encodeRecords codec rs) (hopen : openFile codec (some file) = .ok store) :
    (AppendSafe codec file ∧ Durable codec store) ∨
      (¬AppendSafe codec file ∧
        ∃ whole r, store.files = ⟨encodeRecords codec whole ++ utf8 (codec.toText r), none⟩) := by
  simp only [openFile, Option.getD_some] at hopen
  split at hopen
  · cases hopen
  · rename_i state replayed hreplay
    obtain ⟨recs, rfl, rfl, _, rfl | ⟨whole, r, rfl, rfl⟩⟩ := replay_torn h hreplay
    · left
      constructor
      · rcases List.eq_nil_or_concat recs with rfl | ⟨whole, r, rfl⟩
        · exact Or.inl rfl
        · exact Or.inr (Or.inl (by rw [List.concat_eq_append, encodeRecords_snoc]; simp))
      · split at hopen <;> cases hopen
        · exact Durable.compact _
        · exact ⟨⟨recs, rfl, rfl⟩, rfl⟩
    · split at hopen <;> cases hopen
      · rename_i hcompact
        exact Or.inl ⟨Or.inr (Or.inr ⟨whole ++ [r], (encodeRecords_snoc whole r).symm, hcompact⟩), Durable.compact _⟩
      · rename_i hcompact
        refine Or.inr ⟨?_, whole, r, rfl⟩
        obtain ⟨hlast, hne⟩ := @getLast_text_ne_newline codec (encodeRecords codec whole) r
        rintro (hnil | hnl | ⟨recs, hrecs, hneeds⟩)
        · exact hne hnil
        · exact hlast hnl
        · -- The records of a file are determined by it, as far as replay tells them apart.
          have hreplay' := @replay_encodeRecords codec recs
          rw [← hrecs, ← encodeRecords_snoc, replay_encodeRecords] at hreplay'
          obtain ⟨hstate, hlen⟩ := Prod.mk.inj (Except.ok.inj hreplay')
          rw [← hstate, ← hlen] at hneeds
          exact hcompact hneeds

/-- **When a WAL that reopens after a crash stays appendable.** Let a crash leave any byte prefix of a WAL that calls and
reopens wrote, and let it open. After any further votes, appends and truncations the file opens again, on the recovered
state extended by exactly those, if and only if the prefix is empty, ends in a line break, or has been rewritten by the
opening because of its dead records. -/
theorem torn_wal_appendable {events : List WalEvent} {before store : FileRaftLogStore} {file : Bytes}
    (hrun : run codec events = .ok before) (hcut : file <+: before.files.atPath)
    (hopen : openFile codec (some file) = .ok store) :
    (∀ ops : List LogOp, (∀ op ∈ ops, op.appends) →
        ∃ later, openFile codec (some (ops.foldl (call codec) store).files.atPath) = .ok later ∧
          later.state = ops.foldl GanglionLogStore.call store.state) ↔
      AppendSafe codec file := by
  obtain ⟨rs, hbytes⟩ := run_records hrun
  rw [hbytes] at hcut
  rcases openFile_torn hcut hopen with ⟨hsafe, hd⟩ | ⟨hnot, whole, r, hfiles⟩
  · refine iff_of_true (fun ops _ => ?_) hsafe
    obtain ⟨hd', hstate⟩ := hd.calls ops
    obtain ⟨later, hlater, hs, _⟩ := hd'.reopen
    exact ⟨later, hlater, hs.trans hstate⟩
  · refine iff_of_false (fun hall => ?_) hnot
    obtain ⟨later, hlater, _⟩ := hall [.saveVote ⟨⟨0, 0⟩, false⟩] (by simp [LogOp.appends])
    simp [call, saveVote, hfiles, WalFiles.write, openFile, replay_glued] at hlater

/-- The vote that is acknowledged before the crash. -/
def firstVote : Vote := ⟨⟨1, 7⟩, false⟩

/-- The vote whose record the crash cuts. -/
def secondVote : Vote := ⟨⟨2, 7⟩, false⟩

/-- The vote that is saved after the restart. -/
def thirdVote : Vote := ⟨⟨3, 7⟩, false⟩

theorem run_votes : ∃ before,
    run serdeWal [.call (.saveVote firstVote), .call (.saveVote secondVote)] = .ok before ∧
      before.files.atPath = encodeRecords serdeWal [.vote firstVote, .vote secondVote] := by
  refine ⟨(fresh.call serdeWal (.saveVote firstVote)).call serdeWal (.saveVote secondVote), ?_, ?_⟩
  · rw [run, openFile_none]
    rfl
  · simp [call, saveVote, WalFiles.write, fresh, encodeRecords]

/-- The WAL of two votes, cut behind the line break of the first, stays appendable. -/
theorem torn_wal_appendable_firstVote :
    ∃ before store,
      run serdeWal [.call (.saveVote firstVote), .call (.saveVote secondVote)] = .ok before ∧
      let file := encodeRecords serdeWal [.vote firstVote]
      file <+: before.files.atPath ∧ file ≠ before.files.atPath ∧ openFile serdeWal (some file) = .ok store ∧
      ∀ ops : List LogOp, (∀ op ∈ ops, op.appends) →
        ∃ later, openFile serdeWal (some (ops.foldl (call serdeWal) store).files.atPath) = .ok later ∧
          later.state = ops.foldl GanglionLogStore.call store.state := by
  obtain ⟨before, hrun, hpath⟩ := run_votes
  obtain ⟨store, hopen, _⟩ := @openFile_records serdeWal [.vote firstVote]
  have hcut : encodeRecords serdeWal [.vote firstVote] <+: before.files.atPath := by
    rw [hpath]
    exact encodeRecords_append [.vote firstVote] [.vote secondVote] ▸ List.prefix_append _ _
  have hproper : encodeRecords serdeWal [.vote firstVote] ≠ before.files.atPath := by
    rw [hpath, encodeRecords_cons _ [.vote secondVote]]
    simp [encodeRecord]
  have hsafe : AppendSafe serdeWal (encodeRecords serdeWal [.vote firstVote]) :=
    Or.inr (Or.inl (by simp [encodeRecord]))
  exact ⟨before, store, hrun, hcut, hproper, hopen, (torn_wal_appendable hrun hcut hopen).2 hsafe⟩

/-- The crash comes right before the line break of the second vote, which is not acknowledged yet. The file opens, the
third vote is acknowledged, and then the file does not open any more. -/
theorem torn_vote_unreadable :
    ∃ before store,
      run serdeWal [.call (.saveVote firstVote), .call (.saveVote secondVote)] = .ok before ∧
      let file := encodeRecords serdeWal [.vote firstVote] ++ utf8 (WalRecord.text (.vote secondVote))
      encodeRecords serdeWal [.vote firstVote] <+: file ∧ file <+: before.files.atPath ∧
      openFile serdeWal (some file) = .ok store ∧
      openFile serdeWal (some (store.call serdeWal (.saveVote thirdVote)).files.atPath) =
        .error (.malformedRecord 2) := by
  have hfile : encodeRecords serdeWal [.vote firstVote, .vote secondVote] =
      encodeRecords serdeWal [.vote firstVote] ++ utf8 (WalRecord.text (.vote secondVote)) ++ [newline] :=
    encodeRecords_snoc [.vote firstVote] (.vote secondVote)
  have hopen : openFile serdeWal
      (some (encodeRecords serdeWal [.vote firstVote] ++ utf8 (WalRecord.text (.vote secondVote)))) =
        .ok ⟨LogStoreInner.default.applyRecords [.vote firstVote, .vote secondVote],
          ⟨encodeRecords serdeWal [.vote firstVote] ++ utf8 (WalRecord.text (.vote secondVote)), none⟩⟩ := by
    simp only [openFile, Option.getD_some]
    rw [show WalRecord.text = serdeWal.toText from rfl, replay_unterminated]
    rfl
  obtain ⟨before, hrun, hpath⟩ := run_votes
  refine ⟨before, _, hrun, List.prefix_append _ _, ?_, hopen, ?_⟩
  · rw [hpath, hfile]
    exact List.prefix_append _ _
  · simp only [call, saveVote, WalFiles.write, openFile, Option.getD_some, List.append_assoc]
    rw [show WalRecord.text = serdeWal.toText from rfl, replay_glued]
    rfl

end FileRaftLogStore

end Ganglion
