import Ganglion.Storage.FileMetadataLog

/-!
# Interrupted updates of the file log

`write_entries` creates the file anew and writes all entries into it, so an update that is cut short leaves a front part
of the new text in the place of the old file. A front part can be read back under `Strict` only if it ends with a whole
entry, with or without its line break (`readAllEntries_cut`). Hence the points at which an interrupted update leaves the
old or the new entries (`SafePoint`, `interrupted_update_iff`): there are few of them, and an update that is interrupted
right after the file is created has lost every entry (`created_file_is_empty`).
-/

namespace Ganglion

open Text Scan

namespace FileMetadataLog

/-! ## Interruptions -/

/-- An update that writes the file. -/
inductive FileUpdate where
  | appendEntry (term : UInt64) (snapshot : CoordinationSnapshot)
  | truncateFrom (firstIndex : UInt64)
  deriving DecidableEq

/-- The entries the update writes, on a log with the entries `p`. -/
def FileUpdate.entries (p : List MetadataLogEntry) : FileUpdate → List MetadataLogEntry
  | .appendEntry term snapshot => p ++ [⟨term, nextLogIndex p, snapshot⟩]
  | .truncateFrom firstIndex => keptFrom firstIndex p

def FileUpdate.call : FileUpdate → LogCall
  | .appendEntry term snapshot => .appendEntry term snapshot
  | .truncateFrom firstIndex => .truncateFrom firstIndex

/-- Where the write sequence stops. -/
inductive Interruption where
  | beforeCreate
  /-- The file is created, and that many bytes are in it. -/
  | written (bytes : Nat)
  deriving DecidableEq

variable (codec : LogCodec)

/-- The file after an interrupted update. -/
def fileAfter (file : Option Bytes) (p : List MetadataLogEntry) (u : FileUpdate) : Interruption → Option Bytes
  | .beforeCreate => file
  | .written bytes => some ((encodeEntries codec (u.entries p)).take bytes)

/-- An update that is not interrupted writes all bytes. -/
theorem fileAfter_complete {codec : LogCodec} {policy : FileMetadataReplayPolicy} {file : Option Bytes}
    {p : List MetadataLogEntry} (hread : readAllEntries codec policy file = .ok p) (u : FileUpdate) :
    ((fileMetadataLog codec policy).call file u.call).2 =
      fileAfter codec file p u (.written (encodeEntries codec (u.entries p)).length) := by
  rw [fileAfter, List.take_length]
  cases u with
  | appendEntry term snapshot => simp [FileUpdate.call, MetadataLog.call, fileMetadataLog, hread, FileUpdate.entries]
  | truncateFrom firstIndex => simp [FileUpdate.call, MetadataLog.call, fileMetadataLog, hread, FileUpdate.entries]

/-- A later read under `Strict` gives the old entries or the new ones. -/
def AllOrNothing (file : Option Bytes) (p : List MetadataLogEntry) (u : FileUpdate) (point : Interruption) : Prop :=
  readAllEntries codec .strict (fileAfter codec file p u point) = .ok p ∨
    readAllEntries codec .strict (fileAfter codec file p u point) = .ok (u.entries p)

/-- The points at which nothing is lost: before the file is created; with all bytes of the new text but the last line
break; and for an append also with exactly the text of the old entries, their last line break or not. -/
def SafePoint (p : List MetadataLogEntry) : FileUpdate → Interruption → Prop
  | _, .beforeCreate => True
  | .appendEntry term snapshot, .written bytes =>
    (HasRoom p ∧ (encodeEntries codec (FileUpdate.entries p (.appendEntry term snapshot))).length ≤ bytes + 1) ∨
      ((encodeEntries codec p).length ≤ bytes + 1 ∧ bytes ≤ (encodeEntries codec p).length)
  | .truncateFrom firstIndex, .written bytes => (encodeEntries codec (keptFrom firstIndex p)).length ≤ bytes + 1

/-! ## Reading a front part -/

variable {codec}

/-- What `Strict` accepts of a file of texts. -/
theorem readAllEntries_strict_iff {bytes : Bytes} {raw : List String} {es : List MetadataLogEntry}
    (h : (lines bytes).mapM fromUtf8 = some raw) :
    readAllEntries codec .strict (some bytes) = .ok es ↔
      (scan skipsLine (lookRecord codec (parseLine codec)) none raw).fault = none ∧
        (scan skipsLine (lookRecord codec (parseLine codec)) none raw).entries = es := by
  rw [← toOption_eq_some, readAllEntries_texts h]
  exact replayed_strict_iff scan_tail_eq_zero_iff

/-- A written entry that does not follow the one before it is not read. -/
theorem lookRecord_entryText_error {last : Option MetadataLogEntry} {e : MetadataLogEntry}
    (h : ¬IndexFollows last e) : lookRecord codec (parseLine codec) last (entryText codec e) = .error .index := by
  have hp : parseLine codec (entryText codec e) = .ok (persisted codec e) := by
    rw [parseLine, trim_entryText]
    exact codec.entry_roundTrip _
  have hindex : (persisted codec e).index = 0 ∨
      (last.any fun entry => (persisted codec e).index ≠ entry.index + 1) = true := by
    by_contra hc
    rw [not_or] at hc
    refine h ⟨hc.1, fun l hl => ?_⟩
    have hany := hc.2
    rw [hl] at hany
    show (persisted codec e).index = l.index + 1
    simpa using hany
  simp only [lookRecord, hp, if_pos hindex]

/-- The scan of written entries has no fault exactly when they are consecutive. -/
theorem linked_of_scan {last : Option MetadataLogEntry} {es : List MetadataLogEntry}
    (h : (scan skipsLine (lookRecord codec (parseLine codec)) last (es.map (entryText codec))).fault = none) :
    Linked IndexFollows last es := by
  induction es generalizing last with
  | nil => trivial
  | cons e es ih =>
    by_cases hf : IndexFollows last e
    · simp only [List.map_cons, scan, skipsLine_entryText, Bool.false_eq_true, if_false, lookRecord_entryText hf] at h
      exact ⟨hf, ih h⟩
    · simp only [List.map_cons, scan, skipsLine_entryText, Bool.false_eq_true, if_false,
        lookRecord_entryText_error hf] at h
      cases h

/-- Trimming a text that starts with a brace only cuts its end. -/
theorem trim_of_opened {s : String} (h : s.toList.head? = some '{') :
    (trim s).toList.head? = some '{' ∧ ∃ u, s = trim s ++ u := by
  obtain ⟨cs, hcs⟩ := List.head?_eq_some_iff.1 h
  have hfront : s.toList.dropWhile isWhiteSpace = s.toList := by
    rw [hcs, List.dropWhile_cons_of_neg (by decide)]
  refine ⟨by rw [head?_trim, hfront, h], .ofList (s.toList.reverse.takeWhile isWhiteSpace).reverse, ?_⟩
  apply String.toList_injective
  rw [String.toList_append, trim, String.toList_ofList, String.toList_ofList, hfront, ← List.reverse_append,
    List.takeWhile_append_dropWhile, List.reverse_reverse]

/-- A proper part of the text of an entry is not read. -/
theorem lookRecord_part {last : Option MetadataLogEntry} {e : MetadataLogEntry} {s u : String}
    (hs : entryText codec e = s ++ u) (hne : s ≠ "") (hu : u ≠ "") :
    skipsLine s = false ∧ lookRecord codec (parseLine codec) last s = .error .json := by
  have hhead : s.toList.head? = some '{' := by
    have hopened := codec.opened (persisted codec e)
    have hlist : s.toList ≠ [] := fun hl => hne (String.toList_injective (by simpa using hl))
    rwa [← entryText, hs, String.toList_append, List.head?_append_of_ne_nil _ hlist] at hopened
  obtain ⟨htrim, v, hv⟩ := trim_of_opened hhead
  constructor
  · obtain ⟨cs, hcs⟩ := List.head?_eq_some_iff.1 htrim
    simp only [skipsLine, hcs]
    rfl
  · have hcut : entryText codec e = trim s ++ (v ++ u) := by rw [← String.append_assoc, ← hv, hs]
    have hvu : v ++ u ≠ "" := by
      intro hvu
      have hlist := congrArg String.toList hvu
      simp only [String.toList_append, String.toList_empty, List.append_eq_nil_iff] at hlist
      exact hu (String.toList_injective (by simpa using hlist.2))
    obtain ⟨error, herror⟩ := codec.unfinished _ _ _ hcut hvu
    simp only [lookRecord, parseLine, herror]

theorem encodeEntries_append (es es' : List MetadataLogEntry) :
    encodeEntries codec (es ++ es') = encodeEntries codec es ++ encodeEntries codec es' := List.flatMap_append

theorem encodeEntries_singleton (e : MetadataLogEntry) :
    encodeEntries codec [e] = utf8 (entryText codec e) ++ [newline] := by
  simp [encodeEntries, textLine]

theorem utf8_ne_nil {s : String} (h : s ≠ "") : utf8 s ≠ [] := by
  intro hnil
  exact h (utf8_injective (hnil.trans (show [] = utf8 "" from rfl)))

theorem entryText_ne_empty (e : MetadataLogEntry) : entryText codec e ≠ "" := by
  intro h
  have hopened := codec.opened (persisted codec e)
  rw [← entryText, h] at hopened
  cases hopened

/-- The lines of whole entries and one more line. -/
theorem lines_entries_tail (whole : List MetadataLogEntry) {e : MetadataLogEntry} {tail : Bytes}
    (htail : tail <+: utf8 (entryText codec e)) (hne : tail ≠ []) :
    lines (encodeEntries codec whole ++ tail) = (whole.map (entryText codec)).map utf8 ++ [tail] := by
  have hnewline : newline ∉ tail := fun hm =>
    not_mem_of_printable (codec.printable (persisted codec e)) (by decide) (htail.subset hm)
  rw [lines_encodeEntries, lines_tail hnewline hne]

/-- Entries up to the last line break. -/
theorem readAllEntries_unterminated {whole : List MetadataLogEntry} {e : MetadataLogEntry}
    (h : Sequential (whole ++ [e])) :
    readAllEntries codec .strict (some (encodeEntries codec whole ++ utf8 (entryText codec e))) =
      .ok (whole ++ [e]) := by
  have hlines := @lines_entries_tail codec whole e _ List.prefix_rfl (utf8_ne_nil (entryText_ne_empty e))
  have htexts : (lines (encodeEntries codec whole ++ utf8 (entryText codec e))).mapM fromUtf8 =
      some ((whole ++ [e]).map (entryText codec)) := by
    rw [hlines, ← mapM_fromUtf8]
    simp
  rw [readAllEntries_strict_iff htexts, scan_entryTexts h]
  exact ⟨rfl, rfl⟩

/-- A front part that ends between two entries. -/
theorem readAllEntries_whole {whole es : List MetadataLogEntry}
    (h : readAllEntries codec .strict (some (encodeEntries codec whole)) = .ok es) : es = whole := by
  have htexts : (lines (encodeEntries codec whole)).mapM fromUtf8 = some (whole.map (entryText codec)) := by
    have hlines := @lines_encodeEntries codec whole []
    rw [List.append_nil, show lines [] = [] from rfl, List.append_nil] at hlines
    rw [hlines, mapM_fromUtf8]
  rw [readAllEntries_strict_iff htexts] at h
  rw [scan_entryTexts (linked_of_scan h.1)] at h
  exact h.2.symm

/-- A front part that ends inside the text of an entry: it is the whole text. -/
theorem readAllEntries_part {whole es : List MetadataLogEntry} {e : MetadataLogEntry} {tail : Bytes}
    (htail : tail <+: utf8 (entryText codec e)) (hne : tail ≠ [])
    (h : readAllEntries codec .strict (some (encodeEntries codec whole ++ tail)) = .ok es) :
    es = whole ++ [e] ∧ tail = utf8 (entryText codec e) := by
  have hlines := lines_entries_tail whole htail hne
  cases hs : fromUtf8 tail with
  | none =>
    rw [readAllEntries, hlines, List.mapM_append, mapM_fromUtf8] at h
    simp [hs] at h
  | some s =>
    have hstail := fromUtf8_eq_some.1 hs
    have htexts : (lines (encodeEntries codec whole ++ tail)).mapM fromUtf8 =
        some (whole.map (entryText codec) ++ [s]) := by
      rw [hlines, ← mapM_fromUtf8, ← hstail]
      simp
    rw [readAllEntries_strict_iff htexts] at h
    have hfront : (scan skipsLine (lookRecord codec (parseLine codec)) none
        (whole.map (entryText codec))).fault = none := by
      cases hf : (scan skipsLine (lookRecord codec (parseLine codec)) none (whole.map (entryText codec))).fault with
      | none => rfl
      | some fault =>
        rw [scan_append_fault hf, hf] at h
        cases h.1
    rw [scan_append_done hfront, scan_entryTexts (linked_of_scan hfront)] at h
    obtain ⟨rest, hrest⟩ := htail
    rw [← hstail] at hrest
    obtain ⟨u, hu, _⟩ := utf8_append_eq hrest
    have hsne : s ≠ "" := by
      rintro rfl
      exact hne hstail.symm
    by_cases hempty : u = ""
    · have hse : s = entryText codec e := by rw [hu, hempty, String.append_empty]
      subst hse
      by_cases hf : IndexFollows (lastOf none whole) e
      · simp only [scan, skipsLine_entryText, Bool.false_eq_true, if_false, lookRecord_entryText hf] at h
        exact ⟨h.2.symm, hstail.symm⟩
      · simp only [scan, skipsLine_entryText, Bool.false_eq_true, if_false, lookRecord_entryText_error hf] at h
        cases h.1
    · obtain ⟨hskip, hlook⟩ := @lookRecord_part codec (lastOf none whole) e s u hu hsne hempty
      simp only [scan, hskip, Bool.false_eq_true, if_false, hlook] at h
      cases h.1

/-- **What can be read of a front part** under `Strict`: entries from the start, when the part ends with the last of
them, its line break or not. -/
theorem readAllEntries_cut {new es : List MetadataLogEntry} {bytes : Nat}
    (h : readAllEntries codec .strict (some ((encodeEntries codec new).take bytes)) = .ok es) :
    es <+: new ∧ (encodeEntries codec es).length ≤ min bytes (encodeEntries codec new).length + 1 ∧
      min bytes (encodeEntries codec new).length ≤ (encodeEntries codec es).length := by
  obtain ⟨whole, tail, hwhole, hfile, htail⟩ := textLines_cut (entryText codec)
    (List.take_prefix bytes (encodeEntries codec new))
  replace hfile : (encodeEntries codec new).take bytes = encodeEntries codec whole ++ tail := hfile
  have hlength := congrArg List.length hfile
  rw [List.length_take, List.length_append] at hlength
  rw [hfile] at h
  by_cases hne : tail = []
  · rw [hne, List.append_nil] at h
    rw [hne, List.length_nil] at hlength
    cases readAllEntries_whole h
    exact ⟨hwhole, by omega, by omega⟩
  · obtain ⟨e, hnext, htail⟩ := htail.resolve_left hne
    obtain ⟨rfl, rfl⟩ := readAllEntries_part htail hne h
    rw [encodeEntries_append, encodeEntries_singleton, List.length_append, List.length_append, List.length_singleton]
    exact ⟨hnext, by omega, by omega⟩

/-- A front part with all bytes but the last line break is read in full. -/
theorem readAllEntries_take {es : List MetadataLogEntry} (h : Sequential es) {bytes : Nat}
    (hbytes : (encodeEntries codec es).length ≤ bytes + 1) :
    readAllEntries codec .strict (some ((encodeEntries codec es).take bytes)) = .ok es := by
  by_cases hall : (encodeEntries codec es).length ≤ bytes
  · rw [List.take_of_length_le hall]
    exact readAllEntries_encodeEntries h
  · rcases List.eq_nil_or_concat es with rfl | ⟨whole, e, rfl⟩
    · exact absurd (Nat.zero_le bytes) hall
    · rw [List.concat_eq_append, encodeEntries_append, encodeEntries_singleton, ← List.append_assoc] at *
      rw [List.length_append, List.length_singleton] at hbytes hall
      rw [List.take_append_of_le_length (by omega), List.take_of_length_le (by omega)]
      exact readAllEntries_unterminated h

/-! ## Interrupted updates -/

theorem encodeEntries_length_lt (es : List MetadataLogEntry) (e : MetadataLogEntry) :
    (encodeEntries codec es).length < (encodeEntries codec (es ++ [e])).length := by
  rw [encodeEntries_append, encodeEntries_singleton, List.length_append, List.length_append, List.length_singleton]
  omega

theorem hasRoom_of_sequential {p : List MetadataLogEntry} {term : UInt64} {snapshot : CoordinationSnapshot}
    (h : Sequential (p ++ [⟨term, nextLogIndex p, snapshot⟩])) : HasRoom p := by
  intro l hl
  have hnext := (linked_append.1 h).2.1
  rw [lastOf_none, hl] at hnext
  by_contra hmax
  have hindex : nextLogIndex p = l.index := by simp only [nextLogIndex, hl, saturatingSucc, if_neg hmax]
  have hnat : (nextLogIndex p).toNat = l.index.toNat + 1 := hnext.toNat
  rw [hindex] at hnat
  omega

/-- **Where an interrupted update is all or nothing.** An update of a file that reads as `p`, interrupted at any point of
its write sequence, leaves a file that reads under `Strict` as `p` or as the complete new list exactly at the points of
`SafePoint`. -/
theorem interrupted_update_iff {file : Option Bytes} {p : List MetadataLogEntry}
    (hread : readAllEntries codec .strict file = .ok p) (u : FileUpdate) (point : Interruption) :
    AllOrNothing codec file p u point ↔ SafePoint codec p u point := by
  have hseq := sequential_of_read hread
  cases point with
  | beforeCreate => exact iff_of_true (Or.inl hread) (by cases u <;> trivial)
  | written bytes =>
    cases u with
    | appendEntry term snapshot =>
      have hlt := @encodeEntries_length_lt codec p ⟨term, nextLogIndex p, snapshot⟩
      constructor
      · rintro (h | h)
        · obtain ⟨_, hmax, hmin⟩ := readAllEntries_cut h
          rw [FileUpdate.entries] at hmax hmin
          exact Or.inr ⟨by omega, by omega⟩
        · obtain ⟨_, hmax, _⟩ := readAllEntries_cut h
          exact Or.inl ⟨hasRoom_of_sequential (sequential_of_read h), by omega⟩
      · rintro (⟨hroom, hbytes⟩ | ⟨hbytes, hle⟩)
        · exact Or.inr (readAllEntries_take (sequential_append hseq hroom term snapshot) hbytes)
        · left
          rw [fileAfter, FileUpdate.entries, encodeEntries_append, List.take_append_of_le_length hle]
          exact readAllEntries_take hseq hbytes
    | truncateFrom firstIndex =>
      constructor
      · rintro (h | h)
        · -- The old entries are a front part of the kept ones, so nothing was truncated.
          obtain ⟨hpre, hmax, _⟩ := readAllEntries_cut h
          have hkept : keptFrom firstIndex p = p :=
            List.filter_sublist.eq_of_length_le hpre.length_le
          rw [FileUpdate.entries, hkept] at hmax
          show (encodeEntries codec (keptFrom firstIndex p)).length ≤ bytes + 1
          rw [hkept]
          omega
        · obtain ⟨_, hmax, _⟩ := readAllEntries_cut h
          show (encodeEntries codec (keptFrom firstIndex p)).length ≤ bytes + 1
          rw [FileUpdate.entries] at hmax
          omega
      · intro hbytes
        exact Or.inr (readAllEntries_take (sequential_filter hseq _) hbytes)

theorem sequential_first : Sequential [⟨1, 1, .default⟩] := ⟨⟨by decide, fun _ h => by cases h⟩, trivial⟩

/-- The second append to a file: interrupted when the text of the first entry is written again, its line break or not,
the log still has it. -/
theorem interrupted_update_iff_first_append :
    let p : List MetadataLogEntry := [⟨1, 1, .default⟩]
    let file := some (encodeEntries serdeLog p)
    let old := (encodeEntries serdeLog p).length
    AllOrNothing serdeLog file p (.appendEntry 2 .default) (.written old) ∧
      AllOrNothing serdeLog file p (.appendEntry 2 .default) (.written (old - 1)) := by
  intro p file old
  have hread : readAllEntries serdeLog .strict file = .ok p := readAllEntries_encodeEntries sequential_first
  exact ⟨(interrupted_update_iff hread _ _).2 (Or.inr ⟨Nat.le_succ _, Nat.le_refl _⟩),
    (interrupted_update_iff hread _ _).2 (Or.inr ⟨Nat.le_add_of_sub_le (Nat.le_refl _), Nat.sub_le _ _⟩)⟩

/-- A log of one entry is appended to, and the update is interrupted when the file has been created: the file reads as
an empty log. -/
theorem created_file_is_empty :
    let p : List MetadataLogEntry := [⟨1, 1, .default⟩]
    let file := some (encodeEntries serdeLog p)
    readAllEntries serdeLog .strict file = .ok p ∧
      readAllEntries serdeLog .strict (fileAfter serdeLog file p (.appendEntry 1 .default) (.written 0)) = .ok [] ∧
      ¬AllOrNothing serdeLog file p (.appendEntry 1 .default) (.written 0) := by
  intro p file
  have hempty : readAllEntries serdeLog .strict (fileAfter serdeLog file p (.appendEntry 1 .default) (.written 0)) =
      .ok [] := rfl
  refine ⟨readAllEntries_encodeEntries sequential_first, hempty, ?_⟩
  rintro (h | h)
  · rw [hempty] at h
    exact absurd (Except.ok.inj h) (by decide)
  · rw [hempty] at h
    exact absurd (Except.ok.inj h) (by decide)

end FileMetadataLog

end Ganglion
