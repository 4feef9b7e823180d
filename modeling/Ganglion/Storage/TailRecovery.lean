import Ganglion.Storage.FileMetadataLog

/-!
# Tail recovery of the file log

What the replay policy promises, said of a file as a sequence of byte lines: the entries before the first significant
line that is not usable are recovered when the policy tolerates the number of significant lines from there on
(`TailExact`).

The loop of `read_all_entries` has two exits that do not ask the policy. A line that is not UTF-8 is an I/O error of the
whole file, wherever it stands; and an assignment key that is not a resource is returned as an error at once. The
promise is kept exactly when it asks for an error, or neither exit is taken (`tail_recovery_exact_iff`).
-/

namespace Ganglion

open Text Scan

namespace FileMetadataLog

/-! ## Lines of bytes -/

/-- Not blank and not a comment. -/
def significant (line : Bytes) : Bool := !isBlank line && !startsWith 35 line

variable (codec : LogCodec)

/-- What a line decodes to after the entry `last`, or what is wrong with it. -/
def usable (last : Option MetadataLogEntry) (line : Bytes) : Except RecordFault MetadataLogEntry :=
  match fromUtf8 line with
  | none => .error .encoding
  | some text =>
    match codec.entryFromStr (trim text) with
    | .error _ => .error .json
    | .ok persisted =>
      if 1 ≤ persisted.index.toNat ∧ (last.all fun entry => persisted.index.toNat = entry.index.toNat + 1) then
        match decodeSnapshot codec persisted.snapshot with
        | .error _ => .error .resourceKey
        | .ok snapshot => .ok ⟨persisted.term, persisted.index, snapshot⟩
      else .error .index

/-- The entries before the first significant line that is not usable, what is wrong with that line, and the number of
significant lines from it on. -/
def tailScan (file : Bytes) : Scanned MetadataLogEntry RecordFault :=
  scan (fun line => !significant line) (usable codec) none (lines file)

/-- What the policy promises about a read: the entries without a bad line, an error for one under `Strict`, and under
`TruncateTail` the entries as long as the tail is short enough. -/
structure TailExact (policy : FileMetadataReplayPolicy) (file : Bytes) : Prop where
  clean : (tailScan codec file).tail = 0 → readAllEntries codec policy (some file) = .ok (tailScan codec file).entries
  strict : 0 < (tailScan codec file).tail → policy = .strict → ∃ e, readAllEntries codec policy (some file) = .error e
  tolerated : ∀ max, 0 < (tailScan codec file).tail → policy = .truncateTail max → (tailScan codec file).tail ≤ max →
    readAllEntries codec policy (some file) = .ok (tailScan codec file).entries
  refused : ∀ max, 0 < (tailScan codec file).tail → policy = .truncateTail max → max < (tailScan codec file).tail →
    ∃ e, readAllEntries codec policy (some file) = .error e

variable {codec} {policy : FileMetadataReplayPolicy} {file : Bytes}

theorem exists_error_iff {ε α : Type} {r : Except ε α} : (∃ e, r = .error e) ↔ r.toOption = none := by
  cases r <;> simp [Except.toOption]

theorem tolerates_zero : policy.tolerates 0 = true := by
  cases policy <;> simp [FileMetadataReplayPolicy.tolerates]

/-- The promise as one equation. -/
theorem tailExact_iff :
    TailExact codec policy file ↔
      (readAllEntries codec policy (some file)).toOption =
        if policy.tolerates (tailScan codec file).tail then some (tailScan codec file).entries else none := by
  constructor
  · intro h
    rcases Nat.eq_zero_or_pos (tailScan codec file).tail with hzero | hpos
    · rw [hzero, if_pos tolerates_zero, h.clean hzero]
      rfl
    · cases hp : policy with
      | strict =>
        obtain ⟨e, he⟩ := h.strict hpos hp
        rw [hp] at he
        rw [he, if_neg]
        · rfl
        · simp only [FileMetadataReplayPolicy.tolerates, beq_iff_eq]
          omega
      | truncateTail max =>
        by_cases hle : (tailScan codec file).tail ≤ max
        · have hread := h.tolerated max hpos hp hle
          rw [hp] at hread
          rw [hread, if_pos (by simpa [FileMetadataReplayPolicy.tolerates] using hle)]
          rfl
        · obtain ⟨e, he⟩ := h.refused max hpos hp (by omega)
          rw [hp] at he
          rw [he, if_neg (by simpa [FileMetadataReplayPolicy.tolerates] using hle)]
          rfl
  · intro h
    refine ⟨fun hzero => ?_, fun hpos hp => ?_, fun max hpos hp hle => ?_, fun max hpos hp hlt => ?_⟩
    · rw [← toOption_eq_some, h, hzero, if_pos tolerates_zero]
    · rw [exists_error_iff, h, if_neg]
      simp only [hp, FileMetadataReplayPolicy.tolerates, beq_iff_eq]
      omega
    · rw [← toOption_eq_some, h, if_pos]
      simpa [hp, FileMetadataReplayPolicy.tolerates] using hle
    · rw [exists_error_iff, h, if_neg]
      simpa [hp, FileMetadataReplayPolicy.tolerates] using hlt

/-! ## Lines of text -/

/-- The line test of the loop is the one on bytes. -/
theorem significant_utf8 (line : String) : (!significant (utf8 line)) = skipsLine line := by
  have hstart := @startsWith_utf8 line '#' (by decide) (by decide)
  rw [show UInt8.ofNat '#'.toNat = 35 from rfl] at hstart
  have hempty : (trim line).toList.isEmpty = (line.toList.dropWhile isWhiteSpace).isEmpty := by
    rw [Bool.eq_iff_iff, List.isEmpty_iff, List.isEmpty_iff, ← List.head?_eq_none_iff, head?_trim,
      List.head?_eq_none_iff]
  simp only [significant, isBlank_utf8, hstart, skipsLine, hempty, head?_trim, Bool.not_and, Bool.not_not]

/-- The index check of the loop, on numbers. -/
theorem index_follows_iff {i : UInt64} {last : Option MetadataLogEntry} :
    (1 ≤ i.toNat ∧ (last.all fun entry => i.toNat = entry.index.toNat + 1) = true) ↔
      ¬(i = 0 ∨ (last.any fun entry => i ≠ entry.index + 1) = true) := by
  have hzero : i = 0 ↔ i.toNat = 0 := by rw [← UInt64.toNat_inj, UInt64.toNat_zero]
  cases last with
  | none =>
    simp only [Option.all_none, Option.any_none, hzero]
    simp only [and_true, Bool.false_eq_true, or_false]
    omega
  | some l =>
    simp only [Option.all_some, Option.any_some, decide_eq_true_eq, ne_eq, not_or, not_not]
    constructor
    · rintro ⟨hpos, hnext⟩
      have hi := i.toNat_lt_size
      have hl : l.index < u64Max := lt_u64Max_iff.2 (by omega)
      refine ⟨by rw [hzero]; omega, ?_⟩
      apply UInt64.toNat_inj.1
      rw [toNat_add_one hl, hnext]
    · rintro ⟨hne, hnext⟩
      have hl : l.index < u64Max := lt_u64Max_of_add_one_ne_zero (hnext ▸ hne)
      rw [hzero] at hne
      rw [hnext, toNat_add_one hl]
      omega

/-- The look of the loop at a line of text. -/
theorem usable_utf8 (last : Option MetadataLogEntry) (line : String) :
    usable codec last (utf8 line) = lookRecord codec (parseLine codec) last line := by
  simp only [usable, fromUtf8_utf8, lookRecord, parseLine]
  cases codec.entryFromStr (trim line) with
  | error error => rfl
  | ok persisted =>
    simp only [index_follows_iff]
    by_cases h : persisted.index = 0 ∨ (last.any fun entry => persisted.index ≠ entry.index + 1) = true
    · rw [if_neg (not_not.2 h), if_pos h]
    · refine (if_pos h).trans (Eq.trans ?_ (if_neg h).symm)
      cases decodeSnapshot codec persisted.snapshot <;> rfl

theorem lookRecord_ne_encoding {last : Option MetadataLogEntry} {line : String} :
    lookRecord codec (parseLine codec) last line ≠ .error .encoding := by
  unfold lookRecord
  split
  · simp
  · split
    · simp
    · split <;> simp

/-- All lines are texts. -/
theorem mapM_fromUtf8_isSome {ls : List Bytes} :
    (∀ line ∈ ls, (fromUtf8 line).isSome = true) ↔ ∃ raw : List String, ls = raw.map utf8 := by
  constructor
  · intro h
    induction ls with
    | nil => exact ⟨[], rfl⟩
    | cons line ls ih =>
      obtain ⟨s, hs⟩ := Option.isSome_iff_exists.1 (h line List.mem_cons_self)
      obtain ⟨raw, rfl⟩ := ih fun l hl => h l (List.mem_cons_of_mem line hl)
      exact ⟨s :: raw, by rw [List.map_cons, fromUtf8_eq_some.1 hs]⟩
  · rintro ⟨raw, rfl⟩ line hline
    obtain ⟨s, _, rfl⟩ := List.mem_map.1 hline
    simp

theorem mapM_fromUtf8_eq_none {ls : List Bytes} {line : Bytes} (hmem : line ∈ ls) (h : fromUtf8 line = none) :
    ls.mapM fromUtf8 = none := by
  induction ls with
  | nil => cases hmem
  | cons l ls ih =>
    rcases List.mem_cons.1 hmem with rfl | hmem
    · simp [h]
    · cases fromUtf8 l <;> simp [ih hmem]

/-! ## Exactness -/

/-- A file that is text throughout is read as the policy promises, but for a bad resource key. -/
theorem readAllEntries_of_texts {raw : List String} (h : lines file = raw.map utf8) :
    (readAllEntries codec policy (some file)).toOption = replayed policy [] (tailScan codec file) ∧
      (tailScan codec file).fault ≠ some .encoding := by
  have hscan : tailScan codec file = scan skipsLine (lookRecord codec (parseLine codec)) none raw := by
    rw [tailScan, h]
    exact scan_congr_map (fun s _ => significant_utf8 s) fun s _ l _ => usable_utf8 l s
  constructor
  · rw [hscan]
    exact readAllEntries_texts (by rw [h, mapM_fromUtf8])
  · rw [hscan]
    intro hf
    obtain ⟨l, s, _, hl⟩ := scan_fault hf
    exact lookRecord_ne_encoding hl

/-- **Where tail recovery is exact.** The read of a file is as the policy promises if and only if the policy refuses the
tail (a bad line under `Strict`, or more significant lines from the first bad one on than it tolerates), or every line
of the file is UTF-8 and the first bad line is not one whose only defect is an assignment key. -/
theorem tail_recovery_exact_iff :
    TailExact codec policy file ↔
      policy.tolerates (tailScan codec file).tail = false ∨
        ((∀ line ∈ lines file, (fromUtf8 line).isSome = true) ∧ (tailScan codec file).fault ≠ some .resourceKey) := by
  rw [tailExact_iff]
  by_cases htexts : ∀ line ∈ lines file, (fromUtf8 line).isSome = true
  · obtain ⟨raw, hraw⟩ := mapM_fromUtf8_isSome.1 htexts
    obtain ⟨hread, hencoding⟩ := @readAllEntries_of_texts codec policy file raw hraw
    rw [hread, replayed]
    cases hf : (tailScan codec file).fault with
    | none =>
      have hzero : (tailScan codec file).tail = 0 := scan_tail_eq_zero_iff.2 hf
      exact iff_of_true (by simp [hzero, tolerates_zero]) (Or.inr ⟨htexts, by simp⟩)
    | some fault =>
      cases fault with
      | encoding => exact absurd hf hencoding
      | json => exact iff_of_true (by simp [RecordFault.recoverable]) (Or.inr ⟨htexts, by simp⟩)
      | index => exact iff_of_true (by simp [RecordFault.recoverable]) (Or.inr ⟨htexts, by simp⟩)
      | resourceKey => cases policy.tolerates (tailScan codec file).tail <;> simp [RecordFault.recoverable]
  · -- The whole read fails, so only a promised error is kept.
    obtain ⟨line, hline, hnone⟩ : ∃ line ∈ lines file, fromUtf8 line = none := by
      simpa only [not_forall, exists_prop, Option.not_isSome_iff_eq_none] using htexts
    have hread : (readAllEntries codec policy (some file)).toOption = none := by
      simp only [readAllEntries, mapM_fromUtf8_eq_none hline hnone]
      rfl
    rw [hread]
    simp only [htexts, false_and, or_false]
    cases ht : policy.tolerates (tailScan codec file).tail <;> simp

/-- A tail of one line, torn inside a character: the policy tolerates one line, and the read fails. -/
theorem torn_character_is_fatal :
    tailScan serdeLog [0xC3] = ⟨[], some .encoding, 1⟩ ∧
      readAllEntries serdeLog (.truncateTail 1) (some [0xC3]) = .error (.io "stream did not contain valid UTF-8") ∧
      ¬TailExact serdeLog (.truncateTail 1) [0xC3] := by
  have hscan : tailScan serdeLog [0xC3] = ⟨[], some .encoding, 1⟩ := by
    have hlines : lines [0xC3] = [[0xC3]] := by decide
    have hsig : significant [0xC3] = true := by decide
    have hutf : fromUtf8 [0xC3] = none := by decide
    simp [tailScan, hlines, scan, hsig, usable, hutf]
  have hread : readAllEntries serdeLog (.truncateTail 1) (some [0xC3]) =
      .error (.io "stream did not contain valid UTF-8") := by
    have hlines : (lines [0xC3]).mapM fromUtf8 = none := by decide
    simp only [readAllEntries, hlines]
  refine ⟨hscan, hread, fun h => ?_⟩
  have hok := h.tolerated 1 (by rw [hscan]; decide) rfl (by rw [hscan])
  rw [hread] at hok
  cases hok

end FileMetadataLog

end Ganglion
