import Ganglion.Lib.Numeral
import Ganglion.Consensus.MetadataNode

/-!
# Replay profiles

How a persisted node is told what to do with a damaged tail of its log: `PersistedMetadataReplayProfile` with its text
form, the replay policy it stands for, and where it is taken from (an explicit text, the environment, or the default).

* `fromStr_eq_ok`: the texts that are accepted, as a grammar (`Spells`).
* `toReplayPolicy_fromReplayPolicy`: every policy has a profile. A limit that is the default one is reported as the
  default profile, so `fromReplayPolicy` after `toReplayPolicy` may rename a profile, but not change what it does.
-/

namespace Ganglion

open Text

/-! ## Profiles -/

/-- `PersistedMetadataReplayProfile`. -/
inductive PersistedMetadataReplayProfile where
  | strict
  | default
  | truncateTail (maxTailLines : Nat)
  deriving DecidableEq

/-- `OpenraftAdapterError`, as far as a start answers with it: a configuration error, or what the node answers. -/
inductive StartupError where
  | config (details : String)
  | node (error : AdapterError)
  deriving DecidableEq

/-- `Display for ParseIntError`. -/
def displayFault : Numeral.Fault → String
  | .empty => "cannot parse integer from empty string"
  | .invalidDigit => "invalid digit found in string"
  | .posOverflow => "number too large to fit in target type"

/-- The number of values of `usize`. -/
def usizeValues : Nat := UInt64.size

namespace PersistedMetadataReplayProfile

/-- `DEFAULT_TAIL_REPLAY_LIMIT`. -/
def defaultTailReplayLimit : Nat := 1

/-- `env_var_name`. -/
def envVarName : String := "GANGLION_PERSISTED_REPLAY_PROFILE"

/-- `to_replay_policy`. -/
def toReplayPolicy : PersistedMetadataReplayProfile → FileMetadataReplayPolicy
  | strict => .strict
  | default => .truncateTail defaultTailReplayLimit
  | truncateTail maxTailLines => .truncateTail maxTailLines

/-- `from_replay_policy`. -/
def fromReplayPolicy : FileMetadataReplayPolicy → PersistedMetadataReplayProfile
  | .strict => strict
  | .truncateTail maxTailLines => if maxTailLines = defaultTailReplayLimit then default else truncateTail maxTailLines

/-- Every policy is that of its profile. -/
@[simp] theorem toReplayPolicy_fromReplayPolicy (policy : FileMetadataReplayPolicy) :
    (fromReplayPolicy policy).toReplayPolicy = policy := by
  cases policy with
  | strict => rfl
  | truncateTail n =>
    rw [fromReplayPolicy]
    split
    · next h => rw [h]; rfl
    · rfl

/-! ## The text of a profile -/

/-- `raw.trim().to_ascii_lowercase()`. -/
def normalized (raw : String) : List Char := (trim raw).toList.map Char.toLower

/-- A number of lines after one of the prefixes. -/
def parseTailLimit (suffix : List Char) : Except StartupError PersistedMetadataReplayProfile :=
  match Numeral.readUnsigned usizeValues suffix with
  | .ok maxTailLines => .ok (truncateTail maxTailLines)
  | .error fault =>
    let shown := String.ofList suffix
    let reason := displayFault fault
    .error (.config s!"invalid tail limit `{shown}`: {reason}")

/-- `FromStr for PersistedMetadataReplayProfile`. -/
def fromStr (raw : String) : Except StartupError PersistedMetadataReplayProfile :=
  let text := normalized raw
  if text = [] ∨ text = "default".toList then .ok default
  else if text = "strict".toList then .ok strict
  else if text = "resilient".toList then .ok default
  else match text.dropPrefix? "truncate_tail:".toList with
  | some suffix => parseTailLimit suffix
  | none =>
    match text.dropPrefix? "tail:".toList with
    | some suffix => parseTailLimit suffix
    | none =>
      match Numeral.readUnsigned usizeValues text with
      | .ok maxTailLines => .ok (truncateTail maxTailLines)
      | .error fault =>
        let reason := displayFault fault
        .error (.config s!"invalid persisted replay profile `{raw}`: {reason}")

/-- What may stand before a limit. -/
def leads : List String := ["", "tail:", "truncate_tail:"]

/-- The texts of a profile, in lower case and without white space around them. -/
inductive Spells : List Char → PersistedMetadataReplayProfile → Prop where
  | empty : Spells [] default
  | default : Spells "default".toList default
  | resilient : Spells "resilient".toList default
  | strict : Spells "strict".toList strict
  | limit {lead plus : String} {digits : List Char} : lead ∈ leads → plus ∈ ["", "+"] → Numeral.Digits digits →
      Numeral.value digits < usizeValues →
      Spells (lead.toList ++ (plus.toList ++ digits)) (truncateTail (Numeral.value digits))

section

variable {raw : String} {p : PersistedMetadataReplayProfile} {suffix : List Char}

theorem readUnsigned_eq_ok {n : Nat} :
    Numeral.readUnsigned usizeValues suffix = .ok n ↔ ∃ plus ∈ ["", "+"], ∃ digits, Numeral.Digits digits ∧
      suffix = plus.toList ++ digits ∧ Numeral.value digits = n ∧ n < usizeValues := by
  rw [Numeral.readUnsigned_eq_ok (by decide)]
  constructor
  · rintro ⟨cs, rfl | rfl, hdigits, hn⟩
    · exact ⟨"", by simp, _, hdigits, rfl, hn⟩
    · exact ⟨"+", by simp, cs, hdigits, rfl, hn⟩
  · rintro ⟨plus, hplus, digits, hdigits, rfl, hn⟩
    rcases List.mem_pair.1 hplus with rfl | rfl
    · exact ⟨digits, .inl rfl, hdigits, hn⟩
    · exact ⟨digits, .inr rfl, hdigits, hn⟩

/-- A number after a lead spells a limit. -/
theorem spells_limit {lead : String} (hlead : lead ∈ leads) {n : Nat}
    (h : Numeral.readUnsigned usizeValues suffix = .ok n) : Spells (lead.toList ++ suffix) (truncateTail n) := by
  obtain ⟨plus, hplus, digits, hdigits, rfl, rfl, hlt⟩ := readUnsigned_eq_ok.1 h
  exact .limit hlead hplus hdigits hlt

theorem parseTailLimit_eq_ok :
    parseTailLimit suffix = .ok p ↔ ∃ n, Numeral.readUnsigned usizeValues suffix = .ok n ∧ p = truncateTail n := by
  unfold parseTailLimit
  cases Numeral.readUnsigned usizeValues suffix with
  | ok n => simp [eq_comm]
  | error fault => simp

theorem dropPrefix?_eq_some {text lead : List Char} (h : text.dropPrefix? lead = some suffix) :
    text = lead ++ suffix := by
  obtain ⟨p, rfl, hp⟩ := List.dropPrefix?_eq_some_iff.1 h
  rw [eq_of_beq hp]

theorem spells_of_fromStr (h : fromStr raw = .ok p) : Spells (normalized raw) p := by
  unfold fromStr at h
  dsimp only at h
  split at h
  · next hword =>
    cases h
    rcases hword with hword | hword
    · rw [hword]
      exact .empty
    · rw [hword]
      exact .default
  · split at h
    · next hword =>
      cases h
      rw [hword]
      exact .strict
    · split at h
      · next hword =>
        cases h
        rw [hword]
        exact .resilient
      · split at h
        · next suffix hdrop =>
          obtain ⟨n, hn, rfl⟩ := parseTailLimit_eq_ok.1 h
          rw [dropPrefix?_eq_some hdrop]
          exact spells_limit (by simp [leads]) hn
        · split at h
          · next suffix hdrop =>
            obtain ⟨n, hn, rfl⟩ := parseTailLimit_eq_ok.1 h
            rw [dropPrefix?_eq_some hdrop]
            exact spells_limit (by simp [leads]) hn
          · split at h
            · next n hn =>
              cases h
              have hlimit := @spells_limit (normalized raw) "" (by simp [leads]) n hn
              rwa [String.toList_empty, List.nil_append] at hlimit
            · cases h

/-- No number starts with a `t`, and no word is a number. -/
theorem readUnsigned_t (cs : List Char) : Numeral.readUnsigned usizeValues ('t' :: cs) = .error .invalidDigit := rfl

theorem fromStr_of_spells (h : Spells (normalized raw) p) : fromStr raw = .ok p := by
  unfold fromStr
  dsimp only
  generalize normalized raw = text at h
  cases h with
  | empty => simp
  | default => simp
  | resilient => simp
  | strict => simp
  | @limit lead plus digits hlead hplus hdigits hlt =>
    have hnumber : Numeral.readUnsigned usizeValues (plus.toList ++ digits) = .ok (Numeral.value digits) :=
      readUnsigned_eq_ok.2 ⟨plus, hplus, digits, hdigits, rfl, rfl, hlt⟩
    have hlimit := parseTailLimit_eq_ok.2 ⟨_, hnumber, rfl⟩
    generalize plus.toList ++ digits = number at hnumber hlimit
    simp only [leads, List.mem_cons, List.not_mem_nil, or_false] at hlead
    rcases hlead with rfl | rfl | rfl
    · -- a number is none of the words, and has none of the prefixes
      have hword : ∀ word, Numeral.readUnsigned usizeValues word ≠ .ok (Numeral.value digits) → number ≠ word :=
        fun word hne h => hne (h ▸ hnumber)
      have hlead : ∀ cs, number.dropPrefix? ('t' :: cs) = none := by
        intro cs
        cases hdrop : number.dropPrefix? ('t' :: cs) with
        | none => rfl
        | some suffix =>
          rw [dropPrefix?_eq_some hdrop, List.cons_append, readUnsigned_t] at hnumber
          cases hnumber
      have hnil : number ≠ [] := hword [] (by simp [Numeral.readUnsigned])
      have hdefault : number ≠ "default".toList := hword _ (by simp [Numeral.readUnsigned, Numeral.readDigits])
      have hstrict : number ≠ "strict".toList := hword _ (by simp [Numeral.readUnsigned, Numeral.readDigits])
      have hresilient : number ≠ "resilient".toList := hword _ (by simp [Numeral.readUnsigned, Numeral.readDigits])
      have htruncate : number.dropPrefix? "truncate_tail:".toList = none := by simpa using hlead _
      have htail : number.dropPrefix? "tail:".toList = none := by simpa using hlead _
      rw [String.toList_empty, List.nil_append, if_neg (not_or.2 ⟨hnil, hdefault⟩), if_neg hstrict,
        if_neg hresilient, htruncate, htail, hnumber]
    · simpa [List.dropPrefix?] using hlimit
    · simpa [List.dropPrefix?] using hlimit

/-- **The texts that are accepted.** -/
theorem fromStr_eq_ok : fromStr raw = .ok p ↔ Spells (normalized raw) p := ⟨spells_of_fromStr, fromStr_of_spells⟩

/-! ## Every profile has a text -/

/-- A text of the profile. -/
def spelling : PersistedMetadataReplayProfile → String
  | strict => "strict"
  | default => "default"
  | truncateTail maxTailLines => "tail:" ++ maxTailLines.repr

theorem spelling_truncateTail (n : Nat) :
    (truncateTail n).spelling.toList = "tail:".toList ++ Nat.toDigits 10 n := by
  rw [spelling, String.toList_append, Nat.toList_repr]

/-- The limit is a `usize`. -/
def Fits : PersistedMetadataReplayProfile → Prop
  | truncateTail maxTailLines => maxTailLines < usizeValues
  | _ => True

theorem spells_spelling (h : p.Fits) : Spells p.spelling.toList p := by
  cases p with
  | strict => exact .strict
  | default => exact .default
  | truncateTail n =>
    rw [spelling_truncateTail]
    exact spells_limit (by simp [leads]) (Numeral.readUnsigned_toDigits h)

theorem isWhiteSpace_of_isDigit {c : Char} (h : c.isDigit = true) : isWhiteSpace c = false := by
  obtain ⟨hge, hle⟩ := Char.isDigit_iff_toNat.1 h
  change 48 ≤ c.toNat at hge
  change c.toNat ≤ 57 at hle
  rw [Bool.eq_false_iff]
  simp only [isWhiteSpace, ne_eq, Bool.or_eq_true, Bool.and_eq_true, decide_eq_true_eq, beq_iff_eq]
  omega

/-- A text of a profile has no white space in it. -/
theorem spelling_dense (p : PersistedMetadataReplayProfile) :
    p.spelling.toList ≠ [] ∧ ∀ c ∈ p.spelling.toList, isWhiteSpace c = false := by
  cases p with
  | strict => simp [spelling, isWhiteSpace]
  | default => simp [spelling, isWhiteSpace]
  | truncateTail n =>
    rw [spelling_truncateTail]
    refine ⟨by simp, fun c hc => ?_⟩
    rcases List.mem_append.1 hc with hc | hc
    · have hlead : ∀ c ∈ "tail:".toList, isWhiteSpace c = false := by simp [isWhiteSpace]
      exact hlead c hc
    · exact isWhiteSpace_of_isDigit (List.all_eq_true.1 (Numeral.digits_toDigits n).digits c hc)

/-- Letter case and white space around the text do not matter. -/
theorem normalized_spelled {w spelled w' : List Char} (hw : w.all isWhiteSpace = true)
    (hw' : w'.all isWhiteSpace = true) (h : spelled.map Char.toLower = p.spelling.toList) :
    normalized (.ofList (w ++ spelled ++ w')) = p.spelling.toList := by
  obtain ⟨hne, hdense⟩ := p.spelling_dense
  have hdense' : ∀ c ∈ spelled, isWhiteSpace c = false := by
    intro c hc
    cases hwhite : isWhiteSpace c with
    | false => rfl
    | true =>
      have hlower := hdense c.toLower (h ▸ List.mem_map_of_mem hc)
      rw [toLower_of_isWhiteSpace hwhite, hwhite] at hlower
      cases hlower
  have hne' : spelled ≠ [] := by
    rintro rfl
    exact hne h.symm
  rw [normalized, trim_surrounded hw hw' (List.head?_eq_some_head hne') (List.getLast?_eq_some_getLast hne')
    (hdense' _ (List.head_mem hne')) (hdense' _ (List.getLast_mem hne')), String.toList_ofList, h]

end

/-- **The text form of the replay profiles.** A text is accepted as a profile if and only if, without the white space
around it and in lower case, it is one of the profile's spellings: a word, or a number of lines below `2^64` after one
of the prefixes, with a plus sign or without. Every profile can be written so, in any letter case and with any white
space around it. The profile of a policy stands for that policy. -/
theorem replay_profile_texts :
    (∀ raw p, fromStr raw = .ok p ↔ Spells (normalized raw) p) ∧
    (∀ p : PersistedMetadataReplayProfile, p.Fits → ∀ w spelled w' : List Char, w.all isWhiteSpace = true →
      w'.all isWhiteSpace = true → spelled.map Char.toLower = p.spelling.toList →
      fromStr (.ofList (w ++ spelled ++ w')) = .ok p) ∧
    ∀ policy, (fromReplayPolicy policy).toReplayPolicy = policy := by
  refine ⟨fun raw p => fromStr_eq_ok, fun p hfits w spelled w' hw hw' h => ?_, toReplayPolicy_fromReplayPolicy⟩
  rw [fromStr_eq_ok, normalized_spelled hw hw' h]
  exact spells_spelling hfits

example : fromStr " Truncate_Tail:+007 " = .ok (truncateTail 7) := by decide

end PersistedMetadataReplayProfile

/-! ## Where the profile comes from -/

/-- `std::env::var`. -/
inductive EnvVar where
  | present (raw : String)
  | notPresent
  /-- The value is not Unicode; how it is shown. -/
  | notUnicode (shown : String)
  deriving DecidableEq

/-- `PersistedMetadataReplayProfileSource`. -/
inductive PersistedMetadataReplayProfileSource where
  | default
  | environment
  | explicit
  deriving DecidableEq

/-- `PersistedMetadataReplayProfileResolution`. -/
structure PersistedMetadataReplayProfileResolution where
  profile : PersistedMetadataReplayProfile
  source : PersistedMetadataReplayProfileSource
  deriving DecidableEq

namespace PersistedMetadataReplayProfileResolution

open PersistedMetadataReplayProfile

/-- `from_profile`. -/
def fromProfile (profile : PersistedMetadataReplayProfile) : PersistedMetadataReplayProfileResolution :=
  ⟨profile, .explicit⟩

/-- `from_env_or_default`. -/
def fromEnvOrDefault (env : EnvVar) : Except StartupError PersistedMetadataReplayProfileResolution :=
  match env with
  | .present raw => (fromStr raw).map fun profile => ⟨profile, .environment⟩
  | .notPresent => .ok ⟨.default, .default⟩
  | .notUnicode shown =>
    .error (.config s!"failed to read {envVarName}: environment variable was not valid unicode: {shown}")

/-- `from_explicit_or_env`. -/
def fromExplicitOrEnv (explicit : Option String) (env : EnvVar) :
    Except StartupError PersistedMetadataReplayProfileResolution :=
  match explicit with
  | some raw => (fromStr raw).map fun profile => ⟨profile, .explicit⟩
  | none => fromEnvOrDefault env

/-- `from_env_var`. -/
def fromEnvVar (env : EnvVar) : Except StartupError PersistedMetadataReplayProfile :=
  (fromEnvOrDefault env).map (·.profile)

/-- A text that is accepted resolves as its profile does. -/
theorem fromExplicitOrEnv_text {raw : String} {profile : PersistedMetadataReplayProfile} (h : fromStr raw = .ok profile)
    (env : EnvVar) : fromExplicitOrEnv (some raw) env = .ok (fromProfile profile) := by
  simp only [fromExplicitOrEnv, h, Except.map, fromProfile]

end PersistedMetadataReplayProfileResolution

end Ganglion
