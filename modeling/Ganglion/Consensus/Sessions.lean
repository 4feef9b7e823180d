import Ganglion.Consensus.NodeRuns
import Ganglion.Consensus.PlanAndApply
import Ganglion.Consensus.ReplayProfile
import Ganglion.Storage.TailRecovery

/-!
# Sessions of a persisted node

A persisted node is started on a log file, works, is stopped and started again, each time under a replay profile of its
own. Between sessions the file may be damaged in any way; `history` are the proposals accepted since then.

* `readAllEntries_eq_ok_iff`: when a file can be read under a policy, and what is read then does not depend on it.
* `newWithReplayProfileStr_eq_ok_iff`: when a start succeeds, and with which node.
* `start_constructors`: each constructor of the node is such a start.
* `applySnapshot_file`: an accepted proposal leaves a file without a tail.
* `sessions_recover`: the profiles decide whether a node starts on a damaged file, and nothing else.
-/

namespace Ganglion

open Text Scan FileMetadataLog PersistedMetadataReplayProfile

/-! ## Starting -/

/-- `Default for FileMetadataReplayPolicy`. -/
def FileMetadataReplayPolicy.default : FileMetadataReplayPolicy := .strict

/-- `PersistedMetadataNode`: the node over the file, and the replay policy of its log. -/
structure PersistedMetadataNode where
  inner : MetadataNode (Option Bytes)
  replayPolicy : FileMetadataReplayPolicy
  startupReplayProfile : PersistedMetadataReplayProfile

namespace PersistedMetadataNode

variable (codec : LogCodec) (file : Option Bytes) (nodeId : String) (initialSnapshot : CoordinationSnapshot)

/-- `new_with_replay_policy`, on what the file at the path holds. -/
def newWithReplayPolicy (replayPolicy : FileMetadataReplayPolicy) : Except StartupError PersistedMetadataNode :=
  let replayProfile := fromReplayPolicy replayPolicy
  let logPolicy :=
    match replayProfile.toReplayPolicy with
    -- `FileMetadataLog::new`
    | .strict => FileMetadataReplayPolicy.default
    | .truncateTail _ => replayPolicy
  match MetadataNode.new (fileMetadataLog codec logPolicy) nodeId initialSnapshot file with
  | .error error => .error (.node error)
  | .ok inner => .ok ⟨inner, logPolicy, replayProfile⟩

/-- `new_with_replay_profile`. -/
def newWithReplayProfile (replayProfile : PersistedMetadataReplayProfile) :
    Except StartupError PersistedMetadataNode :=
  newWithReplayPolicy codec file nodeId initialSnapshot replayProfile.toReplayPolicy

/-- `new`. -/
def new : Except StartupError PersistedMetadataNode := newWithReplayProfile codec file nodeId initialSnapshot .default

/-- `new_strict`. -/
def newStrict : Except StartupError PersistedMetadataNode :=
  newWithReplayProfile codec file nodeId initialSnapshot .strict

/-- `new_with_tail_replay_limit`. -/
def newWithTailReplayLimit (maxTailLines : Nat) : Except StartupError PersistedMetadataNode :=
  newWithReplayProfile codec file nodeId initialSnapshot (.truncateTail maxTailLines)

/-- `new_with_replay_profile_resolution`. -/
def newWithReplayProfileResolution (startupProfile : PersistedMetadataReplayProfileResolution) :
    Except StartupError PersistedMetadataNode :=
  newWithReplayProfile codec file nodeId initialSnapshot startupProfile.profile

/-- `new_with_replay_profile_str`. -/
def newWithReplayProfileStr (rawProfile : Option String) (env : EnvVar) :
    Except StartupError (PersistedMetadataNode × PersistedMetadataReplayProfileResolution) :=
  match PersistedMetadataReplayProfileResolution.fromExplicitOrEnv rawProfile env with
  | .error error => .error error
  | .ok resolved =>
    match newWithReplayProfile codec file nodeId initialSnapshot resolved.profile with
    | .error error => .error error
    | .ok node => .ok (node, resolved)

/-- `new_with_profile_env`, and `new_from_env`. -/
def newWithProfileEnv (env : EnvVar) : Except StartupError PersistedMetadataNode :=
  match PersistedMetadataReplayProfileResolution.fromEnvOrDefault env with
  | .error error => .error error
  | .ok resolved => newWithReplayProfileResolution codec file nodeId initialSnapshot resolved

/-- `startup_replay_policy`. -/
def startupReplayPolicy (node : PersistedMetadataNode) : FileMetadataReplayPolicy :=
  node.startupReplayProfile.toReplayPolicy

end PersistedMetadataNode

/-! ## What a file gives back -/

section

variable (codec : LogCodec)

/-- The entries before the first line that is not usable. -/
def recovered : Option Bytes → List MetadataLogEntry
  | none => []
  | some file => (tailScan codec file).entries

/-- The file can be read under the policy: it is text, the first line that is not usable is not one with a bad resource
key, and the policy tolerates the lines from there on. -/
def Readable (policy : FileMetadataReplayPolicy) : Option Bytes → Prop
  | none => True
  | some file => (∀ line ∈ lines file, (fromUtf8 line).isSome = true) ∧
      (tailScan codec file).fault ≠ some .resourceKey ∧ policy.tolerates (tailScan codec file).tail = true

variable {codec} {policy : FileMetadataReplayPolicy} {file : Option Bytes} {es : List MetadataLogEntry}

/-- What the scan finds is answered when there is no fault that the policy cannot excuse. -/
theorem replayed_eq_some_iff {r : Scanned MetadataLogEntry RecordFault} (htail : r.tail = 0 ↔ r.fault = none)
    (hencoding : r.fault ≠ some .encoding) :
    replayed policy [] r = some es ↔
      (r.fault ≠ some .resourceKey ∧ policy.tolerates r.tail = true) ∧ r.entries = es := by
  unfold replayed
  cases hf : r.fault with
  | none => simp [htail.2 hf, tolerates_zero]
  | some fault =>
    cases fault with
    | encoding => exact absurd hf hencoding
    | json => simp [RecordFault.recoverable]
    | index => simp [RecordFault.recoverable]
    | resourceKey => simp [RecordFault.recoverable]

/-- **What is read does not depend on the policy**, which only decides whether it is. -/
theorem readAllEntries_eq_ok_iff :
    readAllEntries codec policy file = .ok es ↔ Readable codec policy file ∧ recovered codec file = es := by
  cases file with
  | none => simp [readAllEntries, Readable, recovered]
  | some bytes =>
    by_cases htexts : ∀ line ∈ lines bytes, (fromUtf8 line).isSome = true
    · obtain ⟨raw, hraw⟩ := mapM_fromUtf8_isSome.1 htexts
      obtain ⟨hread, hencoding⟩ := @readAllEntries_of_texts codec policy bytes raw hraw
      have htail : (tailScan codec bytes).tail = 0 ↔ (tailScan codec bytes).fault = none := scan_tail_eq_zero_iff
      rw [← toOption_eq_some, hread, replayed_eq_some_iff htail hencoding]
      exact and_congr_left fun _ => ⟨fun h => ⟨htexts, h⟩, And.right⟩
    · have hnot : ¬Readable codec policy (some bytes) := fun h => htexts h.1
      simp only [hnot, false_and, iff_false]
      obtain ⟨line, hline, hnone⟩ : ∃ line ∈ lines bytes, fromUtf8 line = none := by
        simpa only [not_forall, exists_prop, Option.not_isSome_iff_eq_none] using htexts
      simp [readAllEntries, mapM_fromUtf8_eq_none hline hnone]

/-- A file that is written whole can be read under every policy. -/
theorem readable_encodeEntries (h : Sequential es) (policy : FileMetadataReplayPolicy) :
    Readable codec policy (some (encodeEntries codec es)) ∧ recovered codec (some (encodeEntries codec es)) = es :=
  readAllEntries_eq_ok_iff.1 (readAllEntries_encodeEntries h)

/-- The node that starts on what a file gives back. -/
def recoveredNode (codec : LogCodec) (profile : PersistedMetadataReplayProfile) (file : Option Bytes) (nodeId : String)
    (initialSnapshot : CoordinationSnapshot) : PersistedMetadataNode where
  inner :=
    { localNodeId := nodeId
      store :=
        match (recovered codec file).getLast? with
        | some entry => ⟨entry.term, none, entry.snapshot⟩
        | none => ⟨1, none, initialSnapshot⟩
      log := file }
  replayPolicy := profile.toReplayPolicy
  startupReplayProfile := fromReplayPolicy profile.toReplayPolicy

variable {nodeId : String} {initialSnapshot : CoordinationSnapshot} {node : PersistedMetadataNode}

theorem newWithReplayProfile_eq_ok_iff {profile : PersistedMetadataReplayProfile} :
    PersistedMetadataNode.newWithReplayProfile codec file nodeId initialSnapshot profile = .ok node ↔
      Readable codec profile.toReplayPolicy file ∧
        recoveredNode codec profile file nodeId initialSnapshot = node := by
  have hpolicy : (match profile.toReplayPolicy with
      | .strict => FileMetadataReplayPolicy.default
      | .truncateTail _ => profile.toReplayPolicy) = profile.toReplayPolicy := by
    cases profile <;> rfl
  simp only [PersistedMetadataNode.newWithReplayProfile, PersistedMetadataNode.newWithReplayPolicy,
    toReplayPolicy_fromReplayPolicy, hpolicy, MetadataNode.new, OpenraftLikeStore.new, fileMetadataLog]
  by_cases hread : Readable codec profile.toReplayPolicy file
  · have hentries := readAllEntries_eq_ok_iff.2 ⟨hread, rfl⟩
    simp only [hentries, hread, true_and, Except.map, recoveredNode]
    cases (recovered codec file).getLast? <;> simp
  · have hentries : ∀ es, readAllEntries codec profile.toReplayPolicy file ≠ .ok es :=
      fun es h => hread (readAllEntries_eq_ok_iff.1 h).1
    cases h : readAllEntries codec profile.toReplayPolicy file with
    | ok es => exact absurd h (hentries es)
    | error error => simp [hread, Except.map]

/-- **When a node starts**: the profile can be resolved, and the file can be read under it. -/
theorem newWithReplayProfileStr_eq_ok_iff {rawProfile : Option String} {env : EnvVar}
    {resolved : PersistedMetadataReplayProfileResolution} :
    PersistedMetadataNode.newWithReplayProfileStr codec file nodeId initialSnapshot rawProfile env =
        .ok (node, resolved) ↔
      PersistedMetadataReplayProfileResolution.fromExplicitOrEnv rawProfile env = .ok resolved ∧
        Readable codec resolved.profile.toReplayPolicy file ∧
        recoveredNode codec resolved.profile file nodeId initialSnapshot = node := by
  rw [PersistedMetadataNode.newWithReplayProfileStr]
  cases PersistedMetadataReplayProfileResolution.fromExplicitOrEnv rawProfile env with
  | error error => simp
  | ok resolution =>
    simp only [Except.ok.injEq]
    rw [← newWithReplayProfile_eq_ok_iff]
    cases h : PersistedMetadataNode.newWithReplayProfile codec file nodeId initialSnapshot resolution.profile with
    | error error =>
      simp only [reduceCtorEq, false_iff, not_and]
      rintro rfl hok
      rw [h] at hok
      cases hok
    | ok started =>
      simp only [Except.ok.injEq, Prod.mk.injEq]
      constructor
      · rintro ⟨rfl, rfl⟩
        exact ⟨rfl, h⟩
      · rintro ⟨rfl, hok⟩
        rw [h] at hok
        exact ⟨Except.ok.inj hok, rfl⟩

/-! ## Accepted proposals -/

variable {inner : MetadataNode (Option Bytes)} {proposer : String} {snapshot : CoordinationSnapshot}
  {term : Option UInt64}

/-- The entries after an accepted proposal. -/
def entriesAfter (inner : MetadataNode (Option Bytes)) (snapshot : CoordinationSnapshot) (term : Option UInt64)
    (es : List MetadataLogEntry) : List MetadataLogEntry :=
  inner.entriesBefore term es ++ [⟨inner.proposalTerm term, nextLogIndex (inner.entriesBefore term es), snapshot⟩]

/-- An accepted proposal writes the file anew. -/
theorem applySnapshot_file (ha : inner.Accepts proposer snapshot term)
    (hread : readAllEntries codec policy inner.log = .ok es) :
    inner.applySnapshot (fileMetadataLog codec policy) proposer snapshot term =
      (.ok (), { inner with
        store := { inner.store with currentTerm := inner.proposalTerm term, snapshot := snapshot }
        log := some (encodeEntries codec (entriesAfter inner snapshot term es)) }) := by
  rw [MetadataNode.applySnapshot_accepted ha]
  unfold entriesAfter MetadataNode.entriesBefore
  by_cases hterm : inner.store.currentTerm < inner.proposalTerm term
  · have hempty : readAllEntries codec policy (some (encodeEntries codec [])) = .ok [] :=
      readAllEntries_encodeEntries trivial
    rw [MetadataNode.commitSnapshot_higher _ inner.log snapshot hterm, if_pos hterm]
    simp only [fileMetadataLog, hempty]
    rfl
  · have hsame : inner.proposalTerm term = inner.store.currentTerm :=
      UInt64.le_antisymm (UInt64.not_lt.1 hterm) ha.2.1
    rw [if_neg hterm, hsame, MetadataNode.commitSnapshot_same]
    simp only [fileMetadataLog, hread]
    rfl

theorem sequential_entriesAfter (hseq : Sequential es) (hroom : HasRoom es) :
    Sequential (entriesAfter inner snapshot term es) := by
  unfold entriesAfter MetadataNode.entriesBefore
  split
  · have hnil : Sequential [] := trivial
    exact sequential_append hnil (fun e he => by cases he) _ _
  · exact sequential_append hseq hroom _ _

end

/-! ## Sessions -/

/-- The process that the node runs in. The file is what the log of a running node holds. -/
inductive NodeProcess where
  | stopped (file : Option Bytes)
  | running (node : PersistedMetadataNode)

/-- What the file holds. -/
def NodeProcess.file : NodeProcess → Option Bytes
  | stopped file => file
  | running node => node.inner.log

/-- A node in its sessions: the file as it was when it was last damaged, the proposals accepted since then with their
terms, and the snapshots published since then. -/
structure Sessions where
  process : NodeProcess
  origin : Option Bytes
  history : List (UInt64 × CoordinationSnapshot)
  published : List CoordinationSnapshot

/-- What can happen. -/
inductive SessionEvent where
  | start (nodeId : String) (initialSnapshot : CoordinationSnapshot) (rawProfile : Option String) (env : EnvVar)
  | call (call : NodeCall)
  | planAndPublish (proposer : String) (planner : PlacementStrategy) (input : PlacementInput)
  | stop
  /-- The file is replaced while no node runs. -/
  | damage (file : Option Bytes)

namespace Sessions

variable (codec : LogCodec)

/-- Nothing has run yet. -/
def new (file : Option Bytes) : Sessions := ⟨.stopped file, file, [], []⟩

/-- One event. A start that fails leaves the process stopped. -/
def step (w : Sessions) (event : SessionEvent) : Option Sessions :=
  match w.process, event with
  | .stopped file, .start nodeId initialSnapshot rawProfile env =>
    match PersistedMetadataNode.newWithReplayProfileStr codec file nodeId initialSnapshot rawProfile env with
    | .ok (node, _) => some { w with process := .running node }
    | .error _ => some w
  | .running node, .call c =>
    let r := NodeRun.step (fileMetadataLog codec node.replayPolicy) ⟨node.inner, none⟩ c
    some { w with process := .running { node with inner := r.node }, history := w.history ++ r.accepted.toList }
  | .running node, .planAndPublish proposer planner input =>
    let r := node.inner.planAndPublish (fileMetadataLog codec node.replayPolicy) proposer planner input
    some { w with
      process := .running { node with inner := r.2.2 }
      history := w.history ++ (r.2.1.map fun snapshot => (node.inner.proposalTerm none, snapshot)).toList
      published := w.published ++ r.2.1.toList }
  | .running node, .stop => some { w with process := .stopped node.inner.log }
  | .stopped _, .damage file => some ⟨.stopped file, file, [], []⟩
  | _, _ => none

/-- The sessions after a start that gives `result`. -/
def started (w : Sessions) : Except StartupError PersistedMetadataNode → Sessions
  | .ok node => { w with process := .running node }
  | .error _ => w

section Start

open PersistedMetadataNode PersistedMetadataReplayProfileResolution

variable {codec} {w : Sessions} {file : Option Bytes} (nodeId : String) (initialSnapshot : CoordinationSnapshot)

theorem start_of_resolved (hw : w.process = .stopped file) {rawProfile : Option String} {env : EnvVar}
    {resolved : PersistedMetadataReplayProfileResolution} (h : fromExplicitOrEnv rawProfile env = .ok resolved) :
    w.step codec (.start nodeId initialSnapshot rawProfile env) =
      some (w.started (newWithReplayProfile codec file nodeId initialSnapshot resolved.profile)) := by
  simp only [step, hw, newWithReplayProfileStr, h]
  cases newWithReplayProfile codec file nodeId initialSnapshot resolved.profile <;> rfl

theorem start_of_text (hw : w.process = .stopped file) {raw : String} {profile : PersistedMetadataReplayProfile}
    (h : fromStr raw = .ok profile) (env : EnvVar) :
    w.step codec (.start nodeId initialSnapshot (some raw) env) =
      some (w.started (newWithReplayProfileResolution codec file nodeId initialSnapshot (fromProfile profile))) :=
  start_of_resolved nodeId initialSnapshot hw (fromExplicitOrEnv_text h env)

/-- **Each constructor is a start**: with a text of its profile, or with the environment alone. -/
theorem start_constructors (hw : w.process = .stopped file) (env : EnvVar) :
    w.step codec (.start nodeId initialSnapshot (some "strict") env) =
        some (w.started (newStrict codec file nodeId initialSnapshot)) ∧
      (∀ raw maxTailLines, fromStr raw = .ok (.truncateTail maxTailLines) →
        w.step codec (.start nodeId initialSnapshot (some raw) env) =
          some (w.started (newWithTailReplayLimit codec file nodeId initialSnapshot maxTailLines))) ∧
      w.step codec (.start nodeId initialSnapshot none env) =
        some (w.started (newWithProfileEnv codec file nodeId initialSnapshot env)) ∧
      (∀ profile, fromEnvVar env = .ok profile →
        w.step codec (.start nodeId initialSnapshot none env) =
          some (w.started (newWithReplayProfile codec file nodeId initialSnapshot profile))) ∧
      w.step codec (.start nodeId initialSnapshot none .notPresent) =
        some (w.started (PersistedMetadataNode.new codec file nodeId initialSnapshot)) := by
  refine ⟨start_of_text nodeId initialSnapshot hw (by decide : fromStr "strict" = .ok .strict) env,
    fun raw maxTailLines h => start_of_text nodeId initialSnapshot hw h env, ?_, fun profile h => ?_,
    start_of_resolved nodeId initialSnapshot hw
      (rfl : fromExplicitOrEnv none .notPresent = .ok ⟨.default, .default⟩)⟩
  · cases h : fromEnvOrDefault env with
    | error error => simp only [step, hw, newWithReplayProfileStr, fromExplicitOrEnv, newWithProfileEnv, h, started]
    | ok resolved =>
      have hresolved : fromExplicitOrEnv none env = .ok resolved := h
      rw [start_of_resolved nodeId initialSnapshot hw hresolved]
      simp only [newWithProfileEnv, newWithReplayProfileResolution, h]
  · cases hresolved : fromEnvOrDefault env with
    | error error =>
      rw [fromEnvVar, hresolved] at h
      cases h
    | ok resolved =>
      rw [fromEnvVar, hresolved] at h
      cases h
      exact start_of_resolved nodeId initialSnapshot hw hresolved

end Start

/-- There is an index left in the log when something is proposed. -/
def Fits (w : Sessions) : SessionEvent → Prop
  | .call _ | .planAndPublish _ _ _ => HasRoom (recovered codec w.process.file)
  | _ => True

end Sessions

/-! ## The invariant -/

/-- Neither term nor generation decreases. -/
def NotBefore (a b : UInt64 × CoordinationSnapshot) : Prop := a.1 ≤ b.1 ∧ a.2.generation ≤ b.2.generation

theorem NotBefore.trans {a b c : UInt64 × CoordinationSnapshot} (h : NotBefore a b) (h' : NotBefore b c) :
    NotBefore a c := ⟨UInt64.le_trans h.1 h'.1, UInt64.le_trans h.2 h'.2⟩

/-- Term and snapshot of an entry. -/
def MetadataLogEntry.view (e : MetadataLogEntry) : UInt64 × CoordinationSnapshot := (e.term, e.snapshot)

namespace Sessions

variable {codec : LogCodec}

/-- The file of the sessions: it is as damage left it, or it was written since then. Its entries are the last ones of
those that were recovered and those that were accepted. -/
structure FileInv (codec : LogCodec) (w : Sessions) : Prop where
  fresh : w.history = [] → w.process.file = w.origin
  written : w.history ≠ [] → recovered codec w.process.file ≠ [] ∧ ∀ policy, Readable codec policy w.process.file
  entries : (recovered codec w.process.file).map MetadataLogEntry.view <:+
    (recovered codec w.origin).map MetadataLogEntry.view ++ w.history

/-- What is true of the sessions. A running node can read its log, and has committed the last accepted proposal. -/
structure Inv (codec : LogCodec) (w : Sessions) : Prop where
  file : w.FileInv codec
  reads : ∀ node, w.process = .running node → Readable codec node.replayPolicy node.inner.log
  commits : ∀ node, w.process = .running node → ∀ t s, w.history.getLast? = some (t, s) →
    t ≤ node.inner.store.currentTerm ∧ node.inner.store.snapshot = s
  ordered : w.history.Pairwise NotBefore
  published : w.published.Sublist (w.history.map Prod.snd)

variable {w w' : Sessions}

/-- Once something was accepted, the last entry of the file is the last accepted proposal. -/
theorem FileInv.last (h : w.FileInv codec) {t : UInt64} {s : CoordinationSnapshot}
    (hlast : w.history.getLast? = some (t, s)) :
    ∃ e, (recovered codec w.process.file).getLast? = some e ∧ e.term = t ∧ e.snapshot = s := by
  have hne : w.history ≠ [] := by
    intro hnil
    rw [hnil] at hlast
    cases hlast
  obtain ⟨front, hfront⟩ := h.entries
  have hview : (recovered codec w.process.file).map MetadataLogEntry.view ≠ [] := by
    rw [ne_eq, List.map_eq_nil_iff]
    exact (h.written hne).1
  have hlast' : ((recovered codec w.process.file).map MetadataLogEntry.view).getLast? = some (t, s) := by
    rw [← List.getLast?_append_of_ne_nil front hview, hfront, List.getLast?_append_of_ne_nil _ hne, hlast]
  rw [List.getLast?_map] at hlast'
  obtain ⟨e, he, hview⟩ := Option.map_eq_some_iff.1 hlast'
  cases hview
  exact ⟨e, he, rfl, rfl⟩

/-- A running node moves on without writing. -/
theorem Inv.keep (h : w.Inv codec) {node : PersistedMetadataNode} (hw : w.process = .running node)
    {inner : MetadataNode (Option Bytes)} (hlog : inner.log = node.inner.log)
    (hsnapshot : inner.store.snapshot = node.inner.store.snapshot)
    (hterm : node.inner.store.currentTerm ≤ inner.store.currentTerm) :
    Inv codec { w with process := .running { node with inner := inner } } := by
  have hfile : w.process.file = inner.log := by rw [hw, hlog]; rfl
  obtain ⟨hfresh, hwritten, hentries⟩ := h.file
  rw [hfile] at hfresh hwritten hentries
  refine ⟨⟨hfresh, hwritten, hentries⟩, fun node' hw' => ?_, fun node' hw' t s hlast => ?_, h.ordered, h.published⟩
  · cases hw'
    rw [hlog]
    exact h.reads node hw
  · cases hw'
    obtain ⟨hle, hs⟩ := h.commits node hw t s hlast
    exact ⟨UInt64.le_trans hle hterm, hsnapshot.trans hs⟩

/-- An accepted proposal is appended to the history. -/
theorem Inv.accept (h : w.Inv codec) {node : PersistedMetadataNode} (hw : w.process = .running node)
    (hroom : HasRoom (recovered codec w.process.file)) {proposer : String} {snapshot : CoordinationSnapshot}
    {term : Option UInt64} (ha : node.inner.Accepts proposer snapshot term) {published : List CoordinationSnapshot}
    (hpublished : published.Sublist ((w.history ++ [(node.inner.proposalTerm term, snapshot)]).map Prod.snd)) :
    ∃ inner, node.inner.applySnapshot (fileMetadataLog codec node.replayPolicy) proposer snapshot term =
        (.ok (), inner) ∧
      Inv codec ⟨.running { node with inner := inner }, w.origin,
        w.history ++ [(node.inner.proposalTerm term, snapshot)], published⟩ := by
  have hfile : w.process.file = node.inner.log := by rw [hw]; rfl
  have hentries := h.file.entries
  rw [hfile] at hroom hentries
  have hread := readAllEntries_eq_ok_iff.2 ⟨h.reads node hw, rfl⟩
  have hseq : Sequential (entriesAfter node.inner snapshot term (recovered codec node.inner.log)) :=
    sequential_entriesAfter (sequential_of_read hread) hroom
  refine ⟨_, applySnapshot_file ha hread, ⟨?_, ?_, ?_⟩, ?_, ?_, ?_, hpublished⟩
  · intro hnil
    exact absurd hnil (by simp)
  · intro _
    refine ⟨?_, fun policy => (readable_encodeEntries hseq policy).1⟩
    show recovered codec (some _) ≠ []
    rw [(readable_encodeEntries hseq .strict).2, entriesAfter]
    simp
  · show (recovered codec (some _)).map _ <:+ _
    rw [(readable_encodeEntries hseq .strict).2, entriesAfter, List.map_append, ← List.append_assoc]
    unfold MetadataNode.entriesBefore
    split
    · exact List.suffix_append _ _
    · obtain ⟨front, hfront⟩ := hentries
      refine ⟨front, ?_⟩
      rw [← List.append_assoc, hfront]
      rfl
  · intro node' hw'
    cases hw'
    exact (readable_encodeEntries hseq _).1
  · intro node' hw' t s hlast
    cases hw'
    rw [List.getLast?_concat, Option.some.injEq, Prod.mk.injEq] at hlast
    obtain ⟨rfl, rfl⟩ := hlast
    exact ⟨UInt64.le_refl _, rfl⟩
  · rw [List.pairwise_append]
    refine ⟨h.ordered, List.pairwise_singleton _ _, fun a ha' b hb => ?_⟩
    rw [List.mem_singleton.1 hb]
    -- what was accepted before is not after the last one, which the node has committed
    obtain ⟨last, hlast⟩ : ∃ last, w.history.getLast? = some last :=
      Option.isSome_iff_exists.1 (List.getLast?_isSome.2 (List.ne_nil_of_mem ha'))
    obtain ⟨hle, hs⟩ := h.commits node hw last.1 last.2 hlast
    have hnew : NotBefore last (node.inner.proposalTerm term, snapshot) :=
      ⟨UInt64.le_trans hle ha.2.1, by rw [← hs]; exact ha.2.2⟩
    obtain ⟨front, hfront⟩ := List.getLast?_eq_some_iff.1 hlast
    rw [hfront, List.mem_append] at ha'
    rcases ha' with ha' | ha'
    · have hordered := h.ordered
      rw [hfront, List.pairwise_append] at hordered
      exact (hordered.2.2 a ha' last (List.mem_singleton_self last)).trans hnew
    · rw [List.mem_singleton.1 ha']
      exact hnew

theorem Inv.setLeaderTerm (h : w.Inv codec) {node : PersistedMetadataNode} (hw : w.process = .running node)
    (nodeId : String) (term : UInt64) :
    Inv codec { w with process := .running { node with inner := node.inner.setLeaderTerm nodeId term } } := by
  refine h.keep hw rfl ?_ ?_
  · simp only [MetadataNode.setLeaderTerm]
    split <;> rfl
  · simp only [MetadataNode.setLeaderTerm]
    split
    · next hterm => exact hterm
    · exact UInt64.le_refl _

/-- A call on the running node. -/
theorem Inv.call (h : w.Inv codec) {node : PersistedMetadataNode} (hw : w.process = .running node)
    (hroom : HasRoom (recovered codec w.process.file)) (c : NodeCall) {r : NodeRun (Option Bytes)}
    (hr : NodeRun.step (fileMetadataLog codec node.replayPolicy) ⟨node.inner, none⟩ c = r) :
    Inv codec { w with
      process := .running { node with inner := r.node }, history := w.history ++ r.accepted.toList } := by
  subst hr
  cases c with
  | setLeaderTerm nodeId term =>
    simp only [NodeRun.step, Option.toList_none, List.append_nil]
    exact h.setLeaderTerm hw nodeId term
  | setLeader leaderId =>
    simp only [NodeRun.step, Option.toList_none, List.append_nil]
    exact h.setLeaderTerm hw leaderId _
  | clearLeader =>
    simp only [NodeRun.step, Option.toList_none, List.append_nil]
    exact h.keep hw rfl rfl (UInt64.le_refl _)
  | applySnapshot proposer snapshot term =>
    by_cases ha : node.inner.Accepts proposer snapshot term
    · have hpublished : w.published.Sublist ((w.history ++ [(node.inner.proposalTerm term, snapshot)]).map Prod.snd) := by
        rw [List.map_append]
        exact h.published.trans (List.sublist_append_left _ _)
      obtain ⟨inner, happly, hinv⟩ := h.accept hw hroom ha hpublished
      simp only [NodeRun.step, happly]
      exact hinv
    · obtain ⟨error, hrejected⟩ := @MetadataNode.applySnapshot_rejected _
        (fileMetadataLog codec node.replayPolicy) node.inner proposer snapshot term ha
      simp only [NodeRun.step, hrejected, Option.toList_none, List.append_nil]
      exact h.keep hw rfl rfl (UInt64.le_refl _)

/-- A round of the control loop on the running node. -/
theorem Inv.plan (h : w.Inv codec) {node : PersistedMetadataNode} (hw : w.process = .running node)
    (hroom : HasRoom (recovered codec w.process.file)) {proposer : String} {planner : PlacementStrategy}
    {input : PlacementInput} {r : Except AdapterError CoordinationSnapshot × Option CoordinationSnapshot × MetadataNode _}
    (hr : node.inner.planAndPublish (fileMetadataLog codec node.replayPolicy) proposer planner input = r) :
    Inv codec { w with
      process := .running { node with inner := r.2.2 }
      history := w.history ++ (r.2.1.map fun snapshot => (node.inner.proposalTerm none, snapshot)).toList
      published := w.published ++ r.2.1.toList } := by
  subst hr
  have hkeep : Inv codec { w with process := .running { node with inner := node.inner } } :=
    h.keep hw rfl rfl (UInt64.le_refl _)
  unfold MetadataNode.planAndPublish
  cases planner.plan input with
  | error error => simpa using hkeep
  | ok plan =>
    by_cases ha : node.inner.Accepts proposer plan.snapshot none
    · have hpublished : (w.published ++ [plan.snapshot]).Sublist
          ((w.history ++ [(node.inner.proposalTerm none, plan.snapshot)]).map Prod.snd) := by
        rw [List.map_append]
        exact h.published.append (List.Sublist.refl _)
      obtain ⟨inner, happly, hinv⟩ := h.accept hw hroom ha hpublished
      simp only [happly]
      exact hinv
    · obtain ⟨error, hrejected⟩ := @MetadataNode.applySnapshot_rejected _
        (fileMetadataLog codec node.replayPolicy) node.inner proposer plan.snapshot none ha
      simpa [hrejected] using hkeep

/-- A node that starts has the last accepted proposal. -/
theorem Inv.start (h : w.Inv codec) {file : Option Bytes} (hw : w.process = .stopped file)
    {profile : PersistedMetadataReplayProfile} (hread : Readable codec profile.toReplayPolicy file) (nodeId : String)
    (initialSnapshot : CoordinationSnapshot) :
    Inv codec { w with process := .running (recoveredNode codec profile file nodeId initialSnapshot) } := by
  have hfile : w.process.file = file := by rw [hw]; rfl
  obtain ⟨hfresh, hwritten, hentries⟩ := h.file
  have hlast := fun t s => @FileInv.last codec w h.file t s
  rw [hfile] at hfresh hwritten hentries
  simp only [hfile] at hlast
  refine ⟨⟨hfresh, hwritten, hentries⟩, fun node' hw' => ?_, fun node' hw' t s hl => ?_, h.ordered, h.published⟩
  · cases hw'
    exact hread
  · cases hw'
    obtain ⟨e, he, rfl, rfl⟩ := hlast t s hl
    simp only [recoveredNode, he, and_true]
    exact UInt64.le_refl _

theorem Inv.step {event : SessionEvent} (hfits : w.Fits codec event) (hstep : w.step codec event = some w')
    (h : w.Inv codec) : w'.Inv codec := by
  unfold Sessions.step at hstep
  split at hstep
  · next file nodeId initialSnapshot rawProfile env hw =>
    split at hstep
    · next node resolved hstart =>
      cases hstep
      obtain ⟨_, hread, rfl⟩ := newWithReplayProfileStr_eq_ok_iff.1 hstart
      exact h.start hw hread nodeId initialSnapshot
    · cases hstep
      exact h
  · next node c hw =>
    cases hstep
    exact h.call hw hfits c rfl
  · next node proposer planner input hw =>
    cases hstep
    exact h.plan hw hfits rfl
  · next node hw =>
    cases hstep
    have hfile : w.process.file = node.inner.log := by rw [hw]; rfl
    obtain ⟨hfresh, hwritten, hentries⟩ := h.file
    rw [hfile] at hfresh hwritten hentries
    exact ⟨⟨hfresh, hwritten, hentries⟩, nofun, nofun, h.ordered, h.published⟩
  · cases hstep
    exact ⟨⟨fun _ => rfl, fun hne => absurd rfl hne, ⟨[], by simp [NodeProcess.file]⟩⟩, nofun, nofun, .nil, .slnil⟩
  · cases hstep

theorem inv_run {file : Option Bytes} {events : List SessionEvent}
    (hrun : Run (Sessions.step codec) (Fits codec) (new file) events w) : w.Inv codec :=
  hrun.invariant (fun _ _ _ hfits hstep h => h.step hfits hstep)
    ⟨⟨fun _ => rfl, fun hne => absurd rfl hne, ⟨[], by simp [new, NodeProcess.file]⟩⟩, nofun, nofun, .nil, .slnil⟩

/-- **Sessions under any replay profiles.** A node is started, works and is stopped any number of times, each time with a
profile text or environment of its own, and the file may be damaged in between. Then the proposals accepted since the
last damage have terms and generations that never decrease, across sessions too, and what is published is accepted, in
that order. The entries in the file are the last ones of those recovered from the damaged file and the accepted ones.
Once a proposal was accepted, a start with any profile that resolves succeeds, with term and snapshot of the last
accepted proposal. Before that, it succeeds exactly when the damaged file can be read under the profile, and then with
what is recovered from the file, which is the same for all profiles. In every case the policy that is reported is that of
the profile. -/
theorem sessions_recover {file : Option Bytes} {events : List SessionEvent}
    (hrun : Run (Sessions.step codec) (Fits codec) (new file) events w) :
    w.history.Pairwise NotBefore ∧ w.published.Sublist (w.history.map Prod.snd) ∧
    (recovered codec w.process.file).map MetadataLogEntry.view <:+
      (recovered codec w.origin).map MetadataLogEntry.view ++ w.history ∧
    ∀ nodeId initialSnapshot rawProfile env resolved,
      PersistedMetadataReplayProfileResolution.fromExplicitOrEnv rawProfile env = .ok resolved →
      (∀ t s, w.history.getLast? = some (t, s) → ∃ node,
        PersistedMetadataNode.newWithReplayProfileStr codec w.process.file nodeId initialSnapshot rawProfile env =
            .ok (node, resolved) ∧
          node.inner.store = ⟨t, none, s⟩ ∧ node.startupReplayPolicy = resolved.profile.toReplayPolicy) ∧
      (w.history = [] → ∀ node,
        PersistedMetadataNode.newWithReplayProfileStr codec w.process.file nodeId initialSnapshot rawProfile env =
            .ok (node, resolved) ↔
          Readable codec resolved.profile.toReplayPolicy w.origin ∧
            recoveredNode codec resolved.profile w.origin nodeId initialSnapshot = node) := by
  have hinv := inv_run hrun
  refine ⟨hinv.ordered, hinv.published, hinv.file.entries, fun nodeId initialSnapshot rawProfile env resolved hres => ?_⟩
  refine ⟨fun t s hlast => ?_, fun hnil node => ?_⟩
  · obtain ⟨e, he, rfl, rfl⟩ := hinv.file.last hlast
    have hne : w.history ≠ [] := by
      intro hnil
      rw [hnil] at hlast
      cases hlast
    have hread := (hinv.file.written hne).2 resolved.profile.toReplayPolicy
    refine ⟨_, newWithReplayProfileStr_eq_ok_iff.2 ⟨hres, hread, rfl⟩, ?_, ?_⟩
    · simp only [recoveredNode, he]
    · exact toReplayPolicy_fromReplayPolicy _
  · rw [newWithReplayProfileStr_eq_ok_iff, hinv.file.fresh hnil]
    simp only [hres, true_and]

/-- The default profile starts a node on no file, a proposal is accepted and the node is stopped. -/
def firstSession : List SessionEvent :=
  [.start "a" .default none .notPresent, .call (.setLeader "a"), .call (.applySnapshot "a" .default none), .stop]

/-- It starts again, under the profile of the environment. -/
theorem sessions_recover_env : ∃ w, Run (Sessions.step serdeLog) (Fits serdeLog) (new none) firstSession w ∧
    ∃ node, PersistedMetadataNode.newWithReplayProfileStr serdeLog w.process.file "a" .default none (.present "strict") =
      .ok (node, ⟨.strict, .environment⟩) ∧ node.inner.store = ⟨1, none, .default⟩ := by
  have hroom : HasRoom (recovered serdeLog none) := fun e he => by cases he
  have hrun : Run (Sessions.step serdeLog) (Fits serdeLog) (new none) firstSession _ :=
    .cons trivial rfl (.cons hroom rfl (.cons hroom rfl (.cons trivial rfl (.nil _))))
  have hstrict : PersistedMetadataReplayProfileResolution.fromExplicitOrEnv none (.present "strict") =
      .ok ⟨.strict, .environment⟩ := by decide
  obtain ⟨node, hnode, hstore, _⟩ :=
    ((sessions_recover hrun).2.2.2 "a" .default none (.present "strict") _ hstrict).1 1 .default rfl
  exact ⟨_, hrun, node, hnode, hstore⟩

end Sessions

end Ganglion
