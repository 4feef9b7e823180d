import Ganglion.Runtime.Serde

/-!
# Runs with failing snapshot writes

Applies, builds and installs on a persistent machine, one after another, where a write of the snapshot file may fail
before its rename. A run carries what the last successful build or install recorded (`SnapshotRun`); the file restores
exactly that (`Reopens`), since a failed call leaves the file and everything readers see (`Unchanged`).
-/

namespace Ganglion

open GanglionStateMachine

/-! ## The calls -/

/-- A call on the machine, with how its write of the file ends. -/
inductive SnapshotCall where
  | apply (entries : List Entry)
  | buildSnapshot (o : Persist)
  | installSnapshot (stored : Snapshot) (o : Persist)
  deriving DecidableEq

/-- A write that fails, fails before its rename. -/
def SnapshotCall.beforeRename : SnapshotCall → Bool
  | .apply _ => true
  | .buildSnapshot o | .installSnapshot _ o => o != .failedAfterRename

/-- What a snapshot stands for, when its data can be read. -/
def positionOf (codec : SnapshotCodec) (stored : Snapshot) : Option Position :=
  (codec.decode stored.data).map fun state =>
    ⟨stored.snapshotMeta.lastLogId, stored.snapshotMeta.lastMembership, state⟩

/-- A machine, and what the last successful build or install recorded. -/
structure SnapshotRun where
  machine : GanglionStateMachine
  recorded : Position

namespace SnapshotRun

variable (codec : SnapshotCodec)

/-- The machine after a call and whether the call failed. -/
def reply (sm : GanglionStateMachine) : SnapshotCall → GanglionStateMachine × Bool
  | .apply entries => ((sm.apply entries).1, false)
  | .buildSnapshot o => ((sm.buildSnapshot codec o).1, (sm.buildSnapshot codec o).2.toOption.isNone)
  | .installSnapshot stored o =>
    ((sm.installSnapshot codec stored o).1, (sm.installSnapshot codec stored o).2.toOption.isNone)

/-- What a successful call records: a build the position of the machine, an install what the snapshot stands for. -/
def recordedBy (r : SnapshotRun) : SnapshotCall → Position
  | .apply _ => r.recorded
  | .buildSnapshot _ => r.machine.inner.position
  | .installSnapshot stored _ => (positionOf codec stored).getD r.recorded

/-- One call. -/
def step (r : SnapshotRun) (c : SnapshotCall) : SnapshotRun where
  machine := (reply codec r.machine c).1
  recorded := if (reply codec r.machine c).2 then r.recorded else recordedBy codec r c

/-- A run on a machine that has just been opened. -/
def run (sm : GanglionStateMachine) (calls : List SnapshotCall) : SnapshotRun :=
  calls.foldl (step codec) ⟨sm, sm.inner.position⟩

end SnapshotRun

/-! ## Failed calls -/

/-- Committed state, last applied id, membership, current snapshot, watch value and file are the same. -/
structure Unchanged (sm sm' : GanglionStateMachine) : Prop where
  position : sm'.inner.position = sm.inner.position
  currentSnapshot : sm'.inner.currentSnapshot = sm.inner.currentSnapshot
  committed : sm'.committed = sm.committed
  file : sm'.file = sm.file

section

variable {codec : SnapshotCodec} {sm : GanglionStateMachine} {o : Persist}

/-- How a build ends. -/
theorem buildSnapshot_cases (hp : sm.persistent = true) (ho : o ≠ .failedAfterRename) :
    ((sm.buildSnapshot codec o).2 = .ok (builtSnapshot codec sm.inner) ∧
        (sm.buildSnapshot codec o).1.file = some (codec.storedToVec (builtSnapshot codec sm.inner))) ∨
      ((sm.buildSnapshot codec o).2 = .error .writeSnapshot ∧ Unchanged sm (sm.buildSnapshot codec o).1) := by
  cases o with
  | ok => exact Or.inl (by simp [buildSnapshot, persistOk, persistFile, hp])
  | failedBeforeRename =>
    have hfail : persistOk sm .failedBeforeRename = false := by simp [persistOk, hp]
    refine Or.inr ⟨by simp [buildSnapshot, hfail], ?_⟩
    constructor <;> simp [buildSnapshot, hfail, persistFile, hp, StateMachineInner.position]
  | failedAfterRename => exact absurd rfl ho

/-- How an install ends. -/
theorem installSnapshot_cases (hp : sm.persistent = true) (ho : o ≠ .failedAfterRename) (s : Snapshot) :
    (∃ p, positionOf codec s = some p ∧ (sm.installSnapshot codec s o).2 = .ok () ∧
        (sm.installSnapshot codec s o).1.file = some (codec.storedToVec s) ∧
        (sm.installSnapshot codec s o).1.persistent = true) ∨
      ((∃ e, (sm.installSnapshot codec s o).2 = .error e) ∧ Unchanged sm (sm.installSnapshot codec s o).1 ∧
        (sm.installSnapshot codec s o).1.persistent = true) := by
  cases hd : codec.decode s.data with
  | none =>
    have heq : sm.installSnapshot codec s o = (sm, .error .readSnapshot) := by simp [installSnapshot, hd]
    rw [heq]
    exact Or.inr ⟨⟨_, rfl⟩, ⟨rfl, rfl, rfl, rfl⟩, hp⟩
  | some state =>
    cases o with
    | ok =>
      refine Or.inl ⟨_, by simp only [positionOf, hd, Option.map_some]; rfl, ?_⟩
      simp [installSnapshot, hd, persistOk, persistFile, hp, installUpdate]
    | failedBeforeRename =>
      have hfail : persistOk sm .failedBeforeRename = false := by simp [persistOk, hp]
      have hfile : persistFile codec sm s .failedBeforeRename = sm.file := by simp [persistFile, hp]
      have heq : sm.installSnapshot codec s .failedBeforeRename = (sm, .error .writeSnapshot) := by
        simp only [installSnapshot, hd, hfail, hfile]
        rfl
      rw [heq]
      exact Or.inr ⟨⟨_, rfl⟩, ⟨rfl, rfl, rfl, rfl⟩, hp⟩
    | failedAfterRename => exact absurd rfl ho

end

/-! ## What the file restores -/

/-- Opening the file gives a machine at the position. -/
def Reopens (codec : SnapshotCodec) (file : Option Bytes) (p : Position) : Prop :=
  ∃ sm, openPersistent codec file = .ok sm ∧ sm.inner.position = p

variable {codec : SnapshotCodec}

theorem holds_of_positionOf {s : Snapshot} {p : Position} (h : positionOf codec s = some p) : Holds codec p s := by
  obtain ⟨state, hd, rfl⟩ := Option.map_eq_some_iff.1 h
  exact ⟨rfl, rfl, hd⟩

theorem reopens_stored {s : Snapshot} {p : Position} (h : Holds codec p s) :
    Reopens codec (some (codec.storedToVec s)) p :=
  ⟨_, openPersistent_stored h, installUpdate_position h⟩

theorem openPersistent_persistent {file : Option Bytes} (h : openPersistent codec file = .ok sm) :
    sm.persistent = true ∧ sm.file = file := by
  unfold openPersistent at h
  split at h
  · cases h
    exact ⟨rfl, rfl⟩
  · split at h
    · cases h
    · split at h
      · cases h
      · cases h
        exact ⟨rfl, rfl⟩

namespace SnapshotRun

/-- The machine writes its file, and the file restores what was recorded last. -/
structure Inv (codec : SnapshotCodec) (r : SnapshotRun) : Prop where
  persistent : r.machine.persistent = true
  reopens : Reopens codec r.machine.file r.recorded

/-- A failed call leaves what readers see. -/
theorem unchanged_of_failed {sm : GanglionStateMachine} (hp : sm.persistent = true) {c : SnapshotCall}
    (hc : c.beforeRename = true) (hf : (reply codec sm c).2 = true) : Unchanged sm (reply codec sm c).1 := by
  cases c with
  | apply entries => cases hf
  | buildSnapshot o =>
    rcases @buildSnapshot_cases codec sm o hp (by simpa [SnapshotCall.beforeRename] using hc) with ⟨hok, _⟩ | ⟨_, hu⟩
    · simp [reply, hok, Except.toOption] at hf
    · exact hu
  | installSnapshot s o =>
    rcases @installSnapshot_cases codec sm o hp (by simpa [SnapshotCall.beforeRename] using hc) s with
      ⟨_, _, hok, _⟩ | ⟨_, hu, _⟩
    · simp [reply, hok, Except.toOption] at hf
    · exact hu

theorem Inv.step {r : SnapshotRun} (h : Inv codec r) {c : SnapshotCall} (hc : c.beforeRename = true) :
    Inv codec (step codec r c) := by
  cases c with
  | apply entries => exact ⟨h.persistent, h.reopens⟩
  | buildSnapshot o =>
    have ho : o ≠ .failedAfterRename := by simpa [SnapshotCall.beforeRename] using hc
    refine ⟨(buildSnapshot_persistent r.machine o).trans h.persistent, ?_⟩
    rcases @buildSnapshot_cases codec r.machine o h.persistent ho with ⟨hok, hfile⟩ | ⟨herr, hu⟩
    · simp only [SnapshotRun.step, reply, hok, hfile]
      exact reopens_stored (builtSnapshot_holds r.machine.inner)
    · simp only [SnapshotRun.step, reply, herr, hu.file]
      exact h.reopens
  | installSnapshot s o =>
    have ho : o ≠ .failedAfterRename := by simpa [SnapshotCall.beforeRename] using hc
    rcases @installSnapshot_cases codec r.machine o h.persistent ho s with
      ⟨p, hpos, hok, hfile, hpers⟩ | ⟨⟨e, herr⟩, hu, hpers⟩
    · refine ⟨hpers, ?_⟩
      simp only [SnapshotRun.step, reply, hok, hfile, recordedBy, hpos]
      exact reopens_stored (holds_of_positionOf hpos)
    · refine ⟨hpers, ?_⟩
      simp only [SnapshotRun.step, reply, herr, hu.file]
      exact h.reopens

theorem Inv.steps {r : SnapshotRun} (h : Inv codec r) {calls : List SnapshotCall}
    (hc : ∀ c ∈ calls, c.beforeRename = true) : Inv codec (calls.foldl (SnapshotRun.step codec) r) := by
  induction calls generalizing r with
  | nil => exact h
  | cons c calls ih =>
    exact ih (h.step (hc c List.mem_cons_self)) fun c' hc' => hc c' (List.mem_cons_of_mem c hc')

/-- **The snapshot file restores what was recorded last.** In every run of applies, builds and installs on a machine
opened on a path, where writes may fail before their rename, a failed build or install leaves committed state, last
applied id, membership, current snapshot, watch value and file; and reopening the path at any point gives what the last
successful build or install recorded, or what the machine was opened with (the default state on a new path). -/
theorem reopen_yields_recorded {file : Option Bytes} {sm : GanglionStateMachine}
    (hopen : openPersistent codec file = .ok sm) (calls : List SnapshotCall)
    (hcalls : ∀ c ∈ calls, c.beforeRename = true) :
    Reopens codec (run codec sm calls).machine.file (run codec sm calls).recorded ∧
      (file = none → sm.inner.position = Position.start) ∧
      ∀ c : SnapshotCall, c.beforeRename = true → (reply codec (run codec sm calls).machine c).2 = true →
        Unchanged (run codec sm calls).machine (step codec (run codec sm calls) c).machine ∧
        (step codec (run codec sm calls) c).recorded = (run codec sm calls).recorded := by
  obtain ⟨hp, hfile⟩ := openPersistent_persistent hopen
  have hstart : Inv codec ⟨sm, sm.inner.position⟩ := ⟨hp, sm, by rw [hfile]; exact hopen, rfl⟩
  have hinv : Inv codec (run codec sm calls) := hstart.steps hcalls
  refine ⟨hinv.reopens, fun hnone => ?_, fun c hc hf => ⟨unchanged_of_failed hinv.persistent hc hf, ?_⟩⟩
  · rw [hnone] at hopen
    cases hopen
    rfl
  · rw [step, if_pos hf]

/-- Entries, a failed build, a build, more entries, and an install whose write fails. -/
def failingWrites : List SnapshotCall :=
  [.apply [⟨⟨⟨1, 0⟩, 1⟩, .normal (.setAttribute "mode" "active")⟩], .buildSnapshot .failedBeforeRename,
    .buildSnapshot .ok, .apply [⟨⟨⟨1, 0⟩, 2⟩, .normal (.setAttribute "mode" "drain")⟩],
    .installSnapshot ⟨⟨some ⟨⟨2, 1⟩, 9⟩, .default, "9"⟩, []⟩ .failedBeforeRename]

/-- The build is what a reopen restores: the first entry, not the second and not the leader's snapshot. -/
theorem reopen_yields_recorded_failingWrites :
    ∃ sm, openPersistent serdeSnapshot (run serdeSnapshot (onFile none) failingWrites).machine.file = .ok sm ∧
      sm.inner.position.lastApplied = some ⟨⟨1, 0⟩, 1⟩ := by
  obtain ⟨⟨sm, hopen, hpos⟩, _⟩ := reopen_yields_recorded
    (rfl : openPersistent serdeSnapshot none = .ok (onFile none)) failingWrites (by decide)
  exact ⟨sm, hopen, by rw [hpos]; rfl⟩

end SnapshotRun

end Ganglion
